import ShapeGrammar.Proofs.Factory.Form

/-!
# Interchangeable factories

The text of a factory settles the kind of its plan, the name of the shape and how many fields the
attempts have, and it is settled by them. Two factories of one kind and one name are therefore told
apart by their texts, and by digests of them that do not collide, exactly if they cannot be
exchanged: if one cannot be bound to what the other is bound to, or does not run as the other does.
The names of fields and variants and the types of fields are nowhere in the text, so schemas with
equally many fields in each variant that can be reached have one text.

Headlines: `title_and_form_of_generate`, `Interchangeable`, `interchangeable_iff_outlines`,
`Schema.form`, `generate_eq_iff_form`.
-/

namespace ShapeGrammar

/-! ## The caption -/

section Caption

variable {P Q : Type} {p : Plan P} {q : Plan Q} {title title' name name' : String}

theorem end_not_mem_caption (h : '\n' ∉ title.toList) :
    '\n' ∉ ("    # " ++ (p.factory title name).caption).toList := by
  have hkind : '\n' ∉ ("    # " ++ p.kind.name ++ " ").toList := by
    cases p.kind <;> decide
  simp only [Plan.factory, String.toList_append, List.mem_append] at hkind ⊢
  tauto

/-- The kind and the title can be read back from a caption. -/
theorem kind_and_title_of_caption
    (h : (p.factory title name).caption = (q.factory title' name').caption) :
    p.kind = q.kind ∧ title = title' := by
  have hchars := congrArg String.toList h
  have hkind : p.kind = q.kind := by
    revert hchars
    simp only [Plan.factory]
    cases p.kind <;> cases q.kind <;> simp [PlanKind.name]
  simp only [Plan.factory, hkind, String.toList_append] at hchars
  exact ⟨hkind, String.toList_inj.mp (List.append_cancel_left hchars)⟩

/-- **The title and the form of a plan can be read back from the text of its factory**, if the
title stands on one line. -/
theorem title_and_form_of_generate (hp : p.Ordered) (hq : q.Ordered) (htitle : '\n' ∉ title.toList)
    (htitle' : '\n' ∉ title'.toList) (h : p.generate title name = q.generate title' name) :
    title = title' ∧ p.form = q.form := by
  obtain ⟨hcaption, hlines⟩ :=
    parted_by_first (end_not_mem_caption htitle) (end_not_mem_caption htitle') (body_of_generate h)
  simp only [String.toList_append] at hcaption
  obtain ⟨hkind, heq⟩ :=
    kind_and_title_of_caption (String.toList_inj.mp (List.append_cancel_left hcaption))
  exact ⟨heq, Prod.ext hkind (lengths_of_code hp hq (code_of_writtenLines hp hq hlines))⟩

/-- Plans of one form have the same text under the same title. -/
theorem generate_eq_iff_of_ordered (hp : p.Ordered) (hq : q.Ordered) (htitle : '\n' ∉ title.toList)
    (htitle' : '\n' ∉ title'.toList) :
    p.generate title name = q.generate title' name ↔ title = title' ∧ p.form = q.form := by
  constructor
  · exact title_and_form_of_generate hp hq htitle htitle'
  · rintro ⟨rfl, hform⟩
    unfold Plan.generate Plan.factory
    rw [code_of_form hp hq hform, (Prod.mk.inj hform).1]

theorem lengths_eq_iff {as : List (Attempt P)} {bs : List (Attempt Q)} :
    as.map (·.parsers.length) = bs.map (·.parsers.length) ↔
      List.Forall₂ (fun a b => a.parsers.length = b.parsers.length) as bs := by
  rw [← List.forall₂_eq_eq_eq, List.forall₂_map_left_iff, List.forall₂_map_right_iff]

theorem form_eq_iff : p.form = q.form ↔ p.kind = q.kind ∧
    List.Forall₂ (fun a b => a.parsers.length = b.parsers.length) p.attempts q.attempts := by
  unfold Plan.form
  rw [Prod.mk.injEq, lengths_eq_iff]

end Caption

/-! ## Factories that can be exchanged -/

/-- A factory stands in for the one of a plan: it can be bound to the classes and the field parsers
of the plan and then runs as the plan's own, whatever the field parsers do. -/
structure StandsIn (code : Code) (plan : Plan Parser) (own : Code) : Prop where
  bound : ∃ bound, code.bind plan = .ok bound
  runs : ∀ (call : Entry → Parser → CursorId → Act Outcome) (entry : Entry) (c : CursorId),
    code.invoke call plan entry c = own.invoke call plan entry c

/-- Either of the factories of two plans stands in for the other. -/
def Interchangeable (p : Plan Parser) (code : Code) (q : Plan Parser) (code' : Code) : Prop :=
  StandsIn code q code' ∧ StandsIn code' p code

theorem length_of_unpackInto {α : Type} : ∀ {names : List String} {vs : List α} {t : Table α},
    unpackInto names vs = .ok t → names.length = vs.length
  | [], [], _, _ => rfl
  | [], _ :: _, _, h => by cases h
  | _ :: _, [], _, h => by cases h
  | n :: ns, v :: vs, t, h => by
    obtain ⟨rest, hrest, -⟩ := except_bind_eq_ok_iff.mp h
    rw [List.length_cons, List.length_cons, length_of_unpackInto hrest]

/-- Rows of variables that are unpacked are as long as what they unpack. -/
theorem lengths_of_run {targets : List ClassRef} {parsers : List (List Parser)} {rest : Code} :
    ∀ {rows : List (Nat × List String)} {items : Table Item} {bound : Bound},
      Code.run targets parsers items
          (rows.map (fun row => .parsers row.1 row.2) ++ rest) = .ok bound →
        ∀ row ∈ rows, row.2.length = (parsers.getD row.1 []).length
  | [], _, _, _, _, hrow => absurd hrow List.not_mem_nil
  | first :: rows, items, bound, h, row, hrow => by
    obtain ⟨unpacked, hfirst, h⟩ := except_bind_eq_ok_iff.mp h
    rcases List.mem_cons.mp hrow with rfl | hrow
    · simpa using length_of_unpackInto hfirst
    · exact lengths_of_run h row hrow

section Exchange

variable {p q : Plan Parser}

/-- What a factory can be bound to is as long as what it unpacks. -/
theorem lengths_of_bind {bound : Bound} (h : p.code.bind q = .ok bound) :
    p.attempts.length = q.attempts.length ∧
      ∀ (i : Nat) (a b : Attempt Parser), p.attempts[i]? = some a → q.attempts[i]? = some b →
        a.isUnit = false → a.parsers.length = b.parsers.length := by
  unfold Code.bind Plan.code at h
  rw [List.cons_append, List.cons_append, List.append_assoc, Plan.unpackings_eq] at h
  obtain ⟨row, htargets, h⟩ := except_bind_eq_ok_iff.mp h
  constructor
  · simpa using length_of_unpackInto htargets
  · intro i a b ha hb hunit
    have hrow : (i, (List.range a.parsers.length).map (parserName i)) ∈ p.rows :=
      List.mem_map.mpr ⟨(a, i), mem_placed ha hunit, rfl⟩
    have hlength := lengths_of_run h _ hrow
    simpa [List.getD_eq_getElem?_getD, hb] using hlength

/-- Factories that can be bound to each other's field parsers have attempts with equally many
fields. -/
theorem lengths_of_interchangeable (h : Interchangeable p p.code q q.code) :
    List.Forall₂ (fun a b => a.parsers.length = b.parsers.length) p.attempts q.attempts := by
  obtain ⟨⟨⟨bound, hbound⟩, -⟩, ⟨bound', hbound'⟩, -⟩ := h
  obtain ⟨hcount, hlengths⟩ := lengths_of_bind hbound
  obtain ⟨-, hlengths'⟩ := lengths_of_bind hbound'
  refine List.forall₂_iff_get.mpr ⟨hcount, fun i hi hi' => ?_⟩
  have ha := List.getElem?_eq_getElem hi
  have hb := List.getElem?_eq_getElem hi'
  -- an attempt with fields fixes the number of the other's, on whichever side it stands
  cases hunit : (p.attempts[i]).isUnit with
  | false => exact hlengths i _ _ ha hb hunit
  | true =>
    cases hunit' : (q.attempts[i]).isUnit with
    | false => exact (hlengths' i _ _ hb ha hunit').symm
    | true =>
      have hnone := List.isEmpty_iff.mp hunit
      have hnone' := List.isEmpty_iff.mp hunit'
      simp [hnone, hnone']

/-- The factory of a plan with the same outlines is the plan's own. -/
theorem standsIn_of_outlines
    (h : List.Forall₂ (fun a b => a.outline = b.outline) p.attempts q.attempts) :
    StandsIn p.code q q.code := by
  rw [code_of_outline h]
  exact ⟨⟨_, q.bind_code⟩, fun _ _ _ => rfl⟩

theorem interchangeable_of_outlines
    (h : List.Forall₂ (fun a b => a.outline = b.outline) p.attempts q.attempts) :
    Interchangeable p p.code q q.code :=
  ⟨standsIn_of_outlines h, standsIn_of_outlines (h.flip.imp fun _ _ => Eq.symm)⟩

/-- **Factories can be exchanged iff their attempts agree** in the number of fields, in whether
they run on a snapshot, and in whether they are without fields. -/
theorem interchangeable_iff_outlines (hp : p.Ordered) (hq : q.Ordered) :
    Interchangeable p p.code q q.code ↔
      List.Forall₂ (fun a b => a.parsers.length = b.parsers.length ∧ a.snapshot = b.snapshot ∧
        a.isUnit = b.isUnit) p.attempts q.attempts := by
  constructor
  · intro h
    have hlengths := lengths_eq_iff.mpr (lengths_of_interchangeable h)
    exact (outlines_of_lengths hp hq hlengths).imp fun a b hab =>
      ⟨(Prod.mk.inj hab).1, (Prod.mk.inj hab).2, isUnit_of_outline hab⟩
  · exact fun h => interchangeable_of_outlines (h.imp fun a b hab => Prod.ext hab.1 hab.2.1)

end Exchange

/-! ## Plans of schemas -/

/-- What planning leaves of a schema in the text of a factory: its kind, and how many fields each
variant has up to the first one without fields. -/
def Schema.form : Schema → PlanKind × List Nat
  | .product _ fields => (.product, [fields.length])
  | .sum _ variants => (.sum, (reachable variants).1.map (·.fields.length))

section Planned

variable {r : Resolver}

theorem lengths_of_planVariants : ∀ {vs : List Variant} {as : List (Attempt Parser)}
    {g g' : Grammar}, planVariants r vs g = .ok as g' →
      as.map (·.parsers.length) = vs.map (·.fields.length)
  | [], _, _, _, h => by
    cases h
    rfl
  | v :: vs, as, g, g', h => by
    obtain ⟨ps, rest, g1, hps, hrest, rfl⟩ := planVariants_cons h
    rw [List.map_cons, List.map_cons, fieldParsers_length hps, lengths_of_planVariants hrest]

/-- The form of a plan is that of the schema it was made for. -/
theorem form_of_planSchema {s : Schema} {p : Plan Parser} {g g' : Grammar}
    (h : planSchema r s g = .ok p g') : p.form = s.form := by
  cases s with
  | product target fields =>
    obtain ⟨ps, kind, name, g1, hps, -, -, rfl⟩ := planSchema_product h
    simp [Plan.form, Schema.form, fieldParsers_length hps]
  | sum target variants =>
    obtain ⟨-, as, kind, g1, g2, -, has, -, rfl⟩ := planSchema_sum h
    simp only [Plan.form, Schema.form, lengths_of_planVariants has]

end Planned

/-! ## The theorem -/

/-- **The text of a factory settles the shape of its plan, and is settled by it.** Plans of schemas
whose names stand on one line have one text iff they have one kind, one name, equally many attempts
and equally many fields in each of them; iff, that is, their schemas have one form. Fingerprints
that do not collide on the texts agree iff the kinds and the names are the same and the factories
can be exchanged, which is to say that they have the same numbers of fields, the same snapshots and
the same attempts without fields. The factories are those that the texts are read as. -/
theorem generate_eq_iff_form {r r' : Resolver} {s s' : Schema} {p q : Plan Parser}
    {g g1 g' g1' : Grammar} (hp : planSchema r s g = .ok p g1)
    (hq : planSchema r' s' g' = .ok q g1') (h h' : Grammar)
    (hline : '\n' ∉ (h.fullName p.target).toList)
    (hline' : '\n' ∉ (h'.fullName q.target).toList) :
    (∀ name, p.generate (h.fullName p.target) name = q.generate (h'.fullName q.target) name ↔
      p.kind = q.kind ∧ h.fullName p.target = h'.fullName q.target ∧
        List.Forall₂ (fun a b => a.parsers.length = b.parsers.length) p.attempts q.attempts) ∧
    (∀ name, p.generate (h.fullName p.target) name = q.generate (h'.fullName q.target) name ↔
      h.fullName p.target = h'.fullName q.target ∧ s.form = s'.form) ∧
    ((Digest.Sha256.hexDigest (p.generate (h.fullName p.target) factoryName) =
          Digest.Sha256.hexDigest (q.generate (h'.fullName q.target) factoryName) →
        p.generate (h.fullName p.target) factoryName =
          q.generate (h'.fullName q.target) factoryName) →
      (p.fingerprint (h.fullName p.target) = q.fingerprint (h'.fullName q.target) ↔
        p.kind = q.kind ∧ h.fullName p.target = h'.fullName q.target ∧
          Interchangeable p p.code q q.code)) ∧
    (Interchangeable p p.code q q.code ↔
      List.Forall₂ (fun a b => a.parsers.length = b.parsers.length ∧ a.snapshot = b.snapshot ∧
        a.isUnit = b.isUnit) p.attempts q.attempts) ∧
    ∀ title name, OneLine title → IsName name →
      Code.ofText name (p.generate title name) = .ok p.code ∧
        Code.ofText name (q.generate title name) = .ok q.code := by
  have hpo := planSchema_ordered hp
  have hqo := planSchema_ordered hq
  have htext : ∀ name,
      p.generate (h.fullName p.target) name = q.generate (h'.fullName q.target) name ↔
        h.fullName p.target = h'.fullName q.target ∧ p.form = q.form :=
    fun _ => generate_eq_iff_of_ordered hpo hqo hline hline'
  refine ⟨fun name => ?_, fun name => ?_, fun hdigest => ?_, interchangeable_iff_outlines hpo hqo,
    fun title name htitle hname =>
      ⟨hpo.ofText_generate htitle hname, hqo.ofText_generate htitle hname⟩⟩
  · rw [htext, form_eq_iff]
    tauto
  · rw [htext, form_of_planSchema hp, form_of_planSchema hq]
  · constructor
    · intro heq
      obtain ⟨htitle, hform⟩ := (htext factoryName).mp (hdigest heq)
      obtain ⟨hkind, hlengths⟩ := Prod.mk.inj hform
      exact ⟨hkind, htitle, interchangeable_of_outlines (outlines_of_lengths hpo hqo hlengths)⟩
    · rintro ⟨hkind, htitle, hexchange⟩
      have hform := form_eq_iff.mpr ⟨hkind, lengths_of_interchangeable hexchange⟩
      unfold Plan.fingerprint
      rw [(htext factoryName).mpr ⟨htitle, hform⟩]

/-- A choice of the form of `letterSchema`, with other names and other types everywhere. -/
def callSchema : Schema :=
  .sum (.declared 0)
    [⟨"Call", .declared 3,
        [⟨"callee", .cls (.character 'f')⟩, ⟨"argument", .list (.cls (.character 'x'))⟩]⟩,
      ⟨"Name", .declared 4, [⟨"name", .cls (.character 'x')⟩]⟩]

/-- The plan of `callSchema`. -/
def callPlan : Plan Parser where
  target := .declared 0
  kind := .sum
  attempts :=
    [⟨"Call", .declared 3, [.character 'f', .many true (.character 'x')], true⟩,
      ⟨"Name", .declared 4, [.character 'x'], false⟩]
  errorKind := some .element

/-- A grammar whose one class is called `Terms`. -/
def termsGrammar : Grammar :=
  { Grammar.empty none with
    classes := #[{ (default : ClassInfo) with name := "Terms", qualifiedName := "Terms" }] }

theorem generate_eq_iff_form_terms :
    planSchema (resolver 0) letterSchema termsGrammar = .ok letterPlan termsGrammar ∧
      planSchema (resolver 0) callSchema termsGrammar =
        .ok callPlan (stateAfter (planSchema (resolver 0) callSchema) termsGrammar) ∧
      '\n' ∉ (termsGrammar.fullName letterPlan.target).toList ∧
      letterPlan.generate "grammar.Terms" "build" = callPlan.generate "grammar.Terms" "build" ∧
      letterPlan.fingerprint "grammar.Terms" = callPlan.fingerprint "grammar.Terms" ∧
      Interchangeable letterPlan letterPlan.code callPlan callPlan.code := by
  have hletters : planSchema (resolver 0) letterSchema termsGrammar =
      .ok letterPlan termsGrammar := rfl
  have hcalls : planSchema (resolver 0) callSchema termsGrammar =
      .ok callPlan (stateAfter (planSchema (resolver 0) callSchema) termsGrammar) := rfl
  have hline : '\n' ∉ (termsGrammar.fullName letterPlan.target).toList := by decide +kernel
  obtain ⟨-, htext, hdigest, -, -⟩ :=
    generate_eq_iff_form hletters hcalls termsGrammar termsGrammar hline hline
  have hsame := fun name => (htext name).mpr ⟨rfl, rfl⟩
  have hagree : letterPlan.fingerprint "grammar.Terms" = callPlan.fingerprint "grammar.Terms" :=
    congrArg Digest.Sha256.hexDigest (hsame factoryName)
  exact ⟨hletters, hcalls, hline, hsame "build", hagree,
    ((hdigest fun _ => hsame factoryName).mp hagree).2.2⟩

end ShapeGrammar
