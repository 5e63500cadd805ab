import ShapeGrammar.Proofs.Inhabitation.Parses

/-!
# Shapes resolved to parsers

A shape is resolved to a parser of its own structure, and a class is planned as its schema has it.
So what is found out about a grammar fits its declarations, and goes on fitting them.

Headlines: `resolveShape_parses`, `planSchema_realizes`, `resolver_sound`.
-/

namespace ShapeGrammar

open Resolution Grammar

/-- Answers that keep a grammar consistent; the parser of an alias is one of its value. -/
structure Resolver.Sound (r : Resolver) : Prop extends r.Obeys (Keeps Consistent) where
  persists (g0 : Grammar) : r.Answers (Keeps g0.Persists)
  expands {expanding a g h g'} : g.Consistent → r.aliasParser expanding a g = .ok h g' →
    g'.Parses h.body (.alias a)

section Shapes

variable {r : Resolver} {g g' : Grammar}

/-- A new parser that is one of a shape. -/
theorem parses_newHandle {body : Parser} {a : Shape} {h : Handle} (hparses : g.Parses body a)
    (hnew : newHandle body g = .ok h g') : g'.Parses h.body a := by
  have hpersists : g.Persists { g with made := g.made + 1 } := persists_of_eq rfl rfl rfl rfl rfl
  cases hnew
  exact hparses.mono hpersists

theorem failShowing_ne_ok {α : Type} {a : Shape} {f : Fault} {x : α} :
    (failShowing a f : Resolution α) g ≠ .ok x g' := by
  intro h
  obtain ⟨g1, g2, -, h⟩ := bind_eq_ok_iff.mp h
  obtain ⟨u, g3, -, h⟩ := bind_eq_ok_iff.mp h
  cases h

theorem classParser_parses {c : ClassRef} {h : Handle} (hc : classParser c g = .ok h g') :
    g'.Parses h.body (.cls c) := by
  unfold classParser at hc
  replace hc := get_bind_eq_ok_iff.mp hc
  cases c with
  | declared d =>
    dsimp only at hc
    split at hc
    · cases hc
      exact .derived .refl
    · cases hc
  | character c =>
    cases hc
    exact .character .refl
  | builtin b =>
    cases b with
    | text =>
      cases hc
      exact .text .refl
    | _ => cases hc

variable (hr : r.Sound)
include hr

mutual

/-- **A shape is resolved to a parser of its own structure.** -/
theorem resolveShape_parses {expanding : List AliasId} :
    ∀ {a : Shape} {g g' : Grammar} {h : Handle}, g.Consistent →
      resolveShape r expanding a g = .ok h g' → g'.Parses h.body a
  | .parser _, _, _, _, _, _ => .raw .refl rfl
  | .cls c, g, g', h, _, hx => classParser_parses hx
  | .alias a, g, g', h, hg, hx => hr.expands hg hx
  | .annotated body notes, g, g', h, hg, hx => by
    unfold resolveShape at hx
    cases hnote : Shape.notedParser? notes with
    | some note => exact .raw .refl (by simp [Shape.isRaw, hnote])
    | none =>
      rw [hnote] at hx
      exact (resolveShape_parses hg hx).stands .annotated
  | .tuple items, g, g', h, hg, hx => by
    unfold resolveShape at hx
    split at hx
    · exact absurd hx failShowing_ne_ok
    · obtain ⟨ps, g1, hps, hx⟩ := bind_eq_ok_iff.mp hx
      exact parses_newHandle (resolveShapes_parses hg hps) hx
  | .list item, g, g', h, hg, hx => by
    obtain ⟨p, g1, hp, hx⟩ := bind_eq_ok_iff.mp hx
    exact parses_newHandle (.list .refl (resolveShape_parses hg hp)) hx
  | .nonempty item, g, g', h, hg, hx => by
    obtain ⟨p, g1, hp, hx⟩ := bind_eq_ok_iff.mp hx
    exact parses_newHandle (.nonempty .refl (resolveShape_parses hg hp)) hx
  | .union [a, b], g, g', h, hg, hx => by
    unfold resolveShape at hx
    split at hx
    · rename_i ha
      obtain ⟨p, g1, hp, hx⟩ := bind_eq_ok_iff.mp hx
      exact parses_newHandle (.second .refl ha (resolveShape_parses hg hp)) hx
    · split at hx
      · rename_i hb
        obtain ⟨p, g1, hp, hx⟩ := bind_eq_ok_iff.mp hx
        exact parses_newHandle (.first .refl hb (resolveShape_parses hg hp)) hx
      · exact absurd hx failShowing_ne_ok
  | .either left right, g, g', h, hg, hx => by
    obtain ⟨p, g1, hp, hx⟩ := bind_eq_ok_iff.mp hx
    obtain ⟨q, g2, hq, hx⟩ := bind_eq_ok_iff.mp hx
    have hg1 := (consistent_steps.resolveShape hr.aliasParser expanding left).of_ok hg hp
    have hpersists := persists_of_ok (fun g0 =>
      (persists_law g0).toStepLaw.resolveShape (hr.persists g0).aliasParser expanding right) hq
    exact parses_newHandle (.either .refl ((resolveShape_parses hg hp).mono hpersists)
      (resolveShape_parses hg1 hq)) hx
  | .not body, g, g', h, hg, hx => by
    obtain ⟨p, g1, hp, hx⟩ := bind_eq_ok_iff.mp hx
    exact parses_newHandle (.not .refl (resolveShape_parses hg hp)) hx
  | .box body, g, g', h, hg, hx => by
    obtain ⟨b, g1, hb, hx⟩ := bind_eq_ok_iff.mp hx
    cases hb
    refine parses_newHandle (.box .refl ?_ ?_) hx
    · rw [Array.size_push]
      exact Nat.lt_succ_self _
    · unfold boxInfo
      simp only [Array.getD_eq_getD_getElem?, Array.getElem?_push_size, Option.getD_some]
  | .union [], _, _, _, _, hx => absurd hx failShowing_ne_ok
  | .union [_], _, _, _, _, hx => absurd hx failShowing_ne_ok
  | .union (_ :: _ :: _ :: _), _, _, _, _, hx => absurd hx failShowing_ne_ok
  | .nothing, _, _, _, _, hx => absurd hx failShowing_ne_ok
  | .ellipsis, _, _, _, _, hx => absurd hx failShowing_ne_ok
  | .constant _, _, _, _, _, hx => absurd hx failShowing_ne_ok
  | .foreign _, _, _, _, _, hx => absurd hx failShowing_ne_ok
  | .forward _, _, _, _, _, hx => absurd hx failShowing_ne_ok
  | .mapping _ _, _, _, _, _, hx => absurd hx failShowing_ne_ok
  | .shared _, _, _, _, _, hx => absurd hx failShowing_ne_ok
  | .parameterOnly _, _, _, _, _, hx => absurd hx failShowing_ne_ok

theorem resolveShapes_parses {expanding : List AliasId} :
    ∀ {as : List Shape} {g g' : Grammar} {ps : List Parser}, g.Consistent →
      resolveShapes r expanding as g = .ok ps g' → g'.Parses (.seq ps) (.tuple as)
  | [], _, _, _, _, hx => by
    cases hx
    exact .tupleNil .refl
  | a :: as, g, g', ps, hg, hx => by
    unfold resolveShapes at hx
    obtain ⟨p, g1, hp, hx⟩ := bind_eq_ok_iff.mp hx
    obtain ⟨qs, g2, hqs, hx⟩ := bind_eq_ok_iff.mp hx
    cases hx
    have hg1 := (consistent_steps.resolveShape hr.aliasParser expanding a).of_ok hg hp
    have hpersists := persists_of_ok (fun g0 =>
      (persists_law g0).toStepLaw.resolveShapes (hr.persists g0).aliasParser expanding as) hqs
    exact .tupleCons .refl ((resolveShape_parses hg hp).mono hpersists)
      (resolveShapes_parses hg1 hqs)

end

/-! ## Plans -/

theorem fieldParsers_parses {owner : ClassRef} : ∀ {fs : List SchemaField} {g g' : Grammar}
    {ps : List Parser}, g.Consistent → fieldParsers r owner fs g = .ok ps g' →
      g'.Parses (.seq ps) (.tuple (fs.map (·.shape)))
  | [], _, _, _, _, hx => by
    cases hx
    exact .tupleNil .refl
  | f :: fs, g, g', ps, hg, hx => by
    unfold fieldParsers at hx
    obtain ⟨p, g1, hp, hx⟩ := bind_eq_ok_iff.mp hx
    obtain ⟨qs, g2, hqs, hx⟩ := bind_eq_ok_iff.mp hx
    cases hx
    have hparser := mapSchemaFault_eq_ok hp
    have hg1 := (consistent_steps.parserFor hr.toAnswers f.shape).of_ok hg hparser
    have hpersists := persists_of_ok (fun g0 =>
      (persists_law g0).toStepLaw.fieldParsers (hr.persists g0) owner fs) hqs
    exact .tupleCons .refl ((resolveShape_parses hr hg hparser).mono hpersists)
      (fieldParsers_parses hg1 hqs)

theorem planVariants_attempts : ∀ {vs : List Variant} {g g' : Grammar} {as : List (Attempt Parser)},
    g.Consistent → planVariants r vs g = .ok as g' →
      List.Forall₂ g'.Attempts as (vs.map fun v => (v.target, v.fields))
  | [], _, _, _, _, hx => by
    cases hx
    exact .nil
  | v :: vs, g, g', as, hg, hx => by
    obtain ⟨ps, rest, g1, hps, hrest, rfl⟩ := planVariants_cons hx
    have hg1 := (consistent_steps.fieldParsers hr.toAnswers v.target v.fields).of_ok hg hps
    have hpersists := persists_of_ok (fun g0 =>
      (persists_law g0).toStepLaw.planVariants (hr.persists g0) vs) hrest
    exact .cons ⟨rfl, (fieldParsers_parses hr hg hps).mono hpersists⟩
      (planVariants_attempts hg1 hrest)

/-- **A plan makes one attempt for each form of its schema.** -/
theorem planSchema_realizes {schema : Schema} {plan : Plan Parser} (hg : g.Consistent)
    (h : planSchema r schema g = .ok plan g') : g'.Realizes plan schema := by
  cases schema with
  | product target fields =>
    obtain ⟨ps, kind, name, g1, hps, hkind, -, rfl⟩ := planSchema_product h
    have hpersists := persists_of_ok (fun g0 =>
      (persists_law g0).toStepLaw.sequenceErrorKind (hr.persists g0) ps) hkind
    exact .cons ⟨rfl, (fieldParsers_parses hr hg hps).mono hpersists⟩ .nil
  | sum target variants =>
    obtain ⟨-, as, kind, g1, g2, hhidden, has, hkind, rfl⟩ := planSchema_sum h
    have hg1 := (consistent_steps.reportHidden target _ _).of_ok hg hhidden
    have hpersists := persists_of_ok (fun g0 =>
      (persists_law g0).toStepLaw.sumErrorKind (hr.persists g0) target variants as) hkind
    exact List.Forall₂.imp (fun _ _ => Attempts.mono hpersists) (planVariants_attempts hr hg1 has)

end Shapes

/-! ## Questions -/

/-- What may be kept as found without making a grammar inconsistent. -/
def Finding.Apt (g : Grammar) {α : Type} : Finding α → α → Prop
  | .plan c, found =>
    found.Ordered ∧ ∃ schema, g.schemaOf (.declared c) = .ok schema ∧ g.Realizes found schema
  | .value a, body => g.ComesTo a body
  | .handle a, h => g.Parses h.body (.alias a)
  | .box b, p => ∀ {body}, (g.boxInfo b).body = .shape body → g.Parses p body
  | .kind _, _ => True

namespace Grammar

theorem Consistent.keep {α : Type} {f : Finding α} {a : α} {g : Grammar} (h : g.Consistent)
    (hapt : f.Apt g a) : (f.keep g a).Consistent := by
  have hpersists := persists_keep (g := g) f a
  have hbox : ∀ {b p body}, (g.boxInfo b).parser = some p → (g.boxInfo b).body = .shape body →
      (g.boxInfo b).parser = some p ∧ (g.boxInfo b).body = .shape body ∨
        (f.keep g a).Parses p body := fun hp hbody => .inl ⟨hp, hbody⟩
  cases f with
  | plan c =>
    refine h.extend hpersists .inl .inl hbox fun {d plan} hd => ?_
    simp only [Finding.keep, classInfo_updateClass] at hd
    split at hd
    · rename_i hcd
      cases hd
      obtain ⟨rfl, -⟩ := hcd
      obtain ⟨hordered, schema, hschema, hrealizes⟩ := hapt
      exact .inr ⟨hordered, schema, (hpersists.schemaOf_eq _).trans hschema,
        hrealizes.mono hpersists⟩
    · exact .inl hd
  | value c =>
    refine h.extend hpersists (fun {d body} hd => ?_) (fun {d handle} hd => ?_) hbox .inl
    · simp only [Finding.keep, aliasInfo_updateAlias] at hd
      split at hd
      · rename_i hcd
        cases hd
        obtain ⟨rfl, -⟩ := hcd
        exact .inr (hpersists.comesTo_iff.mpr hapt)
      · exact .inl hd
    · simp only [Finding.keep, aliasInfo_updateAlias] at hd
      split at hd <;> exact .inl hd
  | handle c =>
    refine h.extend hpersists (fun {d body} hd => ?_) (fun {d handle} hd => ?_) hbox .inl
    · simp only [Finding.keep, aliasInfo_updateAlias] at hd
      split at hd <;> exact .inl hd
    · simp only [Finding.keep, aliasInfo_updateAlias] at hd
      split at hd
      · rename_i hcd
        cases hd
        obtain ⟨rfl, -⟩ := hcd
        exact .inr (hapt.mono hpersists)
      · exact .inl hd
  | box c =>
    refine h.extend hpersists .inl .inl (fun {d p body} hp hbody => ?_) .inl
    simp only [Finding.keep, boxInfo_updateBox] at hp hbody
    by_cases hcd : c = d ∧ d < g.boxes.size
    · rw [if_pos hcd] at hp hbody
      obtain ⟨rfl, -⟩ := hcd
      cases hp
      exact .inr ((hapt hbody).mono hpersists)
    · rw [if_neg hcd] at hp hbody
      exact .inl ⟨hp, hbody⟩
  | kind c =>
    refine h.extend hpersists .inl .inl (fun {d p body} hp hbody => ?_) .inl
    simp only [Finding.keep, boxInfo_updateBox] at hp hbody
    by_cases hcd : c = d ∧ d < g.boxes.size
    · rw [if_pos hcd] at hp hbody
      exact .inl ⟨hp, hbody⟩
    · rw [if_neg hcd] at hp hbody
      exact .inl ⟨hp, hbody⟩

end Grammar

section Questions

variable {n : Nat} {g g' : Grammar}

/-- A class is planned as its schema has it. -/
theorem makePlan_apt {c : ClassId} {plan : Plan Parser} (hr : (resolver n).Sound)
    (hg : g.Consistent) (h : makePlan (resolver n) c g = .ok plan g') :
    (Finding.plan c).Apt g' plan := by
  have hpersists := persists_of_ok (fun g0 =>
    (persists_law g0).toStepLaw.makePlan (hr.persists g0) c) h
  obtain ⟨-, schema, g1, report, hschema, hplan, rfl⟩ := makePlan_eq_ok h
  have hunder : Grammar.Persists g { g with pending := .cls c :: g.pending } :=
    persists_of_eq rfl rfl rfl rfl rfl
  have hmarked : Consistent { g with pending := .cls c :: g.pending } :=
    hg.of_eq rfl rfl rfl rfl rfl
  have hrealizes := planSchema_realizes hr hmarked hplan
  have hafter : g1.Persists ({ g1 with pending := g1.pending.tail }.report report) := by
    unfold Grammar.report
    split <;> exact persists_of_eq rfl rfl rfl rfl rfl
  refine ⟨planSchema_ordered hplan, schema, ?_, hrealizes.mono hafter⟩
  rw [hpersists.schemaOf_eq, ← hunder.schemaOf_eq]
  exact hschema

theorem keeps_findPlan (hr : (resolver n).Sound) (c : ClassId) :
    Keeps Consistent (findPlan (resolver n) c) := fun g hg =>
  keeps_remember (.plan c) hg (consistent_steps.makePlan hr.toAnswers c g hg)
    fun _ h hg' => hg'.keep (makePlan_apt hr hg h)

/-- What an alias is found to stand for is what its expression comes to. -/
theorem aliasShape_apt {a : AliasId} {body : Shape} (hr : (resolver n).Sound)
    (h : (get >>= fun g : Grammar =>
      evaluateShape (resolver n) false (g.aliasInfo a).expression) g = .ok body g') :
    (Finding.value a).Apt g' body := by
  have hpersists := persists_of_ok (fun g0 =>
    (persists_law g0).toStepLaw.aliasShape (hr.persists g0) a) h
  exact hpersists.comesTo_iff.mpr ⟨n, g, g', .refl g, h⟩

theorem keeps_aliasValue (hr : (resolver n).Sound) (a : AliasId) :
    Keeps Consistent (aliasValue (resolver n) a) := fun g hg =>
  keeps_remember (.value a) hg (consistent_steps.aliasShape hr.toAnswers a g hg)
    fun _ h hg' => hg'.keep (aliasShape_apt hr h)

theorem aliasValue_comesTo {a : AliasId} {body : Shape} (hr : (resolver n).Sound)
    (hg : g.Consistent) (h : aliasValue (resolver n) a g = .ok body g') : g'.ComesTo a body := by
  unfold aliasValue at h
  cases hvalue : (g.aliasInfo a).value with
  | some known =>
    rw [remember_of_known (f := .value a) hvalue] at h
    cases h
    exact hg.value hvalue
  | none =>
    rw [remember_of_unknown (f := .value a) hvalue] at h
    obtain ⟨found, g1, hfound, h⟩ := bind_eq_ok_iff.mp h
    obtain ⟨⟨⟩, g2, hkeep, h⟩ := bind_eq_ok_iff.mp h
    cases hkeep
    cases h
    exact (persists_keep (.value a) body).comesTo_iff.mpr (aliasShape_apt hr hfound)

/-- The parser that an alias is found to have is one of its value. -/
theorem resolveAlias_parses {expanding : List AliasId} {a : AliasId} {h : Handle}
    (hr : (resolver n).Sound) (hg : g.Consistent)
    (hx : resolveAlias (resolver n) expanding a g = .ok h g') : g'.Parses h.body (.alias a) := by
  unfold resolveAlias at hx
  replace hx := get_bind_eq_ok_iff.mp hx
  split at hx
  · cases hx
  · obtain ⟨body, g2, hbody, hx⟩ := bind_eq_ok_iff.mp hx
    have hg2 := (keeps_aliasValue hr a).of_ok hg hbody
    have hpersists := persists_of_ok (fun g0 =>
      (persists_law g0).toStepLaw.resolveShape (hr.persists g0).aliasParser _ body) hx
    have hvalue := hpersists.comesTo_iff.mpr (aliasValue_comesTo hr hg hbody)
    exact (resolveShape_parses hr hg2 hx).stands (.value hvalue)

theorem keeps_resolveAlias (hr : (resolver n).Sound) (expanding : List AliasId) (a : AliasId) :
    Keeps Consistent (resolveAlias (resolver n) expanding a) :=
  consistent_steps.resolveAlias hr.aliasParser expanding (keeps_aliasValue hr a)

theorem keeps_expandAlias (hr : (resolver n).Sound) (expanding : List AliasId) (a : AliasId) :
    Keeps Consistent (expandAlias (resolver n) expanding a) := fun g hg =>
  keeps_remember (.handle a) hg (keeps_resolveAlias hr expanding a g hg)
    fun _ h hg' => hg'.keep (resolveAlias_parses hr hg h)

theorem expandAlias_parses {expanding : List AliasId} {a : AliasId} {h : Handle}
    (hr : (resolver n).Sound) (hg : g.Consistent)
    (hx : expandAlias (resolver n) expanding a g = .ok h g') : g'.Parses h.body (.alias a) := by
  unfold expandAlias at hx
  cases hhandle : (g.aliasInfo a).parser with
  | some known =>
    rw [remember_of_known (f := .handle a) hhandle] at hx
    cases hx
    exact hg.handle hhandle
  | none =>
    rw [remember_of_unknown (f := .handle a) hhandle] at hx
    obtain ⟨found, g1, hfound, hx⟩ := bind_eq_ok_iff.mp hx
    obtain ⟨⟨⟩, g2, hkeep, hx⟩ := bind_eq_ok_iff.mp hx
    cases hkeep
    cases hx
    exact (resolveAlias_parses hr hg hfound).mono (persists_keep (.handle a) h)

/-- A delayed parser of a shape is found to be a parser of it. -/
theorem resolveBox_apt {b : BoxId} {p : Parser} (hr : (resolver n).Sound) (hg : g.Consistent)
    (h : resolveBox (resolver n) b g = .ok p g') : (Finding.box b).Apt g' p := by
  have hpersists := persists_of_ok (fun g0 =>
    (persists_law g0).toStepLaw.resolveBox (hr.persists g0) b) h
  obtain ⟨hlt, hdelayed⟩ := resolveBox_eq_ok h
  intro body hbody
  rw [(hpersists.boxes hlt).2] at hbody
  rw [hbody] at hdelayed
  obtain ⟨found, g1, hfound, hx⟩ := bind_eq_ok_iff.mp hdelayed
  cases hx
  exact resolveShape_parses hr hg hfound

theorem keeps_openBox (hr : (resolver n).Sound) (b : BoxId) :
    Keeps Consistent (openBox (resolver n) b) := fun g hg =>
  keeps_remember (.box b) hg (consistent_steps.resolveBox hr.toAnswers b g hg)
    fun _ h hg' => hg'.keep (resolveBox_apt hr hg h)

theorem keeps_findBoxErrorKind (hr : (resolver n).Sound) (b : BoxId) :
    Keeps Consistent (findBoxErrorKind (resolver n) b) := fun g hg => by
  have hopen := consistent_steps.bind (keeps_openBox hr b) fun p =>
    consistent_steps.errorKindOf hr.toAnswers p
  have hordinary : ∀ _ : List Pending, (Fault.schema .leftRecursiveBox).Ordinary := fun _ => trivial
  have hx := consistent_steps.guarded (.box b) hordinary hopen
  exact keeps_remember (.kind b) hg (hx g hg) fun _ _ hg' => hg'.keep trivial

/-- **To find more out keeps a grammar consistent.** -/
theorem resolver_sound : ∀ n, (resolver n).Sound
  | 0 =>
    { planOf := fun _ => consistent_steps.stop trivial
      aliasParser := fun _ _ => consistent_steps.stop trivial
      boxErrorKind := fun _ => consistent_steps.stop trivial
      boxParser := fun _ => consistent_steps.stop trivial
      persists := fun g0 => ((persists_law g0).resolver 0).toAnswers
      expands := fun _ h => by cases h }
  | n + 1 =>
    have hr := resolver_sound n
    { planOf := keeps_findPlan hr
      aliasParser := keeps_expandAlias hr
      boxErrorKind := keeps_findBoxErrorKind hr
      boxParser := keeps_openBox hr
      persists := fun g0 => ((persists_law g0).resolver (n + 1)).toAnswers
      expands := expandAlias_parses hr }

end Questions

end ShapeGrammar
