import ShapeGrammar.Proofs.Conservation.Characters
import ShapeGrammar.Proofs.Inhabitation.Soundness

/-!
# Nothing that is consumed is lost

The value of a match stands for just those characters of the text that the match went over, each of
them once and in their order. What an alternative read before it failed, what a lookahead read and
what the last attempt of a repetition read are not among them.

This is so for parsers that change no values but those of characters, and that construct every class
from its fields alone. The parser of a shape is one if no written parser stands in the shape and no
constructor was left behind by the fields of its class.

Headlines: `Spells`, `Grammar.Conserves`, `Grammar.derives_spells`, `Grammar.Parses.conserves`,
`match_spells_slice`.
-/

namespace ShapeGrammar

/-- From `i` up to `j`, a text goes on with just these characters. -/
structure Spells (text : List Char) (i j : Nat) (cs : List Char) : Prop where
  remaining : text.drop i = cs ++ text.drop j
  length : i + cs.length = j

section Spells

variable {text cs ds : List Char} {i j k : Nat}

theorem Spells.nil : Spells text i i [] :=
  ⟨rfl, rfl⟩

theorem Spells.append (h : Spells text i j cs) (h' : Spells text j k ds) :
    Spells text i k (cs ++ ds) where
  remaining := by rw [h.remaining, h'.remaining, List.append_assoc]
  length := by rw [List.length_append, ← Nat.add_assoc, h.length, h'.length]

/-- These characters are the slice of the text between the two places. -/
theorem Spells.eq_slice (h : Spells text i j cs) : cs = (text.drop i).take (j - i) := by
  have hcount : j - i = cs.length := by rw [← h.length, Nat.add_sub_cancel_left]
  rw [h.remaining, hcount, List.take_left]

end Spells

/-- A text that was read is one character, and is accepted. -/
theorem spells_of_read {text : String} {accept : Value → Bool} {i j : Nat} {v : Value}
    (h : .ok j v = (Source.ofText text).read accept i) :
    ∃ c, v = .text (String.singleton c) ∧ accept v = true ∧ Spells text.toList i j [c] := by
  unfold Source.read at h
  cases hget : (Source.ofText text).get? i with
  | none =>
    rw [hget] at h
    cases h
  | some w =>
    rw [hget] at h
    dsimp only at h
    split at h
    · rename_i haccept
      cases h
      unfold Source.get? Source.ofText at hget
      rw [List.getElem?_toArray, List.getElem?_map, Option.map_eq_some_iff] at hget
      obtain ⟨c, hc, rfl⟩ := hget
      obtain ⟨hlt, rfl⟩ := List.getElem?_eq_some_iff.mp hc
      exact ⟨_, rfl, haccept, List.drop_eq_getElem_cons hlt, rfl⟩
    · cases h

/-- Only a text is found equal to a text. -/
theorem Value.eq_of_same_text {s : String} {v : Value} (h : (Value.text s).same v = true) :
    v = .text s := by
  cases v with
  | text t =>
    by_cases heq : s = t
    · rw [heq]
    · simp [Value.same, Value.compare, Value.Comparison.of, heq] at h
  | _ => simp [Value.same, Value.compare] at h

/-! ## Parsers that lose nothing -/

/-- A parser that changes the values of characters only, and whose attempts construct each class
from its fields alone. -/
def Parser.Lossless (g : Grammar) : Parser → Prop
  | .map change body => ∃ c, Parser.map change body = .character c
  | .planned plan => ∀ a ∈ plan.attempts, g.Constructs a
  | .generated plan _ => ∀ a ∈ plan.attempts, g.Constructs a
  | _ => True

namespace Grammar

variable {g : Grammar}

/-- Nothing is lost in any parser that a parser leads to. -/
def Conserves (g : Grammar) (p : Parser) : Prop :=
  ∀ q, g.Leads p q → q.Lossless g

section Conserves

variable {p q : Parser}

theorem Conserves.here (h : g.Conserves p) : p.Lossless g :=
  h p (.refl p)

theorem Conserves.part (h : g.Conserves p) (hq : q ∈ p.parts g) : g.Conserves q :=
  fun s hs => h s (.step hq hs)

/-- A parser whose parts lose nothing loses nothing. -/
theorem conserves_of_parts (here : p.Lossless g) (parts : ∀ q ∈ p.parts g, g.Conserves q) :
    g.Conserves p := by
  intro s hs
  cases hs with
  | refl _ => exact here
  | step part rest => exact parts _ part s rest

theorem conserves_seq {ps : List Parser} (h : ∀ p ∈ ps, g.Conserves p) : g.Conserves (.seq ps) :=
  conserves_of_parts trivial h

theorem Conserves.tail {ps : List Parser} (h : g.Conserves (.seq (p :: ps))) :
    g.Conserves (.seq ps) :=
  conserves_seq fun _ hq => h.part (List.mem_cons_of_mem p hq)

theorem Conserves.repeated {checked : Bool} (h : g.Conserves (.many1 checked p)) :
    g.Conserves (.many checked p) :=
  conserves_of_parts trivial fun _ hq => h.part hq

theorem Conserves.found {plan : Plan Parser} {c : ClassId} (h : g.Conserves (.derived c))
    (hfound : (g.classInfo c).plan = some plan) : g.Conserves (.planned plan) :=
  h.part (by simp [Parser.parts, hfound])

theorem Conserves.written {plan : Plan Parser} {code : Code}
    (h : g.Conserves (.generated plan code)) : g.Conserves (.planned plan) :=
  conserves_of_parts h.here fun _ hq => h.part hq

section Attempts

variable {plan : Plan Parser} {a : Attempt Parser} {rest : List (Attempt Parser)}
  (attempts : plan.attempts = a :: rest) (h : g.Conserves (.planned plan))
include attempts h

theorem Conserves.attempt : g.Constructs a ∧ g.Conserves (.seq a.parsers) := by
  refine ⟨h.here a (attempts ▸ List.mem_cons_self), conserves_seq fun q hq => h.part ?_⟩
  exact List.mem_flatMap.mpr ⟨a, attempts ▸ List.mem_cons_self, hq⟩

theorem Conserves.others : g.Conserves (.planned { plan with attempts := rest }) := by
  have hmem : ∀ b ∈ rest, b ∈ plan.attempts := fun b hb =>
    attempts ▸ List.mem_cons_of_mem a hb
  refine conserves_of_parts (fun b hb => h.here b (hmem b hb)) fun q hq => ?_
  obtain ⟨b, hb, hq⟩ := List.mem_flatMap.mp hq
  exact h.part (List.mem_flatMap.mpr ⟨b, hmem b hb, hq⟩)

end Attempts

end Conserves

/-! ## Matches -/

/-- A sequence that matches has one value for each part. -/
theorem derives_seq_length {xs : Source} : ∀ {ps : List Parser} {i j : Nat} {vs : List Value},
    Derives g xs (.seq ps) i (.ok j (.tuple vs)) → vs.length = ps.length
  | [], _, _, _, h => by
    cases h
    rfl
  | _ :: _, _, _, _, h => by
    cases h with
    | seqCons _ rest => exact congrArg (· + 1) (derives_seq_length rest)

/-- **A value stands for what its match went over.** -/
theorem derives_spells {text : String} {p : Parser} {i : Nat} {r : Verdict}
    (h : Derives g (.ofText text) p i r) :
    ∀ {j v}, r = .ok j v → g.Conserves p → Spells text.toList i j (g.characters v) := by
  induction h with
  | element h | any h | satisfy h | misser h =>
    rintro j v rfl -
    obtain ⟨c, rfl, -, hspells⟩ := spells_of_read h
    simpa [characters] using hspells
  | seqNil =>
    rintro j v ⟨⟩ -
    exact .nil
  | seqCons _ _ ih ih' =>
    rintro j v ⟨⟩ hp
    simpa using (ih rfl (hp.part List.mem_cons_self)).append (ih' rfl hp.tail)
  | optSome _ ih =>
    rintro j v ⟨⟩ hp
    exact ih rfl (hp.part List.mem_cons_self)
  | optNone _ _ | notOk _ _ =>
    rintro j v ⟨⟩ -
    exact .nil
  | manyStop _ _ =>
    rintro j v ⟨⟩ -
    exact .nil
  | manyStep _ _ ih ih' =>
    rintro j v ⟨⟩ hp
    simpa using (ih rfl (hp.part List.mem_cons_self)).append (ih' rfl hp)
  | many1Some _ _ ih ih' =>
    rintro j v ⟨⟩ hp
    simpa using (ih rfl (hp.part List.mem_cons_self)).append (ih' rfl hp.repeated)
  | left _ ih =>
    rintro j v ⟨⟩ hp
    simpa only [characters] using ih rfl (hp.part List.mem_cons_self)
  | right _ _ _ ih =>
    rintro j v ⟨⟩ hp
    simpa only [characters] using ih rfl (hp.part (List.mem_cons_of_mem _ List.mem_cons_self))
  | box found _ ih =>
    rintro j v rfl hp
    exact ih rfl (hp.part (Option.mem_toList.mpr found))
  | mapOk once changed _ =>
    rintro j v ⟨⟩ hp
    -- the only values that are changed are those of characters
    obtain ⟨c, hc⟩ := hp.here
    cases hc
    cases changed
    cases once with
    | element h =>
      obtain ⟨d, rfl, hsame, hspells⟩ := spells_of_read h
      have heq := congrArg g.characters (Value.eq_of_same_text hsame)
      simp only [characters, String.toList_singleton, List.cons.injEq, and_true] at heq
      rw [heq] at hspells
      exact hspells
  | derived found _ ih =>
    rintro j v rfl hp
    exact ih rfl (hp.found found)
  | planFirst attempts fields built ih =>
    rintro j v ⟨⟩ hp
    obtain ⟨hconstructs, hfields⟩ := hp.attempt attempts
    rw [characters_construct hconstructs (derives_seq_length fields) built]
    simpa using ih rfl hfields
  | planNext attempts _ _ _ ih =>
    rintro j v rfl hp
    exact ih rfl (hp.others attempts)
  | generated _ ih =>
    rintro j v rfl hp
    exact ih rfl hp.written
  | recorded _ ih =>
    rintro j v rfl hp
    exact ih rfl (hp.part List.mem_cons_self)
  -- a parser that fails has no value
  | seqFirst _ _ | seqRest _ _ _ _ | many1None _ _ | neither _ _ _ _ | notFail _ _ | mapFail _ _
  | planNone _ => rintro j v ⟨⟩

/-! ## Parsers of shapes -/

end Grammar

/-- Whether a class was declared. -/
def ClassRef.isDeclared : ClassRef → Bool
  | .declared _ => true
  | _ => false

namespace Grammar

variable {g : Grammar}

/-- All variants are classes that were declared. -/
def NestsDeclared (g : Grammar) : Prop :=
  ∀ c < g.classes.size, ∀ e ∈ g.variantClasses (.declared c), e.2.isDeclared = true

theorem Persists.nestsDeclared {g' : Grammar} (hg : g.Persists g') (h : g.NestsDeclared) :
    g'.NestsDeclared := by
  intro c hc e he
  rw [hg.classCount] at hc
  rw [hg.variantClasses_eq] at he
  exact h c hc e he

/-- The forms of a class are declared classes. -/
theorem NestsDeclared.form (h : g.NestsDeclared) {c : ClassId} {schema : Schema}
    (hschema : g.schemaOf (.declared c) = .ok schema) {form : ClassRef × List SchemaField}
    (hform : form ∈ schema.forms) : ∃ d, form.1 = .declared d := by
  obtain ⟨variants, rfl, -, hvariants⟩ | ⟨fields, rfl, -⟩ := schemaOf_eq_ok hschema
  · obtain ⟨v, hv, rfl⟩ := List.mem_map.mp hform
    have hnested := (hvariants v (reachable_subset hv)).1
    have hdeclared : v.target.isDeclared = true := by
      by_cases hc : c < g.classes.size
      · exact h c hc _ hnested
      · unfold variantClasses ownMembers at hnested
        dsimp only at hnested
        rw [g.classInfo_of_size_le (Nat.le_of_not_lt hc)] at hnested
        cases hnested
    cases htarget : v.target with
    | declared d => exact ⟨d, rfl⟩
    | _ =>
      rw [htarget] at hdeclared
      cases hdeclared
  · cases List.mem_singleton.mp hform
    exact ⟨c, rfl⟩

/-- A tuple stands for nothing but itself. -/
theorem eq_of_denotes_tuple {as : List Shape} {b : Shape} (h : g.Denotes (.tuple as) b) :
    b = .tuple as := by
  rcases h.cases_head with rfl | ⟨c, stands, -⟩
  · rfl
  · cases stands

/-- The parser of a tuple has one part for each item. -/
theorem Parses.seq_length : ∀ {ps : List Parser} {as : List Shape}, g.Parses (.seq ps) (.tuple as) →
    ps.length = as.length
  | [], as, h => by
    cases h with
    | raw is raw =>
      cases eq_of_denotes_tuple is
      cases raw
    | tupleNil is =>
      cases eq_of_denotes_tuple is
      rfl
  | p :: ps, as, h => by
    cases h with
    | raw is raw =>
      cases eq_of_denotes_tuple is
      cases raw
    | tupleCons is _ rest =>
      cases eq_of_denotes_tuple is
      exact congrArg (· + 1) rest.seq_length

/-- The plan of a class that is up to date constructs its forms from their fields alone. -/
theorem constructs_of_plan (hg : g.Consistent) (hnests : g.NestsDeclared) {c : ClassId}
    {plan : Plan Parser} (hfound : (g.classInfo c).plan = some plan)
    (hcurrent : g.CurrentForms (.cls (.declared c))) {a : Attempt Parser} (ha : a ∈ plan.attempts) :
    g.Constructs a := by
  obtain ⟨-, schema, hschema, hrealizes⟩ := hg.plan hfound
  obtain ⟨form, hform, htarget, hparses⟩ := exists_of_forall₂ hrealizes ha
  obtain ⟨d, hd⟩ := hnests.form hschema hform
  have hfields := fieldsOf_form hschema hform
  have hform := hcurrent c schema rfl hschema form hform
  rw [hd] at htarget hfields hform
  refine constructs_of_fieldsOf htarget hform hfields ?_
  rw [hparses.seq_length, List.length_map]

/-- What the parser of a sound shape leads to: parsers of sound shapes, plans of sound classes, and
elements. -/
inductive Serves (g : Grammar) : Parser → Prop
  | shape {p s} (parses : g.Parses p s) (sound : g.Sound s) : Serves g p
  | plan {c plan} (found : (g.classInfo c).plan = some plan)
    (sound : g.Sound (.cls (.declared c))) : Serves g (.planned plan)
  | element {expected} : Serves g (.element expected)

theorem Serves.part (hg : g.Consistent) {p q : Parser} (h : g.Serves p) (hq : q ∈ p.parts g) :
    g.Serves q := by
  have hparts : ∀ {p s}, g.Parses p s → g.Sound s → q ∈ p.parts g → g.Serves q := by
    intro p s hparses hsound hq
    obtain ⟨a, hparses, ha⟩ | ⟨c, plan, hfound, rfl, hc⟩ | ⟨expected, rfl⟩ :=
      hparses.part_cases hg (fun h => h.1) soundHere_tuple hsound hq
    · exact .shape hparses ha
    · exact .plan hfound hc
    · exact .element
  cases h with
  | shape parses sound => exact hparts parses sound hq
  | plan found sound =>
    obtain ⟨-, schema, hschema, hrealizes⟩ := hg.plan found
    obtain ⟨a, ha, hq⟩ := List.mem_flatMap.mp hq
    obtain ⟨form, hform, -, hparses⟩ := exists_of_forall₂ hrealizes ha
    exact hparts hparses (sound.form hschema hform soundHere_tuple) hq
  | element => cases hq

theorem Serves.lossless (hg : g.Consistent) (hnests : g.NestsDeclared) {p : Parser}
    (h : g.Serves p) : p.Lossless g := by
  cases h with
  | shape parses sound =>
    cases parses with
    | raw is raw => exact absurd raw (sound.plain.not_raw is)
    | character _ => exact ⟨_, rfl⟩
    | _ => trivial
  | plan found sound =>
    exact fun a ha => constructs_of_plan hg hnests found sound.here.2 ha
  | element => trivial

/-- **The parser of a sound shape loses nothing.** -/
theorem Parses.conserves (hg : g.Consistent) (hnests : g.NestsDeclared) {p : Parser} {s : Shape}
    (h : g.Parses p s) (hsound : g.Sound s) : g.Conserves p := by
  intro q hq
  exact (hq.closed (P := g.Serves) (fun hp hs => hp.part hg hs) (.shape h hsound)).lossless hg
    hnests

end Grammar

/-! ## Runs -/

open Grammar

/-- **Nothing that a match consumes is lost, comes twice or changes places.** Whenever a parser that
loses nothing runs over a text and matches, at either entry point, the cursor is further on in the
same text, and the characters of the value are those between the two places. -/
theorem match_spells_slice {k n : Nat} {entry : Entry} {p : Parser} {c d : CursorId}
    {m m' : Machine} {v : Value} {text : String} (hc : c < m.cursors.size)
    (htext : (m.cursor c).source = .ofText text) (hgenuine : m'.grammar.Genuine p)
    (hconserves : m'.grammar.Conserves p)
    (hrun : run (resolver k) n entry p c m = .ok (.matched d v) m') :
    (m'.cursor d).source = .ofText text ∧ (m.cursor c).position ≤ (m'.cursor d).position ∧
      m'.grammar.characters v = (text.toList.drop (m.cursor c).position).take
        ((m'.cursor d).position - (m.cursor c).position) := by
  obtain ⟨j, hj, hderives⟩ := (run_means k n).means hc hrun hgenuine
  rw [htext] at hderives
  have hspells := derives_spells hderives rfl hconserves
  rw [hj]
  exact ⟨htext, Nat.le.intro hspells.length, hspells.eq_slice⟩

open Arithmetic in
/-- The value of an expression stands for the whole text, parentheses and operator included. -/
theorem match_spells_slice_expression : ∃ d v m',
    0 < (Machine.reading grammar "(1)+2").cursors.size ∧
    ((Machine.reading grammar "(1)+2").cursor 0).source = .ofText "(1)+2" ∧
    m'.grammar.Genuine (.derived expressionClass) ∧
    m'.grammar.Conserves (.derived expressionClass) ∧
    expressionRun "(1)+2" = .ok (.matched d v) m' ∧
    m'.grammar.characters v = "(1)+2".toList := by
  have hclasses : grammar.isOfClasses = true := by decide +kernel
  have hconsistent : grammar.Consistent := by
    refine consistent_of_unknown ?_ ?_ ?_ <;> decide +kernel
  have hnests : grammar.NestsDeclared := by
    unfold NestsDeclared
    decide +kernel
  have hsound : grammar.Sound expressionShape :=
    (plain_of_classes hclasses rfl).and (upToDate_of_classes hclasses _)
  obtain ⟨d, v, m', hrun⟩ := eq_matched_of_answer (r := expressionRun "(1)+2") (by decide +kernel)
  have hend : (answer (expressionRun "(1)+2")).map (fun r => (r.2.2.cursor r.1).position) =
      some 5 := by decide +kernel
  have hposition : (m'.cursor d).position = 5 := by
    rw [hrun] at hend
    exact Option.some.inj hend
  have hpersists := run_persists hrun
  have hconsistent' := run_consistent hconsistent hrun
  have hparses : m'.grammar.Parses (.derived expressionClass) expressionShape := .derived .refl
  have hsound' : m'.grammar.Sound expressionShape :=
    (hpersists.throughout hsound.plain).and
      (hpersists.upToDate (upToDate_of_classes hclasses expressionShape))
  have hgenuine := hparses.genuine hconsistent' hsound'.plain
  have hconserves := hparses.conserves hconsistent' (hpersists.nestsDeclared hnests) hsound'
  have hc : 0 < (Machine.reading grammar "(1)+2").cursors.size := by decide
  obtain ⟨-, -, hslice⟩ := match_spells_slice hc rfl hgenuine hconserves hrun
  rw [hposition] at hslice
  exact ⟨d, v, m', hc, rfl, hgenuine, hconserves, hrun, hslice⟩

end ShapeGrammar
