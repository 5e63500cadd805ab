import ShapeGrammar.Proofs.Arithmetic.Instances
import ShapeGrammar.Proofs.Inhabitation.Checks
import ShapeGrammar.Proofs.Inhabitation.Inhabited
import ShapeGrammar.Proofs.Inhabitation.Resolved
import ShapeGrammar.Proofs.Machine.Invariant
import ShapeGrammar.Proofs.Peg.Refinement

/-!
# Parsed values inhabit their shapes

A shape that leads to no parser that somebody has written is resolved to a parser whose values
inhabit the shape, at either entry point and wherever in a text it is called. What is known of the
grammar must fit its declarations, which is so in the beginning and stays so, and no constructor may
have been left behind by the fields of its class.

Headlines: `Grammar.Parses.genuine`, `Grammar.Inhabits.isInstance`, `run_consistent`,
`parsed_inhabits`.
-/

namespace ShapeGrammar

namespace Grammar

variable {g : Grammar}

/-! ## Plans that planning has made -/

/-- A parser of a plain shape, a plan that makes attempts at plain forms, or an element. -/
inductive Derived (g : Grammar) : Parser → Prop
  | shape {p s} (parses : g.Parses p s) (plain : g.Plain s) : Derived g p
  | plan {plan forms} (ordered : plan.Ordered)
    (attempts : List.Forall₂ g.Attempts plan.attempts forms)
    (plain : ∀ form ∈ forms, g.Plain (.tuple (form.2.map (·.shape)))) : Derived g (.planned plan)
  | element {expected} : Derived g (.element expected)

theorem Derived.authentic {p : Parser} (h : g.Derived p) : p.Authentic := by
  cases h with
  | shape parses plain =>
    cases parses with
    | raw is raw => exact absurd raw (plain.not_raw is)
    | _ => trivial
  | plan ordered _ _ => exact ordered
  | element => trivial

/-- The parts of a parser of a shape are parsers of what the shape leads to, or the plan of a class,
or the element of a character. -/
theorem Parses.part_cases (hg : g.Consistent) {P : Shape → Prop}
    (hraw : ∀ {a}, P a → a.isRaw = false)
    (htuple : ∀ as, P (.tuple as)) {p : Parser} {s : Shape} (h : g.Parses p s)
    (hs : g.Throughout P s) {q : Parser} (hq : q ∈ p.parts g) :
    (∃ a, g.Parses q a ∧ g.Throughout P a) ∨
      (∃ c plan, (g.classInfo c).plan = some plan ∧ q = .planned plan ∧
        g.Throughout P (.cls (.declared c))) ∨
      ∃ expected, q = .element expected := by
  induction h with
  | raw is raw =>
    rw [hraw (hs.denotes is).here] at raw
    cases raw
  | character _ =>
    cases List.mem_singleton.mp hq
    exact .inr (.inr ⟨_, rfl⟩)
  | text _ => cases hq
  | derived is =>
    simp only [Parser.parts, Option.mem_toList, Option.map_eq_some_iff] at hq
    obtain ⟨plan, hfound, rfl⟩ := hq
    exact .inr (.inl ⟨_, plan, hfound, rfl, hs.denotes is⟩)
  | tupleNil _ => cases hq
  | tupleCons is first _ _ ih =>
    have hitems := (hs.denotes is).items
    rcases List.mem_cons.mp hq with rfl | hq
    · exact .inl ⟨_, first, hitems _ List.mem_cons_self⟩
    · exact ih (throughout_tuple (htuple _) fun a ha => hitems a (List.mem_cons_of_mem _ ha)) hq
  | list is parses _ =>
    cases List.mem_singleton.mp hq
    exact .inl ⟨_, parses, (hs.denotes is).part .list⟩
  | nonempty is parses _ =>
    cases List.mem_singleton.mp hq
    exact .inl ⟨_, parses, (hs.denotes is).part .nonempty⟩
  | second is _ parses _ =>
    cases List.mem_singleton.mp hq
    exact .inl ⟨_, parses, (hs.denotes is).part .second⟩
  | first is _ parses _ =>
    cases List.mem_singleton.mp hq
    exact .inl ⟨_, parses, (hs.denotes is).part .first⟩
  | either is left right _ _ =>
    simp only [Parser.parts, List.mem_cons, List.not_mem_nil, or_false] at hq
    rcases hq with rfl | rfl
    · exact .inl ⟨_, left, (hs.denotes is).part .left⟩
    · exact .inl ⟨_, right, (hs.denotes is).part .right⟩
  | not is parses _ =>
    cases List.mem_singleton.mp hq
    exact .inl ⟨_, parses, (hs.denotes is).part .not⟩
  | box is _ delayed =>
    have hfound := Option.mem_toList.mp hq
    exact .inl ⟨_, hg.box hfound delayed, (hs.denotes is).part .box⟩

/-- The parts of a parser of a plain shape are parsers of its parts. -/
theorem Parses.part (hg : g.Consistent) {p : Parser} {s : Shape} (h : g.Parses p s)
    (hplain : g.Plain s) {q : Parser} (hq : q ∈ p.parts g) : g.Derived q := by
  obtain ⟨a, hparses, ha⟩ | ⟨c, plan, hfound, rfl, hc⟩ | ⟨expected, rfl⟩ :=
    h.part_cases hg id (fun _ => rfl) hplain hq
  · exact .shape hparses ha
  · obtain ⟨hordered, schema, hschema, hrealizes⟩ := hg.plan hfound
    exact .plan hordered hrealizes fun form hform => hc.form hschema hform fun _ => rfl
  · exact .element

theorem exists_of_forall₂ {α β : Type} {R : α → β → Prop} {as : List α} {bs : List β}
    (h : List.Forall₂ R as bs) {a : α} (ha : a ∈ as) : ∃ b ∈ bs, R a b := by
  induction h with
  | nil => cases ha
  | cons hab _ ih =>
    rcases List.mem_cons.mp ha with rfl | ha
    · exact ⟨_, List.mem_cons_self, hab⟩
    · obtain ⟨b, hb, hab⟩ := ih ha
      exact ⟨b, List.mem_cons_of_mem _ hb, hab⟩

theorem Derived.part (hg : g.Consistent) {p q : Parser} (h : g.Derived p) (hq : q ∈ p.parts g) :
    g.Derived q := by
  cases h with
  | shape parses plain => exact parses.part hg plain hq
  | element => cases hq
  | plan _ attempts plain =>
    obtain ⟨a, ha, hq⟩ := List.mem_flatMap.mp hq
    obtain ⟨form, hform, -, hparses⟩ := exists_of_forall₂ attempts ha
    exact hparses.part hg (plain form hform) hq

/-- **A parser of a plain shape carries out nothing but plans that planning has made.** -/
theorem Parses.genuine (hg : g.Consistent) {p : Parser} {s : Shape} (h : g.Parses p s)
    (hplain : g.Plain s) : g.Genuine p :=
  genuine_of_closed (P := g.Derived) (fun hp hs => hp.part hg hs) (fun hp => hp.authentic)
    (.shape h hplain)

/-! ## Instances of sums -/

/-- A class is among its own ancestors, and so are the variants nested in it. -/
def Rooted (g : Grammar) : Prop :=
  ∀ c < g.classes.size, .declared c ∈ g.ancestry (.declared c) ∧
    ∀ e ∈ g.variantClasses (.declared c), e.2 ∈ g.ancestry e.2

theorem subclassWithin_self {c : ClassRef} (h : c ∈ g.ancestry c) (depth : Nat) :
    g.subclassWithin depth c c = true := by
  cases depth <;> simp [subclassWithin, h]

/-- What inhabits a class is an instance of it, also if the class is a sum. -/
theorem Inhabits.isInstance (hrooted : g.Rooted) {c : ClassId} (hc : c < g.classes.size)
    {v : Value} (h : g.Inhabits (.cls (.declared c)) v) : g.isInstance v (.declared c) = true := by
  obtain ⟨hself, hvariants⟩ := hrooted c hc
  obtain ⟨depth, hdepth⟩ := Nat.exists_eq_succ_of_ne_zero (Nat.ne_zero_of_lt hc)
  cases h with
  | stands stands _ => cases stands
  | cls declared mem exact _ _ =>
    unfold Grammar.isInstance
    rw [exact]
    show g.isSubclass _ _ = true
    unfold isSubclass
    rw [hdepth]
    obtain ⟨variants, rfl, hsum, hnested⟩ | ⟨fields, rfl, -⟩ := schemaOf_eq_ok declared
    · obtain ⟨v, hv, rfl⟩ := List.mem_map.mp mem
      have hmem := (hnested v (reachable_subset hv)).1
      have hbelow := subclassWithin_self (hvariants _ hmem) depth
      unfold subclassWithin
      rw [hsum, Bool.true_and, Bool.or_eq_true]
      exact .inr (List.any_eq_true.mpr ⟨_, hmem, hbelow⟩)
    · cases List.mem_singleton.mp mem
      exact subclassWithin_self hself _

end Grammar

/-! ## What stays while parsers are found and run -/

open Grammar

theorem Grammar.persists_report (g : Grammar) (r : Report) : g.Persists (g.report r) := by
  unfold report
  split
  · exact persists_of_eq rfl rfl rfl rfl rfl
  · exact .refl g

theorem Grammar.Consistent.report {g : Grammar} (h : g.Consistent) (r : Report) :
    (g.report r).Consistent := by
  unfold Grammar.report
  split
  · exact h.of_eq rfl rfl rfl rfl rfl
  · exact h

/-- What is found out to have the parser of a shape fits the declarations. -/
theorem parserFor_consistent {k : Nat} {g g' : Grammar} {a : Shape} {h : Handle}
    (hg : g.Consistent) (hresolved : parserFor (resolver k) a g = .ok h g') : g'.Consistent :=
  (consistent_steps.parserFor (resolver_sound k).toAnswers a).of_ok hg hresolved

/-- What a grammar declares stays while a parser runs. -/
theorem run_persists {k n : Nat} {entry : Entry} {p : Parser} {c : CursorId} {m m' : Machine}
    {o : Outcome} (h : run (resolver k) n entry p c m = .ok o m') : m.grammar.Persists m'.grammar :=
  (run_keeps (fun {_} r hg => hg.trans (persists_report _ r)) ((persists_law m.grammar).resolver k)
    n entry p c).of_ok (.refl _) h

/-- What a parser finds out while it runs fits the declarations. -/
theorem run_consistent {k n : Nat} {entry : Entry} {p : Parser} {c : CursorId} {m m' : Machine}
    {o : Outcome} (hm : m.grammar.Consistent) (h : run (resolver k) n entry p c m = .ok o m') :
    m'.grammar.Consistent :=
  (run_keeps (fun {_} r hg => hg.report r) (resolver_sound k).toObeys n entry p c).of_ok hm h

/-- Only a class that was declared has a parser. -/
theorem declared_of_classParser {c : ClassId} {h : Handle} {g g' : Grammar}
    (hc : classParser (.declared c) g = .ok h g') : c < g.classes.size := by
  by_contra hle
  unfold classParser at hc
  replace hc := get_bind_eq_ok_iff.mp hc
  dsimp only at hc
  rw [g.classInfo_of_size_le (Nat.le_of_not_lt hle)] at hc
  cases hc

/-- **Parsed values have the shape that was declared.** Whenever the parser of a plain shape runs
over a text, at either entry point, and matches, its value inhabits the shape; so the value of a
class is an instance of the class, also where the class is a sum. The run may begin as soon as the
parser was found, or later, when other parsers were found and run. -/
theorem parsed_inhabits {k k' n : Nat} {g g1 : Grammar} {a : Shape} {h : Handle} {m m' : Machine}
    {entry : Entry} {c d : CursorId} {v : Value} {text : String} (hg : g.Consistent)
    (hrooted : g.Rooted) (hplain : g.Plain a) (hup : g.UpToDate a)
    (hresolved : parserFor (resolver k) a g = .ok h g1) (hlater : g1.Persists m.grammar)
    (hm : m.grammar.Consistent) (hc : c < m.cursors.size)
    (htext : (m.cursor c).source = .ofText text)
    (hrun : run (resolver k') n entry h.body c m = .ok (.matched d v) m') :
    g.Inhabits a v ∧ ∀ cls, a = .cls (.declared cls) → g.isInstance v (.declared cls) = true := by
  have hpersists : g.Persists g1 := persists_of_ok (fun g0 =>
    (persists_law g0).toStepLaw.parserFor ((resolver_sound k).persists g0) a) hresolved
  have hafter : g1.Persists m'.grammar := hlater.trans (run_persists hrun)
  have hparses : m'.grammar.Parses h.body a :=
    (resolveShape_parses (resolver_sound k) hg hresolved).mono hafter
  have hend := run_consistent hm hrun
  have hplain' : m'.grammar.Plain a := (hpersists.trans hafter).throughout hplain
  obtain ⟨j, -, hderives⟩ := (run_means k' n).means hc hrun (hparses.genuine hend hplain')
  rw [htext] at hderives
  have hinhabits : g.Inhabits a v := (hpersists.trans hafter).inhabits
    (derives_inhabits hend (Source.textual_ofText text) hparses hplain'
      ((hpersists.trans hafter).upToDate hup) hderives)
  refine ⟨hinhabits, ?_⟩
  rintro cls rfl
  exact hinhabits.isInstance hrooted (declared_of_classParser hresolved)

/-! ## Expressions -/

namespace Arithmetic

/-- The shape of an expression. -/
def expressionShape : Shape :=
  .cls (.declared expressionClass)

/-- What the total form of the parser of expressions answers on a text. -/
def expressionRun (text : String) : EStateM.Result Stop Machine Outcome :=
  run (resolver 20) 40 .total (.derived expressionClass) 0 (Machine.reading grammar text)

/-- The value that a run answers. -/
def answer : EStateM.Result Stop Machine Outcome → Option (CursorId × Value × Machine)
  | .ok (.matched d v) m => some (d, v, m)
  | _ => none

theorem eq_matched_of_answer {r : EStateM.Result Stop Machine Outcome}
    (h : (answer r).isSome = true) : ∃ d v m, r = .ok (.matched d v) m := by
  unfold answer at h
  split at h
  · exact ⟨_, _, _, rfl⟩
  · cases h

end Arithmetic

open Arithmetic in
/-- The value of a text with a parenthesis and an operator is an expression. -/
theorem parsed_inhabits_expression : grammar.Consistent ∧ grammar.Rooted ∧
    grammar.Plain expressionShape ∧ grammar.UpToDate expressionShape ∧
    ∃ d v m, expressionRun "(1)+2" = .ok (.matched d v) m ∧
      grammar.Inhabits expressionShape v ∧
        grammar.isInstance v (.declared expressionClass) = true := by
  have hconsistent : grammar.Consistent := by
    refine consistent_of_unknown ?_ ?_ ?_ <;> decide +kernel
  have hrooted : grammar.Rooted := by
    unfold Rooted
    decide +kernel
  have hclasses : grammar.isOfClasses = true := by decide +kernel
  have hplain := plain_of_classes hclasses (a := expressionShape) rfl
  have hup := upToDate_of_classes hclasses expressionShape
  obtain ⟨d, v, m, hrun⟩ := eq_matched_of_answer (r := expressionRun "(1)+2") (by decide +kernel)
  have hresolved : parserFor (resolver 20) expressionShape grammar =
      .ok (.derived expressionClass) grammar := by
    have hderived : (grammar.classInfo expressionClass).derivedAt.isSome = true := by decide +kernel
    show (if (grammar.classInfo expressionClass).derivedAt.isSome then pure _ else _ :
      Resolution Handle) grammar = _
    rw [if_pos hderived]
    rfl
  obtain ⟨hinhabits, hinstance⟩ := parsed_inhabits (h := .derived expressionClass) hconsistent
    hrooted hplain hup hresolved (.refl _) (parserFor_consistent hconsistent hresolved)
    (by decide +kernel) rfl hrun
  exact ⟨hconsistent, hrooted, hplain, hup, d, v, m, hrun, hinhabits, hinstance _ rfl⟩

end ShapeGrammar
