import ShapeGrammar.Run
import ShapeGrammar.Proofs.Grammar.Precedence

/-!
# What a parser is made of

A parser leads to its parts, to theirs, and so on; a delayed parser leads to what it was found to
be, and a class to its plan, so the parts can come round in a circle. What a parser leads to only
becomes more while things are found out.

A plan that is carried out, or a factory that is run, is genuine if planning has made it: only then
do the attempts come in order, and only then does the factory belong to the plan.

Headlines: `Parser.parts`, `Grammar.Leads`, `Grammar.Leads.mono`, `Grammar.Genuine`.
-/

namespace ShapeGrammar

/-- The parsers that a parser is made of, where `g` knows what delayed parsers and classes are. -/
def Parser.parts (g : Grammar) : Parser → List Parser
  | .seq parts => parts
  | .opt body => [body]
  | .many _ body => [body]
  | .many1 _ body => [body]
  | .either left right => [left, right]
  | .not body => [body]
  | .box b => (g.boxInfo b).parser.toList
  | .map _ body => [body]
  | .derived c => ((g.classInfo c).plan.map .planned).toList
  | .planned plan => plan.attempts.flatMap (·.parsers)
  | .generated plan _ => plan.attempts.flatMap (·.parsers)
  | .recorded _ body => [body]
  | _ => []

/-- Plans and factories as planning makes them. -/
def Parser.Authentic : Parser → Prop
  | .planned plan => plan.Ordered
  | .generated plan code => plan.Ordered ∧ code = plan.code
  | _ => True

namespace Grammar

/-- One parser is made of the other, through any number of parts. -/
inductive Leads (g : Grammar) : Parser → Parser → Prop
  | refl (p) : Leads g p p
  | step {p q s} (part : q ∈ p.parts g) (rest : Leads g q s) : Leads g p s

/-- Every plan and every factory that a parser leads to is one that planning makes. -/
def Genuine (g : Grammar) (p : Parser) : Prop :=
  ∀ q, g.Leads p q → q.Authentic

variable {g g' : Grammar} {p q s : Parser}

/-- What a delayed parser was found to be is a part of it. -/
theorem part_of_box {b : BoxId} (h : (g.boxInfo b).parser = some q) : q ∈ (Parser.box b).parts g :=
  Option.mem_toList.mpr h

/-- So is the plan that was found for a class. -/
theorem part_of_derived {c : ClassId} {plan : Plan Parser} (h : (g.classInfo c).plan = some plan) :
    .planned plan ∈ (Parser.derived c).parts g := by
  simp only [Parser.parts, Option.mem_toList, Option.map_eq_some_iff]
  exact ⟨plan, h, rfl⟩

theorem Leads.trans (h : g.Leads p q) (h' : g.Leads q s) : g.Leads p s := by
  induction h with
  | refl _ => exact h'
  | step part _ ih => exact .step part (ih h')

theorem parts_mono (h : g.Precedes g') (hq : q ∈ p.parts g) : q ∈ p.parts g' := by
  cases p with
  | box b =>
    simp only [Parser.parts, Option.mem_toList] at hq ⊢
    exact h.known (f := .box b) hq
  | derived c =>
    simp only [Parser.parts, Option.mem_toList, Option.map_eq_some_iff] at hq ⊢
    obtain ⟨plan, hplan, rfl⟩ := hq
    exact ⟨plan, h.known (f := .plan c) hplan, rfl⟩
  | _ => exact hq

theorem Leads.mono (h : g.Precedes g') (hpq : g.Leads p q) : g'.Leads p q := by
  induction hpq with
  | refl p => exact .refl p
  | step part _ ih => exact .step (parts_mono h part) ih

theorem Genuine.mono (h : g.Precedes g') (hp : g'.Genuine p) : g.Genuine p :=
  fun q hq => hp q (hq.mono h)

theorem Genuine.part (hp : g.Genuine p) (hq : q ∈ p.parts g) : g.Genuine q :=
  fun s hs => hp s (.step hq hs)

theorem Genuine.authentic (hp : g.Genuine p) : p.Authentic :=
  hp p (.refl p)

/-- A collection of parsers that contains the parts of its members contains all that they lead to.
-/
theorem Leads.closed {P : Parser → Prop} (hparts : ∀ {q s}, P q → s ∈ q.parts g → P s)
    (h : g.Leads p q) (hp : P p) : P q := by
  induction h with
  | refl p => exact hp
  | step part _ ih => exact ih (hparts hp part)

/-- A collection of authentic parsers that contains the parts of its members is genuine. -/
theorem genuine_of_closed {P : Parser → Prop} (hparts : ∀ {q s}, P q → s ∈ q.parts g → P s)
    (hauthentic : ∀ {q}, P q → q.Authentic) (hp : P p) : g.Genuine p :=
  fun _ hq => hauthentic (hq.closed hparts hp)

end Grammar

end ShapeGrammar
