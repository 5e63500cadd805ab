import ShapeGrammar.Proofs.Peg.Derivation
import Mathlib.Logic.Relation

/-!
# Where a failure comes from

The failures that a parser may report are read off its structure, as the least sets that the
combinators prescribe: those of every part of a sequence, of the right arm of a choice, of the last
attempt of a plan. The failure that a parser is to blame for is one of them.

A parser fails because one of its parts does, and that part because of one of its own: this is the
failing path.

Headlines: `Grammar.MayReport`, `Blames.mayReport`, `FailsIn`, `FailingPath`.
-/

namespace ShapeGrammar

/-- The failures that a parser may report, where `g` knows what delayed parsers and classes are. -/
inductive Grammar.MayReport (g : Grammar) : Parser → FailureKind → Prop
  | element {expected} : g.MayReport (.element expected) .element
  | any : g.MayReport .any .element
  | satisfy {test description} : g.MayReport (.satisfy test description) .element
  | not {body} : g.MayReport (.not body) .unexpectedMatch
  | misser {accepts} : g.MayReport (.misser accepts) .noMatch
  | seq {parts p kind} (part : p ∈ parts) (reported : g.MayReport p kind) :
    g.MayReport (.seq parts) kind
  | many1 {checked body kind} (reported : g.MayReport body kind) :
    g.MayReport (.many1 checked body) kind
  | either {left right kind} (reported : g.MayReport right kind) :
    g.MayReport (.either left right) kind
  | box {b p kind} (found : (g.boxInfo b).parser = some p) (reported : g.MayReport p kind) :
    g.MayReport (.box b) kind
  | map {change body kind} (reported : g.MayReport body kind) : g.MayReport (.map change body) kind
  | derived {c plan kind} (found : (g.classInfo c).plan = some plan)
    (reported : g.MayReport (.planned plan) kind) : g.MayReport (.derived c) kind
  /-- A plan with an attempt that always matches reports nothing. -/
  | planned {plan a p kind} (fallible : ∀ b ∈ plan.attempts, b.isUnit = false)
    (last : plan.attempts.getLast? = some a) (part : p ∈ a.parsers)
    (reported : g.MayReport p kind) : g.MayReport (.planned plan) kind
  | generated {plan code kind} (reported : g.MayReport (.planned plan) kind) :
    g.MayReport (.generated plan code) kind
  | recorded {name body kind} (reported : g.MayReport body kind) :
    g.MayReport (.recorded name body) kind

theorem kind_of_blame {xs : Source} {accept : Value → Bool} {expected : Value} {i : Nat}
    {e : Failure} (h : xs.blame accept expected i = some e) : e.kind = .element := by
  unfold Source.blame at h
  split at h
  · split at h <;> cases h
    rfl
  · cases h
    rfl

section Fails

variable {g : Grammar} {xs : Source} {i : Nat}

/-- An attempt that fails has fields. -/
theorem isUnit_of_fail {a : Attempt Parser} (h : Derives g xs (.seq a.parsers) i .fail) :
    a.isUnit = false := by
  unfold Attempt.isUnit
  cases hparsers : a.parsers with
  | nil =>
    rw [hparsers] at h
    cases h
  | cons p ps => rfl

/-- A plan that fails makes all attempts in vain. -/
theorem fallible_of_fail : ∀ {attempts : List (Attempt Parser)} {plan : Plan Parser},
    Derives g xs (.planned { plan with attempts := attempts }) i .fail →
      ∀ a ∈ attempts, a.isUnit = false
  | [], _, _, a, ha => by cases ha
  | a :: rest, plan, h, b, hb => by
    cases h with
    | planNext attempts fields others =>
      cases attempts
      rcases List.mem_cons.mp hb with rfl | hb
      · exact isUnit_of_fail fields
      · exact fallible_of_fail others b hb
    | planNone attempts => cases attempts

end Fails

/-- **The failure that a parser is to blame for is one that it may report.** -/
theorem Blames.mayReport {g : Grammar} {xs : Source} {p : Parser} {i : Nat} {e : Failure}
    (h : Blames g xs p i e) : g.MayReport p e.kind := by
  induction h with
  | element h => exact kind_of_blame h ▸ .element
  | any h => exact kind_of_blame h ▸ .any
  | satisfy h => exact kind_of_blame h ▸ .satisfy
  | misser _ _ => exact .misser
  | seqFirst _ ih => exact .seq List.mem_cons_self ih
  | seqRest _ _ ih =>
    cases ih with
    | seq part reported => exact .seq (List.mem_cons_of_mem _ part) reported
  | many1 _ ih => exact .many1 ih
  | either _ _ ih => exact .either ih
  | not _ _ => exact .not
  | box found _ ih => exact .box found ih
  | map _ ih => exact .map ih
  | derived found _ ih => exact .derived found ih
  | @planLast plan a i e attempts fields ih =>
    cases ih with
    | seq part reported =>
      refine .planned (fun b hb => ?_) (by rw [attempts]; rfl) part reported
      rw [attempts, List.mem_singleton] at hb
      exact hb ▸ isUnit_of_fail fields.fails
  | @planNext plan a b rest i e attempts fields others ih =>
    cases ih with
    | planned fallible last part reported =>
      refine .planned (fun c hc => ?_) ?_ part reported
      · rw [attempts] at hc
        rcases List.mem_cons.mp hc with rfl | hc
        · exact isUnit_of_fail fields
        · exact fallible c hc
      · rw [attempts, List.getLast?_cons_cons]
        exact last
  | generated _ ih => exact .generated ih
  | recorded _ ih => exact .recorded ih

/-! ## Failing paths -/

/-- A parser that fails at a place does so because of this part of it at that place. -/
inductive FailsIn (g : Grammar) (xs : Source) : Parser × Nat → Parser × Nat → Prop
  /-- Of a sequence, the first part that fails. -/
  | part {before p after i j vs} (matched : Derives g xs (.seq before) i (.ok j (.tuple vs)))
    (failed : Derives g xs p j .fail) : FailsIn g xs (.seq (before ++ p :: after), i) (p, j)
  | many1 {checked body i} : FailsIn g xs (.many1 checked body, i) (body, i)
  | right {left right i} : FailsIn g xs (.either left right, i) (right, i)
  | box {b p i} (found : (g.boxInfo b).parser = some p) : FailsIn g xs (.box b, i) (p, i)
  | map {change body i} : FailsIn g xs (.map change body, i) (body, i)
  | derived {c plan i} (found : (g.classInfo c).plan = some plan) :
    FailsIn g xs (.derived c, i) (.planned plan, i)
  | last {plan a i} (last : plan.attempts.getLast? = some a) :
    FailsIn g xs (.planned plan, i) (.seq a.parsers, i)
  | generated {plan code i} : FailsIn g xs (.generated plan code, i) (.planned plan, i)
  | recorded {name body i} : FailsIn g xs (.recorded name body, i) (body, i)

/-- The way from a parser that fails to what it fails in, through any number of parts. -/
def FailingPath (g : Grammar) (xs : Source) : Parser × Nat → Parser × Nat → Prop :=
  Relation.ReflTransGen (FailsIn g xs)

/-- Of a sequence that fails, one part does, and those before it match. -/
theorem Blames.part {g : Grammar} {xs : Source} {e : Failure} : ∀ {ps : List Parser} {i : Nat},
    Blames g xs (.seq ps) i e → ∃ before p after j vs, ps = before ++ p :: after ∧
      Derives g xs (.seq before) i (.ok j (.tuple vs)) ∧ Derives g xs p j .fail
  | [], _, h => by cases h
  | p :: ps, i, h => by
    cases h with
    | seqFirst first => exact ⟨[], p, ps, i, [], rfl, .seqNil, first.fails⟩
    | @seqRest _ _ _ j v _ first rest =>
      obtain ⟨before, q, after, k, vs, rfl, hbefore, hq⟩ := rest.part
      exact ⟨p :: before, q, after, k, v :: vs, rfl, .seqCons first hbefore, hq⟩

end ShapeGrammar
