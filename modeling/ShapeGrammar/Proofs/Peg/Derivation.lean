import ShapeGrammar.Run
import ShapeGrammar.Proofs.Grammar.Precedence

/-!
# Parsing without cursors

What a parser means, as a relation between a place in a source and a verdict: the parser matches up
to a later place and has a value, or it fails. There is no cursor, no snapshot and no entry point. A
sequence threads the ends of its parts; every alternative begins at the same place, and the first
that matches wins; repetition goes on from the end of the last match; a negative lookahead consumes
nothing; a delayed parser is what it was found to be, and a class is its plan.

A second relation says which failure a parser that fails is to blame it on: that of the first part
of a sequence that fails, of the right arm of a choice, of the last attempt of a plan.

Headlines: `Verdict`, `Derives`, `Derives.deterministic`, `Blames`, `Blames.unique`.
-/

namespace ShapeGrammar

/-- What a parser comes to at a place. -/
inductive Verdict
  /-- It matches up to `stop`. -/
  | ok (stop : Nat) (value : Value)
  | fail
  deriving Inhabited

/-- Reading one element that must be accepted. -/
def Source.read (xs : Source) (accept : Value → Bool) (i : Nat) : Verdict :=
  match xs.get? i with
  | some v => if accept v then .ok (i + 1) v else .fail
  | none => .fail

/-- The meaning of parsers over a source, where `g` knows what delayed parsers and classes are. -/
inductive Derives (g : Grammar) (xs : Source) : Parser → Nat → Verdict → Prop
  | element {expected i r} (h : r = xs.read (expected.same ·) i) :
    Derives g xs (.element expected) i r
  | any {i r} (h : r = xs.read (fun _ => true) i) : Derives g xs .any i r
  | satisfy {test description i r} (h : r = xs.read test i) :
    Derives g xs (.satisfy test description) i r
  | misser {accepts i r} (h : r = xs.read accepts i) :
    Derives g xs (.misser accepts) i r
  | seqNil {i} : Derives g xs (.seq []) i (.ok i (.tuple []))
  | seqCons {p ps i j k v vs} (first : Derives g xs p i (.ok j v))
    (rest : Derives g xs (.seq ps) j (.ok k (.tuple vs))) :
    Derives g xs (.seq (p :: ps)) i (.ok k (.tuple (v :: vs)))
  | seqFirst {p ps i} (first : Derives g xs p i .fail) : Derives g xs (.seq (p :: ps)) i .fail
  | seqRest {p ps i j v} (first : Derives g xs p i (.ok j v))
    (rest : Derives g xs (.seq ps) j .fail) : Derives g xs (.seq (p :: ps)) i .fail
  | optSome {body i j v} (once : Derives g xs body i (.ok j v)) :
    Derives g xs (.opt body) i (.ok j v)
  | optNone {body i} (once : Derives g xs body i .fail) :
    Derives g xs (.opt body) i (.ok i .nothing)
  | manyStop {checked body i} (once : Derives g xs body i .fail) :
    Derives g xs (.many checked body) i (.ok i (.list []))
  | manyStep {checked body i j k v vs} (once : Derives g xs body i (.ok j v))
    (rest : Derives g xs (.many checked body) j (.ok k (.list vs))) :
    Derives g xs (.many checked body) i (.ok k (.list (v :: vs)))
  | many1None {checked body i} (once : Derives g xs body i .fail) :
    Derives g xs (.many1 checked body) i .fail
  | many1Some {checked body i j k v vs} (once : Derives g xs body i (.ok j v))
    (rest : Derives g xs (.many checked body) j (.ok k (.list vs))) :
    Derives g xs (.many1 checked body) i (.ok k (.nonempty v vs))
  | left {left right i j v} (first : Derives g xs left i (.ok j v)) :
    Derives g xs (.either left right) i (.ok j (.left v))
  | right {left right i j v} (first : Derives g xs left i .fail)
    (second : Derives g xs right i (.ok j v)) :
    Derives g xs (.either left right) i (.ok j (.right v))
  | neither {left right i} (first : Derives g xs left i .fail)
    (second : Derives g xs right i .fail) : Derives g xs (.either left right) i .fail
  | notOk {body i} (once : Derives g xs body i .fail) :
    Derives g xs (.not body) i (.ok i .nothing)
  | notFail {body i j v} (once : Derives g xs body i (.ok j v)) : Derives g xs (.not body) i .fail
  | box {b p i r} (found : (g.boxInfo b).parser = some p) (body : Derives g xs p i r) :
    Derives g xs (.box b) i r
  | mapOk {change body i j v w} (once : Derives g xs body i (.ok j v))
      (changed : change v = .ok w) :
    Derives g xs (.map change body) i (.ok j w)
  | mapFail {change body i} (once : Derives g xs body i .fail) :
    Derives g xs (.map change body) i .fail
  | derived {c plan i r} (found : (g.classInfo c).plan = some plan)
    (body : Derives g xs (.planned plan) i r) : Derives g xs (.derived c) i r
  /-- The first attempt whose fields match wins. -/
  | planFirst {plan a rest i j vs v} (attempts : plan.attempts = a :: rest)
    (fields : Derives g xs (.seq a.parsers) i (.ok j (.tuple vs)))
    (built : g.construct a.target vs = .ok v) : Derives g xs (.planned plan) i (.ok j v)
  /-- Every attempt begins at the same place. -/
  | planNext {plan a rest i r} (attempts : plan.attempts = a :: rest)
    (fields : Derives g xs (.seq a.parsers) i .fail)
    (others : Derives g xs (.planned { plan with attempts := rest }) i r) :
    Derives g xs (.planned plan) i r
  | planNone {plan i} (attempts : plan.attempts = []) : Derives g xs (.planned plan) i .fail
  | generated {plan code i r} (body : Derives g xs (.planned plan) i r) :
    Derives g xs (.generated plan code) i r
  | recorded {name body i r} (once : Derives g xs body i r) : Derives g xs (.recorded name body) i r

/-- **A parser has at most one meaning at a place.** -/
theorem Derives.deterministic {g : Grammar} {xs : Source} {p : Parser} {i : Nat} {r r' : Verdict}
    (h : Derives g xs p i r) (h' : Derives g xs p i r') : r = r' := by
  induction h generalizing r' with
  | element h => cases h' with | element h' => rw [h, h']
  | any h => cases h' with | any h' => rw [h, h']
  | satisfy h => cases h' with | satisfy h' => rw [h, h']
  | misser h => cases h' with | misser h' => rw [h, h']
  | seqNil => cases h' with | seqNil => rfl
  | seqCons _ _ ih1 ih2 =>
    cases h' with
    | seqCons f' r' => cases ih1 f'; cases ih2 r'; rfl
    | seqFirst f' => cases ih1 f'
    | seqRest f' r' => cases ih1 f'; cases ih2 r'
  | seqFirst _ ih1 =>
    cases h' with
    | seqCons f' _ => cases ih1 f'
    | seqFirst _ => rfl
    | seqRest _ _ => rfl
  | seqRest _ _ ih1 ih2 =>
    cases h' with
    | seqCons f' r' => cases ih1 f'; cases ih2 r'
    | seqFirst _ => rfl
    | seqRest _ _ => rfl
  | optSome _ ih =>
    cases h' with
    | optSome o' => cases ih o'; rfl
    | optNone o' => cases ih o'
  | optNone _ ih =>
    cases h' with
    | optSome o' => cases ih o'
    | optNone _ => rfl
  | manyStop _ ih =>
    cases h' with
    | manyStop _ => rfl
    | manyStep o' _ => cases ih o'
  | manyStep _ _ ih1 ih2 =>
    cases h' with
    | manyStop o' => cases ih1 o'
    | manyStep o' r' => cases ih1 o'; cases ih2 r'; rfl
  | many1None _ ih =>
    cases h' with
    | many1None _ => rfl
    | many1Some o' _ => cases ih o'
  | many1Some _ _ ih1 ih2 =>
    cases h' with
    | many1None o' => cases ih1 o'
    | many1Some o' r' => cases ih1 o'; cases ih2 r'; rfl
  | left _ ih =>
    cases h' with
    | left f' => cases ih f'; rfl
    | right f' _ => cases ih f'
    | neither f' _ => cases ih f'
  | right _ _ ih1 ih2 =>
    cases h' with
    | left f' => cases ih1 f'
    | right _ s' => cases ih2 s'; rfl
    | neither _ s' => cases ih2 s'
  | neither _ _ ih1 ih2 =>
    cases h' with
    | left f' => cases ih1 f'
    | right _ s' => cases ih2 s'
    | neither _ _ => rfl
  | notOk _ ih =>
    cases h' with
    | notOk _ => rfl
    | notFail o' => cases ih o'
  | notFail _ ih =>
    cases h' with
    | notOk o' => cases ih o'
    | notFail _ => rfl
  | box found _ ih =>
    cases h' with
    | box found' b' =>
      cases Option.some.inj (found.symm.trans found')
      exact ih b'
  | mapOk _ changed ih =>
    cases h' with
    | mapOk o' changed' =>
      cases ih o'
      cases Except.ok.inj (changed.symm.trans changed')
      rfl
    | mapFail o' => cases ih o'
  | mapFail _ ih =>
    cases h' with
    | mapOk o' _ => cases ih o'
    | mapFail _ => rfl
  | derived found _ ih =>
    cases h' with
    | derived found' b' =>
      cases Option.some.inj (found.symm.trans found')
      exact ih b'
  | planFirst attempts _ built ih =>
    cases h' with
    | planFirst attempts' f' built' =>
      cases attempts.symm.trans attempts'
      cases ih f'
      cases Except.ok.inj (built.symm.trans built')
      rfl
    | planNext attempts' f' _ =>
      cases attempts.symm.trans attempts'
      cases ih f'
    | planNone attempts' => cases attempts.symm.trans attempts'
  | planNext attempts _ _ ih1 ih2 =>
    cases h' with
    | planFirst attempts' f' _ =>
      cases attempts.symm.trans attempts'
      cases ih1 f'
    | planNext attempts' _ o' =>
      cases attempts.symm.trans attempts'
      exact ih2 o'
    | planNone attempts' => cases attempts.symm.trans attempts'
  | planNone attempts =>
    cases h' with
    | planFirst attempts' _ _ => cases attempts.symm.trans attempts'
    | planNext attempts' _ _ => cases attempts.symm.trans attempts'
    | planNone _ => rfl
  | generated _ ih => cases h' with | generated b' => exact ih b'
  | recorded _ ih => cases h' with | recorded o' => exact ih o'

/-- What was found out since changes no meaning. -/
theorem Derives.mono {g g' : Grammar} {xs : Source} {p : Parser} {i : Nat} {r : Verdict}
    (hg : g.Precedes g') (h : Derives g xs p i r) : Derives g' xs p i r := by
  induction h with
  | element h => exact .element h
  | any h => exact .any h
  | satisfy h => exact .satisfy h
  | misser h => exact .misser h
  | seqNil => exact .seqNil
  | seqCons _ _ ih1 ih2 => exact .seqCons ih1 ih2
  | seqFirst _ ih => exact .seqFirst ih
  | seqRest _ _ ih1 ih2 => exact .seqRest ih1 ih2
  | optSome _ ih => exact .optSome ih
  | optNone _ ih => exact .optNone ih
  | manyStop _ ih => exact .manyStop ih
  | manyStep _ _ ih1 ih2 => exact .manyStep ih1 ih2
  | many1None _ ih => exact .many1None ih
  | many1Some _ _ ih1 ih2 => exact .many1Some ih1 ih2
  | left _ ih => exact .left ih
  | right _ _ ih1 ih2 => exact .right ih1 ih2
  | neither _ _ ih1 ih2 => exact .neither ih1 ih2
  | notOk _ ih => exact .notOk ih
  | notFail _ ih => exact .notFail ih
  | @box b _ _ _ found _ ih => exact .box (hg.known (f := .box b) found) ih
  | mapOk _ changed ih => exact .mapOk ih changed
  | mapFail _ ih => exact .mapFail ih
  | @derived c _ _ _ found _ ih => exact .derived (hg.known (f := .plan c) found) ih
  | planFirst attempts _ built ih =>
    exact .planFirst attempts ih ((hg.construct_eq _ _).trans built)
  | planNext attempts _ _ ih1 ih2 => exact .planNext attempts ih1 ih2
  | planNone attempts => exact .planNone attempts
  | generated _ ih => exact .generated ih
  | recorded _ ih => exact .recorded ih

/-! ## What a failure is to blame on -/

/-- What is wrong where one element should be accepted. -/
def Source.blame (xs : Source) (accept : Value → Bool) (expected : Value) (i : Nat) :
    Option Failure :=
  match xs.get? i with
  | some v => if accept v then none else some (.unexpectedElement expected v)
  | none => some (.endOfInput expected)

/-- The failure that the structure of a parser prescribes where it fails. -/
inductive Blames (g : Grammar) (xs : Source) : Parser → Nat → Failure → Prop
  | element {expected i e} (h : xs.blame (expected.same ·) expected i = some e) :
    Blames g xs (.element expected) i e
  | any {i e} (h : xs.blame (fun _ => true) (.text "any element") i = some e) :
    Blames g xs .any i e
  | satisfy {test description i e} (h : xs.blame test (.text description) i = some e) :
    Blames g xs (.satisfy test description) i e
  | misser {accepts i text} (h : xs.read accepts i = .fail)
    (said : g.describe (.misser accepts) = .ok text) :
    Blames g xs (.misser accepts) i (.noMatch text)
  | seqFirst {p ps i e} (first : Blames g xs p i e) : Blames g xs (.seq (p :: ps)) i e
  | seqRest {p ps i j v e} (first : Derives g xs p i (.ok j v)) (rest : Blames g xs (.seq ps) j e) :
    Blames g xs (.seq (p :: ps)) i e
  /-- Of a repetition, only the first match can be missing. -/
  | many1 {checked body i e} (once : Blames g xs body i e) :
    Blames g xs (.many1 checked body) i e
  | either {left right i e} (first : Derives g xs left i .fail)
    (second : Blames g xs right i e) : Blames g xs (.either left right) i e
  | not {body i j v text} (once : Derives g xs body i (.ok j v))
    (said : g.describe body = .ok text) : Blames g xs (.not body) i (.unexpectedMatch text)
  | box {b p i e} (found : (g.boxInfo b).parser = some p) (body : Blames g xs p i e) :
    Blames g xs (.box b) i e
  | map {change body i e} (once : Blames g xs body i e) : Blames g xs (.map change body) i e
  | derived {c plan i e} (found : (g.classInfo c).plan = some plan)
    (body : Blames g xs (.planned plan) i e) : Blames g xs (.derived c) i e
  | planLast {plan a i e} (attempts : plan.attempts = [a])
    (fields : Blames g xs (.seq a.parsers) i e) : Blames g xs (.planned plan) i e
  | planNext {plan a b rest i e} (attempts : plan.attempts = a :: b :: rest)
    (fields : Derives g xs (.seq a.parsers) i .fail)
    (others : Blames g xs (.planned { plan with attempts := b :: rest }) i e) :
    Blames g xs (.planned plan) i e
  | generated {plan code i e} (body : Blames g xs (.planned plan) i e) :
    Blames g xs (.generated plan code) i e
  | recorded {name body i e} (once : Blames g xs body i e) : Blames g xs (.recorded name body) i e

theorem Source.read_of_blame {xs : Source} {accept : Value → Bool} {expected : Value} {i : Nat}
    {e : Failure} (h : xs.blame accept expected i = some e) : xs.read accept i = .fail := by
  unfold Source.blame at h
  unfold Source.read
  cases hget : xs.get? i with
  | none => rfl
  | some v =>
    rw [hget] at h
    cases hv : accept v with
    | true => simp [hv] at h
    | false => simp [hv]

section Blames

variable {g : Grammar} {xs : Source} {p : Parser} {i : Nat} {e e' : Failure}

/-- What there is a failure to blame on fails. -/
theorem Blames.fails (h : Blames g xs p i e) : Derives g xs p i .fail := by
  induction h with
  | element h => exact .element (Source.read_of_blame h).symm
  | any h => exact .any (Source.read_of_blame h).symm
  | satisfy h => exact .satisfy (Source.read_of_blame h).symm
  | misser h _ => exact .misser h.symm
  | seqFirst _ ih => exact .seqFirst ih
  | seqRest first _ ih => exact .seqRest first ih
  | many1 _ ih => exact .many1None ih
  | either first _ ih => exact .neither first ih
  | not once _ => exact .notFail once
  | box found _ ih => exact .box found ih
  | map _ ih => exact .mapFail ih
  | derived found _ ih => exact .derived found ih
  | planLast attempts _ ih => exact .planNext attempts ih (.planNone rfl)
  | planNext attempts fields _ ih => exact .planNext attempts fields ih
  | generated _ ih => exact .generated ih
  | recorded _ ih => exact .recorded ih

theorem not_ok_of_fail {j : Nat} {v : Value} (h : Derives g xs p i .fail) :
    ¬ Derives g xs p i (.ok j v) := by
  intro h'
  cases h.deterministic h'

/-- **There is only one failure to blame.** -/
theorem Blames.unique (h : Blames g xs p i e) (h' : Blames g xs p i e') : e = e' := by
  induction h generalizing e' with
  | element h => cases h' with | element h' => exact Option.some.inj (h.symm.trans h')
  | any h => cases h' with | any h' => exact Option.some.inj (h.symm.trans h')
  | satisfy h => cases h' with | satisfy h' => exact Option.some.inj (h.symm.trans h')
  | misser _ said => cases h' with | misser _ said' => cases said.symm.trans said'; rfl
  | seqFirst first ih =>
    cases h' with
    | seqFirst first' => exact ih first'
    | seqRest first' _ => exact absurd first' (not_ok_of_fail first.fails)
  | seqRest first _ ih =>
    cases h' with
    | seqFirst first' => exact absurd first (not_ok_of_fail first'.fails)
    | seqRest first' rest' =>
      cases first.deterministic first'
      exact ih rest'
  | many1 _ ih => cases h' with | many1 once' => exact ih once'
  | either _ _ ih => cases h' with | either _ second' => exact ih second'
  | not _ said => cases h' with | not _ said' => cases said.symm.trans said'; rfl
  | box found _ ih =>
    cases h' with
    | box found' body' =>
      cases found.symm.trans found'
      exact ih body'
  | map _ ih => cases h' with | map once' => exact ih once'
  | derived found _ ih =>
    cases h' with
    | derived found' body' =>
      cases found.symm.trans found'
      exact ih body'
  | planLast attempts _ ih =>
    cases h' with
    | planLast attempts' fields' =>
      cases attempts.symm.trans attempts'
      exact ih fields'
    | planNext attempts' _ _ => cases attempts.symm.trans attempts'
  | planNext attempts _ _ ih =>
    cases h' with
    | planLast attempts' _ => cases attempts.symm.trans attempts'
    | planNext attempts' _ others' =>
      cases attempts.symm.trans attempts'
      exact ih others'
  | generated _ ih => cases h' with | generated body' => exact ih body'
  | recorded _ ih => cases h' with | recorded once' => exact ih once'

end Blames

end ShapeGrammar
