import ShapeGrammar.Run

/-!
# One call, taken apart from the calls that it makes

`runWith` is what a call does where the calls inside it are made by something else: a run is that
with a run of less fuel in the place of the calls. So a run can be compared with one whose calls are
watched, or with one that carries a plan out where a factory belongs to it.

Headlines: `runWith`, `run_succ`, `watched`, `carryOut`.
-/

namespace ShapeGrammar

/-- What a call of a parser does, where `call` makes the calls inside it. -/
def runWith (r : Resolver) (n : Nat) (call : Entry → Parser → CursorId → Act Outcome)
    (entry : Entry) (p : Parser) (c : CursorId) : Act Outcome :=
  match p with
  | .element v => (·.seenBy entry) <$> readElement (v.same ·) v c
  | .any => (·.seenBy entry) <$> readElement (fun _ => true) (.text "any element") c
  | .satisfy test description =>
    (·.seenBy entry) <$> readElement test (.text description) c
  | .seq parts => do
    match ← gather call entry parts c with
    | .all c vs => pure (.matched c (.tuple vs))
    | .stopped o => pure o
  | .opt body => do
    let s ← Act.snapshot c
    match ← call .fallible body s with
    | .matched d v => pure (.matched d v)
    | _ => pure (.matched c .nothing)
  | .many checked body => do
    let (d, vs) ← collect call checked body n c
    pure (.matched d (.list vs))
  | .many1 checked body => collectFirst call checked body n entry c
  | .either left right => do
    let s ← Act.snapshot c
    match ← call .fallible left s with
    | .matched d v => pure (.matched d (.left v))
    | _ => do
      reportArm left right c
      (·.mapValue .right) <$> call entry right c
  | .not body => do
    let s ← Act.snapshot c
    match ← call .fallible body s with
    | .matched _ _ =>
      match entry with
      | .fallible => pure .missed
      | .total => do
        let d ← Act.describe body
        pure (.failed (.unexpectedMatch d))
    | _ => pure (.matched c .nothing)
  | .box b => do
    let p ← Act.resolve (r.boxParser b)
    call entry p c
  | .map change body => do
    match ← call entry body c with
    | .matched d v => do
      let w ← Act.lift (change v)
      pure (.matched d w)
    | o => pure o
  | .derived target => do
    let plan ← Act.resolve (r.planOf target)
    call entry (.planned plan) c
  | .planned plan => runAttempts call (reportAttempt plan.target) entry plan.attempts c
  | .generated plan code => code.invoke call plan entry c
  | .recorded name body => do
    let position ← Act.position c
    Act.note ⟨name, entry, position⟩
    call entry body c
  | .misser accepts => do
    match ← Act.next c with
    | some v => if accepts v then pure (.matched c v) else noMatch p entry
    | none => noMatch p entry
  | .unimplemented => Act.fail (.notImplemented "Unimplemented")
  | .inert => Act.fail (.attribute .parser)

/-- The calls inside a call are made with less fuel. -/
theorem run_succ (r : Resolver) (n : Nat) (entry : Entry) (p : Parser) (c : CursorId) :
    run r (n + 1) entry p c = runWith r n (run r n) entry p c := by
  cases p <;> rfl

/-- What a repetition goes on with after the first call of its body. -/
def afterFirst (call : Entry → Parser → CursorId → Act Outcome) (checked : Bool) (body : Parser)
    (n : Nat) (start : Option Nat) : Outcome → Act Outcome
  | .matched d v => do
    checkMark body start d
    let (e, vs) ← collect call checked body n d
    pure (.matched e (.nonempty v vs))
  | o => pure o

theorem collectFirst_eq (call : Entry → Parser → CursorId → Act Outcome) (checked : Bool)
    (body : Parser) (n : Nat) (entry : Entry) (c : CursorId) :
    collectFirst call checked body n entry c =
      mark checked c >>= fun start => call entry body c >>= afterFirst call checked body n start :=
  rfl

/-- What a call does where a factory is not run, but the plan that it belongs to is carried out. -/
def carryWith (r : Resolver) (n : Nat) (call : Entry → Parser → CursorId → Act Outcome)
    (entry : Entry) (p : Parser) (c : CursorId) : Act Outcome :=
  match p with
  | .generated plan _ => runAttempts call (fun _ _ => pure ()) entry plan.attempts c
  | p => runWith r n call entry p c

/-- Calls one inside the other, at most so many. What each of them answers is shown to `watch`,
which may stop the run. -/
def watched (one : Nat → (Entry → Parser → CursorId → Act Outcome) → Entry → Parser → CursorId →
    Act Outcome) (watch : Entry → Parser → Outcome → Act Outcome) :
    Nat → Entry → Parser → CursorId → Act Outcome
  | 0, _, _, _ => throw .outOfFuel
  | n + 1, entry, p, c => one n (watched one watch n) entry p c >>= watch entry p

/-- Looks at answers and lets them pass. -/
def lookOn (_ : Entry) (_ : Parser) (o : Outcome) : Act Outcome :=
  pure o

/-- Calls a parser on a cursor, where plans are carried out in the place of factories. -/
def carryOut (r : Resolver) : Nat → Entry → Parser → CursorId → Act Outcome :=
  watched (carryWith r) lookOn

theorem carryOut_succ (r : Resolver) (n : Nat) (entry : Entry) (p : Parser) (c : CursorId) :
    carryOut r (n + 1) entry p c = carryWith r n (carryOut r n) entry p c := by
  have hpure : lookOn entry p = (pure : Outcome → Act Outcome) := rfl
  unfold carryOut watched
  rw [hpure, bind_pure]

end ShapeGrammar
