import ShapeGrammar.Factory.Run

/-!
# Running parsers

The meaning of every combinator at both entry points. The cursor that is handed to a parser belongs
to the parser from then on, which may move it whether or not it matches; whatever has something left
to try runs on a snapshot and in the fallible form, and whatever has not runs on the cursor itself.

`run n` makes at most `n` calls one inside the other, and stops where that is not enough.

Headlines: `gather`, `collect`, `runAttempts`, `run`.
-/

namespace ShapeGrammar

/-- What parts parsed one after the other have come to. -/
inductive Gathered
  | all (cursor : CursorId) (values : List Value)
  /-- A part did not match; its outcome is the whole outcome. -/
  | stopped (outcome : Outcome)
  deriving Inhabited

/-- Parses parts one after the other, each from the cursor that the one before has returned. A part
that does not match says so in the form of the entry point; nothing else can be taken apart. -/
def gather (call : Entry → Parser → CursorId → Act Outcome) (entry : Entry) :
    List Parser → CursorId → Act Gathered
  | [], c => pure (.all c [])
  | p :: ps, c => do
    match ← call entry p c with
    | .matched c v => do
      match ← gather call entry ps c with
      | .all c vs => pure (.all c (v :: vs))
      | .stopped o => pure (.stopped o)
    | o =>
      if o.endsAt entry then pure (.stopped o)
      else Act.fail (.type (.other "only a match is taken apart"))

/-- Refuses a match that ends where it began. -/
def checkProgress (body : Parser) (start : Nat) (c : CursorId) : Act Unit := do
  let stop ← Act.position c
  if stop ≤ start then
    let description ← Act.describe body
    Act.fail (.zeroWidth description start)

/-- The place that a match must get beyond, if there is one. -/
def mark (checked : Bool) (c : CursorId) : Act (Option Nat) :=
  if checked then some <$> Act.position c else pure none

/-- Refuses a match that does not get beyond a mark. -/
def checkMark (body : Parser) (start : Option Nat) (c : CursorId) : Act Unit :=
  match start with
  | some start => checkProgress body start c
  | none => pure ()

/-- Collects matches of the body, each tried on a snapshot, until it misses. -/
def collect (call : Entry → Parser → CursorId → Act Outcome) (checked : Bool) (body : Parser) :
    Nat → CursorId → Act (CursorId × List Value)
  | 0, _ => throw .outOfFuel
  | n + 1, c => do
    let s ← Act.snapshot c
    match ← call .fallible body s with
    | .matched d v => do
      let start ← mark checked c
      checkMark body start d
      let (e, vs) ← collect call checked body n d
      pure (e, v :: vs)
    | _ => pure (c, [])

/-- One or more matches of the body, the first of them at the entry point of the whole. -/
def collectFirst (call : Entry → Parser → CursorId → Act Outcome) (checked : Bool)
    (body : Parser) (n : Nat) (entry : Entry) (c : CursorId) : Act Outcome := do
  let start ← mark checked c
  match ← call entry body c with
  | .matched d v => do
    checkMark body start d
    let (e, vs) ← collect call checked body n d
    pure (.matched e (.nonempty v vs))
  | o => pure o

/-- Reads one element that must be accepted. -/
def readElement (accept : Value → Bool) (expected : Value) (c : CursorId) : Act Outcome := do
  match ← Act.next c with
  | none => pure (.failed (.endOfInput expected))
  | some v =>
    if accept v then pure (.matched c v) else pure (.failed (.unexpectedElement expected v))

/-- Reports that the left arm of a choice missed. -/
def reportArm (left right : Parser) (c : CursorId) : Act Unit := do
  if ← Act.listens .debug then
    let l ← Act.describe left
    let position ← Act.position c
    let r ← Act.describe right
    Act.report (.armMissed l position r)

/-- Reports that an attempt with something to fall back to missed. -/
def reportAttempt (target : ClassRef) (attempt : String) (c : CursorId) : Act Unit := do
  if ← Act.listens .debug then
    let position ← Act.position c
    let name ← Act.className target
    Act.report (.attemptMissed name attempt position)

/-- Parses the fields of an attempt and constructs its class. -/
def runAttempt (call : Entry → Parser → CursorId → Act Outcome) (entry : Entry)
    (a : Attempt Parser) (c : CursorId) : Act Outcome := do
  match ← gather call entry a.parsers c with
  | .all c vs => do
    let v ← Act.construct a.target vs
    pure (.matched c v)
  | .stopped o => pure o

/-- Makes the attempts of a plan in order: all that can fall back on a snapshot and in the fallible
form, the last one on the cursor itself and at the entry point of the whole. `report` is told of
every attempt that missed before another one is made. -/
def runAttempts (call : Entry → Parser → CursorId → Act Outcome)
    (report : String → CursorId → Act Unit) (entry : Entry) :
    List (Attempt Parser) → CursorId → Act Outcome
  | [], _ => Act.fail .planExhausted
  | a :: rest, c => do
    if a.isUnit then
      let v ← Act.construct a.target []
      pure (.matched c v)
    else if !a.snapshot then runAttempt call entry a c
    else
      let s ← Act.snapshot c
      match ← runAttempt call .fallible a s with
      | .matched d v => pure (.matched d v)
      | _ => do
        report a.name c
        runAttempts call report entry rest c

/-- The total form of a parser that only knows how to miss. -/
def noMatch (p : Parser) (entry : Entry) : Act Outcome :=
  match entry with
  | .fallible => pure .missed
  | .total => do
    let d ← Act.describe p
    pure (.failed (.noMatch d))

/-- Calls a parser on a cursor. -/
def run (r : Resolver) : Nat → Entry → Parser → CursorId → Act Outcome
  | 0, _, _, _ => throw .outOfFuel
  | n + 1, entry, p, c =>
    match p with
    | .element v => (·.seenBy entry) <$> readElement (v.same ·) v c
    | .any => (·.seenBy entry) <$> readElement (fun _ => true) (.text "any element") c
    | .satisfy test description =>
      (·.seenBy entry) <$> readElement test (.text description) c
    | .seq parts => do
      match ← gather (run r n) entry parts c with
      | .all c vs => pure (.matched c (.tuple vs))
      | .stopped o => pure o
    | .opt body => do
      let s ← Act.snapshot c
      match ← run r n .fallible body s with
      | .matched d v => pure (.matched d v)
      | _ => pure (.matched c .nothing)
    | .many checked body => do
      let (d, vs) ← collect (run r n) checked body n c
      pure (.matched d (.list vs))
    | .many1 checked body => collectFirst (run r n) checked body n entry c
    | .either left right => do
      let s ← Act.snapshot c
      match ← run r n .fallible left s with
      | .matched d v => pure (.matched d (.left v))
      | _ => do
        reportArm left right c
        (·.mapValue .right) <$> run r n entry right c
    | .not body => do
      let s ← Act.snapshot c
      match ← run r n .fallible body s with
      | .matched _ _ =>
        match entry with
        | .fallible => pure .missed
        | .total => do
          let d ← Act.describe body
          pure (.failed (.unexpectedMatch d))
      | _ => pure (.matched c .nothing)
    | .box b => do
      let p ← Act.resolve (r.boxParser b)
      run r n entry p c
    | .map change body => do
      match ← run r n entry body c with
      | .matched d v => do
        let w ← Act.lift (change v)
        pure (.matched d w)
      | o => pure o
    | .derived target => do
      let plan ← Act.resolve (r.planOf target)
      run r n entry (.planned plan) c
    | .planned plan => runAttempts (run r n) (reportAttempt plan.target) entry plan.attempts c
    | .generated plan code => code.invoke (run r n) plan entry c
    | .recorded name body => do
      let position ← Act.position c
      Act.note ⟨name, entry, position⟩
      run r n entry body c
    | .misser accepts => do
      match ← Act.next c with
      | some v => if accepts v then pure (.matched c v) else noMatch p entry
      | none => noMatch p entry
    | .unimplemented => Act.fail (.notImplemented "Unimplemented")
    | .inert => Act.fail (.attribute .parser)

end ShapeGrammar
