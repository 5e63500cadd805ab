import ShapeGrammar.Machine
import ShapeGrammar.Factory.Bind

/-!
# Running a factory

What the statements of a factory do. The procedures of a factory that is bound to a plan run on a
cursor, statement by statement, and every variable is looked up by its name: first among those that
the procedure has set, then among those of the factory. A procedure that ends without a return
answers a miss.

Headlines: `Statement.step`, `Procedure.run`, `Code.invoke`.
-/

namespace ShapeGrammar

/-- What a variable of a procedure holds. -/
inductive Slot
  | cursor (id : CursorId)
  | value (value : Value)
  | outcome (outcome : Outcome)
  deriving Inhabited

/-- How far a procedure has come. -/
inductive Progress
  | running (slots : Table Slot)
  | returned (outcome : Outcome)
  deriving Inhabited

/-- The cursor in a variable. -/
def cursorIn (slots : Table Slot) (name : String) : Except Fault CursorId :=
  match slots.get? name with
  | some (.cursor c) => .ok c
  | some _ => .error (.type (.other "not a cursor"))
  | none => .error (.unboundName name)

/-- The answer in a variable. -/
def outcomeIn (slots : Table Slot) (name : String) : Except Fault Outcome :=
  match slots.get? name with
  | some (.outcome o) => .ok o
  | some _ => .error (.type (.other "not an answer"))
  | none => .error (.unboundName name)

/-- The values in some variables. -/
def valuesIn (slots : Table Slot) (names : List String) : Except Fault (List Value) :=
  names.mapM fun name =>
    match slots.get? name with
    | some (.value v) => .ok v
    | some _ => .error (.type (.other "not a value"))
    | none => .error (.unboundName name)

/-- Does one statement. `call` calls a field parser and `attempt` the procedure of an attempt. -/
def Statement.step (call : Entry → Parser → CursorId → Act Outcome)
    (attempt : Procedure → CursorId → Act Outcome) (items : Table Item) (slots : Table Slot) :
    Statement → Act Progress
  | .call result parser entry cursor => do
    let p ← Act.lift (parserIn items parser)
    let c ← Act.lift (cursorIn slots cursor)
    let o ← call entry p c
    pure (.running (slots.put result (.outcome o)))
  | .returnMiss result => do
    match ← Act.lift (outcomeIn slots result) with
    | .missed => pure (.returned .missed)
    | _ => pure (.running slots)
  | .returnError result => do
    match ← Act.lift (outcomeIn slots result) with
    | .failed e => pure (.returned (.failed e))
    | _ => pure (.running slots)
  | .unpack cursor value result => do
    match ← Act.lift (outcomeIn slots result) with
    | .matched c v => pure (.running ((slots.put cursor (.cursor c)).put value (.value v)))
    | _ => Act.fail (.type (.other "only a match is taken apart"))
  | .tryAttempt found name cursor => do
    let p ← Act.lift (attemptIn items name)
    let c ← Act.lift (cursorIn slots cursor)
    let s ← Act.snapshot c
    let o ← attempt p s
    pure (.running (slots.put found (.outcome o)))
  | .returnFound found => do
    match ← Act.lift (outcomeIn slots found) with
    | .missed => pure (.running slots)
    | o => pure (.returned o)
  | .returnAttempt name cursor => do
    let p ← Act.lift (attemptIn items name)
    let c ← Act.lift (cursorIn slots cursor)
    let o ← attempt p c
    pure (.returned o)
  | .returnBuilt cursor target arguments => do
    let c ← Act.lift (cursorIn slots cursor)
    let t ← Act.lift (targetIn items target)
    let vs ← Act.lift (valuesIn slots arguments)
    let v ← Act.construct t vs
    pure (.returned (.matched c v))
  | .returnNothing => pure (.returned .missed)

/-- Does statement after statement, up to the first that returns. -/
def runStatements (call : Entry → Parser → CursorId → Act Outcome)
    (attempt : Procedure → CursorId → Act Outcome) (items : Table Item) :
    Table Slot → List Statement → Act Outcome
  | _, [] => pure .missed
  | slots, s :: rest => do
    match ← s.step call attempt items slots with
    | .running slots => runStatements call attempt items slots rest
    | .returned o => pure o

/-- Runs a procedure whose calls of other procedures are nested at most `depth` times. -/
def Procedure.run (call : Entry → Parser → CursorId → Act Outcome) (items : Table Item) :
    Nat → Procedure → CursorId → Act Outcome
  | 0, _, _ => throw .outOfFuel
  | depth + 1, p, c =>
    runStatements call (Procedure.run call items depth) items [(p.parameter, .cursor c)] p.body

/-- Runs an entry point of a factory bound to the classes and the field parsers of a plan. Entry
points call attempts, and attempts call no procedure. -/
def Code.invoke (call : Entry → Parser → CursorId → Act Outcome) (code : Code) (plan : Plan Parser)
    (entry : Entry) (c : CursorId) : Act Outcome := do
  let bound ← Act.lift (code.bind plan)
  (bound.procedure entry).run call bound.items 2 c

end ShapeGrammar
