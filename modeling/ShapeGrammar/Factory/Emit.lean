import ShapeGrammar.Plan
import ShapeGrammar.Factory.Statement
import ShapeGrammar.Digest.Sha256

/-!
# Writing plans out

From a plan to its factory. Everything has a positional name: `target2` is the class of the third
attempt, `parser1_0` the first field parser of the second, `field0` the value of a first field. An
attempt with something left to try gets a snapshot; the last one runs on the cursor itself, and in
the total form its error is the one that escapes.

The factory shows the kind and the name of the shape, the number of attempts and of the fields of
each; fields, variants and field types do not show, so two plans with one fingerprint can share a
factory.

Headlines: `Plan.code`, `Plan.generate`, `Plan.fingerprint`.
-/

namespace ShapeGrammar

/-- The variable of the class of an attempt. -/
def targetName (i : Nat) : String :=
  "target" ++ toString i

/-- The variable of a field parser of an attempt. -/
def parserName (i j : Nat) : String :=
  "parser" ++ toString i ++ "_" ++ toString j

/-- The variable of the value of a field. -/
def fieldName (j : Nat) : String :=
  "field" ++ toString j

/-- The name of the procedure of an attempt. -/
def attemptName (i : Nat) : String :=
  "attempt" ++ toString i

/-- The name that a factory has unless another one is asked for. -/
def factoryName : String :=
  "build_parser"

/-- The statement that leaves a procedure when a field does not match. -/
def leaveUnmatched : Entry → Statement
  | .total => .returnError "result"
  | .fallible => .returnMiss "result"

/-- Parses the field at place `j` of attempt `i`. -/
def fieldStatements (entry : Entry) (i j : Nat) : List Statement :=
  [.call "result" (parserName i j) entry "input", leaveUnmatched entry,
    .unpack "input" (fieldName j) "result"]

/-- Parses `count` fields and constructs the class of attempt `i` from them. -/
def attemptStatements (entry : Entry) (i count : Nat) : List Statement :=
  (List.range count).flatMap (fieldStatements entry i) ++
    [.returnBuilt "input" (targetName i) ((List.range count).map fieldName)]

variable {P : Type}

/-- The statements of an entry point that stand for attempt `i`. -/
def Attempt.statements (entry : Entry) (a : Attempt P) (i : Nat) : List Statement :=
  if a.isUnit then [.returnBuilt "input" (targetName i) []]
  else if a.snapshot then [.tryAttempt "found" (attemptName i) "input", .returnFound "found"]
  else
    match entry with
    | .fallible => [.returnAttempt (attemptName i) "input"]
    | .total => attemptStatements .total i a.parsers.length

namespace Plan

/-- The procedure of an entry point. -/
def entryProcedure (p : Plan P) (entry : Entry) : Procedure where
  name := entry.name
  parameter := "input"
  body := p.attempts.zipIdx.flatMap fun a => a.1.statements entry a.2

/-- The steps that unpack the field parsers of the attempts. -/
def unpackings (p : Plan P) : Code :=
  (p.attempts.zipIdx.filter fun a => !a.1.isUnit).map fun a =>
    .parsers a.2 ((List.range a.1.parsers.length).map (parserName a.2))

/-- The procedures of the attempts. -/
def attemptProcedures (p : Plan P) : List Procedure :=
  (p.attempts.zipIdx.filter fun a => !a.1.isUnit).map fun a =>
    ⟨attemptName a.2, "input", attemptStatements .fallible a.2 a.1.parsers.length⟩

/-- The procedures of a factory: those of the attempts, and the two entry points. -/
def procedures (p : Plan P) : List Procedure :=
  p.attemptProcedures ++ [p.entryProcedure .fallible, p.entryProcedure .total]

/-- The body of the factory of a plan. -/
def code (p : Plan P) : Code :=
  .targets ((List.range p.attempts.length).map targetName) :: p.unpackings ++
    p.procedures.map .procedure ++ [.returnEntries Entry.total.name Entry.fallible.name]

/-- The plan written out. `title` is the qualified name of the shape. -/
def factory (p : Plan P) (title name : String) : Factory where
  name := name
  caption := p.kind.name ++ " " ++ title
  code := p.code

/-- The text of the factory of a plan. -/
def generate (p : Plan P) (title name : String) : String :=
  (p.factory title name).source

/-- A digest of the factory of a plan. -/
def fingerprint (p : Plan P) (title : String) : String :=
  Digest.Sha256.hexDigest (p.generate title factoryName)

end Plan

end ShapeGrammar
