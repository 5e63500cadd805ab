import ShapeGrammar.Outcome

/-!
# Statements of a factory

The small language in which a plan is written out. A factory unpacks the classes and the field
parsers it is handed, defines a procedure for every attempt and one for either entry point, and
returns the latter two. Every statement works on variables, which are known by their names.

A statement is written on one or two lines; `Factory.lines` writes the whole factory.

Headlines: `Statement`, `Procedure`, `Clause`, `Factory`, `Factory.source`.
-/

namespace ShapeGrammar

/-- One step of a procedure. -/
inductive Statement
  /-- Calls a field parser on the cursor and keeps its answer. -/
  | call (result parser : String) (entry : Entry) (cursor : String)
  /-- Returns a miss if the answer is one. -/
  | returnMiss (result : String)
  /-- Returns the answer if it is an error. -/
  | returnError (result : String)
  /-- Takes a match apart. -/
  | unpack (cursor value result : String)
  /-- Calls the procedure of an attempt on a snapshot of the cursor and keeps its answer. -/
  | tryAttempt (found attempt cursor : String)
  /-- Returns the answer if it is a match. -/
  | returnFound (found : String)
  /-- Returns what the procedure of an attempt answers on the cursor itself. -/
  | returnAttempt (attempt cursor : String)
  /-- Returns the cursor and a new instance. -/
  | returnBuilt (cursor target : String) (arguments : List String)
  /-- Returns a miss. -/
  | returnNothing
  deriving DecidableEq, Repr, Inhabited

/-- A named list of statements with one parameter. -/
structure Procedure where
  name : String
  parameter : String
  body : List Statement
  deriving DecidableEq, Repr, Inhabited

/-- One step of a factory. -/
inductive Clause
  /-- Unpacks the classes to construct, one for each attempt. -/
  | targets (names : List String)
  /-- Unpacks the field parsers of the attempt at a place. -/
  | parsers (place : Nat) (names : List String)
  /-- Defines a procedure. -/
  | procedure (body : Procedure)
  /-- Returns the procedures of the two entry points. -/
  | returnEntries (total fallible : String)
  /-- Returns no procedures. -/
  | returnNothing
  deriving DecidableEq, Repr, Inhabited

/-- The body of a factory. -/
abbrev Code := List Clause

/-- A plan written out. -/
structure Factory where
  name : String
  /-- The kind and the name of the shape. -/
  caption : String
  code : Code
  deriving DecidableEq, Repr, Inhabited

/-- Names separated by commas. -/
def commaList (names : List String) : String :=
  ", ".intercalate names

/-- The lines that write a statement. -/
def Statement.lines : Statement → List String
  | .call result parser entry cursor =>
    [result ++ " = " ++ parser ++ "." ++ entry.name ++ "(" ++ cursor ++ ")"]
  | .returnMiss result => ["if " ++ result ++ " is None:", "    return None"]
  | .returnError result =>
    ["if isinstance(" ++ result ++ ", ParseError):", "    return " ++ result]
  | .unpack cursor value result => [cursor ++ ", " ++ value ++ " = " ++ result]
  | .tryAttempt found attempt cursor =>
    [found ++ " = " ++ attempt ++ "(" ++ cursor ++ ".snapshot())"]
  | .returnFound found => ["if " ++ found ++ " is not None:", "    return " ++ found]
  | .returnAttempt attempt cursor => ["return " ++ attempt ++ "(" ++ cursor ++ ")"]
  | .returnBuilt cursor target arguments =>
    ["return " ++ cursor ++ ", " ++ target ++ "(" ++ commaList arguments ++ ")"]
  | .returnNothing => ["return None"]

/-- The lines that write a procedure inside a factory, after an empty line. -/
def Procedure.lines (p : Procedure) : List String :=
  "" :: ("    def " ++ p.name ++ "(" ++ p.parameter ++ "):") ::
    (p.body.flatMap Statement.lines).map ("        " ++ ·)

/-- The line that unpacks variables. -/
def unpackLine (names : List String) (whole : String) : String :=
  "    (" ++ commaList names ++ ",) = " ++ whole

/-- The lines that write a step of a factory. -/
def Clause.lines : Clause → List String
  | .targets names => [unpackLine names "targets"]
  | .parsers place names => [unpackLine names ("parsers[" ++ toString place ++ "]")]
  | .procedure p => p.lines
  | .returnEntries total fallible => ["", "    return " ++ total ++ ", " ++ fallible]
  | .returnNothing => ["    return None"]

namespace Factory

/-- The lines that write a factory. -/
def lines (f : Factory) : List String :=
  ("def " ++ f.name ++ "(targets, parsers):") :: ("    # " ++ f.caption) ::
    f.code.flatMap Clause.lines

/-- The text of a factory. -/
def source (f : Factory) : String :=
  "\n".intercalate f.lines ++ "\n"

end Factory

end ShapeGrammar
