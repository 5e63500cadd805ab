import ShapeGrammar.Parser
import ShapeGrammar.Table

/-!
# Binding a factory

A factory is bound to the classes and the field parsers of a plan: it is called with them, does its
steps one after the other, and must return the procedures of the two entry points. A factory that
returns anything else cannot be bound.

Headlines: `Bound`, `Code.run`, `Code.bind`.
-/

namespace ShapeGrammar

/-- What a variable of a factory holds. -/
inductive Item
  | target (ref : ClassRef)
  | parser (body : Parser)
  | attempt (body : Procedure)
  deriving Inhabited

/-- What a factory returns, with the variables that its procedures see. -/
structure Bound where
  items : Table Item
  total : Procedure
  fallible : Procedure
  deriving Inhabited

/-- The procedure of an entry point. -/
def Bound.procedure (b : Bound) : Entry → Procedure
  | .total => b.total
  | .fallible => b.fallible

/-- Unpacks values into as many variables. -/
def unpackInto {α : Type} : List String → List α → Except Fault (Table α)
  | [], [] => .ok []
  | n :: ns, v :: vs => do
    let rest ← unpackInto ns vs
    .ok ((n, v) :: rest)
  | _, _ => .error (.type (.other "as many variables as values"))

/-- The parser in a variable of the factory. -/
def parserIn (items : Table Item) (name : String) : Except Fault Parser :=
  match items.get? name with
  | some (.parser p) => .ok p
  | some _ => .error (.type (.other "not a parser"))
  | none => .error (.unboundName name)

/-- The class in a variable of the factory. -/
def targetIn (items : Table Item) (name : String) : Except Fault ClassRef :=
  match items.get? name with
  | some (.target c) => .ok c
  | some _ => .error (.type (.other "not a class"))
  | none => .error (.unboundName name)

/-- The procedure in a variable of the factory. -/
def attemptIn (items : Table Item) (name : String) : Except Fault Procedure :=
  match items.get? name with
  | some (.attempt p) => .ok p
  | some _ => .error (.type (.other "not a procedure"))
  | none => .error (.unboundName name)

namespace Code

/-- Does the steps of a factory up to the first that returns. -/
def run (targets : List ClassRef) (parsers : List (List Parser)) :
    Table Item → Code → Except Fault Bound
  | _, [] => .error (.type (.other "only a pair is taken apart"))
  | items, .targets names :: rest => do
    let row ← unpackInto names (targets.map .target)
    run targets parsers (items.putAll row) rest
  | items, .parsers place names :: rest => do
    let row ← unpackInto names ((parsers.getD place []).map .parser)
    run targets parsers (items.putAll row) rest
  | items, .procedure p :: rest => run targets parsers (items.put p.name (.attempt p)) rest
  | items, .returnEntries total fallible :: _ => do
    let total ← attemptIn items total
    let fallible ← attemptIn items fallible
    .ok ⟨items, total, fallible⟩
  | _, .returnNothing :: _ => .error (.type (.other "only a pair is taken apart"))

/-- Calls a factory with the classes and the field parsers of a plan, for its entry points. -/
def bind (code : Code) (plan : Plan Parser) : Except Fault Bound :=
  run (plan.attempts.map (·.target)) (plan.attempts.map (·.parsers)) [] code

end Code

end ShapeGrammar
