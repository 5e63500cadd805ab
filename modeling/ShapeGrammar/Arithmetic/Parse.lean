import ShapeGrammar.Arithmetic.Grammar
import ShapeGrammar.Arithmetic.Evaluate
import ShapeGrammar.Limits

/-!
# Parsing arithmetic

Texts parsed as one of the classes of the arithmetic grammar, by the derived parser, by the plan of
the class or by its factory, and the number that the result stands for.

Headlines: `Symbol`, `Symbol.parse`, `Symbol.number?`.
-/

namespace ShapeGrammar.Arithmetic

/-- The classes of the grammar. -/
inductive Symbol
  | expression
  | atom
  | number
  | digit
  | mathToken
  deriving DecidableEq, Repr, Inhabited

/-- The name of a class of the grammar. -/
def Symbol.name : Symbol → String
  | .expression => "Expression"
  | .atom => "Atom"
  | .number => "Number"
  | .digit => "Digit"
  | .mathToken => "MathToken"

/-- Which parser of a class is used. -/
inductive Backend
  | derived
  | compiled
  | generated
  deriving DecidableEq, Repr, Inhabited

/-- The parser of a class of the grammar as it would be written. -/
def parserExpr (symbol : Symbol) : Backend → ParserExpr
  | .derived => .shape (reference symbol.name)
  | .compiled => .compiled (reference symbol.name)
  | .generated => .generated (reference symbol.name)

/-- Calls the parser of a class at a place of a text. The handed cursor is the first one. -/
def parseAct (k : Limits) (symbol : Symbol) (backend : Backend) (entry : Entry) (text : String)
    (position : Nat) : Act Outcome := do
  let b ← Act.resolve (buildParser k.answers (parserExpr symbol backend))
  modify (·.addCursor ⟨.ofText text, position, true⟩)
  k.call entry b.body 0

/-- The outcome of parsing a text from a place on, and the machine afterwards. -/
def Symbol.parse (symbol : Symbol) (backend : Backend) (entry : Entry) (text : String)
    (position : Nat) : Except Stop Outcome × Machine :=
  match parseAct .standard symbol backend entry text position (.ofGrammar grammar) with
  | .ok o m => (.ok o, m)
  | .error e m => (.error e, m)

/-- The number that an instance of a class stands for, if its class stands for one. -/
def Symbol.number? (symbol : Symbol) (v : Value) : Option (Except NumberFault Number) :=
  match symbol with
  | .expression => (Expression.ofValue? v).map (·.number)
  | .atom => (Atom.ofValue? v).map (·.number)
  | .number => (Digits.ofValue? v).map fun ds => .ok (.int ds.value)
  | .digit => (digitOf? v).map fun d => .ok (.int d.val)
  | .mathToken => none

end ShapeGrammar.Arithmetic
