import ShapeGrammar.Value

/-!
# Parse failures

The ways an input can fail to be what a parser describes. A failure is a value that the total
entry point of a parser returns; a mistake in the grammar is a `Fault` instead.

Headlines: `Failure`, `Failure.kind`, `Failure.message`.
-/

namespace ShapeGrammar

/-- What kind of failure a parser may report. -/
inductive FailureKind
  /-- The next element could not be matched, or there was none. -/
  | element
  /-- A negative lookahead saw what it was looking out for. -/
  | unexpectedMatch
  /-- A parser that only knows how to miss was asked for an error. -/
  | noMatch
  deriving DecidableEq, Repr, Inhabited

/-- The name of a kind of failure. -/
def FailureKind.name : FailureKind → String
  | .element => "ElementError"
  | .unexpectedMatch => "UnexpectedMatch"
  | .noMatch => "NoMatch"

/-- Why an input is not what a parser describes. -/
inductive Failure
  | endOfInput (expected : Value)
  | unexpectedElement (expected actual : Value)
  | unexpectedMatch (description : String)
  | noMatch (description : String)
  deriving Repr, Inhabited

namespace Failure

/-- The kind under which a parser announces the failure. -/
def kind : Failure → FailureKind
  | .endOfInput _ => .element
  | .unexpectedElement _ _ => .element
  | .unexpectedMatch _ => .unexpectedMatch
  | .noMatch _ => .noMatch

/-- The failure as a sentence. -/
def message : Failure → String
  | .endOfInput expected => "expected " ++ expected.display ++ ", found end of input"
  | .unexpectedElement expected actual =>
    "expected " ++ expected.display ++ ", found " ++ actual.literal
  | .unexpectedMatch description => "did not expect " ++ description
  | .noMatch description => "expected " ++ description

/-- Failures are equal when they are of one form with equal parts. -/
def compare : Failure → Failure → Value.Comparison
  | .endOfInput e, .endOfInput f => e.compare f
  | .unexpectedElement e a, .unexpectedElement f b => (e.compare f).andThen (a.compare b)
  | .unexpectedMatch d, .unexpectedMatch d' => .of (d == d')
  | .noMatch d, .noMatch d' => .of (d == d')
  | _, _ => .different

end Failure

end ShapeGrammar
