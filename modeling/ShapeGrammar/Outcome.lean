import ShapeGrammar.Failure

/-!
# Entry points and outcomes

A parser has two entry points. The fallible one is for places where something is left to try: it
matches or misses. The total one is for places where nothing is: it matches or says what is wrong.
A match names the cursor that stands after what was consumed, which may be another one than the
cursor that was handed over.

Headlines: `Entry`, `Outcome`, `Outcome.seenBy`.
-/

namespace ShapeGrammar

/-- The form in which a parser is called. -/
inductive Entry
  | total
  | fallible
  deriving DecidableEq, Repr, Inhabited

/-- The name of an entry point. -/
def Entry.name : Entry → String
  | .total => "parse"
  | .fallible => "try_parse"

/-- What a call answers. -/
inductive Outcome
  | matched (cursor : CursorId) (value : Value)
  | missed
  | failed (failure : Failure)
  deriving Repr, Inhabited

namespace Outcome

/-- The outcome as the caller of an entry point sees it: the fallible form forgets why. -/
def seenBy (o : Outcome) : Entry → Outcome
  | .total => o
  | .fallible =>
    match o with
    | .failed _ => .missed
    | o => o

/-- Whether the outcome is how an entry point says that nothing matched. -/
def endsAt : Outcome → Entry → Bool
  | .missed, .fallible => true
  | .failed _, .total => true
  | _, _ => false

/-- The outcome with the value of a match changed. -/
def mapValue (f : Value → Value) : Outcome → Outcome
  | .matched c v => .matched c (f v)
  | .missed => .missed
  | .failed e => .failed e

end Outcome

end ShapeGrammar
