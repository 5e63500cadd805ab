import ShapeGrammar.Value
import ShapeGrammar.Fault

/-!
# Transforms and predicates

The named tests that an element may have to pass and the named changes that a parsed value may
undergo. A parser holds plain functions; these are the ones that a session can write down.

Headlines: `Predicate.holds`, `Transform.apply`.
-/

namespace ShapeGrammar

/-- A named test of an element. -/
inductive Predicate
  | digit
  | lower
  | even
  | always
  | never
  | truthful
  deriving DecidableEq, Repr, Inhabited

/-- The digits that `Predicate.digit` accepts, each as a text of its own. -/
def digitTexts : List String :=
  ["0", "1", "2", "3", "4", "5", "6", "7", "8", "9"]

/-- Whether an element passes the test. Texts are compared by code points. -/
def Predicate.holds : Predicate → Value → Bool
  | .digit, .text s => digitTexts.contains s
  | .lower, .text s => decide ("a" ≤ s) && decide (s ≤ "z")
  | .even, .int i => i % 2 == 0
  | .even, .bool b => !b
  | .always, _ => true
  | .truthful, v => v.truth
  | _, _ => false

/-- Whether an element is one of the characters of a text. -/
def isAmong (accepted : String) : Value → Bool
  | .text s => accepted.toList.any fun c => String.singleton c == s
  | _ => false

/-- A named change of a parsed value. -/
inductive Transform
  /-- The number of items. -/
  | length
  /-- All texts inside, joined. -/
  | flatten
  /-- The integer that the joined texts write. -/
  | integer
  /-- The items as a list. -/
  | items
  /-- A pair with a mark. -/
  | wrap
  | discard
  | fail
  deriving DecidableEq, Repr, Inhabited

/-- The texts in a value joined, unless some instance in it cannot be shown. -/
def flattened (v : Value) : Except Fault String :=
  if v.partlyUnset then .error (.attribute .unsetField) else .ok v.flatten

/-- The items of a sequence or the characters of a text. -/
def sequenceItems (v : Value) : Except Fault (List Value) :=
  match v with
  | .tuple xs => .ok xs
  | .list xs => .ok xs
  | .nonempty x xs => .ok (x :: xs)
  | .text s => .ok (s.toList.map fun c => .text (String.singleton c))
  | _ => .error (.type (.other "not a sequence"))

/-- The changed value. -/
def Transform.apply : Transform → Value → Except Fault Value
  | .length, v => (sequenceItems v).map fun xs => .int xs.length
  | .flatten, v => (flattened v).map .text
  | .integer, v => do
    let s ← flattened v
    match Text.readInteger? s with
    | some i => .ok (.int i)
    | none => .error (.value (.notInteger s))
  | .items, v => (sequenceItems v).map .list
  | .wrap, v => .ok (.tuple [.text "w", v])
  | .discard, _ => .ok .nothing
  | .fail, _ => .error (.value .transformFailed)

end ShapeGrammar
