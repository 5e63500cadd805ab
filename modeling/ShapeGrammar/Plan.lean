import ShapeGrammar.Failure

/-!
# Plans

How a shape is parsed: one attempt per alternative, each with the parsers of its fields and the
class to construct. An attempt runs on a snapshot of the cursor if something is left to try when it
fails, and on the cursor itself if not.

Headlines: `Attempt`, `Plan`, `Plan.requiresSnapshot`.
-/

namespace ShapeGrammar

/-- A shape is a sequence of fields, or a choice between variants. -/
inductive PlanKind
  | product
  | sum
  deriving DecidableEq, Repr, Inhabited

/-- The name of a kind of shape. -/
def PlanKind.name : PlanKind → String
  | .product => "product"
  | .sum => "sum"

/-- One try at building a value: parse these fields, construct that class. -/
structure Attempt (P : Type) where
  name : String
  target : ClassRef
  parsers : List P
  snapshot : Bool
  deriving Inhabited

/-- An attempt without fields always succeeds. -/
def Attempt.isUnit {P : Type} (a : Attempt P) : Bool :=
  a.parsers.isEmpty

/-- The attempts at a shape, in the order in which they are made. -/
structure Plan (P : Type) where
  target : ClassRef
  kind : PlanKind
  attempts : List (Attempt P)
  /-- The kind of failure that the total form may report; none if it cannot fail. -/
  errorKind : Option FailureKind
  deriving Inhabited

/-- Whether parsing the shape ever duplicates the cursor. -/
def Plan.requiresSnapshot {P : Type} (p : Plan P) : Bool :=
  p.attempts.any (·.snapshot)

end ShapeGrammar
