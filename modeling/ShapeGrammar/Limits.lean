import ShapeGrammar.Run

/-!
# Limits

How far questions about a grammar and calls of parsers are followed. Neither limit is part of what a
grammar means: an answer that is reached within some limits is reached within all larger ones.
`Limits.standard` is wide enough for every grammar whose own nesting is moderate, over inputs of
any size.

Headlines: `Limits`, `Limits.standard`, `Limits.call`.
-/

namespace ShapeGrammar

/-- How much may be nested. -/
structure Limits where
  /-- How many questions about declarations may be followed one inside the other. -/
  questions : Nat
  /-- How many calls of parsers may be made one inside the other over so many elements. -/
  calls : Nat → Nat

namespace Limits

/-- The limits that sessions work within. -/
def standard : Limits where
  questions := 4096
  calls := fun size => 8192 + 64 * size

/-- The answers to questions within the limits. -/
def answers (k : Limits) : Resolver :=
  resolver k.questions

/-- Calls a parser on a cursor within the limits. -/
def call (k : Limits) (entry : Entry) (p : Parser) (c : CursorId) : Act Outcome := do
  let size := ((← get).cursor c).source.size
  run k.answers (k.calls size) entry p c

end Limits

end ShapeGrammar
