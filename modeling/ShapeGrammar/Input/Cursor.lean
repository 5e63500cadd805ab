import ShapeGrammar.Value
import ShapeGrammar.Fault

/-!
# Cursors

What parsers consume input through. A source is a text or a sequence of values; a cursor is a
place in a source, from which the next element can be read. Reading at the end answers nothing and
does not move the cursor.

A cursor without a readable position can be read from and duplicated like any other; only asking
for its position is refused. It may start anywhere: behind the end there is nothing to read, and a
start before the first element is counted from the end, so that the last elements come once more
before all of them.

Headlines: `Source`, `Cursor.at?`, `Cursor.unpositioned`, `Cursor.next?`, `Cursor.remaining`,
`Cursor.same`.
-/

namespace ShapeGrammar

/-- A fully known input. -/
structure Source where
  /-- A text, whose elements are its characters; if not, a sequence of values. -/
  isText : Bool
  elements : Array Value
  deriving Repr, Inhabited

namespace Source

/-- The characters of a text. -/
def ofText (s : String) : Source :=
  ⟨true, (s.toList.map fun c => Value.text (String.singleton c)).toArray⟩

/-- A sequence of values. -/
def ofItems (items : List Value) : Source :=
  ⟨false, items.toArray⟩

/-- The number of elements. -/
def size (s : Source) : Nat :=
  s.elements.size

/-- The element at a place, if the source reaches so far. -/
def get? (s : Source) (i : Nat) : Option Value :=
  s.elements[i]?

/-- What follows the first `i` elements: again a text, or a list. -/
def after (s : Source) (i : Nat) : Value :=
  let rest := s.elements.toList.drop i
  if s.isText then .text (String.join (rest.map Value.display)) else .list rest

/-- The source with its last `n` elements put once more in front. -/
def withLast (s : Source) (n : Nat) : Source :=
  ⟨s.isText, (s.elements.toList.drop (s.size - n) ++ s.elements.toList).toArray⟩

end Source

/-- A place in a source. -/
structure Cursor where
  source : Source
  position : Nat
  /-- Whether the position may be asked for. -/
  positioned : Bool
  deriving Repr, Inhabited

namespace Cursor

/-- A cursor at a place of a source, which must lie between its ends. -/
def at? (source : Source) (position : Int) : Except Fault Cursor :=
  if position < 0 || position > source.size then
    .error (.value (.positionOutside position source.size))
  else
    .ok ⟨source, position.toNat, true⟩

/-- A cursor whose position may not be asked for, at any place. -/
def unpositioned (source : Source) (position : Int) : Cursor :=
  if position < 0 then ⟨source.withLast position.natAbs, 0, false⟩
  else ⟨source, position.toNat, false⟩

/-- The next element, without moving. -/
def peek? (c : Cursor) : Option Value :=
  c.source.get? c.position

/-- The next element, and the cursor after it. -/
def next? (c : Cursor) : Option (Value × Cursor) :=
  c.peek?.map fun v => (v, { c with position := c.position + 1 })

/-- Whether nothing is left. -/
def atEnd (c : Cursor) : Bool :=
  c.source.size ≤ c.position

/-- What is left to read. -/
def remaining (c : Cursor) : Value :=
  c.source.after c.position

/-- The shown form of a cursor. -/
def literal (c : Cursor) : String :=
  (if c.source.isText then "TextCursor" else "SequenceCursor") ++ "(position=" ++
    toString c.position ++ ", remaining=" ++ c.remaining.literal ++ ")"

/-- Whether two cursors have the same position, where positions may be asked for. -/
def samePosition (c d : Cursor) : Bool :=
  c.positioned && d.positioned && c.position == d.position

/-- Two cursors are the same if they are at the same place in equal inputs. -/
def same (c d : Cursor) : Bool :=
  c.samePosition d && c.source.isText == d.source.isText &&
    Value.compareItems c.source.elements.toList d.source.elements.toList == .equal

end Cursor

/-- Data offered as an input. -/
inductive Offer
  | text (s : String)
  | sequence (items : List Value)
  | other (data : Unparsable)
  deriving Repr, Inhabited

/-- The source that offered data stands for. -/
def Offer.source : Offer → Except Fault Source
  | .text s => .ok (.ofText s)
  | .sequence items => .ok (.ofItems items)
  | .other data => .error (.type (.unparsable data))

end ShapeGrammar
