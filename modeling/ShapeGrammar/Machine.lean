import ShapeGrammar.Input.Cursor
import ShapeGrammar.Resolve

/-!
# The parsing machine

The state that a parse works on: a grammar, a store of cursors, and a trace of what was read,
duplicated and called. Cursors are numbered in the order in which they come into being. Reading
moves one cursor; a snapshot is a new cursor at the same place; nothing else touches the store.

Headlines: `Machine`, `Act`, `Act.next`, `Act.snapshot`, `Act.resolve`.
-/

namespace ShapeGrammar

/-- A call of a recorded parser. -/
structure Event where
  name : String
  entry : Entry
  position : Nat
  deriving DecidableEq, Repr, Inhabited

/-- The state of a parse. -/
structure Machine where
  grammar : Grammar
  cursors : Array Cursor
  /-- The positions of the elements read. -/
  reads : Array Nat
  /-- How many snapshots were taken. -/
  snapshots : Nat
  /-- The calls of recorded parsers. -/
  events : Array Event
  deriving Inhabited

/-- A computation on the machine. What it did stays done when it stops. -/
abbrev Act := EStateM Stop Machine

namespace Machine

/-- A machine without cursors. -/
def ofGrammar (g : Grammar) : Machine where
  grammar := g
  cursors := #[]
  reads := #[]
  snapshots := 0
  events := #[]

/-- The cursor with a number. -/
def cursor (m : Machine) (c : CursorId) : Cursor :=
  m.cursors.getD c default

/-- The machine with a further cursor, which gets the next number. -/
def addCursor (m : Machine) (c : Cursor) : Machine :=
  { m with cursors := m.cursors.push c }

/-- The machine with an empty trace. -/
def clearTrace (m : Machine) : Machine :=
  { m with reads := #[], snapshots := 0, events := #[] }

end Machine

namespace Act

variable {α : Type}

/-- Stops at a fault. -/
def fail (f : Fault) : Act α :=
  throw (.fault f)

/-- Goes on with an answer, or stops at a fault. -/
def lift : Except Fault α → Act α
  | .ok a => pure a
  | .error f => fail f

/-- Finds something out about the grammar. Cursors and trace stay as they are. -/
def resolve (x : Resolution α) : Act α := fun m =>
  match x m.grammar with
  | .ok a g => .ok a { m with grammar := g }
  | .error e g => .error e { m with grammar := g }

/-- Reads the next element at a cursor and moves the cursor past it; at the end nothing moves. -/
def next (c : CursorId) : Act (Option Value) := fun m =>
  match (m.cursor c).next? with
  | none => .ok none m
  | some (v, moved) =>
    .ok (some v)
      { m with
        cursors := m.cursors.set! c moved
        reads := m.reads.push (m.cursor c).position }

/-- A new cursor at the place of a cursor. -/
def snapshot (c : CursorId) : Act CursorId := fun m =>
  .ok m.cursors.size
    { m with
      cursors := m.cursors.push (m.cursor c)
      snapshots := m.snapshots + 1 }

/-- The position of a cursor, if it may be asked for. -/
def position (c : CursorId) : Act Nat := do
  let k := (← get).cursor c
  if k.positioned then pure k.position else fail (.attribute .position)

/-- Goes on with an answer, or stops where it stopped. -/
def liftStop : Except Stop α → Act α
  | .ok a => pure a
  | .error e => throw e

/-- The description of a parser. -/
def describe (p : Parser) : Act String := do
  liftStop ((← get).grammar.describe p)

/-- The name of a class. -/
def className (target : ClassRef) : Act String := do
  pure ((← get).grammar.className target)

/-- Keeps a report. -/
def report (r : Report) : Act Unit :=
  modify fun m => { m with grammar := m.grammar.report r }

/-- Whether someone listens to reports of this level. -/
def listens (level : LogLevel) : Act Bool := do
  pure (level.heardFrom (← get).grammar.threshold)

/-- Notes the call of a recorded parser. -/
def note (e : Event) : Act Unit :=
  modify fun m => { m with events := m.events.push e }

/-- The new instance of a class. -/
def construct (target : ClassRef) (arguments : List Value) : Act Value := do
  lift ((← get).grammar.construct target arguments)

end Act

end ShapeGrammar
