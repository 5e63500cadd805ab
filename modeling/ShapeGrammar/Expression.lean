import ShapeGrammar.Transform
import ShapeGrammar.Shape

/-!
# Expressions

Shapes and parsers as they are written down, before the names in them mean anything. The two
kinds of expression contain each other: a parser may be that of a shape, and a shape may be a
parser or carry one as a note. A name may stand for anything, so that what is written where a parser
is expected need not be one.

Headlines: `ShapeExpr`, `ParserExpr`.
-/

namespace ShapeGrammar

mutual

/-- A written shape. -/
inductive ShapeExpr
  | character (char : Value)
  | ref (path : Path)
  | nothing
  | ellipsis
  | builtin (name : Builtin)
  | list (item : ShapeExpr)
  | nonempty (item : ShapeExpr)
  | not (body : ShapeExpr)
  | box (body : ShapeExpr)
  | either (left right : ShapeExpr)
  | tuple (items : List ShapeExpr)
  | union (members : List ShapeExpr)
  | mapping (key value : ShapeExpr)
  | annotated (body : ShapeExpr) (notes : List NoteExpr)
  | parser (body : ParserExpr)

/-- A written note. -/
inductive NoteExpr
  | text (s : String)
  | parser (body : ParserExpr)

/-- A written parser. -/
inductive ParserExpr
  | element (expected : Value)
  | any
  | satisfy (test : Predicate) (description : String)
  | seq (parts : List ParserExpr)
  | opt (body : ParserExpr)
  | many (checked : Bool) (body : ParserExpr)
  | many1 (checked : Bool) (body : ParserExpr)
  | either (left right : ParserExpr)
  /-- The choice between two things: of parsers as `either`, of types their union. -/
  | choice (first second : ParserExpr)
  | not (body : ParserExpr)
  /-- A delayed parser that is already found out. -/
  | box (body : ParserExpr)
  /-- A delayed parser that is built when it is first needed. -/
  | delayed (body : ParserExpr)
  | map (change : Transform) (body : ParserExpr)
  /-- The first followed by the second. -/
  | sum (first second : ParserExpr)
  /-- What a name is bound to. -/
  | name (path : Path)
  /-- The parser of a shape. -/
  | shape (shape : ShapeExpr)
  /-- The plan of a class, carried out. -/
  | compiled (shape : ShapeExpr)
  /-- The plan of a derived shape, written out and run. -/
  | generated (shape : ShapeExpr)
  /-- The plan of the schema of a class, written out and run. -/
  | generatedSchema (shape : ShapeExpr)
  /-- The factory of a derived shape from a file. -/
  | loaded (file : String) (shape : ShapeExpr)
  | recorded (name : String) (body : ParserExpr)
  /-- Matches one of some characters, and defines the fallible entry point only. -/
  | misser (accepted : String)
  | unimplemented

end

instance : Inhabited ShapeExpr := ⟨.nothing⟩

instance : Inhabited ParserExpr := ⟨.any⟩

end ShapeGrammar
