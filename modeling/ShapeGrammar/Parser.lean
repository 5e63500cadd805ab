import ShapeGrammar.Outcome
import ShapeGrammar.Fault
import ShapeGrammar.Plan
import ShapeGrammar.Factory.Statement

/-!
# Parsers

The combinator algebra. A parser is a tree; where it refers to itself or to something that is
declared later, it holds the number of a delayed parser or of a declared class, which a `Grammar`
knows. Where something is put in a parser's place that is none, the tree is built all the same, and
only asking that place for anything fails.

Headlines: `Parser`, `Parser.followedBy`, `Handle`.
-/

namespace ShapeGrammar

/-- What produces a value from the elements at a cursor. -/
inductive Parser
  /-- Matches one element equal to the expected one. -/
  | element (expected : Value)
  /-- Matches any one element. -/
  | any
  /-- Matches one element that passes the test. -/
  | satisfy (test : Value → Bool) (description : String)
  /-- Each of the parts after the other; the value is the tuple of theirs. -/
  | seq (parts : List Parser)
  /-- The body once, or nothing. -/
  | opt (body : Parser)
  /-- The body as often as it matches; `checked` refuses matches that consume nothing. -/
  | many (checked : Bool) (body : Parser)
  /-- The body once or more. -/
  | many1 (checked : Bool) (body : Parser)
  /-- The left arm, or else the right one from the same place. -/
  | either (left right : Parser)
  /-- Matches nothing, and only where the body does not match. -/
  | not (body : Parser)
  /-- A parser that is found out the first time it is needed. -/
  | box (id : BoxId)
  /-- The body, with the value of a match changed. -/
  | map (change : Value → Except Fault Value) (body : Parser)
  /-- The parser derived from a declared class. -/
  | derived (target : ClassId)
  /-- Carries a plan out. -/
  | planned (plan : Plan Parser)
  /-- Runs a factory that a plan was written out as. -/
  | generated (plan : Plan Parser) (code : Code)
  /-- Notes every call of the body under a name. -/
  | recorded (name : String) (body : Parser)
  /-- Matches one element that passes the test, and defines the fallible entry point only. -/
  | misser (accepts : Value → Bool)
  /-- Defines neither entry point. -/
  | unimplemented
  /-- Something that is no parser, in the place of one. -/
  | inert
  deriving Inhabited

namespace Parser

/-- The body followed by another parser: a sequence grows by one part. -/
def followedBy (p q : Parser) : Parser :=
  match p with
  | .seq parts => .seq (parts ++ [q])
  | p => .seq [p, q]

/-- The parser of one fixed character, whose value is that character. -/
def character (c : Char) : Parser :=
  .map (fun _ => .ok (.char c)) (.element (.text (String.singleton c)))

/-- The plan of a parser that holds one. -/
def plan? : Parser → Option (Plan Parser)
  | .planned plan => some plan
  | .generated plan _ => some plan
  | _ => none

/-- The name of the kind of a parser. -/
def kindName : Parser → String
  | .element _ => "Element"
  | .any => "AnyElement"
  | .satisfy _ _ => "Satisfy"
  | .seq _ => "Seq"
  | .opt _ => "Opt"
  | .many _ _ => "ZeroOrMore"
  | .many1 _ _ => "OneOrMore"
  | .either _ _ => "Either"
  | .not _ => "Not"
  | .box _ => "Box"
  | .map _ _ => "Map"
  | .derived _ => "DerivedParser"
  | .planned _ => "PlannedParser"
  | .generated _ _ => "GeneratedParser"
  | .recorded _ _ => "Recorder"
  | .misser _ => "Misser"
  | .unimplemented => "Unimplemented"
  | .inert => ""

end Parser

/-- What makes a parser the same object as another one: classes and characters keep theirs, every
other parser is made anew. -/
inductive ParserId
  | derived (target : ClassId)
  | character (char : Char)
  | made (number : Nat)
  deriving DecidableEq, Repr, Inhabited

/-- A parser with its identity. -/
structure Handle where
  id : ParserId
  body : Parser
  deriving Inhabited

/-- The one parser of a character class. -/
def Handle.character (c : Char) : Handle :=
  ⟨.character c, .character c⟩

/-- The one parser of a derived class. -/
def Handle.derived (c : ClassId) : Handle :=
  ⟨.derived c, .derived c⟩

end ShapeGrammar
