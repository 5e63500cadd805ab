/-!
# References

The identities that shapes, parsers and values share: declared classes and fields, type aliases and
delayed parsers are numbered in the order they come into being, and a class is a declared one, the
class of one character, or one of the classes every grammar knows.
-/

namespace ShapeGrammar

/-- The number of a declared class. -/
abbrev ClassId := Nat

/-- The number of a type alias. -/
abbrev AliasId := Nat

/-- The number of a delayed parser. -/
abbrev BoxId := Nat

/-- The number of a declared field. -/
abbrev FieldId := Nat

/-- The number of a cursor. -/
abbrev CursorId := Nat

/-- The classes that every grammar knows without declaring them. Those with a case of their own have
a part in shapes. -/
inductive Builtin
  | text
  | integer
  | nothing
  | list
  | tuple
  | nonempty
  | box
  | either
  | not
  | character
  | sum
  /-- Any other class, by its name. -/
  | other (name : String)
  deriving DecidableEq, Repr, Inhabited

/-- The name of a known class in messages. -/
def Builtin.name : Builtin → String
  | .text => "str"
  | .integer => "int"
  | .nothing => "NoneType"
  | .list => "list"
  | .tuple => "tuple"
  | .nonempty => "NonEmpty"
  | .box => "Box"
  | .either => "Either"
  | .not => "Not"
  | .character => "Character"
  | .sum => "Sum"
  | .other name => name

/-- A class: declared in the grammar, of one character, or known beforehand. -/
inductive ClassRef
  | declared (id : ClassId)
  | character (char : Char)
  | builtin (name : Builtin)
  deriving DecidableEq, Repr, Inhabited

/-- Something that a name may stand for although it is no class, no parser and no data. -/
inductive Foreign
  /-- A field declared with options that no record of its class has taken in yet. -/
  | field (id : FieldId)
  /-- A function that every grammar knows. -/
  | function (name : String)
  /-- A plain mark that every grammar knows. -/
  | mark (name : String)
  deriving DecidableEq, Repr, Inhabited

end ShapeGrammar
