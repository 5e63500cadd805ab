import ShapeGrammar.Reference
import ShapeGrammar.Text.Literal

/-!
# Values

What an input is made of and what a parse produces: plain data, sequences, the two sides of a
choice, characters, and instances of declared classes.

* A truth value equals the number 0 or 1, a list equals a non-empty list of equal items, and a
  tuple equals tuples only. Instances are equal when their classes are the same and their parts
  are; to compare an instance one of whose parts was never set is impossible.
* A text stands for itself inside a message (`Value.display`) and is quoted where its form is shown
  (`Value.literal`).

Headlines: `Value`, `RecordType.view`, `Value.compare`, `Value.display`, `Value.literal`,
`Value.flatten`.
-/

namespace ShapeGrammar

/-- What an instance knows about its class. The parts of an instance, by which it is compared and
written, are those that its constructor was made for; the fields of its class may be others. -/
structure RecordType where
  cls : ClassId
  /-- The qualified name of the class. -/
  name : String
  /-- The attributes that have a value: first the parts, then what else is a field. -/
  attributes : List String
  /-- How many of the attributes are parts. -/
  parts : Nat
  /-- The fields that have a value, in order of declaration. -/
  fields : List String
  /-- Whether some part has no value. -/
  partly : Bool
  /-- Whether instances are compared by their parts; if not, no two of them are equal. -/
  comparable : Bool
  deriving DecidableEq, Repr, Inhabited

/-- Elements of inputs, and results of parsers. -/
inductive Value
  | nothing
  | bool (b : Bool)
  | int (i : Int)
  | text (s : String)
  | char (c : Char)
  | tuple (items : List Value)
  | list (items : List Value)
  | nonempty (first : Value) (rest : List Value)
  | left (value : Value)
  | right (value : Value)
  | record (type : RecordType) (fields : List Value)
  deriving Repr, Inhabited

/-- The fields of an instance with their values, given those of its attributes. -/
def RecordType.view (type : RecordType) (values : List Value) : List (String × Value) :=
  type.fields.filterMap fun name => (type.attributes.zip values).find? (·.1 == name)

namespace Value

/-! ## Equality -/

/-- The result of comparing two values. -/
inductive Comparison
  | equal
  | different
  /-- A part without a value would have to be read. -/
  | unreadable
  deriving DecidableEq, Repr

/-- A decided comparison. -/
def Comparison.of (b : Bool) : Comparison :=
  if b then .equal else .different

/-- The comparison of what follows, if what precedes is equal. -/
def Comparison.andThen (c : Comparison) (rest : Comparison) : Comparison :=
  match c with
  | .equal => rest
  | .different => .different
  | .unreadable => .unreadable

/-- The number that a truth value equals. -/
def boolNumber (b : Bool) : Int :=
  if b then 1 else 0

mutual

/-- Compares two values by kind and content. -/
def compare : Value → Value → Comparison
  | .nothing, .nothing => .equal
  | .bool a, .bool b => .of (a == b)
  | .bool a, .int j => .of (boolNumber a == j)
  | .int i, .bool b => .of (i == boolNumber b)
  | .int i, .int j => .of (i == j)
  | .text s, .text t => .of (s == t)
  | .char c, .char d => .of (c == d)
  | .tuple xs, .tuple ys => compareItems xs ys
  | .list xs, .list ys => if xs.length == ys.length then compareItems xs ys else .different
  | .list xs, .nonempty y ys =>
    if xs.length == ys.length + 1 then compareItems xs (y :: ys) else .different
  | .nonempty x xs, .list ys =>
    match ys with
    | [] => .different
    | y :: ys =>
      if xs.length == ys.length then (compare x y).andThen (compareItems xs ys) else .different
  | .nonempty x xs, .nonempty y ys =>
    if xs.length == ys.length then (compare x y).andThen (compareItems xs ys) else .different
  | .left a, .left b => compare a b
  | .right a, .right b => compare a b
  | .record s xs, .record t ys =>
    if s.cls == t.cls && s.comparable then
      if s.partly || t.partly then .unreadable else compareParts s.parts xs ys
    else .different
  | _, _ => .different

/-- Compares item by item, up to the first difference. -/
def compareItems : List Value → List Value → Comparison
  | [], [] => .equal
  | x :: xs, y :: ys => (compare x y).andThen (compareItems xs ys)
  | _, _ => .different

/-- Compares the first `n` items. -/
def compareParts : Nat → List Value → List Value → Comparison
  | n + 1, x :: xs, y :: ys => (compare x y).andThen (compareParts n xs ys)
  | _, _, _ => .equal

end

/-- Whether two values are found equal. -/
def same (a b : Value) : Bool :=
  compare a b == .equal

/-! ## Truth -/

/-- Nothing, zero, falsehood and empty text or sequences are false; all else is true. -/
def truth : Value → Bool
  | .nothing => false
  | .bool b => b
  | .int i => i != 0
  | .text s => !s.isEmpty
  | .tuple items => !items.isEmpty
  | .list items => !items.isEmpty
  | _ => true

/-! ## Text -/

/-- The shown form of the character class `c`. -/
def characterName (c : Char) : String :=
  "Character[" ++ Text.quoted (String.singleton c) ++ "]"

mutual

/-- The form of a value inside messages, with texts quoted. -/
def literal : Value → String
  | .nothing => "None"
  | .bool true => "True"
  | .bool false => "False"
  | .int i => toString i
  | .text s => Text.quoted s
  | .char c => characterName c ++ "()"
  | .tuple [x] => "(" ++ literal x ++ ",)"
  | .tuple items => "(" ++ ", ".intercalate (literals items) ++ ")"
  | .list items => "[" ++ ", ".intercalate (literals items) ++ "]"
  | .nonempty first rest => "[" ++ ", ".intercalate (literal first :: literals rest) ++ "]"
  | .left value => "Left(value=" ++ literal value ++ ")"
  | .right value => "Right(value=" ++ literal value ++ ")"
  | .record type fields =>
    type.name ++ "(" ++ ", ".intercalate
      (List.zipWith (fun name value => name ++ "=" ++ value) (type.attributes.take type.parts)
        (literals fields)) ++ ")"

/-- The literals of all items. -/
def literals : List Value → List String
  | [] => []
  | x :: xs => literal x :: literals xs

end

/-- The text of a value: texts and characters stand for themselves, all else is shown. -/
def display : Value → String
  | .text s => s
  | .char c => String.singleton c
  | v => v.literal

mutual

/-- All texts in a value, through sequences, joined; what is neither contributes its display. -/
def flatten : Value → String
  | .nothing => ""
  | .tuple items => flattenItems items
  | .list items => flattenItems items
  | .nonempty first rest => flatten first ++ flattenItems rest
  | v => v.display

/-- The joined texts of all items. -/
def flattenItems : List Value → String
  | [] => ""
  | x :: xs => flatten x ++ flattenItems xs

end

mutual

/-- Whether writing the value would read a part that has no value. -/
def partlyUnset : Value → Bool
  | .tuple items => anyPartlyUnset items
  | .list items => anyPartlyUnset items
  | .nonempty first rest => partlyUnset first || anyPartlyUnset rest
  | .left value => partlyUnset value
  | .right value => partlyUnset value
  | .record type fields => type.partly || somePartlyUnset type.parts fields
  | _ => false

/-- Whether some item is partly unset. -/
def anyPartlyUnset : List Value → Bool
  | [] => false
  | x :: xs => partlyUnset x || anyPartlyUnset xs

/-- Whether some of the first `n` items is partly unset. -/
def somePartlyUnset : Nat → List Value → Bool
  | n + 1, x :: xs => partlyUnset x || somePartlyUnset n xs
  | _, _ => false

end

end Value

end ShapeGrammar
