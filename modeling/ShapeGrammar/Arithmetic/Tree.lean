import ShapeGrammar.Value

/-!
# Arithmetic trees

Expressions as a type of their own. The instances that the parser builds and the trees correspond
one to one; `Expression.ofValue?` reads a tree off an instance, and `Expression.text` writes it.

Headlines: `Expression`, `Expression.ofValue?`, `Expression.text`.
-/

namespace ShapeGrammar.Arithmetic

/-- The operators. -/
inductive Operator
  | plus
  | minus
  | times
  | divide
  deriving DecidableEq, Repr, Inhabited

/-- A number as it is written: one digit or more. -/
structure Digits where
  first : Fin 10
  rest : List (Fin 10)
  deriving DecidableEq, Repr, Inhabited

mutual

/-- An atom and the chain after it. -/
inductive Expression
  | chain (head : Atom) (tail : Tail)

/-- An expression in parentheses, or a number. -/
inductive Atom
  | group (inner : Expression)
  | literal (digits : Digits)

/-- Operators with an atom each. -/
inductive Tail
  | nil
  | cons (operator : Operator) (atom : Atom) (rest : Tail)

end

instance : Inhabited Atom := ⟨.literal default⟩

instance : Inhabited Expression := ⟨.chain default .nil⟩

/-! ## Text -/

/-- The character of an operator. -/
def Operator.char : Operator → Char
  | .plus => '+'
  | .minus => '-'
  | .times => '*'
  | .divide => '/'

/-- The character of a digit. -/
def digitChar (d : Fin 10) : Char :=
  Char.ofNat (0x30 + d.val)

/-- The characters of a number. -/
def Digits.text (ds : Digits) : List Char :=
  digitChar ds.first :: ds.rest.map digitChar

mutual

/-- The characters of an expression. -/
def Expression.text : Expression → List Char
  | .chain head tail => head.text ++ tail.text

/-- The characters of an atom. -/
def Atom.text : Atom → List Char
  | .group inner => '(' :: (inner.text ++ [')'])
  | .literal ds => ds.text

/-- The characters of a chain. -/
def Tail.text : Tail → List Char
  | .nil => []
  | .cons operator atom rest => operator.char :: (atom.text ++ rest.text)

end

/-! ## Instances -/

/-- The digit that an instance is. -/
def digitOf? : Value → Option (Fin 10)
  | .record _ [.char c] =>
    let n := c.toNat - 0x30
    if h : n < 10 then if c.toNat < 0x30 then none else some ⟨n, h⟩ else none
  | _ => none

/-- The digits that instances are. -/
def digitsOf? : List Value → Option (List (Fin 10))
  | [] => some []
  | v :: vs => do
    let d ← digitOf? v
    let ds ← digitsOf? vs
    some (d :: ds)

/-- The operator that an instance is. -/
def operatorOf? : Value → Option Operator
  | .record _ [.char '+'] => some .plus
  | .record _ [.char '-'] => some .minus
  | .record _ [.char '*'] => some .times
  | .record _ [.char '/'] => some .divide
  | _ => none

/-- The number that an instance is. -/
def Digits.ofValue? : Value → Option Digits
  | .record _ [.nonempty v vs] => do
    let d ← digitOf? v
    let ds ← digitsOf? vs
    some ⟨d, ds⟩
  | _ => none

mutual

/-- The expression that an instance is. -/
def Expression.ofValue? : Value → Option Expression
  | .record _ [head, .list tail] => do
    let h ← Atom.ofValue? head
    let t ← Tail.ofValues? tail
    some (.chain h t)
  | _ => none

/-- The atom that an instance is. -/
def Atom.ofValue? : Value → Option Atom
  | .record _ [.char _, inner, .char _] => .group <$> Expression.ofValue? inner
  | .record _ [number] => .literal <$> Digits.ofValue? number
  | _ => none

/-- The chain that pairs of instances are. -/
def Tail.ofValues? : List Value → Option Tail
  | [] => some .nil
  | .tuple [operator, atom] :: rest => do
    let o ← operatorOf? operator
    let a ← Atom.ofValue? atom
    let t ← Tail.ofValues? rest
    some (.cons o a t)
  | _ => none

end

end ShapeGrammar.Arithmetic
