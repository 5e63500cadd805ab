import ShapeGrammar.Arithmetic.Tree
import ShapeGrammar.Numeric.Binary64

/-!
# Evaluating arithmetic

A chain of operators is evaluated in two passes: products and quotients are folded into terms while
the atoms are evaluated from left to right, and then the terms are added and subtracted from left to
right. Between the passes, the terms and the operators between them are two lists. The passes know
nothing about numbers; what an operator does is a parameter.

Integers are exact. A quotient is always a floating-point number, and an integer that meets one is
rounded first.

Headlines: `Expression.evaluate`, `Digits.value`, `Number.apply`.
-/

namespace ShapeGrammar.Arithmetic

open ShapeGrammar.Numeric

/-- The number that digits write. -/
def Digits.value (ds : Digits) : Nat :=
  ds.rest.foldl (fun n d => n * 10 + d.val) ds.first.val

section Passes

variable {m : Type → Type} [Monad m] {N : Type}

/-- Adds terms from left to right. What does not stand behind a plus is subtracted. -/
def sumTerms (apply : Operator → N → N → m N) : N → List (Operator × N) → m N
  | sum, [] => pure sum
  | sum, (o, term) :: rest => do
    let sum ← match o with
      | .plus => apply .plus sum term
      | _ => apply .minus sum term
    sumTerms apply sum rest

mutual

/-- The value of an expression. -/
def Expression.evaluate (apply : Operator → N → N → m N) (literal : Nat → N) :
    Expression → m N
  | .chain head tail => do
    let first ← head.evaluate apply literal
    let (terms, operators) ← tail.fold apply literal [] first []
    match terms with
    | [] => pure first
    | term :: rest => sumTerms apply term (operators.zip rest)

/-- The value of an atom. -/
def Atom.evaluate (apply : Operator → N → N → m N) (literal : Nat → N) : Atom → m N
  | .group inner => inner.evaluate apply literal
  | .literal ds => pure (literal ds.value)

/-- The terms of a chain and the operators between them, behind those terms and operators that come
before; `last` is the last term so far, into which products and quotients are folded. -/
def Tail.fold (apply : Operator → N → N → m N) (literal : Nat → N) (terms : List N) (last : N)
    (operators : List Operator) : Tail → m (List N × List Operator)
  | .nil => pure (terms ++ [last], operators)
  | .cons o atom rest => do
    let v ← atom.evaluate apply literal
    match o with
    | .times | .divide => do
      let product ← apply o last v
      rest.fold apply literal terms product operators
    | .plus | .minus => rest.fold apply literal (terms ++ [last]) v (operators ++ [o])

end

end Passes

/-! ## Numbers -/

/-- A value of arithmetic. -/
inductive Number
  | int (i : Int)
  | float (x : Binary64)
  deriving DecidableEq, Repr, Inhabited

/-- Why an operation has no value. -/
inductive NumberFault
  | divisionByZero
  | floatDivisionByZero
  | quotientTooLarge
  | integerTooLarge
  deriving DecidableEq, Repr, Inhabited

/-- The wording of a fault. -/
def NumberFault.message : NumberFault → String
  | .divisionByZero => "division by zero"
  | .floatDivisionByZero => "float division by zero"
  | .quotientTooLarge => "integer division result too large for a float"
  | .integerTooLarge => "int too large to convert to float"

namespace Number

/-- The number as floating point, unless it is too large. -/
def toBinary64 : Number → Except NumberFault Binary64
  | .float x => .ok x
  | .int i =>
    match Binary64.ofInt i with
    | .finite s m e => .ok (.finite s m e)
    | _ => .error .integerTooLarge

/-- The quotient of integers, rounded once. -/
def divideInts (i j : Int) : Except NumberFault Number :=
  if j == 0 then .error .divisionByZero
  else
    match Binary64.roundQuotient (decide (i < 0) != decide (j < 0)) i.natAbs j.natAbs with
    | .finite s m e => .ok (.float (.finite s m e))
    | _ => .error .quotientTooLarge

/-- An operation on floating-point numbers. -/
def applyFloats : Operator → Binary64 → Binary64 → Except NumberFault Number
  | .plus, x, y => .ok (.float (x.add y))
  | .minus, x, y => .ok (.float (x.sub y))
  | .times, x, y => .ok (.float (x.mul y))
  | .divide, x, y => if y.isZero then .error .floatDivisionByZero else .ok (.float (x.div y))

/-- What an operator does to two numbers. -/
def apply : Operator → Number → Number → Except NumberFault Number
  | .plus, .int i, .int j => .ok (.int (i + j))
  | .minus, .int i, .int j => .ok (.int (i - j))
  | .times, .int i, .int j => .ok (.int (i * j))
  | .divide, .int i, .int j => divideInts i j
  | o, a, b => do
    let x ← a.toBinary64
    let y ← b.toBinary64
    applyFloats o x y

end Number

/-- The value of an expression in numbers. -/
def Expression.number (e : Expression) : Except NumberFault Number :=
  e.evaluate Number.apply fun n => .int n

/-- The value of an atom in numbers. -/
def Atom.number (a : Atom) : Except NumberFault Number :=
  a.evaluate Number.apply fun n => .int n

end ShapeGrammar.Arithmetic
