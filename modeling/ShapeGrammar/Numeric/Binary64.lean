/-!
# Binary floating point with 64 bits

Numbers `m · 2 ^ e` with a sign, infinities, and the result of operations without one. Every
operation is carried out exactly on integers and rounded once, to the nearest number that the format
has; a tie goes to the even neighbour, and what is too large becomes infinite.

Headlines: `Binary64`, `Binary64.roundQuotient`, `Binary64.toBits`.
-/

namespace ShapeGrammar.Numeric

/-- A number of the format. A finite one is `mantissa · 2 ^ exponent` with the given sign, where the
mantissa has at most 53 bits. -/
inductive Binary64
  | finite (negative : Bool) (mantissa : Nat) (exponent : Int)
  | infinite (negative : Bool)
  /-- The result of an operation that has none. -/
  | undefined
  deriving DecidableEq, Repr, Inhabited

/-- The nearest integer to `n / d`, and of two equally near ones the even one. -/
def roundHalfEven (n d : Nat) : Nat :=
  let q := n / d
  let r := n % d
  if 2 * r < d then q else if 2 * r > d then q + 1 else if q % 2 == 0 then q else q + 1

namespace Binary64

/-- The leading bit of a mantissa of full length, which the interchange format leaves out. -/
def hiddenBit : Nat :=
  1 <<< 52

/-- The least exponent of the format. -/
def minExponent : Int := -1074

/-- Zero with a sign. -/
def zero (negative : Bool) : Binary64 :=
  .finite negative 0 minExponent

/-- The quotient `n / (d · 2 ^ e)` as a fraction of natural numbers. -/
def scaled (n d : Nat) (e : Int) : Nat × Nat :=
  if e < 0 then (n <<< (-e).toNat, d) else (n, d <<< e.toNat)

/-- The exponent at which the quotient `n / d` has 53 bits before the point, or the least one. -/
def exponentOf (n d : Nat) : Int :=
  let e := (Nat.log2 n : Int) - Nat.log2 d - 53
  let s := scaled n d e
  max minExponent (if s.1 / s.2 < 2 * hiddenBit then e else e + 1)

/-- Whether a finite number lies beyond the format. -/
def tooLarge (mantissa : Nat) (exponent : Int) : Bool :=
  mantissa != 0 && (Nat.log2 mantissa : Int) + exponent ≥ 1024

/-- The number of the format nearest to `n / d`, with a sign. -/
def roundQuotient (negative : Bool) (n d : Nat) : Binary64 :=
  if n == 0 then zero negative
  else
    let e := exponentOf n d
    let s := scaled n d e
    let m := roundHalfEven s.1 s.2
    if tooLarge m e then .infinite negative else .finite negative m e

/-- The number of the format nearest to `n · 2 ^ e`, with a sign. -/
def roundScaled (negative : Bool) (n : Nat) (e : Int) : Binary64 :=
  if e < 0 then roundQuotient negative n (1 <<< (-e).toNat)
  else roundQuotient negative (n <<< e.toNat) 1

/-- The number of the format nearest to an integer. -/
def ofInt (i : Int) : Binary64 :=
  roundQuotient (decide (i < 0)) i.natAbs 1

/-- The integer `m · 2 ^ k` with a sign. -/
def signedAt (negative : Bool) (m : Nat) (k : Int) : Int :=
  let n : Int := Int.ofNat (m <<< k.toNat)
  if negative then -n else n

/-- The negative of a number. -/
def neg : Binary64 → Binary64
  | .finite s m e => .finite (!s) m e
  | .infinite s => .infinite (!s)
  | .undefined => .undefined

/-- The rounded sum. A sum of zero is negative only if both parts are. -/
def add : Binary64 → Binary64 → Binary64
  | .finite s m e, .finite t n f =>
    let k := min e f
    let sum := signedAt s m (e - k) + signedAt t n (f - k)
    if sum == 0 then zero (s && t && m == 0 && n == 0)
    else roundScaled (decide (sum < 0)) sum.natAbs k
  | .infinite s, .infinite t => if s == t then .infinite s else .undefined
  | .infinite s, .finite .. => .infinite s
  | .finite .., .infinite t => .infinite t
  | _, _ => .undefined

/-- The rounded difference. -/
def sub (a b : Binary64) : Binary64 :=
  add a b.neg

/-- The rounded product. -/
def mul : Binary64 → Binary64 → Binary64
  | .finite s m e, .finite t n f => roundScaled (s != t) (m * n) (e + f)
  | .infinite s, .infinite t => .infinite (s != t)
  | .infinite s, .finite t n _ => if n == 0 then .undefined else .infinite (s != t)
  | .finite s m _, .infinite t => if m == 0 then .undefined else .infinite (s != t)
  | _, _ => .undefined

/-- Whether a number is zero of either sign. -/
def isZero : Binary64 → Bool
  | .finite _ m _ => m == 0
  | _ => false

/-- The rounded quotient of numbers, the second of which is not zero. -/
def div : Binary64 → Binary64 → Binary64
  | .finite s m e, .finite t n f =>
    let k := e - f
    if k < 0 then roundQuotient (s != t) m (n <<< (-k).toNat)
    else roundQuotient (s != t) (m <<< k.toNat) n
  | .infinite s, .finite t _ _ => .infinite (s != t)
  | .finite s _ _, .infinite t => zero (s != t)
  | _, _ => .undefined

/-- The bit of the sign in the interchange format. -/
def signBit (negative : Bool) : Nat :=
  if negative then 1 <<< 63 else 0

/-- The interchange format: sign, eleven bits of exponent, fifty-two of mantissa. -/
def toBits : Binary64 → Nat
  | .finite s m e =>
    if m < hiddenBit then signBit s + m
    else if m == 2 * hiddenBit then signBit s + ((e + 1076).toNat <<< 52)
    else signBit s + ((e + 1075).toNat <<< 52) + (m - hiddenBit)
  | .infinite s => signBit s + (0x7FF <<< 52)
  | .undefined => 0xFFF8 <<< 48

end Binary64

end ShapeGrammar.Numeric
