import ShapeGrammar.Arithmetic.Grammar
import ShapeGrammar.Proofs.Arithmetic.Language
import ShapeGrammar.Proofs.Grammar.Construct

/-!
# Instances of arithmetic

Which instance a tree is: the classes of the grammar by number, each with its fields. Reading the
tree off its instance gives it back.

Headlines: `Expression.toValue`, `Expression.ofValue?_toValue`.
-/

namespace ShapeGrammar.Arithmetic

/-! ## Classes -/

def operatorsClass : ClassId := 4
def digitsClass : ClassId := 15
def numberClass : ClassId := 16
def groupClass : ClassId := 17
def literalClass : ClassId := 18
def atomClass : ClassId := 19
def expressionClass : ClassId := 20

/-- The class of an operator. -/
def Operator.cls : Operator → ClassId
  | .plus => 0
  | .minus => 1
  | .times => 2
  | .divide => 3

/-- The class of a digit. -/
def digitClass (d : Fin 10) : ClassId := 5 + d.val

theorem className_digitClass :
    ∀ d, grammar.className (.declared (digitClass d)) = "Digit.D" ++ toString d.val := by
  decide +kernel

theorem className_classes :
    [Operator.plus.cls, Operator.minus.cls, Operator.times.cls, Operator.divide.cls,
        operatorsClass, digitsClass, numberClass, groupClass, literalClass, atomClass,
        expressionClass].map (fun c => grammar.className (.declared c)) =
      ["MathToken.Plus", "MathToken.Sub", "MathToken.Times", "MathToken.Divide", "MathToken",
        "Digit", "Number", "Atom.Group", "Atom.Literal", "Atom", "Expression"] := by
  decide +kernel

/-! ## Trees as instances -/

/-- An instance of a class with these fields. -/
def built (c : ClassId) (names : List String) (values : List Value) : Value :=
  .record (grammar.exactType c names) values

/-- The instance of a digit. -/
def digitValue (d : Fin 10) : Value :=
  built (digitClass d) ["char"] [.char (digitChar d)]

/-- The instance of an operator. -/
def Operator.toValue (o : Operator) : Value :=
  built o.cls ["char"] [.char o.char]

/-- The instance of a number. -/
def Digits.toValue (ds : Digits) : Value :=
  built numberClass ["digits"] [.nonempty (digitValue ds.first) (ds.rest.map digitValue)]

mutual

/-- The instance of an expression. -/
def Expression.toValue : Expression → Value
  | .chain head tail =>
    built expressionClass ["head", "tail"] [head.toValue, .list tail.toValues]

/-- The instance of an atom. -/
def Atom.toValue : Atom → Value
  | .group inner =>
    built groupClass ["open", "inner", "close"] [.char '(', inner.toValue, .char ')']
  | .literal ds => built literalClass ["number"] [ds.toValue]

/-- The pairs of a chain. -/
def Tail.toValues : Tail → List Value
  | .nil => []
  | .cons o a rest => .tuple [o.toValue, a.toValue] :: rest.toValues

end

/-! ## And back -/

theorem digitOf?_digitValue (d : Fin 10) : digitOf? (digitValue d) = some d := by
  have hcode : ∀ d, (digitChar d).toNat = 0x30 + d.val := by decide
  simp [digitValue, built, digitOf?, hcode]

theorem digitsOf?_digitValue (ds : List (Fin 10)) : digitsOf? (ds.map digitValue) = some ds := by
  induction ds with
  | nil => rfl
  | cons d ds ih => simp [digitsOf?, digitOf?_digitValue, ih]

theorem operatorOf?_toValue (o : Operator) : operatorOf? o.toValue = some o := by
  cases o <;> rfl

theorem Digits.ofValue?_toValue (ds : Digits) : Digits.ofValue? ds.toValue = some ds := by
  simp [Digits.toValue, built, Digits.ofValue?, digitOf?_digitValue, digitsOf?_digitValue]

mutual

/-- **A tree can be read off its instance.** -/
theorem Expression.ofValue?_toValue : ∀ e : Expression, Expression.ofValue? e.toValue = some e
  | .chain head tail => by
    simp [Expression.toValue, built, Expression.ofValue?, head.ofValue?_toValue,
      tail.ofValues?_toValues]

theorem Atom.ofValue?_toValue : ∀ a : Atom, Atom.ofValue? a.toValue = some a
  | .group inner => by
    simp [Atom.toValue, built, Atom.ofValue?, inner.ofValue?_toValue]
  | .literal ds => by
    simp [Atom.toValue, built, Atom.ofValue?, ds.ofValue?_toValue]

theorem Tail.ofValues?_toValues : ∀ t : Tail, Tail.ofValues? t.toValues = some t
  | .nil => rfl
  | .cons o a rest => by
    simp [Tail.toValues, Tail.ofValues?, operatorOf?_toValue, a.ofValue?_toValue,
      rest.ofValues?_toValues]

end

end ShapeGrammar.Arithmetic
