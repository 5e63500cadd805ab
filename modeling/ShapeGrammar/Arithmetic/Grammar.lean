import ShapeGrammar.Grammar.Declare

/-!
# The grammar of arithmetic

Operator tokens, digits, numbers and expressions, declared as classes from whose shapes the parsers
are derived. An expression is an atom followed by any number of operators with an atom each; an atom
is an expression in parentheses or a number.

Headlines: `declarations`, `grammar`.
-/

namespace ShapeGrammar.Arithmetic

/-- A field of an instance. -/
def field (name : String) (a : ShapeExpr) : FieldDecl :=
  ⟨name, a, .field, none⟩

/-- A name of the module. -/
def reference (name : String) : ShapeExpr :=
  .ref ⟨name, []⟩

/-- The class of a character. -/
def character (c : Char) : ShapeExpr :=
  .character (.text (String.singleton c))

/-- A class with fields. -/
def product (name : String) (fields : List FieldDecl) : ClassDecl :=
  .mk name false fields none none false []

/-- A class whose variants are declared in it. -/
def choice (name : String) (variants : List ClassDecl) : ClassDecl :=
  .mk name false [] none none true (variants.map .nested)

/-- A variant that is one character. -/
def token (name : String) (c : Char) : ClassDecl :=
  product name [field "char" (character c)]

/-- The four operators. -/
def mathToken : ClassDecl :=
  choice "MathToken"
    [token "Plus" '+', token "Sub" '-', token "Times" '*', token "Divide" '/']

/-- The ten digits. -/
def digit : ClassDecl :=
  choice "Digit"
    [token "D0" '0', token "D1" '1', token "D2" '2', token "D3" '3', token "D4" '4',
      token "D5" '5', token "D6" '6', token "D7" '7', token "D8" '8', token "D9" '9']

/-- One digit or more. -/
def number : ClassDecl :=
  product "Number" [field "digits" (.nonempty (reference "Digit"))]

/-- An expression in parentheses, or a number. -/
def atom : ClassDecl :=
  choice "Atom"
    [product "Group"
      [field "open" (character '('), field "inner" (.box (reference "Expression")),
        field "close" (character ')')],
      product "Literal" [field "number" (reference "Number")]]

/-- An atom and a chain of operators with an atom each. -/
def expression : ClassDecl :=
  product "Expression"
    [field "head" (reference "Atom"),
      field "tail" (.list (.tuple [reference "MathToken", reference "Atom"]))]

/-- The classes in the order of their declaration. -/
def declarations : List Declaration :=
  [mathToken, digit, number, atom, expression].map (.cls · true)

/-- Makes declarations one after the other. -/
def declareAll (r : Resolver) : Nat → List Declaration → Resolution Unit
  | _, [] => pure ()
  | n, d :: ds => do
    declare r n d
    declareAll r (n + 1) ds

/-- The grammar in which the classes are declared and nothing is found out yet. -/
def grammar : Grammar :=
  match declareAll .exhausted 1 declarations (.empty none) with
  | .ok _ g => g
  | .error _ g => g

end ShapeGrammar.Arithmetic
