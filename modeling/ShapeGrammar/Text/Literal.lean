import ShapeGrammar.Text.CharacterData

/-!
# Text literals

The written form of a text inside messages and inside emitted code, and the reading of written
integers.

* A literal stands in single quotes, unless the text holds a single quote and no double quote.
* Inside it the backslash, the quote in use and the line characters are escaped by a letter, and
  every other character without a printed form by its code point in two, four or eight digits.
* A written integer has an optional sign, digits of any script, single underscores between digits,
  and blanks around it.

Headlines: `quoted`, `readInteger?`.
-/

namespace ShapeGrammar.Text

/-- The lower-case hexadecimal digits of `n`, padded with zeros to `width`. -/
def hex (width n : Nat) : String :=
  let digits := Nat.toDigits 16 n
  String.ofList (List.replicate (width - digits.length) '0' ++ digits)

/-- The escape of a character by its code point. -/
def escapeCode (c : Char) : String :=
  let n := c.toNat
  if n < 0x100 then "\\x" ++ hex 2 n
  else if n < 0x10000 then "\\u" ++ hex 4 n
  else "\\U" ++ hex 8 n

/-- One character inside a literal delimited by `quote`. -/
def literalChar (quote c : Char) : String :=
  if c == quote then String.ofList ['\\', c]
  else if c == '\\' then "\\\\"
  else if c == '\n' then "\\n"
  else if c == '\r' then "\\r"
  else if c == '\t' then "\\t"
  else if isPrintable c then String.singleton c
  else escapeCode c

/-- The delimiter of a literal: a single quote, unless that would have to be escaped and a double
quote would not. -/
def delimiter (text : List Char) : Char :=
  if text.contains '\'' && !text.contains '"' then '"' else '\''

/-- The literal that denotes `text`. -/
def quoted (text : String) : String :=
  let quote := delimiter text.toList
  String.singleton quote ++ String.join (text.toList.map (literalChar quote)) ++
    String.singleton quote

/-! ## Written integers -/

/-- Reads digits and single underscores between them; `seen` says that the last character was a
digit, so an underscore may follow and the text may end. -/
def readDigits? : List Char → (seen : Bool) → (value : Nat) → Option Nat
  | [], seen, value => if seen then some value else none
  | c :: rest, seen, value =>
    match decimalDigit? c with
    | some d => readDigits? rest true (value * 10 + d)
    | none => if c == '_' && seen then readDigits? rest false value else none

/-- The text without the blanks at both ends. -/
def trimBlanks (text : List Char) : List Char :=
  ((text.dropWhile isBlank).reverse.dropWhile isBlank).reverse

/-- The integer that `text` writes, if it writes one. -/
def readInteger? (text : String) : Option Int :=
  match trimBlanks text.toList with
  | '-' :: digits => (readDigits? digits false 0).map fun n => -(n : Int)
  | '+' :: digits => (readDigits? digits false 0).map Int.ofNat
  | digits => (readDigits? digits false 0).map Int.ofNat

end ShapeGrammar.Text
