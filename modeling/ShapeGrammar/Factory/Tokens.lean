import ShapeGrammar.Text.Literal

/-!
# Words and signs of a line

How a line of a text falls into tokens: words, numbers, text literals and single signs. Blanks part
them, and what follows a number sign outside of a literal is a comment. The escapes of a literal
are those that `Text.quoted` writes.

Headlines: `Token`, `Lexing.step`, `lex`, `linesOf`.
-/

namespace ShapeGrammar

/-- The words that have a meaning of their own. -/
inductive Keyword
  | define
  | ifTrue
  | is
  | none
  | not
  | return
  deriving DecidableEq, Repr, Inhabited

/-- A part of a line. -/
inductive Token
  | keyword (word : Keyword)
  | name (text : String)
  | number (value : Nat)
  | literal (text : String)
  | sign (char : Char)
  deriving DecidableEq, Repr, Inhabited

/-- How the keywords are written. -/
def keywords : List (String × Keyword) :=
  [("def", .define), ("if", .ifTrue), ("is", .is), ("None", .none), ("not", .not),
    ("return", .return)]

/-- Whether a character can stand in a word. -/
def isWordChar (c : Char) : Bool :=
  c.isAlphanum || c == '_'

/-- The token of a word. -/
def Token.ofWord (word : List Char) : Token :=
  if word.all (·.isDigit) then .number (Nat.ofDigitChars 10 word 0)
  else
    match keywords.lookup (String.ofList word) with
    | some k => .keyword k
    | _ => .name (String.ofList word)

/-- The value of a hexadecimal digit. -/
def hexDigit? (c : Char) : Option Nat :=
  if c.isDigit then some (c.toNat - '0'.toNat)
  else if 'a' ≤ c && c ≤ 'f' then some (c.toNat - 'a'.toNat + 10)
  else if 'A' ≤ c && c ≤ 'F' then some (c.toNat - 'A'.toNat + 10)
  else none

/-- How far the reading of a line has come. The characters of what was begun are in reverse. -/
inductive Lexing
  | between
  | word (front : List Char)
  | literal (quote : Char) (front : List Char)
  /-- Behind a backslash. -/
  | escape (quote : Char) (front : List Char)
  /-- In a code point, of which so many digits are left. -/
  | code (quote : Char) (front : List Char) (left value : Nat)
  | comment

namespace Lexing

/-- What a character begins that follows a complete token. -/
def start (c : Char) : List Token × Lexing :=
  if isWordChar c then ([], .word [c])
  else if c == '\'' || c == '"' then ([], .literal c [])
  else if c == '#' then ([], .comment)
  else if c == ' ' || c == '\t' then ([], .between)
  else ([.sign c], .between)

/-- What a backslash and a character stand for in a literal. -/
def escaped (quote : Char) (front : List Char) : Char → Lexing
  | 'n' => .literal quote ('\n' :: front)
  | 'r' => .literal quote ('\r' :: front)
  | 't' => .literal quote ('\t' :: front)
  | 'x' => .code quote front 2 0
  | 'u' => .code quote front 4 0
  | 'U' => .code quote front 8 0
  | c => .literal quote (c :: front)

/-- The tokens that a character completes, and where it leads. -/
def step : Lexing → Char → List Token × Lexing
  | .between, c => start c
  | .word front, c =>
    if isWordChar c then ([], .word (c :: front))
    else (.ofWord front.reverse :: (start c).1, (start c).2)
  | .literal quote front, c =>
    if c == quote then ([.literal (String.ofList front.reverse)], .between)
    else if c == '\\' then ([], .escape quote front)
    else ([], .literal quote (c :: front))
  | .escape quote front, c => ([], escaped quote front c)
  | .code quote front left value, c =>
    match hexDigit? c with
    | some d =>
      if left ≤ 1 then ([], .literal quote (Char.ofNat (value * 16 + d) :: front))
      else ([], .code quote front (left - 1) (value * 16 + d))
    | none => ([.sign '\\'], .literal quote (c :: front))
  | .comment, _ => ([], .comment)

/-- The token that the end of a line completes. A literal without an end is none. -/
def finish : Lexing → List Token
  | .between => []
  | .word front => [.ofWord front.reverse]
  | .comment => []
  | _ => [.sign '\\']

end Lexing

/-- The tokens of the rest of a line. -/
def lex : Lexing → List Char → List Token
  | s, [] => s.finish
  | s, c :: cs => (s.step c).1 ++ lex (s.step c).2 cs

/-- A line that is not empty. -/
structure Line where
  /-- How many spaces it begins with. -/
  indent : Nat
  tokens : List Token
  deriving DecidableEq, Repr, Inhabited

/-- The indentation and the tokens of a line. -/
def Line.ofChars (line : List Char) : Line :=
  ⟨(line.takeWhile (· == ' ')).length, lex .between line⟩

/-- Whether a character ends a line. -/
def isLineEnd (c : Char) : Bool :=
  c == '\n' || c == '\r'

/-- The lines of a text that hold something. -/
def linesOf (text : String) : List Line :=
  ((text.toList.splitOnP isLineEnd).map Line.ofChars).filter (!·.tokens.isEmpty)

end ShapeGrammar
