import ShapeGrammar.Factory.Emit
import ShapeGrammar.Factory.Read

/-!
# Files of factories

A file holds text that somebody wrote by hand, or the factories of several shapes together with
the fingerprints of the plans they were written from. Files of the second kind open with a header,
by which they are told from the first: only a file with the header is ever overwritten. What a file
lists is read from its text, whoever wrote it.

Headlines: `FactoryFile`, `FactoryFile.text`, `isGenerated`, `factoriesIn`.
-/

namespace ShapeGrammar

/-- The factory of one shape in a file. -/
structure FactoryEntry where
  /-- The qualified name of the shape. -/
  shape : String
  factory : Factory
  fingerprint : String
  deriving DecidableEq, Repr, Inhabited

/-- The factories of a file, in the order in which they were asked for. -/
structure FactoryFile where
  entries : List FactoryEntry
  deriving DecidableEq, Repr, Inhabited

/-- The first line of every file of factories. -/
def fileHeader : String :=
  "# Parser factories derived by shapeparse. Regenerate this file instead of editing it."

namespace FactoryFile

/-- The line that lists one factory under the name of its shape. -/
def listingLine (e : FactoryEntry) : String :=
  "    " ++ Text.quoted e.shape ++ ": (" ++ e.factory.name ++ ", " ++
    Text.quoted e.fingerprint ++ "),"

/-- The lines of a file of factories. -/
def lines (f : FactoryFile) : List String :=
  [fileHeader, "from shapeparse.combinators import ParseError"] ++
  (f.entries.flatMap fun e => "" :: "" :: e.factory.lines) ++
  ["", "", "FACTORIES = \x7b"] ++ f.entries.map listingLine ++ ["\x7d"]

/-- The text of a file of factories. -/
def text (f : FactoryFile) : String :=
  "\n".intercalate f.lines ++ "\n"

end FactoryFile

/-- The characters of a text before its first line end. -/
def firstLine (text : String) : String :=
  String.ofList (text.toList.takeWhile fun c => !isLineEnd c)

/-- Whether a text opens with the header of a file of factories. -/
def isGenerated (text : String) : Bool :=
  firstLine text == fileHeader

/-- The characters of a text after the mark that may say how it is stored. -/
def unmarked (text : String) : String :=
  match text.toList with
  | '\uFEFF' :: cs => String.ofList cs
  | _ => text

/-- The factories that the text of a file lists, if it lists any. -/
def factoriesIn (text : String) : Except Fault (Option (List Listed)) := do
  let library ← Library.ofText false (unmarked text)
  match library.listing with
  | .closed entries => .ok (some entries)
  | .opened _ => .error unreadable
  | .absent => .ok none

/-- What is listed under a name; of several, the last. -/
def listedUnder (listed : List Listed) (shape : String) : Option Listed :=
  listed.reverse.find? (·.shape == shape)

end ShapeGrammar
