import ShapeGrammar.Grammar.Basic

/-!
# Descriptions

A short text for every parser, for errors and reports, and the tree of a parser as far as it is
spelt out. A delayed parser describes itself as what it was found to be, or as unresolved; a
description that comes back to a delayed parser inside itself has no end, and to give it stops. A
chain of delayed parsers is no longer than their number, so that many steps decide it. What is no
parser has no description. To show a shape is to describe every parser in it, and fails where that
does.

Headlines: `Grammar.describe`, `Grammar.showShape`, `Grammar.tree`.
-/

namespace ShapeGrammar

mutual

/-- The description of a parser, given those of the delayed parsers. -/
def Parser.describeWith (g : Grammar) (box : BoxId → Except Stop String) :
    Parser → Except Stop String
  | .element v => .ok v.literal
  | .any => .ok "any element"
  | .satisfy _ description => .ok description
  | .seq [] => .ok "nothing"
  | .seq parts => " ".intercalate <$> describeParts g box parts
  | .opt body => ("optional " ++ ·) <$> body.describeWith g box
  | .many _ body => ("zero or more " ++ ·) <$> body.describeWith g box
  | .many1 _ body => ("one or more " ++ ·) <$> body.describeWith g box
  | .either left right => do
    let l ← left.describeWith g box
    let r ← right.describeWith g box
    .ok (l ++ " or " ++ r)
  | .not body => ("not " ++ ·) <$> body.describeWith g box
  | .box b => box b
  | .map _ body => body.describeWith g box
  | .derived c => .ok (g.className (.declared c))
  | .planned plan => .ok (g.className plan.target)
  | .generated plan _ => .ok (g.className plan.target)
  | .recorded _ _ => .ok "Recorder"
  | .misser _ => .ok "Misser"
  | .unimplemented => .ok "Unimplemented"
  | .inert => .error (.fault (.attribute .parser))

/-- The descriptions of all parts. -/
def describeParts (g : Grammar) (box : BoxId → Except Stop String) :
    List Parser → Except Stop (List String)
  | [] => .ok []
  | p :: ps => do
    let d ← p.describeWith g box
    let ds ← describeParts g box ps
    .ok (d :: ds)

end

/-- The tree of a parser, as far as it is spelt out. -/
inductive Tree
  | node (kind : String) (children : List Tree)
  | repetition (kind : String) (body : Tree) (checked : Bool)
  | element (expected : Value)
  | box (resolved : Bool)
  | leaf (kind description : String)
  deriving Inhabited

namespace Grammar

/-- The description of a delayed parser through at most `depth` others. -/
def describeBox (g : Grammar) : Nat → BoxId → Except Stop String
  | 0, _ => .error .outOfFuel
  | depth + 1, b =>
    match (g.boxInfo b).parser with
    | none => .ok "<unresolved>"
    | some p => p.describeWith g (describeBox g depth)

/-- The description of a parser. -/
def describe (g : Grammar) (p : Parser) : Except Stop String :=
  p.describeWith g (g.describeBox (g.boxes.size + 1))

end Grammar

mutual

/-- Shows a shape, given the descriptions of parsers. The text itself is part of no answer. -/
def Shape.showWith (describe : Parser → Except Stop String) : Shape → Except Stop Unit
  | .parser h => do
    let _ ← describe h.body
    .ok ()
  | .list a => a.showWith describe
  | .nonempty a => a.showWith describe
  | .not a => a.showWith describe
  | .box a => a.showWith describe
  | .either a b => do
    a.showWith describe
    b.showWith describe
  | .tuple as => showShapesWith describe as
  | .union as => showShapesWith describe as
  | .mapping a b => do
    a.showWith describe
    b.showWith describe
  | .annotated a notes => do
    a.showWith describe
    showShapesWith describe notes
  | .shared a => a.showWith describe
  | .parameterOnly a => a.showWith describe
  | _ => .ok ()

/-- Shows all shapes, in order. -/
def showShapesWith (describe : Parser → Except Stop String) : List Shape → Except Stop Unit
  | [] => .ok ()
  | a :: as => do
    a.showWith describe
    showShapesWith describe as

end

/-- Shows a shape. -/
def Grammar.showShape (g : Grammar) (a : Shape) : Except Stop Unit :=
  a.showWith g.describe

mutual

/-- The tree of a parser; leaves are shown by their description. -/
def Parser.treeWith (g : Grammar) (describe : Parser → Except Stop String) :
    Parser → Except Stop Tree
  | .element v => .ok (.element v)
  | .seq parts => .node "Seq" <$> treesWith g describe parts
  | .many checked body => (.repetition "ZeroOrMore" · checked) <$> body.treeWith g describe
  | .many1 checked body => (.repetition "OneOrMore" · checked) <$> body.treeWith g describe
  | .either left right => do
    let l ← left.treeWith g describe
    let r ← right.treeWith g describe
    .ok (.node "Either" [l, r])
  | .opt body => (fun t => .node "Opt" [t]) <$> body.treeWith g describe
  | .not body => (fun t => .node "Not" [t]) <$> body.treeWith g describe
  | .map _ body => (fun t => .node "Map" [t]) <$> body.treeWith g describe
  | .box b => .ok (.box (g.boxInfo b).parser.isSome)
  | p => .leaf p.kindName <$> describe p

/-- The trees of all parts. -/
def treesWith (g : Grammar) (describe : Parser → Except Stop String) :
    List Parser → Except Stop (List Tree)
  | [] => .ok []
  | p :: ps => do
    let t ← p.treeWith g describe
    let ts ← treesWith g describe ps
    .ok (t :: ts)

end

namespace Grammar

/-- The tree of a parser. -/
def tree (g : Grammar) (p : Parser) : Except Stop Tree :=
  p.treeWith g g.describe

end Grammar

end ShapeGrammar
