import ShapeGrammar.Proofs.Planning

/-!
# The walk of resolution

To find out a plan or an error kind, resolution walks through what it is about. In a sequence it
goes into the first part, and into a later one where those before have no error kind; of a choice it
goes into the right arm, of a sum without a unit into the last variant; it goes into the body of a
repetition that matches at least once, of a changed parser, and of a delayed one. A class is left
for its schema. On the way it builds what it needs: the parsers of all fields, what a delayed parser
comes to, and the value of an alias.

An `Inquiry` is something that is looked into, and `Inquiry.Leads` says what is looked into next and
in which state of the grammar. A walk comes upon something if it is led there. It comes back if it
is led to a class or delayed parser that is being found out already, and it repeats itself if it is
led to an alias whose value it is about to evaluate. What is looked into may be refused with a fault
that shows a shape; to describe a shape may itself have no end.

Headlines: `Inquiry`, `Inquiry.Leads`, `ComesUpon`, `Inquiry.ComesBack`, `Inquiry.Repeats`.
-/

namespace ShapeGrammar

open Resolution

/-- Something that resolution looks into. -/
inductive Inquiry
  /-- The error kind of a parser. -/
  | kind (p : Parser)
  /-- The error kind of a sequence. -/
  | kinds (ps : List Parser)
  /-- The plan of a class. -/
  | plan (c : ClassId)
  /-- The plan of a schema. -/
  | schema (s : Schema)
  /-- The plan of a derived shape. -/
  | derived (a : Shape)
  /-- What a delayed parser comes to. -/
  | opening (b : BoxId)
  /-- The parser of a shape, met while the given aliases are expanded. -/
  | shape (expanding : List AliasId) (a : Shape)
  /-- The parser of an alias, met while the given aliases are expanded. -/
  | expansion (expanding : List AliasId) (a : AliasId)
  /-- The value of an alias. -/
  | value (a : AliasId)
  /-- What a written shape means. -/
  | writtenShape (e : ShapeExpr)
  /-- What a written parser means. -/
  | writtenParser (e : ParserExpr)

namespace Inquiry

/-- What is found out, without the answer. -/
def run (r : Resolver) : Inquiry → Resolution Unit
  | .kind p => (fun _ => ()) <$> errorKindOf r p
  | .kinds ps => (fun _ => ()) <$> sequenceErrorKind r ps
  | .plan c => (fun _ => ()) <$> r.planOf c
  | .schema s => (fun _ => ()) <$> planSchema r s
  | .derived a => (fun _ => ()) <$> derivedPlan r a
  | .opening b => (fun _ => ()) <$> openBox r b
  | .shape expanding a => (fun _ => ()) <$> resolveShape r expanding a
  | .expansion expanding a => (fun _ => ()) <$> r.aliasParser expanding a
  | .value a => (fun _ => ()) <$> aliasValue r a
  | .writtenShape e => (fun _ => ()) <$> evaluateShape r false e
  | .writtenParser e => (fun _ => ()) <$> buildParser r e

/-- Several things found out one after the other. -/
def runAll (r : Resolver) : List Inquiry → Resolution Unit
  | [] => pure ()
  | x :: xs => do
    x.run r
    runAll r xs

/-- The shapes of some fields. -/
def shapesOf (fs : List SchemaField) : List Inquiry :=
  fs.map fun f => .shape [] f.shape

/-- The parsers among some notes. -/
def noted : List NoteExpr → List Inquiry
  | [] => []
  | .text _ :: ns => noted ns
  | .parser p :: ns => .writtenParser p :: noted ns

/-- What is looked into first, in this order, whatever the answers are. -/
def parts : Inquiry → List Inquiry
  | .kind (.seq ps) => [.kinds ps]
  | .kind (.many1 _ body) => [.kind body]
  | .kind (.either _ right) => [.kind right]
  | .kind (.map _ body) => [.kind body]
  | .kind (.recorded _ body) => [.kind body]
  | .kind (.derived c) => [.plan c]
  | .kinds (p :: _) => [.kind p]
  | .schema (.product _ fields) => shapesOf fields
  | .derived a => [.shape [] a]
  | .shape expanding (.alias a) => [.expansion expanding a]
  | .shape expanding (.annotated body notes) =>
    match Shape.notedParser? notes with
    | some _ => []
    | none => [.shape expanding body]
  | .shape expanding (.tuple items) =>
    if openEnded items then [] else items.map (.shape expanding)
  | .shape expanding (.list item) => [.shape expanding item]
  | .shape expanding (.nonempty item) => [.shape expanding item]
  | .shape expanding (.union [a, b]) =>
    if a.isNothing then [.shape expanding b]
    else if b.isNothing then [.shape expanding a]
    else []
  | .shape expanding (.either left right) => [.shape expanding left, .shape expanding right]
  | .shape expanding (.not body) => [.shape expanding body]
  | .writtenShape (.list a) => [.writtenShape a]
  | .writtenShape (.nonempty a) => [.writtenShape a]
  | .writtenShape (.not a) => [.writtenShape a]
  | .writtenShape (.box a) => [.writtenShape a]
  | .writtenShape (.either a b) => [.writtenShape a, .writtenShape b]
  | .writtenShape (.tuple as) => as.map .writtenShape
  | .writtenShape (.union as) => as.map .writtenShape
  | .writtenShape (.mapping a b) => [.writtenShape a, .writtenShape b]
  | .writtenShape (.annotated a notes) => .writtenShape a :: noted notes
  | .writtenShape (.parser p) => [.writtenParser p]
  | .writtenParser (.seq ps) => ps.map .writtenParser
  | .writtenParser (.opt body) => [.writtenParser body]
  | .writtenParser (.many _ body) => [.writtenParser body]
  | .writtenParser (.many1 _ body) => [.writtenParser body]
  | .writtenParser (.either left right) => [.writtenParser left, .writtenParser right]
  | .writtenParser (.choice first second) => [.writtenParser first, .writtenParser second]
  | .writtenParser (.not body) => [.writtenParser body]
  | .writtenParser (.box body) => [.writtenParser body]
  | .writtenParser (.map _ body) => [.writtenParser body]
  | .writtenParser (.sum first second) => [.writtenParser first, .writtenParser second]
  | .writtenParser (.shape a) => [.writtenShape a]
  | .writtenParser (.compiled a) => [.writtenShape a]
  | .writtenParser (.generated a) => [.writtenShape a]
  | .writtenParser (.generatedSchema a) => [.writtenShape a]
  | .writtenParser (.loaded _ a) => [.writtenShape a]
  | .writtenParser (.recorded _ body) => [.writtenParser body]
  | _ => []

/-- What one inquiry leads to: other inquiries, to be made in their order from a state of the
grammar. The numbers say how many questions may be followed one inside the other. -/
inductive Leads : Nat → Inquiry → Grammar → Nat → List Inquiry → Grammar → Prop
  | parts {n x g} : Leads n x g n x.parts g
  /-- A part without an error kind leads on to the next one. -/
  | later {n p ps g g'} : errorKindOf (resolver n) p g = .ok none g' →
      Leads n (.kinds (p :: ps)) g n [.kinds ps] g'
  /-- A product has the error kind of the sequence of its fields. -/
  | product {n target fields ps g g'} : fieldParsers (resolver n) target fields g = .ok ps g' →
      Leads n (.schema (.product target fields)) g n [.kinds ps] g'
  | variants {n target vs g g'} :
      reportHidden target (reachable vs).1 (reachable vs).2 g = .ok () g' →
      Leads n (.schema (.sum target vs)) g n (shapesOf ((reachable vs).1.flatMap (·.fields))) g'
  /-- A sum without a unit has the error kind of its last variant. -/
  | last {n target vs as a g g1 g'} :
      reportHidden target (reachable vs).1 (reachable vs).2 g = .ok () g1 →
      planVariants (resolver n) (reachable vs).1 g1 = .ok as g' → vs.any (·.isUnit) = false →
      as.getLast? = some a → Leads n (.schema (.sum target vs)) g n [.kinds a.parsers] g'
  | planned {n a h c g g'} : parserFor (resolver n) a g = .ok h g' → h.body = .derived c →
      Leads n (.derived a) g n [.plan c] g'
  | shaped {n e a g g'} : evaluateShape (resolver n) false e g = .ok a g' →
      Leads n (.writtenParser (.shape e)) g n [.shape [] a] g'
  | compiled {n e a s g g'} : evaluateShape (resolver n) false e g = .ok a g' →
      schemaFor a g' = .ok s g' → Leads n (.writtenParser (.compiled e)) g n [.schema s] g'
  | generatedSchema {n e a s g g'} : evaluateShape (resolver n) false e g = .ok a g' →
      schemaFor a g' = .ok s g' → Leads n (.writtenParser (.generatedSchema e)) g n [.schema s] g'
  | generated {n e a g g'} : evaluateShape (resolver n) false e g = .ok a g' →
      Leads n (.writtenParser (.generated e)) g n [.derived a] g'
  | loaded {n file e a listed g g'} : evaluateShape (resolver n) false e g = .ok a g' →
      factoriesOf g' file = .ok listed →
      Leads n (.writtenParser (.loaded file e)) g n [.derived a] g'
  /-- A class is planned while it counts as being found out. -/
  | cls {n c s g} : (g.classInfo c).plan = none → c < g.classes.size → .cls c ∉ g.pending →
      g.schemaOf (.declared c) = .ok s →
      Leads (n + 1) (.plan c) g n [.schema s] { g with pending := .cls c :: g.pending }
  /-- A delayed parser is opened while it counts as being found out. -/
  | opened {n b g} : (g.boxInfo b).errorKind = none → .box b ∉ g.pending →
      Leads (n + 1) (.kind (.box b)) g n [.opening b] { g with pending := .box b :: g.pending }
  /-- A delayed parser has the error kind of what it comes to. -/
  | box {n b p g g'} : (g.boxInfo b).errorKind = none → .box b ∉ g.pending →
      openBox (resolver n) b { g with pending := .box b :: g.pending } = .ok p g' →
      Leads (n + 1) (.kind (.box b)) g n [.kind p] g'
  | delayedShape {n b a g} : (g.boxInfo b).parser = none → b < g.boxes.size →
      (g.boxInfo b).body = .shape a → Leads n (.opening b) g n [.shape [] a] g
  | delayedParser {n b e g} : (g.boxInfo b).parser = none → b < g.boxes.size →
      (g.boxInfo b).body = .expression e → Leads n (.opening b) g n [.writtenParser e] g
  | value {n expanding a g} : (g.aliasInfo a).parser = none → a ∉ expanding →
      Leads (n + 1) (.expansion expanding a) g n [.value a] g
  | expanded {n expanding a v g g'} : (g.aliasInfo a).parser = none → a ∉ expanding →
      aliasValue (resolver n) a g = .ok v g' →
      Leads (n + 1) (.expansion expanding a) g n [.shape (expanding ++ [a]) v] g'
  | written {n a g} : (g.aliasInfo a).value = none →
      Leads n (.value a) g n [.writtenShape (g.aliasInfo a).expression] g

end Inquiry

/-- Where things are looked into one after the other, a walk comes upon one that the goal is about:
one of them is such, or leads to such a one, and those before it are found out. -/
inductive ComesUpon (goal : Nat → Inquiry → Grammar → Prop) : Nat → List Inquiry → Grammar → Prop
  | here {n x xs g} : goal n x g → ComesUpon goal n (x :: xs) g
  | past {n x xs g g'} : x.run (resolver n) g = .ok () g' → ComesUpon goal n xs g' →
      ComesUpon goal n (x :: xs) g
  | into {n x xs g m ys g'} : x.Leads n g m ys g' → ComesUpon goal m ys g' →
      ComesUpon goal n (x :: xs) g

/-- What comes after does not matter. -/
theorem ComesUpon.append {goal : Nat → Inquiry → Grammar → Prop} {n : Nat} {xs ys : List Inquiry}
    {g : Grammar} (h : ComesUpon goal n xs g) : ComesUpon goal n (xs ++ ys) g := by
  induction h with
  | here hx => exact .here hx
  | past hx _ ih => exact .past hx ih
  | into hstep hc _ => exact .into hstep hc

namespace Inquiry

/-- A class or a delayed parser is asked for that is being found out already. -/
def Marked : Nat → Inquiry → Grammar → Prop
  | _ + 1, .plan c, g => (g.classInfo c).plan = none ∧ c < g.classes.size ∧ .cls c ∈ g.pending
  | _ + 1, .kind (.box b), g => (g.boxInfo b).errorKind = none ∧ .box b ∈ g.pending
  | _, _, _ => False

/-- The walk comes back to a class or a delayed parser whose answer is being found out. -/
def ComesBack (n : Nat) (x : Inquiry) (g : Grammar) : Prop :=
  ComesUpon Marked n [x] g

/-- The value of the alias has to be evaluated. -/
def Evaluates (a : AliasId) (_ : Nat) (x : Inquiry) (g : Grammar) : Prop :=
  x = .value a ∧ (g.aliasInfo a).value = none

/-- To evaluate an alias leads to evaluating it. -/
def Circular (n : Nat) (x : Inquiry) (g : Grammar) : Prop :=
  ∃ a, Evaluates a n x g ∧
    ComesUpon (Evaluates a) n [.writtenShape (g.aliasInfo a).expression] g

/-- The walk comes upon an alias whose value is needed for the value itself. -/
def Repeats (n : Nat) (x : Inquiry) (g : Grammar) : Prop :=
  ComesUpon Circular n [x] g

/-- What is looked into is refused, and the refusal shows a shape in a state of the grammar. -/
inductive Refuses (n : Nat) : Inquiry → Grammar → Shape → Grammar → Prop
  | shape {expanding a f g} : resolveShape (resolver n) expanding a g = failShowing a f g →
      Refuses n (.shape expanding a) g a g
  | derived {a h f g g'} : parserFor (resolver n) a g = .ok h g' →
      derivedPlan (resolver n) a g = failShowing a f g' → Refuses n (.derived a) g a g'

/-- The refusal shows something that has no end. -/
def Unworded (n : Nat) (x : Inquiry) (g : Grammar) : Prop :=
  ∃ a g', x.Refuses n g a g' ∧ g'.showShape a = .error .outOfFuel

/-- The walk comes upon a refusal whose wording has no end. -/
def EndsUnworded (n : Nat) (x : Inquiry) (g : Grammar) : Prop :=
  ComesUpon Unworded n [x] g

end Inquiry

end ShapeGrammar
