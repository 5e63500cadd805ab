import ShapeGrammar.Table
import ShapeGrammar.Expression
import ShapeGrammar.Log

/-!
# Grammars

Everything that declarations have brought into being: classes, aliases, delayed parsers, what names
are bound to, and files of factories. A grammar also keeps what has been found out so far (plans of
classes, values and parsers of aliases, delayed parsers and their error kinds) and which of these
is being found out at the moment.

Computations over a grammar either answer or stop at a fault; the grammar that they leave behind
exists in both cases. Running out of fuel is a stop of its own and no fault.

Headlines: `Grammar`, `Finding`, `Resolution`, `Resolution.guarded`, `Resolution.remember`.
-/

namespace ShapeGrammar

/-- The options that a field is declared with. -/
structure FieldOptions where
  /-- Whether the constructor takes the field. -/
  inConstructor : Bool
  keywordOnly : Option Bool
  default : Option Value
  deriving Repr, Inhabited

/-- What a name of the module or a member of a class stands for. -/
inductive Binding
  | cls (ref : ClassRef)
  | alias (id : AliasId)
  | parser (handle : Handle)
  | union (members : List Shape)
  | ellipsis
  | constant (value : Value)
  | foreign (thing : Foreign)
  deriving Inhabited

namespace Binding

/-- What a binding is where a type is expected: a text is a name to look up later. -/
def shape : Binding → Shape
  | .cls ref => .cls ref
  | .alias a => .alias a
  | .parser h => .parser h
  | .union members => .union members
  | .ellipsis => .ellipsis
  | .constant .nothing => .nothing
  | .constant (.text s) => .forward (.ofText s)
  | .constant v => .constant v
  | .foreign x => .foreign x

/-- What a binding is as a note, where a text is a text. -/
def note : Binding → Shape
  | .constant v => .constant v
  | b => b.shape

/-- What a binding is where a parser is expected. -/
def body : Binding → Parser
  | .parser h => h.body
  | _ => .inert

/-- The types that a choice joins where a binding is one of its sides. -/
def joined? : Binding → Option (List Shape)
  | .cls ref => some [.cls ref]
  | .union members => some members
  | .constant .nothing => some [.cls (.builtin .nothing)]
  | _ => none

/-- The union of what two bindings stand for, of which one at least is a type; a class is the union
of itself. -/
def join (a b : Binding) : Except Fault Binding :=
  match a.joined?, b.joined? with
  | some as, some bs =>
    match Shape.distinct (as ++ bs) with
    | [.cls (.builtin .nothing)] => .error (.type (.other "the absent value is no type"))
    | [.cls ref] => .ok (.cls ref)
    | members => .ok (.union members)
  | _, _ => .error (.type (.other "a choice is between parsers or between types"))

end Binding

/-- How a declared name takes part in instances. -/
inductive FieldRole
  /-- A field of every instance. -/
  | field
  /-- A member of the class alone. -/
  | shared
  /-- A parameter of the constructor alone. -/
  | parameter
  deriving DecidableEq, Repr, Inhabited

/-- A field as its declarations have left it so far. A class that declares a name again without
options of its own takes part in the entry that it inherits, and changes it for all. -/
structure FieldEntry where
  role : FieldRole
  inConstructor : Bool
  /-- Whether the field is passed by name only, once a record has decided it. -/
  keywordOnly : Option Bool
  default : Option Binding
  /-- The shape that the latest declaration has given it. -/
  shape : Shape
  deriving Inhabited

/-- A parameter of a constructor. -/
structure Parameter where
  role : FieldRole
  keywordOnly : Bool
  default : Option Binding
  shape : Shape
  deriving Inhabited

/-- How instances of a class are made, compared and written: as the fields were when the class
became a record. -/
structure Constructor where
  parameters : Table Parameter
  /-- The fields by which instances are compared and written. -/
  parts : List String
  deriving Inhabited

/-- What makes a class a record. -/
structure RecordLayout where
  /-- The declared names, inherited ones included. -/
  fields : Table FieldId
  /-- None if the parameters were in no possible order. -/
  constructor : Option Constructor
  deriving Inhabited

/-- A declared class. -/
structure ClassInfo where
  name : String
  /-- Whether the declaration says in words what the class is. -/
  documented : Bool
  /-- The name with those of the enclosing classes. -/
  qualifiedName : String
  /-- The class and its ancestors, nearest first. -/
  ancestry : List ClassRef
  /-- The shapes that the class itself declares. -/
  shapes : Table Shape
  /-- The members of the class itself. -/
  members : Table Binding
  record : Option RecordLayout
  /-- Where the parser of the class was asked for, if it was. -/
  derivedAt : Option String
  /-- The plan, once it is found. -/
  plan : Option (Plan Parser)
  deriving Inhabited

/-- A type alias. -/
structure AliasInfo where
  name : String
  expression : ShapeExpr
  /-- The value, once it is needed. -/
  value : Option Shape
  /-- The parser, once it is found. -/
  parser : Option Handle
  deriving Inhabited

/-- How a delayed parser is found out. -/
inductive Delayed
  | shape (body : Shape)
  | expression (body : ParserExpr)
  | known (body : Parser)
  /-- What a call of something that is no parser makes. -/
  | call (target : Binding)
  deriving Inhabited

/-- A delayed parser. -/
structure BoxInfo where
  body : Delayed
  /-- The parser, once it is found. -/
  parser : Option Parser
  /-- What failures the parser may report, once that is found. -/
  errorKind : Option (Option FailureKind)
  deriving Inhabited

/-- Something whose error kind is being found out. -/
inductive Pending
  | cls (id : ClassId)
  | box (id : BoxId)
  deriving DecidableEq, Repr, Inhabited

/-- Declarations, and what has been found out about them. -/
structure Grammar where
  classes : Array ClassInfo
  aliases : Array AliasInfo
  boxes : Array BoxInfo
  /-- The entries of declared fields. -/
  fields : Array FieldEntry
  /-- The names of the module. -/
  names : Table Binding
  /-- How many parsers with an identity of their own were made. -/
  made : Nat
  /-- What is being found out, innermost first. -/
  pending : List Pending
  files : Table String
  /-- The level from which reports are kept. -/
  threshold : Option LogLevel
  /-- The reports so far. -/
  reports : Array Report
  deriving Inhabited

/-- The grammar without declarations. -/
def Grammar.empty (threshold : Option LogLevel) : Grammar where
  classes := #[]
  aliases := #[]
  boxes := #[]
  fields := #[]
  names := []
  made := 0
  pending := []
  files := []
  threshold := threshold
  reports := #[]

/-- Why a computation stopped. -/
inductive Stop
  | fault (cause : Fault)
  | outOfFuel
  deriving DecidableEq, Repr, Inhabited

/-- A computation that may find out more about a grammar. -/
abbrev Resolution := EStateM Stop Grammar

namespace Grammar

/-- What is known about a declared class. -/
def classInfo (g : Grammar) (c : ClassId) : ClassInfo :=
  g.classes.getD c default

/-- What is known about an alias. -/
def aliasInfo (g : Grammar) (a : AliasId) : AliasInfo :=
  g.aliases.getD a default

/-- What is known about a delayed parser. -/
def boxInfo (g : Grammar) (b : BoxId) : BoxInfo :=
  g.boxes.getD b default

/-- The entry of a field. -/
def fieldEntry (g : Grammar) (f : FieldId) : FieldEntry :=
  g.fields.getD f default

/-- Changes what is known about a declared class. -/
def updateClass (g : Grammar) (c : ClassId) (f : ClassInfo → ClassInfo) : Grammar :=
  { g with classes := g.classes.modify c f }

/-- Changes what is known about an alias. -/
def updateAlias (g : Grammar) (a : AliasId) (f : AliasInfo → AliasInfo) : Grammar :=
  { g with aliases := g.aliases.modify a f }

/-- Changes what is known about a delayed parser. -/
def updateBox (g : Grammar) (b : BoxId) (f : BoxInfo → BoxInfo) : Grammar :=
  { g with boxes := g.boxes.modify b f }

/-- The name of a class with those of the enclosing classes. -/
def className (g : Grammar) : ClassRef → String
  | .declared c => (g.classInfo c).qualifiedName
  | .character c => Value.characterName c
  | .builtin b => b.name

/-- The name of a class alone. -/
def shortName (g : Grammar) : ClassRef → String
  | .declared c => (g.classInfo c).name
  | .character c => Value.characterName c
  | .builtin b => b.name

/-- The name of a class with that of the module it belongs to. -/
def fullName (g : Grammar) : ClassRef → String
  | .declared c => "grammar." ++ (g.classInfo c).qualifiedName
  | .character c => "shapeparse.leaves." ++ Value.characterName c
  | .builtin .nonempty => "shapeparse.combinators.NonEmpty"
  | .builtin .box => "shapeparse.combinators.Box"
  | .builtin .either => "shapeparse.combinators.Either"
  | .builtin .not => "shapeparse.combinators.Not"
  | .builtin .character => "shapeparse.leaves.Character"
  | .builtin .sum => "shapeparse.derive.Sum"
  | .builtin b => "builtins." ++ b.name

/-- A class with its ancestors, nearest first. -/
def ancestry (g : Grammar) : ClassRef → List ClassRef
  | .declared c => (g.classInfo c).ancestry
  | .character c => [.character c, .builtin .character]
  | .builtin b => [.builtin b]

/-- Whether a class is a choice between the classes nested in it. -/
def isSum (g : Grammar) (c : ClassRef) : Bool :=
  (g.ancestry c).contains (.builtin .sum)

/-- Where a class counts as defined: where its parser was asked for, or else in the module. -/
def location (g : Grammar) : ClassRef → String
  | .declared c => (g.classInfo c).derivedAt.getD "grammar"
  | .character _ => "shapeparse.leaves"
  | .builtin _ => "builtins"

/-- The members of a class itself. -/
def ownMembers (g : Grammar) : ClassRef → Table Binding
  | .declared c => (g.classInfo c).members
  | .character c => [("char", .constant (.text (String.singleton c)))]
  | .builtin _ => []

/-- A member of a class or of its nearest ancestor that has it. -/
def member? (g : Grammar) (c : ClassRef) (name : String) : Option Binding :=
  (g.ancestry c).findSome? fun a => (g.ownMembers a).get? name

/-- Looks up members one after the other. -/
def members? (g : Grammar) : Binding → List String → Except Fault Binding
  | b, [] => .ok b
  | .cls c, name :: rest =>
    match g.member? c name with
    | some b => g.members? b rest
    | none => .error (.attribute (.member (g.className c) name))
  | _, name :: _ => .error (.attribute (.member "" name))

/-- What a path stands for in the module. -/
def lookup (g : Grammar) (path : Path) : Except Fault Binding :=
  match g.names.get? path.head with
  | some b => g.members? b path.members
  | none => .error (.unboundName path.head)

/-- Keeps a report, if someone listens at its level. -/
def report (g : Grammar) (r : Report) : Grammar :=
  if r.level.heardFrom g.threshold then { g with reports := g.reports.push r } else g

end Grammar

/-! ## What is found out -/

/-- What can be found out about a grammar and is kept from then on. -/
inductive Finding : Type → Type
  /-- The plan of a class. -/
  | plan (c : ClassId) : Finding (Plan Parser)
  /-- The shape that an alias stands for. -/
  | value (a : AliasId) : Finding Shape
  /-- The parser of an alias. -/
  | handle (a : AliasId) : Finding Handle
  /-- What a delayed parser is. -/
  | box (b : BoxId) : Finding Parser
  /-- The failures that a delayed parser may report. -/
  | kind (b : BoxId) : Finding (Option FailureKind)

namespace Finding

/-- What is known already. -/
def known? (g : Grammar) {α : Type} : Finding α → Option α
  | .plan c => (g.classInfo c).plan
  | .value a => (g.aliasInfo a).value
  | .handle a => (g.aliasInfo a).parser
  | .box b => (g.boxInfo b).parser
  | .kind b => (g.boxInfo b).errorKind

/-- The grammar with something known. -/
def keep (g : Grammar) {α : Type} : Finding α → α → Grammar
  | .plan c, found => g.updateClass c fun i => { i with plan := some found }
  | .value a, found => g.updateAlias a fun i => { i with value := some found }
  | .handle a, found => g.updateAlias a fun i => { i with parser := some found }
  | .box b, found => g.updateBox b fun i => { i with parser := some found }
  | .kind b, found => g.updateBox b fun i => { i with errorKind := some found }

end Finding

namespace Resolution

variable {α : Type}

/-- Stops at a fault. -/
def fail (f : Fault) : Resolution α :=
  throw (.fault f)

/-- Goes on with an answer, or stops at a fault. -/
def lift : Except Fault α → Resolution α
  | .ok a => pure a
  | .error f => fail f

/-- Goes on with an answer, or stops where it stopped. -/
def liftStop : Except Stop α → Resolution α
  | .ok a => pure a
  | .error e => throw e

/-- A parser with an identity of its own. -/
def newHandle (body : Parser) : Resolution Handle :=
  modifyGet fun g => (⟨.made g.made, body⟩, { g with made := g.made + 1 })

/-- A new delayed parser. -/
def newBox (body : Delayed) : Resolution BoxId :=
  modifyGet fun g =>
    let parser :=
      match body with
      | .known p => some p
      | _ => none
    (g.boxes.size, { g with boxes := g.boxes.push ⟨body, parser, none⟩ })

/-- Finds something out while `key` counts as being found out. To come back to a key before that is
done stops at `fault`, which is told everything that is being found out, outermost first. The key
is taken off again whichever way the computation ends. -/
def guarded (key : Pending) (fault : List Pending → Fault) (x : Resolution α) : Resolution α :=
  fun g =>
    if g.pending.contains key then
      .error (.fault (fault ((key :: g.pending).reverse))) g
    else
      match x { g with pending := key :: g.pending } with
      | .ok a g => .ok a { g with pending := g.pending.tail }
      | .error e g => .error e { g with pending := g.pending.tail }

/-- What is known, or else what `x` finds, which is kept. -/
def remember (f : Finding α) (x : Resolution α) : Resolution α := do
  let g ← get
  match f.known? g with
  | some a => pure a
  | none => do
    let a ← x
    modify fun g => f.keep g a
    pure a

/-- Passes the schema faults of a computation through `f`. -/
def mapSchemaFault (f : Grammar → SchemaFault → SchemaFault) (x : Resolution α) : Resolution α :=
  fun g =>
    match x g with
    | .error (.fault (.schema cause)) g => .error (.fault (.schema (f g cause))) g
    | r => r

end Resolution

end ShapeGrammar
