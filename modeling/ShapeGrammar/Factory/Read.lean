import ShapeGrammar.Table
import ShapeGrammar.Fault
import ShapeGrammar.Factory.Statement
import ShapeGrammar.Factory.Tokens

/-!
# Reading factories

From a text back to the factories in it. The lines of a text fall into blocks by their indentation:
a block is a line with the deeper lines below it. A factory is a block at the margin, its steps are
blocks inside of it, and the statements of a procedure are blocks inside of these. Comments say
nothing.

A text that comes from a file may also list its factories under the names of shapes. Of everything
else at the margin nothing is kept. A factory whose steps are not read stops the reading of the
text.

Headlines: `blocksOf`, `Code.ofLines?`, `Library.ofText`.
-/

namespace ShapeGrammar

/-! ## Blocks -/

/-- A line with the deeper lines below it. -/
structure Block where
  head : List Token
  body : List Line
  deriving DecidableEq, Repr, Inhabited

/-- The blocks of the lines that are not deeper than `depth`, and the deeper lines before them. -/
def blocksOf (depth : Nat) : List Line → List Line × List Block
  | [] => ([], [])
  | line :: rest =>
    let (inner, blocks) := blocksOf depth rest
    if depth < line.indent then (line :: inner, blocks)
    else ([], ⟨line.tokens, inner⟩ :: blocks)

/-- The blocks of some lines, of which there must be one and no deeper line before it. -/
def blocks? (depth : Nat) (lines : List Line) : Option (List Block) :=
  match blocksOf depth lines with
  | ([], b :: bs) => some (b :: bs)
  | _ => none

/-! ## Statements -/

/-- The entry point with a name. -/
def Entry.ofName? (name : String) : Option Entry :=
  if name = Entry.total.name then some .total
  else if name = Entry.fallible.name then some .fallible
  else none

/-- The names between commas, up to a closing parenthesis at the end. -/
def argumentsOf? : List Token → Option (List String)
  | [.sign ')'] => some []
  | [.name n, .sign ')'] => some [n]
  | .name n :: .sign ',' :: rest => (argumentsOf? rest).map (n :: ·)
  | _ => none

/-- The statement on a line. -/
def Statement.ofTokens? : List Token → Option Statement
  | [.name result, .sign '=', .name parser, .sign '.', .name entry, .sign '(', .name cursor,
      .sign ')'] =>
    (Entry.ofName? entry).map (.call result parser · cursor)
  | [.name cursor, .sign ',', .name value, .sign '=', .name result] =>
    some (.unpack cursor value result)
  | [.name found, .sign '=', .name attempt, .sign '(', .name cursor, .sign '.', .name method,
      .sign '(', .sign ')', .sign ')'] =>
    if method = "snapshot" then some (.tryAttempt found attempt cursor) else none
  | [.keyword .return, .keyword .none] => some .returnNothing
  | [.keyword .return, .name attempt, .sign '(', .name cursor, .sign ')'] =>
    some (.returnAttempt attempt cursor)
  | .keyword .return :: .name cursor :: .sign ',' :: .name target :: .sign '(' :: rest =>
    (argumentsOf? rest).map (.returnBuilt cursor target)
  | _ => none

/-- The statement of a condition and the line below it. The class of failures is only recognized
where it is known. -/
def Statement.ofCondition? (failures : Bool) : List Token → List Token → Option Statement
  | [.keyword .ifTrue, .name result, .keyword .is, .keyword .none, .sign ':'],
      [.keyword .return, .keyword .none] =>
    some (.returnMiss result)
  | [.keyword .ifTrue, .name found, .keyword .is, .keyword .not, .keyword .none, .sign ':'],
      [.keyword .return, .name answer] =>
    if found = answer then some (.returnFound found) else none
  | [.keyword .ifTrue, .name test, .sign '(', .name result, .sign ',', .name kind, .sign ')',
      .sign ':'], [.keyword .return, .name answer] =>
    if failures ∧ test = "isinstance" ∧ kind = "ParseError" ∧ result = answer then
      some (.returnError result)
    else none
  | _, _ => none

/-- The statement of a block. -/
def Statement.ofBlock? (failures : Bool) (b : Block) : Option Statement :=
  match b.body with
  | [] => ofTokens? b.head
  | [line] => ofCondition? failures b.head line.tokens
  | _ => none

/-! ## Factories -/

/-- The procedure of a block. -/
def Procedure.ofBlock? (failures : Bool) (b : Block) : Option Procedure :=
  match b.head with
  | [.keyword .define, .name name, .sign '(', .name parameter, .sign ')', .sign ':'] => do
    let blocks ← blocks? 8 b.body
    let body ← blocks.mapM (Statement.ofBlock? failures)
    some ⟨name, parameter, body⟩
  | _ => none

/-- The names that are unpacked, each before a comma, and what stands behind the equals sign. -/
def unpackedOf? : List Token → Option (List String × List Token)
  | .sign ')' :: .sign '=' :: whole => some ([], whole)
  | .name n :: .sign ',' :: rest => (unpackedOf? rest).map fun r => (n :: r.1, r.2)
  | _ => none

/-- The step of a factory that unpacks something. -/
def Clause.ofUnpacked? : List String × List Token → Option Clause
  | (names, [.name whole]) => if whole = "targets" then some (.targets names) else none
  | (names, [.name whole, .sign '[', .number place, .sign ']']) =>
    if whole = "parsers" then some (.parsers place names) else none
  | _ => none

/-- The step of a factory on a line. -/
def Clause.ofTokens? : List Token → Option Clause
  | .sign '(' :: rest => (unpackedOf? rest).bind ofUnpacked?
  | [.keyword .return, .name total, .sign ',', .name fallible] =>
    some (.returnEntries total fallible)
  | [.keyword .return, .keyword .none] => some .returnNothing
  | _ => none

/-- The step of a factory in a block. -/
def Clause.ofBlock? (failures : Bool) (b : Block) : Option Clause :=
  match b.body with
  | [] => ofTokens? b.head
  | _ => (Procedure.ofBlock? failures b).map .procedure

/-- The body of a factory in the lines below its head. -/
def Code.ofLines? (failures : Bool) (lines : List Line) : Option Code := do
  let blocks ← blocks? 4 lines
  blocks.mapM (Clause.ofBlock? failures)

/-! ## Texts -/

/-- The factory that is listed for a shape. -/
structure Listed where
  /-- The qualified name of the shape. -/
  shape : String
  code : Code
  fingerprint : String
  deriving DecidableEq, Repr, Inhabited

/-- The factories that a text lists. -/
inductive Listing
  | absent
  | opened (entries : List Listed)
  | closed (entries : List Listed)
  deriving DecidableEq, Repr, Inhabited

/-- What the lines of a text have defined. -/
structure Library where
  /-- Whether the class of failures is known. -/
  failures : Bool
  functions : Table Code
  listing : Listing
  deriving DecidableEq, Repr, Inhabited

/-- A text that is not made of the statements of factories. -/
def unreadable : Fault :=
  .type (.other "only the statements of factories are read")

/-- The line that makes the class of failures known. -/
def importTokens : List Token :=
  [.name "from", .name "shapeparse", .sign '.', .name "combinators", .name "import",
    .name "ParseError"]

/-- The function that has a name. -/
def functionIn (functions : Table Code) (name : String) : Except Fault Code :=
  match functions.get? name with
  | some code => .ok code
  | none => .error (.unboundName name)

/-- The factory that a line lists. -/
def Listed.ofLine (functions : Table Code) (line : Line) : Except Fault Listed :=
  match line.tokens with
  | [.literal shape, .sign ':', .sign '(', .name function, .sign ',', .literal fingerprint,
      .sign ')', .sign ','] => do
    let code ← functionIn functions function
    .ok ⟨shape, code, fingerprint⟩
  | _ => .error unreadable

namespace Library

/-- Defines a function, if its body was read. -/
def define (l : Library) (name : String) : Option Code → Except Fault Library
  | some code => .ok { l with functions := l.functions.put name code }
  | none => .error unreadable

/-- Closes the list of factories, if it is open. -/
def close (l : Library) : Except Fault Library :=
  match l.listing with
  | .opened entries => .ok { l with listing := .closed entries }
  | _ => .error unreadable

/-- What a statement at the margin changes. -/
def assign (l : Library) (statement : List Token) : Library :=
  match statement with
  | .name name :: .sign '=' :: value =>
    if name = "FACTORIES" then
      { l with listing := if value = [.sign '\x7b', .sign '\x7d'] then .closed [] else .absent }
    else l
  | _ => if statement = importTokens then { l with failures := true } else l

/-- What a block at the margin changes. -/
def step (l : Library) (b : Block) : Except Fault Library :=
  match b.head with
  | [.keyword .define, .name name, .sign '(', .name "targets", .sign ',', .name "parsers",
      .sign ')', .sign ':'] =>
    l.define name (Code.ofLines? l.failures b.body)
  | [.name "FACTORIES", .sign '=', .sign '\x7b'] => do
    let entries ← b.body.mapM (Listed.ofLine l.functions)
    .ok { l with listing := .opened entries }
  | [.sign '\x7d'] => l.close
  | tokens => .ok ((tokens.splitOn (.sign ';')).foldl assign l)

/-- Everything that a text defines. -/
def ofText (failures : Bool) (text : String) : Except Fault Library :=
  if text.toList.contains '\x00' then .error (.value .nullCharacter)
  else
    match blocksOf 0 (linesOf text) with
    | ([], blocks) => blocks.foldlM step ⟨failures, [], .absent⟩
    | _ => .error unreadable

end Library

/-- The factory with a name in a text that is read where the class of failures is known. -/
def Code.ofText (name text : String) : Except Fault Code := do
  let library ← Library.ofText true text
  functionIn library.functions name

end ShapeGrammar
