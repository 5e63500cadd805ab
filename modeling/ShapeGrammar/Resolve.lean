import ShapeGrammar.Grammar.Schema
import ShapeGrammar.Grammar.Describe
import ShapeGrammar.Factory.File
import ShapeGrammar.Factory.Bind

/-!
# Resolution

From declarations to parsers and plans. Shapes are resolved by their structure, schemas are
planned attempt by attempt, and error kinds follow the first part of a sequence that can fail, the
last alternative, and the body of everything else.

Four questions lead from one declaration to another: the plan of a class, the parser of an alias,
what a delayed parser is, and its error kind. A `Resolver` answers them; everything else is defined
by structure over one. `resolver n` follows at most `n` such questions one inside the other, and
stops where that is not enough.

Whatever is found out is kept, and nothing is kept of a question that stopped. A class or delayed
parser whose error kind depends on itself is left-recursive; an alias that is not behind a delayed
parser must not contain itself.

Headlines: `resolveShape`, `planSchema`, `errorKindOf`, `resolver`.
-/

namespace ShapeGrammar

open Resolution

/-- Answers to the questions that lead from one declaration to another. -/
structure Resolver where
  /-- The plan of a declared class. -/
  planOf : ClassId → Resolution (Plan Parser)
  /-- The parser of an alias, met while the given aliases are expanded. -/
  aliasParser : List AliasId → AliasId → Resolution Handle
  /-- What a delayed parser is. -/
  boxParser : BoxId → Resolution Parser
  /-- The failures that a delayed parser may report. -/
  boxErrorKind : BoxId → Resolution (Option FailureKind)

/-! ## Shapes -/

/-- The parser that a class parses as: its own, never an inherited one. -/
def classParser (c : ClassRef) : Resolution Handle := do
  let g ← get
  match c with
  | .declared d =>
    if (g.classInfo d).derivedAt.isSome then pure (.derived d)
    else fail (.schema (.noParser (g.className c)))
  | .character char => pure (.character char)
  | .builtin .text => newHandle .any
  | .builtin b => fail (.schema (.noParser b.name))

/-- Stops at a fault whose wording shows a shape. -/
def failShowing {α : Type} (a : Shape) (f : Fault) : Resolution α := do
  liftStop ((← get).showShape a)
  fail f

/-- Whether a tuple has an item repeated without end. -/
def openEnded : List Shape → Bool
  | [_, .ellipsis] => true
  | _ => false

mutual

/-- The parser of a shape, met while the given aliases are expanded. -/
def resolveShape (r : Resolver) (expanding : List AliasId) : Shape → Resolution Handle
  | .parser h => pure h
  | .cls c => classParser c
  | .alias a => r.aliasParser expanding a
  | .annotated body notes =>
    match Shape.notedParser? notes with
    | some h => pure h
    | none => resolveShape r expanding body
  | .tuple items => do
    if openEnded items then failShowing (.tuple items) (.schema .noFixedLength)
    else newHandle (.seq (← resolveShapes r expanding items))
  | .list item => do
    let h ← resolveShape r expanding item
    newHandle (.many true h.body)
  | .nonempty item => do
    let h ← resolveShape r expanding item
    newHandle (.many1 true h.body)
  | .union [a, b] => do
    if a.isNothing then
      let h ← resolveShape r expanding b
      newHandle (.opt h.body)
    else if b.isNothing then
      let h ← resolveShape r expanding a
      newHandle (.opt h.body)
    else failShowing (.union [a, b]) (.schema .unorderedAlternative)
  | .union as => failShowing (.union as) (.schema .unorderedAlternative)
  | .either left right => do
    let l ← resolveShape r expanding left
    let h ← resolveShape r expanding right
    newHandle (.either l.body h.body)
  | .not body => do
    let h ← resolveShape r expanding body
    newHandle (.not h.body)
  | .box body => do
    let b ← newBox (.shape body)
    newHandle (.box b)
  | a => failShowing a (.schema .unknownShape)

/-- The parsers of all shapes, in order. -/
def resolveShapes (r : Resolver) (expanding : List AliasId) :
    List Shape → Resolution (List Parser)
  | [] => pure []
  | a :: as => do
    let h ← resolveShape r expanding a
    let hs ← resolveShapes r expanding as
    pure (h.body :: hs)

end

/-- The parser of a shape. -/
def parserFor (r : Resolver) (a : Shape) : Resolution Handle :=
  resolveShape r [] a

/-! ## Error kinds -/

mutual

/-- The failures that the total form of a parser may report; none if it cannot fail. -/
def errorKindOf (r : Resolver) : Parser → Resolution (Option FailureKind)
  | .element _ => pure (some .element)
  | .any => pure (some .element)
  | .satisfy _ _ => pure (some .element)
  | .seq parts => sequenceErrorKind r parts
  | .opt _ => pure none
  | .many _ _ => pure none
  | .many1 _ body => errorKindOf r body
  | .either _ right => errorKindOf r right
  | .not _ => pure (some .unexpectedMatch)
  | .box b => r.boxErrorKind b
  | .map _ body => errorKindOf r body
  | .derived c => do
    let plan ← r.planOf c
    pure plan.errorKind
  | .planned plan => pure plan.errorKind
  | .generated plan _ => pure plan.errorKind
  | .recorded _ body => errorKindOf r body
  | .misser _ => pure (some .noMatch)
  | .unimplemented => pure (some .noMatch)
  | .inert => fail (.attribute .parser)

/-- The error kind of a sequence is that of its first part that can fail. -/
def sequenceErrorKind (r : Resolver) : List Parser → Resolution (Option FailureKind)
  | [] => pure none
  | p :: ps => do
    match ← errorKindOf r p with
    | some k => pure (some k)
    | none => sequenceErrorKind r ps

end

/-! ## Plans -/

/-- The parsers of the fields of a class, in order. A fault names the field. -/
def fieldParsers (r : Resolver) (owner : ClassRef) :
    List SchemaField → Resolution (List Parser)
  | [] => pure []
  | f :: fs => do
    let h ← mapSchemaFault
      (fun g cause => .inField f.name (g.className owner) (g.location owner) cause)
      (parserFor r f.shape)
    let hs ← fieldParsers r owner fs
    pure (h.body :: hs)

/-- The variants up to the first one that always matches, and those that it hides. -/
def reachable : List Variant → List Variant × List Variant
  | [] => ([], [])
  | v :: vs =>
    if v.isUnit then ([v], vs)
    else
      let rest := reachable vs
      (v :: rest.1, rest.2)

/-- The attempts at variants: all but the last have something to fall back to. -/
def planVariants (r : Resolver) : List Variant → Resolution (List (Attempt Parser))
  | [] => pure []
  | v :: vs => do
    let parsers ← fieldParsers r v.target v.fields
    let rest ← planVariants r vs
    pure (⟨v.name, v.target, parsers, !vs.isEmpty && !v.isUnit⟩ :: rest)

/-- Reports the variants that no input can reach. -/
def reportHidden (target : ClassRef) (shown hidden : List Variant) : Resolution Unit :=
  match shown.getLast?, hidden with
  | _, [] => pure ()
  | none, _ => pure ()
  | some v, hidden =>
    modify fun g => g.report (.hides (g.className target) v.name (hidden.map (·.name)))

/-- The error kind of a sum is that of its last attempt. If a variant always matches, the sum cannot
fail. -/
def sumErrorKind (r : Resolver) (target : ClassRef) (variants : List Variant)
    (attempts : List (Attempt Parser)) : Resolution (Option FailureKind) :=
  if variants.any (·.isUnit) then pure none
  else
    match attempts.getLast? with
    | some a => sequenceErrorKind r a.parsers
    | none => do
      let g ← get
      fail (.schema (.noVariants (g.className target) (g.location target)))

/-- Decides how to parse a schema. -/
def planSchema (r : Resolver) : Schema → Resolution (Plan Parser)
  | .product target fields => do
    let parsers ← fieldParsers r target fields
    let kind ← sequenceErrorKind r parsers
    let name := (← get).shortName target
    pure ⟨target, .product, [⟨name, target, parsers, false⟩], kind⟩
  | .sum target variants => do
    let (shown, hidden) := reachable variants
    reportHidden target shown hidden
    let attempts ← planVariants r shown
    let kind ← sumErrorKind r target variants attempts
    pure ⟨target, .sum, attempts, kind⟩

/-- The class whose fields are meant where the fields of a shape are: its own, or that of the
sequences it describes. -/
def Shape.declaring? : Shape → Option ClassRef
  | .cls c => some c
  | .list _ => some (.builtin .list)
  | .tuple _ => some (.builtin .tuple)
  | .nonempty _ => some (.builtin .nonempty)
  | .mapping _ _ => some (.builtin (.other "dict"))
  | _ => none

/-- The schema of a shape. -/
def schemaFor (a : Shape) : Resolution Schema := do
  match a.declaring? with
  | some c => lift ((← get).schemaOf c)
  | none => fail (.type (.other "only a class declares fields"))

/-- The plan of a derived shape. -/
def derivedPlan (r : Resolver) (a : Shape) : Resolution (Plan Parser) := do
  let h ← parserFor r a
  match h.body with
  | .derived c => r.planOf c
  | _ => failShowing a (.type .notDerived)

/-- The parser that runs a plan as a factory: the plan is written out, the text is read, and the
factory in it is bound to the plan. -/
def generatedParser (plan : Plan Parser) : Resolution Parser := do
  let title := (← get).fullName plan.target
  let code ← lift (Code.ofText factoryName (plan.generate title factoryName))
  let _ ← lift (code.bind plan)
  pure (.generated plan code)

/-! ## Files of factories -/

/-- Whether a file may hold factories to load. -/
def isLoadable (file : String) : Bool :=
  file.endsWith ".py"

/-- Whether a file lies in a directory of its own; there is none. -/
def inMissingDirectory (file : String) : Bool :=
  file.contains '/'

/-- The factories of a file that must list some. -/
def factoriesOf (g : Grammar) (file : String) : Except Fault (List Listed) :=
  if !isLoadable file then .error (.value (.notLoadable file))
  else
    match g.files.get? file with
    | none => .error (.fileNotFound file)
    | some text => do
      match ← factoriesIn text with
      | none => .error (.value (.noFactories file))
      | some listed => .ok listed

/-- The factory of a plan in a file, bound to the plan. It must have been written from a plan of the
same form. -/
def boundFactory (g : Grammar) (file : String) (listed : List Listed) (plan : Plan Parser) :
    Except Fault Code :=
  let name := g.fullName plan.target
  match listedUnder listed name with
  | none => .error (.stale (.missingFactory file name))
  | some entry =>
    if entry.fingerprint != plan.fingerprint name then
      .error (.stale (.differentShape file name))
    else do
      let _ ← entry.code.bind plan
      .ok entry.code

/-- The parsers of derived shapes, run by the factories of a file. -/
def loadFactories (r : Resolver) (file : String) (listed : List Listed) :
    List Shape → Resolution (List (Plan Parser × Parser))
  | [] => pure []
  | a :: as => do
    let plan ← derivedPlan r a
    let code ← lift (boundFactory (← get) file listed plan)
    let rest ← loadFactories r file listed as
    pure ((plan, .generated plan code) :: rest)

/-! ## Written shapes and parsers -/

/-- The class of one character. -/
def characterClass : Value → Except Fault Shape
  | .text s =>
    match s.toList with
    | [c] => .ok (.cls (.character c))
    | _ => .error (.type (.notOneCharacter (Text.quoted s)))
  | .list _ => .error (.type (.other "a list names no class"))
  | v => .error (.type (.notOneCharacter v.literal))

/-- Binds a new parser. -/
def made (body : Parser) : Resolution Binding :=
  .parser <$> newHandle body

mutual

/-- What a written shape means. In a field, names stay forward references. -/
def evaluateShape (r : Resolver) (inField : Bool) : ShapeExpr → Resolution Shape
  | .character v => lift (characterClass v)
  | .ref path => do
    if inField then pure (.forward path)
    else
      let b ← lift ((← get).lookup path)
      pure b.shape
  | .nothing => pure .nothing
  | .ellipsis => pure .ellipsis
  | .builtin b => pure (.cls (.builtin b))
  | .list a => do
    let a ← evaluateShape r inField a
    pure (.list a)
  | .nonempty a => do
    let a ← evaluateShape r inField a
    pure (.nonempty a)
  | .not a => do
    let a ← evaluateShape r inField a
    pure (.not a.asType)
  | .box a => do
    let a ← evaluateShape r inField a
    pure (.box a.asType)
  | .either a b => do
    let a ← evaluateShape r inField a
    let b ← evaluateShape r inField b
    pure (.either a.asType b.asType)
  | .tuple as => do
    let as ← evaluateShapes r inField as
    pure (.tuple as)
  | .union as => do
    let as ← evaluateShapes r inField as
    lift (Shape.unionOf as)
  | .mapping a b => do
    let a ← evaluateShape r inField a
    let b ← evaluateShape r inField b
    pure (.mapping a b)
  | .annotated a notes => do
    let a ← evaluateShape r inField a
    let notes ← evaluateNotes r notes
    if notes.isEmpty then fail (.type (.other "nothing is noted"))
    else lift (Shape.annotatedOf a notes)
  | .parser p => do
    let b ← buildParser r p
    pure b.shape

/-- What several written shapes mean. -/
def evaluateShapes (r : Resolver) (inField : Bool) :
    List ShapeExpr → Resolution (List Shape)
  | [] => pure []
  | a :: as => do
    let a ← evaluateShape r inField a
    let as ← evaluateShapes r inField as
    pure (a :: as)

/-- What several written notes mean. -/
def evaluateNotes (r : Resolver) : List NoteExpr → Resolution (List Shape)
  | [] => pure []
  | .text s :: ns => do
    let ns ← evaluateNotes r ns
    pure (.constant (.text s) :: ns)
  | .parser p :: ns => do
    let b ← buildParser r p
    let ns ← evaluateNotes r ns
    pure (b.note :: ns)

/-- What a written parser means: a parser, unless it is a name that stands for something else.
Inside a parser such a thing is inert. -/
def buildParser (r : Resolver) : ParserExpr → Resolution Binding
  | .element v => made (.element v)
  | .any => made .any
  | .satisfy test description => made (.satisfy test.holds description)
  | .seq parts => do
    let parts ← buildParsers r parts
    made (.seq parts)
  | .opt body => do
    let b ← buildParser r body
    made (.opt b.body)
  | .many checked body => do
    let b ← buildParser r body
    made (.many checked b.body)
  | .many1 checked body => do
    let b ← buildParser r body
    made (.many1 checked b.body)
  | .either left right => do
    let l ← buildParser r left
    let b ← buildParser r right
    made (.either l.body b.body)
  | .choice first second => do
    let a ← buildParser r first
    let b ← buildParser r second
    match a with
    | .parser h => made (.either h.body b.body)
    | a => lift (a.join b)
  | .not body => do
    let b ← buildParser r body
    made (.not b.body)
  | .box body => do
    match ← buildParser r body with
    | .parser h => do
      let b ← newBox (.known h.body)
      made (.box b)
    | target => do
      let b ← newBox (.call target)
      made (.box b)
  | .delayed body => do
    let b ← newBox (.expression body)
    made (.box b)
  | .map change body => do
    match ← buildParser r body with
    | .parser h => made (.map change.apply h.body)
    | _ => fail (.attribute .parser)
  | .sum first second => do
    let a ← buildParser r first
    let b ← buildParser r second
    match a with
    | .parser h => made (h.body.followedBy b.body)
    | _ => fail (.type (.other "only a parser is followed by another one"))
  | .name path => do lift ((← get).lookup path)
  | .shape a => do
    let a ← evaluateShape r false a
    .parser <$> parserFor r a
  | .compiled a => do
    let a ← evaluateShape r false a
    let schema ← schemaFor a
    let plan ← planSchema r schema
    made (.planned plan)
  | .generated a => do
    let a ← evaluateShape r false a
    let plan ← derivedPlan r a
    let p ← generatedParser plan
    made p
  | .generatedSchema a => do
    let a ← evaluateShape r false a
    let schema ← schemaFor a
    let plan ← planSchema r schema
    let p ← generatedParser plan
    made p
  | .loaded file a => do
    let a ← evaluateShape r false a
    let listed ← lift (factoriesOf (← get) file)
    match ← loadFactories r file listed [a] with
    | (_, p) :: _ => made p
    | [] => fail (.value (.noFactories file))
  | .recorded name body => do
    let b ← buildParser r body
    made (.recorded name b.body)
  | .misser accepted => made (.misser (isAmong accepted))
  | .unimplemented => made .unimplemented

/-- The parsers that several written ones mean. -/
def buildParsers (r : Resolver) : List ParserExpr → Resolution (List Parser)
  | [] => pure []
  | p :: ps => do
    let b ← buildParser r p
    let bs ← buildParsers r ps
    pure (b.body :: bs)

end

/-! ## The questions -/

/-- The fault of a class whose plan depends on itself. -/
def leftRecursion (g : Grammar) (c : ClassId) (chain : List Pending) : Fault :=
  .schema (.leftRecursive (g.className (.declared c)) (g.location (.declared c))
    (chain.filterMap fun
      | .cls d => some (g.className (.declared d))
      | .box _ => none))

/-- Plans a class. A number that no class has is no parser's. -/
def makePlan (r : Resolver) (c : ClassId) : Resolution (Plan Parser) := do
  let g ← get
  if g.classes.size ≤ c then fail (.attribute .parser)
  else do
    let plan ← guarded (.cls c) (leftRecursion g c) do
      let schema ← lift ((← get).schemaOf (.declared c))
      planSchema r schema
    modify fun g => g.report (.planned plan.kind (g.className plan.target) plan.attempts.length
      plan.errorKind plan.requiresSnapshot)
    pure plan

/-- Finds the plan of a class, and keeps it. -/
def findPlan (r : Resolver) (c : ClassId) : Resolution (Plan Parser) :=
  remember (.plan c) (makePlan r c)

/-- Finds the value of an alias, and keeps it. -/
def aliasValue (r : Resolver) (a : AliasId) : Resolution Shape :=
  remember (.value a) do
    let g ← get
    evaluateShape r false (g.aliasInfo a).expression

/-- Resolves what an alias stands for. -/
def resolveAlias (r : Resolver) (expanding : List AliasId) (a : AliasId) :
    Resolution Handle := do
  let g ← get
  if expanding.contains a then
    fail (.schema (.selfContainingAlias (g.aliasInfo a).name
      ((expanding ++ [a]).map fun b => (g.aliasInfo b).name)))
  else do
    let value ← aliasValue r a
    resolveShape r (expanding ++ [a]) value

/-- Finds the parser of an alias, and keeps it. -/
def expandAlias (r : Resolver) (expanding : List AliasId) (a : AliasId) : Resolution Handle :=
  remember (.handle a) (resolveAlias r expanding a)

/-- Calls something for a parser. A class makes an instance, which is none; nothing else can be
called. -/
def callFor : Binding → Resolution Parser
  | .cls c => do
    let _ ← lift ((← get).construct c [])
    pure .inert
  | _ => fail (.type (.other "only a class can be called"))

/-- What a delayed parser comes to. The absent value in its place is no parser. -/
def delayedBody (r : Resolver) : Delayed → Resolution Parser
  | .shape a => do
    let h ← parserFor r a
    pure h.body
  | .expression e => do
    match ← buildParser r e with
    | .constant .nothing => fail (.attribute .parser)
    | b => pure b.body
  | .known p => pure p
  | .call target => callFor target

/-- Resolves a delayed parser. A number that no delayed parser has is none. -/
def resolveBox (r : Resolver) (b : BoxId) : Resolution Parser := do
  let g ← get
  if g.boxes.size ≤ b then fail (.attribute .parser)
  else delayedBody r (g.boxInfo b).body

/-- Finds out what a delayed parser is, and keeps it. -/
def openBox (r : Resolver) (b : BoxId) : Resolution Parser :=
  remember (.box b) (resolveBox r b)

/-- Finds the error kind of a delayed parser, and keeps it. -/
def findBoxErrorKind (r : Resolver) (b : BoxId) : Resolution (Option FailureKind) :=
  remember (.kind b) (guarded (.box b) (fun _ => .schema .leftRecursiveBox) do
    let p ← openBox r b
    errorKindOf r p)

/-- Answers that follow one question more than those of `r`. -/
def Resolver.extend (r : Resolver) : Resolver where
  planOf := findPlan r
  aliasParser := expandAlias r
  boxParser := openBox r
  boxErrorKind := findBoxErrorKind r

/-- Answers nothing. -/
def Resolver.exhausted : Resolver where
  planOf := fun _ => throw .outOfFuel
  aliasParser := fun _ _ => throw .outOfFuel
  boxParser := fun _ => throw .outOfFuel
  boxErrorKind := fun _ => throw .outOfFuel

/-- Follows at most so many questions one inside the other. -/
def resolver : Nat → Resolver
  | 0 => .exhausted
  | n + 1 =>
    { planOf := fun c => findPlan (resolver n) c
      aliasParser := fun expanding a => expandAlias (resolver n) expanding a
      boxParser := fun b => openBox (resolver n) b
      boxErrorKind := fun b => findBoxErrorKind (resolver n) b }

end ShapeGrammar
