import ShapeGrammar.Session.Step

/-!
# Executing a session

A session keeps a machine, names for some of its cursors, and the number of declarations it was
asked to make. Every step starts with an empty trace; steps that stop leave behind what they found
out and how far they moved cursors.

Headlines: `Session`, `Session.step`, `Session.run`.
-/

namespace ShapeGrammar

/-- The state between two steps. -/
structure Session where
  machine : Machine
  /-- The cursors that have a name. -/
  cursors : Table CursorId
  /-- How many declarations were asked for. -/
  declarations : Nat
  deriving Inhabited

namespace Session

/-- The session that listens to reports from a level on. -/
def start (threshold : Option LogLevel) : Session :=
  ⟨.ofGrammar (.empty threshold), [], 0⟩

/-! ## Parsing -/

/-- Adds a cursor to the store. -/
def addCursor (c : Cursor) : Act CursorId :=
  modifyGet fun m => (m.cursors.size, m.addCursor c)

/-- The parser of a written shape. -/
def shapeParser (k : Limits) (shape : ShapeExpr) : Act Handle :=
  Act.resolve do
    let a ← evaluateShape k.answers false shape
    parserFor k.answers a

/-- A fresh cursor over offered data. -/
def freshCursor (offer : Offer) (position : Int) : Act CursorId := do
  let source ← Act.lift offer.source
  let cursor ← Act.lift (Cursor.at? source position)
  addCursor cursor

/-- The cursor that a name stands for. -/
def namedCursor (cursors : Table CursorId) (name : String) : Act CursorId :=
  match cursors.get? name with
  | some c => pure c
  | none => Act.fail (.unboundName name)

/-- Parses offered data as a written shape with the total form. -/
def parseOffer (k : Limits) (shape : ShapeExpr) (offer : Offer) : Act Outcome := do
  let h ← shapeParser k shape
  let c ← freshCursor offer 0
  k.call .total h.body c

/-- What a parse did to the cursor that was handed over; nothing is said of a cursor whose
position may not be asked for. -/
def traceOf (m : Machine) (c : CursorId) : Option Trace :=
  if (m.cursor c).positioned then
    some ⟨(m.cursor c).position, m.reads.toList, m.snapshots⟩
  else none

/-- The outcome of a parse as it is answered. -/
def parsedOf (m : Machine) (valueOnly : Bool) (c : CursorId) : Outcome → Parsed
  | .matched d v =>
    if valueOnly then .value v
    else
      .matched (if (m.cursor d).positioned then some (m.cursor d).position else none) (d == c) v
  | .missed => if valueOnly then .value .nothing else .missed
  | .failed e => .failed e

/-- Whether two outcomes of the total form are equal: values to values and failures to failures. -/
def outcomesEqual : Outcome → Outcome → Except Fault Bool
  | .matched _ v, .matched _ w => decided (v.compare w)
  | .failed e, .failed f => decided (e.compare f)
  | _, _ => .ok false
where
  decided : Value.Comparison → Except Fault Bool
    | .equal => .ok true
    | .different => .ok false
    | .unreadable => .error (.attribute .unsetField)

/-! ## Views -/

/-- The description of a parser. -/
def description (p : Parser) : Act String :=
  Act.describe p

/-- The tree of a parser. -/
def treeOf (p : Parser) : Act Tree := do
  Act.liftStop ((← get).grammar.tree p)

/-- The error kind of a parser. -/
def errorKind (k : Limits) (p : Parser) : Act (Option FailureKind) :=
  Act.resolve (errorKindOf k.answers p)

/-- An attempt as it is shown. -/
def viewAttempt (k : Limits) (a : Attempt Parser) : Act AttemptView := do
  let parsers ← a.parsers.mapM description
  let trees ← a.parsers.mapM treeOf
  let kind ← Act.resolve (sequenceErrorKind k.answers a.parsers)
  pure
    { name := a.name
      target := (← get).grammar.className a.target
      parsers := parsers
      trees := trees
      snapshot := a.snapshot
      isUnit := a.isUnit
      errorKind := kind }

/-- A plan as it is shown. -/
def viewPlan (k : Limits) (plan : Plan Parser) : Act PlanView := do
  let attempts ← plan.attempts.mapM (viewAttempt k)
  pure
    { target := (← get).grammar.className plan.target
      kind := plan.kind
      attempts := attempts
      errorKind := plan.errorKind
      requiresSnapshot := plan.requiresSnapshot }

/-- A schema as it is shown. -/
def viewSchema (g : Grammar) : Schema → SchemaView
  | .product target fields => .product (g.className target) (fields.map (·.name))
  | .sum target variants =>
    .sum (g.className target) (variants.map fun v =>
      ⟨v.name, g.className v.target, v.fields.map (·.name), v.isUnit⟩)

/-- An aspect of a parser. -/
def viewAspect (k : Limits) (p : Parser) : Aspect → Act AspectView
  | .description => .description <$> description p
  | .literal => do
    let d ← description p
    pure (.literal ("<" ++ p.kindName ++ " " ++ d ++ ">"))
  | .errorKind => .errorKind <$> errorKind k p
  | .infallible => do
    let kind ← errorKind k p
    pure (.infallible kind.isNone)
  | .plan => do
    let plan ← Act.resolve (planHeld k.answers p)
    .plan <$> viewPlan k plan
  | .tree => .tree <$> treeOf p

/-- The class that a path names. -/
def classAt (path : Path) : Act ClassRef := do
  match ← Act.lift ((← get).grammar.lookup path) with
  | .cls c => pure c
  | _ => Act.fail (.type (.other "not a class"))

/-- The classes by which something can be told to be below what a path names: a class itself, or the
members of a union. -/
def classesAt (path : Path) : Act (List ClassRef) := do
  match ← Act.lift ((← get).grammar.lookup path) with
  | .cls c => pure [c]
  | .union members => pure (members.filterMap fun
    | .cls c => some c
    | _ => none)
  | _ => Act.fail (.type (.other "neither a class nor a union"))

/-- Whether what a path stands for is below what other paths name. That it is a class matters only
where there is something to compare it with. -/
def subclassesAt (path : Path) (others : List Path) : Act (List Bool) := do
  let b ← Act.lift ((← get).grammar.lookup path)
  others.mapM fun other => do
    let ds ← classesAt other
    match b with
    | .cls c => do
      let g := (← get).grammar
      pure (ds.any (g.isSubclass c))
    | _ => Act.fail (.type (.other "not a class"))

/-- A character class, compared with another one. -/
def viewCharacter (char : Value) (other : Option Value) : Except Fault CharacterView := do
  let c ← characterClass char
  let same ←
    match other with
    | none => .ok none
    | some v => do
      let d ← characterClass v
      .ok (some (c.same d))
  match c with
  | .cls (.character k) =>
    .ok ⟨Value.characterName k, (Value.char k).display, (Value.char k).literal, same⟩
  | _ => .error (.type (.other "not a character"))

/-- The sequence of offered data, if it has an element. -/
def nonemptyOf (offer : Offer) : Except Fault Value :=
  match offer.source with
  | .error _ => .error (.type (.other "not a sequence"))
  | .ok source =>
    match source.elements.toList with
    | [] => .error (.value .emptyNonEmpty)
    | v :: vs => .ok (.nonempty v vs)

/-- The written shapes, evaluated. -/
def shapes (k : Limits) (es : List ShapeExpr) : Act (List Shape) :=
  Act.resolve (evaluateShapes k.answers false es)

/-- The parsers that a file gives for some shapes, each class at its first place. -/
def viewLoaded (loaded : List (Plan Parser × Parser)) :
    Act (List (String × String × Option FailureKind)) := do
  let once := loaded.foldl
    (fun kept e =>
      if kept.any (fun k => k.1.target == e.1.target) then
        kept.map fun k => if k.1.target == e.1.target then e else k
      else kept ++ [e])
    []
  once.mapM fun e => do
    let d ← description e.2
    pure ((← get).grammar.className e.1.target, d, e.1.errorKind)

/-! ## Steps -/

/-- What a step answers, and the cursor that gets a name by it. -/
def perform (k : Limits) (cursors : Table CursorId) (declarations : Nat) :
    Step → Act (Answer × Option (String × CursorId))
  | .declare d => do
    Act.resolve (ShapeGrammar.declare k.answers declarations d)
    pure (.declared d.name, none)
  | .openCursor name offer position positioned => do
    let source ← Act.lift offer.source
    let cursor ←
      if positioned then Act.lift (Cursor.at? source position)
      else pure (Cursor.unpositioned source position)
    let c ← addCursor cursor
    pure (.done, some (name, c))
  | .next name => do
    let c ← namedCursor cursors name
    match ← Act.next c with
    | some v => pure (.item v, none)
    | none => pure (.endOfInput, none)
  | .peek name => do
    let c ← namedCursor cursors name
    let _ ← Act.position c
    match ((← get).cursor c).peek? with
    | some v => pure (.item v, none)
    | none => pure (.endOfInput, none)
  | .state name => do
    let c ← namedCursor cursors name
    let position ← Act.position c
    let place := (← get).cursor c
    pure (.state position place.atEnd place.remaining, none)
  | .showCursor name => do
    let c ← namedCursor cursors name
    pure (.shown ((← get).cursor c).literal, none)
  | .snapshot name copy => do
    let c ← namedCursor cursors name
    let d ← Act.snapshot c
    pure (.done, some (copy, d))
  | .sameCursor a b => do
    let c ← namedCursor cursors a
    let d ← namedCursor cursors b
    let m ← get
    pure (.sameCursor (c == d || (m.cursor c).same (m.cursor d))
      (c == d || (m.cursor c).samePosition (m.cursor d)), none)
  | .coerce offer => do
    let source ← Act.lift offer.source
    pure (.coerced source.isText 0 (source.after 0), none)
  | .parse entry valueOnly shape origin save => do
    let h ← shapeParser k shape
    let c ←
      match origin with
      | .fresh offer position => freshCursor offer position
      | .stored name => namedCursor cursors name
    let o ← k.call entry h.body c
    let m ← get
    let saved :=
      match valueOnly, o, save with
      | false, .matched d _, some name => some (name, d)
      | _, _, _ => none
    pure (.parsed (parsedOf m valueOnly c o) (traceOf m c), saved)
  | .equal shapeA offerA shapeB offerB => do
    let a ← parseOffer k shapeA offerA
    let b ← parseOffer k shapeB offerB
    let holds ← Act.lift (outcomesEqual a b)
    pure (.equal holds, none)
  | .instances shape offer classes => do
    let o ← parseOffer k shape offer
    let refs ← classes.mapM classesAt
    let g := (← get).grammar
    pure (.instances (refs.map fun cs =>
      match o with
      | .matched _ v => cs.any (g.isInstance v)
      | _ => false), none)
  | .subclasses path classes => do
    let holds ← subclassesAt path classes
    pure (.subclasses holds, none)
  | .inspect shape aspects => do
    let h ← shapeParser k shape
    let views ← aspects.mapM (viewAspect k h.body)
    pure (.inspected views, none)
  | .schema path => do
    let c ← classAt path
    let g := (← get).grammar
    let s ← Act.lift (g.schemaOf c)
    pure (.schema (viewSchema g s), none)
  | .planSchema path => do
    let c ← classAt path
    let s ← Act.lift ((← get).grammar.schemaOf c)
    let plan ← Act.resolve (ShapeGrammar.planSchema k.answers s)
    let view ← viewPlan k plan
    pure (.plan view, none)
  | .sameParser a b => do
    let h ← shapeParser k a
    let other ← shapeParser k b
    pure (.sameParser (h.id == other.id), none)
  | .character char other => do
    let view ← Act.lift (viewCharacter char other)
    pure (.character view, none)
  | .nonempty offer => do
    let v ← Act.lift (nonemptyOf offer)
    pure (.value v, none)
  | .generate shape source name => do
    let a ← Act.resolve (evaluateShape k.answers false shape)
    let plan ← Act.resolve (planFrom k.answers a source)
    let title := (← get).grammar.fullName plan.target
    pure (.source (plan.generate title (name.getD factoryName)), none)
  | .fingerprint shape => do
    let a ← Act.resolve (evaluateShape k.answers false shape)
    let plan ← Act.resolve (derivedPlan k.answers a)
    pure (.fingerprint (plan.fingerprint ((← get).grammar.fullName plan.target)), none)
  | .fullName path => do
    match ← Act.lift ((← get).grammar.lookup path) with
    | .cls c => pure (.name ((← get).grammar.fullName c), none)
    | _ => Act.fail (.attribute (.member path.head "name"))
  | .renderFactories es => do
    let as ← shapes k es
    let file ← Act.resolve (ShapeGrammar.renderFactories k.answers as)
    pure (.source file.text, none)
  | .writeFactories file es => do
    let as ← shapes k es
    let written ← Act.resolve (ShapeGrammar.writeFactories k.answers file as)
    pure (.written written.text.length, none)
  | .loadFactories file es => do
    let as ← shapes k es
    let listed ← Act.lift (factoriesOf (← get).grammar file)
    let loaded ← Act.resolve (ShapeGrammar.loadFactories k.answers file listed as)
    let views ← viewLoaded loaded
    pure (.loaded views, none)
  | .putFile file content => do
    Act.resolve (ShapeGrammar.putFile file content)
    pure (.done, none)
  | .getFile file => do
    let content ← Act.resolve (ShapeGrammar.getFile file)
    pure (.content content, none)

/-- Whether a step counts as a declaration. -/
def Step.isDeclaration : Step → Bool
  | .declare _ => true
  | _ => false

/-- The reply to a step that has left the machine in this state. -/
def reply (answer : Answer) (m : Machine) : Reply :=
  ⟨answer, m.events.toList, m.grammar.reports.toList⟩

/-- The machine between two steps, with nothing noticed yet. -/
def refreshed (m : Machine) : Machine :=
  { m.clearTrace with grammar := { m.grammar with reports := #[] } }

/-- Does one step. -/
def step (k : Limits) (s : Session) (x : Step) : Reply × Session :=
  let declarations := if Step.isDeclaration x then s.declarations + 1 else s.declarations
  match perform k s.cursors declarations x (refreshed s.machine) with
  | .ok (answer, named) m =>
    let cursors :=
      match named with
      | some (name, c) => s.cursors.put name c
      | none => s.cursors
    (reply answer m, ⟨m, cursors, declarations⟩)
  | .error stop m => (reply (.stopped stop) m, ⟨m, s.cursors, declarations⟩)

/-- Does steps one after the other. -/
def run (k : Limits) (s : Session) : List Step → List Reply × Session
  | [] => ([], s)
  | x :: xs =>
    let (r, s) := step k s x
    let (rs, s) := run k s xs
    (r :: rs, s)

end Session

end ShapeGrammar
