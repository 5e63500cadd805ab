import ShapeGrammar.Grammar.Describe

/-!
# Records

How a declared class gets its fields and its constructor. A record takes in the fields of the
records among its ancestors, farthest first, and then the names that it annotates itself; a name
that is declared again keeps its place and changes its declaration. A parameter without a default
must not follow one with a default, unless it is keyword-only. A class that nothing documents is
documented by its constructor, every parameter of which is shown for that.

An instance holds what its constructor was handed, in order; a field that the constructor does not
take has its default, or no value at all. A class whose own constructor never came to be has that of
the nearest ancestor with one, whose fields then decide how instances are compared and written.

Headlines: `makeRecord`, `Grammar.construct`, `Grammar.isInstance`.
-/

namespace ShapeGrammar

/-- The role of a name with this shape. -/
def Shape.role : Shape → FieldRole
  | .shared _ => .shared
  | .parameterOnly _ => .parameter
  | _ => .field

/-- What a constructor takes by position. -/
def positional (parameters : Table Parameter) : Table Parameter :=
  parameters.filter fun e => !e.2.keywordOnly

/-- What a constructor takes by name only. -/
def keywordOnly (parameters : Table Parameter) : Table Parameter :=
  parameters.filter fun e => e.2.keywordOnly

/-- Whether no parameter without a default follows one with a default. -/
def defaultsLast : Table Parameter → Bool
  | [] => true
  | e :: rest =>
    if e.2.default.isSome then rest.all (·.2.default.isSome) else defaultsLast rest

namespace Grammar

/-- The record that a class is, by itself or by inheritance. -/
def record? (g : Grammar) (c : ClassRef) : Option RecordLayout :=
  (g.ancestry c).findSome? fun
    | .declared d => (g.classInfo d).record
    | _ => none

/-- The constructor of a class, its own or the nearest inherited one. -/
def constructor? (g : Grammar) (c : ClassRef) : Option Constructor :=
  (g.ancestry c).findSome? fun
    | .declared d => (g.classInfo d).record.bind (·.constructor)
    | _ => none

/-- The names that the records among the ancestors of a class declare. -/
def inheritedFields (g : Grammar) (c : ClassId) : Table FieldId :=
  (g.classInfo c).ancestry.tail.reverse.foldl
    (fun fields a =>
      match g.record? a with
      | some r => Table.putAll fields r.fields
      | none => fields)
    []

/-- The names among declared ones that are fields of every instance. -/
def instanceFields (g : Grammar) (fields : Table FieldId) : List String :=
  Table.names (fields.filter fun e => (g.fieldEntry e.2).role == .field)

/-- The parameters of a constructor that takes these names. -/
def parametersOf (g : Grammar) (fields : Table FieldId) : Table Parameter :=
  fields.filterMap fun e =>
    let f := g.fieldEntry e.2
    if f.role != .shared && f.inConstructor then
      some (e.1, ⟨f.role, f.keywordOnly.getD false, f.default, f.shape⟩)
    else none

/-- The members of a class that are fields with options, although the class declares no such name.
-/
def undeclaredFields (g : Grammar) (c : ClassId) : List String :=
  (g.classInfo c).members.filterMap fun e =>
    match e.2 with
    | .foreign (.field _) => if Table.has (g.classInfo c).shapes e.1 then none else some e.1
    | _ => none

/-- Shows the parameters of a constructor: their shapes and defaults. -/
def showParameters (g : Grammar) : Table Parameter → Except Stop Unit
  | [] => .ok ()
  | e :: rest => do
    g.showShape e.2.shape
    match e.2.default with
    | some b => g.showShape b.shape
    | none => .ok ()
    g.showParameters rest

/-- Whether a default may be shared between instances. -/
def sharable : Option Binding → Bool
  | some (.constant (.list _)) => false
  | _ => true

end Grammar

open Resolution

/-- A new entry of a field. -/
def addField (entry : FieldEntry) : Resolution FieldId :=
  modifyGet fun g => (g.fields.size, { g with fields := g.fields.push entry })

/-- The entry of a name that a class declares: the one that its options or those of an ancestor
opened, or a new one, whose default is what the name stands for already. -/
def openField (c : ClassId) (name : String) (role : FieldRole) : Resolution FieldId := do
  match (← get).member? (.declared c) name with
  | some (.foreign (.field f)) => pure f
  | some b => addField ⟨role, true, none, some b, .nothing⟩
  | none => addField ⟨role, true, none, none, .nothing⟩

/-- Declares a name of a class in its role. Where nothing else was said, `byName` decides whether
the constructor takes it by name only. -/
def declareField (c : ClassId) (byName : Bool) (name : String) (s : Shape) :
    Resolution FieldId := do
  let role := s.role
  let f ← openField c name role
  let entry := (← get).fieldEntry f
  let decided :=
    match role, entry.keywordOnly with
    | .shared, k => k
    | _, some k => some k
    | _, none => some byName
  modify fun g =>
    { g with
      fields := g.fields.set! f { entry with role := role, keywordOnly := decided, shape := s } }
  if role == .shared && decided.isSome then
    fail (.type (.other "a shared member has no place in the constructor"))
  else if role == .field && !Grammar.sharable entry.default then
    fail (.value (.mutableDefault name))
  else pure f

/-- Declares all names of a class, in order. -/
def declareNames (c : ClassId) (byName : Bool) : Table Shape → Resolution (Table FieldId)
  | [] => pure []
  | e :: rest => do
    let f ← declareField c byName e.1 e.2
    let fields ← declareNames c byName rest
    pure ((e.1, f) :: fields)

/-- Replaces a declared field among the members of a class by its default; without one the member
goes. -/
def settleMember (c : ClassId) (name : String) : Resolution Unit := do
  let g ← get
  match g.member? (.declared c) name with
  | some (.foreign (.field f)) =>
    match (g.fieldEntry f).default with
    | some b =>
      set (g.updateClass c fun i => { i with members := Table.put i.members name b })
    | none =>
      if Table.has (g.classInfo c).members name then
        set (g.updateClass c fun i => { i with members := Table.erase i.members name })
      else fail (.attribute (.member (g.className (.declared c)) name))
  | _ => pure ()

/-- Settles the members of all declared names, in order. -/
def settleMembers (c : ClassId) : Table FieldId → Resolution Unit
  | [] => pure ()
  | e :: rest => do
    settleMember c e.1
    settleMembers c rest

/-- Makes a class a record. The fields are known from the moment they are collected, even if the
parameters of the constructor turn out to be in no possible order, and the constructor is there even
if it cannot be shown. -/
def makeRecord (c : ClassId) (byName : Bool) : Resolution Unit := do
  let own ← declareNames c byName ((← get).classInfo c).shapes
  settleMembers c own
  if !((← get).undeclaredFields c).isEmpty then
    fail (.type (.other "a field with options has a shape"))
  let fields := Table.putAll ((← get).inheritedFields c) own
  modify (·.updateClass c fun i => { i with record := some ⟨fields, none⟩ })
  let parameters := (← get).parametersOf fields
  if defaultsLast (positional parameters) then
    let parts := (← get).instanceFields fields
    modify (·.updateClass c fun i => { i with record := some ⟨fields, some ⟨parameters, parts⟩⟩ })
    let g ← get
    if !(g.classInfo c).documented then liftStop (g.showParameters parameters)
  else fail (.type (.other "a parameter without a default follows one with a default"))

/-- Makes a class a record unless it is one already. -/
def ensureRecord (c : ClassRef) : Resolution Unit := do
  if ((← get).record? c).isNone then
    match c with
    | .declared d => makeRecord d false
    | _ => fail (.type (.other "the class cannot become a record"))

/-! ## Instances -/

namespace Grammar

/-- The values of parameters: those handed over first, then defaults. -/
def bindParameters : Table Parameter → List Value → Except Fault (Table Value)
  | [], [] => .ok []
  | [], _ :: _ => .error (.type (.other "too many arguments"))
  | (name, f) :: rest, v :: vs => do
    let bound ← bindParameters rest vs
    .ok (if f.role == .field then (name, v) :: bound else bound)
  | (name, f) :: rest, [] => do
    match f.default with
    | some (.constant v) =>
      let bound ← bindParameters rest []
      .ok (if f.role == .field then (name, v) :: bound else bound)
    | some _ => bindParameters rest []
    | none => .error (.type (.other "an argument is missing"))

/-- The value of a field: what the constructor bound, or else what the class has. -/
def fieldValue? (g : Grammar) (c : ClassRef) (bound : Table Value) (name : String) :
    Option Value :=
  match bound.get? name with
  | some v => some v
  | none =>
    match g.member? c name with
    | some (.constant v) => some v
    | _ => none

/-- The instance of a declared class in which the constructor bound these fields. -/
def instanceOf (g : Grammar) (c : ClassId) (bound : Table Value) : Value :=
  let fields :=
    match g.record? (.declared c) with
    | some r => g.instanceFields r.fields
    | none => []
  let parts :=
    match g.constructor? (.declared c) with
    | some k => k.parts
    | none => []
  let present := fun (names : List String) => names.filterMap fun n =>
    (g.fieldValue? (.declared c) bound n).map fun v => (n, v)
  let partValues := present parts
  let fieldValues := present fields
  let attributes := partValues ++ fieldValues.filter fun e => !parts.contains e.1
  .record
    { cls := c
      name := (g.classInfo c).qualifiedName
      attributes := attributes.map (·.1)
      parts := partValues.length
      fields := fieldValues.map (·.1)
      partly := partValues.length != parts.length
      comparable := (g.constructor? (.declared c)).isSome }
    (attributes.map (·.2))

/-- Calls a class with arguments by position. -/
def construct (g : Grammar) (target : ClassRef) (arguments : List Value) : Except Fault Value :=
  match target, arguments with
  | .declared c, _ =>
    match g.constructor? target with
    | some k => do
      let placed ← bindParameters (positional k.parameters) arguments
      let named ← bindParameters (keywordOnly k.parameters) []
      .ok (g.instanceOf c (placed ++ named))
    | none =>
      if arguments.isEmpty then .ok (g.instanceOf c [])
      else .error (.type (.other "too many arguments"))
  | .character c, [] => .ok (.char c)
  | .builtin .text, [] => .ok (.text "")
  | .builtin .integer, [] => .ok (.int 0)
  | .builtin .nothing, [] => .ok .nothing
  | .builtin .list, [] => .ok (.list [])
  | .builtin .tuple, [] => .ok (.tuple [])
  | .builtin .nonempty, [] => .error (.value .emptyNonEmpty)
  | _, _ => .error (.type (.other "the class takes other arguments"))

/-! ## Membership -/

/-- The variants of a sum: the classes nested in it, in order. A name that opens with an underscore
is private. -/
def variantClasses (g : Grammar) (c : ClassRef) : List (String × ClassRef) :=
  (g.ownMembers c).filterMap fun e =>
    match e.2 with
    | .cls ref => if e.1.startsWith "_" then none else some (e.1, ref)
    | _ => none

/-- Whether a class is another one or below it, where a variant is below its sum. The depth bounds
how often sums are nested. -/
def subclassWithin (g : Grammar) : Nat → ClassRef → ClassRef → Bool
  | 0, c, d => (g.ancestry c).contains d
  | depth + 1, c, d =>
    (g.ancestry c).contains d ||
      (g.isSum d && (g.variantClasses d).any fun v => subclassWithin g depth c v.2)

/-- Whether a class is another one or below it. -/
def isSubclass (g : Grammar) (c d : ClassRef) : Bool :=
  g.subclassWithin g.classes.size c d

/-- The class of a value, if it is one that a grammar can name. -/
def classOf? : Value → Option ClassRef
  | .nothing => some (.builtin .nothing)
  | .int _ => some (.builtin .integer)
  | .text _ => some (.builtin .text)
  | .char c => some (.character c)
  | .tuple _ => some (.builtin .tuple)
  | .list _ => some (.builtin .list)
  | .nonempty _ _ => some (.builtin .nonempty)
  | .record type _ => some (.declared type.cls)
  | _ => none

/-- Whether a value is an instance of a class. -/
def isInstance (g : Grammar) (v : Value) (c : ClassRef) : Bool :=
  match classOf? v with
  | some d => g.isSubclass d c
  | none => false

end Grammar

end ShapeGrammar
