import ShapeGrammar.Grammar.Known
import ShapeGrammar.Grammar.Record

/-!
# Schemas

What a class declares, as planning sees it: the fields that its constructor takes in order, or its
variants with theirs. The shape of a field is the one that the nearest class in the ancestry
gives it, with the names in it looked up now.

A class that declares fields must be a record, and a record must be constructed from its fields
alone and by position; every other class is refused.

Headlines: `Schema`, `Grammar.follow`, `Grammar.shapesOf`, `Grammar.fieldsOf`, `Grammar.schemaOf`.
-/

namespace ShapeGrammar

/-- A field of a shape. -/
structure SchemaField where
  name : String
  shape : Shape
  deriving Inhabited

/-- An alternative of a sum. -/
structure Variant where
  name : String
  target : ClassRef
  fields : List SchemaField
  deriving Inhabited

/-- A variant without fields always matches. -/
def Variant.isUnit (v : Variant) : Bool :=
  v.fields.isEmpty

/-- What a class declares. -/
inductive Schema
  | product (target : ClassRef) (fields : List SchemaField)
  | sum (target : ClassRef) (variants : List Variant)
  deriving Inhabited

namespace Grammar

/-- What a path means inside a class: after the reserved names come the names of the module, then
the members of the class, and last the names that are known everywhere. -/
def lookupInside (g : Grammar) (c : ClassId) (path : Path) : Except Fault Binding :=
  let head := (reserved? path.head).or ((g.names.get? path.head).or
    (((g.classInfo c).members.get? path.head).or (known? path.head)))
  match head with
  | some b => g.members? b path.members
  | none => .error (.unboundName path.head)

/-- What a path in a field of a class comes to. A text that it stands for is a path in its turn, and
one that leads back to a path in `met` stays as it is. At most `n` texts are followed. -/
def follow (g : Grammar) (c : ClassId) : Nat → List Path → Path → Except Fault Shape
  | 0, _, path => .ok (.forward path)
  | n + 1, met, path =>
    if met.contains path then .ok (.forward path)
    else do
      match ← g.lookupInside c path with
      | .constant (.text s) => follow g c n (path :: met) (.ofText s)
      | b => .ok b.shape

/-- How many names and members stand for something. No chain of texts without a repetition is
longer. -/
def bindingCount (g : Grammar) : Nat :=
  g.classes.foldl (fun n info => n + info.members.length) g.names.length

/-- What a name in a field of a class stands for. -/
def fieldReference (g : Grammar) (c : ClassId) (path : Path) : Except Fault Shape :=
  g.follow c (g.bindingCount + 2) [] path

/-- The shapes that a class declares itself, evaluated, put over those in `found`. -/
def ownShapes (g : Grammar) (found : Table Shape) (c : ClassId) :
    Except Fault (Table Shape) :=
  (g.classInfo c).shapes.foldlM
    (fun found e => do
      let a ← e.2.asType.evaluate (g.fieldReference c)
      .ok (Table.put found e.1 a))
    found

/-- The shapes of a class and its ancestors; the nearest class that annotates a name wins. -/
def shapesOf (g : Grammar) (c : ClassRef) : Except Fault (Table Shape) :=
  (g.ancestry c).reverse.foldlM
    (fun found a =>
      match a with
      | .declared d => g.ownShapes found d
      | _ => .ok found)
    []

/-- The shapes that a class declares itself, as they are written. -/
def declaredShapes (g : Grammar) : ClassRef → Table Shape
  | .declared c => (g.classInfo c).shapes
  | _ => []

/-- The fields of a shape among the fields of a record. -/
def schemaFields (g : Grammar) (name location : String) (shapes : Table Shape) :
    Table FieldId → Except SchemaFault (List SchemaField)
  | [] => .ok []
  | (field, f) :: rest =>
    let entry := g.fieldEntry f
    if entry.role != .field || !entry.inConstructor then
      schemaFields g name location shapes rest
    else if entry.keywordOnly.getD false then .error (.keywordOnlyField field name location)
    else do
      let fields ← schemaFields g name location shapes rest
      .ok (⟨field, (shapes.get? field).getD .nothing⟩ :: fields)

/-- The parameters of a constructor that are none of the fields. -/
def extraParameters (g : Grammar) (c : ClassRef) (fields : List SchemaField) : List String :=
  match g.constructor? c with
  | some k =>
    (Table.names (positional k.parameters ++ keywordOnly k.parameters)).filter fun n =>
      !fields.any (·.name == n)
  | none => []

/-- The fields from which a class is constructed, in order. `location` is shown in faults. -/
def fieldsOf (g : Grammar) (c : ClassRef) (location : String) :
    Except Fault (List SchemaField) :=
  let name := g.className c
  match g.record? c with
  | none =>
    if (g.declaredShapes c).isEmpty then .ok []
    else .error (.schema (.notRecord name location))
  | some r =>
    match g.shapesOf c with
    | .error (.unboundName missing) =>
      .error (.schema (.unresolvedFields name location missing))
    | .error f => .error f
    | .ok shapes =>
      match g.schemaFields name location shapes r.fields with
      | .error f => .error (.schema f)
      | .ok fields =>
        match g.extraParameters c fields with
        | [] => .ok fields
        | extra => .error (.schema (.extraParameters name extra location))

/-- What a class declares. -/
def schemaOf (g : Grammar) (c : ClassRef) : Except Fault Schema := do
  let location := g.location c
  if g.isSum c then
    let variants ← (g.variantClasses c).mapM fun v => do
      let fields ← g.fieldsOf v.2 location
      pure (Variant.mk v.1 v.2 fields)
    if variants.isEmpty then .error (.schema (.noVariants (g.className c) location))
    else .ok (.sum c variants)
  else
    let fields ← g.fieldsOf c location
    .ok (.product c fields)

end Grammar

end ShapeGrammar
