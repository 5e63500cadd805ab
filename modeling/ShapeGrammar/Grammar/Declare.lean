import ShapeGrammar.Resolve

/-!
# Declarations

How names come to stand for aliases, parsers and classes. A class is declared with its own fields
and members, below the bases it names, which are looked up first; its ancestry is the order in which
every class comes before its bases and bases keep the order in which they are named. Declarations
without such an order are refused.

A class gets a parser by being derived: it becomes a record, or if it is a sum, its variants do. A
declaration that stops leaves its name standing for what it stood for before.

Headlines: `linearize`, `declareClass`, `derive`, `declare`.
-/

namespace ShapeGrammar

open Resolution

/-- A field as it is declared. -/
structure FieldDecl where
  name : String
  shape : ShapeExpr
  role : FieldRole
  options : Option FieldOptions
  deriving Inhabited

mutual

/-- A class as it is declared. `documented` tells of a text that says what it is, `record` makes it
a record at once, with fields by keyword only or not, and `isSum` says that variants are declared in
it. -/
inductive ClassDecl
  | mk (name : String) (documented : Bool) (fields : List FieldDecl)
      (bases : Option (List Path)) (record : Option Bool) (isSum : Bool)
      (variants : List VariantDecl)

/-- A member of a class that is declared inside it. -/
inductive VariantDecl
  | nested (decl : ClassDecl)
  | reference (name : String) (path : Path)
  | constant (name : String) (value : Value)

end

instance : Inhabited ClassDecl := ⟨.mk "" false [] none none false []⟩

/-- The name of a declared class. -/
def ClassDecl.name : ClassDecl → String
  | .mk name _ _ _ _ _ _ => name

/-- A declaration of the module. -/
inductive Declaration
  | alias (name : String) (value : ShapeExpr)
  | parser (name : String) (value : ParserExpr)
  | cls (decl : ClassDecl) (derived : Bool)
  deriving Inhabited

/-! ## Ancestry -/

/-- The first of the heads that no list has further on. -/
def nextAncestor (lists : List (List ClassRef)) : Option ClassRef :=
  (lists.filterMap List.head?).find? fun c => !lists.any fun l => l.tail.contains c

/-- Merges lists of ancestors, keeping the order of every one of them. -/
def mergeAncestors : Nat → List (List ClassRef) → Option (List ClassRef)
  | 0, lists => if lists.all (·.isEmpty) then some [] else none
  | n + 1, lists =>
    if lists.all (·.isEmpty) then some []
    else do
      let c ← nextAncestor lists
      let rest ← mergeAncestors n (lists.map fun l => if l.head? == some c then l.tail else l)
      some (c :: rest)

/-- The ancestors of a class with these bases, nearest first. -/
def linearize (g : Grammar) (bases : List ClassRef) : Option (List ClassRef) :=
  let lists := bases.map g.ancestry ++ [bases]
  mergeAncestors lists.flatten.length lists

/-! ## Classes -/

/-- Marks a shape with the role of its field. -/
def FieldRole.mark (role : FieldRole) (a : Shape) : Shape :=
  match role with
  | .field => a
  | .shared => .shared a.asType
  | .parameter => .parameterOnly a

/-- The shapes of declared fields. -/
def declareFields (r : Resolver) : List FieldDecl → Resolution (Table Shape)
  | [] => pure []
  | f :: fs => do
    let a ← evaluateShape r true f.shape
    let rest ← declareFields r fs
    pure ((f.name, f.role.mark a) :: rest)

/-- The members of a class that its fields with options are, each with an entry of its own. -/
def declareOptions : List FieldDecl → Resolution (Table Binding)
  | [] => pure []
  | f :: fs =>
    match f.options with
    | none => declareOptions fs
    | some o => do
      let entry ← addField
        ⟨f.role, o.inConstructor, o.keywordOnly, o.default.map .constant, .nothing⟩
      let rest ← declareOptions fs
      pure ((f.name, .foreign (.field entry)) :: rest)

/-- What paths of the module stand for. -/
def lookupAll : List Path → Resolution (List Binding)
  | [] => pure []
  | p :: ps => do
    let b ← lift ((← get).lookup p)
    let rest ← lookupAll ps
    pure (b :: rest)

/-- The classes that the bases of a class are. -/
def baseClasses (bases : List Binding) : Except Fault (List ClassRef) :=
  bases.mapM fun
    | .cls c => .ok c
    | _ => .error (.type (.other "a base is a class"))

/-- Adds a class to the grammar. -/
def addClass (info : ClassId → ClassInfo) : Resolution ClassRef :=
  modifyGet fun g =>
    (.declared g.classes.size, { g with classes := g.classes.push (info g.classes.size) })

mutual

/-- Declares a class inside the one whose qualified name is `outer`, if any. -/
def declareClass (r : Resolver) (outer : Option String) : ClassDecl → Resolution ClassRef
  | .mk name documented fields bases record isSum variants => do
    let qualified :=
      match outer with
      | some o => o ++ "." ++ name
      | none => name
    let above ←
      match bases with
      | some paths => lookupAll paths
      | none => pure (if isSum then [.cls (.builtin .sum)] else [])
    let shapes ← declareFields r fields
    let nested ← declareVariants r qualified variants
    let bases ← lift (baseClasses above)
    match linearize (← get) bases with
    | none => fail (.type (.other "the bases are in no consistent order"))
    | some ancestors => do
      let options ← declareOptions fields
      let c ← addClass fun id =>
        { name := name
          documented := documented
          qualifiedName := qualified
          ancestry := .declared id :: ancestors
          shapes := Table.putAll [] shapes
          members := Table.putAll (Table.putAll [] options) nested
          record := none
          derivedAt := none
          plan := none }
      match record, c with
      | some keywordOnly, .declared d => makeRecord d keywordOnly
      | _, _ => pure ()
      pure c

/-- Declares the members that are declared inside a class. -/
def declareVariants (r : Resolver) (outer : String) :
    List VariantDecl → Resolution (Table Binding)
  | [] => pure []
  | .nested decl :: rest => do
    let c ← declareClass r (some outer) decl
    let others ← declareVariants r outer rest
    pure ((decl.name, .cls c) :: others)
  | .reference name path :: rest => do
    let b ← lift ((← get).lookup path)
    let others ← declareVariants r outer rest
    pure ((name, b) :: others)
  | .constant name value :: rest => do
    let others ← declareVariants r outer rest
    pure ((name, .constant value) :: others)

end

/-- Makes the classes records that are none. -/
def ensureRecords : List (String × ClassRef) → Resolution Unit
  | [] => pure ()
  | v :: vs => do
    ensureRecord v.2
    ensureRecords vs

/-- Gives a class a parser derived from its shape. -/
def derive (c : ClassRef) (location : String) : Resolution Unit := do
  let g ← get
  if g.isSum c then
    let variants := g.variantClasses c
    if variants.isEmpty then fail (.schema (.noVariants (g.className c) location))
    ensureRecords variants
  else ensureRecord c
  match c with
  | .declared d => modify (·.updateClass d fun i => { i with derivedAt := some location })
  | _ => pure ()

/-- Lets a name of the module stand for something. -/
def bindName (name : String) (b : Binding) : Resolution Unit :=
  modify fun g => { g with names := Table.put g.names name b }

/-- Adds an alias, whose value is found when it is needed. -/
def addAlias (name : String) (value : ShapeExpr) : Resolution AliasId :=
  modifyGet fun g =>
    (g.aliases.size, { g with aliases := g.aliases.push ⟨name, value, none, none⟩ })

/-- The name that a declaration is about. -/
def Declaration.name : Declaration → String
  | .alias name _ => name
  | .parser name _ => name
  | .cls decl _ => decl.name

/-- Makes the declaration with the given number. -/
def declare (r : Resolver) (number : Nat) : Declaration → Resolution Unit
  | .alias name value => do
    let a ← addAlias name value
    bindName name (.alias a)
  | .parser name value => do
    let b ← buildParser r value
    bindName name b
  | .cls decl derived => do
    let c ← declareClass r none decl
    if derived then derive c ("grammar:" ++ toString number)
    bindName decl.name (.cls c)

end ShapeGrammar
