import ShapeGrammar.Parser

/-!
# Shapes

What may stand as the type of a field: classes, aliases, parsers, and the forms built from them.
A name in a field is a forward reference until the fields of its class are looked at, and so is a
text that stands where a type is asked for.

A union is flat and holds no member twice, and one of a single member is that member. It tells its
members apart by a key; a list has no key, and nothing with a list in it has one. An annotated shape
collects all its notes in one place. `Shape.unionOf` and `Shape.annotatedOf` build them so.

Headlines: `Path.ofText`, `Shape`, `Shape.same`, `Shape.unionOf`, `Shape.evaluate`.
-/

namespace ShapeGrammar

/-- A name, and members to look up in what it stands for. -/
structure Path where
  head : String
  members : List String
  deriving DecidableEq, Repr, Inhabited

/-- What stands before the first dot, and what stands after each of them. -/
def splitAtDots : List Char → List Char × List (List Char)
  | [] => ([], [])
  | c :: cs =>
    let parts := splitAtDots cs
    if c = '.' then ([], parts.1 :: parts.2) else (c :: parts.1, parts.2)

/-- The path that a text writes, with a dot before each member. -/
def Path.ofText (s : String) : Path :=
  let parts := splitAtDots s.toList
  ⟨String.ofList parts.1, parts.2.map String.ofList⟩

/-- The type of a field. -/
inductive Shape
  | cls (ref : ClassRef)
  | alias (id : AliasId)
  | parser (handle : Handle)
  /-- The absent value itself, as opposed to its class. -/
  | nothing
  | ellipsis
  /-- A value that is no type. -/
  | constant (value : Value)
  | foreign (thing : Foreign)
  | forward (path : Path)
  | list (item : Shape)
  | nonempty (item : Shape)
  | not (body : Shape)
  | box (body : Shape)
  | either (left right : Shape)
  | tuple (items : List Shape)
  | union (members : List Shape)
  | mapping (key value : Shape)
  /-- A shape with notes beside it. Parsers among them matter; anything else is kept. -/
  | annotated (body : Shape) (notes : List Shape)
  /-- A field that belongs to the class and not to its instances. -/
  | shared (body : Shape)
  /-- A parameter of the constructor that is no field. -/
  | parameterOnly (body : Shape)
  deriving Inhabited

namespace Shape

mutual

/-- Whether two shapes are the same type. The order of union members does not count, and
parsers and aliases are told apart by identity. -/
def same : Shape → Shape → Bool
  | .cls c, .cls d => c == d
  | .alias a, .alias b => a == b
  | .parser h, .parser k => h.id == k.id
  | .nothing, .nothing => true
  | .ellipsis, .ellipsis => true
  | .constant v, .constant w => v.same w
  | .foreign x, .foreign y => x == y
  | .forward p, .forward q => p == q
  | .list a, .list b => same a b
  | .nonempty a, .nonempty b => same a b
  | .not a, .not b => same a b
  | .box a, .box b => same a b
  | .either a b, .either c d => same a c && same b d
  | .tuple as, .tuple bs => sameList as bs
  | .union as, .union bs => as.length == bs.length && allIn as bs
  | .mapping a b, .mapping c d => same a c && same b d
  | .annotated a ms, .annotated b ns => same a b && sameList ms ns
  | .shared a, .shared b => same a b
  | .parameterOnly a, .parameterOnly b => same a b
  | _, _ => false

/-- Whether two lists of shapes are the same, place by place. -/
def sameList : List Shape → List Shape → Bool
  | [], [] => true
  | a :: as, b :: bs => same a b && sameList as bs
  | _, _ => false

/-- Whether every shape of the first list is in the second. -/
def allIn : List Shape → List Shape → Bool
  | [], _ => true
  | a :: as, bs => bs.any (same a) && allIn as bs

end

mutual

/-- Whether a shape has a key, by which a union could tell it from others. -/
def hasKey : Shape → Bool
  | .constant (.list _) => false
  | .list a => hasKey a
  | .nonempty a => hasKey a
  | .not a => hasKey a
  | .box a => hasKey a
  | .either a b => hasKey a && hasKey b
  | .tuple as => allHaveKey as
  | .mapping a b => hasKey a && hasKey b
  | .annotated a notes => hasKey a && allHaveKey notes
  | _ => true

/-- Whether all shapes have a key. -/
def allHaveKey : List Shape → Bool
  | [] => true
  | a :: as => hasKey a && allHaveKey as

end

/-- Where a type is asked for, the absent value stands for its class. -/
def asType : Shape → Shape
  | .nothing => .cls (.builtin .nothing)
  | a => a

/-- The class of the absent value. -/
def isNothing : Shape → Bool
  | .cls (.builtin .nothing) => true
  | _ => false

/-- The members of a union, and any other shape as its only member. -/
def members : Shape → List Shape
  | .union as => as
  | a => [a]

/-- The list without repetitions, the first of equal shapes kept. -/
def distinct (as : List Shape) : List Shape :=
  as.foldl (fun kept a => if kept.any (same a) then kept else kept ++ [a]) []

/-- The union of some shapes. -/
def unionOf (as : List Shape) : Except Fault Shape :=
  let all := as.flatMap fun a => members a.asType
  if !allHaveKey all then .error (.type (.other "a member of a union has a key"))
  else
    match distinct all with
    | [] => .error (.type (.other "a union has a member"))
    | [a] => .ok a
    | as => .ok (.union as)

/-- A shape with notes after those that it has. Nothing is noted beside plain data. -/
def annotatedOf (a : Shape) (notes : List Shape) : Except Fault Shape :=
  match a with
  | .annotated body ms => .ok (.annotated body (ms ++ notes))
  | .ellipsis => .error (.attribute (.member "ellipsis" "module"))
  | .constant _ => .error (.attribute (.member "constant" "module"))
  | .foreign (.mark name) => .error (.attribute (.member name "module"))
  | a => .ok (.annotated a.asType notes)

/-- The first parser among some notes. -/
def notedParser? (notes : List Shape) : Option Handle :=
  notes.findSome? fun
    | .parser h => some h
    | _ => none

mutual

/-- The shape with all forward references replaced by what they stand for. -/
def evaluate (lookup : Path → Except Fault Shape) : Shape → Except Fault Shape
  | .forward path => asType <$> lookup path
  | .list a => .list <$> evaluate lookup a
  | .nonempty a => .nonempty <$> evaluate lookup a
  | .not a => (.not ∘ asType) <$> evaluate lookup a
  | .box a => (.box ∘ asType) <$> evaluate lookup a
  | .either a b => do
    let a ← evaluate lookup a
    let b ← evaluate lookup b
    .ok (.either a.asType b.asType)
  | .tuple as => .tuple <$> evaluateAll lookup as
  | .union as => do unionOf (← evaluateAll lookup as)
  | .mapping a b => do
    let a ← evaluate lookup a
    let b ← evaluate lookup b
    .ok (.mapping a b)
  | .annotated a notes => do annotatedOf (← evaluate lookup a) notes
  | .shared a => .shared <$> evaluate lookup a
  | a => .ok a

/-- All shapes evaluated, in order. -/
def evaluateAll (lookup : Path → Except Fault Shape) :
    List Shape → Except Fault (List Shape)
  | [] => .ok []
  | a :: as => do
    let a ← evaluate lookup a
    let as ← evaluateAll lookup as
    .ok (a :: as)

end

end Shape

end ShapeGrammar
