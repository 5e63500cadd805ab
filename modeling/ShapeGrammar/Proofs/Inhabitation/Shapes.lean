import Mathlib.Logic.Relation
import ShapeGrammar.Resolve
import ShapeGrammar.Proofs.Grammar.Construct
import ShapeGrammar.Proofs.Grammar.Declarations

/-!
# What inhabits a shape

A shape is a promise about values: a tuple holds an inhabitant of each of its items, a class is
inhabited by its instances whose fields hold inhabitants of their shapes, a sum by instances of its
variants. An alias is what its expression comes to. The promise is about declarations alone; nothing
in it depends on what has been found out about a grammar.

Parsers that stand in a shape themselves, or are noted beside one, promise nothing. A shape is plain
if it leads to no such parser.

Headlines: `Schema.forms`, `Grammar.Inhabits`, `Grammar.Throughout`, `Grammar.Plain`,
`Grammar.Persists`.
-/

namespace ShapeGrammar

open Resolution

/-- The classes that an instance may be of, with their fields: the class itself if it is a product,
and the variants up to the first one that always matches if it is a sum. -/
def Schema.forms : Schema → List (ClassRef × List SchemaField)
  | .product target fields => [(target, fields)]
  | .sum _ variants => (reachable variants).1.map fun v => (v.target, v.fields)

/-- Whether a parser stands in the place of a type, or is noted beside it. -/
def Shape.isRaw : Shape → Bool
  | .parser _ => true
  | .annotated _ notes => (Shape.notedParser? notes).isSome
  | _ => false

namespace Grammar

/-- What the expression of an alias comes to where these declarations are made. -/
def ComesTo (g : Grammar) (a : AliasId) (value : Shape) : Prop :=
  ∃ k g0 g1, g.SameDeclarations g0 ∧
    evaluateShape (resolver k) false (g.aliasInfo a).expression g0 = .ok value g1

/-- One shape stands for another: an alias for what its expression comes to, a shape with notes for
the shape without them. -/
inductive StandsFor (g : Grammar) : Shape → Shape → Prop
  | value {a body} (value : g.ComesTo a body) : StandsFor g (.alias a) body
  | annotated {body notes} : StandsFor g (.annotated body notes) body

/-- What a shape stands for in the end, or on the way there. -/
abbrev Denotes (g : Grammar) : Shape → Shape → Prop :=
  Relation.ReflTransGen g.StandsFor

/-- The values that a shape promises. -/
inductive Inhabits (g : Grammar) : Shape → Value → Prop
  | character {c} : Inhabits g (.cls (.character c)) (.char c)
  | text {c} : Inhabits g (.cls (.builtin .text)) (.text (String.singleton c))
  | stands {a b v} (stands : g.StandsFor a b) (fits : Inhabits g b v) : Inhabits g a v
  | tupleNil : Inhabits g (.tuple []) (.tuple [])
  | tupleCons {a as v vs} (first : Inhabits g a v) (rest : Inhabits g (.tuple as) (.tuple vs)) :
    Inhabits g (.tuple (a :: as)) (.tuple (v :: vs))
  | list {item vs} (items : ∀ v ∈ vs, Inhabits g item v) : Inhabits g (.list item) (.list vs)
  | nonempty {item v vs} (first : Inhabits g item v) (rest : ∀ w ∈ vs, Inhabits g item w) :
    Inhabits g (.nonempty item) (.nonempty v vs)
  | absent {a b} (optional : a.isNothing = true ∨ b.isNothing = true) :
    Inhabits g (.union [a, b]) .nothing
  | second {a b v} (optional : a.isNothing = true) (fits : Inhabits g b v) :
    Inhabits g (.union [a, b]) v
  | first {a b v} (optional : b.isNothing = true) (fits : Inhabits g a v) :
    Inhabits g (.union [a, b]) v
  | left {a b v} (fits : Inhabits g a v) : Inhabits g (.either a b) (.left v)
  | right {a b v} (fits : Inhabits g b v) : Inhabits g (.either a b) (.right v)
  | not {a} : Inhabits g (.not a) .nothing
  | box {a v} (fits : Inhabits g a v) : Inhabits g (.box a) v
  /-- An instance of exactly one of the classes that it may be of, each of whose fields holds an
  inhabitant of its shape. -/
  | cls {c schema form v vs} (declared : g.schemaOf (.declared c) = .ok schema)
    (mem : form ∈ schema.forms) (exact : classOf? v = some form.1)
    (fields : Inhabits g (.tuple (form.2.map (·.shape))) (.tuple vs))
    (stored : ∀ e ∈ (form.2.map (·.name)).zip vs, v.attribute? e.1 = some e.2) :
    Inhabits g (.cls (.declared c)) v

/-- One shape stands in the other, as a part of it or as that of a field. -/
inductive HasPart (g : Grammar) : Shape → Shape → Prop
  | stands {a b} (stands : g.StandsFor a b) : HasPart g a b
  | item {items a} (mem : a ∈ items) : HasPart g (.tuple items) a
  | list {item} : HasPart g (.list item) item
  | nonempty {item} : HasPart g (.nonempty item) item
  | member {members a} (mem : a ∈ members) : HasPart g (.union members) a
  | left {a b} : HasPart g (.either a b) a
  | right {a b} : HasPart g (.either a b) b
  | not {a} : HasPart g (.not a) a
  | box {a} : HasPart g (.box a) a
  | field {c schema form f} (declared : g.schemaOf (.declared c) = .ok schema)
    (form_mem : form ∈ schema.forms) (mem : f ∈ form.2) : HasPart g (.cls (.declared c)) f.shape

theorem HasPart.first {g : Grammar} {a b : Shape} : g.HasPart (.union [a, b]) a :=
  .member List.mem_cons_self

theorem HasPart.second {g : Grammar} {a b : Shape} : g.HasPart (.union [a, b]) b :=
  .member (List.mem_cons_of_mem a List.mem_cons_self)

/-- Every shape that a shape leads to has a property. -/
def Throughout (g : Grammar) (P : Shape → Prop) (a : Shape) : Prop :=
  ∀ b, Relation.ReflTransGen g.HasPart a b → P b

/-- A shape leads to no parser that somebody has written. -/
def Plain (g : Grammar) : Shape → Prop :=
  g.Throughout fun a => a.isRaw = false

section Shapes

variable {g : Grammar} {a b : Shape}

theorem Inhabits.of_denotes {v : Value} (h : g.Denotes a b) (hv : g.Inhabits b v) :
    g.Inhabits a v := by
  induction h using Relation.ReflTransGen.head_induction_on with
  | refl => exact hv
  | head stands _ ih => exact .stands stands ih

theorem Inhabits.list_items {item : Shape} {vs : List Value}
    (h : g.Inhabits (.list item) (.list vs)) : ∀ v ∈ vs, g.Inhabits item v := by
  cases h with
  | stands stands _ => cases stands
  | list items => exact items

theorem Inhabits.tuple_length : ∀ {as : List Shape} {vs : List Value},
    g.Inhabits (.tuple as) (.tuple vs) → vs.length = as.length
  | [], _, h => by
    cases h with
    | stands stands _ => cases stands
    | tupleNil => rfl
  | _ :: _, _, h => by
    cases h with
    | stands stands _ => cases stands
    | tupleCons _ rest => exact congrArg (· + 1) rest.tuple_length

variable {P Q : Shape → Prop}

theorem Throughout.here (h : g.Throughout P a) : P a :=
  h a .refl

theorem Throughout.part (h : g.Throughout P a) (hpart : g.HasPart a b) : g.Throughout P b :=
  fun c hc => h c (.head hpart hc)

theorem Throughout.and (h : g.Throughout P a) (h' : g.Throughout Q a) :
    g.Throughout (fun b => P b ∧ Q b) a :=
  fun b hb => ⟨h b hb, h' b hb⟩

theorem Throughout.denotes (h : g.Throughout P a) (hab : g.Denotes a b) : g.Throughout P b := by
  induction hab with
  | refl => exact h
  | tail _ stands ih => exact ih.part (.stands stands)

theorem Throughout.items {as : List Shape} (h : g.Throughout P (.tuple as)) :
    ∀ a ∈ as, g.Throughout P a :=
  fun _ ha => h.part (.item ha)

theorem throughout_tuple {as : List Shape} (hP : P (.tuple as)) (h : ∀ a ∈ as, g.Throughout P a) :
    g.Throughout P (.tuple as) := by
  intro b hb
  rcases hb.cases_head with rfl | ⟨a, hpart, hrest⟩
  · exact hP
  · cases hpart with
    | stands stands => cases stands
    | item mem => exact h a mem b hrest

theorem throughout_list (hP : P (.list a)) (h : g.Throughout P a) : g.Throughout P (.list a) := by
  intro b hb
  rcases hb.cases_head with rfl | ⟨c, hpart, hrest⟩
  · exact hP
  · cases hpart with
    | stands stands => cases stands
    | list => exact h b hrest

theorem Plain.not_raw (h : g.Plain a) (is : g.Denotes a b) : ¬ b.isRaw = true := by
  rw [(h.denotes is).here]
  exact Bool.false_ne_true

/-- What holds throughout a class holds throughout the fields of each of its forms. -/
theorem Throughout.form {c : ClassId} (h : g.Throughout P (.cls (.declared c))) {schema : Schema}
    (hschema : g.schemaOf (.declared c) = .ok schema) {form : ClassRef × List SchemaField}
    (hform : form ∈ schema.forms) (hP : ∀ as, P (.tuple as)) :
    g.Throughout P (.tuple (form.2.map (·.shape))) := by
  refine throughout_tuple (hP _) fun a ha => ?_
  obtain ⟨f, hf, rfl⟩ := List.mem_map.mp ha
  exact h.part (.field hschema hform hf)

end Shapes

/-! ## What stays while things are found out -/

/-- A grammar that may come later: the declarations are the same, an alias has the expression that
it had, and a delayed parser is still delayed in the same way. -/
structure Persists (g g' : Grammar) : Prop extends g.SameDeclarations g' where
  aliases : ∀ a, (g'.aliasInfo a).expression = (g.aliasInfo a).expression
  boxes : ∀ {b}, b < g.boxes.size → b < g'.boxes.size ∧ (g'.boxInfo b).body = (g.boxInfo b).body

theorem Persists.refl (g : Grammar) : g.Persists g where
  toSameDeclarations := .refl g
  aliases _ := rfl
  boxes h := ⟨h, rfl⟩

theorem Persists.trans {g g' g'' : Grammar} (h : g.Persists g') (h' : g'.Persists g'') :
    g.Persists g'' where
  toSameDeclarations := h.toSameDeclarations.trans h'.toSameDeclarations
  aliases a := (h'.aliases a).trans (h.aliases a)
  boxes hb := by
    obtain ⟨hb', hbody⟩ := h.boxes hb
    obtain ⟨hb'', hbody'⟩ := h'.boxes hb'
    exact ⟨hb'', hbody'.trans hbody⟩

section Persists

variable {g g' : Grammar} (h : g.Persists g')
include h

theorem Persists.comesTo_iff {a : AliasId} {value : Shape} :
    g'.ComesTo a value ↔ g.ComesTo a value := by
  unfold ComesTo
  rw [h.aliases a]
  constructor
  · rintro ⟨k, g0, g1, hsame, heval⟩
    exact ⟨k, g0, g1, h.toSameDeclarations.trans hsame, heval⟩
  · rintro ⟨k, g0, g1, hsame, heval⟩
    exact ⟨k, g0, g1, h.toSameDeclarations.symm.trans hsame, heval⟩

theorem Persists.standsFor_iff {a b : Shape} : g'.StandsFor a b ↔ g.StandsFor a b := by
  constructor
  · rintro (value | _)
    · exact .value (h.comesTo_iff.mp value)
    · exact .annotated
  · rintro (value | _)
    · exact .value (h.comesTo_iff.mpr value)
    · exact .annotated

theorem Persists.denotes {a b : Shape} (hab : g.Denotes a b) : g'.Denotes a b :=
  Relation.ReflTransGen.mono (fun _ _ => h.standsFor_iff.mpr) _ _ hab

theorem Persists.inhabits {a : Shape} {v : Value} (hv : g'.Inhabits a v) : g.Inhabits a v := by
  induction hv with
  | character => exact .character
  | text => exact .text
  | stands stands _ ih => exact .stands (h.standsFor_iff.mp stands) ih
  | tupleNil => exact .tupleNil
  | tupleCons _ _ ih ih' => exact .tupleCons ih ih'
  | list _ ih => exact .list ih
  | nonempty _ _ ih ih' => exact .nonempty ih ih'
  | absent optional => exact .absent optional
  | second optional _ ih => exact .second optional ih
  | first optional _ ih => exact .first optional ih
  | left _ ih => exact .left ih
  | right _ ih => exact .right ih
  | not => exact .not
  | box _ ih => exact .box ih
  | cls declared mem exact _ stored ih =>
    exact .cls ((h.schemaOf_eq _).symm.trans declared) mem exact ih stored

theorem Persists.hasPart {a b : Shape} (hpart : g'.HasPart a b) : g.HasPart a b := by
  cases hpart with
  | stands stands => exact .stands (h.standsFor_iff.mp stands)
  | item mem => exact .item mem
  | list => exact .list
  | nonempty => exact .nonempty
  | member mem => exact .member mem
  | left => exact .left
  | right => exact .right
  | not => exact .not
  | box => exact .box
  | field declared form_mem mem =>
    exact .field ((h.schemaOf_eq _).symm.trans declared) form_mem mem

theorem Persists.throughout {P : Shape → Prop} {a : Shape} (ha : g.Throughout P a) :
    g'.Throughout P a :=
  fun b hb => ha b (Relation.ReflTransGen.mono (fun _ _ => h.hasPart) _ _ hb)

end Persists

end Grammar

end ShapeGrammar
