import Mathlib
import ShapeGrammar.Proofs.Factory.Exhaustion
import ShapeGrammar.Proofs.Inhabitation.Soundness

/-!
# Construction by position misplaces nothing

A class that has a schema is constructed from the fields of the schema: its constructor takes them
and nothing else, by position, in order and each once. The shape of a field is the one that the
first class in the ancestry gives it. So when an attempt of a plan succeeds, the instance holds
under each field what the parser of that field's shape has matched, and a field that the constructor
does not take shows what the class has for it. A class whose constructor takes anything else has no
schema. All of it holds of classes that are up to date.

Headlines: `Grammar.effectiveShape`, `Grammar.TakesInOrder`, `Grammar.Constructed`,
`Attempt.IsAt`, `Wins`, `runAttempts_wins`, `positional_construction`.
-/

namespace ShapeGrammar

open Resolution Machine

theorem Table.get?_of_not_mem {α : Type} {t : Table α} {name : String}
    (h : name ∉ Table.names t) : Table.get? t name = none := by
  induction t with
  | nil => rfl
  | cons e t ih =>
    obtain ⟨k, v⟩ := e
    simp only [Table.names, List.map_cons, List.mem_cons, not_or] at h
    have hk : ¬ k = name := fun heq => h.1 heq.symm
    simpa [Table.get?, hk] using ih h.2

theorem Table.get?_append {α : Type} (t u : Table α) (name : String) :
    Table.get? (t ++ u) name = (Table.get? t name).or (Table.get? u name) := by
  induction t with
  | nil => rfl
  | cons e t ih =>
    obtain ⟨k, v⟩ := e
    by_cases hk : k = name
    · simp [Table.get?, hk]
    · simpa [Table.get?, hk] using ih

/-- A constructor takes something that is no field, or by name only. -/
def Constructor.TakesOther (k : Constructor) : Prop :=
  ∃ e ∈ k.parameters, e.2.keywordOnly = true ∨ e.2.role ≠ .field

instance (k : Constructor) : Decidable k.TakesOther :=
  inferInstanceAs (Decidable (∃ e ∈ k.parameters, e.2.keywordOnly = true ∨ e.2.role ≠ .field))

namespace Grammar

variable {g : Grammar}

/-! ## The shape of a field -/

/-- The annotation that a class itself gives a name; of several, the last one. -/
def ownAnnotation? (g : Grammar) (name : String) : ClassRef → Option (ClassId × Shape)
  | .declared d => (Table.get? (g.classInfo d).shapes.reverse name).map fun s => (d, s)
  | _ => none

/-- The annotation of a name that counts in a class: that of the first class in the ancestry that
annotates it. -/
def annotation? (g : Grammar) (c : ClassRef) (name : String) : Option (ClassId × Shape) :=
  (g.ancestry c).findSome? (g.ownAnnotation? name)

/-- The shape that a name has in a class, with the names in it looked up. -/
def effectiveShape (g : Grammar) (c : ClassRef) (name : String) : Except Fault Shape :=
  match g.annotation? c name with
  | some (d, s) => s.asType.evaluate (g.fieldReference d)
  | none => .ok .nothing

/-- Shapes that are evaluated and put over others, entry by entry. -/
theorem get?_of_ownShapes {lookup : Path → Except Fault Shape} (name : String) :
    ∀ {t found shapes : Table Shape}, t.foldlM (fun found e => do
        let a ← e.2.asType.evaluate lookup
        .ok (Table.put found e.1 a)) found = .ok shapes →
      (∀ s, Table.get? t.reverse name = some s →
        ∃ a, s.asType.evaluate lookup = .ok a ∧ shapes.get? name = some a) ∧
      (Table.get? t.reverse name = none → shapes.get? name = found.get? name)
  | [], found, shapes, h => by
    cases h
    exact ⟨fun s hs => (nomatch hs), fun _ => rfl⟩
  | (k, s) :: t, found, shapes, h => by
    rw [List.foldlM_cons] at h
    obtain ⟨found', hput, h⟩ := except_bind_eq_ok_iff.mp h
    obtain ⟨a, ha, hput⟩ := except_bind_eq_ok_iff.mp hput
    cases hput
    obtain ⟨hlater, hkept⟩ := get?_of_ownShapes name h
    rw [List.reverse_cons, Table.get?_append]
    cases hrest : Table.get? t.reverse name with
    | some s' =>
      refine ⟨fun u hu => ?_, fun hnone => (nomatch hnone)⟩
      cases hu
      exact hlater s' hrest
    | none =>
      have hvalue := hkept hrest
      by_cases hk : k = name
      · subst hk
        rw [Table.get?_put_self] at hvalue
        refine ⟨fun u hu => ?_, fun hnone => ?_⟩
        · obtain rfl : s = u := by simpa [Table.get?] using hu
          exact ⟨a, ha, hvalue⟩
        · simp [Table.get?] at hnone
      · rw [Table.get?_put_of_ne _ _ hk] at hvalue
        exact ⟨fun u hu => by simp [Table.get?, hk] at hu, fun _ => hvalue⟩

/-- What is found for farther classes counts until a nearer class annotates the name. -/
theorem get?_of_ancestors (name : String) : ∀ {as : List ClassRef} {shapes : Table Shape},
    as.reverse.foldlM (fun found a =>
        match a with
        | .declared d => g.ownShapes found d
        | _ => .ok found) [] = .ok shapes →
      (∀ d s, as.findSome? (g.ownAnnotation? name) = some (d, s) →
        ∃ a, s.asType.evaluate (g.fieldReference d) = .ok a ∧ shapes.get? name = some a) ∧
      (as.findSome? (g.ownAnnotation? name) = none → shapes.get? name = none)
  | [], shapes, h => by
    cases h
    exact ⟨fun d s hs => (nomatch hs), fun _ => rfl⟩
  | a :: as, shapes, h => by
    rw [List.reverse_cons, List.foldlM_append] at h
    obtain ⟨found, hfar, h⟩ := except_bind_eq_ok_iff.mp h
    obtain ⟨last, hlast, h⟩ := except_bind_eq_ok_iff.mp h
    cases h
    have ih := get?_of_ancestors name hfar
    rw [List.findSome?_cons]
    cases a with
    | declared d =>
      obtain ⟨hown, hkept⟩ := get?_of_ownShapes name hlast
      unfold ownAnnotation?
      dsimp only
      cases hs : Table.get? (g.classInfo d).shapes.reverse name with
      | some s =>
        refine ⟨fun d' s' hfound => ?_, fun hnone => (nomatch hnone)⟩
        cases hfound
        exact hown s hs
      | none =>
        rw [hkept hs]
        exact ih
    | character _ =>
      cases hlast
      exact ih
    | builtin _ =>
      cases hlast
      exact ih

/-- The shapes of a class are the effective ones. -/
theorem get?_of_shapesOf {c : ClassRef} {shapes : Table Shape} (h : g.shapesOf c = .ok shapes)
    (name : String) : g.effectiveShape c name = .ok ((shapes.get? name).getD .nothing) := by
  obtain ⟨hsome, hnone⟩ := get?_of_ancestors name h
  unfold effectiveShape annotation?
  cases hfound : (g.ancestry c).findSome? (g.ownAnnotation? name) with
  | none =>
    rw [hnone hfound]
    rfl
  | some found =>
    obtain ⟨a, ha, hvalue⟩ := hsome found.1 found.2 hfound
    rw [hvalue]
    exact ha

theorem schemaFields_shapes {name location : String} {shapes : Table Shape} :
    ∀ {fids : Table FieldId} {fs : List SchemaField},
      g.schemaFields name location shapes fids = .ok fs →
        ∀ f ∈ fs, f.shape = (shapes.get? f.name).getD .nothing
  | [], fs, h, f, hf => by
    cases h
    cases hf
  | e :: fids, fs, h, f, hf => by
    unfold schemaFields at h
    dsimp only at h
    split at h
    · exact schemaFields_shapes h f hf
    · split at h
      · cases h
      · obtain ⟨rest, hrest, h⟩ := except_bind_eq_ok_iff.mp h
        cases h
        rcases List.mem_cons.mp hf with rfl | hf
        · rfl
        · exact schemaFields_shapes hrest f hf

/-! ## The parameters of a constructor -/

/-- The constructor of a class takes just these fields: by position, in order and each once. A class
without a constructor takes nothing. -/
structure TakesInOrder (g : Grammar) (target : ClassRef) (fields : List SchemaField) : Prop where
  nodup : (fields.map (·.name)).Nodup
  positional : ∀ k ∈ g.constructor? target,
    Table.names (positional k.parameters) = fields.map (·.name) ∧ keywordOnly k.parameters = [] ∧
      ∀ e ∈ k.parameters, e.2.role = .field
  bare : g.constructor? target = none → fields = []
  /-- Each field has the shape that the first class in the ancestry gives it. -/
  shapes : ∀ f ∈ fields, g.effectiveShape target f.name = .ok f.shape

theorem Current.stores {target : ClassRef} (h : g.Current target) {location : String}
    {fs : List SchemaField} (hfs : g.fieldsOf target location = .ok fs) {r : RecordLayout}
    (hr : g.record? target = some r) :
    ∃ c, target = .declared c ∧ g.Stores c (fs.map (·.name)) := by
  cases target with
  | declared c => exact ⟨c, rfl, fieldsOf_stores h hfs hr⟩
  | character _ => cases hr
  | builtin _ => cases hr

theorem fieldsOf_takesInOrder {target : ClassRef} (h : g.Current target) {location : String}
    {fs : List SchemaField} (hfs : g.fieldsOf target location = .ok fs) :
    g.TakesInOrder target fs := by
  cases hr : g.record? target with
  | none =>
    obtain rfl := fieldsOf_of_not_record hfs hr
    have hnone := constructor?_of_not_record hr
    refine ⟨List.nodup_nil, fun k hk => ?_, fun _ => rfl, fun f hf => by cases hf⟩
    rw [hnone] at hk
    cases hk
  | some r =>
    obtain ⟨c, rfl, hstores⟩ := h.stores hfs hr
    obtain ⟨⟨shapes, hshapes, hschema⟩, -⟩ := fieldsOf_eq_ok hfs hr
    obtain ⟨k, hk, hnames, hkeyword, hroles⟩ := hstores.constructor
    refine ⟨hstores.nodup, fun k' hk' => ?_, fun hnone => ?_, fun f hf => ?_⟩
    · cases hk.symm.trans hk'
      refine ⟨hnames, hkeyword, fun e he => ?_⟩
      have hbyName : e.2.keywordOnly = false := by
        by_contra hby
        have hmem : e ∈ keywordOnly k.parameters :=
          List.mem_filter.mpr ⟨he, by simpa using hby⟩
        rw [hkeyword] at hmem
        cases hmem
      exact hroles e (List.mem_filter.mpr ⟨he, by simp [hbyName]⟩)
    · rw [hk] at hnone
      cases hnone
    · rw [get?_of_shapesOf hshapes, ← schemaFields_shapes hschema f hf]

/-- A class whose constructor takes anything but fields by position has no fields to be constructed
from. -/
theorem fieldsOf_ne_ok {target : ClassRef} (h : g.Current target) {k : Constructor}
    (hk : g.constructor? target = some k) (hother : k.TakesOther) {location : String}
    {fs : List SchemaField} : g.fieldsOf target location ≠ .ok fs := by
  intro hfs
  obtain ⟨e, he, hother⟩ := hother
  obtain ⟨-, hkeyword, hroles⟩ := (fieldsOf_takesInOrder h hfs).positional k hk
  rcases hother with hbyName | hrole
  · have hmem : e ∈ keywordOnly k.parameters := List.mem_filter.mpr ⟨he, hbyName⟩
    rw [hkeyword] at hmem
    cases hmem
  · exact hrole (hroles e he)

/-! ## Refusals -/

/-- The classes whose instances a class stands for: its variants if it is a sum, itself if not. -/
def formsOf (g : Grammar) (c : ClassRef) : List ClassRef :=
  if g.isSum c then (g.variantClasses c).map (·.2) else [c]

/-- A class is refused with a schema fault, unless its annotations cannot even be read. -/
theorem fieldsOf_eq_error {target : ClassRef} {location : String} {f : Fault}
    (h : g.fieldsOf target location = .error f) :
    (∃ cause, f = .schema cause) ∨ g.shapesOf target = .error f := by
  unfold fieldsOf at h
  dsimp only at h
  split at h
  · split at h
    · cases h
    · cases h
      exact .inl ⟨_, rfl⟩
  · split at h
    · cases h
      exact .inl ⟨_, rfl⟩
    · rename_i hshapes
      cases h
      exact .inr hshapes
    · split at h
      · cases h
        exact .inl ⟨_, rfl⟩
      · split at h
        · cases h
        · cases h
          exact .inl ⟨_, rfl⟩

theorem exists_ok_of_mapM_eq_ok {α β ε : Type} {f : α → Except ε β} :
    ∀ {as : List α} {bs : List β}, as.mapM f = .ok bs → ∀ a ∈ as, ∃ b, f a = .ok b
  | [], _, _, a, ha => by cases ha
  | a :: as, bs, h, a', ha' => by
    rw [List.mapM_cons] at h
    obtain ⟨first, hfirst, h⟩ := except_bind_eq_ok_iff.mp h
    obtain ⟨rest, hrest, -⟩ := except_bind_eq_ok_iff.mp h
    rcases List.mem_cons.mp ha' with rfl | ha'
    · exact ⟨first, hfirst⟩
    · exact exists_ok_of_mapM_eq_ok hrest a' ha'

theorem exists_of_mapM_eq_error {α β ε : Type} {f : α → Except ε β} {e : ε} :
    ∀ {as : List α}, as.mapM f = .error e → ∃ a ∈ as, f a = .error e
  | [], h => by cases h
  | a :: as, h => by
    rw [List.mapM_cons] at h
    cases ha : f a with
    | error e' =>
      rw [ha] at h
      cases h
      exact ⟨a, List.mem_cons_self, ha⟩
    | ok b =>
      rw [ha] at h
      cases has : as.mapM f with
      | error e' =>
        rw [has] at h
        cases h
        obtain ⟨a', ha', hfound⟩ := exists_of_mapM_eq_error has
        exact ⟨a', List.mem_cons_of_mem _ ha', hfound⟩
      | ok bs =>
        rw [has] at h
        cases h

theorem schemaOf_eq_error {c : ClassRef} {f : Fault} (h : g.schemaOf c = .error f) :
    (∃ cause, f = .schema cause) ∨ ∃ target ∈ g.formsOf c, g.shapesOf target = .error f := by
  unfold schemaOf at h
  unfold formsOf
  dsimp only at h
  split at h
  · rename_i hsum
    rw [if_pos hsum]
    cases hvariants : (g.variantClasses c).mapM fun v => do
        let fields ← g.fieldsOf v.2 (g.location c)
        pure (Variant.mk v.1 v.2 fields) with
    | error f' =>
      rw [hvariants] at h
      cases h
      obtain ⟨v, hv, hfault⟩ := exists_of_mapM_eq_error hvariants
      cases hfields : g.fieldsOf v.2 (g.location c) with
      | error f' =>
        rw [hfields] at hfault
        cases hfault
        exact (fieldsOf_eq_error hfields).imp_right fun hshapes =>
          ⟨v.2, List.mem_map.mpr ⟨v, hv, rfl⟩, hshapes⟩
      | ok fields =>
        rw [hfields] at hfault
        cases hfault
    | ok variants =>
      rw [hvariants] at h
      replace h : (if variants.isEmpty = true then
        Except.error (Fault.schema (.noVariants (g.className c) (g.location c)))
          else .ok (Schema.sum c variants)) = .error f := h
      split at h
      · cases h
        exact .inl ⟨_, rfl⟩
      · cases h
  · rename_i hsum
    rw [if_neg hsum]
    cases hfields : g.fieldsOf c (g.location c) with
    | error f' =>
      rw [hfields] at h
      cases h
      exact (fieldsOf_eq_error hfields).imp_right fun hshapes =>
        ⟨c, List.mem_singleton_self c, hshapes⟩
    | ok fields =>
      rw [hfields] at h
      cases h

/-- Every form of a class with a schema has fields to be constructed from. -/
theorem exists_fieldsOf_form {c : ClassRef} {schema : Schema} (h : g.schemaOf c = .ok schema)
    {target : ClassRef} (htarget : target ∈ g.formsOf c) :
    ∃ fields, g.fieldsOf target (g.location c) = .ok fields := by
  unfold schemaOf at h
  unfold formsOf at htarget
  dsimp only at h
  split at h
  · rename_i hsum
    rw [if_pos hsum] at htarget
    obtain ⟨v, hv, rfl⟩ := List.mem_map.mp htarget
    obtain ⟨variants, hvariants, -⟩ := except_bind_eq_ok_iff.mp h
    obtain ⟨w, hw⟩ := exists_ok_of_mapM_eq_ok hvariants v hv
    obtain ⟨fields, hfields, -⟩ := except_bind_eq_ok_iff.mp hw
    exact ⟨fields, hfields⟩
  · rename_i hsum
    rw [if_neg hsum] at htarget
    cases List.mem_singleton.mp htarget
    obtain ⟨fields, hfields, -⟩ := except_bind_eq_ok_iff.mp h
    exact ⟨fields, hfields⟩

/-- The alternatives of a schema are forms of the class, with the fields that they are constructed
from. -/
theorem fieldsOf_alternative {c : ClassRef} {schema : Schema} (h : g.schemaOf c = .ok schema)
    {g' : Grammar} {v : Variant} (hv : v ∈ schema.alternatives g') :
    v.target ∈ g.formsOf c ∧ g.fieldsOf v.target (g.location c) = .ok v.fields := by
  unfold formsOf
  obtain ⟨variants, rfl, hsum, hvariants⟩ | ⟨fields, rfl, hfields⟩ := schemaOf_eq_ok h
  · obtain ⟨hmem, hfields⟩ := hvariants v hv
    rw [if_pos hsum]
    exact ⟨List.mem_map.mpr ⟨_, hmem, rfl⟩, hfields⟩
  · cases List.mem_singleton.mp hv
    have hnot : ¬ g.isSum c = true := by
      intro hsum
      unfold schemaOf at h
      dsimp only at h
      rw [if_pos hsum] at h
      obtain ⟨variants, -, h⟩ := except_bind_eq_ok_iff.mp h
      split at h <;> cases h
    rw [if_neg hnot]
    exact ⟨List.mem_singleton_self c, hfields⟩

/-! ## Instances -/

/-- An instance shows no name whose field has no value. -/
theorem instanceOf_attribute?_none {c : ClassId} {bound : Table Value} {name : String}
    (h : g.fieldValue? (.declared c) bound name = none) :
    (g.instanceOf c bound).attribute? name = none := by
  unfold instanceOf Value.attribute?
  dsimp only
  rw [← List.zip_of_prod rfl rfl, Option.map_eq_none_iff, List.find?_eq_none]
  rintro e he heq
  obtain rfl : e.1 = name := by simpa using heq
  have hvalue : g.fieldValue? (.declared c) bound e.1 = some e.2 := by
    rcases List.mem_append.mp he with hpart | hfield
    · exact (mem_present.mp hpart).2
    · exact (mem_present.mp (List.mem_filter.mp hfield).1).2
  rw [h] at hvalue
  cases hvalue

/-- What an instance of a class with these fields is, if the values were put in their places: it
holds each value under the name of its field, and a field that the constructor does not take shows
what the class has for it, if anything. -/
structure Constructed (g : Grammar) (target : ClassRef) (fields : List SchemaField)
    (vs : List Value) (v : Value) : Prop where
  exact : classOf? v = some target
  count : vs.length = fields.length
  placed : ∀ e ∈ (fields.map (·.name)).zip vs, v.attribute? e.1 = some e.2
  others : ∀ r ∈ g.record? target, ∀ e ∈ r.fields, (g.fieldEntry e.2).role = .field →
    (g.fieldEntry e.2).inConstructor = false → v.attribute? e.1 = g.fieldValue? target [] e.1

/-- **What is constructed from the fields of a schema has every value in its place.** -/
theorem constructed_of_fieldsOf {target : ClassRef} (h : g.Current target) {location : String}
    {fs : List SchemaField} (hfs : g.fieldsOf target location = .ok fs) {vs : List Value}
    (hlength : vs.length = fs.length) {v : Value} (hv : g.construct target vs = .ok v) :
    g.Constructed target fs vs v := by
  obtain ⟨hexact, hplaced⟩ := construct_of_fieldsOf h hfs hlength hv
  refine ⟨hexact, hlength, hplaced, fun r hr e he hrole hout => ?_⟩
  obtain ⟨c, rfl, hstores⟩ := h.stores hfs hr
  obtain ⟨⟨shapes, -, hschema⟩, -⟩ := fieldsOf_eq_ok hfs hr
  obtain ⟨hnodup, -⟩ := h r hr
  have hcount : vs.length = (fs.map (·.name)).length := by rw [hlength, List.length_map]
  cases (hstores.construct_eq hcount).symm.trans hv
  -- the name is bound to nothing: it is no field of the schema, and names occur once
  have hunbound : e.1 ∉ fs.map (·.name) := by
    intro hmem
    rw [(schemaFields_names hschema).1] at hmem
    obtain ⟨e', he', hname⟩ := List.mem_map.mp hmem
    obtain ⟨hmem', hisPlaced⟩ := List.mem_filter.mp he'
    obtain rfl := List.inj_on_of_nodup_map hnodup hmem' he hname
    simp [isPlaced, hout] at hisPlaced
  have hfree : Table.get? ((fs.map (·.name)).zip vs) e.1 = none := by
    refine Table.get?_of_not_mem ?_
    rwa [Table.names_zip hcount]
  have hvalue : g.fieldValue? (.declared c) ((fs.map (·.name)).zip vs) e.1 =
      g.fieldValue? (.declared c) [] e.1 := by
    unfold fieldValue?
    rw [hfree]
    rfl
  cases hclass : g.fieldValue? (.declared c) [] e.1 with
  | none => exact instanceOf_attribute?_none (hvalue.trans hclass)
  | some w =>
    refine instanceOf_attribute? hr ?_ (hvalue.trans hclass)
    exact List.mem_map.mpr ⟨e, List.mem_filter.mpr ⟨he, by simp [hrole]⟩, rfl⟩

end Grammar

/-! ## The parsers of the fields -/

/-- A parser is what the shape of a field is resolved to, among what a grammar declares. -/
def ParsesField (r : Resolver) (g : Grammar) (f : SchemaField) (p : Parser) : Prop :=
  ∃ h g1 g2, g.Persists g1 ∧ parserFor r f.shape g1 = .ok h g2 ∧ p = h.body

/-- An attempt is at a variant: it constructs the class of the variant, and has one parser for each
field in order. -/
structure Attempt.IsAt (r : Resolver) (g : Grammar) (v : Variant) (a : Attempt Parser) : Prop where
  target : a.target = v.target
  parsers : List.Forall₂ (ParsesField r g) v.fields a.parsers

section Fields

variable {k : Nat} {g : Grammar}

theorem parserFor_persists {g1 g2 : Grammar} {a : Shape} {h : Handle} (hg : g.Persists g1)
    (hh : parserFor (resolver k) a g1 = .ok h g2) : g.Persists g2 :=
  ((Grammar.persists_law g).toStepLaw.parserFor
    ((Grammar.persists_law g).resolver k).toAnswers a).of_ok hg hh

theorem fieldParsers_parse {owner : ClassRef} : ∀ {fs : List SchemaField} {ps : List Parser}
    {g1 g2 : Grammar}, g.Persists g1 → fieldParsers (resolver k) owner fs g1 = .ok ps g2 →
      List.Forall₂ (ParsesField (resolver k) g) fs ps ∧ g.Persists g2
  | [], _, _, _, hg, h => by
    cases h
    exact ⟨.nil, hg⟩
  | f :: fs, ps, g1, g2, hg, h => by
    unfold fieldParsers at h
    obtain ⟨first, g3, hfirst, h⟩ := bind_eq_ok_iff.mp h
    obtain ⟨rest, g4, hrest, h⟩ := bind_eq_ok_iff.mp h
    cases h
    have hresolved := mapSchemaFault_eq_ok hfirst
    obtain ⟨hparse, hg4⟩ := fieldParsers_parse (parserFor_persists hg hresolved) hrest
    exact ⟨.cons ⟨first, g1, g3, hg, hresolved, rfl⟩ hparse, hg4⟩

theorem planVariants_isAt : ∀ {vs : List Variant} {as : List (Attempt Parser)} {g1 g2 : Grammar},
    g.Persists g1 → planVariants (resolver k) vs g1 = .ok as g2 →
      List.Forall₂ (Attempt.IsAt (resolver k) g) vs as
  | [], _, _, _, _, h => by
    cases h
    exact .nil
  | v :: vs, as, g1, g2, hg, h => by
    obtain ⟨ps, rest, g3, hps, hrest, rfl⟩ := planVariants_cons h
    obtain ⟨hparse, hg3⟩ := fieldParsers_parse hg hps
    exact .cons ⟨rfl, hparse⟩ (planVariants_isAt hg3 hrest)

/-- The attempts of a plan are at the alternatives of its schema, in order, and their parsers are
those of the shapes of the fields as they are declared where the plan is made. -/
theorem planSchema_isAt {schema : Schema} {plan : Plan Parser} {g' : Grammar}
    (h : planSchema (resolver k) schema g = .ok plan g') :
    List.Forall₂ (Attempt.IsAt (resolver k) g) (upToUnit (schema.alternatives g'))
      plan.attempts := by
  cases schema with
  | product target fields =>
    obtain ⟨ps, kind, name, g1, hps, hkind, rfl, rfl⟩ := planSchema_product h
    rw [Schema.alternatives, upToUnit_singleton]
    exact .cons ⟨rfl, (fieldParsers_parse (.refl g) hps).1⟩ .nil
  | sum target variants =>
    obtain ⟨-, as, kind, g1, g2, hhidden, has, hkind, rfl⟩ := planSchema_sum h
    rw [reachable_eq_upToUnit] at has hhidden
    have hg1 : g.Persists g1 :=
      ((Grammar.persists_law g).toStepLaw.reportHidden target _ _).of_ok (.refl g) hhidden
    exact planVariants_isAt hg1 has

end Fields

/-! ## Attempts that succeed -/

section Attempts

variable {call : Entry → Parser → CursorId → Act Outcome}

/-- Parts match one after the other: the first one on the machine and the cursor that are given,
each further one on those that the one before it has left behind. -/
inductive MatchInTurn (call : Entry → Parser → CursorId → Act Outcome) (entry : Entry) :
    List Parser → CursorId → Machine → List Value → CursorId → Machine → Prop
  | nil (c : CursorId) (m : Machine) : MatchInTurn call entry [] c m [] c m
  | cons {p : Parser} {ps : List Parser} {c d e : CursorId} {v : Value} {vs : List Value}
      {m m1 m2 : Machine} (first : call entry p c m = .ok (.matched d v) m1)
      (rest : MatchInTurn call entry ps d m1 vs e m2) :
      MatchInTurn call entry (p :: ps) c m (v :: vs) e m2

theorem MatchInTurn.length_eq {entry : Entry} {ps : List Parser} {c d : CursorId} {vs : List Value}
    {m m' : Machine} (h : MatchInTurn call entry ps c m vs d m') : ps.length = vs.length := by
  induction h with
  | nil => rfl
  | cons _ _ ih => rw [List.length_cons, List.length_cons, ih]

/-- Parts that all match do so in turn. -/
theorem gather_inTurn {entry : Entry} : ∀ {ps : List Parser} {c d : CursorId} {vs : List Value}
    {m m' : Machine}, gather call entry ps c m = .ok (.all d vs) m' →
      MatchInTurn call entry ps c m vs d m'
  | [], c, _, _, m, _, h => by
    cases h
    exact .nil c m
  | p :: ps, c, d, vs, m, m', h => by
    unfold gather at h
    obtain ⟨o, m1, ho, h⟩ := bind_eq_ok_iff.mp h
    cases o with
    | matched e v =>
      obtain ⟨rest, m2, hrest, h⟩ := bind_eq_ok_iff.mp h
      cases rest with
      | all f ws =>
        cases h
        exact .cons ho (gather_inTurn hrest)
      | stopped o => cases h
    | missed =>
      dsimp only at h
      split at h <;> cases h
    | failed e =>
      dsimp only at h
      split at h <;> cases h

/-- An attempt that succeeds has constructed its class from what its parsers have matched in
turn. -/
theorem runAttempt_inTurn {entry : Entry} {a : Attempt Parser} {c d : CursorId} {v : Value}
    {m m' : Machine} (h : runAttempt call entry a c m = .ok (.matched d v) m') :
    ∃ vs, MatchInTurn call entry a.parsers c m vs d m' ∧
      m'.grammar.construct a.target vs = .ok v := by
  unfold runAttempt at h
  obtain ⟨r, m1, hr, h⟩ := bind_eq_ok_iff.mp h
  cases r with
  | all e vs =>
    obtain ⟨w, m2, hw, h⟩ := bind_eq_ok_iff.mp h
    cases h
    obtain ⟨hbuilt, rfl⟩ := construct_eq_ok hw
    exact ⟨vs, gather_inTurn hr, hbuilt⟩
  | stopped o =>
    cases h
    cases gather_stopped hr

/-- Of the attempts on a cursor, the one that matches, with the values that its parsers come to.
Every attempt before it is made on a snapshot, fails there and is reported. It is made itself on a
snapshot and in the fallible form if it can fall back, and else on the cursor and at the entry point
of the whole. -/
inductive Wins (call : Entry → Parser → CursorId → Act Outcome)
    (report : String → CursorId → Act Unit) (entry : Entry) (c : CursorId) :
    List (Attempt Parser) → Machine → Attempt Parser → List Value → CursorId → Machine → Prop
  | unit {a : Attempt Parser} {as : List (Attempt Parser)} {m : Machine}
      (fieldless : a.parsers = []) : Wins call report entry c (a :: as) m a [] c m
  | last {a : Attempt Parser} {as : List (Attempt Parser)} {vs : List Value} {d : CursorId}
      {m m' : Machine} (stays : a.snapshot = false)
      (parts : MatchInTurn call entry a.parsers c m vs d m') :
      Wins call report entry c (a :: as) m a vs d m'
  | aside {a : Attempt Parser} {as : List (Attempt Parser)} {vs : List Value} {s d : CursorId}
      {m m1 m' : Machine} (fields : a.parsers ≠ []) (falls : a.snapshot = true)
      (snapshot : Act.snapshot c m = .ok s m1)
      (parts : MatchInTurn call .fallible a.parsers s m1 vs d m') :
      Wins call report entry c (a :: as) m a vs d m'
  | later {a b : Attempt Parser} {as : List (Attempt Parser)} {vs : List Value} {s d : CursorId}
      {o : Outcome} {m m1 m2 m3 m' : Machine} (fields : a.parsers ≠ []) (falls : a.snapshot = true)
      (snapshot : Act.snapshot c m = .ok s m1)
      (attempt : runAttempt call .fallible a s m1 = .ok o m2) (fails : ∀ e v, o ≠ .matched e v)
      (reported : report a.name c m2 = .ok () m3)
      (wins : Wins call report entry c as m3 b vs d m') :
      Wins call report entry c (a :: as) m b vs d m'

theorem Wins.mem {report : String → CursorId → Act Unit} {entry : Entry} {c d : CursorId}
    {as : List (Attempt Parser)} {a : Attempt Parser} {vs : List Value} {m m' : Machine}
    (h : Wins call report entry c as m a vs d m') : a ∈ as := by
  induction h with
  | unit _ => exact List.mem_cons_self
  | last _ _ => exact List.mem_cons_self
  | aside _ _ _ _ => exact List.mem_cons_self
  | later _ _ _ _ _ _ _ ih => exact List.mem_cons_of_mem _ ih

theorem Wins.length_eq {report : String → CursorId → Act Unit} {entry : Entry} {c d : CursorId}
    {as : List (Attempt Parser)} {a : Attempt Parser} {vs : List Value} {m m' : Machine}
    (h : Wins call report entry c as m a vs d m') : a.parsers.length = vs.length := by
  induction h with
  | unit fieldless => rw [fieldless]; rfl
  | last _ parts => exact parts.length_eq
  | aside _ _ _ parts => exact parts.length_eq
  | later _ _ _ _ _ _ _ ih => exact ih

/-- **A plan that succeeds has constructed the class of the attempt that wins** from what the
parsers of the attempt have matched in turn. -/
theorem runAttempts_wins {report : String → CursorId → Act Unit} {entry : Entry} :
    ∀ {as : List (Attempt Parser)} {c d : CursorId} {v : Value} {m m' : Machine},
      runAttempts call report entry as c m = .ok (.matched d v) m' →
      ∃ a vs, Wins call report entry c as m a vs d m' ∧ m'.grammar.construct a.target vs = .ok v
  | [], _, _, _, _, _, h => by cases h
  | a :: rest, c, d, v, m, m', h => by
    unfold runAttempts at h
    split at h
    · rename_i hunit
      obtain ⟨w, m1, hw, h⟩ := bind_eq_ok_iff.mp h
      cases h
      obtain ⟨hbuilt, rfl⟩ := construct_eq_ok hw
      exact ⟨a, [], .unit (List.isEmpty_iff.mp hunit), hbuilt⟩
    · rename_i hfields
      have hfields : a.parsers ≠ [] := fun hnone => hfields (by rw [Attempt.isUnit, hnone]; rfl)
      split at h
      · rename_i hstays
        obtain ⟨vs, hparts, hbuilt⟩ := runAttempt_inTurn h
        exact ⟨a, vs, .last (by simpa using hstays) hparts, hbuilt⟩
      · rename_i hfalls
        have hfalls : a.snapshot = true := by simpa using hfalls
        obtain ⟨s, m1, hs, h⟩ := bind_eq_ok_iff.mp h
        obtain ⟨o, m2, ho, h⟩ := bind_eq_ok_iff.mp h
        have hlater : (∀ e w, o ≠ .matched e w) →
            (report a.name c >>= fun _ => runAttempts call report entry rest c) m2 =
              .ok (.matched d v) m' →
            ∃ b vs, Wins call report entry c (a :: rest) m b vs d m' ∧
              m'.grammar.construct b.target vs = .ok v := by
          intro hfails h
          obtain ⟨⟨⟩, m3, hreported, h⟩ := bind_eq_ok_iff.mp h
          obtain ⟨b, vs, hwins, hbuilt⟩ := runAttempts_wins h
          exact ⟨b, vs, .later hfields hfalls hs ho hfails hreported hwins, hbuilt⟩
        cases o with
        | matched e w =>
          cases h
          obtain ⟨vs, hparts, hbuilt⟩ := runAttempt_inTurn ho
          exact ⟨a, vs, .aside hfields hfalls hs hparts, hbuilt⟩
        | missed => exact hlater (by rintro _ _ ⟨⟩) h
        | failed e => exact hlater (by rintro _ _ ⟨⟩) h

end Attempts

/-! ## The theorem -/

open Grammar

/-- **Construction by position misplaces nothing.** If a class has a schema and its forms are up to
date, the constructor of each form takes the fields of the schema by position, in order and each
once, and every field has the shape that the first class in the ancestry gives it. When the plan of
the schema then succeeds, one of its attempts wins in that run. It is at one of the forms, its
parsers are those of the shapes of the fields in order, and each has matched where the one before it
has ended; the value is an instance of the form, in which every field holds what its parser has
matched there, while a field that the constructor does not take shows what the class has for it. A
class of which a form takes anything else is refused, with a schema fault unless the annotations of
a form cannot be read. -/
theorem positional_construction (g : Grammar) (c : ClassRef) :
    (∀ schema, g.schemaOf c = .ok schema → (∀ target ∈ g.formsOf c, g.Current target) →
      (∀ g', ∀ v ∈ schema.alternatives g', g.TakesInOrder v.target v.fields) ∧
      ∀ (k k' n : Nat) (plan : Plan Parser) (g1 g2 : Grammar) (entry : Entry) (s d : CursorId)
        (w : Value) (m m' : Machine), planSchema (resolver k) schema g1 = .ok plan g2 →
        g.SameDeclarations m.grammar →
        run (resolver k') (n + 1) entry (.planned plan) s m = .ok (.matched d w) m' →
        ∃ v ∈ schema.alternatives g2, ∃ a vs,
          Wins (run (resolver k') n) (reportAttempt plan.target) entry s plan.attempts m a vs d m' ∧
          a.IsAt (resolver k) g1 v ∧ g.Constructed v.target v.fields vs w) ∧
    ∀ target ∈ g.formsOf c, g.Current target →
      ∀ constructor ∈ g.constructor? target, constructor.TakesOther →
        ∃ f, g.schemaOf c = .error f ∧
          ((∃ cause, f = .schema cause) ∨ ∃ t ∈ g.formsOf c, g.shapesOf t = .error f) := by
  refine ⟨fun schema hschema hcurrent => ⟨fun g' v hv => ?_, ?_⟩, ?_⟩
  · obtain ⟨htarget, hfields⟩ := fieldsOf_alternative hschema hv
    exact fieldsOf_takesInOrder (hcurrent _ htarget) hfields
  · intro k k' n plan g1 g2 entry s d w m m' hplan hsame hrun
    obtain ⟨a, vs, hwins, hbuilt⟩ := runAttempts_wins hrun
    obtain ⟨v, hv, hat⟩ := exists_of_forall₂ (planSchema_isAt hplan).flip hwins.mem
    have hv : v ∈ schema.alternatives g2 := List.mem_of_mem_take hv
    obtain ⟨htarget, hfields⟩ := fieldsOf_alternative hschema hv
    -- what is found out in the run leaves the classes as they are declared
    have hpersists : m.grammar.Persists m'.grammar := run_persists hrun
    rw [hat.target, (hsame.trans hpersists.toSameDeclarations).construct_eq] at hbuilt
    have hlength : vs.length = v.fields.length :=
      hwins.length_eq.symm.trans hat.parsers.length_eq.symm
    exact ⟨v, hv, a, vs, hwins, hat,
      constructed_of_fieldsOf (hcurrent _ htarget) hfields hlength hbuilt⟩
  · intro target htarget hcurrent constructor hconstructor hother
    cases hschema : g.schemaOf c with
    | ok schema =>
      obtain ⟨fields, hfields⟩ := exists_fieldsOf_form hschema htarget
      exact absurd hfields (fieldsOf_ne_ok hcurrent hconstructor hother)
    | error f => exact ⟨f, rfl, schemaOf_eq_error hschema⟩

/-- A record with a field that its constructor does not take. -/
def markedBase : Declaration :=
  .cls (.mk "Base" false
    [⟨"left", .character (.text "a"), .field, none⟩,
      ⟨"mark", .character (.text "m"), .field, some ⟨false, none, some (.text "n")⟩⟩]
    none (some false) false []) false

/-- A record below it that declares a further field and one of the fields again. -/
def markedPair : Declaration :=
  .cls (.mk "Pair" false
    [⟨"right", .character (.text "b"), .field, none⟩,
      ⟨"left", .character (.text "c"), .field, none⟩]
    (some [⟨"Base", []⟩]) (some false) false []) true

/-- A record below it that takes a parameter which is no field. -/
def markedParameter : Declaration :=
  .cls (.mk "Started" false [⟨"start", .character (.text "s"), .parameter, none⟩]
    (some [⟨"Pair", []⟩]) (some false) false []) true

/-- The grammar of the three classes. -/
def markedGrammar : Grammar :=
  stateAfter (do
    declare (resolver 0) 1 markedBase
    declare (resolver 0) 2 markedPair
    declare (resolver 0) 3 markedParameter) (.empty none)

/-- The schema of the pairs: the field that is declared again keeps its place. -/
def markedSchema : Schema :=
  .product (.declared 1) [⟨"left", .cls (.character 'c')⟩, ⟨"right", .cls (.character 'b')⟩]

/-- The plan of the pairs. -/
def markedPlan : Plan Parser where
  target := .declared 1
  kind := .product
  attempts := [⟨"Pair", .declared 1, [.character 'c', .character 'b'], false⟩]
  errorKind := some .element

/-- The pairs are constructed in place, and the class with the parameter is refused. -/
theorem positional_construction_marked :
    markedGrammar.schemaOf (.declared 1) = .ok markedSchema ∧
      (∀ target ∈ markedGrammar.formsOf (.declared 1), markedGrammar.Current target) ∧
      (∃ v ∈ markedSchema.alternatives markedGrammar, ∃ a vs d w m,
        run (resolver 0) 5 .total (.planned markedPlan) 0 (reading markedGrammar "cb") =
          .ok (.matched d w) m ∧
        Wins (run (resolver 0) 4) (reportAttempt markedPlan.target) .total 0 markedPlan.attempts
          (reading markedGrammar "cb") a vs d m ∧
        a.IsAt (resolver 0) markedGrammar v ∧
        markedGrammar.Constructed v.target v.fields vs w) ∧
      ∃ f, markedGrammar.schemaOf (.declared 2) = .error f := by
  have hschema : markedGrammar.schemaOf (.declared 1) = .ok markedSchema := by cbv
  have hplan : planSchema (resolver 0) markedSchema markedGrammar =
      .ok markedPlan markedGrammar := by cbv
  -- the grammar is evaluated once for all that is decided about it
  have hdecided :
      (∀ target ∈ markedGrammar.formsOf (.declared 1), markedGrammar.Current target) ∧
        (Arithmetic.answer (run (resolver 0) 5 .total (.planned markedPlan) 0
          (reading markedGrammar "cb"))).isSome = true ∧
        .declared 2 ∈ markedGrammar.formsOf (.declared 2) ∧
        markedGrammar.Current (.declared 2) ∧
        ∃ k ∈ markedGrammar.constructor? (.declared 2), k.TakesOther := by
    decide +kernel
  have hplaced := positional_construction markedGrammar (.declared 1)
  have hrefuses := positional_construction markedGrammar (.declared 2)
  generalize markedGrammar = g at *
  obtain ⟨hcurrent, hanswer, hform, hcurrent', k, hk, hother⟩ := hdecided
  obtain ⟨d, w, m, hrun⟩ := Arithmetic.eq_matched_of_answer hanswer
  obtain ⟨v, hv, a, vs, hwins, hat, hconstructed⟩ := (hplaced.1 markedSchema hschema hcurrent).2
    0 0 4 markedPlan g g .total 0 d w _ m hplan (.refl g) hrun
  obtain ⟨f, hrefused, -⟩ := hrefuses.2 (.declared 2) hform hcurrent' k hk hother
  exact ⟨hschema, hcurrent, ⟨v, hv, a, vs, d, w, m, hrun, hwins, hat, hconstructed⟩, f, hrefused⟩

end ShapeGrammar
