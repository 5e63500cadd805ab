import Mathlib.Data.List.Nodup
import ShapeGrammar.Proofs.Grammar.Construct
import ShapeGrammar.Proofs.Grammar.Precedence
import ShapeGrammar.Proofs.Inhabitation.Shapes

/-!
# Values put in their places

A constructor is written when its class becomes a record, and stays as it was written. The entries
of the fields can change later, because one entry may serve several classes. A class is up to date
if its constructor was not left behind: it still takes what the fields of the class are declared as.
Then, if the class has a schema, it puts each value under the name of its field.

Headlines: `Grammar.Current`, `Grammar.UpToDate`, `Grammar.fieldsOf_stores`,
`Grammar.construct_of_fieldsOf`, `Grammar.schemaOf_eq_ok`.
-/

namespace ShapeGrammar

/-- What decides where the arguments of a constructor go: the names of the parameters, what each is
for, and whether it is taken by name only. -/
def signature (ps : Table Parameter) : List (String × FieldRole × Bool) :=
  ps.map fun e => (e.1, e.2.role, e.2.keywordOnly)

namespace Grammar

/-- The constructor of a class, its own or an inherited one, takes what the fields of the class are
declared as. -/
def Current (g : Grammar) (c : ClassRef) : Prop :=
  ∀ r ∈ g.record? c, (Table.names r.fields).Nodup ∧ ∃ k ∈ g.constructor? c,
    signature k.parameters = signature (g.parametersOf r.fields)

/-- All forms of a class are up to date. -/
def CurrentForms (g : Grammar) (a : Shape) : Prop :=
  ∀ c schema, a = .cls (.declared c) → g.schemaOf (.declared c) = .ok schema →
    ∀ form ∈ schema.forms, g.Current form.1

/-- A shape leads to no class whose constructor was left behind by the fields. -/
def UpToDate (g : Grammar) : Shape → Prop :=
  g.Throughout g.CurrentForms

/-- Whether the constructor takes a field at all. -/
def isTaken (g : Grammar) (e : String × FieldId) : Bool :=
  (g.fieldEntry e.2).role != .shared && (g.fieldEntry e.2).inConstructor

/-- Whether a field of an instance takes an argument. -/
def isPlaced (g : Grammar) (e : String × FieldId) : Bool :=
  (g.fieldEntry e.2).role == .field && (g.fieldEntry e.2).inConstructor

variable {g : Grammar}

theorem SameDeclarations.current {g' : Grammar} (h : g.SameDeclarations g') {c : ClassRef}
    (hc : g.Current c) : g'.Current c := by
  intro r hr
  rw [h.record?_eq] at hr
  rw [h.constructor?_eq]
  obtain ⟨hnodup, k, hk, hsignature⟩ := hc r hr
  refine ⟨hnodup, k, hk, ?_⟩
  unfold parametersOf at hsignature ⊢
  simpa only [h.fieldEntry_eq] using hsignature

theorem Persists.upToDate {g' : Grammar} (h : g.Persists g') {a : Shape} (ha : g.UpToDate a) :
    g'.UpToDate a := by
  intro b hb c schema hc hschema form hform
  rw [h.schemaOf_eq] at hschema
  exact h.current (h.throughout ha b hb c schema hc hschema form hform)

/-- Without a record among the ancestors there is no constructor. -/
theorem constructor?_of_not_record {c : ClassRef} (h : g.record? c = none) :
    g.constructor? c = none := by
  unfold constructor? Grammar.record? at *
  rw [List.findSome?_eq_none_iff] at h ⊢
  intro a ha
  have hrecord := h a ha
  cases a with
  | declared d =>
    dsimp only at hrecord ⊢
    rw [hrecord]
    rfl
  | character _ => rfl
  | builtin _ => rfl

/-! ## Fields and parameters -/

/-- The fields of a schema are those that are placed, and none of them goes by name only. -/
theorem schemaFields_names {name location : String} {shapes : Table Shape} :
    ∀ {fids : Table FieldId} {fs : List SchemaField},
      g.schemaFields name location shapes fids = .ok fs →
        fs.map (·.name) = Table.names (fids.filter g.isPlaced) ∧
          ∀ e ∈ fids, g.isPlaced e = true → (g.fieldEntry e.2).keywordOnly.getD false = false
  | [], fs, h => by
    cases h
    exact ⟨rfl, fun e he => by cases he⟩
  | e :: fids, fs, h => by
    unfold schemaFields at h
    by_cases hplaced : g.isPlaced e = true
    · have hnot : ((g.fieldEntry e.2).role != .field || !(g.fieldEntry e.2).inConstructor) =
          false := by
        simpa [isPlaced] using hplaced
      simp only [hnot, Bool.false_eq_true, if_false] at h
      split at h
      · cases h
      · rename_i hkeyword
        obtain ⟨rest, hrest, h⟩ := except_bind_eq_ok_iff.mp h
        cases h
        obtain ⟨hnames, hothers⟩ := schemaFields_names hrest
        refine ⟨?_, fun e' he' hplaced' => ?_⟩
        · simp [hplaced, Table.names, hnames]
        · rcases List.mem_cons.mp he' with rfl | he'
          · simpa using hkeyword
          · exact hothers e' he' hplaced'
    · have hskip : ((g.fieldEntry e.2).role != .field || !(g.fieldEntry e.2).inConstructor) =
          true := by
        simpa [isPlaced, Classical.or_iff_not_imp_left] using hplaced
      simp only [hskip, if_true] at h
      obtain ⟨hnames, hothers⟩ := schemaFields_names h
      refine ⟨?_, fun e' he' hplaced' => ?_⟩
      · rw [List.filter_cons_of_neg hplaced]
        exact hnames
      · rcases List.mem_cons.mp he' with rfl | he'
        · exact absurd hplaced' hplaced
        · exact hothers e' he' hplaced'

theorem isTaken_of_isPlaced {e : String × FieldId} (h : g.isPlaced e = true) :
    g.isTaken e = true := by
  unfold isPlaced at h
  unfold isTaken
  rw [Bool.and_eq_true, beq_iff_eq] at h
  simp [h.1, h.2]

/-- The parameters of a constructor are the fields that it takes. -/
theorem signature_parametersOf (fids : Table FieldId) :
    signature (g.parametersOf fids) = (fids.filter g.isTaken).map fun e =>
      (e.1, (g.fieldEntry e.2).role, (g.fieldEntry e.2).keywordOnly.getD false) := by
  induction fids with
  | nil => rfl
  | cons e fids ih =>
    unfold parametersOf at ih ⊢
    rw [List.filterMap_cons]
    by_cases htaken : g.isTaken e = true
    · rw [List.filter_cons_of_pos htaken]
      unfold isTaken at htaken
      simp only [htaken, if_true]
      exact congrArg _ ih
    · rw [List.filter_cons_of_neg htaken]
      unfold isTaken at htaken
      simp only [htaken, Bool.false_eq_true, if_false]
      exact ih

theorem names_signature (ps : Table Parameter) : (signature ps).map (·.1) = Table.names ps := by
  simp [signature, Table.names, Function.comp_def]

theorem names_of_signature {ps : Table Parameter} {names : List String}
    (h : signature ps = names.map fun n => (n, .field, false)) :
    Table.names ps = names ∧ ∀ e ∈ ps, e.2.role = .field ∧ e.2.keywordOnly = false := by
  constructor
  · rw [← names_signature, h]
    simp [Function.comp_def]
  · intro e he
    have hmem : (e.1, e.2.role, e.2.keywordOnly) ∈ signature ps := List.mem_map.mpr ⟨e, he, rfl⟩
    rw [h] at hmem
    obtain ⟨n, -, hn⟩ := List.mem_map.mp hmem
    simp only [Prod.mk.injEq] at hn
    exact ⟨hn.2.1.symm, hn.2.2.symm⟩

/-! ## Schemas -/

/-- What is behind the fields of a class with a record. -/
theorem fieldsOf_eq_ok {c : ClassRef} {location : String} {fs : List SchemaField}
    (h : g.fieldsOf c location = .ok fs) {r : RecordLayout} (hr : g.record? c = some r) :
    (∃ shapes, g.shapesOf c = .ok shapes ∧
        g.schemaFields (g.className c) location shapes r.fields = .ok fs) ∧
      g.extraParameters c fs = [] := by
  unfold fieldsOf at h
  rw [hr] at h
  dsimp only at h
  split at h
  · cases h
  · cases h
  · rename_i shapes hshapes
    cases hfs : g.schemaFields (g.className c) location shapes r.fields with
    | error f =>
      rw [hfs] at h
      cases h
    | ok fields =>
      rw [hfs] at h
      dsimp only at h
      cases hextra : g.extraParameters c fields with
      | nil =>
        rw [hextra] at h
        cases h
        exact ⟨⟨shapes, hshapes, hfs⟩, hextra⟩
      | cons n ns =>
        rw [hextra] at h
        cases h

/-- Nothing is taken by a constructor but what is found in a schema. -/
theorem mem_of_extraParameters {c : ClassRef} {fs : List SchemaField} {k : Constructor}
    (hk : g.constructor? c = some k) (h : g.extraParameters c fs = []) {e : String × Parameter}
    (he : e ∈ k.parameters) : e.1 ∈ fs.map (·.name) := by
  unfold extraParameters at h
  rw [hk] at h
  have hmem : e.1 ∈ Table.names (positional k.parameters ++ keywordOnly k.parameters) := by
    refine List.mem_map.mpr ⟨e, List.mem_append.mpr ?_, rfl⟩
    cases hkeyword : e.2.keywordOnly with
    | false => exact .inl (List.mem_filter.mpr ⟨he, by simp [hkeyword]⟩)
    | true => exact .inr (List.mem_filter.mpr ⟨he, hkeyword⟩)
  have hfound := List.filter_eq_nil_iff.mp h e.1 hmem
  simpa using hfound

/-- **A class with a schema puts its arguments where the schema says.** -/
theorem fieldsOf_stores {c : ClassId} (h : g.Current (.declared c)) {location : String}
    {fs : List SchemaField} (hfs : g.fieldsOf (.declared c) location = .ok fs) {r : RecordLayout}
    (hr : g.record? (.declared c) = some r) : g.Stores c (fs.map (·.name)) := by
  obtain ⟨hnodup, k, hconstructor, hsignature⟩ := h r hr
  obtain ⟨⟨shapes, -, hschema⟩, hextra⟩ := fieldsOf_eq_ok hfs hr
  obtain ⟨hnames, hkeyword⟩ := schemaFields_names hschema
  -- What the constructor takes is a field of the schema, and names occur once, so it is placed.
  have hplaced : ∀ e ∈ r.fields, g.isTaken e = true → g.isPlaced e = true := by
    intro e he htaken
    have hparameter : e.1 ∈ Table.names k.parameters := by
      rw [← names_signature, hsignature, signature_parametersOf, List.map_map]
      exact List.mem_map.mpr ⟨e, List.mem_filter.mpr ⟨he, htaken⟩, rfl⟩
    obtain ⟨e', he', hname⟩ := List.mem_map.mp hparameter
    have hfield := mem_of_extraParameters hconstructor hextra he'
    rw [hname, hnames] at hfield
    obtain ⟨e2, he2, hname2⟩ := List.mem_map.mp hfield
    obtain ⟨hmem2, hplaced2⟩ := List.mem_filter.mp he2
    obtain rfl := List.inj_on_of_nodup_map hnodup hmem2 he hname2
    exact hplaced2
  have hfilter : r.fields.filter g.isTaken = r.fields.filter g.isPlaced :=
    List.filter_congr fun e he => Bool.eq_iff_iff.mpr ⟨hplaced e he, isTaken_of_isPlaced⟩
  have hsame : signature k.parameters = (fs.map (·.name)).map fun n => (n, .field, false) := by
    rw [hsignature, signature_parametersOf, hfilter, hnames]
    unfold Table.names
    rw [List.map_map]
    refine List.map_congr_left fun e he => ?_
    obtain ⟨hmem, hisPlaced⟩ := List.mem_filter.mp he
    have hrole := (Bool.and_eq_true_iff.mp hisPlaced).1
    rw [Function.comp_apply, hkeyword e hmem hisPlaced, beq_iff_eq.mp hrole]
  obtain ⟨hparameters, hroles⟩ := names_of_signature hsame
  have hpositional : positional k.parameters = k.parameters :=
    List.filter_eq_self.mpr fun e he => by simp [(hroles e he).2]
  have hkeywordOnly : keywordOnly k.parameters = [] :=
    List.filter_eq_nil_iff.mpr fun e he => by simp [(hroles e he).2]
  refine ⟨?_, ⟨k, hconstructor, ?_, hkeywordOnly, ?_⟩, r, hr, fun n hn => ?_⟩
  · rw [hnames]
    exact hnodup.sublist (List.filter_sublist.map _)
  · rw [hpositional]
    exact hparameters
  · rw [hpositional]
    exact fun e he => (hroles e he).1
  · rw [hnames] at hn
    obtain ⟨e, he, rfl⟩ := List.mem_map.mp hn
    obtain ⟨hmem, hisPlaced⟩ := List.mem_filter.mp he
    refine List.mem_map.mpr ⟨e, List.mem_filter.mpr ⟨hmem, ?_⟩, rfl⟩
    unfold isPlaced at hisPlaced
    exact (Bool.and_eq_true_iff.mp hisPlaced).1

/-- A class without a record has no fields. -/
theorem fieldsOf_of_not_record {c : ClassRef} {location : String} {fs : List SchemaField}
    (h : g.fieldsOf c location = .ok fs) (hr : g.record? c = none) : fs = [] := by
  unfold fieldsOf at h
  rw [hr] at h
  dsimp only at h
  split at h
  · cases h
    rfl
  · cases h

/-- **What is constructed is of the class, and holds each argument under the name of its field.** -/
theorem construct_of_fieldsOf {target : ClassRef} (h : g.Current target) {location : String}
    {fs : List SchemaField} (hfs : g.fieldsOf target location = .ok fs) {vs : List Value}
    (hlength : vs.length = fs.length) {v : Value} (hv : g.construct target vs = .ok v) :
    classOf? v = some target ∧ ∀ e ∈ (fs.map (·.name)).zip vs, v.attribute? e.1 = some e.2 := by
  cases hr : g.record? target with
  | some r =>
    cases target with
    | declared c =>
      have hcount : vs.length = (fs.map (·.name)).length := by rw [hlength, List.length_map]
      obtain ⟨type, values, hbuilt, rfl, hstored⟩ := (fieldsOf_stores h hfs hr).construct hcount
      cases hbuilt.symm.trans hv
      exact ⟨rfl, hstored⟩
    | character _ => cases hr
    | builtin _ => cases hr
  | none =>
    obtain rfl := fieldsOf_of_not_record hfs hr
    obtain rfl := List.length_eq_zero_iff.mp hlength
    refine ⟨?_, fun e he => by cases he⟩
    cases target with
    | declared c =>
      unfold Grammar.construct at hv
      rw [constructor?_of_not_record hr] at hv
      cases hv
      rfl
    | character _ =>
      cases hv
      rfl
    | builtin b => cases b <;> cases hv <;> rfl

/-! ## Forms of a class -/

theorem reachable_subset {vs : List Variant} {v : Variant} (h : v ∈ (reachable vs).1) : v ∈ vs := by
  induction vs with
  | nil => exact h
  | cons w vs ih =>
    unfold reachable at h
    split at h
    · rw [List.mem_singleton] at h
      exact h ▸ List.mem_cons_self
    · rcases List.mem_cons.mp h with rfl | h
      · exact List.mem_cons_self
      · exact List.mem_cons_of_mem w (ih h)

/-- A sum has the classes nested in it for variants, with their fields; any other class is a product
of its own fields. -/
theorem schemaOf_eq_ok {c : ClassRef} {schema : Schema} (h : g.schemaOf c = .ok schema) :
    (∃ variants, schema = .sum c variants ∧ g.isSum c = true ∧ ∀ v ∈ variants,
      (v.name, v.target) ∈ g.variantClasses c ∧
        g.fieldsOf v.target (g.location c) = .ok v.fields) ∨
    ∃ fields, schema = .product c fields ∧ g.fieldsOf c (g.location c) = .ok fields := by
  unfold schemaOf at h
  dsimp only at h
  split at h
  · rename_i hsum
    obtain ⟨variants, hvariants, h⟩ := except_bind_eq_ok_iff.mp h
    split at h
    · cases h
    · cases h
      refine .inl ⟨variants, rfl, hsum, fun v hv => ?_⟩
      obtain ⟨e, he, hfound⟩ := exists_of_mapM_eq_ok hvariants v hv
      obtain ⟨fields, hfields, hfound⟩ := except_bind_eq_ok_iff.mp hfound
      cases hfound
      exact ⟨he, hfields⟩
  · obtain ⟨fields, hfields, h⟩ := except_bind_eq_ok_iff.mp h
    cases h
    exact .inr ⟨fields, rfl, hfields⟩

/-- Every form is a class with its fields. -/
theorem fieldsOf_form {c : ClassRef} {schema : Schema} (h : g.schemaOf c = .ok schema)
    {form : ClassRef × List SchemaField} (hform : form ∈ schema.forms) :
    g.fieldsOf form.1 (g.location c) = .ok form.2 := by
  obtain ⟨variants, rfl, -, hvariants⟩ | ⟨fields, rfl, hfields⟩ := schemaOf_eq_ok h
  · obtain ⟨v, hv, rfl⟩ := List.mem_map.mp hform
    exact (hvariants v (reachable_subset hv)).2
  · cases List.mem_singleton.mp hform
    exact hfields

end Grammar

end ShapeGrammar
