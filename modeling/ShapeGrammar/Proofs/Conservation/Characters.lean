import ShapeGrammar.Parser
import ShapeGrammar.Proofs.Inhabitation.Stored

/-!
# The characters of a value

What a value stands for in the text it was parsed from: a text its characters, a character itself,
a sequence what its items stand for in order, an instance what its fields stand for in the order of
their declaration. What is there for something that was not found stands for nothing.

A class is constructed from its fields alone if its constructor takes these and no other arguments,
by position; then an instance stands for just what it was constructed from, in order.

Headlines: `Grammar.fieldNames`, `Grammar.characters`, `Grammar.Constructs`,
`Grammar.characters_construct`, `Grammar.constructs_of_fieldsOf`.
-/

namespace ShapeGrammar

namespace Grammar

/-- The fields from which a class is constructed, in order of declaration. -/
def fieldNames (g : Grammar) (c : ClassId) : List String :=
  match g.record? (.declared c) with
  | some r => Table.names (r.fields.filter g.isPlaced)
  | none => []

mutual

/-- The characters that a value stands for. -/
def characters (g : Grammar) : Value → List Char
  | .text s => s.toList
  | .char c => [c]
  | .tuple items => (g.charactersOf items).flatten
  | .list items => (g.charactersOf items).flatten
  | .nonempty first rest => g.characters first ++ (g.charactersOf rest).flatten
  | .left value => g.characters value
  | .right value => g.characters value
  | .record type values =>
    (g.fieldNames type.cls).flatMap fun name =>
      ((type.attributes.zip (g.charactersOf values)).find? (·.1 == name)).elim [] (·.2)
  | .nothing => []
  | .bool _ => []
  | .int _ => []

/-- The characters that each of some values stands for. -/
def charactersOf (g : Grammar) : List Value → List (List Char)
  | [] => []
  | v :: vs => g.characters v :: g.charactersOf vs

end

variable {g : Grammar}

theorem charactersOf_eq_map (vs : List Value) : g.charactersOf vs = vs.map g.characters := by
  induction vs with
  | nil => rfl
  | cons v vs ih => simp [charactersOf, ih]

@[simp]
theorem characters_tuple (vs : List Value) :
    g.characters (.tuple vs) = vs.flatMap g.characters := by
  simp [characters, charactersOf_eq_map, List.flatMap_def]

@[simp]
theorem characters_list (vs : List Value) : g.characters (.list vs) = vs.flatMap g.characters := by
  simp [characters, charactersOf_eq_map, List.flatMap_def]

@[simp]
theorem characters_nonempty (v : Value) (vs : List Value) :
    g.characters (.nonempty v vs) = g.characters v ++ vs.flatMap g.characters := by
  simp [characters, charactersOf_eq_map, List.flatMap_def]

/-- An instance stands for what it holds under the names of its fields. -/
theorem characters_record (type : RecordType) (values : List Value) :
    g.characters (.record type values) = (g.fieldNames type.cls).flatMap fun name =>
      ((Value.record type values).attribute? name).elim [] g.characters := by
  rw [characters, charactersOf_eq_map]
  congr 1
  funext name
  rw [List.zip_map_right, List.find?_map, Value.attribute?]
  show (((type.attributes.zip values).find? (·.1 == name)).map _).elim [] _ = _
  cases (type.attributes.zip values).find? (·.1 == name) <;> rfl

/-- Names and values that agree pairwise agree as a whole. -/
theorem flatMap_of_zip {names : List String} {vs : List Value} {f : String → List Char}
    (hlength : vs.length = names.length) (h : ∀ e ∈ names.zip vs, f e.1 = g.characters e.2) :
    names.flatMap f = vs.flatMap g.characters := by
  calc names.flatMap f = ((names.zip vs).map (·.1)).flatMap f := by
        rw [List.map_fst_zip (Nat.le_of_eq hlength.symm)]
    _ = (names.zip vs).flatMap fun e => f e.1 := List.flatMap_map ..
    _ = (names.zip vs).flatMap fun e => g.characters e.2 := by
        rw [List.flatMap_def, List.flatMap_def, List.map_congr_left h]
    _ = ((names.zip vs).map (·.2)).flatMap g.characters := (List.flatMap_map ..).symm
    _ = vs.flatMap g.characters := by rw [List.map_snd_zip (Nat.le_of_eq hlength)]

/-! ## Construction -/

/-- An attempt constructs a declared class from its fields alone, and has one parser for each. -/
def Constructs (g : Grammar) (a : Attempt Parser) : Prop :=
  ∃ c, a.target = .declared c ∧ a.parsers.length = (g.fieldNames c).length ∧
    (g.record? (.declared c) = none ∨ g.Stores c (g.fieldNames c))

/-- **What an attempt constructs stands for what the fields stand for, in order.** -/
theorem characters_construct {a : Attempt Parser} (ha : g.Constructs a) {vs : List Value}
    (hlength : vs.length = a.parsers.length) {v : Value} (hv : g.construct a.target vs = .ok v) :
    g.characters v = vs.flatMap g.characters := by
  obtain ⟨c, htarget, hcount, hrecord | hstores⟩ := ha
  · have hnames : g.fieldNames c = [] := by
      unfold fieldNames
      rw [hrecord]
    rw [hcount, hnames] at hlength
    obtain rfl := List.length_eq_zero_iff.mp hlength
    rw [htarget] at hv
    unfold Grammar.construct at hv
    rw [constructor?_of_not_record hrecord] at hv
    cases hv
    rw [instanceOf, characters_record, hnames]
    rfl
  · have hplaces : vs.length = (g.fieldNames c).length := hlength.trans hcount
    obtain ⟨type, values, hbuilt, hclass, hstored⟩ := hstores.construct hplaces
    rw [htarget, hbuilt] at hv
    cases hv
    rw [characters_record, hclass]
    refine flatMap_of_zip hplaces fun e he => ?_
    rw [hstored e he]
    rfl

/-- **A class with a schema is constructed from its fields alone** if its constructor was not left
behind. -/
theorem constructs_of_fieldsOf {a : Attempt Parser} {c : ClassId} (htarget : a.target = .declared c)
    (hcurrent : g.Current (.declared c)) {location : String} {fs : List SchemaField}
    (hfs : g.fieldsOf (.declared c) location = .ok fs) (hlength : a.parsers.length = fs.length) :
    g.Constructs a := by
  cases hr : g.record? (.declared c) with
  | none =>
    obtain rfl := fieldsOf_of_not_record hfs hr
    refine ⟨c, htarget, ?_, .inl hr⟩
    unfold fieldNames
    rw [hr]
    exact hlength
  | some r =>
    obtain ⟨⟨shapes, -, hschema⟩, -⟩ := fieldsOf_eq_ok hfs hr
    have hnames : fs.map (·.name) = g.fieldNames c := by
      unfold fieldNames
      rw [hr]
      exact (schemaFields_names hschema).1
    refine ⟨c, htarget, ?_, .inr ?_⟩
    · rw [← hnames, List.length_map]
      exact hlength
    · rw [← hnames]
      exact fieldsOf_stores hcurrent hfs hr

end Grammar

end ShapeGrammar
