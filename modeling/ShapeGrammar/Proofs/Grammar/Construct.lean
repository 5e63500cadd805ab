import ShapeGrammar.Proofs.Computation
import ShapeGrammar.Resolve

/-!
# Construction by position

What an instance holds of the arguments that its class was called with. Where every parameter that
is taken by position is a field, and there is one argument for each of them, the constructor binds
each name to its argument, and the instance shows under the name what was bound to it.

Headlines: `Grammar.Stores`, `Grammar.Stores.construct`, `Grammar.Stores.construct_exactly`.
-/

namespace ShapeGrammar

/-! ## Tables -/

theorem Table.get?_of_mem {α : Type} {t : Table α} (hnodup : (Table.names t).Nodup) {name : String}
    {v : α} (h : (name, v) ∈ t) : t.get? name = some v := by
  induction t with
  | nil => cases h
  | cons e t ih =>
    obtain ⟨hfirst, hrest⟩ := List.nodup_cons.mp hnodup
    obtain ⟨k, w⟩ := e
    rcases List.mem_cons.mp h with heq | hlater
    · cases heq
      simp [Table.get?]
    · have hmem : name ∈ Table.names t := List.mem_map.mpr ⟨_, hlater, rfl⟩
      have hne : k ≠ name := fun heq => hfirst (heq ▸ hmem)
      simpa [Table.get?, hne] using ih hrest hlater

theorem Table.names_zip {α : Type} {names : List String} {vs : List α}
    (hlength : vs.length = names.length) : Table.names (names.zip vs) = names :=
  List.map_fst_zip (Nat.le_of_eq hlength.symm)

/-! ## Attributes -/

/-- What an instance holds under a name. -/
def Value.attribute? : Value → String → Option Value
  | .record type values, name => ((type.attributes.zip values).find? (·.1 == name)).map (·.2)
  | _, _ => none

/-- Among pairs that all agree with one assignment, a name that occurs has the value assigned. -/
theorem find?_of_agrees {pairs : List (String × Value)} {f : String → Option Value}
    (hagrees : ∀ e ∈ pairs, f e.1 = some e.2) {name : String} (hmem : name ∈ pairs.map (·.1)) :
    (pairs.find? (·.1 == name)).map (·.2) = f name := by
  cases hfound : pairs.find? (·.1 == name) with
  | none =>
    obtain ⟨e, he, rfl⟩ := List.mem_map.mp hmem
    exact absurd (List.find?_eq_none.mp hfound e he) (by simp)
  | some e =>
    have hname : e.1 = name := by simpa using List.find?_some hfound
    rw [← hname, hagrees e (List.mem_of_find?_eq_some hfound)]
    rfl

namespace Grammar

/-! ## Binding arguments -/

/-- Arguments for parameters that are all fields are bound to their names. -/
theorem bindParameters_fields {ps : Table Parameter} (hfields : ∀ e ∈ ps, e.2.role = .field)
    {vs : List Value} (hlength : vs.length = ps.length) :
    bindParameters ps vs = .ok ((Table.names ps).zip vs) := by
  induction ps generalizing vs with
  | nil =>
    cases List.length_eq_zero_iff.mp hlength
    rfl
  | cons e ps ih =>
    obtain ⟨name, f⟩ := e
    cases vs with
    | nil => cases hlength
    | cons v vs =>
      have hrest := ih (fun e he => hfields e (List.mem_cons_of_mem _ he)) (Nat.succ.inj hlength)
      have hfield : f.role = .field := hfields _ List.mem_cons_self
      show (bindParameters ps vs >>= fun bound => _) = _
      rw [hrest]
      show Except.ok _ = _
      simp [hfield, Table.names]

/-- The constructor of a class takes just these fields, in order and by position, and an instance
shows them. -/
structure Stores (g : Grammar) (c : ClassId) (names : List String) : Prop where
  nodup : names.Nodup
  constructor : ∃ k, g.constructor? (.declared c) = some k ∧
    Table.names (positional k.parameters) = names ∧ keywordOnly k.parameters = [] ∧
      ∀ e ∈ positional k.parameters, e.2.role = .field
  record : ∃ r, g.record? (.declared c) = some r ∧ ∀ n ∈ names, n ∈ g.instanceFields r.fields

section Stores

variable {g : Grammar} {c : ClassId} {names : List String} {vs : List Value}

theorem Stores.construct_eq (h : g.Stores c names) (hlength : vs.length = names.length) :
    g.construct (.declared c) vs = .ok (g.instanceOf c (names.zip vs)) := by
  obtain ⟨k, hk, hnames, hkeyword, hfields⟩ := h.constructor
  have hcount : vs.length = (positional k.parameters).length := by
    rw [hlength, ← hnames]
    exact List.length_map _
  have hplaced := bindParameters_fields hfields hcount
  unfold construct
  dsimp only
  rw [hk]
  show (bindParameters (positional k.parameters) vs >>= fun placed => _) = _
  rw [hplaced, hnames]
  show (bindParameters (keywordOnly k.parameters) [] >>= fun named => _) = _
  rw [hkeyword]
  show Except.ok (g.instanceOf c (names.zip vs ++ [])) = _
  rw [List.append_nil]

/-- The value of a field is the argument in its place. -/
theorem Stores.fieldValue?_eq (h : g.Stores c names) (hlength : vs.length = names.length)
    {e : String × Value} (he : e ∈ names.zip vs) :
    g.fieldValue? (.declared c) (names.zip vs) e.1 = some e.2 := by
  have hnodup : (Table.names (names.zip vs)).Nodup := by
    rw [Table.names_zip hlength]
    exact h.nodup
  unfold fieldValue?
  rw [Table.get?_of_mem hnodup he]

/-- Names that all have a value, each with the value that it has. -/
theorem filterMap_fieldValue? {bound : Table Value} :
    ∀ {t : Table Value}, (∀ e ∈ t, g.fieldValue? (.declared c) bound e.1 = some e.2) →
      ((Table.names t).filterMap fun n =>
        (g.fieldValue? (.declared c) bound n).map fun v => (n, v)) = t
  | [], _ => rfl
  | e :: t, h => by
    have hrest := filterMap_fieldValue? fun e' he' => h e' (List.mem_cons_of_mem _ he')
    simp only [Table.names, List.map_cons, List.filterMap_cons, h e List.mem_cons_self,
      Option.map_some]
    exact congrArg _ hrest

theorem mem_present {bound : Table Value} {names : List String} {e : String × Value} :
    e ∈ (names.filterMap fun n => (g.fieldValue? (.declared c) bound n).map fun v => (n, v)) ↔
      e.1 ∈ names ∧ g.fieldValue? (.declared c) bound e.1 = some e.2 := by
  simp only [List.mem_filterMap, Option.map_eq_some_iff]
  constructor
  · rintro ⟨n, hn, v, hv, rfl⟩
    exact ⟨hn, hv⟩
  · rintro ⟨hn, hv⟩
    exact ⟨e.1, hn, e.2, hv, rfl⟩

/-- A field with a value is shown, among the parts or behind them. -/
theorem mem_shown {bound : Table Value} {fields : List String} (parts : List String) {name : String}
    {v : Value} (hname : name ∈ fields)
    (hvalue : g.fieldValue? (.declared c) bound name = some v) :
    name ∈
      ((parts.filterMap fun n => (g.fieldValue? (.declared c) bound n).map fun v => (n, v)) ++
        (fields.filterMap fun n => (g.fieldValue? (.declared c) bound n).map fun v => (n, v)).filter
          fun e => !parts.contains e.1).map (·.1) := by
  refine List.mem_map.mpr ⟨(name, v), List.mem_append.mpr ?_, rfl⟩
  by_cases hpart : name ∈ parts
  · exact .inl (mem_present.mpr ⟨hpart, hvalue⟩)
  · refine .inr (List.mem_filter.mpr ⟨mem_present.mpr ⟨hname, hvalue⟩, ?_⟩)
    simpa using hpart

/-- An instance shows every field of its class that has a value, with that value. -/
theorem instanceOf_attribute? {bound : Table Value} {r : RecordLayout}
    (hr : g.record? (.declared c) = some r) {name : String} {v : Value}
    (hname : name ∈ g.instanceFields r.fields)
    (hvalue : g.fieldValue? (.declared c) bound name = some v) :
    (g.instanceOf c bound).attribute? name = some v := by
  unfold instanceOf Value.attribute?
  dsimp only
  rw [hr, ← List.zip_of_prod rfl rfl, find?_of_agrees (f := g.fieldValue? (.declared c) bound),
    hvalue]
  · rintro e he
    rcases List.mem_append.mp he with hpart | hfield
    · exact (mem_present.mp hpart).2
    · exact (mem_present.mp (List.mem_filter.mp hfield).1).2
  · exact mem_shown _ hname hvalue

/-- **The instance holds every argument under the name of its field.** -/
theorem Stores.construct (h : g.Stores c names) (hlength : vs.length = names.length) :
    ∃ type values, g.construct (.declared c) vs = .ok (.record type values) ∧ type.cls = c ∧
      ∀ e ∈ names.zip vs, (Value.record type values).attribute? e.1 = some e.2 := by
  obtain ⟨r, hr, hshown⟩ := h.record
  refine ⟨_, _, h.construct_eq hlength, rfl, fun e he => ?_⟩
  exact instanceOf_attribute? hr (hshown _ (List.of_mem_zip he).1) (h.fieldValue?_eq hlength he)

end Stores

/-- The constructor of a class takes just these fields, which are the parts of an instance and all
that it shows. -/
def storesExactly (g : Grammar) (c : ClassId) (names : List String) : Bool :=
  decide names.Nodup &&
    match g.constructor? (.declared c), g.record? (.declared c) with
    | some k, some r =>
      Table.names (positional k.parameters) == names && (keywordOnly k.parameters).isEmpty &&
        (positional k.parameters).all (·.2.role == .field) && k.parts == names &&
          g.instanceFields r.fields == names
    | _, _ => false

/-- What such an instance knows about its class. -/
def exactType (g : Grammar) (c : ClassId) (names : List String) : RecordType where
  cls := c
  name := (g.classInfo c).qualifiedName
  attributes := names
  parts := names.length
  fields := names
  partly := false
  comparable := true

/-- **The instance is its arguments in order.** -/
theorem construct_of_storesExactly {g : Grammar} {c : ClassId} {names : List String}
    {vs : List Value} (h : g.storesExactly c names = true) (hlength : vs.length = names.length) :
    g.construct (.declared c) vs = .ok (.record (g.exactType c names) vs) := by
  unfold storesExactly at h
  cases hk : g.constructor? (.declared c) with
  | none => simp [hk] at h
  | some k =>
    cases hr : g.record? (.declared c) with
    | none => simp [hk, hr] at h
    | some r =>
      simp only [hk, hr, Bool.and_eq_true, decide_eq_true_eq, beq_iff_eq, List.isEmpty_iff,
        List.all_eq_true] at h
      obtain ⟨hnodup, ⟨⟨⟨hnames, hkeyword⟩, hfields⟩, hparts⟩, hinstance⟩ := h
      have hstores : g.Stores c names :=
        ⟨hnodup, ⟨k, hk, hnames, hkeyword, hfields⟩, r, hr, fun n hn => hinstance ▸ hn⟩
      rw [hstores.construct_eq hlength]
      have hpresent := filterMap_fieldValue? fun e he => hstores.fieldValue?_eq hlength (e := e) he
      rw [Table.names_zip hlength] at hpresent
      have hfilter : (names.zip vs).filter (fun e => !names.contains e.1) = [] := by
        refine List.filter_eq_nil_iff.mpr fun e he => ?_
        simp [(List.of_mem_zip he).1]
      unfold instanceOf
      simp only [hk, hr, hparts, hinstance, hpresent, hfilter, List.append_nil]
      have hcount : (names.zip vs).length = names.length := by simp [hlength]
      have hvalues : (names.zip vs).map (·.2) = vs := List.map_snd_zip (Nat.le_of_eq hlength)
      have hlabels : (names.zip vs).map (·.1) = names := Table.names_zip hlength
      rw [hvalues, hlabels, hcount]
      simp [exactType]

end Grammar

end ShapeGrammar
