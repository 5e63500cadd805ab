import ShapeGrammar.Proofs.Inhabitation.Stored

/-!
# Classes that become records

The fields of a record have different names, since a name that is declared again keeps its place.
The constructor is written from the fields as they are then. So a class is up to date at the moment
it becomes a record; only what is declared later can leave its constructor behind.

Headlines: `Table.nodup_putAll`, `Grammar.makeRecord_current`.
-/

namespace ShapeGrammar

namespace Table

variable {α : Type}

theorem names_put_of_not_mem {t : Table α} {name : String} (v : α) (h : name ∉ names t) :
    names (put t name v) = names t ++ [name] := by
  induction t with
  | nil => rfl
  | cons e t ih =>
    obtain ⟨k, w⟩ := e
    simp only [names, List.map_cons, List.mem_cons, not_or] at h
    have hk : ¬ k = name := fun heq => h.1 heq.symm
    simp only [put, hk, if_false, names, List.map_cons, List.cons_append]
    exact congrArg _ (ih h.2)

theorem nodup_put {t : Table α} (h : (names t).Nodup) (name : String) (v : α) :
    (names (put t name v)).Nodup := by
  by_cases hmem : name ∈ names t
  · rwa [names_put_of_mem t v hmem]
  · rw [names_put_of_not_mem v hmem]
    refine List.nodup_append.mpr ⟨h, List.nodup_singleton _, fun n hn m hm heq => ?_⟩
    rw [List.mem_singleton] at hm
    exact hmem (hm ▸ heq ▸ hn)

theorem nodup_putAll {t : Table α} (h : (names t).Nodup) (u : Table α) :
    (names (putAll t u)).Nodup := by
  unfold putAll
  induction u generalizing t with
  | nil => exact h
  | cons e u ih => exact ih (nodup_put h e.1 e.2)

end Table

namespace Grammar

theorem inheritedFields_nodup (g : Grammar) (c : ClassId) :
    (Table.names (g.inheritedFields c)).Nodup := by
  unfold inheritedFields
  generalize (g.classInfo c).ancestry.tail.reverse = ancestors
  have hnil : (Table.names ([] : Table FieldId)).Nodup := List.nodup_nil
  revert hnil
  generalize ([] : Table FieldId) = found
  intro hfound
  induction ancestors generalizing found with
  | nil => exact hfound
  | cons a rest ih =>
    rw [List.foldl_cons]
    cases g.record? a with
    | none => exact ih _ hfound
    | some r => exact ih _ (Table.nodup_putAll hfound r.fields)

theorem record_updateClass {g : Grammar} {c : ClassId} (hc : c < g.classes.size)
    (r : Option RecordLayout) :
    ((g.updateClass c fun i => { i with record := r }).classInfo c).record = r := by
  rw [classInfo_updateClass, if_pos ⟨rfl, hc⟩]

theorem liftStop_eq_ok {α : Type} {x : Except Stop α} {g g' : Grammar} {a : α}
    (h : Resolution.liftStop x g = .ok a g') : g' = g := by
  cases x with
  | ok b =>
    cases h
    rfl
  | error e => cases h

/-- **A class is up to date when it becomes a record.** -/
theorem makeRecord_current {g g' : Grammar} {c : ClassId} {byName : Bool} {u : Unit}
    {ancestors : List ClassRef} (hc : c < g'.classes.size)
    (hself : g'.ancestry (.declared c) = .declared c :: ancestors)
    (h : makeRecord c byName g = .ok u g') : g'.Current (.declared c) := by
  have hown : ∀ {r : RecordLayout} {k : Constructor}, (g'.classInfo c).record = some r →
      r.constructor = some k → g'.record? (.declared c) = some r ∧
        g'.constructor? (.declared c) = some k := by
    intro r k hr hk
    unfold Grammar.record? constructor?
    rw [hself]
    simp [hr, hk]
  unfold makeRecord at h
  replace h := get_bind_eq_ok_iff.mp h
  obtain ⟨own, g1, -, h⟩ := bind_eq_ok_iff.mp h
  obtain ⟨_, g2, -, h⟩ := bind_eq_ok_iff.mp h
  replace h := get_bind_eq_ok_iff.mp h
  split at h
  · obtain ⟨_, _, hfail, -⟩ := bind_eq_ok_iff.mp h
    cases hfail
  · replace h := get_bind_eq_ok_iff.mp h
    obtain ⟨_, g5, hcollected, h⟩ := bind_eq_ok_iff.mp h
    cases hcollected
    replace h := get_bind_eq_ok_iff.mp h
    split at h
    · replace h := get_bind_eq_ok_iff.mp h
      obtain ⟨_, g8, hbuilt, h⟩ := bind_eq_ok_iff.mp h
      cases hbuilt
      replace h := get_bind_eq_ok_iff.mp h
      obtain rfl : g' = _ := by
        split at h
        · exact liftStop_eq_ok h
        · cases h
          rfl
      obtain ⟨hrecord, hconstructor⟩ :=
        hown (record_updateClass (by simpa [updateClass] using hc) _) rfl
      rintro r hr
      cases hrecord.symm.trans hr
      exact ⟨Table.nodup_putAll (inheritedFields_nodup _ c) own, _, hconstructor, rfl⟩
    · cases h

end Grammar

end ShapeGrammar
