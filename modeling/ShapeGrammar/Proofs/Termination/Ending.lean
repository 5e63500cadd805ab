import ShapeGrammar.Proofs.Machine.Lender
import ShapeGrammar.Proofs.Termination.Describing

/-!
# Computations that end

A computation on the machine ends if it answers, or stops at a repetition of a match that consumes
nothing or at what a function raises that changes values. In either case it keeps to the cursor that
was handed over and leaves a fitting grammar behind. Running out of calls is no such end.

How much input is left at a cursor never grows, and a match that cannot be empty leaves less.

Headlines: `Machine.left`, `Begun`, `Reached`, `Concludes`, `Outcome.Closes`.
-/

namespace ShapeGrammar

open Machine

/-- The faults at which a parse may stop. -/
def Skeletons.Permits (S : Skeletons) (f : Fault) : Prop :=
  (∃ description position, f = .zeroWidth description position) ∨ S.raises f

/-- How many elements are left at a cursor. -/
def Machine.left (m : Machine) (c : CursorId) : Nat :=
  (m.cursor c).source.size - (m.cursor c).position

variable {S : Skeletons} {base : Grammar} {c d : CursorId} {m m1 m2 : Machine}

/-- What is read is one element. -/
theorem position_of_next {v : Value} (h : Act.next c m = .ok (some v) m1)
    (hc : c < m.cursors.size) :
    (m1.cursor c).position = (m.cursor c).position + 1 := by
  cases hnext : (m.cursor c).next? with
  | none => cases (next_of_end hnext).symm.trans h
  | some r =>
    obtain ⟨w, moved⟩ := r
    have hcursors : m1.cursors = m.cursors.set! c moved := by
      cases (next_of_some hnext).symm.trans h
      rfl
    rw [cursor_of_set_self hcursors hc, (Cursor.next?_eq_some hnext).2]

/-- A call has been made on a cursor whose position may be asked for. -/
structure Begun (S : Skeletons) (base : Grammar) (c : CursorId) (m : Machine) : Prop where
  live : c < m.cursors.size
  positioned : (m.cursor c).positioned = true
  fits : Fits S base m.grammar
  pending : m.grammar.pending = []

/-- How far a call has come that was made on `m`. -/
structure Reached (S : Skeletons) (base : Grammar) (c : CursorId) (m m1 : Machine) : Prop where
  lent : Lent c m m1
  onward : Onward S base m.grammar m1.grammar

namespace Reached

theorem refl (h : Begun S base c m) : Reached S base c m m :=
  ⟨.refl h.live, .refl h.fits⟩

theorem trans (h : Reached S base c m m1) (hd : Held c m m1 d) (h' : Reached S base d m1 m2) :
    Reached S base c m m2 :=
  ⟨h.lent.trans hd h'.lent, h.onward.trans h'.onward⟩

theorem onward_cursor (h : Reached S base c m m1) (hd : Held c m m1 d) :
    (m.cursor c).Onward (m1.cursor d) :=
  h.lent.own hd.own hd.lt

/-- A call on a cursor that stands for the one that was handed over. -/
theorem begun (h : Reached S base c m m1) (hc : Begun S base c m) (hd : Held c m m1 d) :
    Begun S base d m1 where
  live := hd.lt
  positioned := by
    obtain ⟨k, -, -, hk⟩ := h.onward_cursor hd
    rw [hk]
    exact hc.positioned
  fits := h.onward.fits
  pending := h.onward.pending.trans hc.pending

theorem left_le (h : Reached S base c m m1) (hd : Held c m m1 d) : m1.left d ≤ m.left c := by
  obtain ⟨k, hle, -, hk⟩ := h.onward_cursor hd
  unfold Machine.left
  rw [hk]
  exact Nat.sub_le_sub_left hle _

/-- What was consumed is not left. -/
theorem left_lt (h : Reached S base c m m1) (hd : Held c m m1 d)
    (hlt : (m.cursor c).position < (m1.cursor d).position) : m1.left d < m.left c := by
  obtain ⟨k, -, hk, heq⟩ := h.onward_cursor hd
  unfold Machine.left
  rw [heq] at hlt ⊢
  rcases hk with hk | rfl
  · simp only at hlt ⊢
    omega
  · exact absurd hlt (Nat.lt_irrefl _)

end Reached

/-! ## The judgment -/

section Judgment

variable {α β : Type} {P : α → Machine → Prop} {Q : β → Machine → Prop}

/-- The computation ends at `m1`, where a call that was made on `m` has come. -/
def Concludes (S : Skeletons) (base : Grammar) (c : CursorId) (m : Machine) (x : Act α)
    (m1 : Machine)
    (P : α → Machine → Prop) : Prop :=
  (∃ a m2, x m1 = .ok a m2 ∧ Reached S base c m m2 ∧ m1.cursors.size ≤ m2.cursors.size ∧ P a m2) ∨
    ∃ f m2, x m1 = .error (.fault f) m2 ∧ Reached S base c m m2 ∧ S.Permits f

namespace Concludes

theorem pure {a : α} (h : Reached S base c m m1) (ha : P a m1) :
    Concludes S base c m (Pure.pure a) m1 P :=
  .inl ⟨a, m1, rfl, h, Nat.le_refl _, ha⟩

/-- A computation that answers and changes nothing. -/
theorem of_ok {x : Act α} {a : α} (h : Reached S base c m m1) (hx : x m1 = .ok a m1) (ha : P a m1) :
    Concludes S base c m x m1 P :=
  .inl ⟨a, m1, hx, h, Nat.le_refl _, ha⟩

theorem fail {f : Fault} (h : Reached S base c m m1) (hf : S.Permits f) :
    Concludes S base c m (Act.fail f) m1 P :=
  .inr ⟨f, m1, rfl, h, hf⟩

theorem bind {x : Act α} {f : α → Act β} (hx : Concludes S base c m x m1 P)
    (hf : ∀ a m2, Reached S base c m m2 → m1.cursors.size ≤ m2.cursors.size → P a m2 →
      Concludes S base c m (f a) m2 Q) : Concludes S base c m (x >>= f) m1 Q := by
  rcases hx with ⟨a, m2, ha, h2, hsize, hP⟩ | ⟨e, m2, he, h2, hperm⟩
  · rcases hf a m2 h2 hsize hP with ⟨b, m3, hb, h3, hsize', hQ⟩ | ⟨e, m3, he, h3, hperm⟩
    · exact .inl ⟨b, m3, (bind_of_ok ha).trans hb, h3, Nat.le_trans hsize hsize', hQ⟩
    · exact .inr ⟨e, m3, (bind_of_ok ha).trans he, h3, hperm⟩
  · exact .inr ⟨e, m2, bind_of_error he, h2, hperm⟩

theorem imp {P' : α → Machine → Prop} {x : Act α} (hx : Concludes S base c m x m1 P)
    (h : ∀ a m2, P a m2 → P' a m2) : Concludes S base c m x m1 P' :=
  hx.imp_left fun ⟨a, m2, ha, h2, hsize, hP⟩ => ⟨a, m2, ha, h2, hsize, h a m2 hP⟩

theorem map {x : Act α} {f : α → β} (hx : Concludes S base c m x m1 fun a m2 => Q (f a) m2) :
    Concludes S base c m (f <$> x) m1 Q := by
  rw [← bind_pure_comp]
  exact hx.bind fun a m2 h2 _ ha => .pure h2 ha

/-- What is done with a held cursor is done with the one that it stands for. -/
theorem of_held {x : Act α} (h : Reached S base c m m1) (hd : Held c m m1 d)
    (hx : Concludes S base d m1 x m1 P) :
    Concludes S base c m x m1 fun a m2 => Reached S base d m1 m2 ∧ P a m2 := by
  rcases hx with ⟨a, m2, ha, h2, hsize, hP⟩ | ⟨e, m2, he, h2, hperm⟩
  · exact .inl ⟨a, m2, ha, h.trans hd h2, hsize, h2, hP⟩
  · exact .inr ⟨e, m2, he, h.trans hd h2, hperm⟩

/-! ### Primitives -/

theorem position (hc : Begun S base c m) (h : Reached S base c m m1) (hd : Held c m m1 d) :
    Concludes S base c m (Act.position d) m1 fun k m2 => m2 = m1 ∧ k = (m1.cursor d).position := by
  refine .of_ok h ?_ ⟨rfl, rfl⟩
  show (if (m1.cursor d).positioned then Pure.pure _ else Act.fail _ : Act Nat) m1 = _
  rw [if_pos (h.begun hc hd).positioned]
  rfl

theorem describe {p : Parser} {x : Skeleton} (h : Reached S base c m m1)
    (hx : HasSkeleton S base m1.grammar (.parser p) x) :
    Concludes S base c m (Act.describe p) m1 fun _ m2 => m2 = m1 := by
  obtain ⟨text, ht⟩ := hx.describe h.onward.fits
  exact .of_ok h (describe_of_ok ht) rfl

theorem construct {target : ClassRef} {vs : List Value} (h : Reached S base c m m1)
    (haccepts : base.Accepts target vs.length) :
    Concludes S base c m (Act.construct target vs) m1 fun _ m2 => m2 = m1 := by
  obtain ⟨v, hv⟩ := haccepts vs rfl
  rw [← h.onward.fits.declared.construct_eq] at hv
  refine .of_ok (a := v) h ?_ rfl
  show Act.lift (m1.grammar.construct target vs) m1 = _
  rw [hv]
  rfl

/-- A report leaves everything else as it is. -/
theorem report {r : Report} (hd : Held c m m1 d) (h : Reached S base c m m1) :
    Concludes S base c m (Act.report r) m1 fun _ _ => True := by
  refine .inl ⟨(), _, rfl, h.trans hd ⟨?_, .report h.onward.fits r⟩, Nat.le_refl _, trivial⟩
  exact .of_cursors_eq hd.lt (.report m1.grammar r) rfl

theorem note {e : Event} (hd : Held c m m1 d) (h : Reached S base c m m1) :
    Concludes S base c m (Act.note e) m1 fun _ m2 => m2.grammar = m1.grammar := by
  refine .inl ⟨(), _, rfl, h.trans hd ⟨?_, .refl h.onward.fits⟩, Nat.le_refl _, rfl⟩
  exact .of_cursors_eq hd.lt (.refl m1.grammar) rfl

/-- What is found out about the grammar. -/
theorem resolve {x : Resolution α} {R : α → Grammar → Prop} (hgrows : x.Grows)
    (hd : Held c m m1 d) (h : Reached S base c m m1)
    (hx : Resolution.Finds S base m1.grammar x R) :
    Concludes S base c m (Act.resolve x) m1 fun a m2 => R a m2.grammar := by
  obtain ⟨a, g, ha, hg, hR⟩ := hx
  have hok : Act.resolve x m1 = .ok a { m1 with grammar := g } := by
    unfold Act.resolve
    rw [ha]
  refine .inl ⟨a, _, hok, h.trans hd ⟨.of_cursors_eq hd.lt ?_ rfl, hg⟩, Nat.le_refl _, hR⟩
  exact ok_precedes hgrows ha

/-- A snapshot is at the place of its original, which stays where it is. -/
theorem snapshot (hd : Held c m m1 d) (h : Reached S base c m m1) :
    Concludes S base c m (Act.snapshot d) m1 fun s m2 =>
      Held c m m2 s ∧ s ≠ d ∧ m2.cursor s = m1.cursor d ∧ m2.cursor d = m1.cursor d ∧
        m2.grammar = m1.grammar := by
  have hlent := (lends_snapshot_held h.lent hd).of_ok rfl
  refine .inl ⟨m1.cursors.size, _, rfl, ⟨hlent.1, h.onward⟩, hlent.2.1, hlent.2.2,
    Nat.ne_of_gt hd.lt, ?_, ?_, rfl⟩
  · exact cursor_of_push_self rfl
  · exact cursor_of_push_of_lt rfl hd.lt

/-- What is read is consumed. -/
theorem next (hd : Held c m m1 d) (h : Reached S base c m m1) :
    Concludes S base c m (Act.next d) m1 fun v m2 => v.isSome → m2.left d < m1.left d := by
  have hlent := lends_next_held h.lent hd
  cases hnext : (m1.cursor d).next? with
  | none => exact .of_ok h (next_of_end hnext) nofun
  | some r =>
    obtain ⟨v, moved⟩ := r
    obtain ⟨h2, hsize, -⟩ := hlent.of_ok (next_of_some hnext)
    refine .inl ⟨some v, _, next_of_some hnext, ⟨h2, h.onward⟩, hsize, fun _ => ?_⟩
    have hown := (lends_next hd.lt).of_ok (next_of_some hnext)
    refine Reached.left_lt ⟨hown.1, .refl h.onward.fits⟩ ⟨.inl rfl, ?_⟩ ?_
    · exact Nat.lt_of_lt_of_le hd.lt hsize
    · rw [position_of_next (next_of_some hnext) hd.lt]
      exact Nat.lt_succ_self _

end Concludes

end Judgment

/-! ## Outcomes -/

/-- The outcome is one of the entry point; a match names a cursor that stands for the one that was
handed over, and leaves less if it cannot be empty. -/
def Outcome.Closes (S : Skeletons) (x : Skeleton) (entry : Entry) (c : CursorId) (m : Machine)
    (o : Outcome) (m' : Machine) : Prop :=
  match o with
  | .matched d _ => Held c m m' d ∧ (S.Nullable x ∨ m'.left d < m.left c)
  | o => o.endsAt entry = true

/-- The same of parts, as many as there are. -/
def Gathered.Closes (S : Skeletons) (x : Skeleton) (n : Nat) (entry : Entry) (c : CursorId)
    (m : Machine) (r : Gathered) (m' : Machine) : Prop :=
  match r with
  | .all d vs => vs.length = n ∧ Held c m m' d ∧ (S.Nullable x ∨ m'.left d < m.left c)
  | .stopped o => o.endsAt entry = true

end ShapeGrammar
