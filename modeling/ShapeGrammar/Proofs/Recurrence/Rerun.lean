import ShapeGrammar.Proofs.Machine.Invariant
import ShapeGrammar.Proofs.Resolution.Again

/-!
# Cursors of a second run

A parser is called once, and later again on another cursor at the same place. Both runs number the
cursors that come into being on the way, so the cursors of the second run are those of the first
under other numbers: what was handed over there is handed over here, and the new ones come in the
same order. `Rerun` says which number stands for which, and two machines mirror each other where
cursors that stand for each other are at the same place.

Headlines: `Rerun`, `Mirrors`, `Mirrors.ofCalls`, `Again`, `Redone`.
-/

namespace ShapeGrammar

open Machine

/-! ## Numbers that stand for each other -/

/-- A parser that is run for a second time. -/
structure Rerun where
  /-- The cursor that was handed over, and how many there were. -/
  own : Nat
  base : Nat
  /-- The same in the second run. -/
  own' : Nat
  base' : Nat
  lt : own < base
  lt' : own' < base'
  /-- The parser that is run. -/
  root : Parser
  /-- The grammar at the end of the first run. -/
  ended : Grammar
  /-- The grammar at the beginning of the second run. -/
  began : Grammar

namespace Rerun

/-- The number of a cursor in the second run. -/
def image (R : Rerun) (c : Nat) : Nat :=
  if c = R.own then R.own' else R.base' + (c - R.base)

/-- The cursor was handed over or came into being on the way. -/
def Holds (R : Rerun) (c : Nat) : Prop :=
  c = R.own ∨ R.base ≤ c

variable {R : Rerun} {c d : Nat}

theorem image_own (R : Rerun) : R.image R.own = R.own' :=
  if_pos rfl

theorem image_of_le (hc : R.base ≤ c) : R.image c = R.base' + (c - R.base) :=
  if_neg (Nat.ne_of_gt (Nat.lt_of_lt_of_le R.lt hc))

theorem image_injective (hc : R.Holds c) (hd : R.Holds d) (h : R.image c = R.image d) : c = d := by
  have hlt := R.lt'
  rcases hc with rfl | hc <;> rcases hd with rfl | hd
  · rfl
  · rw [image_own, image_of_le hd] at h
    omega
  · rw [image_own, image_of_le hc] at h
    omega
  · rw [image_of_le hc, image_of_le hd] at h
    omega

end Rerun

/-! ## Machines -/

/-- The second run has found nothing out since it began; it can only have told something. -/
def Rerun.Retold (R : Rerun) (m : Machine) : Prop :=
  ∃ reports, m.grammar = R.began.withReports reports

/-- Cursors that stand for each other are at the same place, and the second run has found nothing
out. -/
structure Mirrors (R : Rerun) (m m' : Machine) : Prop where
  base : R.base ≤ m.cursors.size
  size : m'.cursors.size = R.base' + (m.cursors.size - R.base)
  cursor : ∀ {c}, R.Holds c → m'.cursor (R.image c) = m.cursor c
  retold : R.Retold m'

namespace Mirrors

variable {R : Rerun} {m m1 m' m1' : Machine} {c : Nat}

/-- Where two calls begin, on cursors at the same place. -/
theorem ofCalls {c' : Nat} (hc : c < m.cursors.size) (hc' : c' < m'.cursors.size)
    (hplace : m'.cursor c' = m.cursor c) (p : Parser) (g : Grammar) :
    Mirrors ⟨c, m.cursors.size, c', m'.cursors.size, hc, hc', p, g, m'.grammar⟩ m m' where
  base := Nat.le_refl _
  size := by simp
  cursor {d} hd := by
    rcases hd with rfl | hd
    · rw [Rerun.image_own]
      exact hplace
    · have hd' : m'.cursors.size ≤ m'.cursors.size + (d - m.cursors.size) := Nat.le_add_right _ _
      rw [Rerun.image_of_le hd, cursor_of_size_le hd, cursor_of_size_le hd']
  retold := ⟨m'.grammar.reports, rfl⟩

/-- The second run has gone on from the grammar it began with. -/
theorem later (h : Mirrors R m m') : R.began.Precedes m'.grammar := by
  obtain ⟨reports, hreports⟩ := h.retold
  exact hreports ▸ .withReports R.began reports

/-- Only grammars and traces became other ones. -/
theorem still (h : Mirrors R m m') (hcursors : m1.cursors = m.cursors)
    (hcursors' : m1'.cursors = m'.cursors)
    (hg : ∃ reports, m1'.grammar = m'.grammar.withReports reports) :
    Mirrors R m1 m1' where
  base := hcursors ▸ h.base
  size := by rw [hcursors, hcursors', h.size]
  cursor {d} hd := by
    unfold Machine.cursor
    rw [hcursors, hcursors']
    exact h.cursor hd
  retold := by
    obtain ⟨reports, hreports⟩ := h.retold
    obtain ⟨reports', hreports'⟩ := hg
    exact ⟨reports', by rw [hreports', hreports]; rfl⟩

theorem next? (h : Mirrors R m m') (hc : R.Holds c) :
    (m'.cursor (R.image c)).next? = (m.cursor c).next? := by
  rw [h.cursor hc]

/-- A cursor exists in the second run where it does in the first. -/
theorem image_lt_iff (h : Mirrors R m m') (hc : R.Holds c) :
    R.image c < m'.cursors.size ↔ c < m.cursors.size := by
  have hbase := h.base
  have hlt := R.lt
  have hlt' := R.lt'
  rw [h.size]
  rcases hc with rfl | hc
  · rw [R.image_own]
    omega
  · rw [R.image_of_le hc]
    omega

/-- The next cursor that comes into being. -/
theorem image_size (h : Mirrors R m m') : R.image m.cursors.size = m'.cursors.size := by
  rw [R.image_of_le h.base, h.size]

/-- A cursor was moved in both runs. -/
theorem set {moved : Cursor} (h : Mirrors R m m') (hc : R.Holds c)
    (hcursors : m1.cursors = m.cursors.set! c moved)
    (hcursors' : m1'.cursors = m'.cursors.set! (R.image c) moved)
    (hg : m1'.grammar = m'.grammar) : Mirrors R m1 m1' where
  base := by simpa [hcursors] using h.base
  size := by simp [hcursors, hcursors', h.size]
  cursor {d} hd := by
    by_cases hcd : c = d
    · subst hcd
      by_cases hlt : c < m.cursors.size
      · rw [cursor_of_set_self hcursors hlt,
          cursor_of_set_self hcursors' ((h.image_lt_iff hc).mpr hlt)]
      · have hlt' := mt (h.image_lt_iff hc).mp hlt
        rw [cursor_of_size_le (by simpa [hcursors'] using hlt'),
          cursor_of_size_le (by simpa [hcursors] using hlt)]
    · have hne : R.image c ≠ R.image d := fun heq => hcd (Rerun.image_injective hc hd heq)
      rw [cursor_of_set_of_ne hcursors hcd, cursor_of_set_of_ne hcursors' hne]
      exact h.cursor hd
  retold := by
    unfold Rerun.Retold
    exact hg ▸ h.retold

/-- A cursor was duplicated in both runs. -/
theorem push (h : Mirrors R m m') (hc : R.Holds c)
    (hcursors : m1.cursors = m.cursors.push (m.cursor c))
    (hcursors' : m1'.cursors = m'.cursors.push (m'.cursor (R.image c)))
    (hg : m1'.grammar = m'.grammar) : Mirrors R m1 m1' where
  base := by
    rw [hcursors, Array.size_push]
    exact Nat.le_succ_of_le h.base
  size := by
    have hbase := h.base
    rw [hcursors, hcursors', Array.size_push, Array.size_push, h.size]
    omega
  cursor {d} hd := by
    rcases Nat.lt_trichotomy d m.cursors.size with hlt | rfl | hlt
    · rw [cursor_of_push_of_lt hcursors hlt,
        cursor_of_push_of_lt hcursors' ((h.image_lt_iff hd).mpr hlt), h.cursor hd]
    · rw [h.image_size, cursor_of_push_self hcursors, cursor_of_push_self hcursors', h.cursor hc]
    · have hle : R.base ≤ d := Nat.le_trans h.base (Nat.le_of_lt hlt)
      have hlt' : m'.cursors.size < R.image d := by
        have hbase := h.base
        rw [R.image_of_le hle, h.size]
        omega
      have hle' : m1'.cursors.size ≤ R.image d := by
        rw [hcursors', Array.size_push]
        exact hlt'
      have hle : m1.cursors.size ≤ d := by
        rw [hcursors, Array.size_push]
        exact hlt
      rw [cursor_of_size_le hle', cursor_of_size_le hle]
  retold := by
    unfold Rerun.Retold
    exact hg ▸ h.retold

end Mirrors

/-! ## Computations that are made again -/

/-- The computation answers as `R` says, or it stops where something has no description. -/
def Again {α : Type} (x : Act α) (m : Machine) (R : α → Machine → Prop) : Prop :=
  (∃ a m', x m = .ok a m' ∧ R a m') ∨
    ∃ e m' p, x m = .error e m' ∧ m'.grammar.describe p = .error e

section Again

variable {α β : Type} {x : Act α} {f : α → Act β} {m m' : Machine} {R S : α → Machine → Prop}

theorem Again.congr {y : Act α} (h : Again x m R) (hxy : x m = y m) : Again y m R := by
  unfold Again at h ⊢
  rwa [← hxy]

theorem Again.bind {Q : β → Machine → Prop} (hx : Again x m R)
    (hf : ∀ {a m'}, R a m' → Again (f a) m' Q) : Again (x >>= f) m Q := by
  obtain ⟨a, m1, hx, ha⟩ | ⟨e, m1, p, hx, hp⟩ := hx
  · obtain ⟨b, m2, hb, hQ⟩ | ⟨e, m2, p, he, hp⟩ := hf ha
    · exact .inl ⟨b, m2, by rw [bind_of_ok hx, hb], hQ⟩
    · exact .inr ⟨e, m2, p, by rw [bind_of_ok hx, he], hp⟩
  · exact .inr ⟨e, m1, p, bind_of_error hx, hp⟩

theorem lift_bind_eq_ok_iff {x : Except Fault α} {b : β} :
    (Act.lift x >>= f) m = .ok b m' ↔ ∃ a, x = .ok a ∧ f a m = .ok b m' := by
  cases x with
  | ok a =>
    constructor
    · intro h
      exact ⟨a, rfl, h⟩
    · rintro ⟨_, heq, h⟩
      cases heq
      exact h
  | error e =>
    constructor
    · intro h
      cases h
    · rintro ⟨_, heq, -⟩
      cases heq

end Again

/-! ## What a second run does again -/

/-- The computation answers as `S` says, or it stops where a part of what is run has no description;
until then it has found nothing out. -/
def Redone (R : Rerun) {α : Type} (x : Act α) (m : Machine) (S : α → Machine → Prop) : Prop :=
  (∃ a m', x m = .ok a m' ∧ S a m') ∨
    ∃ e m' p, x m = .error e m' ∧ m'.grammar.describe p = .error e ∧ R.ended.Leads R.root p ∧
      R.Retold m'

section Redone

variable {R : Rerun} {α β : Type} {x : Act α} {f : α → Act β} {m m' : Machine}
  {S : α → Machine → Prop} {Q : β → Machine → Prop}

theorem Redone.again (h : Redone R x m S) : Again x m S := by
  obtain h | ⟨e, m', p, hx, hp, -⟩ := h
  · exact .inl h
  · exact .inr ⟨e, m', p, hx, hp⟩

theorem redone_of_ok {a : α} (h : x m = .ok a m') (hS : S a m') : Redone R x m S :=
  .inl ⟨a, m', h, hS⟩

theorem Redone.bind (hx : Redone R x m S) (hf : ∀ {a m'}, S a m' → Redone R (f a) m' Q) :
    Redone R (x >>= f) m Q := by
  obtain ⟨a, m1, hx, ha⟩ | ⟨e, m1, p, hx, hp⟩ := hx
  · obtain ⟨b, m2, hb, hQ⟩ | ⟨e, m2, p, he, hp⟩ := hf ha
    · exact .inl ⟨b, m2, by rw [bind_of_ok hx, hb], hQ⟩
    · exact .inr ⟨e, m2, p, by rw [bind_of_ok hx, he], hp⟩
  · exact .inr ⟨e, m1, p, bind_of_error hx, hp⟩

/-- To go on from an answer that is there. -/
theorem redone_bind_of_ok {a : α} (hx : x m = .ok a m') (hf : Redone R (f a) m' Q) :
    Redone R (x >>= f) m Q := by
  refine Redone.bind (S := fun b m1 => b = a ∧ m1 = m') (redone_of_ok hx ⟨rfl, rfl⟩) ?_
  rintro b m1 ⟨rfl, rfl⟩
  exact hf

/-- To go on from what is looked up. -/
theorem redone_lift_bind {x : Except Fault α} {a : α} (hx : x = .ok a)
    (hf : Redone R (f a) m Q) : Redone R (Act.lift x >>= f) m Q := by
  subst hx
  exact hf

theorem Redone.map {f : α → β} (hx : Redone R x m S) (hf : ∀ {a m'}, S a m' → Q (f a) m') :
    Redone R (f <$> x) m Q := by
  rw [← bind_pure_comp]
  exact hx.bind fun ha => redone_of_ok rfl (hf ha)

/-- A part of what is run is described anew. -/
theorem redone_describe {p : Parser} (hp : R.ended.Leads R.root p) (hm : R.Retold m) :
    Redone R (Act.describe p) m fun text m' => m' = m ∧ m.grammar.describe p = .ok text := by
  cases h : m.grammar.describe p with
  | ok text => exact redone_of_ok (describe_of_ok h) ⟨rfl, rfl⟩
  | error e => exact .inr ⟨e, m, p, describe_of_error h, h, hp, hm⟩

end Redone

/-! ## The primitives -/

section Primitives

variable {α : Type} {R : Rerun} {m m1 m' : Machine} {c : Nat}

/-- What is read in the first run is read in the second. -/
theorem next_again {v : Option Value} (h : Mirrors R m m') (hc : R.Holds c)
    (hnext : Act.next c m = .ok v m1) :
    ∃ m1', Act.next (R.image c) m' = .ok v m1' ∧ Mirrors R m1 m1' := by
  have hplace := h.next? hc
  cases hread : (m.cursor c).next? with
  | none =>
    rw [next_of_end hread] at hnext
    cases hnext
    exact ⟨m', next_of_end (hplace.trans hread), h⟩
  | some r =>
    obtain ⟨w, moved⟩ := r
    rw [next_of_some hread] at hnext
    cases hnext
    exact ⟨_, next_of_some (hplace.trans hread), h.set hc rfl rfl rfl⟩

theorem snapshot_again {s : Nat} (h : Mirrors R m m') (hc : R.Holds c)
    (hs : Act.snapshot c m = .ok s m1) :
    ∃ m1', Act.snapshot (R.image c) m' = .ok (R.image s) m1' ∧ Mirrors R m1 m1' ∧ R.Holds s := by
  cases hs
  rw [h.image_size]
  exact ⟨_, rfl, h.push hc rfl rfl rfl, .inr h.base⟩

theorem position_again {i : Nat} (h : Mirrors R m m') (hc : R.Holds c)
    (hi : Act.position c m = .ok i m1) : m1 = m ∧ Act.position (R.image c) m' = .ok i m' := by
  have hi' : (if (m.cursor c).positioned then pure (m.cursor c).position
    else Act.fail (.attribute .position) : Act Nat) m = .ok i m1 := hi
  show _ ∧ (if (m'.cursor (R.image c)).positioned then pure (m'.cursor (R.image c)).position
    else Act.fail (.attribute .position) : Act Nat) m' = .ok i m'
  rw [h.cursor hc]
  split at hi'
  · rename_i hpositioned
    cases hi'
    exact ⟨rfl, if_pos hpositioned ▸ rfl⟩
  · cases hi'

end Primitives

end ShapeGrammar
