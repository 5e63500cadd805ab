import ShapeGrammar.Run
import ShapeGrammar.Proofs.Resolution.Growth

/-!
# Lending a cursor

A parser that is handed a cursor may move that cursor and those that come into being on the way,
forward and within the same source. Every other cursor stays where it was, and the grammar only
becomes a later state of itself. This holds however the parser ends. A match names the cursor that
was handed over or one that is new.

Headlines: `Machine.Lent`, `Machine.Held`, `Lends`, `Lender`.
-/

namespace ShapeGrammar

/-- The second cursor is the first one moved forward, not past the end. -/
def Cursor.Onward (a b : Cursor) : Prop :=
  ∃ k, a.position ≤ k ∧ (k ≤ a.source.size ∨ k = a.position) ∧ b = { a with position := k }

theorem Cursor.Onward.refl (a : Cursor) : a.Onward a :=
  ⟨a.position, Nat.le_refl _, .inr rfl, rfl⟩

theorem Cursor.Onward.trans {a b c : Cursor} (h : a.Onward b) (h' : b.Onward c) : a.Onward c := by
  obtain ⟨k, hak, hk, rfl⟩ := h
  obtain ⟨l, hkl, hl, rfl⟩ := h'
  refine ⟨l, Nat.le_trans hak hkl, ?_, rfl⟩
  rcases hl with hl | rfl
  · exact .inl hl
  · exact hk

/-- What was moved onward, but not beyond where it stood, has not been moved. -/
theorem Cursor.Onward.eq_of_le {a b : Cursor} (h : a.Onward b) (hle : b.position ≤ a.position) :
    a = b := by
  obtain ⟨k, hk, -, rfl⟩ := h
  obtain rfl : k = a.position := Nat.le_antisymm hle hk
  rfl

/-- Reading moves a cursor forward by one. -/
theorem Cursor.next?_eq_some {a b : Cursor} {v : Value} (h : a.next? = some (v, b)) :
    a.source.get? a.position = some v ∧ b = { a with position := a.position + 1 } := by
  unfold next? peek? at h
  obtain ⟨w, hw, heq⟩ := Option.map_eq_some_iff.mp h
  cases heq
  exact ⟨hw, rfl⟩

theorem Cursor.onward_of_next? {a b : Cursor} {v : Value} (h : a.next? = some (v, b)) :
    a.Onward b := by
  obtain ⟨hv, rfl⟩ := next?_eq_some h
  have hlt : a.position < a.source.elements.size := by
    unfold Source.get? at hv
    obtain ⟨hlt, -⟩ := Array.getElem?_eq_some_iff.mp hv
    exact hlt
  exact ⟨a.position + 1, Nat.le_succ _, .inl hlt, rfl⟩

namespace Machine

/-- A machine with one cursor, at the start of a text. -/
def reading (g : Grammar) (text : String) : Machine :=
  (ofGrammar g).addCursor ⟨.ofText text, 0, true⟩

/-! ## Stores that changed -/

theorem cursor_of_size_le {m : Machine} {c : CursorId} (h : m.cursors.size ≤ c) :
    m.cursor c = default := by
  unfold cursor
  simp [Array.getD_eq_getD_getElem?, h]

theorem cursor_of_push_of_lt {m m' : Machine} {k : Cursor} (h : m'.cursors = m.cursors.push k)
    {c : CursorId} (hc : c < m.cursors.size) : m'.cursor c = m.cursor c := by
  unfold cursor
  simp only [h, Array.getD_eq_getD_getElem?, Array.getElem?_push_lt hc, hc, getElem?_pos]

theorem cursor_of_push_self {m m' : Machine} {k : Cursor} (h : m'.cursors = m.cursors.push k) :
    m'.cursor m.cursors.size = k := by
  unfold cursor
  simp [h, Array.getD_eq_getD_getElem?]

theorem cursor_of_set_self {m m' : Machine} {k : Cursor} {c : CursorId}
    (h : m'.cursors = m.cursors.set! c k) (hc : c < m.cursors.size) : m'.cursor c = k := by
  unfold cursor
  simp [h, Array.getD_eq_getD_getElem?, hc]

theorem cursor_of_set_of_ne {m m' : Machine} {k : Cursor} {c d : CursorId}
    (h : m'.cursors = m.cursors.set! c k) (hne : c ≠ d) : m'.cursor d = m.cursor d := by
  unfold cursor
  simp [h, Array.getD_eq_getD_getElem?, hne]

/-! ## Lent machines -/

/-- What may have become of a machine that was handed over with cursor `c`. -/
structure Lent (c : CursorId) (m m' : Machine) : Prop where
  grammar : m.grammar.Precedes m'.grammar
  size : m.cursors.size ≤ m'.cursors.size
  others : ∀ {d}, d ≠ c → d < m.cursors.size → m'.cursor d = m.cursor d
  own : ∀ {d}, d = c ∨ m.cursors.size ≤ d → d < m'.cursors.size →
    (m.cursor c).Onward (m'.cursor d)

/-- A cursor that may stand for the cursor `c` that was handed over with `m`. -/
structure Held (c : CursorId) (m m' : Machine) (d : CursorId) : Prop where
  own : d = c ∨ m.cursors.size ≤ d
  lt : d < m'.cursors.size

variable {c d : CursorId} {m m1 m2 : Machine}

theorem Lent.refl (hc : c < m.cursors.size) : Lent c m m where
  grammar := .refl _
  size := Nat.le_refl _
  others _ _ := rfl
  own {d} hown hd := by
    rcases hown with rfl | hnew
    · exact .refl _
    · exact absurd hd (Nat.not_lt.mpr hnew)

theorem Held.refl (hc : c < m.cursors.size) : Held c m m c :=
  ⟨.inl rfl, hc⟩

theorem Held.mono (h : Held c m m1 d) (hsize : m1.cursors.size ≤ m2.cursors.size) :
    Held c m m2 d :=
  ⟨h.own, Nat.lt_of_lt_of_le h.lt hsize⟩

/-- What is done with a held cursor is done with the one that it stands for. -/
theorem Lent.trans (h : Lent c m m1) (hd : Held c m m1 d) (h' : Lent d m1 m2) : Lent c m m2 where
  grammar := h.grammar.trans h'.grammar
  size := Nat.le_trans h.size h'.size
  others {e} hne he := by
    have hed : e ≠ d := by
      rintro rfl
      rcases hd.own with rfl | hnew
      · exact hne rfl
      · exact absurd he (Nat.not_lt.mpr hnew)
    rw [h'.others hed (Nat.lt_of_lt_of_le he h.size)]
    exact h.others hne he
  own {e} hown he := by
    by_cases hd' : e = d ∨ m1.cursors.size ≤ e
    · exact (h.own hd.own hd.lt).trans (h'.own hd' he)
    · -- an older cursor that is held, but was not handed on
      have hne : e ≠ d := fun heq => hd' (.inl heq)
      have hlt : e < m1.cursors.size := Nat.lt_of_not_le fun hle => hd' (.inr hle)
      rw [h'.others hne hlt]
      exact h.own hown hlt

theorem Held.trans (h : Lent c m m1) (hd : Held c m m1 d) {e : CursorId} (he : Held d m1 m2 e) :
    Held c m m2 e where
  own := by
    rcases he.own with rfl | hnew
    · exact hd.own
    · exact .inr (Nat.le_trans h.size hnew)
  lt := he.lt

/-- Only the grammar, and the trace, became other ones. -/
theorem Lent.of_cursors_eq (hc : c < m.cursors.size) (hg : m.grammar.Precedes m1.grammar)
    (hcursors : m1.cursors = m.cursors) : Lent c m m1 where
  grammar := hg
  size := Nat.le_of_eq (congrArg Array.size hcursors.symm)
  others _ _ := by
    unfold cursor
    rw [hcursors]
  own {d} hown hd := by
    have heq : m1.cursor d = m.cursor d := by
      unfold cursor
      rw [hcursors]
    rw [heq]
    rw [hcursors] at hd
    exact (Lent.refl hc).own hown hd

/-- The cursor itself was moved forward. -/
theorem Lent.of_set (hc : c < m.cursors.size) {k : Cursor} (hk : (m.cursor c).Onward k)
    (hg : m1.grammar = m.grammar) (hcursors : m1.cursors = m.cursors.set! c k) : Lent c m m1 where
  grammar := hg ▸ .refl _
  size := by simp [hcursors]
  others hne _ := cursor_of_set_of_ne hcursors hne.symm
  own {d} hown hd := by
    rcases hown with rfl | hnew
    · rw [cursor_of_set_self hcursors hc]
      exact hk
    · simp only [hcursors, Array.set!_eq_setIfInBounds, Array.size_setIfInBounds] at hd
      exact absurd hd (Nat.not_lt.mpr hnew)

/-- The cursor was duplicated. -/
theorem Lent.of_push (hc : c < m.cursors.size) (hg : m1.grammar = m.grammar)
    (hcursors : m1.cursors = m.cursors.push (m.cursor c)) : Lent c m m1 where
  grammar := hg ▸ .refl _
  size := by simp [hcursors]
  others _ hd := cursor_of_push_of_lt hcursors hd
  own {d} hown hd := by
    rcases hown with rfl | hnew
    · rw [cursor_of_push_of_lt hcursors hc]
      exact .refl _
    · have heq : d = m.cursors.size := by
        simp only [hcursors, Array.size_push] at hd
        exact Nat.le_antisymm (Nat.lt_succ_iff.mp hd) hnew
      rw [heq, cursor_of_push_self hcursors]
      exact .refl _

end Machine

open Machine

/-! ## Computations on a lent machine -/

section Lends

variable {α β : Type} {c : CursorId} {m m1 : Machine}

/-- A computation that is run at `m1`, with cursor `c` handed over at `m`, keeps to what was handed
over; every answer satisfies `post`. -/
structure Lends (c : CursorId) (m : Machine) (x : Act α) (m1 : Machine)
    (post : α → Machine → Prop) : Prop where
  lent : Lent c m (stateAfter x m1)
  size : m1.cursors.size ≤ (stateAfter x m1).cursors.size
  answer : ∀ {a m2}, x m1 = .ok a m2 → post a m2

/-- What is known where the computation answers. -/
theorem Lends.of_ok {x : Act α} {post : α → Machine → Prop} (h : Lends c m x m1 post) {a : α}
    {m2 : Machine} (hx : x m1 = .ok a m2) :
    Lent c m m2 ∧ m1.cursors.size ≤ m2.cursors.size ∧ post a m2 := by
  have hlent := h.lent
  have hsize := h.size
  rw [stateAfter_of_ok hx] at hlent hsize
  exact ⟨hlent, hsize, h.answer hx⟩

theorem Lends.mono {x : Act α} {post post' : α → Machine → Prop} (h : Lends c m x m1 post)
    (himp : ∀ a m2, post a m2 → post' a m2) : Lends c m x m1 post' :=
  ⟨h.lent, h.size, fun ha => himp _ _ (h.answer ha)⟩

theorem Lends.pure {a : α} {post : α → Machine → Prop} (h : Lent c m m1) (ha : post a m1) :
    Lends c m (Pure.pure a) m1 post :=
  ⟨h, Nat.le_refl _, fun heq => by cases heq; exact ha⟩

theorem Lends.stop {post : α → Machine → Prop} (h : Lent c m m1) (e : Stop) :
    Lends c m (throw e) m1 post :=
  ⟨h, Nat.le_refl _, fun heq => by cases heq⟩

theorem Lends.bind {x : Act α} {f : α → Act β} {post : α → Machine → Prop}
    {post' : β → Machine → Prop} (hx : Lends c m x m1 post)
    (hf : ∀ {a m2}, Lent c m m2 → m1.cursors.size ≤ m2.cursors.size → post a m2 →
      Lends c m (f a) m2 post') : Lends c m (x >>= f) m1 post' := by
  cases h : x m1 with
  | ok a m2 =>
    obtain ⟨hlent, hsize, ha⟩ := hx.of_ok h
    have hrest := hf hlent hsize ha
    have hstate := stateAfter_bind_of_ok (f := f) h
    refine ⟨hstate ▸ hrest.lent, hstate ▸ Nat.le_trans hsize hrest.size, fun hb => ?_⟩
    rw [bind_of_ok h] at hb
    exact hrest.answer hb
  | error e m2 =>
    have hstate : stateAfter (x >>= f) m1 = stateAfter x m1 := by
      rw [stateAfter_of_error h, stateAfter_of_error (bind_of_error h)]
    refine ⟨hstate ▸ hx.lent, hstate ▸ hx.size, fun hb => ?_⟩
    rw [bind_of_error h] at hb
    cases hb

theorem Lends.map {x : Act α} {f : α → β} {post : α → Machine → Prop}
    {post' : β → Machine → Prop} (hx : Lends c m x m1 post)
    (hf : ∀ {a m2}, post a m2 → post' (f a) m2) : Lends c m (f <$> x) m1 post' := by
  rw [← bind_pure_comp]
  exact hx.bind fun hlent _ ha => .pure hlent (hf ha)

/-- What is done with a held cursor is done with the one that it stands for. -/
theorem Lends.of_held {x : Act α} {d : CursorId} {post : α → Machine → Prop} (h : Lent c m m1)
    (hd : Held c m m1 d) (hx : Lends d m1 x m1 post) : Lends c m x m1 post :=
  ⟨h.trans hd hx.lent, hx.size, hx.answer⟩

end Lends

/-! ## Computations that touch no cursor -/

/-- A computation that leaves the cursors alone, and a later state of the grammar behind. -/
def Act.Still {α : Type} (x : Act α) : Prop :=
  ∀ m, m.grammar.Precedes (stateAfter x m).grammar ∧ (stateAfter x m).cursors = m.cursors

section Still

variable {α β : Type}

theorem Act.Still.of_ok {x : Act α} (hx : x.Still) {m m' : Machine} {a : α}
    (h : x m = .ok a m') : m.grammar.Precedes m'.grammar ∧ m'.cursors = m.cursors := by
  have hs := hx m
  rwa [stateAfter_of_ok h] at hs

theorem Act.still_pure (a : α) : Act.Still (pure a : Act α) := fun _ => ⟨.refl _, rfl⟩

theorem Act.still_throw (e : Stop) : Act.Still (throw e : Act α) := fun _ => ⟨.refl _, rfl⟩

theorem Act.Still.bind {x : Act α} {f : α → Act β} (hx : x.Still) (hf : ∀ a, (f a).Still) :
    Act.Still (x >>= f) := fun m =>
  stateAfter_bind_rel
    (R := fun m m' : Machine => m.grammar.Precedes m'.grammar ∧ m'.cursors = m.cursors)
    (fun h h' => ⟨h.1.trans h'.1, h'.2.trans h.2⟩) (hx m) fun a m1 _ => hf a m1

theorem Act.Still.map {x : Act α} (hx : x.Still) (f : α → β) : (f <$> x).Still := fun m => by
  rw [stateAfter_map]
  exact hx m

theorem Act.still_get : Act.Still (get : Act Machine) := fun _ => ⟨.refl _, rfl⟩

theorem Act.still_fail (f : Fault) : Act.Still (Act.fail f : Act α) := Act.still_throw _

theorem Act.still_lift (x : Except Fault α) : (Act.lift x).Still := by
  cases x with
  | ok a => exact still_pure a
  | error f => exact still_fail f

theorem Act.still_liftStop (x : Except Stop α) : (Act.liftStop x).Still := by
  cases x with
  | ok a => exact still_pure a
  | error e => exact still_throw e

theorem Act.still_position (c : CursorId) : (Act.position c).Still := by
  refine still_get.bind fun m => ?_
  dsimp only
  split
  · exact still_pure _
  · exact still_fail _

theorem Act.still_describe (p : Parser) : (Act.describe p).Still :=
  still_get.bind fun _ => still_liftStop _

theorem Act.still_className (target : ClassRef) : (Act.className target).Still :=
  still_get.bind fun _ => still_pure _

theorem Act.still_report (r : Report) : (Act.report r).Still := fun m =>
  ⟨.report m.grammar r, rfl⟩

theorem Act.still_listens (level : LogLevel) : (Act.listens level).Still :=
  still_get.bind fun _ => still_pure _

theorem Act.still_note (e : Event) : (Act.note e).Still := fun _ => ⟨.refl _, rfl⟩

theorem Act.still_construct (target : ClassRef) (arguments : List Value) :
    (Act.construct target arguments).Still :=
  still_get.bind fun _ => still_lift _

theorem Act.still_resolve {x : Resolution α} (hx : x.Grows) : (Act.resolve x).Still := fun m => by
  have hg := hx m.grammar
  unfold stateAfter at hg ⊢
  unfold Act.resolve
  cases h : x m.grammar with
  | ok a g =>
    rw [h] at hg
    exact ⟨hg, rfl⟩
  | error e g =>
    rw [h] at hg
    exact ⟨hg, rfl⟩

theorem still_reportArm (left right : Parser) (c : CursorId) : (reportArm left right c).Still := by
  refine (Act.still_listens _).bind fun listens => ?_
  cases listens with
  | false => exact Act.still_pure ()
  | true =>
    exact (Act.still_describe left).bind fun l => (Act.still_position c).bind fun k =>
      (Act.still_describe right).bind fun r => Act.still_report _

theorem still_reportAttempt (target : ClassRef) (name : String) (c : CursorId) :
    (reportAttempt target name c).Still := by
  refine (Act.still_listens _).bind fun listens => ?_
  cases listens with
  | false => exact Act.still_pure ()
  | true =>
    exact (Act.still_position c).bind fun k => (Act.still_className target).bind fun n =>
      Act.still_report _

theorem still_checkProgress (body : Parser) (start : Nat) (c : CursorId) :
    (checkProgress body start c).Still := by
  refine (Act.still_position c).bind fun stop => ?_
  split
  · exact (Act.still_describe body).bind fun d => Act.still_fail _
  · exact Act.still_pure ()

theorem still_mark (checked : Bool) (c : CursorId) : (mark checked c).Still := by
  cases checked with
  | false => exact Act.still_pure none
  | true => exact (Act.still_position c).map some

theorem still_checkMark (body : Parser) (start : Option Nat) (c : CursorId) :
    (checkMark body start c).Still := by
  cases start with
  | none => exact Act.still_pure ()
  | some start => exact still_checkProgress body start c

end Still

/-! ## What the primitives answer -/

section Answers

variable {α : Type} {m m' : Machine}

theorem lift_eq_ok {x : Except Fault α} {a : α} (h : Act.lift x m = .ok a m') :
    x = .ok a ∧ m' = m := by
  cases x with
  | ok b =>
    cases h
    exact ⟨rfl, rfl⟩
  | error e => cases h

theorem liftStop_eq_ok {x : Except Stop α} {a : α} (h : Act.liftStop x m = .ok a m') :
    x = .ok a ∧ m' = m := by
  cases x with
  | ok b =>
    cases h
    exact ⟨rfl, rfl⟩
  | error e => cases h

theorem construct_eq_ok {target : ClassRef} {vs : List Value} {v : Value}
    (h : Act.construct target vs m = .ok v m') :
    m.grammar.construct target vs = .ok v ∧ m' = m :=
  lift_eq_ok h

theorem describe_eq_ok {p : Parser} {text : String} (h : Act.describe p m = .ok text m') :
    m.grammar.describe p = .ok text ∧ m' = m :=
  liftStop_eq_ok h

theorem describe_of_ok {p : Parser} {text : String}
    (h : m.grammar.describe p = .ok text) : Act.describe p m = .ok text m := by
  show Act.liftStop (m.grammar.describe p) m = _
  rw [h]
  rfl

theorem describe_of_error {p : Parser} {e : Stop}
    (h : m.grammar.describe p = .error e) : Act.describe p m = .error e m := by
  show Act.liftStop (m.grammar.describe p) m = _
  rw [h]
  rfl

theorem position_of_positioned {c : CursorId} (h : (m.cursor c).positioned = true) :
    Act.position c m = .ok (m.cursor c).position m := by
  show (if (m.cursor c).positioned then pure (m.cursor c).position
    else Act.fail (.attribute .position) : Act Nat) m = _
  rw [if_pos h]
  rfl

theorem position_of_positionless {c : CursorId}
    (h : ¬ (m.cursor c).positioned = true) :
    Act.position c m = .error (.fault (.attribute .position)) m := by
  show (if (m.cursor c).positioned then pure (m.cursor c).position
    else Act.fail (.attribute .position) : Act Nat) m = _
  rw [if_neg h]
  rfl

theorem resolve_eq_ok {x : Resolution α} {a : α} (h : Act.resolve x m = .ok a m') :
    x m.grammar = .ok a m'.grammar ∧ m'.cursors = m.cursors := by
  unfold Act.resolve at h
  cases hx : x m.grammar with
  | ok b g =>
    rw [hx] at h
    cases h
    exact ⟨rfl, rfl⟩
  | error e g =>
    rw [hx] at h
    cases h

end Answers

/-! ## The primitives -/

section Primitives

variable {α : Type} {c d : CursorId} {m m1 : Machine}

theorem Lends.still {x : Act α} {post : α → Machine → Prop} (hc : c < m.cursors.size)
    (h : Lent c m m1) (hx : x.Still) (hpost : ∀ {a m2}, x m1 = .ok a m2 → post a m2) :
    Lends c m x m1 post := by
  obtain ⟨hgrammar, hcursors⟩ := hx m1
  have hheld : Held c m m1 c := ⟨.inl rfl, Nat.lt_of_lt_of_le hc h.size⟩
  exact ⟨h.trans hheld (.of_cursors_eq hheld.lt hgrammar hcursors),
    Nat.le_of_eq (congrArg Array.size hcursors.symm), hpost⟩

theorem next_of_end (h : (m.cursor c).next? = none) : Act.next c m = .ok none m := by
  unfold Act.next
  simp only [h]

theorem next_of_some {v : Value} {moved : Cursor} (h : (m.cursor c).next? = some (v, moved)) :
    Act.next c m = .ok (some v)
      { m with
        cursors := m.cursors.set! c moved
        reads := m.reads.push (m.cursor c).position } := by
  unfold Act.next
  simp only [h]

/-- Reading moves the cursor that is read. -/
theorem lends_next (hc : c < m.cursors.size) : Lends c m (Act.next c) m fun _ _ => True := by
  cases h : (m.cursor c).next? with
  | none =>
    have hstate := stateAfter_of_ok (next_of_end h)
    refine ⟨?_, Nat.le_of_eq ?_, fun _ => trivial⟩
    · rw [hstate]
      exact .refl hc
    · rw [hstate]
  | some r =>
    obtain ⟨v, moved⟩ := r
    have hstate := stateAfter_of_ok (next_of_some h)
    refine ⟨?_, ?_, fun _ => trivial⟩
    · rw [hstate]
      exact .of_set hc (Cursor.onward_of_next? h) rfl rfl
    · rw [hstate]
      simp

/-- A snapshot is a new cursor. -/
theorem lends_snapshot (hc : c < m.cursors.size) :
    Lends c m (Act.snapshot c) m fun s m' => Held c m m' s := by
  refine ⟨.of_push hc rfl rfl, ?_, fun h => ?_⟩
  · simp [stateAfter, Act.snapshot]
  · cases h
    exact ⟨.inr (Nat.le_refl _), by simp⟩

end Primitives

end ShapeGrammar
