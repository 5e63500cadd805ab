import ShapeGrammar.Proofs.Grouping.Regrouped

/-!
# Alternatives, grouped to the left or to the right

Of three alternatives, the first two or the last two may be a choice of their own. If the first two
are, they are tried inside of a fallible call, on a snapshot of a snapshot; if the last two are, the
second one is tried on a snapshot of its own. Either way each alternative is called at the same
entry point and at the same place, after the ones before it have missed, and what it leaves behind
is the same. Only the tags of the values tell the grouping.

Headlines: `Value.Retagged`, `alternatives_regrouped`.
-/

namespace ShapeGrammar

open Machine

/-- The value of an alternative, tagged in the choice that is grouped to the left and in the one
that is grouped to the right. -/
inductive Value.Retagged : Value → Value → Prop
  | first (v : Value) : Retagged (.left (.left v)) (.left v)
  | second (v : Value) : Retagged (.left (.right v)) (.right (.left v))
  | third (v : Value) : Retagged (.right v) (.right (.right v))

/-! ## A choice, taken apart -/

/-- What a choice does after its left arm has missed. -/
def tryRight (call : Entry → Parser → CursorId → Act Outcome) (entry : Entry) (left right : Parser)
    (c : CursorId) : Act Outcome := do
  reportArm left right c
  (·.mapValue .right) <$> call entry right c

/-- What a choice does after its left arm. -/
def afterLeft (call : Entry → Parser → CursorId → Act Outcome) (entry : Entry) (left right : Parser)
    (c : CursorId) : Outcome → Act Outcome
  | .matched d v => pure (.matched d (.left v))
  | _ => tryRight call entry left right c

/-- A choice tries its left arm on a snapshot. -/
theorem run_either_bind (R : Resolver) (n : Nat) (entry : Entry) (left right : Parser)
    (c : CursorId) : run R (n + 1) entry (.either left right) c =
      Act.snapshot c >>= fun s => run R n .fallible left s >>=
        afterLeft (run R n) entry left right c :=
  rfl

section Alternatives

variable {c : CursorId} {began m m' : Machine} {short short' : Prop}

/-! ## What is described -/

/-- The second of three arms is described if the last two can be. -/
theorem said_nested (g : Grammar) (p q r : Parser) :
    SaidAlike (∀ text, g.describe (.either p (.either q r)) ≠ .ok text) (g.describe q)
      (g.describe (.either q r)) := by
  cases hq : g.describe q with
  | error e =>
    rw [describe_either g q r, hq]
    exact .stopped e
  | ok text =>
    cases hr : g.describe (.either q r) with
    | ok text' => exact .said text text'
    | error e =>
      refine .right (unsaid_of_right fun text htext => ?_) _ e
      cases hr.symm.trans htext

/-- The first two of three arms are described if the first one can be and the second one is. -/
theorem said_second (g : Grammar) (p q r : Parser) :
    SaidAlike (∀ text, g.describe (.either p (.either q r)) ≠ .ok text)
      (g.describe (.either p q)) (g.describe q) := by
  rw [describe_either g p q]
  cases hp : g.describe p with
  | error e => exact .left (unsaid_of_left hp) e _
  | ok text =>
    cases hq : g.describe q with
    | error e => exact .stopped e
    | ok text' => exact .said _ text'

/-! ## The alternatives, from the last one to the first one -/

/-- The third alternative is called on the cursor itself. -/
theorem third_regrouped (k n n' : Nat) (p q r : Parser) (entry : Entry) (h : began.Agrees m m')
    (hc : c < began.cursors.size)
    (hshort : n < n' → short) (hshort' : n' < n → short') :
    Meets began.Agrees short short' (began.Speechless (.either p (.either q r)))
      (Outcome.Regrouped Value.Retagged c began)
      (tryRight (run (resolver k) n) entry (.either p q) r c m)
      (((·.mapValue .right) <$> tryRight (run (resolver k) n') entry q r c) m') := by
  unfold tryRight
  rw [map_bind]
  refine (h.reportArms (h.cursor hc) (said_second _ p q r) (.refl _ _)).bind ?_
  rintro _ _ m1 m1' - - ⟨h1, -, -⟩
  have hc1 := Nat.lt_of_lt_of_le hc h1.size
  have hc1' := Nat.lt_of_lt_of_le hc h1.size'
  have hcall := h1.call hc1 hc1' k n n' entry r (h1.cursor hc) (.inl rfl) hshort hshort'
    (began.Speechless (.either p (.either q r)))
  rw [Functor.map_map]
  refine hcall.map ?_
  rintro o o' m2 m2' - - ⟨ho, hrun, hlent, hlent'⟩
  have h2 := h1.called hc1 hc1' (.inl rfl) hrun hlent hlent'
  cases ho with
  | matched handle v => exact .matched (.third v) (hrun.cursor handle) (handle.eq_iff .own) h2
  | missed => exact .missed h2
  | failed e => exact .failed e h2

/-- The second alternative is called on a snapshot that was taken before, or on one that is taken
now. -/
theorem second_regrouped (k n n' : Nat) (p q r : Parser) (entry : Entry) {s : CursorId}
    (h : began.Agrees m m') (hc : c < began.cursors.size)
    (hs : s < m.cursors.size) (hnew : began.cursors.size ≤ s) (hplace : m'.cursor c = m.cursor s)
    (hshort : n ≤ n' → short) (hshort' : n' ≤ n → short') :
    Meets began.Agrees short short' (began.Speechless (.either p (.either q r)))
      (Outcome.Regrouped Value.Retagged c began)
      ((tryRight (run (resolver k) n) .fallible p q s >>=
        afterLeft (run (resolver k) (n + 1)) entry (.either p q) r c) m)
      (tryRight (run (resolver k) (n' + 1)) entry p (.either q r) c m') := by
  unfold tryRight
  rw [bind_assoc]
  refine (h.reportArms hplace (.refl _ _) (said_nested _ p q r)).bind ?_
  rintro _ _ m1 m1' - - ⟨h1, hcursors, hcursors'⟩
  have h2 := h1.snapshot' c
  rw [run_either_bind, map_bind, bind_of_ok (snapshot_eq_duplicated m1' c), map_bind,
    ← bind_pure_comp, bind_assoc]
  -- both cursors stand at the place of `c`
  have hplace2 : (m1'.duplicated c).cursor m1'.cursors.size = m1.cursor s := by
    rw [cursor_duplicated_self]
    unfold cursor at hplace ⊢
    rw [hcursors, hcursors', hplace]
  have hs1 : s < m1.cursors.size := by rwa [hcursors]
  refine (h2.call hs1 (by simp) k n n' .fallible q hplace2 (.inr ⟨hnew, h1.size'⟩)
    (fun hlt => hshort (Nat.le_of_lt hlt)) (fun hlt => hshort' (Nat.le_of_lt hlt)) _).bind ?_
  rintro o o' m3 m3' - - ⟨ho, hrun, hlent, hlent'⟩
  have h3 := h2.called hs1 (by simp) (.inr ⟨hnew, h1.size'⟩) hrun hlent hlent'
  have hthird := third_regrouped k (n + 1) n' p q r entry h3 hc
    (fun hlt => hshort (by omega)) fun hlt => hshort' (by omega)
  cases ho with
  | matched handle v =>
    have hfresh := handle.lt_of_lt (Nat.lt_of_lt_of_le hc hnew) (Nat.lt_of_lt_of_le hc h1.size')
    exact .answered (.fresh (.second v) (hrun.cursor handle) hfresh h3)
  | missed => exact hthird
  | failed e => exact hthird

/-- **It makes no difference how three alternatives are grouped**, but for the tags. -/
theorem alternatives_regrouped (k n n' : Nat) (p q r : Parser) (entry : Entry)
    (hc : c < m.cursors.size) :
    Meets m.Agrees (n ≤ n') (n' ≤ n) (m.Speechless (.either p (.either q r)))
      (Outcome.Regrouped Value.Retagged c m)
      (run (resolver k) n entry (.either (.either p q) r) c m)
      (run (resolver k) n' entry (.either p (.either q r)) c m) := by
  match n, n' with
  | 0, n' => exact .starved (Nat.zero_le _) _ _
  | n + 1, 0 => exact .starved' (Nat.zero_le _) _ _
  | 1, n' + 1 => exact .starved (by omega) _ _
  | n + 2, 1 => exact .starved' (by omega) _ _
  | n + 2, n' + 2 =>
    rw [run_either_bind, bind_of_ok (snapshot_eq_duplicated m c), run_either_bind, bind_assoc,
      bind_of_ok (snapshot_eq_duplicated _ _), bind_assoc, run_either_bind,
      bind_of_ok (snapshot_eq_duplicated m c)]
    -- the first one is tried on a snapshot of a snapshot, or on a snapshot
    have h2 := (((Agrees.refl m).snapshot c).snapshot m.cursors.size).snapshot' c
    have hsize1 := m.size_duplicated c
    have hsize2 := (m.duplicated c).size_duplicated m.cursors.size
    have hlt' : m.cursors.size < (m.duplicated c).cursors.size := by omega
    have hlt : (m.duplicated c).cursors.size <
        ((m.duplicated c).duplicated m.cursors.size).cursors.size := by omega
    have hplace := (cursor_duplicated_self (m.duplicated c) m.cursors.size).symm
    have hnew : (m.duplicated c).cursors.size = m.cursors.size ∨
      m.cursors.size ≤ (m.duplicated c).cursors.size ∧ m.cursors.size ≤ m.cursors.size := by omega
    refine (h2.call hlt hlt' k n (n' + 1) .fallible p hplace hnew (by omega) (by omega) _).bind ?_
    rintro o o' m3 m3' - - ⟨ho, hrun, hlent, hlent'⟩
    have h3 := h2.called hlt hlt' hnew hrun hlent hlent'
    -- the snapshot that the second one is tried on was not touched
    have hrest : m3'.cursor c = m3.cursor m.cursors.size := by
      rw [hlent'.others (Nat.ne_of_lt hc) (Nat.lt_trans hc hlt'),
        hlent.others (Nat.ne_of_lt hlt') (Nat.lt_trans hlt' hlt), cursor_duplicated_of_lt _ _ hlt',
        cursor_duplicated_self, cursor_duplicated_of_lt _ _ hc]
    have hsize3 : m.cursors.size < m3.cursors.size :=
      Nat.lt_of_lt_of_le (Nat.lt_trans hlt' hlt) hlent.size
    have hsecond : Meets m.Agrees (n + 2 ≤ n' + 2) (n' + 2 ≤ n + 2) _ _ _ _ :=
      second_regrouped k n n' p q r entry h3 hc hsize3 (Nat.le_refl _) hrest (by omega) (by omega)
    cases ho with
    | matched handle v =>
      exact .answered (.fresh (.first v) (hrun.cursor handle)
        (handle.lt_of_lt (Nat.lt_trans hc hlt') hc) h3)
    | missed => exact hsecond
    | failed e => exact hsecond

end Alternatives

end ShapeGrammar
