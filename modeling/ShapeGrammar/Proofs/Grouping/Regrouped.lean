import ShapeGrammar.Proofs.Composition.Counterpart
import ShapeGrammar.Proofs.Machine.Renumbering

/-!
# What two groupings leave behind

Two runs begin on one machine, at one cursor, and take snapshots at different times. The cursors
that come into being then have different numbers, and there may be one more of them in one of the
runs. All that a caller can tell is the same: what was found out, read and noted, where the cursors
stand that there were before, and where the cursor behind a match stands.

A choice describes its arms where it reports a miss, and of arms grouped differently other parts are
described. So where someone listens to misses, and some part has no description, one of the runs may
stop for that.

Headlines: `Machine.Agrees`, `Outcome.Regrouped`, `Machine.Agrees.call`,
`Machine.Agrees.reportArms`.
-/

namespace ShapeGrammar

open Machine

/-! ## Snapshots -/

namespace Machine

/-- The machine after a snapshot of a cursor. -/
def duplicated (m : Machine) (c : CursorId) : Machine :=
  { m with cursors := m.cursors.push (m.cursor c), snapshots := m.snapshots + 1 }

variable (m : Machine) (c : CursorId)

theorem snapshot_eq_duplicated : Act.snapshot c m = .ok m.cursors.size (m.duplicated c) :=
  rfl

@[simp]
theorem size_duplicated : (m.duplicated c).cursors.size = m.cursors.size + 1 :=
  Array.size_push _

theorem cursor_duplicated_self : (m.duplicated c).cursor m.cursors.size = m.cursor c :=
  cursor_of_push_self rfl

theorem cursor_duplicated_of_lt {d : CursorId} (h : d < m.cursors.size) :
    (m.duplicated c).cursor d = m.cursor d :=
  cursor_of_push_of_lt rfl h

end Machine

/-! ## What is left behind -/

/-- Two runs that began on one machine have left behind what their caller cannot tell apart. -/
structure Machine.Agrees (began m m' : Machine) : Prop where
  later : began.grammar.Precedes m.grammar
  size : began.cursors.size ≤ m.cursors.size
  size' : began.cursors.size ≤ m'.cursors.size
  /-- Every cursor that there was stands at the same place. -/
  cursor : ∀ {d}, d < began.cursors.size → m'.cursor d = m.cursor d
  findings : m.SameFindings m'
  reads : m'.reads = m.reads
  events : m'.events = m.events

/-- The same outcome, but for the values of matches. The cursors behind a match stand at the same
place, and both are the one that was handed over, or none of them is. -/
inductive Outcome.Regrouped (V : Value → Value → Prop) (c : CursorId) (began : Machine) :
    Outcome → Outcome → Machine → Machine → Prop
  | matched {d d' v v' m m'} (value : V v v') (place : m'.cursor d' = m.cursor d)
    (own : d = c ↔ d' = c) (agrees : began.Agrees m m') :
    Regrouped V c began (.matched d v) (.matched d' v') m m'
  | missed {m m'} (agrees : began.Agrees m m') : Regrouped V c began .missed .missed m m'
  | failed {m m'} (e : Failure) (agrees : began.Agrees m m') :
    Regrouped V c began (.failed e) (.failed e) m m'

/-- Both cursors behind a match are new ones. -/
theorem Outcome.Regrouped.fresh {V : Value → Value → Prop} {c d d' : CursorId}
    {began m m' : Machine} {v v' : Value} (value : V v v') (place : m'.cursor d' = m.cursor d)
    (hnew : c < d ∧ c < d') (agrees : began.Agrees m m') :
    Outcome.Regrouped V c began (.matched d v) (.matched d' v') m m' :=
  .matched value place (iff_of_false (Nat.ne_of_gt hnew.1) (Nat.ne_of_gt hnew.2)) agrees

/-- Someone listened to misses when the run began, and there is no description of a parser. -/
def Machine.Speechless (began : Machine) (p : Parser) (m : Machine) : Prop :=
  ¬ began.Quiet ∧ ∀ text, m.grammar.describe p ≠ .ok text

/-- Two descriptions: both can be said, or neither for the same reason, or one of them cannot be
said and something is unsaid. -/
inductive SaidAlike (unsaid : Prop) : Except Stop String → Except Stop String → Prop
  | said (text text' : String) : SaidAlike unsaid (.ok text) (.ok text')
  | stopped (e : Stop) : SaidAlike unsaid (.error e) (.error e)
  | left (may : unsaid) (e : Stop) (r) : SaidAlike unsaid (.error e) r
  | right (may : unsaid) (r) (e : Stop) : SaidAlike unsaid r (.error e)

theorem SaidAlike.refl (unsaid : Prop) (x : Except Stop String) : SaidAlike unsaid x x := by
  cases x with
  | ok text => exact .said text text
  | error e => exact .stopped e

namespace Machine.Agrees

variable {began m m' : Machine}

theorem refl (m : Machine) : m.Agrees m m where
  later := .refl _
  size := Nat.le_refl _
  size' := Nat.le_refl _
  cursor _ := rfl
  findings := .refl m
  reads := rfl
  events := rfl

theorem symm (h : began.Agrees m m') : began.Agrees m' m where
  later := by
    obtain ⟨reports, hgrammar, -⟩ := h.findings.grammar_eq
    rw [hgrammar]
    exact h.later.trans (.withReports m.grammar reports)
  size := h.size'
  size' := h.size
  cursor hd := (h.cursor hd).symm
  findings := h.findings.symm
  reads := h.reads.symm
  events := h.events.symm

theorem quiet_iff (h : began.Agrees m m') : m.Quiet ↔ began.Quiet := by
  unfold Quiet
  rw [h.later.threshold]

/-- The first run took a snapshot. -/
theorem snapshot (h : began.Agrees m m') (c : CursorId) : began.Agrees (m.duplicated c) m' where
  later := h.later
  size := by
    rw [size_duplicated]
    exact Nat.le_succ_of_le h.size
  size' := h.size'
  cursor hd := by
    rw [m.cursor_duplicated_of_lt c (Nat.lt_of_lt_of_le hd h.size), h.cursor hd]
  findings := h.findings.still rfl rfl
  reads := h.reads
  events := h.events

/-- The second run took a snapshot. -/
theorem snapshot' (h : began.Agrees m m') (c : CursorId) : began.Agrees m (m'.duplicated c) :=
  (h.symm.snapshot c).symm

/-! ## Calls -/

section Calls

variable {s s' : CursorId} (hs : s < m.cursors.size) (hs' : s' < m'.cursors.size)

theorem renumbered (h : began.Agrees m m') (hplace : m'.cursor s' = m.cursor s) :
    Renumbered (.ofCalls hs hs') m m' :=
  .ofCalls hs hs' hplace h.findings h.reads h.events

/-- After a call on cursors that are one and the same, or both new. -/
theorem called {m1 m1' : Machine} (h : began.Agrees m m')
    (hown : s = s' ∨ began.cursors.size ≤ s ∧ began.cursors.size ≤ s')
    (hrun : Renumbered (.ofCalls hs hs') m1 m1') (hlent : Lent s m m1) (hlent' : Lent s' m' m1') :
    began.Agrees m1 m1' where
  later := h.later.trans hlent.grammar
  size := Nat.le_trans h.size hlent.size
  size' := Nat.le_trans h.size' hlent'.size
  cursor {d} hd := by
    by_cases hds : d = s
    · rcases hown with rfl | ⟨hnew, -⟩
      · subst hds
        exact hrun.cursor .own
      · exact absurd (hds ▸ hd) (Nat.not_lt.mpr hnew)
    · have hds' : d ≠ s' := by
        rintro rfl
        rcases hown with heq | ⟨-, hnew⟩
        · exact hds heq.symm
        · exact absurd hd (Nat.not_lt.mpr hnew)
      rw [hlent.others hds (Nat.lt_of_lt_of_le hd h.size),
        hlent'.others hds' (Nat.lt_of_lt_of_le hd h.size'), h.cursor hd]
  findings := hrun.findings
  reads := hrun.reads
  events := hrun.events

/-- A parser is called in both runs, on cursors at the same place. -/
theorem call (k n n' : Nat) (entry : Entry) (p : Parser) (h : began.Agrees m m')
    (hplace : m'.cursor s' = m.cursor s)
    (hown : s = s' ∨ began.cursors.size ≤ s ∧ began.cursors.size ≤ s') {short short' : Prop}
    (hshort : n < n' → short) (hshort' : n' < n → short') (unsaid : Machine → Prop) :
    Meets began.Agrees short short' unsaid
      (fun o o' m1 m1' => o.Along (Renumbering.ofCalls hs hs').Same o' ∧
        Renumbered (.ofCalls hs hs') m1 m1' ∧ Lent s m m1 ∧ Lent s' m' m1')
      (run (resolver k) n entry p s m) (run (resolver k) n' entry p s' m') :=
  (run_placed k n n' entry p hs hs' (h.renumbered hs hs' hplace)).imp
    (fun ⟨hrun, hlent, hlent'⟩ => h.called hs hs' hown hrun hlent hlent') hshort hshort' False.elim
    id

end Calls

/-! ## Reports -/

section Reports

variable {whole : Parser} {short short' : Prop}

theorem describe_eq (h : began.Agrees m m') (p : Parser) :
    m'.grammar.describe p = m.grammar.describe p :=
  muted_likeness.described h.findings p

theorem describes (h : began.Agrees m m') (hloud : ¬ began.Quiet) {p p' : Parser}
    (hsaid : SaidAlike (∀ text, m.grammar.describe whole ≠ .ok text) (m.grammar.describe p)
      (m.grammar.describe p')) :
    Meets began.Agrees short short' (began.Speechless whole)
      (fun _ _ m1 m1' => m1 = m ∧ m1' = m') (Act.describe p m) (Act.describe p' m') := by
  show Meets _ _ _ _ _ (Act.liftStop (m.grammar.describe p) m)
    (Act.liftStop (m'.grammar.describe p') m')
  rw [h.describe_eq]
  generalize m.grammar.describe p = x at hsaid
  generalize m.grammar.describe p' = x' at hsaid
  cases hsaid with
  | said text text' => exact .answered ⟨rfl, rfl⟩
  | stopped e => exact .stopped e h
  | left may e r => exact .undescribed ⟨hloud, may⟩ e _
  | right may r e =>
    refine .undescribed' ⟨hloud, ?_⟩ _ e
    rw [h.describe_eq]
    exact may

theorem positions (h : began.Agrees m m') {c c' : CursorId} (hplace : m'.cursor c' = m.cursor c)
    (unsaid : Machine → Prop) :
    Meets began.Agrees short short' unsaid (fun i i' m1 m1' => i' = i ∧ m1 = m ∧ m1' = m')
      (Act.position c m) (Act.position c' m') := by
  show Meets _ _ _ _ _
    ((if (m.cursor c).positioned then pure (m.cursor c).position
      else Act.fail (.attribute .position) : Act Nat) m)
    ((if (m'.cursor c').positioned then pure (m'.cursor c').position
      else Act.fail (.attribute .position) : Act Nat) m')
  rw [hplace]
  split
  · exact .answered ⟨rfl, rfl, rfl⟩
  · exact .stopped _ h

/-- A miss is reported in both runs, at the same place and about other arms. -/
theorem reportArms (h : began.Agrees m m') {c c' : CursorId} (hplace : m'.cursor c' = m.cursor c)
    {left right left' right' : Parser}
    (hleft : SaidAlike (∀ text, m.grammar.describe whole ≠ .ok text) (m.grammar.describe left)
      (m.grammar.describe left'))
    (hright : SaidAlike (∀ text, m.grammar.describe whole ≠ .ok text) (m.grammar.describe right)
      (m.grammar.describe right')) :
    Meets began.Agrees short short' (began.Speechless whole)
      (fun _ _ m1 m1' => began.Agrees m1 m1' ∧ m1.cursors = m.cursors ∧ m1'.cursors = m'.cursors)
      (reportArm left right c m) (reportArm left' right' c' m') := by
  unfold reportArm
  by_cases hquiet : began.Quiet
  · rw [bind_of_ok (listens_of_quiet (h.quiet_iff.mpr hquiet)),
      bind_of_ok (listens_of_quiet (h.symm.quiet_iff.mpr hquiet))]
    exact .answered ⟨h, rfl, rfl⟩
  · have hloud := mt h.quiet_iff.mp hquiet
    rw [bind_of_ok (listens_of_loud hloud),
      bind_of_ok (listens_of_loud (mt h.symm.quiet_iff.mp hquiet)), if_pos rfl, if_pos rfl]
    refine (h.describes hquiet hleft).bind ?_
    rintro l l' _ _ - - ⟨rfl, rfl⟩
    refine (h.positions hplace _).bind ?_
    rintro i _ _ _ - - ⟨rfl, rfl, rfl⟩
    refine (h.describes hquiet hright).bind ?_
    rintro r r' _ _ - - ⟨rfl, rfl⟩
    refine .answered ⟨?_, rfl, rfl⟩
    exact {
      later := h.later.trans (.report _ _)
      size := h.size
      size' := h.size'
      cursor := h.cursor
      findings := h.findings.reported hloud _ _
      reads := h.reads
      events := h.events }

end Reports

end Machine.Agrees

end ShapeGrammar
