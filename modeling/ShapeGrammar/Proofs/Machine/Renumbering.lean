import ShapeGrammar.Proofs.Machine.Muted

/-!
# Cursors under other numbers

A parser is called on two cursors that stand at the same place. Both runs number the cursors that
come into being on the way, each from the number of cursors that there were; apart from that they
are the same run. What was handed over in the one stands for what was handed over in the other, and
the new cursors stand for each other in the order in which they came. Which other cursors there are,
and where they stand, makes no difference.

How much fuel the two runs have may differ as well. Then only the one with less may run out of it.

Headlines: `Renumbering`, `Renumbered`, `Meets`, `renumbered_law`, `run_renumbered`, `run_placed`.
-/

namespace ShapeGrammar

open Machine

/-! ## Numbers -/

/-- The number of the cursor that was handed over, and how many cursors there were, in two runs. -/
structure Renumbering where
  own : Nat
  base : Nat
  own' : Nat
  base' : Nat
  lt : own < base
  lt' : own' < base'

namespace Renumbering

/-- The numbers stand for each other. -/
inductive Same (N : Renumbering) : CursorId → CursorId → Prop
  | own : Same N N.own N.own'
  | fresh (i : Nat) : Same N (N.base + i) (N.base' + i)

/-- The same numbers, seen from the other run. -/
def swap (N : Renumbering) : Renumbering :=
  ⟨N.own', N.base', N.own, N.base, N.lt', N.lt⟩

/-- Where two calls begin. -/
def ofCalls {m m' : Machine} {c c' : CursorId} (hc : c < m.cursors.size)
    (hc' : c' < m'.cursors.size) : Renumbering :=
  ⟨c, m.cursors.size, c', m'.cursors.size, hc, hc'⟩

variable {N : Renumbering} {c c' d d' : Nat}

theorem Same.swap (h : N.Same c c') : N.swap.Same c' c := by
  cases h with
  | own => exact .own
  | fresh i => exact .fresh i

/-- What stands for the same is the same. -/
theorem Same.eq_iff (h : N.Same c c') (h' : N.Same d d') : c = d ↔ c' = d' := by
  have hlt := N.lt
  have hlt' := N.lt'
  cases h <;> cases h' <;> omega

/-- Nothing below the cursors that were handed over stands for anything. -/
theorem Same.lt_of_lt (h : N.Same d d') {b : Nat} (hb : b < N.own) (hb' : b < N.own') :
    b < d ∧ b < d' := by
  have hlt := N.lt
  have hlt' := N.lt'
  cases h <;> omega

end Renumbering

/-! ## Machines -/

/-- The same was found out, but for the reports if there is someone who listens to misses. -/
def Machine.SameFindings (m m' : Machine) : Prop :=
  m.Muted { m with grammar := m'.grammar }

namespace Machine.SameFindings

variable {m m' m'' : Machine}

theorem refl (m : Machine) : m.SameFindings m :=
  Muted.refl m

theorem grammar_eq (h : m.SameFindings m') : ∃ reports,
    m'.grammar = m.grammar.withReports reports ∧ (m.Quiet → reports = m.grammar.reports) := by
  unfold SameFindings at h
  generalize hm : { m with grammar := m'.grammar } = other at h
  obtain ⟨reports, quiet⟩ := h
  exact ⟨reports, congrArg Machine.grammar hm, quiet⟩

theorem of_grammar_eq {reports : Array Report}
    (hgrammar : m'.grammar = m.grammar.withReports reports)
    (quiet : m.Quiet → reports = m.grammar.reports) : m.SameFindings m' := by
  unfold SameFindings
  rw [hgrammar]
  exact ⟨reports, quiet⟩

theorem symm (h : m.SameFindings m') : m'.SameFindings m := by
  obtain ⟨reports, hgrammar, quiet⟩ := h.grammar_eq
  have hback : m.grammar = m'.grammar.withReports m.grammar.reports := by
    rw [hgrammar]
    rfl
  refine of_grammar_eq hback fun hquiet => ?_
  have hquiet' : m.Quiet := by
    unfold Quiet at hquiet ⊢
    rwa [hgrammar] at hquiet
  rw [hgrammar]
  exact (quiet hquiet').symm

/-- Only cursors and traces became other ones. -/
theorem still {m1 m1' : Machine} (h : m.SameFindings m') (hgrammar : m1.grammar = m.grammar)
    (hgrammar' : m1'.grammar = m'.grammar) : m1.SameFindings m1' := by
  obtain ⟨reports, heq, quiet⟩ := h.grammar_eq
  refine of_grammar_eq (by rw [hgrammar', heq, hgrammar]) fun hquiet => ?_
  unfold Quiet at hquiet quiet
  rw [hgrammar] at hquiet ⊢
  exact quiet hquiet

end Machine.SameFindings

/-- Cursors that stand for each other are at the same place. The same was found out, read and
noted. -/
structure Renumbered (N : Renumbering) (m m' : Machine) : Prop where
  size : ∃ i, m.cursors.size = N.base + i ∧ m'.cursors.size = N.base' + i
  cursor : ∀ {c c'}, N.Same c c' → m'.cursor c' = m.cursor c
  findings : m.SameFindings m'
  reads : m'.reads = m.reads
  events : m'.events = m.events

namespace Renumbered

variable {N : Renumbering} {m m' m1 m1' : Machine} {c c' : Nat}

theorem symm (h : Renumbered N m m') : Renumbered N.swap m' m where
  size := by
    obtain ⟨i, hi, hi'⟩ := h.size
    exact ⟨i, hi', hi⟩
  cursor hc := (h.cursor hc.swap).symm
  findings := h.findings.symm
  reads := h.reads.symm
  events := h.events.symm

/-- Where two calls begin, on cursors at the same place. -/
theorem ofCalls (hc : c < m.cursors.size) (hc' : c' < m'.cursors.size)
    (hplace : m'.cursor c' = m.cursor c) (hfindings : m.SameFindings m')
    (hreads : m'.reads = m.reads) (hevents : m'.events = m.events) :
    Renumbered (.ofCalls hc hc') m m' where
  size := ⟨0, rfl, rfl⟩
  cursor h := by
    cases h with
    | own => exact hplace
    | fresh i =>
      have hle : m.cursors.size ≤ m.cursors.size + i := Nat.le_add_right _ i
      have hle' : m'.cursors.size ≤ m'.cursors.size + i := Nat.le_add_right _ i
      exact (cursor_of_size_le hle').trans (cursor_of_size_le hle).symm
  findings := hfindings
  reads := hreads
  events := hevents

theorem lt_iff (h : Renumbered N m m') (hc : N.Same c c') :
    c' < m'.cursors.size ↔ c < m.cursors.size := by
  obtain ⟨i, hi, hi'⟩ := h.size
  have hlt := N.lt
  have hlt' := N.lt'
  cases hc <;> omega

/-- The numbers that come next stand for each other. -/
theorem next (h : Renumbered N m m') : N.Same m.cursors.size m'.cursors.size := by
  obtain ⟨i, hi, hi'⟩ := h.size
  rw [hi, hi']
  exact .fresh i

/-- Only grammars became other ones, and what was noted. -/
theorem still (h : Renumbered N m m') (hcursors : m1.cursors = m.cursors)
    (hcursors' : m1'.cursors = m'.cursors) (hfindings : m1.SameFindings m1')
    (hreads : m1'.reads = m1.reads) (hevents : m1'.events = m1.events) : Renumbered N m1 m1' where
  size := by rw [hcursors, hcursors']; exact h.size
  cursor hc := by
    unfold Machine.cursor
    rw [hcursors, hcursors']
    exact h.cursor hc
  findings := hfindings
  reads := hreads
  events := hevents

/-- A cursor was moved in both runs. -/
theorem set {moved : Cursor} (h : Renumbered N m m') (hc : N.Same c c')
    (hcursors : m1.cursors = m.cursors.set! c moved)
    (hcursors' : m1'.cursors = m'.cursors.set! c' moved) (hfindings : m1.SameFindings m1')
    (hreads : m1'.reads = m1.reads) (hevents : m1'.events = m1.events) : Renumbered N m1 m1' where
  size := by simpa [hcursors, hcursors'] using h.size
  cursor {d d'} hd := by
    by_cases hcd : c = d
    · have hcd' := (hc.eq_iff hd).mp hcd
      subst hcd hcd'
      by_cases hlt : c < m.cursors.size
      · rw [cursor_of_set_self hcursors hlt, cursor_of_set_self hcursors' ((h.lt_iff hc).mpr hlt)]
      · have hlt' := mt (h.lt_iff hc).mp hlt
        rw [cursor_of_size_le (by simpa [hcursors'] using hlt'),
          cursor_of_size_le (by simpa [hcursors] using hlt)]
    · have hcd' := mt (hc.eq_iff hd).mpr hcd
      rw [cursor_of_set_of_ne hcursors hcd, cursor_of_set_of_ne hcursors' hcd']
      exact h.cursor hd
  findings := hfindings
  reads := hreads
  events := hevents

/-- A cursor was duplicated in both runs. -/
theorem push (h : Renumbered N m m') (hc : N.Same c c')
    (hcursors : m1.cursors = m.cursors.push (m.cursor c))
    (hcursors' : m1'.cursors = m'.cursors.push (m'.cursor c')) (hfindings : m1.SameFindings m1')
    (hreads : m1'.reads = m1.reads) (hevents : m1'.events = m1.events) : Renumbered N m1 m1' where
  size := by
    obtain ⟨i, hi, hi'⟩ := h.size
    exact ⟨i + 1, by rw [hcursors, Array.size_push, hi, Nat.add_assoc],
      by rw [hcursors', Array.size_push, hi', Nat.add_assoc]⟩
  cursor {d d'} hd := by
    by_cases hlt : d < m.cursors.size
    · rw [cursor_of_push_of_lt hcursors hlt,
        cursor_of_push_of_lt hcursors' ((h.lt_iff hd).mpr hlt), h.cursor hd]
    · by_cases hnew : m.cursors.size = d
      · have hnew' := (h.next.eq_iff hd).mp hnew
        subst hnew hnew'
        rw [cursor_of_push_self hcursors, cursor_of_push_self hcursors', h.cursor hc]
      · have hlt' := mt (h.lt_iff hd).mp hlt
        have hnew' := mt (h.next.eq_iff hd).mpr hnew
        have hle : m1.cursors.size ≤ d := by
          rw [hcursors, Array.size_push]
          exact Nat.lt_of_le_of_ne (Nat.not_lt.mp hlt) hnew
        have hle' : m1'.cursors.size ≤ d' := by
          rw [hcursors', Array.size_push]
          exact Nat.lt_of_le_of_ne (Nat.not_lt.mp hlt') hnew'
        rw [cursor_of_size_le hle', cursor_of_size_le hle]
  findings := hfindings
  reads := hreads
  events := hevents

end Renumbered

/-! ## Two runs -/

/-- Two computations have come to answers that are related, with the machines that they leave
behind, or to the same stop. If the one or the other may run short of fuel, or may stop because
something cannot be said, the other one may come to anything then. -/
inductive Meets (S : Machine → Machine → Prop) (short short' : Prop) (unsaid : Machine → Prop)
    {α β : Type} (A : α → β → Machine → Machine → Prop) :
    EStateM.Result Stop Machine α → EStateM.Result Stop Machine β → Prop
  | answered {a b m m'} (answers : A a b m m') :
    Meets S short short' unsaid A (.ok a m) (.ok b m')
  | stopped {m m'} (e : Stop) (alike : S m m') :
    Meets S short short' unsaid A (.error e m) (.error e m')
  | starved (may : short) (m : Machine) (r) : Meets S short short' unsaid A (.error .outOfFuel m) r
  | starved' (may : short') (r) (m : Machine) :
      Meets S short short' unsaid A r (.error .outOfFuel m)
  | undescribed {m} (may : unsaid m) (e : Stop) (r) : Meets S short short' unsaid A (.error e m) r
  | undescribed' {m} (may : unsaid m) (r) (e : Stop) : Meets S short short' unsaid A r (.error e m)

namespace Meets

variable {S T : Machine → Machine → Prop} {short short' may may' : Prop} {unsaid : Machine → Prop}
  {α β γ δ : Type} {A : α → β → Machine → Machine → Prop} {m m' : Machine}

theorem bind {B : γ → δ → Machine → Machine → Prop} {x : Act α} {y : Act β} {f : α → Act γ}
    {g : β → Act δ} (h : Meets S short short' unsaid A (x m) (y m'))
    (hf : ∀ {a b m1 m1'}, x m = .ok a m1 → y m' = .ok b m1' → A a b m1 m1' →
      Meets S short short' unsaid B (f a m1) (g b m1')) :
    Meets S short short' unsaid B ((x >>= f) m) ((y >>= g) m') := by
  generalize hxm : x m = r at h
  generalize hym : y m' = r' at h
  cases h with
  | answered answers =>
    rw [bind_of_ok hxm, bind_of_ok hym]
    exact hf hxm hym answers
  | stopped e alike =>
    rw [bind_of_error hxm, bind_of_error hym]
    exact .stopped e alike
  | starved may m1 r' =>
    rw [bind_of_error hxm]
    exact .starved may m1 _
  | starved' may r m1 =>
    rw [bind_of_error hym]
    exact .starved' may _ m1
  | undescribed may e r' =>
    rw [bind_of_error hxm]
    exact .undescribed may e _
  | undescribed' may r e =>
    rw [bind_of_error hym]
    exact .undescribed' may _ e

theorem map {B : γ → δ → Machine → Machine → Prop} {x : Act α} {y : Act β} {f : α → γ}
    {g : β → δ} (h : Meets S short short' unsaid A (x m) (y m'))
    (hA : ∀ {a b m1 m1'}, x m = .ok a m1 → y m' = .ok b m1' → A a b m1 m1' →
      B (f a) (g b) m1 m1') : Meets S short short' unsaid B ((f <$> x) m) ((g <$> y) m') := by
  rw [← bind_pure_comp, ← bind_pure_comp]
  exact h.bind fun hx hy hab => .answered (hA hx hy hab)

section Results

variable {r : EStateM.Result Stop Machine α} {r' : EStateM.Result Stop Machine β}
  (h : Meets S short short' unsaid A r r')
include h

/-- The runs, seen from the other side. -/
theorem symm {B : β → α → Machine → Machine → Prop} (hS : ∀ {m m'}, S m m' → T m' m)
    (hA : ∀ {a b m m'}, A a b m m' → B b a m' m) : Meets T short' short unsaid B r' r := by
  cases h with
  | answered answers => exact .answered (hA answers)
  | stopped e alike => exact .stopped e (hS alike)
  | starved may m r' => exact .starved' may r' m
  | starved' may r m => exact .starved may m r
  | undescribed may e r' => exact .undescribed' may r' e
  | undescribed' may r e => exact .undescribed may e r

theorem imp {B : α → β → Machine → Machine → Prop} {unsaid' : Machine → Prop}
    (hS : ∀ {m m'}, S m m' → T m m') (hshort : short → may) (hshort' : short' → may')
    (hunsaid : ∀ {m}, unsaid m → unsaid' m) (hA : ∀ {a b m m'}, A a b m m' → B a b m m') :
    Meets T may may' unsaid' B r r' := by
  cases h with
  | answered answers => exact .answered (hA answers)
  | stopped e alike => exact .stopped e (hS alike)
  | starved hmay m r' => exact .starved (hshort hmay) m r'
  | starved' hmay r m => exact .starved' (hshort' hmay) r m
  | undescribed hmay e r' => exact .undescribed (hunsaid hmay) e r'
  | undescribed' hmay r e => exact .undescribed' (hunsaid hmay) r e

end Results

/-- What is known of the machines that computations leave behind. -/
theorem after {P P' : Machine → Prop} {x : Act α} {y : Act β}
    (h : Meets S short short' unsaid A (x m) (y m')) (hx : P (stateAfter x m))
    (hy : P' (stateAfter y m')) :
    Meets (fun m1 m1' => S m1 m1' ∧ P m1 ∧ P' m1') short short' unsaid
      (fun a b m1 m1' => A a b m1 m1' ∧ P m1 ∧ P' m1') (x m) (y m') := by
  unfold stateAfter at hx hy
  generalize x m = r at h hx
  generalize y m' = r' at h hy
  cases h with
  | answered answers => exact .answered ⟨answers, hx, hy⟩
  | stopped e alike => exact .stopped e ⟨alike, hx, hy⟩
  | starved may m r' => exact .starved may m r'
  | starved' may r m => exact .starved' may r m
  | undescribed may e r' => exact .undescribed may e r'
  | undescribed' may r e => exact .undescribed' may r e

end Meets

/-- From machines under other numbers, two computations come to the same. -/
def Renumbers (N : Renumbering) (short short' : Prop) {α β : Type} (A : α → β → Prop) (x : Act α)
    (y : Act β) : Prop :=
  ∀ m m', Renumbered N m m' → Meets (Renumbered N) short short' (fun _ => False)
    (fun a b m1 m1' => A a b ∧ Renumbered N m1 m1') (x m) (y m')

section Primitives

variable {N : Renumbering} {short short' : Prop} {α : Type}

/-- What reads the grammar and leaves the machine as it is. -/
theorem renumbers_of_eq {x : Act α} {f : Grammar → Except Stop α}
    (hx : ∀ m, x m = Act.liftStop (f m.grammar) m)
    (hf : ∀ g reports, f (g.withReports reports) = f g) : Renumbers N short short' Eq x x :=
  fun m m' h => by
    obtain ⟨reports, hreports, -⟩ := h.findings.grammar_eq
    rw [hx, hx, hreports, hf]
    cases f m.grammar with
    | ok a => exact .answered ⟨rfl, h⟩
    | error e => exact .stopped e h

theorem renumbers_next {c c' : CursorId} (hc : N.Same c c') :
    Renumbers N short short' Eq (Act.next c) (Act.next c') := fun m m' h => by
  have hplace := h.cursor hc
  cases hread : (m.cursor c).next? with
  | none =>
    rw [next_of_end hread, next_of_end (hplace ▸ hread)]
    exact .answered ⟨rfl, h⟩
  | some r =>
    obtain ⟨v, moved⟩ := r
    rw [next_of_some hread, next_of_some (hplace ▸ hread)]
    refine .answered ⟨rfl, h.set hc rfl rfl (h.findings.still rfl rfl) ?_ h.events⟩
    show m'.reads.push (m'.cursor c').position = m.reads.push (m.cursor c).position
    rw [hplace, h.reads]

theorem renumbers_snapshot {c c' : CursorId} (hc : N.Same c c') :
    Renumbers N short short' N.Same (Act.snapshot c) (Act.snapshot c') := fun _ _ h =>
  .answered ⟨h.next, h.push hc rfl rfl (h.findings.still rfl rfl) h.reads h.events⟩

theorem renumbers_position {c c' : CursorId} (hc : N.Same c c') :
    Renumbers N short short' Eq (Act.position c) (Act.position c') := fun m m' h => by
  show Meets (Renumbered N) short short' _ _
    ((if (m.cursor c).positioned then pure (m.cursor c).position
      else Act.fail (.attribute .position) : Act Nat) m)
    ((if (m'.cursor c').positioned then pure (m'.cursor c').position
      else Act.fail (.attribute .position) : Act Nat) m')
  rw [h.cursor hc]
  split
  · exact .answered ⟨rfl, h⟩
  · exact .stopped _ h

theorem renumbers_report (r : Report) :
    Renumbers N short short' Eq (Act.report r) (Act.report r) := fun _ _ h =>
  .answered ⟨rfl, h.still rfl rfl (muted_likeness.reported h.findings r) h.reads h.events⟩

theorem renumbers_note (e : Event) :
    Renumbers N short short' Eq (Act.note e) (Act.note e) := fun m m' h => by
  refine .answered ⟨rfl, h.still rfl rfl (h.findings.still rfl rfl) h.reads ?_⟩
  show m'.events.push e = m.events.push e
  rw [h.events]

/-- A question about the grammar has the same answer. -/
theorem renumbers_resolve {x : Resolution α} (hx : x.Deaf) (hgrows : x.Grows) :
    Renumbers N short short' Eq (Act.resolve x) (Act.resolve x) := fun m m' h => by
  have hends : Ends Machine.Muted false _ _ := muted_resolve hx hgrows _ _ h.findings
  unfold Act.resolve at hends ⊢
  dsimp only at hends
  generalize x m.grammar = r at hends ⊢
  generalize x m'.grammar = r' at hends ⊢
  cases r with
  | ok a g =>
    cases r' with
    | ok b g' =>
      cases hends with
      | ok _ alike => exact .answered ⟨rfl, h.still rfl rfl alike h.reads h.events⟩
    | error e g' => cases hends
  | error e g =>
    cases r' with
    | ok b g' =>
      cases hends with
      | short may => cases may
    | error e' g' =>
      cases hends with
      | short may => cases may
      | stopped _ alike => exact .stopped e (h.still rfl rfl alike h.reads h.events)

/-- **Everything that a run does respects other numbers.** -/
theorem renumbered_law : HandleLaw (Renumbers N short short') N.Same Eq fun _ => True where
  fallible := trivial
  order h h' := by rw [h, h']
  pure hab _ _ h := .answered ⟨hab, h⟩
  stop e _ _ h := .stopped e h
  bind hx hf m m' h := (hx m m' h).bind fun _ _ hab => hf hab.1 _ _ hab.2
  describe p := renumbers_of_eq (f := fun g => g.describe p) (fun _ => rfl)
    fun g reports => g.describe_withReports reports p
  className target := renumbers_of_eq (f := fun g => .ok (g.className target)) (fun _ => rfl)
    fun _ _ => rfl
  listens level := renumbers_of_eq (f := fun g => .ok (level.heardFrom g.threshold))
    (fun _ => rfl) fun _ _ => rfl
  armMissed h := h ▸ renumbers_report _
  attemptMissed h := h ▸ renumbers_report _
  note _ h := h ▸ renumbers_note _
  zeroWidth h := h ▸ fun _ _ h => .stopped _ h
  construct target vs := renumbers_of_eq
    (f := fun g => (g.construct target vs).mapError .fault)
    (fun m => by
      show Act.lift (m.grammar.construct target vs) m = _
      cases m.grammar.construct target vs <;> rfl)
    fun _ _ => rfl
  next := renumbers_next
  snapshot := renumbers_snapshot
  position := renumbers_position

end Primitives

/-! ## Runs -/

theorem renumbers_run (k : Nat) {N : Renumbering} {short : Prop} {n n' : Nat} (entry : Entry)
    (p : Parser) {c c' : CursorId} (hc : N.Same c c')
    (hn : Spans (Renumbers N short False) n n') :
    Renumbers N short False (Outcome.Along N.Same) (run (resolver k) n entry p c)
      (run (resolver k) n' entry p c') :=
  renumbered_law.run (fun _ => trivial)
    (fun b => renumbers_resolve ((resolver_deaf k).boxParser b) ((resolver_grows k).boxParser b))
    (fun d => renumbers_resolve ((resolver_deaf k).planOf d) ((resolver_grows k).planOf d))
    entry p hc hn

theorem spans_of_le {N : Renumbering} {n n' : Nat} (h : n ≤ n') :
    Spans (Renumbers N True False) n n' :=
  .inr ⟨h, fun _ _ _ _ _ => .starved trivial _ _⟩

/-- **A run does not depend on numbers**, and of two runs only the one with less fuel runs short. -/
theorem run_renumbered (k n n' : Nat) {N : Renumbering} (entry : Entry) (p : Parser)
    {c c' : CursorId} (hc : N.Same c c') :
    Renumbers N (n < n') (n' < n) (Outcome.Along N.Same) (run (resolver k) n entry p c)
      (run (resolver k) n' entry p c') := fun m m' h => by
  rcases Nat.lt_trichotomy n n' with hlt | rfl | hlt
  · have hruns := renumbers_run k entry p hc (spans_of_le (Nat.le_of_lt hlt)) m m' h
    exact hruns.imp id (fun _ => hlt) False.elim id id
  · have hn : Spans (Renumbers N False False) n n := .inl rfl
    exact (renumbers_run k entry p hc hn m m' h).imp id False.elim False.elim id id
  · have hruns := renumbers_run k entry p hc.swap (spans_of_le (Nat.le_of_lt hlt)) m' m h.symm
    refine (hruns.imp (T := Renumbered N.swap) id (fun _ => hlt) False.elim id id).symm
      (fun h => h.symm) fun ⟨ho, alike⟩ => ⟨?_, alike.symm⟩
    cases ho with
    | matched handle v => exact .matched handle.swap v
    | missed => exact .missed
    | failed e => exact .failed e

/-- **A call depends on the place of its cursor only**, of all cursors, and leaves all others
alone. -/
theorem run_placed (k n n' : Nat) (entry : Entry) (p : Parser) {m m' : Machine} {c c' : CursorId}
    (hc : c < m.cursors.size) (hc' : c' < m'.cursors.size)
    (h : Renumbered (.ofCalls hc hc') m m') :
    Meets (fun m1 m1' => Renumbered (.ofCalls hc hc') m1 m1' ∧ Lent c m m1 ∧ Lent c' m' m1')
      (n < n') (n' < n) (fun _ => False)
      (fun o o' m1 m1' => o.Along (Renumbering.ofCalls hc hc').Same o' ∧
        Renumbered (.ofCalls hc hc') m1 m1' ∧ Lent c m m1 ∧ Lent c' m' m1')
      (run (resolver k) n entry p c m) (run (resolver k) n' entry p c' m') :=
  ((run_renumbered k n n' entry p .own m m' h).after
    (run_lender (resolver_grows k) n entry p hc).lent
    (run_lender (resolver_grows k) n' entry p hc').lent).imp id id id id
      fun ⟨⟨ho, alike⟩, hlent⟩ => ⟨ho, alike, hlent⟩

end ShapeGrammar
