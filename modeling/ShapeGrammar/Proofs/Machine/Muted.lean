import ShapeGrammar.Proofs.Factory.Faithful
import ShapeGrammar.Proofs.Machine.Likeness
import ShapeGrammar.Proofs.Resolution.Deaf

/-!
# More fuel, other reports

A run that has come to something comes to the same with more fuel, and whatever was reported before:
it has the same answer or stops in the same way, and leaves a machine behind that differs in the
reports only. If nobody listens to misses, the machine does not differ at all.

Headlines: `Machine.Muted`, `muted_likeness`, `run_follows`.
-/

namespace ShapeGrammar

/-- Two machines that are equal, but for the reports if there is someone who listens to misses. -/
inductive Machine.Muted (m : Machine) : Machine → Prop
  | mk (reports : Array Report) (quiet : m.Quiet → reports = m.grammar.reports) :
    Muted m { m with grammar := m.grammar.withReports reports }

namespace Machine.Muted

variable {m m' : Machine}

theorem refl (m : Machine) : m.Muted m := ⟨m.grammar.reports, fun _ => rfl⟩

theorem symm (h : m.Muted m') : m'.Muted m := by
  obtain ⟨reports, quiet⟩ := h
  exact ⟨m.grammar.reports, fun hquiet => (quiet hquiet).symm⟩

/-- Where nobody listens to misses, the machines are equal. -/
theorem eq_of_quiet (h : m.Muted m') (hquiet : m.Quiet) : m' = m := by
  obtain ⟨reports, quiet⟩ := h
  rw [quiet hquiet]
  rfl

theorem quiet_iff (h : m.Muted m') : m'.Quiet ↔ m.Quiet := by
  cases h
  exact Iff.rfl

theorem precedes (h : m.Muted m') {g : Grammar} (hg : g.Precedes m.grammar) :
    g.Precedes m'.grammar := by
  obtain ⟨reports, -⟩ := h
  exact hg.trans (.withReports m.grammar reports)

end Machine.Muted

theorem listens_of_loud {m : Machine} (hloud : ¬ m.Quiet) : Act.listens .debug m = .ok true m := by
  have hheard : LogLevel.debug.heardFrom m.grammar.threshold = true :=
    eq_true_of_ne_false hloud
  show EStateM.Result.ok _ m = _
  rw [hheard]

theorem reportArm_of_quiet {m : Machine} (hquiet : m.Quiet) (left right : Parser) (c : CursorId) :
    reportArm left right c m = .ok () m := by
  unfold reportArm
  rw [bind_of_ok (listens_of_quiet hquiet)]
  rfl

/-- To report that an attempt missed stops only where the position may not be asked for. -/
theorem reportAttempt_of_positioned {m : Machine} {c : CursorId}
    (hc : (m.cursor c).positioned = true) (target : ClassRef) (name : String) :
    ∃ m1, reportAttempt target name c m = .ok () m1 := by
  by_cases hquiet : m.Quiet
  · exact ⟨m, reportAttempt_of_quiet hquiet target name c⟩
  · unfold reportAttempt
    rw [bind_of_ok (listens_of_loud hquiet), if_pos rfl, bind_of_ok (position_of_positioned hc)]
    exact ⟨_, rfl⟩

/-- Nothing that a run looks at tells what was reported. -/
theorem muted_likeness : Likeness Machine.Muted where
  twin h := by
    obtain ⟨reports, -⟩ := h
    exact ⟨_, _, rfl⟩
  heard h := by
    cases h
    rfl
  described {m _} h p := by
    obtain ⟨reports, -⟩ := h
    exact m.grammar.describe_withReports reports p
  named h _ := by
    cases h
    rfl
  constructed h _ _ := by
    cases h
    rfl
  moved h _ _ _ := by
    obtain ⟨reports, quiet⟩ := h
    exact ⟨reports, quiet⟩
  reported {m _} h r := by
    obtain ⟨reports, quiet⟩ := h
    unfold Grammar.report
    show Machine.Muted _ { m with
      grammar := if r.level.heardFrom m.grammar.threshold then _ else _ }
    split
    · exact ⟨reports.push r, fun hquiet => by rw [quiet hquiet]⟩
    · exact ⟨reports, quiet⟩
  noted h _ := by
    obtain ⟨reports, quiet⟩ := h
    exact ⟨reports, quiet⟩

/-- A question about the grammar has the same answer. -/
theorem muted_resolve {α : Type} {slack : Bool} {x : Resolution α} (hx : x.Deaf)
    (hgrows : x.Grows) :
    Follows Machine.Muted slack (Act.resolve x) (Act.resolve x) := by
  rintro m _ ⟨reports, quiet⟩
  by_cases hquiet : m.Quiet
  · rw [quiet hquiet]
    show Ends Machine.Muted slack (Act.resolve x m) (Act.resolve x m)
    cases Act.resolve x m with
    | ok a m1 => exact .ok a (.refl m1)
    | error e m1 => exact .stopped e (.refl m1)
  · have hends := hx m.grammar reports
    have hlater := hgrows m.grammar
    unfold Act.resolve
    dsimp only
    generalize hr : x m.grammar = r at hends ⊢
    generalize x (m.grammar.withReports reports) = r' at hends ⊢
    cases hends with
    | ok a g rs =>
      rw [stateAfter_of_ok hr] at hlater
      have hloud : ¬ ({ m with grammar := g } : Machine).Quiet := by
        unfold Machine.Quiet at hquiet ⊢
        rw [hlater.threshold]
        exact hquiet
      exact .ok a ⟨rs, fun h => absurd h hloud⟩
    | error e g rs =>
      rw [stateAfter_of_error hr] at hlater
      have hloud : ¬ ({ m with grammar := g } : Machine).Quiet := by
        unfold Machine.Quiet at hquiet ⊢
        rw [hlater.threshold]
        exact hquiet
      exact .stopped e ⟨rs, fun h => absurd h hloud⟩

/-- Where someone listens to misses, it does not matter whether something is reported. -/
theorem Machine.Muted.heard {m m' : Machine} (h : m.Muted m') (hloud : ¬ m.Quiet) (r : Report) :
    m.Muted { m' with grammar := m'.grammar.report r } := by
  obtain ⟨reports, -⟩ := h
  show Machine.Muted _ { m with
    grammar := if r.level.heardFrom m.grammar.threshold then _ else _ }
  split
  · exact ⟨reports.push r, fun hquiet => absurd hquiet hloud⟩
  · exact ⟨reports, fun hquiet => absurd hquiet hloud⟩

/-- Where someone listens to misses, it does not matter what is reported. -/
theorem Machine.Muted.reported {m m' : Machine} (h : m.Muted m') (hloud : ¬ m.Quiet)
    (r r' : Report) : Machine.Muted { m with grammar := m.grammar.report r }
      { m' with grammar := m'.grammar.report r' } := by
  have hloud' : ¬ m'.Quiet := fun hquiet => hloud (h.quiet_iff.mp hquiet)
  have hleft := (h.symm.heard hloud' r).symm
  exact hleft.heard (fun hquiet => hloud' (hleft.quiet_iff.mpr hquiet)) r'

theorem muted_law : RunLaw (Follows Machine.Muted false) := muted_likeness.law

/-- With more fuel, and whatever was reported before, a run comes to the same, if the reports do not
matter to what it asks. -/
theorem follows_of_le {r : Resolver} (hdeaf : r.Obeys Resolution.Deaf)
    (hgrows : r.Obeys Resolution.Grows) {n n' : Nat} (h : n ≤ n') (entry : Entry) (p : Parser)
    (c : CursorId) : Follows Machine.Muted true (run r n entry p c) (run r n' entry p c) :=
  muted_likeness.law.run (fun b => muted_resolve (hdeaf.boxParser b) (hgrows.boxParser b))
    (fun d => muted_resolve (hdeaf.planOf d) (hgrows.planOf d)) entry p c (covers_of_le h)

/-- **With more fuel, and whatever was reported before, a run comes to the same.** -/
theorem run_follows (k : Nat) {n n' : Nat} (h : n ≤ n') (entry : Entry) (p : Parser)
    (c : CursorId) :
    Follows Machine.Muted true (run (resolver k) n entry p c) (run (resolver k) n' entry p c) :=
  follows_of_le (resolver_deaf k) (resolver_grows k) h entry p c

end ShapeGrammar
