import ShapeGrammar.Proofs.Composition.ErrorKind
import ShapeGrammar.Proofs.Entry.Alike
import ShapeGrammar.Proofs.Machine.Muted

/-!
# A plan and its counterpart

Carrying out a plan, and running the parser that is written by hand instead, come to the same: the
same match, miss or failure, or the same stop, and machines that differ in nothing but the reports
of misses. The choice written by hand describes its arms where it reports a miss, which the plan
does not; so if someone listens and there is no description, it stops there.

The induction is on the attempts: every attempt but the last is the left arm of a choice, the others
are its right arm. How much fuel either side has left differs from arm to arm, so it is only said
which side may run out of it.

Headlines: `Outcome.Tagged`, `Counterpart`, `attempts_counterpart`.
-/

namespace ShapeGrammar

/-- The outcome of a plan, and that of the choice between so many arms before the last one. -/
inductive Outcome.Tagged (arms : Nat) : Outcome → Outcome → Prop
  | matched {v w} (d : CursorId) (untagged : untag arms w = .ok v) :
    Tagged arms (.matched d v) (.matched d w)
  | missed : Tagged arms .missed .missed
  | failed (e : Failure) : Tagged arms (.failed e) (.failed e)

/-- How a plan and the parser `whole` in its place may end, if they begin in a later state of `g`.
-/
inductive Counterpart (g : Grammar) (short short' : Bool) (whole : Parser) {α β : Type}
    (twin : α → β → Prop) :
    EStateM.Result Stop Machine α → EStateM.Result Stop Machine β → Prop
  | answered {a b m m'} (twins : twin a b) (muted : m.Muted m') :
    Counterpart g short short' whole twin (.ok a m) (.ok b m')
  | stopped {m m'} (e : Stop) (muted : m.Muted m') :
    Counterpart g short short' whole twin (.error e m) (.error e m')
  /-- The plan has run out of fuel, if it may. -/
  | first (may : short = true) (m : Machine) (r) :
    Counterpart g short short' whole twin (.error .outOfFuel m) r
  /-- The other parser has run out of fuel, if it may. -/
  | second (may : short' = true) (r) (m : Machine) :
    Counterpart g short short' whole twin r (.error .outOfFuel m)
  /-- Someone listens to misses, and what would have to be described has no description. -/
  | undescribed {e m'} (r) (loud : LogLevel.debug.heardFrom g.threshold = true)
    (unsaid : ∀ text, m'.grammar.describe whole ≠ .ok text) :
    Counterpart g short short' whole twin r (.error e m')

namespace Counterpart

variable {g : Grammar} {short short' : Bool} {whole whole' : Parser} {α β γ δ : Type}
  {twin : α → β → Prop} {twin' : γ → δ → Prop} {m m' : Machine}

theorem bind {x : Act α} {y : Act β} {f : α → Act γ} {f' : β → Act δ}
    (h : Counterpart g short short' whole twin (x m) (y m'))
    (hf : ∀ {a b m1 m1'}, x m = .ok a m1 → twin a b → m1.Muted m1' →
      Counterpart g short short' whole twin' (f a m1) (f' b m1')) :
    Counterpart g short short' whole twin' ((x >>= f) m) ((y >>= f') m') := by
  generalize hxm : x m = r at h
  generalize hym : y m' = r' at h
  cases h with
  | answered twins muted =>
    rw [bind_of_ok hxm, bind_of_ok hym]
    exact hf hxm twins muted
  | stopped e muted =>
    rw [bind_of_error hxm, bind_of_error hym]
    exact .stopped e muted
  | first may m1 r' =>
    rw [bind_of_error hxm]
    exact .first may m1 _
  | second may r m1 =>
    rw [bind_of_error hym]
    exact .second may _ m1
  | undescribed r loud unsaid =>
    rw [bind_of_error hym]
    exact .undescribed _ loud unsaid

/-- What has no description in a part has none in the whole. -/
theorem imp {twin' : α → β → Prop} {r : EStateM.Result Stop Machine α}
    {r' : EStateM.Result Stop Machine β} (h : Counterpart g short short' whole twin r r')
    (htwin : ∀ {a b}, twin a b → twin' a b)
    (hwhole : ∀ {g : Grammar}, (∀ text, g.describe whole ≠ .ok text) →
      ∀ text, g.describe whole' ≠ .ok text) :
    Counterpart g short short' whole' twin' r r' := by
  cases h with
  | answered twins muted => exact .answered (htwin twins) muted
  | stopped e muted => exact .stopped e muted
  | first may m r' => exact .first may m r'
  | second may r m => exact .second may r m
  | undescribed r loud unsaid => exact .undescribed r loud (hwhole unsaid)

theorem lift {r : EStateM.Result Stop Machine α} {r' : EStateM.Result Stop Machine β}
    (h : Counterpart g short short' whole twin r r')
    (hwhole : ∀ {g : Grammar}, (∀ text, g.describe whole ≠ .ok text) →
      ∀ text, g.describe whole' ≠ .ok text) :
    Counterpart g short short' whole' twin r r' :=
  h.imp id hwhole

theorem mono {twin' : α → β → Prop} {r : EStateM.Result Stop Machine α}
    {r' : EStateM.Result Stop Machine β} (h : Counterpart g short short' whole twin r r')
    (htwin : ∀ {a b}, twin a b → twin' a b) : Counterpart g short short' whole twin' r r' :=
  h.imp htwin id

/-- What becomes of the answers of the other parser afterwards. -/
theorem bind_right {twin' : α → δ → Prop} {r : EStateM.Result Stop Machine α} {y : Act β}
    {f : β → Act δ} (h : Counterpart g short short' whole twin r (y m'))
    (hf : ∀ {a b} m1, twin a b → ∃ d, f b m1 = .ok d m1 ∧ twin' a d) :
    Counterpart g short short' whole twin' r ((y >>= f) m') := by
  generalize hym : y m' = r' at h
  cases h with
  | answered twins muted =>
    obtain ⟨d, hd, twins⟩ := hf _ twins
    rw [bind_of_ok hym, hd]
    exact .answered twins muted
  | stopped e muted =>
    rw [bind_of_error hym]
    exact .stopped e muted
  | first may m r' => exact .first may m _
  | second may r m =>
    rw [bind_of_error hym]
    exact .second may r m
  | undescribed r loud unsaid =>
    rw [bind_of_error hym]
    exact .undescribed r loud unsaid

/-- Where the other parser has at least as much fuel, only the plan runs out of it. -/
theorem of_ends {r r' : EStateM.Result Stop Machine α} {slack : Bool}
    (h : Ends Machine.Muted slack r r') (may : slack = true → short = true) :
    Counterpart g short short' whole Eq r r' := by
  cases h with
  | short hslack m r' => exact .first (may hslack) m r'
  | ok a muted => exact .answered rfl muted
  | stopped e muted => exact .stopped e muted

/-- Where the plan has at least as much fuel, only the other parser runs out of it. -/
theorem of_ends_symm {r r' : EStateM.Result Stop Machine α} {slack : Bool}
    (h : Ends Machine.Muted slack r' r) (may : slack = true → short' = true) :
    Counterpart g short short' whole Eq r r' := by
  cases h with
  | short hslack m r => exact .second (may hslack) r m
  | ok a muted => exact .answered rfl muted.symm
  | stopped e muted => exact .stopped e muted.symm

end Counterpart

/-! ## Reports -/

theorem describe_either (g : Grammar) (left right : Parser) :
    g.describe (.either left right) = (do
      let l ← g.describe left
      let r ← g.describe right
      .ok (l ++ " or " ++ r)) := by
  show Parser.describeWith g _ (.either left right) = _
  simp only [Parser.describeWith]
  rfl

theorem unsaid_of_left {g : Grammar} {left right : Parser} {e : Stop}
    (h : g.describe left = .error e) (text : String) :
    g.describe (.either left right) ≠ .ok text := by
  rw [describe_either, h]
  intro heq
  cases heq

theorem unsaid_of_right {g : Grammar} {left right : Parser}
    (h : ∀ text, g.describe right ≠ .ok text) (text : String) :
    g.describe (.either left right) ≠ .ok text := by
  rw [describe_either]
  intro heq
  cases hl : g.describe left with
  | error e =>
    rw [hl] at heq
    cases heq
  | ok l =>
    cases hr : g.describe right with
    | error e =>
      rw [hl, hr] at heq
      cases heq
    | ok t => exact h t hr

variable {g : Grammar} {short short' : Bool} {m m' : Machine}

/-- A plan reports a miss by name, a choice by describing its arms. -/
theorem report_counterpart {target : ClassRef} {name : String} {left right : Parser}
    {c : CursorId} (h : m.Muted m') (hg : g.Precedes m.grammar) :
    Counterpart g short short' (.either left right) Eq (reportAttempt target name c m)
      (reportArm left right c m') := by
  by_cases hquiet : m.Quiet
  · have harm : reportArm left right c m' = .ok () m' := by
      unfold reportArm
      rw [bind_of_ok (listens_of_quiet (h.quiet_iff.mpr hquiet))]
      rfl
    rw [reportAttempt_of_quiet hquiet, harm]
    exact .answered rfl h
  · have hloud : ¬ m'.Quiet := fun hquiet' => hquiet (h.quiet_iff.mp hquiet')
    have hheard : LogLevel.debug.heardFrom g.threshold = true := by
      rw [← hg.threshold]
      exact eq_true_of_ne_false hquiet
    unfold reportAttempt reportArm
    rw [bind_of_ok (listens_of_loud hquiet), bind_of_ok (listens_of_loud hloud), if_pos rfl,
      if_pos rfl]
    cases hl : m'.grammar.describe left with
    | error e =>
      rw [bind_of_error (describe_of_error hl)]
      exact .undescribed _ hheard (unsaid_of_left hl)
    | ok l =>
      rw [bind_of_ok (describe_of_ok hl)]
      by_cases hpositioned : (m.cursor c).positioned = true
      · have hpositioned' : (m'.cursor c).positioned = true := by
          rwa [muted_likeness.cursor_eq h c]
        rw [bind_of_ok (position_of_positioned hpositioned),
          bind_of_ok (position_of_positioned hpositioned')]
        cases hr : m'.grammar.describe right with
        | error e =>
          rw [bind_of_error (describe_of_error hr)]
          refine .undescribed _ hheard (unsaid_of_right fun text htext => ?_)
          cases hr.symm.trans htext
        | ok r =>
          rw [bind_of_ok (describe_of_ok hr)]
          exact .answered rfl (h.reported hquiet _ _)
      · have hpositionless : ¬ (m'.cursor c).positioned = true := by
          rwa [muted_likeness.cursor_eq h c]
        rw [bind_of_error (position_of_positionless hpositioned),
          bind_of_error (position_of_positionless hpositionless)]
        exact .stopped _ h

/-! ## Attempts -/

section Attempts

variable {k n : Nat}

/-- What is written by hand for an attempt runs as the attempt does. -/
theorem arm_run {entry : Entry} {a : Attempt Parser} {c : CursorId}
    (hg : g.Precedes m.grammar) :
    run (resolver k) (n + 2) entry (a.arm.parser g) c m =
      runAttempt (run (resolver k) n) entry a c m := by
  unfold Arm.parser runAttempt
  rw [run, run, bind_assoc]
  refine bind_congr_at fun {r m1} hr => ?_
  cases r with
  | all d vs =>
    have hgrow := (grows_gather (run_grows (resolver_grows k) n) entry a.parsers c).of_ok hr
    have hconstruct : m1.grammar.construct a.target vs = g.construct a.target vs :=
      (hg.trans hgrow).construct_eq a.target vs
    show (Act.lift (g.construct a.target vs) >>= fun w => pure (Outcome.matched d w)) m1 =
      (Act.lift (m1.grammar.construct a.target vs) >>= fun w => pure (Outcome.matched d w)) m1
    rw [hconstruct]
  | stopped o =>
    cases o with
    | matched d v => cases gather_stopped hr
    | missed => rfl
    | failed e => rfl

theorem arm_counterpart {whole : Parser} {entry : Entry} {a : Attempt Parser} {c : CursorId}
    {j : Nat}
    (hfuel : short = true ∧ n + 2 ≤ j ∨ short' = true ∧ j ≤ n + 2) (h : m.Muted m')
    (hg : g.Precedes m.grammar) :
    Counterpart g short short' whole Eq (runAttempt (run (resolver k) n) entry a c m)
      (run (resolver k) j entry (a.arm.parser g) c m') := by
  have hstarved : short = true ∧ n + 2 ≤ j → ¬ j < 2 := fun hmay => by omega
  match j, hfuel, hstarved with
  | 0, hfuel, hstarved =>
    obtain ⟨may, -⟩ := hfuel.resolve_left fun hmay => hstarved hmay (by decide)
    exact .second may _ m'
  | 1, hfuel, hstarved =>
    obtain ⟨may, -⟩ := hfuel.resolve_left fun hmay => hstarved hmay (by decide)
    exact .second may _ m'
  | j + 2, hfuel, _ =>
    rw [arm_run (h.precedes hg)]
    rcases hfuel with ⟨may, hle⟩ | ⟨may, hle⟩
    · have hcalls := fun entry p c => run_follows k (Nat.le_of_add_le_add_right hle) entry p c
      exact .of_ends (muted_likeness.law.runAttempt hcalls entry a c m m' h) fun _ => may
    · have hcalls := fun entry p c => run_follows k (Nat.le_of_add_le_add_right hle) entry p c
      exact .of_ends_symm (muted_likeness.law.runAttempt hcalls entry a c m' m h.symm) fun _ => may

/-- The last attempt is made on the cursor itself, with fields or without. -/
theorem runAttempts_last {call : Entry → Parser → CursorId → Act Outcome}
    {report : String → CursorId → Act Unit} {entry : Entry} {a : Attempt Parser} {c : CursorId}
    (hlast : a.snapshot = false) :
    runAttempts call report entry [a] c = runAttempt call entry a c := by
  unfold runAttempts
  split
  · rename_i hunit
    unfold runAttempt
    rw [List.isEmpty_iff.mp hunit]
    rfl
  · rw [hlast]
    rfl

theorem Outcome.Tagged.right {arms : Nat} {o o' : Outcome} (h : o.Tagged arms o') :
    o.Tagged (arms + 1) (o'.mapValue .right) := by
  cases h with
  | matched d untagged => exact .matched d untagged
  | missed => exact .missed
  | failed e => exact .failed e

/-- How a choice is run. -/
theorem run_either {r : Resolver} {entry : Entry} {left right : Parser} {c : CursorId} :
    run r (n + 1) entry (.either left right) c = (do
      let s ← Act.snapshot c
      match ← run r n .fallible left s with
      | .matched d v => pure (.matched d (.left v))
      | _ => do
        reportArm left right c
        (·.mapValue .right) <$> run r n entry right c) :=
  rfl

/-- How an attempt is made that has something to fall back to. -/
theorem runAttempts_snapshot {call : Entry → Parser → CursorId → Act Outcome}
    {report : String → CursorId → Act Unit} {entry : Entry} {a : Attempt Parser}
    {rest : List (Attempt Parser)} {c : CursorId} (hunit : a.isUnit = false)
    (hsnapshot : a.snapshot = true) :
    runAttempts call report entry (a :: rest) c = (do
      let s ← Act.snapshot c
      match ← runAttempt call .fallible a s with
      | .matched d v => pure (.matched d v)
      | _ => do
        report a.name c
        runAttempts call report entry rest c) := by
  rw [runAttempts, hunit, hsnapshot]
  rfl

/-- **Attempts in order come to what the nested choice comes to**, but for the tags. -/
theorem attempts_counterpart {target : ClassRef} {entry : Entry} :
    ∀ {as : List (Attempt Parser)} {j : Nat} {c : CursorId} {m m' : Machine}, OrderedAttempts as →
      (short = true ∧ n + 1 + as.length ≤ j ∨ short' = true ∧ j ≤ n + 2) → m.Muted m' →
      g.Precedes m.grammar →
      Counterpart g short short' (.choice (as.map (·.arm.parser g)))
        (Outcome.Tagged (as.length - 1))
        (runAttempts (run (resolver k) n) (reportAttempt target) entry as c m)
        (run (resolver k) j entry (.choice (as.map (·.arm.parser g))) c m')
  | [], _, _, _, _, hordered, _, _, _ => hordered.elim
  | [a], j, c, m, m', hordered, hfuel, h, hg => by
    rw [runAttempts_last hordered]
    refine (arm_counterpart hfuel h hg).mono fun {o o'} heq => ?_
    subst heq
    cases o with
    | matched d v => exact .matched d rfl
    | missed => exact .missed
    | failed e => exact .failed e
  | a :: b :: rest, 0, c, m, m', _, hfuel, _, _ => by
    obtain ⟨may, -⟩ := hfuel.resolve_left fun hmay => absurd hmay.2 (by simp)
    exact .second may _ m'
  | a :: b :: rest, j + 1, c, m, m', hordered, hfuel, h, hg => by
    obtain ⟨hunit, hsnapshot, hrest⟩ := hordered
    rw [List.length_cons, List.length_cons] at hfuel
    have hchoice : Parser.choice ((a :: b :: rest).map (·.arm.parser g)) =
        .either (a.arm.parser g) (.choice ((b :: rest).map (·.arm.parser g))) := rfl
    rw [hchoice, runAttempts_snapshot hunit hsnapshot, run_either]
    refine .bind (.of_ends (muted_law.snapshot c m m' h) nofun) fun {s s' m1 m1'} hs heq muted => ?_
    subst heq
    have hg1 : g.Precedes m1.grammar := by
      cases hs
      exact hg
    have harm : short = true ∧ n + 2 ≤ j ∨ short' = true ∧ j ≤ n + 2 :=
      hfuel.imp (And.imp_right fun h => by omega) (And.imp_right fun h => by omega)
    have hothers : short = true ∧ n + 1 + (b :: rest).length ≤ j ∨ short' = true ∧ j ≤ n + 2 :=
      hfuel.imp (And.imp_right fun h => by rw [List.length_cons]; omega)
        (And.imp_right fun h => by omega)
    refine .bind (arm_counterpart harm muted hg1) fun {o o' m2 m2'} ho heq muted => ?_
    subst heq
    have hg2 := hg1.trans
      ((grows_runAttempt (run_grows (resolver_grows k) n) .fallible a s).of_ok ho)
    have hnext : Counterpart g short short'
        (.either (a.arm.parser g) (.choice ((b :: rest).map (·.arm.parser g))))
        (Outcome.Tagged (rest.length + 1))
        ((reportAttempt target a.name c >>= fun _ =>
          runAttempts (run (resolver k) n) (reportAttempt target) entry (b :: rest) c) m2)
        ((reportArm (a.arm.parser g) (.choice ((b :: rest).map (·.arm.parser g))) c >>= fun _ =>
          (·.mapValue .right) <$>
            run (resolver k) j entry (.choice ((b :: rest).map (·.arm.parser g))) c) m2') := by
      refine .bind (report_counterpart muted hg2) fun {_ _ m3 m3'} hreported _ muted => ?_
      have hg3 := hg2.trans (Act.Still.of_ok (still_reportAttempt target a.name c) hreported).1
      rw [← bind_pure_comp]
      refine Counterpart.lift ?_ unsaid_of_right
      exact (attempts_counterpart hrest hothers muted hg3).bind_right
        fun _ twins => ⟨_, rfl, twins.right⟩
    cases o with
    | matched d v => exact .answered (.matched d rfl) muted
    | missed => exact hnext
    | failed e => exact hnext

end Attempts

end ShapeGrammar
