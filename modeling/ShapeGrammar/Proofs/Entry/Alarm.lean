import ShapeGrammar.Proofs.Entry.Fallible

/-!
# Failures of total forms end a parse

When the total form of a parser fails, nothing is left to fall back to. To see that, let an alarm go
off as soon as the total form of a recorded parser fails: the run stops there, with all that was
called by then. It turns out that the run without the alarm stops there as well: no further call is
made, and what it fails for is what the recorded parser failed for.

Headlines: `alarmed`, `Alarms`, `alarms_runAttempts`, `alarms_run`, `total_only_without_fallback`.
-/

namespace ShapeGrammar

open Machine

/-- Raises an alarm where the total form of a recorded parser has failed. -/
def alarmed (alarm : Failure → Stop) : Entry → Parser → Outcome → Act Outcome
  | .total, .recorded _ _, .failed e => throw (alarm e)
  | _, _, o => pure o

/-- A run in which an alarm goes off as soon as the total form of a recorded parser fails. -/
def alarmedRun (r : Resolver) (alarm : Failure → Stop) : Nat → Entry → Parser → CursorId →
    Act Outcome :=
  watched (runWith r) (alarmed alarm)

theorem alarmed_fallible (alarm : Failure → Stop) (p : Parser) (o : Outcome) :
    alarmed alarm .fallible p o = pure o := by
  cases p <;> cases o <;> rfl

/-- The alarm goes off for a failure, if at all. -/
theorem alarmed_cases (entry : Entry) (p : Parser) (o : Outcome) :
    (∀ alarm, alarmed alarm entry p o = pure o) ∨
      ∃ e, o = .failed e ∧ ∀ alarm, alarmed alarm entry p o = throw (alarm e) := by
  unfold alarmed
  split
  · exact .inr ⟨_, rfl, fun _ => rfl⟩
  · exact .inl fun _ => rfl

theorem grows_alarmed (alarm : Failure → Stop) (entry : Entry) (p : Parser) (o : Outcome) :
    (alarmed alarm entry p o).Grows := by
  rcases alarmed_cases entry p o with h | ⟨e, -, h⟩
  · rw [h]
    exact (Act.still_pure o).grows
  · rw [h]
    exact (Act.still_throw _).grows

theorem grows_alarmedRun {r : Resolver} (hr : r.Obeys Resolution.Grows) (alarm : Failure → Stop) :
    ∀ (n : Nat) (entry : Entry) (p : Parser) (c : CursorId),
      (alarmedRun r alarm n entry p c).Grows :=
  grows_watched (runWith r) (grows_runWith hr) (grows_alarmed alarm)

/-! ## Fallible forms -/

/-- Where fallible forms are called no alarm goes off. -/
theorem concurs_alarmedRun (k : Nat) {last : Grammar} (alarm : Failure → Stop) : ∀ (n : Nat),
    CallsPair (Continued (Concurs last)) (· = .fallible) last.Genuine
      (alarmedRun (resolver k) alarm n) (carryOut (resolver k) n)
  | 0 => fun _ _ _ _ _ => (concurs_law last).pairAll.stop .outOfFuel
  | n + 1 => fun entry p c he hp => by
    have hr := resolver_grows k
    have hpair := pair_carryWith (k := k) (n := n) (concurs_foresees last)
      (grows_alarmedRun hr alarm n) (grows_carryOut hr n) (concurs_alarmedRun k alarm n)
      ((concurs_law last).pair rfl) he hp c
    subst he
    unfold alarmedRun watched
    rw [carryOut_succ, funext (alarmed_fallible alarm p), bind_pure]
    exact hpair

/-- The fallible form of a genuine parser is run as if there were no alarm. -/
theorem alarmedRun_fallible (k n : Nat) {last : Grammar} (alarm : Failure → Stop) :
    CallsPair (Continued (Concurs last)) (· = .fallible) last.Genuine
      (alarmedRun (resolver k) alarm n) (run (resolver k) n) := fun entry p c he hp => by
  have L := concurs_law last
  have hcarried := L.of_continued (concurs_alarmedRun k alarm n entry p c he hp)
  exact L.continued (hcarried.trans (concurs_carryOut k n entry p c hp).symm)

/-! ## Total forms -/

/-- From a state of a parse on, a computation does the same with and without an alarm, or the alarm
goes off where it ends, for what it fails for. -/
def AlarmsAt {α : Type} (failure : Failure → α) (x : (Failure → Stop) → Act α) (y : Act α)
    (m : Machine) : Prop :=
  (∀ alarm, x alarm m = y m) ∨
    ∃ e m1, y m = .ok (failure e) m1 ∧ ∀ alarm, x alarm m = .error (alarm e) m1

/-- So it is as long as it does not lead beyond a last state of the grammar. -/
structure Alarms (last : Grammar) {α : Type} (failure : Failure → α)
    (x : (Failure → Stop) → Act α) (y : Act α) : Prop where
  grows : y.Grows
  here : ∀ {m}, (stateAfter y m).grammar.Precedes last → AlarmsAt failure x y m

section Alarms

variable {last : Grammar} {α β : Type} {failure : Failure → α} {fails : Failure → β}
  {x : (Failure → Stop) → Act α} {y : Act α} {f : (Failure → Stop) → α → Act β} {g : α → Act β}
  {m : Machine}

/-- What is done alike first does not matter. -/
theorem alarmsAt_after (hsame : ∀ alarm, x alarm m = y m)
    (hf : ∀ {a t}, y m = .ok a t → AlarmsAt fails (f · a) (g a) t) :
    AlarmsAt fails (fun alarm => x alarm >>= f alarm) (y >>= g) m := by
  cases hy : y m with
  | error e t =>
    exact .inl fun alarm => (bind_of_error ((hsame alarm).trans hy)).trans (bind_of_error hy).symm
  | ok a t =>
    have hx : ∀ alarm, (x alarm >>= f alarm) m = f alarm a t := fun alarm =>
      bind_of_ok ((hsame alarm).trans hy)
    unfold AlarmsAt
    rw [bind_of_ok hy]
    simp only [hx]
    exact hf hy

theorem Concurs.alarms (hy : y.Grows) (h : ∀ alarm, Concurs last (x alarm) y) :
    Alarms last failure x y :=
  ⟨hy, fun hlast => .inl fun alarm => (h alarm).same (.inr hlast)⟩

/-- What calls nothing raises no alarm. -/
theorem Act.Grows.alarms (hy : y.Grows) : Alarms last failure (fun _ => y) y :=
  ⟨hy, fun _ => .inl fun _ => rfl⟩

theorem alarms_pure (a : α) : Alarms last failure (fun _ => pure a) (pure a) :=
  (Act.still_pure a).grows.alarms

theorem Concurs.bind_alarms (hy : y.Grows) (h : ∀ alarm, Concurs last (x alarm) y)
    (hf : ∀ a, Alarms last fails (f · a) (g a)) :
    Alarms last fails (fun alarm => x alarm >>= f alarm) (y >>= g) where
  grows := hy.bind fun a => (hf a).grows
  here := fun {m} hlast => by
    have hfirst := precedes_first (fun a => (hf a).grows) hlast
    refine alarmsAt_after (fun alarm => (h alarm).same (.inr hfirst)) fun {a t} hy => ?_
    rw [stateAfter_bind_of_ok hy] at hlast
    exact (hf a).here hlast

/-- What goes on with a failure fails for the same, and does nothing more. -/
theorem Alarms.bind (h : Alarms last failure x y) (hfails : ∀ e, g (failure e) = pure (fails e))
    (hf : ∀ a, Alarms last fails (f · a) (g a)) :
    Alarms last fails (fun alarm => x alarm >>= f alarm) (y >>= g) where
  grows := h.grows.bind fun a => (hf a).grows
  here := fun {m} hlast => by
    rcases h.here (precedes_first (fun a => (hf a).grows) hlast) with hsame | ⟨e, m1, hy, hx⟩
    · refine alarmsAt_after hsame fun {a t} hy => ?_
      rw [stateAfter_bind_of_ok hy] at hlast
      exact (hf a).here hlast
    · refine .inr ⟨e, m1, ?_, fun alarm => bind_of_error (hx alarm)⟩
      rw [bind_of_ok hy, hfails]
      rfl

theorem Alarms.map (h : Alarms last failure x y) (change : α → β)
    (hfails : ∀ e, change (failure e) = fails e) :
    Alarms last fails (fun alarm => change <$> x alarm) (change <$> y) := by
  simp only [← bind_pure_comp]
  exact h.bind (fun e => congrArg pure (hfails e)) fun a => alarms_pure _

/-- What is done next may depend on what is known by then. -/
theorem alarms_foresee {x : Resolution α} (hx : x.Grows) (hg : ∀ a, (g a).Grows)
    (hf : ∀ {a m t}, Act.resolve x m = .ok a t → t.grammar.Precedes last →
      Alarms last fails (f · a) (g a)) :
    Alarms last fails (fun alarm => Act.resolve x >>= f alarm) (Act.resolve x >>= g) where
  grows := (Act.still_resolve hx).grows.bind hg
  here := fun {m} hlast => alarmsAt_after (fun _ => rfl) fun {a t} ha => by
    rw [stateAfter_bind_of_ok ha] at hlast
    exact (hf ha (((hg a).after t).trans hlast)).here hlast

end Alarms

section Calls

variable {last : Grammar} {call : (Failure → Stop) → Entry → Parser → CursorId → Act Outcome}
  {call' : Entry → Parser → CursorId → Act Outcome}
  (hgrows : ∀ entry p c, (call' entry p c).Grows)
  (hfallible : ∀ alarm, CallsPair (Continued (Concurs last)) (· = .fallible) last.Genuine
    (call alarm) call')
  (htotal : ∀ p c, last.Genuine p →
    Alarms last .failed (fun alarm => call alarm .total p c) (call' .total p c))

include htotal in
theorem alarms_gather : ∀ {ps : List Parser} (c : CursorId), (∀ p ∈ ps, last.Genuine p) →
    Alarms last (.stopped ∘ .failed) (fun alarm => gather (call alarm) .total ps c)
      (gather call' .total ps c)
  | [], _, _ => alarms_pure _
  | p :: ps, c, hps => by
    unfold gather
    refine (htotal p c (hps p List.mem_cons_self)).bind (fun e => rfl) fun o => ?_
    cases o with
    | matched d v =>
      have hrest := alarms_gather d fun q hq => hps q (List.mem_cons_of_mem p hq)
      exact hrest.bind (fun e => rfl) fun r => by cases r <;> exact alarms_pure _
    | missed => exact (Act.still_fail _).grows.alarms
    | failed e => exact alarms_pure _

include htotal in
theorem alarms_runAttempt {a : Attempt Parser} (ha : ∀ p ∈ a.parsers, last.Genuine p)
    (c : CursorId) :
    Alarms last .failed (fun alarm => runAttempt (call alarm) .total a c)
      (runAttempt call' .total a c) := by
  unfold runAttempt
  refine (alarms_gather htotal c ha).bind (fun e => rfl) fun r => ?_
  cases r with
  | all d vs =>
    exact ((Act.still_construct a.target vs).bind fun v => Act.still_pure _).grows.alarms
  | stopped o => exact alarms_pure o

include hfallible in
/-- What looks ahead calls fallible forms, so no alarm goes off. -/
theorem alarm_tried {r : Resolver} {n : Nat} {p : Parser} (hp : last.Genuine p) (c : CursorId)
    (alarm : Failure → Stop) (hlooks : p.LooksAhead) :
    Concurs last (runWith r n (call alarm) .total p c) (runWith r n call' .total p c) := by
  have L := concurs_law last
  have Lf : PairLaw (Continued (Concurs last)) Eq (· = .fallible) := L.pair rfl
  refine L.of_continued ?_
  cases p with
  | opt body =>
    refine Lf.bindEq (Lf.snapshot c) fun s => Lf.bindEq
      (hfallible alarm .fallible body s rfl (hp.part List.mem_cons_self)) fun o => ?_
    cases o <;> exact Lf.pure rfl
  | many checked body =>
    exact Lf.bindEq (Lf.collect (hfallible alarm) checked (hp.part List.mem_cons_self) c
      (.inl rfl)) fun r => Lf.pure rfl
  | not body =>
    refine Lf.bindEq (Lf.snapshot c) fun s => Lf.bindEq
      (hfallible alarm .fallible body s rfl (hp.part List.mem_cons_self)) fun o => ?_
    cases o with
    | matched d v => exact Lf.bindEq (Lf.describe body) fun d => Lf.pure rfl
    | missed => exact Lf.pure rfl
    | failed e => exact Lf.pure rfl
  | _ => exact hlooks.elim

include hgrows hfallible htotal

/-- **Of attempts in order, only the last one can fail**, and that ends them. -/
theorem alarms_runAttempts {report : String → CursorId → Act Unit}
    (hreport : ∀ name c, (report name c).Still) : ∀ {as : List (Attempt Parser)} (c : CursorId),
      (∀ a ∈ as, ∀ p ∈ a.parsers, last.Genuine p) →
      Alarms last .failed (fun alarm => runAttempts (call alarm) report .total as c)
        (runAttempts call' report .total as c)
  | [], _, _ => (Act.still_throw _).grows.alarms
  | a :: rest, c, has => by
    have L := concurs_law last
    have Lf : PairLaw (Continued (Concurs last)) Eq (· = .fallible) := L.pair rfl
    have ha := has a List.mem_cons_self
    have hrest := alarms_runAttempts hreport c fun b hb => has b (List.mem_cons_of_mem a hb)
    unfold runAttempts
    split
    · exact ((Act.still_construct a.target []).bind fun v => Act.still_pure _).grows.alarms
    · split
      · exact alarms_runAttempt htotal ha c
      · refine Concurs.bind_alarms (L.snapshot c).left (fun _ => L.snapshot c) fun s => ?_
        refine Concurs.bind_alarms (grows_runAttempt hgrows .fallible a s) (fun alarm =>
          L.of_continued (Lf.runAttempt (hfallible alarm) rfl a s ha)) fun o => ?_
        have hfell := Concurs.bind_alarms (hreport a.name c).grows
          (fun _ => (hreport a.name c).grows.concurs) fun _ => hrest
        cases o with
        | matched d v => exact alarms_pure _
        | missed => exact hfell
        | failed e => exact hfell

/-- **Where the total form of a part fails, the whole fails for the same.** -/
theorem alarms_runWith {k n : Nat} {p : Parser} (hp : last.Genuine p) (c : CursorId) :
    Alarms last .failed (fun alarm => runWith (resolver k) n (call alarm) .total p c)
      (runWith (resolver k) n call' .total p c) := by
  have L := concurs_law last
  have hr := resolver_grows k
  have Lf : PairLaw (Continued (Concurs last)) Eq (· = .fallible) := L.pair rfl
  cases p with
  | element v => exact (grows_runWith hr hgrows .total (.element v) c).alarms
  | any => exact (grows_runWith hr hgrows .total .any c).alarms
  | satisfy test description =>
    exact (grows_runWith hr hgrows .total (.satisfy test description) c).alarms
  | seq parts =>
    refine (alarms_gather htotal c fun q hq => hp.part hq).bind (fun e => rfl) fun r => ?_
    cases r <;> exact alarms_pure _
  | opt body =>
    refine Concurs.alarms (grows_runWith hr hgrows .total (.opt body) c) fun alarm => ?_
    exact alarm_tried hfallible (p := .opt body) hp c alarm trivial
  | many checked body =>
    refine Concurs.alarms (grows_runWith hr hgrows .total (.many checked body) c) fun alarm => ?_
    exact alarm_tried hfallible (p := .many checked body) hp c alarm trivial
  | many1 checked body =>
    have hbody : last.Genuine body := hp.part List.mem_cons_self
    refine Concurs.bind_alarms (L.mark checked c).left (fun _ => L.mark checked c) fun start => ?_
    refine (htotal body c hbody).bind (fun e => rfl) fun o => ?_
    cases o with
    | matched d v =>
      refine Concurs.bind_alarms (L.checkMark body start d).left (fun _ => L.checkMark body start d)
        fun _ => ?_
      refine Concurs.bind_alarms (grows_collect hgrows checked body n d) (fun alarm =>
        L.of_continued (Lf.collect (hfallible alarm) checked hbody d (.inl rfl))) fun r => ?_
      exact alarms_pure _
    | missed => exact alarms_pure _
    | failed e => exact alarms_pure _
  | either left right =>
    have hleft : last.Genuine left := hp.part List.mem_cons_self
    have hright : last.Genuine right := hp.part (List.mem_cons_of_mem left List.mem_cons_self)
    refine Concurs.bind_alarms (L.snapshot c).left (fun _ => L.snapshot c) fun s => ?_
    refine Concurs.bind_alarms (hgrows .fallible left s) (fun alarm =>
      L.of_continued (hfallible alarm .fallible left s rfl hleft)) fun o => ?_
    have hfell := Concurs.bind_alarms (L.reportArm left right c).left
      (fun _ => L.reportArm left right c) fun _ =>
        (htotal right c hright).map (·.mapValue .right) fun e => rfl
    cases o with
    | matched d v => exact alarms_pure _
    | missed => exact hfell
    | failed e => exact hfell
  | not body =>
    refine Concurs.alarms (grows_runWith hr hgrows .total (.not body) c) fun alarm => ?_
    exact alarm_tried hfallible (p := .not body) hp c alarm trivial
  | box b =>
    refine alarms_foresee (hr.boxParser b) (fun q => hgrows .total q c) fun {q m t} hq hfound => ?_
    exact htotal q c (hp.part (part_of_boxParser hq hfound))
  | map change body =>
    refine (htotal body c (hp.part List.mem_cons_self)).bind (fun e => rfl) fun o => ?_
    cases o with
    | matched d v => exact ((Act.still_lift _).bind fun w => Act.still_pure _).grows.alarms
    | missed => exact alarms_pure _
    | failed e => exact alarms_pure _
  | derived target =>
    refine alarms_foresee (hr.planOf target) (fun plan => hgrows .total (.planned plan) c)
      fun {plan m t} hplan hfound => ?_
    exact htotal (.planned plan) c (hp.part (part_of_planOf hplan hfound))
  | planned plan =>
    exact alarms_runAttempts hgrows hfallible htotal (still_reportAttempt plan.target) c
      fun a ha q hq => hp.part (List.mem_flatMap.mpr ⟨a, ha, hq⟩)
  | generated plan code =>
    obtain ⟨hordered, rfl⟩ := hp.authentic
    unfold runWith
    dsimp only
    simp only [hordered.invoke_eq]
    exact alarms_runAttempts hgrows hfallible htotal (fun _ _ => Act.still_pure ()) c
      fun a ha q hq => hp.part (List.mem_flatMap.mpr ⟨a, ha, hq⟩)
  | recorded name body =>
    refine Concurs.bind_alarms (L.position c).left (fun _ => L.position c) fun k => ?_
    refine Concurs.bind_alarms (L.note _).left (fun _ => L.note _) fun _ => ?_
    exact htotal body c (hp.part List.mem_cons_self)
  | misser accepts => exact (grows_runWith hr hgrows .total (.misser accepts) c).alarms
  | unimplemented => exact (grows_runWith hr hgrows .total .unimplemented c).alarms
  | inert => exact (grows_runWith hr hgrows .total .inert c).alarms

end Calls

/-! ## Runs -/

/-- The alarm goes off for what the whole fails for. -/
theorem Alarms.watched {last : Grammar} {x : (Failure → Stop) → Act Outcome} {y : Act Outcome}
    (h : Alarms last .failed x y) (entry : Entry) (p : Parser) :
    Alarms last .failed (fun alarm => x alarm >>= alarmed alarm entry p) y where
  grows := h.grows
  here := fun {m} hlast => by
    rcases h.here hlast with hsame | ⟨e, m1, hy, hx⟩
    · cases hy : y m with
      | error e t => exact .inl fun alarm => (bind_of_error ((hsame alarm).trans hy)).trans hy.symm
      | ok o t =>
        have hshown : ∀ alarm, (x alarm >>= alarmed alarm entry p) m =
            alarmed alarm entry p o t := fun alarm => bind_of_ok ((hsame alarm).trans hy)
        rcases alarmed_cases entry p o with hpure | ⟨e, rfl, hthrow⟩
        · refine .inl fun alarm => (hshown alarm).trans ?_
          rw [hpure, hy]
          rfl
        · refine .inr ⟨e, t, hy, fun alarm => (hshown alarm).trans ?_⟩
          rw [hthrow]
          rfl
    · exact .inr ⟨e, m1, hy, fun alarm => bind_of_error (hx alarm)⟩

/-- **Where a total form fails in the run of the total form of a genuine parser, the run ends**,
with the same failure. -/
theorem alarms_run (k : Nat) {last : Grammar} : ∀ (n : Nat) (p : Parser) (c : CursorId),
    last.Genuine p → Alarms last .failed
      (fun alarm => alarmedRun (resolver k) alarm n .total p c) (run (resolver k) n .total p c)
  | 0, _, _, _ => (Act.still_throw _).grows.alarms
  | n + 1, p, c, hp => by
    have hr := resolver_grows k
    have hwhole := alarms_runWith (k := k) (n := n) (run_grows hr n)
      (fun alarm => alarmedRun_fallible k n alarm) (alarms_run k n) hp c
    rw [run_succ]
    exact hwhole.watched .total p

/-- **Total forms are called only where nothing is left to fall back to.** The fallible form of a
parser calls only fallible forms. In a run of either form, as soon as the total form of a recorded
parser fails, the whole run fails for the same and calls nothing more. And whichever form of them is
called, optional parts, negations, repetitions after their first match, and choices before their
last alternative call only fallible forms. -/
theorem total_only_without_fallback {k n : Nat} {entry : Entry} {p : Parser} {c : CursorId}
    {m m' : Machine} (hm' : m' = stateAfter (run (resolver k) n entry p c) m)
    (hp : m'.grammar.Genuine p) :
    (entry = .fallible → m.Fallibly m') ∧
      ((∀ alarm, alarmedRun (resolver k) alarm n entry p c m = run (resolver k) n entry p c m) ∨
        entry = .total ∧ ∃ e, run (resolver k) n entry p c m = .ok (.failed e) m' ∧
          ∀ alarm, alarmedRun (resolver k) alarm n entry p c m = .error (alarm e) m') ∧
      (p.LooksAhead → m.Fallibly m') ∧
      (∀ {checked body n'}, p = .many1 checked body → n = n' + 1 →
        m' = m ∨ (stateAfter (run (resolver k) n' entry body c) m).Fallibly m') ∧
      (p.Chooses → m.Fallibly m' ∨ ∃ x m1,
        LastAlternative (resolver k) m'.grammar entry c n p x ∧ m.Fallibly m1 ∧
          run (resolver k) n entry p c m = x m1) := by
  subst hm'
  refine ⟨?_, ?_, fun hlooks => lookahead_fallibly hlooks hp, ?_,
    fun hchoice => choice_fallibly_or hchoice hp⟩
  · rintro rfl
    exact run_fallibly hp
  · cases entry with
    | fallible =>
      refine .inl fun alarm => ?_
      have hpair := (concurs_law _).of_continued
        (alarmedRun_fallible k n alarm .fallible p c rfl hp)
      exact hpair.same (.inr (.refl _))
    | total =>
      refine ((alarms_run k n p c hp).here (.refl _)).imp id fun ⟨e, m1, hrun, halarm⟩ => ?_
      rw [stateAfter_of_ok hrun]
      exact ⟨rfl, e, hrun, halarm⟩
  · rintro checked body n' rfl rfl
    exact many1_fallibly_or hp

/-- The letter `a`, or else the letter `b`, both recorded. -/
def recordedLetters : Parser :=
  .either (.recorded "first" (.element (.text "a"))) (.recorded "second" (.element (.text "b")))

/-- On `"c"`, the second letter is parsed by its total form, and its failure is that of the whole;
up to then only the fallible form of the first one was called. -/
theorem total_only_without_fallback_recordedLetters :
    (stateAfter (run (resolver 0) 3 .total recordedLetters 0)
        (reading (.empty none) "c")).grammar.Genuine recordedLetters ∧
      recordedLetters.Chooses ∧
      (∃ e, run (resolver 0) 3 .total recordedLetters 0 (reading (.empty none) "c") =
        .ok (.failed e) (stateAfter (run (resolver 0) 3 .total recordedLetters 0)
          (reading (.empty none) "c")) ∧
        ∀ alarm, alarmedRun (resolver 0) alarm 3 .total recordedLetters 0
          (reading (.empty none) "c") =
          .error (alarm e) (stateAfter (run (resolver 0) 3 .total recordedLetters 0)
            (reading (.empty none) "c"))) ∧
      ∃ x m1, LastAlternative (resolver 0)
        (stateAfter (run (resolver 0) 3 .total recordedLetters 0)
          (reading (.empty none) "c")).grammar .total 0 3 recordedLetters x ∧
        (reading (.empty none) "c").Fallibly m1 ∧
        run (resolver 0) 3 .total recordedLetters 0 (reading (.empty none) "c") = x m1 := by
  have hgenuine : ∀ g : Grammar, g.Genuine recordedLetters := by
    intro g
    refine Grammar.genuine_of_closed (P := fun q => q = recordedLetters ∨
      q = .recorded "first" (.element (.text "a")) ∨
      q = .recorded "second" (.element (.text "b")) ∨ q = .element (.text "a") ∨
      q = .element (.text "b")) ?_ ?_ (.inl rfl)
    · rintro q s (rfl | rfl | rfl | rfl | rfl) hs <;>
        simp only [recordedLetters, Parser.parts, List.mem_cons, List.not_mem_nil, or_false] at hs
      · rcases hs with rfl | rfl
        · exact .inr (.inl rfl)
        · exact .inr (.inr (.inl rfl))
      · exact .inr (.inr (.inr (.inl hs)))
      · exact .inr (.inr (.inr (.inr hs)))
    · rintro q (rfl | rfl | rfl | rfl | rfl) <;> trivial
  have hchoice : recordedLetters.Chooses := trivial
  have hevents : (stateAfter (run (resolver 0) 3 .total recordedLetters 0)
      (reading (.empty none) "c")).events.toList =
        [⟨"first", .fallible, 0⟩, ⟨"second", .total, 0⟩] := rfl
  obtain ⟨-, halarm, -, -, hfell⟩ := total_only_without_fallback (k := 0) (n := 3)
    (p := recordedLetters) (c := 0) (m := reading (.empty none) "c") rfl (hgenuine _)
  refine ⟨hgenuine _, hchoice, (halarm.resolve_left fun hsame => ?_).2,
    (hfell hchoice).resolve_left fun hfallible => ?_⟩
  · cases hsame fun _ => .outOfFuel
  · obtain ⟨es, hes, hall⟩ := hfallible
    have hes' : [⟨"first", .fallible, 0⟩, ⟨"second", .total, 0⟩] = es := hevents.symm.trans hes
    have htotal : ⟨"second", .total, 0⟩ ∈ es :=
      hes' ▸ List.mem_cons_of_mem _ List.mem_cons_self
    cases hall _ htotal

end ShapeGrammar
