import ShapeGrammar.Proofs.Repetition.Endless
import ShapeGrammar.Proofs.Repetition.Greedy
import ShapeGrammar.Proofs.Repetition.Outlasts
import ShapeGrammar.Proofs.Repetition.Unchecked

/-!
# The check on progress changes nothing but the failure

A parser whose repetitions do not look at places outlasts the parser itself: it comes to the same
wherever that one comes to something, and where that one refuses a match for consuming nothing, it
makes this match again and again. It does not look at places otherwise either, so that it comes to
the same on cursors that do not tell where they stand, if nobody listens to misses.

The comparison is up to the state of the grammar at the end of the run, in which all that the parser
leads to is known.

Headlines: `outlasts_collect`, `outlasts_runWith`, `run_outlasts`, `unchecked_outlasts`.
-/

namespace ShapeGrammar

open Machine

/-! ## Repetitions that do not look at places -/

section Loose

variable {last : Grammar} {seen : Bool} {call call' : Entry → Parser → CursorId → Act Outcome}
  (hcall : CallsOutlast last seen call call') {body : Parser} (hbody : last.Fair seen body)
include hcall hbody

theorem outlasts_collect_unchecked : ∀ {n : Nat} {c : CursorId} {m : Machine}, m.Serves seen c →
    Outlasts last seen m (collect call false body n c) (collect call' false body n c)
      fun r m1 => m1.Serves seen r.1
  | 0, _, _, _ => .stop trivial
  | n + 1, c, m, hc => by
    unfold collect
    refine outlasts_tried hcall hbody hc fun {o m1} hc1 ho => ?_
    cases o with
    | matched d v =>
      show Outlasts last seen m1
        (collect call false body n d >>= fun r => pure (r.1, v :: r.2))
        (collect call' false body n d >>= fun r => pure (r.1, v :: r.2)) _
      exact (outlasts_collect_unchecked (ho d v rfl)).bind fun _ _ hr => .pure hr
    | missed => exact .pure hc1
    | failed e => exact .pure hc1

theorem outlasts_collectFirst_unchecked (entry : Entry) {n : Nat} {c : CursorId} {m : Machine}
    (hc : m.Serves seen c) :
    Outlasts last seen m (collectFirst call false body n entry c)
      (collectFirst call' false body n entry c) fun o m1 => o.ServedBy seen m1 := by
  rw [collectFirst_eq, collectFirst_eq]
  show Outlasts last seen m (call entry body c >>= afterFirst call false body n none)
    (call' entry body c >>= afterFirst call' false body n none) _
  refine (hcall.outlasts entry hbody hc).bind fun {o m1} _ _ ho => ?_
  cases o with
  | matched d v =>
    show Outlasts last seen m1
      (collect call false body n d >>= fun r => pure (Outcome.matched r.1 (.nonempty v r.2)))
      (collect call' false body n d >>= fun r => pure (Outcome.matched r.1 (.nonempty v r.2))) _
    exact (outlasts_collect_unchecked hcall hbody (ho d v rfl)).bind fun _ _ hr =>
      .pure (Outcome.servedBy_matched hr)
  | missed => exact .pure (Outcome.servedBy_missed seen m1)
  | failed e => exact .pure (Outcome.servedBy_failed seen e m1)

end Loose

/-! ## Repetitions that refuse matches -/

section Checked

variable {last : Grammar} {seen : Bool} {k n : Nat}
  {call' : Entry → Parser → CursorId → Act Outcome}
  (hcall : CallsOutlast last seen (run (resolver (k + 1)) n) call')
  {body : Parser} (hbody : last.Fair seen body)

omit hcall hbody in
/-- A match that does not get onward is refused, or it cannot be described. -/
theorem checkMark_refuses (body : Parser) {start : Nat} {d : CursorId} {m : Machine}
    (hd : (m.cursor d).positioned = true) (hstall : (m.cursor d).position ≤ start) :
    ∃ e, checkMark body (some start) d m = .error e m ∧
      (¬ m.grammar.Leads body .inert → e = .outOfFuel ∨ ¬ e.Ordinary) := by
  refine ⟨_, checkMark_of_stall hd hstall, fun hinert => ?_⟩
  unfold Grammar.refusal
  cases hdescribe : m.grammar.describe body with
  | ok text => exact .inr id
  | error e => exact .inl (Grammar.describe_outOfFuel hinert hdescribe)

include hcall hbody

/-- **What comes behind a match.** If the match got onward, the repetition goes on; if not, it is
refused, and what does not refuse it never comes to an end. -/
theorem outlasts_onward {f start : Nat} {d : CursorId} {m : Machine} (hd : m.Serves seen d)
    (hstill : (m.cursor d).position ≤ start → m.grammar.Precedes last →
      Standstill (k + 1) n body (m.cursor d) m.grammar)
    (hrest : Outlasts last seen m (collect (run (resolver (k + 1)) n) true body f d)
      (collect call' false body f d) fun r m1 => m1.Serves seen r.1) :
    Outlasts last seen m
      (checkMark body (some start) d >>= fun _ => collect (run (resolver (k + 1)) n) true body f d)
      (collect call' false body f d) fun r m1 => m1.Serves seen r.1 := by
  by_cases hstall : (m.cursor d).position ≤ start
  · obtain ⟨e, hrefused, hundecided⟩ := checkMark_refuses body hd.positioned hstall
    have hstop := bind_of_error (f := fun _ => collect (run (resolver (k + 1)) n) true body f d)
      hrefused
    refine ⟨⟨?_, fun hok => by cases hstop.symm.trans hok⟩, fun hlast => ?_⟩
    · rw [stateAfter_of_error hstop]
      exact .refl m
    · rw [stateAfter_of_error hstop] at hlast
      have hstands := hstill hstall hlast
      obtain ⟨m1, hendless, hretells⟩ := hstands.endless f hd.lt rfl ⟨m.grammar.reports, rfl⟩
      have hends := (outlasts_collect_unchecked hcall hbody (n := f) hd).ends (by
        rw [stateAfter_of_error hendless]
        exact hretells.back.trans hlast)
      rw [hendless] at hends
      rw [hstop]
      generalize collect call' false body f d (m.dimmed seen) = r at hends ⊢
      have he := hundecided hstands.describable
      cases hends with
      | stopped _ _ => exact .endless he m _
      | endless _ _ m2 => exact .endless he m m2
  · exact .of_eq (bind_of_ok (checkMark_of_onward hd.positioned (Nat.lt_of_not_le hstall))) hrest

theorem outlasts_collect : ∀ {f : Nat} {c : CursorId} {m : Machine}, m.Serves seen c →
    Outlasts last seen m (collect (run (resolver (k + 1)) n) true body f c)
      (collect call' false body f c) fun r m1 => m1.Serves seen r.1
  | 0, _, _, _ => .stop trivial
  | f + 1, c, m, hc => by
    unfold collect
    refine (outlasts_snapshot hc).bind fun {s m1} hsnapshot hm1 hs => ?_
    refine (hcall.outlasts .fallible hbody hs).bind fun {o m2} hcalled hm2 ho => ?_
    have hc2 := (hc.onto hm1).onto hm2
    cases o with
    | matched d v =>
      have hd := ho d v rfl
      obtain ⟨hlent, -, hheld⟩ := (hcall.lender .fallible body hs.lt).of_ok hcalled
      -- the cursor of the round has stayed where it was, and the match is behind the snapshot of it
      have hsnapped := (snapshot_eq hsnapshot).1
      have hkept :=
        (snapshot_call (fun {_ _} => hcall.lender .fallible body) hc.lt hsnapshot hcalled).1
      have honward := hlent.own (hheld d v rfl).own (hheld d v rfl).lt
      refine .of_eq (z := (checkMark body (some (m.cursor c).position) d >>= fun _ =>
        collect (run (resolver (k + 1)) n) true body f d) >>= fun r => pure (r.1, v :: r.2)) ?_ ?_
      · rw [bind_assoc, ← hkept]
        exact bind_of_ok (mark_of_positioned hc2.positioned)
      · show Outlasts last seen m2 _
          (collect call' false body f d >>= fun r => pure (r.1, v :: r.2))
          _
        refine (outlasts_onward hcall hbody hd (fun hstall hlast => ?_)
          (outlasts_collect hd)).bind fun _ _ hr => .pure hr
        rw [← hsnapped] at hstall
        exact ⟨⟨s, m1, d, v, m2, hs.lt, honward.eq_of_le hstall, hcalled, hd.lt, rfl, rfl⟩,
          (hbody.mono hlast).not_inert⟩
    | missed => exact .pure hc2
    | failed e => exact .pure hc2

/-- The first call is made in the form of the whole; a match of it is one in the other form. -/
theorem outlasts_collectFirst (entry : Entry) {f : Nat} {c : CursorId} {m : Machine}
    (hc : m.Serves seen c) :
    Outlasts last seen m (collectFirst (run (resolver (k + 1)) n) true body f entry c)
      (collectFirst call' false body f entry c) fun o m1 => o.ServedBy seen m1 := by
  rw [collectFirst_eq, collectFirst_eq]
  refine .of_eq (bind_of_ok (mark_of_positioned hc.positioned)) ?_
  show Outlasts last seen m _ (call' entry body c >>= afterFirst call' false body f none) _
  refine (hcall.outlasts entry hbody hc).bind fun {o m1} hcalled hm1 ho => ?_
  cases o with
  | matched d v =>
    have hd := ho d v rfl
    obtain ⟨hlent, -, hheld⟩ := (hcall.lender entry body hc.lt).of_ok hcalled
    have honward := hlent.own (hheld d v rfl).own (hheld d v rfl).lt
    refine .of_eq (z := (checkMark body (some (m.cursor c).position) d >>= fun _ =>
      collect (run (resolver (k + 1)) n) true body f d) >>= fun r =>
        pure (Outcome.matched r.1 (.nonempty v r.2))) ?_ ?_
    · rw [bind_assoc]
      rfl
    · show Outlasts last seen m1 _
        (collect call' false body f d >>= fun r => pure (Outcome.matched r.1 (.nonempty v r.2))) _
      refine (outlasts_onward hcall hbody hd (fun hstall hlast => ?_)
        (outlasts_collect hcall hbody hd)).bind fun _ _ hr => .pure (Outcome.servedBy_matched hr)
      have hfair := hbody.mono hlast
      obtain ⟨m1', hcalled', halike⟩ := match_of_total hcalled hfair.genuine
      have hcursor := alike_likeness.cursor_eq halike
      obtain ⟨events, -⟩ := halike
      exact ⟨⟨c, m, d, v, _, hc.lt, honward.eq_of_le hstall, hcalled', hd.lt, hcursor d, rfl⟩,
        hfair.not_inert⟩
  | missed => exact .pure (Outcome.servedBy_missed seen m1)
  | failed e => exact .pure (Outcome.servedBy_failed seen e m1)

end Checked

/-! ## One call -/

section Calls

variable {last : Grammar} {seen : Bool} {call call' : Entry → Parser → CursorId → Act Outcome}
  (hcall : CallsOutlast last seen call call') {c : CursorId} {m : Machine}
include hcall

theorem outlasts_either {left right : Parser} (hp : last.Fair seen (.either left right))
    {r : Resolver} {n : Nat} (entry : Entry) (hc : m.Serves seen c) :
    Outlasts last seen m (runWith r n call entry (.either left right) c)
      (runWith r n call' entry (.either left right) c) fun o m1 => o.ServedBy seen m1 := by
  have hright : last.Fair seen right := hp.part (List.mem_cons_of_mem left List.mem_cons_self)
  unfold runWith
  refine outlasts_tried hcall (hp.part List.mem_cons_self) hc fun {o m1} hc1 ho => ?_
  have hreport : Outlasts last seen m1 _ _ _ := outlasts_reportArm left right hc1
  have hfell := hreport.bind fun _ hm2 _ =>
    outlasts_mapValue .right (hcall.outlasts entry hright (hc1.onto hm2))
  cases o with
  | matched d v => exact .pure (Outcome.servedBy_matched (ho d v rfl))
  | missed => exact hfell
  | failed e => exact hfell

theorem outlasts_not {body : Parser} (hp : last.Fair seen (.not body)) {r : Resolver}
    {n : Nat} (entry : Entry) (hc : m.Serves seen c) :
    Outlasts last seen m (runWith r n call entry (.not body) c)
      (runWith r n call' entry (.not body) c) fun o m1 => o.ServedBy seen m1 := by
  unfold runWith
  refine outlasts_tried hcall (hp.part List.mem_cons_self) hc fun {o m1} hc1 _ => ?_
  cases o with
  | matched d v =>
    cases entry with
    | fallible => exact .pure (Outcome.servedBy_missed seen m1)
    | total =>
      exact (outlasts_describe body).bind fun {_ m2} _ _ _ =>
        .pure (Outcome.servedBy_failed seen _ m2)
  | missed => exact .pure (Outcome.servedBy_matched hc1)
  | failed e => exact .pure (Outcome.servedBy_matched hc1)

theorem outlasts_box {k : Nat} {b : BoxId} (hp : last.Fair seen (.box b)) (entry : Entry)
    (hc : m.Serves seen c) :
    Outlasts last seen m (Act.resolve ((resolver k).boxParser b) >>= fun q => call entry q c)
      (Act.resolve ((resolver k).boxParser b) >>= fun q => call' entry q c)
      fun o m1 => o.ServedBy seen m1 := by
  refine outlasts_foresee ((resolver_grows k).boxParser b) ((resolver_ordinary k).boxParser b)
    (fun hm1 => hcall.lender.yields entry _ (hc.onto hm1)) fun hq hm1 hlast => ?_
  exact hcall.outlasts entry (hp.part (part_of_boxParser hq hlast)) (hc.onto hm1)

theorem outlasts_derived {k : Nat} {target : ClassId} (hp : last.Fair seen (.derived target))
    (entry : Entry) (hc : m.Serves seen c) :
    Outlasts last seen m
      (Act.resolve ((resolver k).planOf target) >>= fun plan => call entry (.planned plan) c)
      (Act.resolve ((resolver k).planOf target) >>= fun plan => call' entry (.planned plan) c)
      fun o m1 => o.ServedBy seen m1 := by
  refine outlasts_foresee ((resolver_grows k).planOf target) ((resolver_ordinary k).planOf target)
    (fun hm1 => hcall.lender.yields entry _ (hc.onto hm1)) fun {plan _} hplan hm1 hlast => ?_
  exact hcall.outlasts entry (hp.part (part_of_planOf hplan hlast)) (hc.onto hm1)

theorem outlasts_map {change : Value → Except Fault Value} {body : Parser}
    (hp : last.Fair seen (.map change body)) {r : Resolver} {n : Nat} (entry : Entry)
    (hc : m.Serves seen c) :
    Outlasts last seen m (runWith r n call entry (.map change body) c)
      (runWith r n call' entry (.map change body) c) fun o m1 => o.ServedBy seen m1 := by
  have hchange : (Parser.map change body).Fair seen := hp _ (.refl _)
  unfold runWith
  refine (hcall.outlasts entry (hp.part List.mem_cons_self) hc).bind fun {o m1} _ _ ho => ?_
  cases o with
  | matched d v =>
    exact (outlasts_lift (hchange v)).bind fun _ hm2 _ =>
      .pure (Outcome.servedBy_matched ((ho d v rfl).onto hm2))
  | missed => exact .pure (Outcome.servedBy_missed seen m1)
  | failed e => exact .pure (Outcome.servedBy_failed seen e m1)

/-- Calls are recorded only where positions may be seen. -/
theorem outlasts_recorded {name : String} {body : Parser}
    (hp : last.Fair seen (.recorded name body)) {r : Resolver} {n : Nat} (entry : Entry)
    (hc : m.Serves seen c) :
    Outlasts last seen m (runWith r n call entry (.recorded name body) c)
      (runWith r n call' entry (.recorded name body) c) fun o m1 => o.ServedBy seen m1 := by
  obtain rfl : seen = true := hp _ (.refl _)
  have hposition : Outlasts last true m (Act.position c) (Act.position c) fun _ _ => True :=
    .same ((Act.still_position c).yields m) fun hstop => by
      cases (position_of_positioned hc.positioned).symm.trans hstop
  unfold runWith
  refine hposition.bind fun _ hm1 _ => (outlasts_note _).bind fun _ hm2 _ => ?_
  exact hcall.outlasts entry (hp.part List.mem_cons_self) ((hc.onto hm1).onto hm2)

omit hcall in
theorem outlasts_misser (accepts : Value → Bool) {r : Resolver} {n : Nat} (entry : Entry)
    (hc : m.Serves seen c) :
    Outlasts last seen m (runWith r n call entry (.misser accepts) c)
      (runWith r n call entry (.misser accepts) c) fun o m1 => o.ServedBy seen m1 := by
  unfold runWith
  refine (outlasts_next hc).bind fun {v m1} _ hm1 _ => ?_
  cases v with
  | none => exact outlasts_noMatch _ entry
  | some v =>
    dsimp only
    split
    · exact .pure (Outcome.servedBy_matched (hc.onto hm1))
    · exact outlasts_noMatch _ entry

end Calls

/-- **A call in which repetitions do not look at places outlasts a call**, if the calls inside do.
-/
theorem outlasts_runWith {last : Grammar} {seen : Bool} {k n : Nat}
    {call' : Entry → Parser → CursorId → Act Outcome}
    (hcall : CallsOutlast last seen (run (resolver (k + 1)) n) call') {p : Parser}
    (hp : last.Fair seen p) (entry : Entry) {c : CursorId} {m : Machine} (hc : m.Serves seen c) :
    Outlasts last seen m (runWith (resolver (k + 1)) n (run (resolver (k + 1)) n) entry p c)
      (looseWith (resolver (k + 1)) n call' entry p c) fun o m1 => o.ServedBy seen m1 := by
  cases p with
  | element v => exact outlasts_leaf _ _ entry hc
  | any => exact outlasts_leaf _ _ entry hc
  | satisfy test description => exact outlasts_leaf _ _ entry hc
  | seq parts =>
    refine (outlasts_gather hcall entry (fun q hq => hp.part hq) hc).bind fun {r m1} _ _ hr => ?_
    cases r with
    | all d vs => exact .pure (Outcome.servedBy_matched hr)
    | stopped o => exact .pure hr
  | opt body =>
    refine outlasts_tried hcall (hp.part List.mem_cons_self) hc fun {o m1} hc1 ho => ?_
    cases o with
    | matched d v => exact .pure ho
    | missed => exact .pure (Outcome.servedBy_matched hc1)
    | failed e => exact .pure (Outcome.servedBy_matched hc1)
  | many checked body =>
    have hbody : last.Fair seen body := hp.part List.mem_cons_self
    cases checked with
    | false =>
      exact (outlasts_collect_unchecked hcall hbody hc).bind fun _ _ hr =>
        .pure (Outcome.servedBy_matched hr)
    | true =>
      exact (outlasts_collect hcall hbody hc).bind fun _ _ hr =>
        .pure (Outcome.servedBy_matched hr)
  | many1 checked body =>
    have hbody : last.Fair seen body := hp.part List.mem_cons_self
    cases checked with
    | false => exact outlasts_collectFirst_unchecked hcall hbody entry hc
    | true => exact outlasts_collectFirst hcall hbody entry hc
  | either left right => exact outlasts_either hcall hp entry hc
  | not body => exact outlasts_not hcall hp entry hc
  | box b => exact outlasts_box hcall hp entry hc
  | map change body => exact outlasts_map hcall hp entry hc
  | derived target => exact outlasts_derived hcall hp entry hc
  | planned plan =>
    exact outlasts_runAttempts hcall (fun name => outlasts_reportAttempt plan.target name) entry
      (fun a ha q hq => hp.part (List.mem_flatMap.mpr ⟨a, ha, hq⟩)) hc
  | generated plan code =>
    obtain ⟨hordered, rfl⟩ := (hp _ (.refl _)).authentic
    show Outlasts last seen m (plan.code.invoke _ plan entry c)
      (runAttempts call' (fun _ _ => pure ()) entry plan.attempts c) _
    rw [hordered.invoke_eq]
    exact outlasts_runAttempts hcall (fun _ {_ _} _ => .pure trivial) entry
      (fun a ha q hq => hp.part (List.mem_flatMap.mpr ⟨a, ha, hq⟩)) hc
  | recorded name body => exact outlasts_recorded hcall hp entry hc
  | misser accepts =>
    have hmisser : Outlasts last seen m
        (runWith (resolver (k + 1)) n (run (resolver (k + 1)) n) entry (.misser accepts) c) _ _ :=
      outlasts_misser accepts entry hc
    exact hmisser
  | unimplemented => exact .stop trivial
  | inert => exact .stop trivial

/-! ## Runs -/

/-- **A run without the check outlasts the run with it.** -/
theorem run_outlasts (k : Nat) {last : Grammar} {seen : Bool} : ∀ n,
    CallsOutlast last seen (run (resolver (k + 1)) n)
      fun entry p c => run (resolver (k + 1)).unchecked n entry p.unchecked c
  | 0 => ⟨run_lender (resolver_grows (k + 1)) 0,
      fun _ {_ _ m} _ _ _ => .stopped (e := .outOfFuel) trivial m⟩
  | n + 1 => by
    refine ⟨run_lender (resolver_grows (k + 1)) (n + 1), fun entry {p c m} hp hc hlast => ?_⟩
    rw [run_succ] at hlast
    rw [run_succ, run_succ, runWith_unchecked (hp p (.refl p)).authentic]
    exact (outlasts_runWith (run_outlasts k n) hp entry hc).ends hlast

/-- What the check on progress makes of a run, beside the run of the same parser without it on the
machine as it is viewed: that one comes to the same wherever this one comes to something other than
that a match has consumed nothing; and where this one refuses such a match, that one has no end,
however many calls it may make. -/
structure OnlyRefuses (view : Machine → Machine) (r : Resolver) (n : Nat) (entry : Entry)
    (p : Parser) (c : CursorId) (m : Machine) : Prop where
  /-- The same match, miss or failure, the same places of the cursors, the same calls recorded. -/
  answers : ∀ {o m1}, run r n entry p c m = .ok o m1 →
    run r.unchecked n entry p.unchecked c (view m) = .ok o (view m1)
  /-- The same fault. -/
  stops : ∀ {f m1}, run r n entry p c m = .error (.fault f) m1 → f.Ordinary →
    run r.unchecked n entry p.unchecked c (view m) = .error (.fault f) (view m1)
  /-- No end, where there is a refusal. -/
  endless : ∀ {text place m1}, run r n entry p c m = .error (.fault (.zeroWidth text place)) m1 →
    ∀ n', ∃ m2, run r.unchecked n' entry p.unchecked c (view m) = .error .outOfFuel m2

section OnlyRefuses

variable {k n : Nat} {entry : Entry} {p : Parser} {c : CursorId} {m : Machine} {seen : Bool}

/-- Up to where the run itself leads. -/
theorem run_outlived (hc : m.Serves seen c)
    (hp : (stateAfter (run (resolver (k + 1)) n entry p c) m).grammar.Fair seen p) :
    Outlived seen (run (resolver (k + 1)) n entry p c m)
      (run (resolver (k + 1)).unchecked n entry p.unchecked c (m.dimmed seen)) :=
  (run_outlasts k n).ends entry hp hc (.refl _)

/-- Where the parser refuses a match, it goes on and on without the check, with the same fuel. -/
theorem endless_of_refusal {text : String} {place : Nat} {m1 : Machine} (hc : m.Serves seen c)
    (h : run (resolver (k + 1)) n entry p c m = .error (.fault (.zeroWidth text place)) m1)
    (hp : m1.grammar.Fair seen p) :
    ∃ m2, run (resolver (k + 1)).unchecked n entry p.unchecked c (m.dimmed seen) =
      .error .outOfFuel m2 := by
  have hends := run_outlived hc (by rwa [stateAfter_of_error h])
  rw [h] at hends
  generalize run (resolver (k + 1)).unchecked n entry p.unchecked c (m.dimmed seen) = r at hends ⊢
  cases hends with
  | stopped he => exact he.elim
  | endless _ _ m2 => exact ⟨m2, rfl⟩

theorem run_onlyRefuses (hc : m.Serves seen c)
    (hp : (stateAfter (run (resolver (k + 1)) n entry p c) m).grammar.Fair seen p) :
    OnlyRefuses (dimmed seen) (resolver (k + 1)) n entry p c m := by
  have hends := run_outlived hc hp
  refine ⟨fun h => ?_, fun h hf => ?_, fun {text place m1} h n' => ?_⟩
  · rw [h] at hends
    generalize run (resolver (k + 1)).unchecked n entry p.unchecked c (m.dimmed seen) = r at hends ⊢
    cases hends with
    | ok => rfl
  · rw [h] at hends
    generalize run (resolver (k + 1)).unchecked n entry p.unchecked c (m.dimmed seen) = r at hends ⊢
    cases hends with
    | stopped _ _ => rfl
    | endless he => exact he.elim (fun heq => by cases heq) fun hnot => absurd hf hnot
  · rw [stateAfter_of_error h] at hp
    rcases Nat.le_total n n' with hle | hle
    · -- with more fuel the parser itself refuses the same match
      have hmore := run_follows (k + 1) hle entry p c m m (.refl m)
      rw [h] at hmore
      generalize h' : run (resolver (k + 1)) n' entry p c m = r at hmore
      cases hmore with
      | stopped e alike =>
        exact endless_of_refusal hc h' (hp.mono (alike.symm.precedes (.refl _)))
    · -- with less fuel there is no more to come than with more
      obtain ⟨m2, hendless⟩ := endless_of_refusal hc h hp
      have hless := follows_of_le ((resolver_deaf (k + 1)).unchecked Resolution.deaf_law.toStepLaw)
        ((resolver_grows (k + 1)).unchecked Resolution.grows_law.toStepLaw) hle entry p.unchecked c
        (m.dimmed seen) (m.dimmed seen) (.refl _)
      rw [hendless] at hless
      generalize run (resolver (k + 1)).unchecked n' entry p.unchecked c (m.dimmed seen) =
        r at hless ⊢
      cases hless with
      | short _ m3 => exact ⟨m3, rfl⟩
      | stopped e alike => exact ⟨_, rfl⟩

/-- **Switching the check on progress off changes nothing but the failure.** Take any fair parser,
called at either entry point on any cursor that tells where it stands. Without the check it comes to
the same, with the same places of all cursors and the same calls of recorded parsers, wherever the
parser comes to anything but a refusal; and where the parser refuses a match for consuming nothing,
no number of calls suffices without the check. If nobody listens to misses, and no recorded parser
is among those it leads to, all this is so as well on cursors that do not tell where they stand. -/
theorem unchecked_outlasts (hc : (m.cursor c).positioned = true)
    (hp : (stateAfter (run (resolver (k + 1)) n entry p c) m).grammar.Fair true p) :
    OnlyRefuses id (resolver (k + 1)) n entry p c m ∧
      (m.Quiet →
        (stateAfter (run (resolver (k + 1)) n entry p c) m).grammar.Fair false p →
          OnlyRefuses (dimmed false) (resolver (k + 1)) n entry p c m) := by
  refine ⟨?_, fun hquiet hp' => run_onlyRefuses ⟨hc, fun _ => hquiet⟩ hp'⟩
  have hview : dimmed true = id := funext dimmed_true
  exact hview ▸ run_onlyRefuses ⟨hc, nofun⟩ hp

end OnlyRefuses

/-- Letters `a`, and then optional letters `b`, one at least. -/
def lettersThenOptions : Parser :=
  .seq [.many true (.element (.text "a")), .many1 true (.opt (.element (.text "b")))]

/-- After `aa`, an optional letter matches without consuming anything, and is refused; without the
check it matches for ever. -/
theorem unchecked_outlasts_lettersThenOptions :
    ((reading (.empty none) "aa").cursor 0).positioned = true ∧
      (stateAfter (run (resolver 1) 5 .total lettersThenOptions 0)
        (reading (.empty none) "aa")).grammar.Fair true lettersThenOptions ∧
      (reading (.empty none) "aa").Quiet ∧
      (stateAfter (run (resolver 1) 5 .total lettersThenOptions 0)
        (reading (.empty none) "aa")).grammar.Fair false lettersThenOptions ∧
      (∃ text m1, run (resolver 1) 5 .total lettersThenOptions 0 (reading (.empty none) "aa") =
        .error (.fault (.zeroWidth text 2)) m1) ∧
      (∀ n, ∃ m2, run (resolver 1).unchecked n .total lettersThenOptions.unchecked 0
        (reading (.empty none) "aa") = .error .outOfFuel m2) ∧
      ∀ n, ∃ m2, run (resolver 1).unchecked n .total lettersThenOptions.unchecked 0
        ((reading (.empty none) "aa").dimmed false) = .error .outOfFuel m2 := by
  have hfair : ∀ (g : Grammar) seen, g.Fair seen lettersThenOptions := by
    intro g seen q hq
    have hclosed := hq.closed (P := fun q => q = lettersThenOptions ∨
      q = .many true (.element (.text "a")) ∨ q = .element (.text "a") ∨
      q = .many1 true (.opt (.element (.text "b"))) ∨ q = .opt (.element (.text "b")) ∨
      q = .element (.text "b")) ?_ (.inl rfl)
    · rcases hclosed with rfl | rfl | rfl | rfl | rfl | rfl <;> trivial
    · rintro q s (rfl | rfl | rfl | rfl | rfl | rfl) hs <;>
        simp only [lettersThenOptions, Parser.parts, List.mem_cons, List.not_mem_nil,
          or_false] at hs
      · rcases hs with rfl | rfl
        · exact .inr (.inl rfl)
        · exact .inr (.inr (.inr (.inl rfl)))
      · exact .inr (.inr (.inl hs))
      · exact .inr (.inr (.inr (.inr (.inl hs))))
      · exact .inr (.inr (.inr (.inr (.inr hs))))
  have hrefused : ∃ text m1, run (resolver 1) 5 .total lettersThenOptions 0
      (reading (.empty none) "aa") = .error (.fault (.zeroWidth text 2)) m1 := ⟨_, _, rfl⟩
  have hquiet : (reading (.empty none) "aa").Quiet := rfl
  obtain ⟨hsame, hblind⟩ := @unchecked_outlasts 0 5 .total lettersThenOptions 0
    (reading (.empty none) "aa") rfl (hfair _ true)
  obtain ⟨text, m1, hrun⟩ := hrefused
  exact ⟨rfl, hfair _ true, hquiet, hfair _ false, ⟨text, m1, hrun⟩, hsame.endless hrun,
    (hblind hquiet (hfair _ false)).endless hrun⟩

end ShapeGrammar
