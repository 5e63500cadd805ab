import ShapeGrammar.Proofs.Entry.Alike
import ShapeGrammar.Proofs.Peg.Refinement
import ShapeGrammar.Proofs.Recurrence.Rerun

/-!
# Runs that are made again

A run is made once, and later again, on another cursor at the same place. What the first run found
out, the second one finds known: plans, and what delayed parsers are. So where the first run
answers, the second takes the same way to the same answer: it matches up to the same place with the
same value, or misses, or fails for the same reason. Only descriptions are given anew. A delayed
parser that the first run described as unresolved may have been found out since, so the second run
may describe it by other words, or find no end to its description and stop.

The induction is on the number of nested calls. What carries it is that each part of the first run
ends in a grammar that precedes the one at the end of the whole, from which on things lasted.

Headlines: `Rerun.Lasts`, `Outcome.Recurs`, `Recurring`, `gather_recurs`, `runAttempts_recurs`.
-/

namespace ShapeGrammar

open Machine

/-! ## What comes again -/

/-- The second run does with a parser what the first did: it is a part of what is run, what was
found out is known, and the classes that are constructed are still constructed alike. -/
structure Rerun.Lasts (R : Rerun) (p : Parser) : Prop where
  leads : R.ended.Leads R.root p
  retains : R.ended.Retains R.began
  threshold : R.began.threshold = R.ended.threshold
  constructs : ∀ {q plan a}, R.ended.Leads R.root q → q.plan? = some plan → a ∈ plan.attempts →
    ∀ vs, R.began.construct a.target vs = R.ended.construct a.target vs

/-- A failure that comes again: the same one, or one that describes a part of what is run, which is
described anew. -/
inductive Failure.Recurs (R : Rerun) : Failure → Failure → Prop
  | same (e : Failure) : Recurs R e e
  | described {p : Parser} {g g' : Grammar} {text text' : String}
    (leads : R.ended.Leads R.root (.not p)) (early : g.Precedes R.ended)
    (late : R.began.Precedes g') (first : g.describe p = .ok text)
    (second : g'.describe p = .ok text') :
    Recurs R (.unexpectedMatch text) (.unexpectedMatch text')

/-- An outcome that comes again: a match names the cursor that stands for the one that was named. -/
inductive Outcome.Recurs (R : Rerun) : Outcome → Outcome → Prop
  | matched {d : Nat} (hd : R.Holds d) (v : Value) :
    Recurs R (.matched d v) (.matched (R.image d) v)
  | missed : Recurs R .missed .missed
  | failed {e e' : Failure} (h : e.Recurs R e') : Recurs R (.failed e) (.failed e')

/-- The parts of a sequence that come again. -/
inductive Gathered.Recurs (R : Rerun) : Gathered → Gathered → Prop
  | all {d : Nat} (hd : R.Holds d) (vs : List Value) : Recurs R (.all d vs) (.all (R.image d) vs)
  | stopped {o o' : Outcome} (h : o.Recurs R o') : Recurs R (.stopped o) (.stopped o')

/-- Calls that come again where they are made again. -/
structure Recurring (R : Rerun) (call call' : Entry → Parser → CursorId → Act Outcome) : Prop where
  grows : ∀ entry p c, (call entry p c).Grows
  redone : ∀ {entry p c m m1 m' o}, Mirrors R m m' → R.Holds c → call entry p c m = .ok o m1 →
    m1.grammar.Precedes R.ended → R.Lasts p →
      Redone R (call' entry p (R.image c)) m' fun o' m1' => o.Recurs R o' ∧ Mirrors R m1 m1'

theorem Recurring.again {R : Rerun} {call call' : Entry → Parser → CursorId → Act Outcome}
    (h : Recurring R call call') {entry : Entry} {p : Parser} {c : CursorId} {m m1 m' : Machine}
    {o : Outcome} (hm : Mirrors R m m') (hc : R.Holds c) (ho : call entry p c m = .ok o m1)
    (hg : m1.grammar.Precedes R.ended) (hp : R.Lasts p) :
    Again (call' entry p (R.image c)) m' fun o' m1' => o.Recurs R o' ∧ Mirrors R m1 m1' :=
  (h.redone hm hc ho hg hp).again

theorem Rerun.Lasts.part {R : Rerun} {p q : Parser} (h : R.Lasts p) (hq : q ∈ p.parts R.ended) :
    R.Lasts q :=
  { h with leads := h.leads.trans (.step hq (.refl q)) }

section Outcomes

variable {R : Rerun} {o o' : Outcome}

theorem Outcome.Recurs.endsAt_eq (h : o.Recurs R o') (entry : Entry) :
    o'.endsAt entry = o.endsAt entry := by
  cases h <;> cases entry <;> rfl

theorem Outcome.Recurs.seenBy (h : o.Recurs R o') (entry : Entry) :
    (o.seenBy entry).Recurs R (o'.seenBy entry) := by
  cases entry with
  | total => exact h
  | fallible =>
    cases h with
    | matched hd v => exact .matched hd v
    | missed => exact .missed
    | failed h => exact .missed

theorem Outcome.Recurs.mapValue (h : o.Recurs R o') (f : Value → Value) :
    (o.mapValue f).Recurs R (o'.mapValue f) := by
  cases h with
  | matched hd v => exact .matched hd (f v)
  | missed => exact .missed
  | failed h => exact .failed h

end Outcomes

section Parts

variable {R : Rerun} {call call' : Entry → Parser → CursorId → Act Outcome}
  {entry : Entry} {m m1 m' : Machine} {c : Nat}

/-! ## Growth -/

theorem gather_precedes (hcall : Recurring R call call') {ps : List Parser} {r : Gathered}
    (h : gather call entry ps c m = .ok r m1) : m.grammar.Precedes m1.grammar :=
  (grows_gather hcall.grows entry ps c).of_ok h

theorem mark_precedes {checked : Bool} {start : Option Nat} (h : mark checked c m = .ok start m1) :
    m.grammar.Precedes m1.grammar :=
  ((still_mark checked c).of_ok h).1

theorem checkMark_precedes {body : Parser} {start : Option Nat} {u : Unit}
    (h : checkMark body start c m = .ok u m1) : m.grammar.Precedes m1.grammar :=
  ((still_checkMark body start c).of_ok h).1

theorem collect_precedes (hcall : Recurring R call call') {checked : Bool} {body : Parser}
    {n : Nat} {r : CursorId × List Value} (h : collect call checked body n c m = .ok r m1) :
    m.grammar.Precedes m1.grammar :=
  (grows_collect hcall.grows checked body n c).of_ok h

/-! ## Parts in a row -/

theorem gather_recurs (hcall : Recurring R call call') :
    ∀ {ps : List Parser} {m m1 m' : Machine} {c : Nat} {r : Gathered}, Mirrors R m m' →
      R.Holds c → gather call entry ps c m = .ok r m1 → m1.grammar.Precedes R.ended →
      (∀ p ∈ ps, R.Lasts p) → Redone R (gather call' entry ps (R.image c)) m' fun r' m1' =>
        r.Recurs R r' ∧ Mirrors R m1 m1'
  | [], _, _, _, _, _, hm, hc, h, _, _ => by
    cases h
    exact redone_of_ok rfl ⟨.all hc [], hm⟩
  | p :: ps, m, m1, m', c, r, hm, hc, h, hg, hps => by
    unfold gather at h ⊢
    obtain ⟨o, m2, ho, h⟩ := bind_eq_ok_iff.mp h
    have hp := hps p List.mem_cons_self
    have hstop : ∀ o : Outcome, call entry p c m = .ok o m2 →
        (if o.endsAt entry then pure (Gathered.stopped o)
          else Act.fail (.type (.other "only a match is taken apart"))) m2 = .ok r m1 →
        m2 = m1 ∧ r = .stopped o ∧ o.endsAt entry = true := by
      intro o ho h
      split at h
      · rename_i hends
        cases h
        exact ⟨rfl, rfl, hends⟩
      · cases h
    cases o with
    | matched d v =>
      obtain ⟨rest, m3, hrest, h⟩ := bind_eq_ok_iff.mp h
      have heq : m1 = m3 := by cases rest <;> cases h <;> rfl
      subst heq
      refine (hcall.redone hm hc ho ((gather_precedes hcall hrest).trans hg) hp).bind ?_
      rintro _ m2' ⟨hfirst, hm2⟩
      cases hfirst with
      | matched hd v =>
        refine (gather_recurs hcall hm2 hd hrest hg
          fun q hq => hps q (List.mem_cons_of_mem p hq)).bind ?_
        rintro _ m3' ⟨hr, hm3⟩
        cases hr with
        | all hd vs =>
          cases h
          exact redone_of_ok rfl ⟨.all hd _, hm3⟩
        | stopped ho =>
          cases h
          exact redone_of_ok rfl ⟨.stopped ho, hm3⟩
    | missed =>
      obtain ⟨rfl, rfl, hends⟩ := hstop .missed ho h
      refine (hcall.redone hm hc ho hg hp).bind ?_
      rintro _ m2' ⟨hfirst, hm2⟩
      cases hfirst
      dsimp only
      rw [if_pos hends]
      exact redone_of_ok rfl ⟨.stopped .missed, hm2⟩
    | failed e =>
      obtain ⟨rfl, rfl, hends⟩ := hstop (.failed e) ho h
      refine (hcall.redone hm hc ho hg hp).bind ?_
      rintro _ m2' ⟨hfirst, hm2⟩
      have hends' := (hfirst.endsAt_eq entry).trans hends
      cases hfirst with
      | failed he =>
        dsimp only
        rw [if_pos hends']
        exact redone_of_ok rfl ⟨.stopped (.failed he), hm2⟩

/-! ## Repetition -/

theorem mark_again {checked : Bool} {start : Option Nat} (hm : Mirrors R m m') (hc : R.Holds c)
    (h : mark checked c m = .ok start m1) :
    m1 = m ∧ mark checked (R.image c) m' = .ok start m' := by
  cases checked with
  | false =>
    cases h
    exact ⟨rfl, rfl⟩
  | true =>
    obtain ⟨i, hi, rfl⟩ := map_eq_ok_iff.mp h
    obtain ⟨rfl, hi'⟩ := position_again hm hc hi
    exact ⟨rfl, map_eq_ok_iff.mpr ⟨i, hi', rfl⟩⟩

theorem checkProgress_again {body : Parser} {start : Nat} {u : Unit} (hm : Mirrors R m m')
    (hc : R.Holds c) (h : checkProgress body start c m = .ok u m1) :
    m1 = m ∧ checkProgress body start (R.image c) m' = .ok () m' := by
  unfold checkProgress at h ⊢
  obtain ⟨stop, m2, hstop, hrest⟩ := bind_eq_ok_iff.mp h
  obtain ⟨rfl, hstop'⟩ := position_again hm hc hstop
  split at hrest
  · obtain ⟨text, m3, -, hrest⟩ := bind_eq_ok_iff.mp hrest
    cases hrest
  · rename_i hprogress
    cases hrest
    refine ⟨rfl, ?_⟩
    rw [bind_of_ok hstop', if_neg hprogress]
    rfl

theorem checkMark_again {body : Parser} {start : Option Nat} {u : Unit} (hm : Mirrors R m m')
    (hc : R.Holds c) (h : checkMark body start c m = .ok u m1) :
    m1 = m ∧ checkMark body start (R.image c) m' = .ok () m' := by
  cases start with
  | none =>
    cases h
    exact ⟨rfl, rfl⟩
  | some start => exact checkProgress_again hm hc h

theorem collect_recurs (hcall : Recurring R call call') {checked : Bool} {body : Parser}
    (hbody : R.Lasts body) : ∀ {n : Nat} {m m1 m' : Machine} {c d : Nat} {vs : List Value},
      Mirrors R m m' → R.Holds c → collect call checked body n c m = .ok (d, vs) m1 →
      m1.grammar.Precedes R.ended →
        Redone R (collect call' checked body n (R.image c)) m' fun r m1' =>
        (R.Holds d ∧ r = (R.image d, vs)) ∧ Mirrors R m1 m1'
  | 0, _, _, _, _, _, _, _, _, h, _ => by cases h
  | n + 1, m, m1, m', c, d, vs, hm, hc, h, hg => by
    unfold collect at h ⊢
    obtain ⟨s, m2, hs, h⟩ := bind_eq_ok_iff.mp h
    obtain ⟨o, m3, ho, h⟩ := bind_eq_ok_iff.mp h
    obtain ⟨m2', hs', hm2, hheld⟩ := snapshot_again hm hc hs
    refine redone_bind_of_ok hs' ?_
    cases o with
    | matched e v =>
      obtain ⟨start, m4, hmark, h⟩ := bind_eq_ok_iff.mp h
      obtain ⟨⟨⟩, m5, hcheck, h⟩ := bind_eq_ok_iff.mp h
      obtain ⟨⟨f, ws⟩, m6, hrest, h⟩ := bind_eq_ok_iff.mp h
      cases h
      have hgrow := (mark_precedes hmark).trans
        ((checkMark_precedes hcheck).trans (collect_precedes hcall hrest))
      refine (hcall.redone hm2 hheld ho (hgrow.trans hg) hbody).bind ?_
      rintro _ m3' ⟨hfirst, hm3⟩
      cases hfirst with
      | matched he v =>
        obtain ⟨rfl, hmark'⟩ := mark_again hm3 hc hmark
        obtain ⟨rfl, hcheck'⟩ := checkMark_again hm3 he hcheck
        refine redone_bind_of_ok hmark' (redone_bind_of_ok hcheck' ?_)
        refine (collect_recurs hcall hbody hm3 he hrest hg).bind ?_
        rintro _ m6' ⟨⟨hd, rfl⟩, hm6⟩
        exact redone_of_ok rfl ⟨⟨hd, rfl⟩, hm6⟩
    | missed =>
      cases h
      refine (hcall.redone hm2 hheld ho hg hbody).bind ?_
      rintro _ m3' ⟨hfirst, hm3⟩
      cases hfirst
      exact redone_of_ok rfl ⟨⟨hc, rfl⟩, hm3⟩
    | failed e =>
      cases h
      refine (hcall.redone hm2 hheld ho hg hbody).bind ?_
      rintro _ m3' ⟨hfirst, hm3⟩
      cases hfirst
      exact redone_of_ok rfl ⟨⟨hc, rfl⟩, hm3⟩

theorem collectFirst_recurs (hcall : Recurring R call call') {checked : Bool} {body : Parser}
    (hbody : R.Lasts body) {n : Nat} {o : Outcome} (hm : Mirrors R m m') (hc : R.Holds c)
    (h : collectFirst call checked body n entry c m = .ok o m1) (hg : m1.grammar.Precedes R.ended) :
    Redone R (collectFirst call' checked body n entry (R.image c)) m' fun o' m1' =>
      o.Recurs R o' ∧ Mirrors R m1 m1' := by
  unfold collectFirst at h ⊢
  obtain ⟨start, m2, hmark, h⟩ := bind_eq_ok_iff.mp h
  obtain ⟨first, m3, hfirst, h⟩ := bind_eq_ok_iff.mp h
  obtain ⟨rfl, hmark'⟩ := mark_again hm hc hmark
  refine redone_bind_of_ok hmark' ?_
  cases first with
  | matched e v =>
    obtain ⟨⟨⟩, m5, hcheck, h⟩ := bind_eq_ok_iff.mp h
    obtain ⟨⟨f, ws⟩, m6, hrest, h⟩ := bind_eq_ok_iff.mp h
    cases h
    have hgrow := (checkMark_precedes hcheck).trans (collect_precedes hcall hrest)
    refine (hcall.redone hm hc hfirst (hgrow.trans hg) hbody).bind ?_
    rintro _ m3' ⟨hr, hm3⟩
    cases hr with
    | matched he v =>
      obtain ⟨rfl, hcheck'⟩ := checkMark_again hm3 he hcheck
      refine redone_bind_of_ok hcheck' ((collect_recurs hcall hbody hm3 he hrest hg).bind ?_)
      rintro _ m6' ⟨⟨hd, rfl⟩, hm6⟩
      exact redone_of_ok rfl ⟨.matched hd _, hm6⟩
  | missed =>
    cases h
    refine (hcall.redone hm hc hfirst hg hbody).bind ?_
    rintro _ m3' ⟨hr, hm3⟩
    cases hr
    exact redone_of_ok rfl ⟨.missed, hm3⟩
  | failed e =>
    cases h
    refine (hcall.redone hm hc hfirst hg hbody).bind ?_
    rintro _ m3' ⟨hr, hm3⟩
    cases hr with
    | failed he => exact redone_of_ok rfl ⟨.failed he, hm3⟩

/-! ## Reports -/

/-- What is said to those who listen says nothing about outcomes. -/
structure Told (R : Rerun) (x y : CursorId → Act Unit) : Prop where
  grows : ∀ c, (x c).Grows
  redone : ∀ {c m m1 m' u}, Mirrors R m m' → R.Holds c → x c m = .ok u m1 →
    m1.grammar.Precedes R.ended → Redone R (y (R.image c)) m' fun _ m1' => Mirrors R m1 m1'

theorem listens_again {level : LogLevel} {listens : Bool}
    (hthreshold : R.began.threshold = R.ended.threshold) (hm : Mirrors R m m')
    (hg : m.grammar.Precedes R.ended)
    (h : Act.listens level m = .ok listens m1) :
    m1 = m ∧ Act.listens level m' = .ok listens m' := by
  cases h
  refine ⟨rfl, ?_⟩
  have heq : m'.grammar.threshold = m.grammar.threshold :=
    hm.later.threshold.trans (hthreshold.trans hg.threshold)
  show EStateM.Result.ok (level.heardFrom m'.grammar.threshold) m' = _
  rw [heq]

theorem report_again (r r' : Report) (hm : Mirrors R m m') :
    Redone R (Act.report r') m' fun _ m1' =>
      Mirrors R { m with grammar := m.grammar.report r } m1' :=
  redone_of_ok rfl (hm.still rfl rfl (m'.grammar.report_eq_withReports r'))

theorem reportArm_told (hthreshold : R.began.threshold = R.ended.threshold) {left right : Parser}
    (hleft : R.ended.Leads R.root left) (hright : R.ended.Leads R.root right) :
    Told R (reportArm left right) (reportArm left right) where
  grows c := (still_reportArm left right c).grows
  redone {c m m1 m' u} hm hc h hg := by
    have hgrow := ((still_reportArm left right c).of_ok h).1
    obtain ⟨listens, m2, hlistens, h⟩ := bind_eq_ok_iff.mp h
    obtain ⟨rfl, hlistens'⟩ := listens_again hthreshold hm (hgrow.trans hg) hlistens
    refine redone_bind_of_ok hlistens' ?_
    cases listens with
    | false =>
      cases h
      exact redone_of_ok rfl hm
    | true =>
      obtain ⟨l, m3, hl, h⟩ := bind_eq_ok_iff.mp h
      obtain ⟨i, m4, hi, h⟩ := bind_eq_ok_iff.mp h
      obtain ⟨r, m5, hr, h⟩ := bind_eq_ok_iff.mp h
      cases h
      obtain ⟨-, rfl⟩ := describe_eq_ok hl
      obtain ⟨rfl, hi'⟩ := position_again hm hc hi
      obtain ⟨-, rfl⟩ := describe_eq_ok hr
      refine (redone_describe hleft hm.retold).bind ?_
      rintro l' _ ⟨rfl, -⟩
      refine redone_bind_of_ok hi' ((redone_describe hright hm.retold).bind ?_)
      rintro r' _ ⟨rfl, -⟩
      exact report_again _ _ hm

theorem reportAttempt_told (hthreshold : R.began.threshold = R.ended.threshold) (target : ClassRef)
    (name : String) : Told R (reportAttempt target name) (reportAttempt target name) where
  grows c := (still_reportAttempt target name c).grows
  redone {c m m1 m' u} hm hc h hg := by
    have hgrow := ((still_reportAttempt target name c).of_ok h).1
    obtain ⟨listens, m2, hlistens, h⟩ := bind_eq_ok_iff.mp h
    obtain ⟨rfl, hlistens'⟩ := listens_again hthreshold hm (hgrow.trans hg) hlistens
    refine redone_bind_of_ok hlistens' ?_
    cases listens with
    | false =>
      cases h
      exact redone_of_ok rfl hm
    | true =>
      obtain ⟨i, m3, hi, h⟩ := bind_eq_ok_iff.mp h
      obtain ⟨n, m4, hn, h⟩ := bind_eq_ok_iff.mp h
      obtain ⟨rfl, hi'⟩ := position_again hm hc hi
      cases hn
      cases h
      exact redone_bind_of_ok hi' (report_again _ _ hm)

/-! ## Attempts -/

/-- The class of an attempt is still constructed alike. -/
def Attempt.Lasts (R : Rerun) (a : Attempt Parser) : Prop :=
  (∀ vs, R.began.construct a.target vs = R.ended.construct a.target vs) ∧ ∀ p ∈ a.parsers, R.Lasts p

theorem construct_again {target : ClassRef} {vs : List Value} {v : Value}
    (htarget : ∀ vs, R.began.construct target vs = R.ended.construct target vs)
    (hm : Mirrors R m m') (h : Act.construct target vs m = .ok v m1)
    (hg : m1.grammar.Precedes R.ended) :
    m1 = m ∧ Act.construct target vs m' = .ok v m' := by
  obtain ⟨hv, rfl⟩ := construct_eq_ok h
  refine ⟨rfl, ?_⟩
  have heq : m'.grammar.construct target vs = .ok v := by
    rw [hm.later.construct_eq, htarget, hg.construct_eq, hv]
  show Act.lift (m'.grammar.construct target vs) m' = _
  rw [heq]
  rfl

theorem runAttempt_recurs (hcall : Recurring R call call') {a : Attempt Parser} {o : Outcome}
    (ha : a.Lasts R) (hm : Mirrors R m m') (hc : R.Holds c)
    (h : runAttempt call entry a c m = .ok o m1) (hg : m1.grammar.Precedes R.ended) :
    Redone R (runAttempt call' entry a (R.image c)) m' fun o' m1' =>
      o.Recurs R o' ∧ Mirrors R m1 m1' := by
  unfold runAttempt at h ⊢
  obtain ⟨r, m2, hr, h⟩ := bind_eq_ok_iff.mp h
  cases r with
  | all d vs =>
    obtain ⟨v, m3, hv, h⟩ := bind_eq_ok_iff.mp h
    cases h
    have heq := (construct_eq_ok hv).2
    refine (gather_recurs hcall hm hc hr (heq ▸ hg) ha.2).bind ?_
    rintro _ m2' ⟨hall, hm2⟩
    cases hall with
    | all hd vs =>
      obtain ⟨rfl, hv'⟩ := construct_again ha.1 hm2 hv hg
      exact redone_bind_of_ok hv' (redone_of_ok rfl ⟨.matched hd v, hm2⟩)
  | stopped o =>
    cases h
    refine (gather_recurs hcall hm hc hr hg ha.2).bind ?_
    rintro _ m2' ⟨hstopped, hm2⟩
    cases hstopped with
    | stopped ho => exact redone_of_ok rfl ⟨ho, hm2⟩

theorem runAttempts_precedes (hcall : Recurring R call call')
    {report report' : String → CursorId → Act Unit}
    (hreport : ∀ name, Told R (report name) (report' name)) {as : List (Attempt Parser)}
    {o : Outcome} (h : runAttempts call report entry as c m = .ok o m1) :
    m.grammar.Precedes m1.grammar :=
  (@RunLaw.runAttempts _ (growth_law m.grammar) call call (fun entry p c => hcall.grows entry p c _)
    report report (fun name c => (hreport name).grows c _) entry as c).of_ok (.refl _) h

theorem runAttempts_recurs (hcall : Recurring R call call')
    {report report' : String → CursorId → Act Unit}
    (hreport : ∀ name, Told R (report name) (report' name)) :
    ∀ {as : List (Attempt Parser)} {m m1 m' : Machine} {o : Outcome}, (∀ a ∈ as, a.Lasts R) →
      Mirrors R m m' → R.Holds c → runAttempts call report entry as c m = .ok o m1 →
      m1.grammar.Precedes R.ended →
        Redone R (runAttempts call' report' entry as (R.image c)) m' fun o' m1' =>
          o.Recurs R o' ∧ Mirrors R m1 m1'
  | [], _, _, _, _, _, _, _, h, _ => by cases h
  | a :: rest, m, m1, m', o, has, hm, hc, h, hg => by
    have ha := has a List.mem_cons_self
    unfold runAttempts at h ⊢
    split at h
    · rename_i hunit
      obtain ⟨v, m2, hv, h⟩ := bind_eq_ok_iff.mp h
      cases h
      obtain ⟨rfl, hv'⟩ := construct_again ha.1 hm hv hg
      rw [if_pos hunit]
      exact redone_bind_of_ok hv' (redone_of_ok rfl ⟨.matched hc v, hm⟩)
    · rename_i hunit
      rw [if_neg hunit]
      split at h
      · rename_i hclosing
        rw [if_pos hclosing]
        exact runAttempt_recurs hcall ha hm hc h hg
      · rename_i hclosing
        rw [if_neg hclosing]
        obtain ⟨s, m2, hs, h⟩ := bind_eq_ok_iff.mp h
        obtain ⟨first, m3, hfirst, h⟩ := bind_eq_ok_iff.mp h
        obtain ⟨m2', hs', hm2, hheld⟩ := snapshot_again hm hc hs
        refine redone_bind_of_ok hs' ?_
        have hnext : (report a.name c >>= fun _ => runAttempts call report entry rest c) m3 =
            .ok o m1 → m3.grammar.Precedes R.ended ∧ ∀ {m3' : Machine}, Mirrors R m3 m3' →
              Redone R (report' a.name (R.image c) >>= fun _ =>
                runAttempts call' report' entry rest (R.image c)) m3' fun o' m1' =>
                  o.Recurs R o' ∧ Mirrors R m1 m1' := by
          intro h
          obtain ⟨⟨⟩, m4, hreported, h⟩ := bind_eq_ok_iff.mp h
          have hgrow4 := ((hreport a.name).grows c).of_ok hreported
          have hgrow5 := (runAttempts_precedes hcall hreport h).trans hg
          refine ⟨hgrow4.trans hgrow5, fun hm3 => ?_⟩
          refine ((hreport a.name).redone hm3 hc hreported hgrow5).bind fun hm4 => ?_
          exact runAttempts_recurs hcall hreport (fun b hb => has b (List.mem_cons_of_mem a hb))
            hm4 hc h hg
        cases first with
        | matched d v =>
          cases h
          refine (runAttempt_recurs hcall ha hm2 hheld hfirst hg).bind ?_
          rintro _ m3' ⟨hr, hm3⟩
          cases hr with
          | matched hd v => exact redone_of_ok rfl ⟨.matched hd v, hm3⟩
        | missed =>
          obtain ⟨hg3, hrest⟩ := hnext h
          refine (runAttempt_recurs hcall ha hm2 hheld hfirst hg3).bind ?_
          rintro _ m3' ⟨hr, hm3⟩
          cases hr
          exact hrest hm3
        | failed e =>
          obtain ⟨hg3, hrest⟩ := hnext h
          refine (runAttempt_recurs hcall ha hm2 hheld hfirst hg3).bind ?_
          rintro _ m3' ⟨hr, hm3⟩
          cases hr
          exact hrest hm3

/-! ## Elements -/

theorem readElement_recurs {accept : Value → Bool} {expected : Value} {o : Outcome}
    (hm : Mirrors R m m') (hc : R.Holds c) (h : readElement accept expected c m = .ok o m1) :
    Redone R (readElement accept expected (R.image c)) m' fun o' m1' =>
      o.Recurs R o' ∧ Mirrors R m1 m1' := by
  unfold readElement at h ⊢
  obtain ⟨v, m2, hv, h⟩ := bind_eq_ok_iff.mp h
  obtain ⟨m2', hv', hm2⟩ := next_again hm hc hv
  refine redone_bind_of_ok hv' ?_
  cases v with
  | none =>
    cases h
    exact redone_of_ok rfl ⟨.failed (.same _), hm2⟩
  | some v =>
    dsimp only at h ⊢
    split at h
    · rename_i haccept
      cases h
      rw [if_pos haccept]
      exact redone_of_ok rfl ⟨.matched hc v, hm2⟩
    · rename_i haccept
      cases h
      rw [if_neg haccept]
      exact redone_of_ok rfl ⟨.failed (.same _), hm2⟩

theorem leaf_recurs {accept : Value → Bool} {expected : Value} {o : Outcome}
    (hm : Mirrors R m m') (hc : R.Holds c)
    (h : ((·.seenBy entry) <$> readElement accept expected c) m = .ok o m1) :
    Redone R ((·.seenBy entry) <$> readElement accept expected (R.image c)) m' fun o' m1' =>
      o.Recurs R o' ∧ Mirrors R m1 m1' := by
  obtain ⟨o, ho, rfl⟩ := map_eq_ok_iff.mp h
  exact (readElement_recurs hm hc ho).map fun hr => ⟨hr.1.seenBy entry, hr.2⟩

theorem noMatch_recurs {accepts : Value → Bool} {o : Outcome} (hm : Mirrors R m m')
    (h : noMatch (.misser accepts) entry m = .ok o m1) :
    Redone R (noMatch (.misser accepts) entry) m' fun o' m1' =>
      o.Recurs R o' ∧ Mirrors R m1 m1' := by
  cases entry with
  | fallible =>
    cases h
    exact redone_of_ok rfl ⟨.missed, hm⟩
  | total =>
    obtain ⟨text, m2, htext, h⟩ := bind_eq_ok_iff.mp h
    cases h
    obtain ⟨hsaid, rfl⟩ := describe_eq_ok htext
    -- the description is the same in every grammar
    have hsaid' : m'.grammar.describe (.misser accepts) = .ok text := hsaid
    exact redone_bind_of_ok (describe_of_ok hsaid') (redone_of_ok rfl ⟨.failed (.same _), hm⟩)

theorem misser_recurs {accepts : Value → Bool} {o : Outcome} (hm : Mirrors R m m') (hc : R.Holds c)
    (h : (Act.next c >>= fun
      | some v =>
        if accepts v then pure (.matched c v) else noMatch (.misser accepts) entry
      | none => noMatch (.misser accepts) entry) m = .ok o m1) :
    Redone R (Act.next (R.image c) >>= fun
      | some v =>
        if accepts v then pure (.matched (R.image c) v)
        else noMatch (.misser accepts) entry
      | none => noMatch (.misser accepts) entry) m' fun o' m1' =>
      o.Recurs R o' ∧ Mirrors R m1 m1' := by
  obtain ⟨v, m2, hv, h⟩ := bind_eq_ok_iff.mp h
  obtain ⟨m2', hv', hm2⟩ := next_again hm hc hv
  refine redone_bind_of_ok hv' ?_
  cases v with
  | none => exact noMatch_recurs hm2 h
  | some v =>
    dsimp only at h ⊢
    split at h
    · rename_i haccept
      cases h
      rw [if_pos haccept]
      exact redone_of_ok rfl ⟨.matched hc v, hm2⟩
    · rename_i haccept
      rw [if_neg haccept]
      exact noMatch_recurs hm2 h

end Parts

end ShapeGrammar
