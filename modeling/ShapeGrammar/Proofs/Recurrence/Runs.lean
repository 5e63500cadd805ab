import ShapeGrammar.Proofs.Recurrence.Invoked

/-!
# Whole runs come again

One lemma for each combinator that takes a parser apart, and the induction over nested calls. At two
places the first run finds something out that the second run finds known: what a delayed parser is,
and the plan of a class.

Headlines: `either_recurs`, `not_recurs`, `box_recurs`, `derived_recurs`, `run_recurs`.
-/

namespace ShapeGrammar

open Machine

variable {R : Rerun} {q q' n : Nat} {entry : Entry} {m m1 m' : Machine} {c : Nat}
  {o : Outcome}

theorem Rerun.Lasts.attempts {p : Parser} {plan : Plan Parser} (h : R.Lasts p)
    (hplan : p.plan? = some plan) (hparts : p.parts R.ended = plan.attempts.flatMap (·.parsers)) :
    ∀ a ∈ plan.attempts, a.Lasts R :=
  fun a ha => ⟨h.constructs h.leads hplan ha,
    fun _ hs => h.part (hparts ▸ List.mem_flatMap.mpr ⟨a, ha, hs⟩)⟩

/-- What is known takes no finding out. -/
theorem resolve_known {α : Type} {x : Resolution α} {a : α} (h : x m.grammar = .ok a m.grammar) :
    Act.resolve x m = .ok a m := by
  unfold Act.resolve
  rw [h]

section Operators

variable {r r' : Resolver} (ih : Recurring R (run r n) (run r' n))
include ih

theorem seq_recurs {parts : List Parser} (hparts : ∀ p ∈ parts, R.Lasts p)
    (hm : Mirrors R m m') (hc : R.Holds c) (h : run r (n + 1) entry (.seq parts) c m = .ok o m1)
    (hg : m1.grammar.Precedes R.ended) :
    Redone R (run r' (n + 1) entry (.seq parts) (R.image c)) m' fun o' m1' =>
      o.Recurs R o' ∧ Mirrors R m1 m1' := by
  rw [run_succ] at h ⊢
  obtain ⟨rest, m2, hrest, h⟩ := bind_eq_ok_iff.mp h
  have heq : m1 = m2 := by cases rest <;> cases h <;> rfl
  subst heq
  refine (gather_recurs ih hm hc hrest hg hparts).bind ?_
  rintro _ m2' ⟨hr, hm2⟩
  cases hr with
  | all hd vs =>
    cases h
    exact redone_of_ok rfl ⟨.matched hd _, hm2⟩
  | stopped ho =>
    cases h
    exact redone_of_ok rfl ⟨ho, hm2⟩

theorem opt_recurs {body : Parser} (hbody : R.Lasts body) (hm : Mirrors R m m')
    (hc : R.Holds c) (h : run r (n + 1) entry (.opt body) c m = .ok o m1)
    (hg : m1.grammar.Precedes R.ended) :
    Redone R (run r' (n + 1) entry (.opt body) (R.image c)) m' fun o' m1' =>
      o.Recurs R o' ∧ Mirrors R m1 m1' := by
  rw [run_succ] at h ⊢
  obtain ⟨s, m2, hs, h⟩ := bind_eq_ok_iff.mp h
  obtain ⟨first, m3, hfirst, h⟩ := bind_eq_ok_iff.mp h
  obtain ⟨m2', hs', hm2, hheld⟩ := snapshot_again hm hc hs
  have heq : m1 = m3 := by cases first <;> cases h <;> rfl
  subst heq
  refine redone_bind_of_ok hs' ((ih.redone hm2 hheld hfirst hg hbody).bind ?_)
  rintro _ m3' ⟨hr, hm3⟩
  cases hr with
  | matched hd v =>
    cases h
    exact redone_of_ok rfl ⟨.matched hd v, hm3⟩
  | missed =>
    cases h
    exact redone_of_ok rfl ⟨.matched hc _, hm3⟩
  | failed he =>
    cases h
    exact redone_of_ok rfl ⟨.matched hc _, hm3⟩

theorem either_recurs {left right : Parser} (hp : R.Lasts (.either left right))
    (hm : Mirrors R m m') (hc : R.Holds c)
    (h : run r (n + 1) entry (.either left right) c m = .ok o m1)
    (hg : m1.grammar.Precedes R.ended) :
    Redone R (run r' (n + 1) entry (.either left right) (R.image c)) m' fun o' m1' =>
      o.Recurs R o' ∧ Mirrors R m1 m1' := by
  have hleft := hp.part (q := left) List.mem_cons_self
  have hright := hp.part (q := right) (List.mem_cons_of_mem left List.mem_cons_self)
  have htold := reportArm_told hp.threshold hleft.leads hright.leads
  rw [run_succ] at h ⊢
  obtain ⟨s, m2, hs, h⟩ := bind_eq_ok_iff.mp h
  obtain ⟨first, m3, hfirst, h⟩ := bind_eq_ok_iff.mp h
  obtain ⟨m2', hs', hm2, hheld⟩ := snapshot_again hm hc hs
  refine redone_bind_of_ok hs' ?_
  -- the right arm begins where the left one did
  have hsecond : (reportArm left right c >>= fun _ =>
      (·.mapValue .right) <$> run r n entry right c) m3 = .ok o m1 →
      m3.grammar.Precedes R.ended ∧ ∀ {m3' : Machine}, Mirrors R m3 m3' →
        Redone R (reportArm left right (R.image c) >>= fun _ =>
          (·.mapValue .right) <$> run r' n entry right (R.image c)) m3' fun o' m1' =>
            o.Recurs R o' ∧ Mirrors R m1 m1' := by
    intro h
    obtain ⟨⟨⟩, m4, hreported, h⟩ := bind_eq_ok_iff.mp h
    obtain ⟨second, hsecond, rfl⟩ := map_eq_ok_iff.mp h
    have hgrow4 := (htold.grows c).of_ok hreported
    have hgrow5 := ((ih.grows entry right c).of_ok hsecond).trans hg
    refine ⟨hgrow4.trans hgrow5, fun hm3 => ?_⟩
    refine (htold.redone hm3 hc hreported hgrow5).bind fun hm4 => ?_
    exact (ih.redone hm4 hc hsecond hg hright).map fun hr => ⟨hr.1.mapValue .right, hr.2⟩
  cases first with
  | matched d v =>
    cases h
    refine (ih.redone hm2 hheld hfirst hg hleft).bind ?_
    rintro _ m3' ⟨hr, hm3⟩
    cases hr with
    | matched hd v => exact redone_of_ok rfl ⟨.matched hd _, hm3⟩
  | missed =>
    obtain ⟨hg3, hrest⟩ := hsecond h
    refine (ih.redone hm2 hheld hfirst hg3 hleft).bind ?_
    rintro _ m3' ⟨hr, hm3⟩
    cases hr
    exact hrest hm3
  | failed e =>
    obtain ⟨hg3, hrest⟩ := hsecond h
    refine (ih.redone hm2 hheld hfirst hg3 hleft).bind ?_
    rintro _ m3' ⟨hr, hm3⟩
    cases hr
    exact hrest hm3

/-- Only here a failure names a description, which is given anew. -/
theorem not_recurs {body : Parser} (hp : R.Lasts (.not body)) (hm : Mirrors R m m')
    (hc : R.Holds c) (h : run r (n + 1) entry (.not body) c m = .ok o m1)
    (hg : m1.grammar.Precedes R.ended) :
    Redone R (run r' (n + 1) entry (.not body) (R.image c)) m' fun o' m1' =>
      o.Recurs R o' ∧ Mirrors R m1 m1' := by
  have hbody := hp.part (q := body) List.mem_cons_self
  rw [run_succ] at h ⊢
  obtain ⟨s, m2, hs, h⟩ := bind_eq_ok_iff.mp h
  obtain ⟨first, m3, hfirst, h⟩ := bind_eq_ok_iff.mp h
  obtain ⟨m2', hs', hm2, hheld⟩ := snapshot_again hm hc hs
  refine redone_bind_of_ok hs' ?_
  cases first with
  | matched d v =>
    cases entry with
    | fallible =>
      cases h
      refine (ih.redone hm2 hheld hfirst hg hbody).bind ?_
      rintro _ m3' ⟨hr, hm3⟩
      cases hr
      exact redone_of_ok rfl ⟨.missed, hm3⟩
    | total =>
      obtain ⟨text, m4, htext, h⟩ := bind_eq_ok_iff.mp h
      cases h
      obtain ⟨hsaid, rfl⟩ := describe_eq_ok htext
      refine (ih.redone hm2 hheld hfirst hg hbody).bind ?_
      rintro _ m3' ⟨hr, hm3⟩
      cases hr
      refine (redone_describe hbody.leads hm3.retold).bind ?_
      rintro text' _ ⟨rfl, hsaid'⟩
      exact redone_of_ok rfl ⟨.failed (.described hp.leads hg hm3.later hsaid hsaid'), hm3⟩
  | missed =>
    cases h
    refine (ih.redone hm2 hheld hfirst hg hbody).bind ?_
    rintro _ m3' ⟨hr, hm3⟩
    cases hr
    exact redone_of_ok rfl ⟨.matched hc _, hm3⟩
  | failed e =>
    cases h
    refine (ih.redone hm2 hheld hfirst hg hbody).bind ?_
    rintro _ m3' ⟨hr, hm3⟩
    cases hr
    exact redone_of_ok rfl ⟨.matched hc _, hm3⟩

theorem map_recurs {change : Value → Except Fault Value} {body : Parser}
    (hbody : R.Lasts body) (hm : Mirrors R m m') (hc : R.Holds c)
    (h : run r (n + 1) entry (.map change body) c m = .ok o m1) (hg : m1.grammar.Precedes R.ended) :
    Redone R (run r' (n + 1) entry (.map change body) (R.image c)) m' fun o' m1' =>
      o.Recurs R o' ∧ Mirrors R m1 m1' := by
  rw [run_succ] at h ⊢
  obtain ⟨first, m2, hfirst, h⟩ := bind_eq_ok_iff.mp h
  cases first with
  | matched d v =>
    obtain ⟨w, hw, h⟩ := lift_bind_eq_ok_iff.mp h
    cases h
    refine (ih.redone hm hc hfirst hg hbody).bind ?_
    rintro _ m2' ⟨hr, hm2⟩
    cases hr with
    | matched hd v => exact redone_lift_bind hw (redone_of_ok rfl ⟨.matched hd w, hm2⟩)
  | missed =>
    cases h
    refine (ih.redone hm hc hfirst hg hbody).bind ?_
    rintro _ m2' ⟨hr, hm2⟩
    cases hr
    exact redone_of_ok rfl ⟨.missed, hm2⟩
  | failed e =>
    cases h
    refine (ih.redone hm hc hfirst hg hbody).bind ?_
    rintro _ m2' ⟨hr, hm2⟩
    cases hr with
    | failed he => exact redone_of_ok rfl ⟨.failed he, hm2⟩

theorem recorded_recurs {name : String} {body : Parser} (hbody : R.Lasts body)
    (hm : Mirrors R m m') (hc : R.Holds c)
    (h : run r (n + 1) entry (.recorded name body) c m = .ok o m1)
    (hg : m1.grammar.Precedes R.ended) :
    Redone R (run r' (n + 1) entry (.recorded name body) (R.image c)) m' fun o' m1' =>
      o.Recurs R o' ∧ Mirrors R m1 m1' := by
  rw [run_succ] at h ⊢
  obtain ⟨i, m2, hi, h⟩ := bind_eq_ok_iff.mp h
  obtain ⟨⟨⟩, m3, hnote, h⟩ := bind_eq_ok_iff.mp h
  obtain ⟨rfl, hi'⟩ := position_again hm hc hi
  cases hnote
  refine redone_bind_of_ok hi' (redone_bind_of_ok rfl ?_)
  refine ih.redone ?_ hc h hg hbody
  exact hm.still rfl rfl ⟨m'.grammar.reports, rfl⟩

end Operators

section Delays

variable (ih : Recurring R (run (resolver q) n) (run (resolver (q' + 1)) n))
include ih

/-- What a delayed parser was found to be is known from then on. -/
theorem box_recurs {b : BoxId} (hp : R.Lasts (.box b)) (hm : Mirrors R m m')
    (hc : R.Holds c) (h : run (resolver q) (n + 1) entry (.box b) c m = .ok o m1)
    (hg : m1.grammar.Precedes R.ended) :
    Redone R (run (resolver (q' + 1)) (n + 1) entry (.box b) (R.image c)) m' fun o' m1' =>
      o.Recurs R o' ∧ Mirrors R m1 m1' := by
  rw [run_succ] at h ⊢
  obtain ⟨p, m2, hfind, h⟩ := bind_eq_ok_iff.mp h
  obtain ⟨hfind, hcursors⟩ := resolve_eq_ok hfind
  have hgrow := ((ih.grows entry p c).of_ok h).trans hg
  have hfound := hgrow.known (f := .box b) (boxParser_known hfind)
  have hknown := hm.later.known (f := .box b) (hp.retains.box hfound)
  refine redone_bind_of_ok (resolve_known (Resolution.remember_of_known (f := .box b) hknown _)) ?_
  exact ih.redone (hm.still hcursors rfl ⟨m'.grammar.reports, rfl⟩) hc h hg
    (hp.part (Grammar.part_of_box hfound))

/-- The plan that was found for a class is known from then on. -/
theorem derived_recurs {target : ClassId} (hp : R.Lasts (.derived target))
    (hm : Mirrors R m m') (hc : R.Holds c)
    (h : run (resolver q) (n + 1) entry (.derived target) c m = .ok o m1)
    (hg : m1.grammar.Precedes R.ended) :
    Redone R (run (resolver (q' + 1)) (n + 1) entry (.derived target) (R.image c)) m' fun o' m1' =>
      o.Recurs R o' ∧ Mirrors R m1 m1' := by
  rw [run_succ] at h ⊢
  obtain ⟨plan, m2, hfind, h⟩ := bind_eq_ok_iff.mp h
  obtain ⟨hfind, hcursors⟩ := resolve_eq_ok hfind
  have hgrow := ((ih.grows entry (.planned plan) c).of_ok h).trans hg
  have hfound := hgrow.known (f := .plan target) (planOf_known hfind)
  have hknown := hm.later.known (f := .plan target) (hp.retains.plan hfound)
  have hfind' := Resolution.remember_of_known (f := .plan target) hknown
  refine redone_bind_of_ok (resolve_known (hfind' _)) ?_
  exact ih.redone (hm.still hcursors rfl ⟨m'.grammar.reports, rfl⟩) hc h hg
    (hp.part (Grammar.part_of_derived hfound))

end Delays

/-- **What a run answers it answers again.** -/
theorem run_recurs (q q' : Nat) :
    ∀ n, Recurring R (run (resolver q) n) (run (resolver (q' + 1)) n)
  | 0 => ⟨fun _ _ _ => (Act.still_throw _).grows, fun _ _ h _ _ => by cases h⟩
  | n + 1 => by
    refine ⟨run_grows (resolver_grows q) (n + 1), fun {entry p c m m1 m' o} hm hc h hg hp => ?_⟩
    have ih := run_recurs q q' n
    cases p with
    | element v => exact leaf_recurs hm hc h
    | any => exact leaf_recurs hm hc h
    | satisfy test description => exact leaf_recurs hm hc h
    | seq parts => exact seq_recurs ih (fun _ hs => hp.part hs) hm hc h hg
    | opt body => exact opt_recurs ih (hp.part List.mem_cons_self) hm hc h hg
    | many checked body =>
      rw [run_succ] at h ⊢
      obtain ⟨⟨d, vs⟩, m2, hcollect, h⟩ := bind_eq_ok_iff.mp h
      cases h
      refine (collect_recurs ih (hp.part List.mem_cons_self) hm hc hcollect hg).bind ?_
      rintro _ m2' ⟨⟨hd, rfl⟩, hm2⟩
      exact redone_of_ok rfl ⟨.matched hd _, hm2⟩
    | many1 checked body =>
      exact collectFirst_recurs ih (hp.part List.mem_cons_self) hm hc h hg
    | either left right => exact either_recurs ih hp hm hc h hg
    | not body => exact not_recurs ih hp hm hc h hg
    | box b => exact box_recurs ih hp hm hc h hg
    | map change body => exact map_recurs ih (hp.part List.mem_cons_self) hm hc h hg
    | derived target => exact derived_recurs ih hp hm hc h hg
    | planned plan =>
      exact runAttempts_recurs ih (reportAttempt_told hp.threshold plan.target)
        (hp.attempts rfl rfl) hm hc h hg
    | generated plan code => exact invoke_recurs ih (hp.attempts rfl rfl) hm hc h hg
    | recorded name body => exact recorded_recurs ih (hp.part List.mem_cons_self) hm hc h hg
    | misser accepts => exact misser_recurs hm hc h
    | unimplemented => cases h
    | inert => cases h

end ShapeGrammar
