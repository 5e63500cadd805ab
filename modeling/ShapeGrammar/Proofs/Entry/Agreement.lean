import ShapeGrammar.Proofs.Entry.Alike
import ShapeGrammar.Proofs.Peg.Refinement

/-!
# The two entry points agree

The total form of a parser and its fallible form, called on equal cursors, go the same way: where
one matches the other does, up to the same place and with the same value, and where the total form
says what is wrong the fallible form misses. The total form may go on to describe a body that a
negative lookahead refused; only there, if the body has no description, does it stop where the
fallible form has an answer.

The induction is on the number of nested calls. Of the parts that a parser calls, all but the last
are called in the fallible form at both entry points, on machines that are alike; only the last is
called at the entry point of the whole.

Headlines: `Outcome.Twin`, `Accord`, `Concordant`, `run_concordant`, `entry_points_agree`.
-/

namespace ShapeGrammar

/-- What the total form answers, and what the fallible form does. -/
inductive Outcome.Twin : Outcome → Outcome → Prop
  | matched (d : CursorId) (v : Value) : Twin (.matched d v) (.matched d v)
  | failed (e : Failure) : Twin (.failed e) .missed

/-- The same of parts in a row. -/
inductive Gathered.Twin : Gathered → Gathered → Prop
  | all (d : CursorId) (vs : List Value) : Twin (.all d vs) (.all d vs)
  | stopped (e : Failure) : Twin (.stopped (.failed e)) (.stopped .missed)

/-- How the total form of `root` and its fallible form may end, where `miss` is how the latter says
that nothing matched. -/
inductive Accord {α : Type} (root : Parser) (twin : α → α → Prop) (miss : α) :
    EStateM.Result Stop Machine α → EStateM.Result Stop Machine α → Prop
  | answered {a b m m'} (twins : twin a b) (alike : m.Alike m') :
    Accord root twin miss (.ok a m) (.ok b m')
  | stopped {m m'} (e : Stop) (alike : m.Alike m') :
    Accord root twin miss (.error e m) (.error e m')
  /-- A body that matched where it must not has no description. -/
  | undescribed {m m' body e} (inside : m'.grammar.Leads root (.not body))
    (unsaid : m'.grammar.describe body = .error e) (alike : m.Alike m') :
    Accord root twin miss (.error e m) (.ok miss m')

namespace Accord

variable {α β : Type} {root root' : Parser} {twin : α → α → Prop} {miss : α}
  {twin' : β → β → Prop} {miss' : β} {m m' : Machine}

/-- What is the same at both entry points comes before what is not. -/
theorem after {x : Act α} {f g : α → Act β} (hx : Follows Machine.Alike false x x) (h : m.Alike m')
    (hf : ∀ {a m1 m1'}, x m' = .ok a m1' → m1.Alike m1' →
      Accord root twin' miss' (f a m1) (g a m1')) :
    Accord root twin' miss' ((x >>= f) m) ((x >>= g) m') := by
  have hends := hx m m' h
  generalize hxm : x m = r at hends
  generalize hxm' : x m' = r' at hends
  cases hends with
  | short may => cases may
  | ok a alike =>
    rw [bind_of_ok hxm, bind_of_ok hxm']
    exact hf hxm' alike
  | stopped e alike =>
    rw [bind_of_error hxm, bind_of_error hxm']
    exact .stopped e alike

/-- What comes after a part in which the entry points agree. A miss of the part is one of the
whole. -/
theorem bind {x y : Act α} {f g : α → Act β} (h : Accord root twin miss (x m) (y m'))
    (hroot : ∀ {m1 body}, y m' = .ok miss m1 → m1.grammar.Leads root (.not body) →
      m1.grammar.Leads root' (.not body))
    (hmiss : ∀ m1, g miss m1 = .ok miss' m1)
    (hf : ∀ {a b m1 m1'}, y m' = .ok b m1' → twin a b → m1.Alike m1' →
      Accord root' twin' miss' (f a m1) (g b m1')) :
    Accord root' twin' miss' ((x >>= f) m) ((y >>= g) m') := by
  generalize hxm : x m = r at h
  generalize hym' : y m' = r' at h
  cases h with
  | answered twins alike =>
    rw [bind_of_ok hxm, bind_of_ok hym']
    exact hf hym' twins alike
  | stopped e alike =>
    rw [bind_of_error hxm, bind_of_error hym']
    exact .stopped e alike
  | undescribed inside unsaid alike =>
    rw [bind_of_error hxm, bind_of_ok hym', hmiss]
    exact .undescribed (hroot hym' inside) unsaid alike

/-- A whole agrees where its last part does. -/
theorem whole {r r' : EStateM.Result Stop Machine α} (h : Accord root twin miss r r')
    (hroot : ∀ {m1 body}, r' = .ok miss m1 → m1.grammar.Leads root (.not body) →
      m1.grammar.Leads root' (.not body)) : Accord root' twin miss r r' := by
  cases h with
  | answered twins alike => exact .answered twins alike
  | stopped e alike => exact .stopped e alike
  | undescribed inside unsaid alike => exact .undescribed (hroot rfl inside) unsaid alike

end Accord

/-- Calls whose two forms agree on every genuine parser. -/
structure Concordant (call : Entry → Parser → CursorId → Act Outcome) : Prop where
  accord : ∀ {p c m m'}, Machine.Alike m m' →
    (stateAfter (call .fallible p c) m').grammar.Genuine p →
    Accord p Outcome.Twin .missed (call .total p c m) (call .fallible p c m')

/-- What is genuine when all is done was genuine when the first part was done. -/
theorem Grammar.Genuine.first {α β : Type} {x : Act α} {f : α → Act β} {m : Machine} {p : Parser}
    (h : (stateAfter (x >>= f) m).grammar.Genuine p) (hf : ∀ a, (f a).Grows) :
    (stateAfter x m).grammar.Genuine p := by
  cases hx : x m with
  | ok a m1 =>
    rw [stateAfter_bind_of_ok hx] at h
    rw [stateAfter_of_ok hx]
    exact h.mono ((hf a).after m1)
  | error e m1 =>
    rw [stateAfter_of_error (bind_of_error hx)] at h
    rw [stateAfter_of_error hx]
    exact h

section Parts

variable {call : Entry → Parser → CursorId → Act Outcome}
  (halike : ∀ entry p c, Follows Machine.Alike false (call entry p c) (call entry p c))
  (hgrows : ∀ entry p c, (call entry p c).Grows) (hcall : Concordant call)

include hgrows hcall in
/-- Of parts in a row, the first that does not match says so at either entry point. -/
theorem gather_accord {root : Parser} : ∀ {ps : List Parser} {c : CursorId} {m m' : Machine},
    m.Alike m' →
    (∀ p ∈ ps, (stateAfter (gather call .fallible ps c) m').grammar.Genuine p) →
    (∀ p ∈ ps, ∀ g, p ∈ root.parts g) →
    Accord root Gathered.Twin (.stopped .missed) (gather call .total ps c m)
      (gather call .fallible ps c m')
  | [], c, _, _, h, _, _ => .answered (.all c []) h
  | p :: ps, c, m, m', h, hps, hroot => by
    unfold gather at hps ⊢
    have hfirst : (stateAfter (call .fallible p c) m').grammar.Genuine p := by
      refine (hps p List.mem_cons_self).first fun o => ?_
      cases o with
      | matched d v =>
        refine (grows_gather hgrows .fallible ps d).bind fun r => ?_
        cases r <;> exact (Act.still_pure _).grows
      | missed => exact (Act.still_pure _).grows
      | failed e => exact (Act.still_fail _).grows
    refine (hcall.accord h hfirst).bind
      (fun _ inside => .step (hroot p List.mem_cons_self _) inside) (fun _ => rfl) ?_
    intro o o' m1 m1' ho' twins alike
    cases twins with
    | matched d v =>
      have hrest : ∀ q ∈ ps, (stateAfter (gather call .fallible ps d) m1').grammar.Genuine q := by
        intro q hq
        have hgenuine := hps q (List.mem_cons_of_mem p hq)
        rw [stateAfter_bind_of_ok ho'] at hgenuine
        refine hgenuine.first fun r => ?_
        cases r <;> exact (Act.still_pure _).grows
      refine (gather_accord alike hrest fun q hq => hroot q (List.mem_cons_of_mem p hq)).bind
        (fun _ inside => inside) (fun _ => rfl) ?_
      intro r r' m2 m2' _ twins alike
      cases twins with
      | all e vs => exact .answered (.all e (v :: vs)) alike
      | stopped e => exact .answered (.stopped e) alike
    | failed e => exact .answered (.stopped e) alike

include hgrows hcall in
theorem runAttempt_accord {root : Parser} {a : Attempt Parser} {c : CursorId} {m m' : Machine}
    (h : m.Alike m')
    (ha : ∀ p ∈ a.parsers, (stateAfter (runAttempt call .fallible a c) m').grammar.Genuine p)
    (hroot : ∀ p ∈ a.parsers, ∀ g, p ∈ root.parts g) :
    Accord root Outcome.Twin .missed (runAttempt call .total a c m)
      (runAttempt call .fallible a c m') := by
  unfold runAttempt at ha ⊢
  have hfields : ∀ p ∈ a.parsers,
      (stateAfter (gather call .fallible a.parsers c) m').grammar.Genuine p := by
    intro p hp
    refine (ha p hp).first fun r => ?_
    cases r with
    | all d vs => exact (Act.still_construct _ _).grows.bind fun v => (Act.still_pure _).grows
    | stopped o => exact (Act.still_pure _).grows
  refine (gather_accord hgrows hcall h hfields hroot).bind (fun _ inside => inside)
    (fun _ => rfl) ?_
  intro r r' m1 m1' _ twins alike
  cases twins with
  | all d vs =>
    refine .after (alike_law.construct a.target vs) alike fun {v m2 m2'} _ alike => ?_
    exact .answered (.matched d v) alike
  | stopped e => exact .answered (.failed e) alike

include halike hgrows hcall in
/-- All attempts but the last are made in the fallible form at both entry points. -/
theorem runAttempts_accord {root : Parser} {report : String → CursorId → Act Unit}
    (hreport : ∀ name c, Follows Machine.Alike false (report name c) (report name c)) :
    ∀ {as : List (Attempt Parser)} {c : CursorId} {m m' : Machine}, m.Alike m' →
      (∀ a ∈ as, ∀ p ∈ a.parsers,
        (stateAfter (runAttempts call report .fallible as c) m').grammar.Genuine p) →
      (∀ a ∈ as, ∀ p ∈ a.parsers, ∀ g, p ∈ root.parts g) →
      Accord root Outcome.Twin .missed (runAttempts call report .total as c m)
        (runAttempts call report .fallible as c m')
  | [], _, _, _, h, _, _ => .stopped _ h
  | a :: rest, c, m, m', h, has, hroot => by
    unfold runAttempts at has ⊢
    split
    · refine .after (alike_law.construct a.target []) h fun {v m1 m1'} _ alike => ?_
      exact .answered (.matched c v) alike
    · rename_i hunit
      rw [if_neg hunit] at has
      split
      · rename_i hsnapshot
        rw [if_pos hsnapshot] at has
        exact runAttempt_accord hgrows hcall h (has a List.mem_cons_self)
          (hroot a List.mem_cons_self)
      · rename_i hsnapshot
        rw [if_neg hsnapshot] at has
        refine .after (alike_law.snapshot c) h fun {s m1 m1'} hs alike => ?_
        refine .after (alike_law.runAttempt halike .fallible a s) alike
          fun {o m2 m2'} ho alike => ?_
        have hnext : (∀ b ∈ rest, ∀ p ∈ b.parsers,
            (stateAfter (report a.name c >>= fun _ => runAttempts call report .fallible rest c)
              m2').grammar.Genuine p) →
            Accord root Outcome.Twin .missed
              ((report a.name c >>= fun _ => runAttempts call report .total rest c) m2)
              ((report a.name c >>= fun _ => runAttempts call report .fallible rest c) m2') := by
          intro hrest
          refine .after (hreport a.name c) alike fun {_ m3 m3'} hreported alike => ?_
          rw [stateAfter_bind_of_ok hreported] at hrest
          exact runAttempts_accord hreport alike hrest
            fun b hb => hroot b (List.mem_cons_of_mem a hb)
        have hrest := fun b (hb : b ∈ rest) => has b (List.mem_cons_of_mem a hb)
        rw [stateAfter_bind_of_ok hs, stateAfter_bind_of_ok ho] at hrest
        cases o with
        | matched d v => exact .answered (.matched d v) alike
        | missed => exact hnext hrest
        | failed e => exact hnext hrest

/-- A leaf knows what is wrong, and forgets it in the fallible form. -/
theorem leaf_accord {root : Parser} {accept : Value → Bool} {expected : Value} {c : CursorId}
    {m m' : Machine} (h : m.Alike m') :
    Accord root Outcome.Twin .missed (((·.seenBy .total) <$> readElement accept expected c) m)
      (((·.seenBy .fallible) <$> readElement accept expected c) m') := by
  unfold readElement
  rw [map_bind, map_bind]
  refine .after (alike_law.next c) h fun {v m1 m1'} _ alike => ?_
  cases v with
  | none => exact .answered (.failed _) alike
  | some v =>
    dsimp only
    split
    · exact .answered (.matched c v) alike
    · exact .answered (.failed _) alike

include halike hgrows hcall in
/-- Of a repetition, only the first match is asked for at the entry point of the whole. -/
theorem collectFirst_accord {checked : Bool} {body : Parser} {n : Nat} {c : CursorId}
    {m m' : Machine} (h : m.Alike m')
    (hbody : (stateAfter (collectFirst call checked body n .fallible c) m').grammar.Genuine body) :
    Accord (.many1 checked body) Outcome.Twin .missed (collectFirst call checked body n .total c m)
      (collectFirst call checked body n .fallible c m') := by
  unfold collectFirst at hbody ⊢
  refine .after (alike_law.mark checked c) h fun {start m1 m1'} hstart alike => ?_
  rw [stateAfter_bind_of_ok hstart] at hbody
  have hfirst : (stateAfter (call .fallible body c) m1').grammar.Genuine body := by
    refine hbody.first fun o => ?_
    cases o with
    | matched d v =>
      have hcheck : (checkMark body start d).Grows := fun g => (growth_law g).checkMark body start d
      refine hcheck.bind fun _ => ?_
      exact (grows_collect hgrows checked body n d).bind fun r => (Act.still_pure _).grows
    | missed => exact (Act.still_pure _).grows
    | failed e => exact (Act.still_pure _).grows
  refine (hcall.accord alike hfirst).bind (fun _ inside => .step List.mem_cons_self inside)
    (fun _ => rfl) ?_
  intro o o' m2 m2' _ twins alike
  cases twins with
  | matched d v =>
    refine .after (alike_law.checkMark body start d) alike fun {_ m3 m3'} _ alike => ?_
    refine .after (alike_law.collect halike checked body d (.inl rfl)) alike
      fun {r m4 m4'} _ alike => ?_
    exact .answered (.matched r.1 (.nonempty v r.2)) alike
  | failed e => exact .answered (.failed e) alike

end Parts

/-! ## Runs -/

section Operators

variable {r : Resolver} {n : Nat} {c : CursorId} {m m' : Machine}
  (halike : ∀ entry p c, Follows Machine.Alike false (run r n entry p c) (run r n entry p c))
  (hgrows : ∀ entry p c, (run r n entry p c).Grows) (hcall : Concordant (run r n))

include hgrows hcall in
theorem seq_accord {parts : List Parser} (h : m.Alike m')
    (hp : (stateAfter (run r (n + 1) .fallible (.seq parts) c) m').grammar.Genuine (.seq parts)) :
    Accord (.seq parts) Outcome.Twin .missed (run r (n + 1) .total (.seq parts) c m)
      (run r (n + 1) .fallible (.seq parts) c m') := by
  simp only [run_succ, runWith] at hp ⊢
  have hroot : ∀ q ∈ parts, ∀ g, q ∈ (Parser.seq parts).parts g := fun q hq _ => hq
  have hparts : ∀ q ∈ parts,
      (stateAfter (gather (run r n) .fallible parts c) m').grammar.Genuine q := by
    intro q hq
    have hgenuine := hp.part (hroot q hq _)
    refine hgenuine.first fun r => ?_
    cases r <;> exact (Act.still_pure _).grows
  refine (gather_accord hgrows hcall h hparts hroot).bind (fun _ inside => inside)
    (fun _ => rfl) ?_
  intro r r' m1 m1' _ twins alike
  cases twins with
  | all d vs => exact .answered (.matched d (.tuple vs)) alike
  | stopped e => exact .answered (.failed e) alike

include halike in
/-- What is optional is asked for in the fallible form at both entry points. -/
theorem opt_accord {body : Parser} (h : m.Alike m') :
    Accord (.opt body) Outcome.Twin .missed (run r (n + 1) .total (.opt body) c m)
      (run r (n + 1) .fallible (.opt body) c m') := by
  simp only [run_succ, runWith]
  refine .after (alike_law.snapshot c) h fun {s m1 m1'} _ alike => ?_
  refine .after (halike .fallible body s) alike fun {o m2 m2'} _ alike => ?_
  cases o with
  | matched d v => exact .answered (.matched d v) alike
  | missed => exact .answered (.matched c .nothing) alike
  | failed e => exact .answered (.matched c .nothing) alike

include hcall in
/-- The right arm is called at the entry point of the whole. -/
theorem rightArm_accord {left right : Parser} (h : m.Alike m')
    (hright : (stateAfter (reportArm left right c >>= fun _ =>
      (·.mapValue .right) <$> run r n .fallible right c) m').grammar.Genuine right) :
    Accord (.either left right) Outcome.Twin .missed
      ((reportArm left right c >>= fun _ => (·.mapValue .right) <$> run r n .total right c) m)
      ((reportArm left right c >>= fun _ =>
        (·.mapValue .right) <$> run r n .fallible right c) m') := by
  refine .after (alike_law.reportArm left right c) h fun {_ m1 m1'} hreported alike => ?_
  rw [stateAfter_bind_of_ok hreported, stateAfter_map] at hright
  rw [← bind_pure_comp, ← bind_pure_comp]
  refine (hcall.accord alike hright).bind
    (fun _ inside => .step (List.mem_cons_of_mem left List.mem_cons_self) inside)
    (fun _ => rfl) ?_
  intro o o' m2 m2' _ twins alike
  cases twins with
  | matched d v => exact .answered (.matched d (.right v)) alike
  | failed e => exact .answered (.failed e) alike

include halike hcall in
theorem either_accord {left right : Parser} (h : m.Alike m')
    (hright : (stateAfter (run r (n + 1) .fallible (.either left right) c) m').grammar.Genuine
      right) :
    Accord (.either left right) Outcome.Twin .missed
      (run r (n + 1) .total (.either left right) c m)
      (run r (n + 1) .fallible (.either left right) c m') := by
  simp only [run_succ, runWith] at hright ⊢
  refine .after (alike_law.snapshot c) h fun {s m1 m1'} hs alike => ?_
  refine .after (halike .fallible left s) alike fun {o m2 m2'} ho alike => ?_
  rw [stateAfter_bind_of_ok hs, stateAfter_bind_of_ok ho] at hright
  cases o with
  | matched d v => exact .answered (.matched d (.left v)) alike
  | missed => exact rightArm_accord hcall alike hright
  | failed e => exact rightArm_accord hcall alike hright

include halike in
/-- Only the total form describes the body that matched. -/
theorem not_accord {body : Parser} (h : m.Alike m') :
    Accord (.not body) Outcome.Twin .missed (run r (n + 1) .total (.not body) c m)
      (run r (n + 1) .fallible (.not body) c m') := by
  simp only [run_succ, runWith]
  refine .after (alike_law.snapshot c) h fun {s m1 m1'} _ alike => ?_
  refine .after (halike .fallible body s) alike fun {o m2 m2'} _ alike => ?_
  cases o with
  | matched d v =>
    show Accord (.not body) Outcome.Twin .missed ((Act.describe body >>= fun text =>
      pure (Outcome.failed (.unexpectedMatch text))) m2) (.ok .missed m2')
    cases hsaid : m2.grammar.describe body with
    | ok text =>
      rw [bind_of_ok (describe_of_ok hsaid)]
      exact .answered (.failed _) alike
    | error e =>
      rw [bind_of_error (describe_of_error hsaid)]
      exact .undescribed (.refl _) (alike.grammar_eq ▸ hsaid) alike
  | missed => exact .answered (.matched c .nothing) alike
  | failed e => exact .answered (.matched c .nothing) alike

include hcall in
theorem map_accord {change : Value → Except Fault Value} {body : Parser} (h : m.Alike m')
    (hbody : (stateAfter (run r (n + 1) .fallible (.map change body) c) m').grammar.Genuine body) :
    Accord (.map change body) Outcome.Twin .missed (run r (n + 1) .total (.map change body) c m)
      (run r (n + 1) .fallible (.map change body) c m') := by
  simp only [run_succ, runWith] at hbody ⊢
  have hfirst : (stateAfter (run r n .fallible body c) m').grammar.Genuine body := by
    refine hbody.first fun o => ?_
    cases o with
    | matched d v => exact (Act.still_lift _).grows.bind fun w => (Act.still_pure _).grows
    | missed => exact (Act.still_pure _).grows
    | failed e => exact (Act.still_pure _).grows
  refine (hcall.accord h hfirst).bind (fun _ inside => .step List.mem_cons_self inside)
    (fun _ => rfl) ?_
  intro o o' m1 m1' _ twins alike
  cases twins with
  | matched d v =>
    refine .after (alike_law.lift (change v)) alike fun {w m2 m2'} _ alike => ?_
    exact .answered (.matched d w) alike
  | failed e => exact .answered (.failed e) alike

theorem misser_accord {accepts : Value → Bool} (h : m.Alike m') :
    Accord (.misser accepts) Outcome.Twin .missed (run r (n + 1) .total (.misser accepts) c m)
      (run r (n + 1) .fallible (.misser accepts) c m') := by
  have hmiss : ∀ {m1 m1' : Machine}, m1.Alike m1' →
      Accord (.misser accepts) Outcome.Twin .missed (noMatch (.misser accepts) .total m1)
        (noMatch (.misser accepts) .fallible m1') :=
    fun alike => .answered (.failed (.noMatch "Misser")) alike
  simp only [run_succ, runWith]
  refine .after (alike_law.next c) h fun {v m1 m1'} _ alike => ?_
  cases v with
  | none => exact hmiss alike
  | some v =>
    dsimp only
    split
    · exact .answered (.matched c v) alike
    · exact hmiss alike

end Operators

section Delays

variable {k n : Nat} {c : CursorId} {m m' : Machine}
  (hgrows : ∀ entry p c, (run (resolver k) n entry p c).Grows)
  (hcall : Concordant (run (resolver k) n))

include hgrows hcall in
theorem box_accord {b : BoxId} (h : m.Alike m')
    (hp : (stateAfter (run (resolver k) (n + 1) .fallible (.box b) c) m').grammar.Genuine
      (.box b)) :
    Accord (.box b) Outcome.Twin .missed (run (resolver k) (n + 1) .total (.box b) c m)
      (run (resolver k) (n + 1) .fallible (.box b) c m') := by
  simp only [run_succ, runWith] at hp ⊢
  refine .after (alike_resolve _) h fun {q m1 m1'} hq alike => ?_
  rw [stateAfter_bind_of_ok hq] at hp
  have hfound := ((hgrows .fallible q c).after m1').known (f := .box b)
    (boxParser_known (resolve_eq_ok hq).1)
  refine (hcall.accord alike (hp.part (Grammar.part_of_box hfound))).whole fun hend inside => ?_
  rw [stateAfter_of_ok hend] at hfound
  exact .step (Grammar.part_of_box hfound) inside

include hgrows hcall in
theorem derived_accord {target : ClassId} (h : m.Alike m')
    (hp : (stateAfter (run (resolver k) (n + 1) .fallible (.derived target) c) m').grammar.Genuine
      (.derived target)) :
    Accord (.derived target) Outcome.Twin .missed
      (run (resolver k) (n + 1) .total (.derived target) c m)
      (run (resolver k) (n + 1) .fallible (.derived target) c m') := by
  simp only [run_succ, runWith] at hp ⊢
  refine .after (alike_resolve _) h fun {plan m1 m1'} hplan alike => ?_
  rw [stateAfter_bind_of_ok hplan] at hp
  have hfound := ((hgrows .fallible (.planned plan) c).after m1').known (f := .plan target)
    (planOf_known (resolve_eq_ok hplan).1)
  refine (hcall.accord alike (hp.part (Grammar.part_of_derived hfound))).whole
    fun hend inside => ?_
  rw [stateAfter_of_ok hend] at hfound
  exact .step (Grammar.part_of_derived hfound) inside

end Delays

/-- **At both entry points, runs go the same way.** -/
theorem run_concordant (k : Nat) : ∀ n, Concordant (run (resolver k) n)
  | 0 => ⟨fun h _ => .stopped .outOfFuel h⟩
  | n + 1 => by
    refine ⟨fun {p c m m'} h hp => ?_⟩
    have ih := run_concordant k n
    have halike := run_alike (resolver k) n
    have hgrows := run_grows (resolver_grows k) n
    cases p with
    | element v => exact leaf_accord h
    | any => exact leaf_accord h
    | satisfy test description => exact leaf_accord h
    | seq parts => exact seq_accord hgrows ih h hp
    | opt body => exact opt_accord halike h
    | many checked body =>
      simp only [run_succ, runWith]
      refine .after (alike_law.collect halike checked body c (.inl rfl)) h
        fun {r m1 m1'} _ alike => ?_
      exact .answered (.matched r.1 (.list r.2)) alike
    | many1 checked body =>
      exact collectFirst_accord halike hgrows ih h (hp.part List.mem_cons_self)
    | either left right =>
      exact either_accord halike ih h (hp.part (List.mem_cons_of_mem left List.mem_cons_self))
    | not body => exact not_accord halike h
    | box b => exact box_accord hgrows ih h hp
    | map change body => exact map_accord ih h (hp.part List.mem_cons_self)
    | derived target => exact derived_accord hgrows ih h hp
    | planned plan =>
      have hfields : ∀ a ∈ plan.attempts, ∀ q ∈ a.parsers, ∀ g,
          q ∈ (Parser.planned plan).parts g :=
        fun a ha q hq _ => List.mem_flatMap.mpr ⟨a, ha, hq⟩
      exact runAttempts_accord halike hgrows ih (alike_law.reportAttempt plan.target) h
        (fun a ha q hq => hp.part (hfields a ha q hq _)) hfields
    | generated plan code =>
      obtain ⟨hordered, rfl⟩ := hp.authentic
      have hfields : ∀ a ∈ plan.attempts, ∀ q ∈ a.parsers, ∀ g,
          q ∈ (Parser.generated plan plan.code).parts g :=
        fun a ha q hq _ => List.mem_flatMap.mpr ⟨a, ha, hq⟩
      have hgenuine := fun a ha q hq => hp.part (hfields a ha q hq _)
      simp only [run_succ, runWith, hordered.invoke_eq] at hgenuine ⊢
      exact runAttempts_accord halike hgrows ih (fun _ _ => alike_law.pure ()) h hgenuine hfields
    | recorded name body =>
      simp only [run_succ, runWith] at hp ⊢
      refine .after (alike_law.position c) h fun {position m1 m1'} hposition alike => ?_
      rw [stateAfter_bind_of_ok hposition] at hp
      refine (ih.accord (alike.note .total .fallible) (hp.part List.mem_cons_self)).whole
        fun _ inside => .step List.mem_cons_self inside
    | misser accepts => exact misser_accord h
    | unimplemented => exact .stopped _ h
    | inert => exact .stopped _ h

/-- **The two entry points of a parser agree.** What the total form answers, the fallible form
answers too, without saying why nothing matched; the failure that the total form reports is the one
that the structure of the parser prescribes; and what the fallible form answers, the total form
answers too, if the bodies that it may have to describe have a description. -/
theorem entry_points_agree {k n : Nat} {p : Parser} {c : CursorId} {m : Machine}
    (hc : c < m.cursors.size)
    (hp : (stateAfter (run (resolver k) n .fallible p c) m).grammar.Genuine p) :
    (∀ o m1, run (resolver k) n .total p c m = .ok o m1 →
      ∃ o' m2, run (resolver k) n .fallible p c m = .ok o' m2 ∧ o.Twin o' ∧ m1.Alike m2) ∧
    (∀ e m1, run (resolver k) n .total p c m = .ok (.failed e) m1 →
      Blames m1.grammar (m.cursor c).source p (m.cursor c).position e) ∧
    (∀ o' m2, run (resolver k) n .fallible p c m = .ok o' m2 →
      (o' = .missed → ∀ body, m2.grammar.Leads p (.not body) →
        ∃ text, m2.grammar.describe body = .ok text) →
      ∃ o m1, run (resolver k) n .total p c m = .ok o m1 ∧ o.Twin o' ∧ m1.Alike m2) := by
  have haccord := (run_concordant k n).accord (.refl m) hp
  refine ⟨fun o m1 htotal => ?_, fun e m1 htotal => ?_, fun o' m2 hfallible hsaid => ?_⟩
  · rw [htotal] at haccord
    generalize hfallible : run (resolver k) n .fallible p c m = r at haccord
    cases haccord with
    | answered twins alike => exact ⟨_, _, rfl, twins, alike⟩
  · have hgenuine : m1.grammar.Genuine p := by
      rw [htotal] at haccord
      generalize hfallible : run (resolver k) n .fallible p c m = r at haccord
      cases haccord with
      | answered twins alike =>
        rw [stateAfter_of_ok hfallible, alike.grammar_eq] at hp
        exact hp
    exact ((run_means k n).means hc htotal hgenuine).2
  · rw [hfallible] at haccord
    generalize htotal : run (resolver k) n .total p c m = r at haccord
    cases haccord with
    | answered twins alike => exact ⟨_, _, rfl, twins, alike⟩
    | undescribed inside unsaid alike =>
      obtain ⟨text, htext⟩ := hsaid rfl _ inside
      cases htext.symm.trans unsaid

/-- The letters `a` and `b`, or else the end. -/
def pairOrEnd : Parser :=
  .either (.seq [.element (.text "a"), .element (.text "b")]) (.not .any)

/-- On `"ac"`, the total form says that an element was not to be there; the fallible form misses. -/
theorem entry_points_agree_pairOrEnd :
    0 < (Machine.reading (.empty none) "ac").cursors.size ∧
      (stateAfter (run (resolver 0) 3 .fallible pairOrEnd 0)
        (Machine.reading (.empty none) "ac")).grammar.Genuine pairOrEnd ∧
      (∃ m2, run (resolver 0) 3 .fallible pairOrEnd 0 (Machine.reading (.empty none) "ac") =
        .ok .missed m2) ∧
      Blames (stateAfter (run (resolver 0) 3 .total pairOrEnd 0)
        (Machine.reading (.empty none) "ac")).grammar (.ofText "ac") pairOrEnd 0
          (.unexpectedMatch "any element") := by
  have hc : 0 < (Machine.reading (.empty none) "ac").cursors.size := by decide
  have hgenuine : ∀ g : Grammar, g.Genuine pairOrEnd := by
    intro g
    refine Grammar.genuine_of_closed (P := fun q => q = pairOrEnd ∨
      q = .seq [.element (.text "a"), .element (.text "b")] ∨ q = .element (.text "a") ∨
      q = .element (.text "b") ∨ q = .not .any ∨ q = .any) ?_ ?_ (.inl rfl)
    · rintro q s (rfl | rfl | rfl | rfl | rfl | rfl) hs <;>
        simp only [pairOrEnd, Parser.parts, List.mem_cons, List.not_mem_nil, or_false] at hs
      · rcases hs with rfl | rfl
        · exact .inr (.inl rfl)
        · exact .inr (.inr (.inr (.inr (.inl rfl))))
      · rcases hs with rfl | rfl
        · exact .inr (.inr (.inl rfl))
        · exact .inr (.inr (.inr (.inl rfl)))
      · exact .inr (.inr (.inr (.inr (.inr hs))))
    · rintro q (rfl | rfl | rfl | rfl | rfl | rfl) <;> trivial
  have hrun : run (resolver 0) 3 .total pairOrEnd 0 (Machine.reading (.empty none) "ac") =
      .ok (.failed (.unexpectedMatch "any element")) (stateAfter
        (run (resolver 0) 3 .total pairOrEnd 0) (Machine.reading (.empty none) "ac")) := rfl
  obtain ⟨hto, hblame, -⟩ := entry_points_agree hc (hgenuine _)
  refine ⟨hc, hgenuine _, ?_, hblame _ _ hrun⟩
  obtain ⟨o', m2, hfallible, htwin, -⟩ := hto _ _ hrun
  cases htwin
  exact ⟨m2, hfallible⟩

end ShapeGrammar
