import ShapeGrammar.Proofs.Machine.Carried

/-!
# A match of the total form is one of the fallible form

Where the total form of a genuine parser matches, its fallible form, called at the same place, does
the same: it matches with the same value, leaves the cursors at the same places, and finds out the
same about the grammar. Only the trace says at which entry points the calls were made. A repetition
relies on this when it calls its body in the fallible form after a first match in the total one.

The comparison is up to a last state of the grammar, in which the parser is genuine; so nothing has
to be known of the fallible form beforehand.

Headlines: `Lowers`, `Lowers.bind`, `lowers_runWith`, `match_of_total`.
-/

namespace ShapeGrammar

/-- The outcome is a match. -/
def Outcome.IsMatch (o : Outcome) : Prop :=
  ∃ d v, o = .matched d v

/-- All parts matched. -/
def Gathered.IsAll (r : Gathered) : Prop :=
  ∃ d vs, r = .all d vs

/-- Where the first computation answers what is `shown`, within what precedes a last state of the
grammar, the second one answers the same, on machines that are alike. -/
structure Lowers (last : Grammar) {α : Type} (shown : α → Prop) (x y : Act α) : Prop where
  grows : x.Grows
  same : ∀ {m m' a m1}, Machine.Alike m m' → x m = .ok a m1 → shown a →
    m1.grammar.Precedes last → ∃ m1', y m' = .ok a m1' ∧ m1.Alike m1'

section Lowers

variable {last : Grammar} {α β : Type} {shown : α → Prop} {shown' : β → Prop} {x y : Act α}
  {f g : α → Act β}

/-- What is the same at both entry points. -/
theorem Act.Grows.lowers (hx : x.Grows) (h : Follows Machine.Alike false x x) :
    Lowers last shown x x where
  grows := hx
  same := fun {m m' a m1} halike hok _ _ => by
    have hends := h m m' halike
    rw [hok] at hends
    generalize hx' : x m' = r at hends
    cases hends with
    | ok a alike => exact ⟨_, rfl, alike⟩

/-- Only what is shown has to be the same. -/
theorem lowers_pure {a b : α} (h : shown a → b = a) : Lowers last shown (pure a) (pure b) where
  grows := (Act.still_pure a).grows
  same := fun halike hok ha _ => by
    cases hok
    rw [h ha]
    exact ⟨_, rfl, halike⟩

/-- What shows nothing may be followed by anything. -/
theorem lowers_hidden (hx : x.Grows) (h : ∀ {m a m1}, x m = .ok a m1 → ¬ shown a) :
    Lowers last shown x y where
  grows := hx
  same := fun _ hok ha _ => absurd ha (h hok)

/-- What comes after a part. Where the part did not answer what is shown, the whole does not. -/
theorem Lowers.bind (hx : Lowers last shown x y) (hgrows : ∀ a, (f a).Grows)
    (hf : ∀ a, shown a → Lowers last shown' (f a) (g a))
    (hskip : ∀ {m a m1 b m2}, x m = .ok a m1 → ¬ shown a → f a m1 = .ok b m2 → ¬ shown' b) :
    Lowers last shown' (x >>= f) (y >>= g) where
  grows := hx.grows.bind hgrows
  same := fun {m m' b m2} halike hok hb hlast => by
    obtain ⟨a, m1, ha, hrest⟩ := bind_eq_ok_iff.mp hok
    have hshown : shown a := by
      by_contra hnot
      exact hskip ha hnot hrest hb
    obtain ⟨m1', hy, halike1⟩ := hx.same halike ha hshown
      (((hgrows a).of_ok hrest).trans hlast)
    obtain ⟨m2', hg, halike2⟩ := (hf a hshown).same halike1 hrest hb hlast
    exact ⟨m2', by rw [bind_of_ok hy, hg], halike2⟩

/-- What is the same at both entry points comes before what is not. -/
theorem lowers_after (hx : x.Grows) (h : Follows Machine.Alike false x x)
    (hgrows : ∀ a, (f a).Grows) (hf : ∀ a, Lowers last shown' (f a) (g a)) :
    Lowers last shown' (x >>= f) (x >>= g) :=
  have hany : Lowers last (fun _ => True) x x := hx.lowers h
  hany.bind hgrows (fun a _ => hf a) fun _ hnot => absurd trivial hnot

/-- What is done next may depend on what is known by then. -/
theorem lowers_foresee {x : Resolution α} (hx : x.Grows) (hgrows : ∀ a, (f a).Grows)
    (hf : ∀ {a m t}, Act.resolve x m = .ok a t → t.grammar.Precedes last →
      Lowers last shown' (f a) (g a)) :
    Lowers last shown' (Act.resolve x >>= f) (Act.resolve x >>= g) where
  grows := (Act.still_resolve hx).grows.bind hgrows
  same := fun {m m' b m2} halike hok hb hlast => by
    obtain ⟨a, m1, ha, hrest⟩ := bind_eq_ok_iff.mp hok
    have hends := alike_resolve x m m' halike
    rw [ha] at hends
    generalize hx' : Act.resolve x m' = r at hends
    cases hends with
    | ok a halike1 =>
      obtain ⟨m2', hg, halike2⟩ := (hf ha (((hgrows a).of_ok hrest).trans hlast)).same halike1 hrest
        hb hlast
      exact ⟨m2', by rw [bind_of_ok hx', hg], halike2⟩

/-- A value changed does not make a match of what is none. -/
theorem Lowers.mapValue {x y : Act Outcome} (h : Lowers last Outcome.IsMatch x y)
    (change : Value → Value) :
    Lowers last Outcome.IsMatch ((·.mapValue change) <$> x) ((·.mapValue change) <$> y) := by
  rw [← bind_pure_comp, ← bind_pure_comp]
  refine h.bind (fun _ => (Act.still_pure _).grows) (fun o _ => lowers_pure fun _ => rfl)
    fun {_ o _ _ _} _ hnot hok => ?_
  cases hok
  rintro ⟨d, v, heq⟩
  cases o with
  | matched d v => exact hnot ⟨d, v, rfl⟩
  | missed => cases heq
  | failed e => cases heq

/-- What is done after an outcome, where only a match is told from the rest. -/
theorem lowers_unlessMatched {h h' : CursorId → Value → Act Outcome} {x y : Act Outcome}
    (hmatched : ∀ d v, Lowers last Outcome.IsMatch (h d v) (h' d v))
    (helse : Lowers last Outcome.IsMatch x y) (o : Outcome) :
    Lowers last Outcome.IsMatch
      (match o with
        | .matched d v => h d v
        | _ => x)
      (match o with
        | .matched d v => h' d v
        | _ => y) := by
  cases o with
  | matched d v => exact hmatched d v
  | missed => exact helse
  | failed e => exact helse

/-- What is done with an element, if there is one. -/
theorem lowers_ofElement {h h' : Value → Act Outcome} {x y : Act Outcome}
    (hsome : ∀ v, Lowers last Outcome.IsMatch (h v) (h' v))
    (hnone : Lowers last Outcome.IsMatch x y) (v : Option Value) :
    Lowers last Outcome.IsMatch
      (match v with
        | some v => h v
        | none => x)
      (match v with
        | some v => h' v
        | none => y) := by
  cases v with
  | none => exact hnone
  | some v => exact hsome v

end Lowers

/-! ## Parts -/

section Calls

variable {last : Grammar} {call : Entry → Parser → CursorId → Act Outcome}
  (halike : ∀ entry p c, Follows Machine.Alike false (call entry p c) (call entry p c))
  (hgrows : ∀ entry p c, (call entry p c).Grows)
  (hcall : ∀ p c, last.Genuine p →
    Lowers last Outcome.IsMatch (call .total p c) (call .fallible p c))

include hgrows hcall in
theorem lowers_gather : ∀ {ps : List Parser} (c : CursorId), (∀ p ∈ ps, last.Genuine p) →
    Lowers last Gathered.IsAll (gather call .total ps c) (gather call .fallible ps c)
  | [], c, _ => lowers_pure fun _ => rfl
  | p :: ps, c, hps => by
    unfold gather
    refine (hcall p c (hps p List.mem_cons_self)).bind (fun o => ?_) (fun o ho => ?_)
      fun {_ o _ _ _} _ hnot hok => ?_
    · cases o with
      | matched d v =>
        refine (grows_gather hgrows .total ps d).bind fun r => ?_
        cases r <;> exact (Act.still_pure _).grows
      | missed => exact (Act.still_fail _).grows
      | failed e => exact (Act.still_pure _).grows
    · obtain ⟨d, v, rfl⟩ := ho
      refine (lowers_gather d fun q hq => hps q (List.mem_cons_of_mem p hq)).bind (fun r => ?_)
        (fun r hr => ?_) fun {_ r _ _ _} _ hnot hok => ?_
      · cases r <;> exact (Act.still_pure _).grows
      · obtain ⟨e, vs, rfl⟩ := hr
        exact lowers_pure fun _ => rfl
      · cases r with
        | all e vs => exact absurd ⟨e, vs, rfl⟩ hnot
        | stopped o =>
          cases hok
          rintro ⟨e, vs, heq⟩
          cases heq
    · cases o with
      | matched d v => exact absurd ⟨d, v, rfl⟩ hnot
      | missed => cases hok
      | failed e =>
        cases hok
        rintro ⟨d, vs, heq⟩
        cases heq

include hgrows hcall in
theorem lowers_runAttempt {a : Attempt Parser} (c : CursorId)
    (ha : ∀ p ∈ a.parsers, last.Genuine p) :
    Lowers last Outcome.IsMatch (runAttempt call .total a c) (runAttempt call .fallible a c) := by
  unfold runAttempt
  refine (lowers_gather hgrows hcall c ha).bind (fun r => ?_) (fun r hr => ?_)
    fun {_ r _ _ _} hr hnot hok => ?_
  · cases r with
    | all d vs => exact ((Act.still_construct a.target vs).bind fun v => Act.still_pure _).grows
    | stopped o => exact (Act.still_pure o).grows
  · obtain ⟨d, vs, rfl⟩ := hr
    exact ((Act.still_construct a.target vs).bind fun v => Act.still_pure _).grows.lowers
      (alike_law.bind (alike_law.construct a.target vs) fun v => alike_law.pure _)
  · cases r with
    | all d vs => exact absurd ⟨d, vs, rfl⟩ hnot
    | stopped o =>
      cases hok
      have hends := gather_stopped hr
      rintro ⟨d, v, rfl⟩
      cases hends

include halike hgrows hcall in
/-- Attempts with something to fall back to are made in the fallible form anyway. -/
theorem lowers_runAttempts {report : String → CursorId → Act Unit}
    (hreport : ∀ name c, Follows Machine.Alike false (report name c) (report name c))
    (hstill : ∀ name c, (report name c).Still) :
    ∀ (as : List (Attempt Parser)) (c : CursorId), (∀ a ∈ as, ∀ p ∈ a.parsers, last.Genuine p) →
      Lowers last Outcome.IsMatch (runAttempts call report .total as c)
        (runAttempts call report .fallible as c)
  | [], _, _ => (Act.still_fail _).grows.lowers (alike_law.stop _)
  | a :: rest, c, has => by
    have ha := has a List.mem_cons_self
    have hrest := lowers_runAttempts hreport hstill rest c
      fun b hb => has b (List.mem_cons_of_mem a hb)
    have hfell := lowers_after (hstill a.name c).grows (hreport a.name c) (fun _ => hrest.grows)
      fun _ => hrest
    unfold runAttempts
    split
    · exact ((Act.still_construct a.target []).bind fun v => Act.still_pure _).grows.lowers
        (alike_law.bind (alike_law.construct a.target []) fun v => alike_law.pure _)
    · split
      · exact lowers_runAttempt hgrows hcall c ha
      · have hsnapshot : (Act.snapshot c).Grows := fun g => (growth_law g).snapshot c
        have hnext := lowers_unlessMatched (h := fun d v => pure (.matched d v))
          (fun d v => lowers_pure fun _ => rfl) hfell
        refine lowers_after hsnapshot (alike_law.snapshot c) (fun s => ?_) fun s => ?_
        · exact (grows_runAttempt hgrows .fallible a s).bind fun o => (hnext o).grows
        · exact lowers_after (grows_runAttempt hgrows .fallible a s)
            (alike_law.runAttempt halike .fallible a s) (fun o => (hnext o).grows) hnext

omit halike hgrows hcall in
/-- Elements are read in the same way. -/
theorem lowers_leaf (accept : Value → Bool) (expected : Value) (c : CursorId) :
    Lowers last Outcome.IsMatch ((·.seenBy .total) <$> readElement accept expected c)
      ((·.seenBy .fallible) <$> readElement accept expected c) := by
  rw [← bind_pure_comp, ← bind_pure_comp]
  refine lowers_after (fun g => ?_) ?_ (fun _ => (Act.still_pure _).grows) fun o => ?_
  · exact (growth_law g).of_continued ((growth_law g).pairAll.readElement accept expected c)
  · exact alike_law.of_continued (alike_law.pairAll.readElement accept expected c)
  · refine lowers_pure fun ho => ?_
    obtain ⟨d, v, heq⟩ := ho
    cases o with
    | matched d v => rfl
    | missed => cases heq
    | failed e => cases heq

include halike hgrows hcall in
theorem lowers_collectFirst {checked : Bool} {body : Parser} (hbody : last.Genuine body) (n : Nat)
    (c : CursorId) : Lowers last Outcome.IsMatch (collectFirst call checked body n .total c)
      (collectFirst call checked body n .fallible c) := by
  have hfurther : ∀ start d v, (afterFirst call checked body n start (.matched d v)).Grows :=
    fun start d v => (still_checkMark body start d).grows.bind fun _ =>
      (grows_collect hgrows checked body n d).bind fun _ => (Act.still_pure _).grows
  have hnext : ∀ start o, (afterFirst call checked body n start o).Grows := by
    intro start o
    cases o with
    | matched d v => exact hfurther start d v
    | missed => exact (Act.still_pure _).grows
    | failed e => exact (Act.still_pure _).grows
  rw [collectFirst_eq, collectFirst_eq]
  refine lowers_after (still_mark checked c).grows (alike_law.mark checked c)
    (fun start => (hgrows .total body c).bind (hnext start)) fun start => ?_
  refine (hcall body c hbody).bind (hnext start) (fun o ho => ?_) fun {_ o _ _ _} _ hnot hok => ?_
  · obtain ⟨d, v, rfl⟩ := ho
    exact (hfurther start d v).lowers (alike_law.bind (alike_law.checkMark body start d) fun _ =>
      alike_law.bind (alike_law.collect halike checked body d (.inl rfl)) fun _ =>
        alike_law.pure _)
  · cases o with
    | matched d v => exact absurd ⟨d, v, rfl⟩ hnot
    | missed => cases hok; exact hnot
    | failed e => cases hok; exact hnot

include hcall in
/-- Of a choice, the right arm is called in the form of the whole. -/
theorem lowers_rightArm (left : Parser) {right : Parser} (hright : last.Genuine right)
    (c : CursorId) :
    Lowers last Outcome.IsMatch
      (reportArm left right c >>= fun _ => (·.mapValue .right) <$> call .total right c)
      (reportArm left right c >>= fun _ => (·.mapValue .right) <$> call .fallible right c) := by
  have harm := (hcall right c hright).mapValue .right
  exact lowers_after (still_reportArm left right c).grows (alike_law.reportArm left right c)
    (fun _ => harm.grows) fun _ => harm

include halike hgrows hcall in
/-- **A call of the total form lowers to one of the fallible form** if the calls inside it do. -/
theorem lowers_runWith {k n : Nat} {p : Parser} (hp : last.Genuine p) (c : CursorId) :
    Lowers last Outcome.IsMatch (runWith (resolver k) n call .total p c)
      (runWith (resolver k) n call .fallible p c) := by
  have hr := resolver_grows k
  have hgrow := grows_runWith hr hgrows (n := n) .total p c
  have hsnapshot : (Act.snapshot c).Grows := fun g => (growth_law g).snapshot c
  have hsame : ∀ entry, Follows Machine.Alike false (runWith (resolver k) n call entry p c)
      (runWith (resolver k) n call entry p c) := fun entry =>
    alike_law.runWith (fun _ => alike_resolve _) (fun _ => alike_resolve _) halike entry p c
      (.inl rfl)
  cases p with
  | opt body => exact hgrow.lowers (hsame .total)
  | many checked body => exact hgrow.lowers (hsame .total)
  | unimplemented => exact hgrow.lowers (hsame .total)
  | inert => exact hgrow.lowers (hsame .total)
  | seq parts =>
    refine (lowers_gather hgrows hcall c fun q hq => hp.part hq).bind (fun r => ?_) (fun r hr => ?_)
      fun {_ r _ _ _} hr hnot hok => ?_
    · cases r <;> exact (Act.still_pure _).grows
    · obtain ⟨d, vs, rfl⟩ := hr
      exact lowers_pure fun _ => rfl
    · cases r with
      | all d vs => exact absurd ⟨d, vs, rfl⟩ hnot
      | stopped o =>
        cases hok
        have hends := gather_stopped hr
        rintro ⟨d, v, rfl⟩
        cases hends
  | element v => exact lowers_leaf _ _ c
  | any => exact lowers_leaf _ _ c
  | satisfy test description => exact lowers_leaf _ _ c
  | many1 checked body =>
    exact lowers_collectFirst halike hgrows hcall (hp.part List.mem_cons_self) n c
  | either left right =>
    have hfell := lowers_rightArm hcall left
      (hp.part (List.mem_cons_of_mem left List.mem_cons_self)) c
    have hnext := lowers_unlessMatched (h := fun d v => pure (.matched d (.left v)))
      (fun d v => lowers_pure fun _ => rfl) hfell
    exact lowers_after hsnapshot (alike_law.snapshot c)
      (fun s => (hgrows .fallible left s).bind fun o => (hnext o).grows)
      fun s => lowers_after (hgrows .fallible left s) (halike .fallible left s)
        (fun o => (hnext o).grows) hnext
  | not body =>
    have hmatched : Lowers last Outcome.IsMatch
        (do let d ← Act.describe body; pure (.failed (.unexpectedMatch d))) (pure .missed) := by
      refine lowers_hidden ((Act.still_describe body).bind fun _ => Act.still_pure _).grows
        fun hok => ?_
      obtain ⟨text, m1, -, hok⟩ := bind_eq_ok_iff.mp hok
      cases hok
      rintro ⟨d, v, heq⟩
      cases heq
    have hnext := lowers_unlessMatched (x := pure (.matched c .nothing))
      (fun _ _ => hmatched) (lowers_pure fun _ => rfl)
    exact lowers_after hsnapshot (alike_law.snapshot c)
      (fun s => (hgrows .fallible body s).bind fun o => (hnext o).grows)
      fun s => lowers_after (hgrows .fallible body s) (halike .fallible body s)
        (fun o => (hnext o).grows) hnext
  | box b =>
    refine lowers_foresee (hr.boxParser b) (fun q => hgrows .total q c) fun {q m t} hq hfound => ?_
    exact hcall q c (hp.part (part_of_boxParser hq hfound))
  | map change body =>
    have hchange : ∀ d v, (Act.lift (change v) >>= fun w =>
        pure (Outcome.matched d w) : Act Outcome).Grows := fun d v =>
      ((Act.still_lift _).bind fun w => Act.still_pure _).grows
    refine (hcall body c (hp.part List.mem_cons_self)).bind (fun o => ?_) (fun o ho => ?_)
      fun {_ o _ _ _} _ hnot hok => ?_
    · cases o with
      | matched d v => exact hchange d v
      | missed => exact (Act.still_pure _).grows
      | failed e => exact (Act.still_pure _).grows
    · obtain ⟨d, v, rfl⟩ := ho
      exact (hchange d v).lowers (alike_law.bind (alike_law.lift _) fun w => alike_law.pure _)
    · cases o with
      | matched d v => exact absurd ⟨d, v, rfl⟩ hnot
      | missed => cases hok; exact hnot
      | failed e => cases hok; exact hnot
  | derived target =>
    refine lowers_foresee (hr.planOf target) (fun plan => hgrows .total (.planned plan) c)
      fun {plan m t} hplan hfound => ?_
    exact hcall (.planned plan) c (hp.part (part_of_planOf hplan hfound))
  | planned plan =>
    exact lowers_runAttempts halike hgrows hcall (alike_law.reportAttempt plan.target)
      (still_reportAttempt plan.target) plan.attempts c
      fun a ha q hq => hp.part (List.mem_flatMap.mpr ⟨a, ha, hq⟩)
  | generated plan code =>
    obtain ⟨hordered, rfl⟩ := hp.authentic
    unfold runWith
    dsimp only
    rw [hordered.invoke_eq, hordered.invoke_eq]
    exact lowers_runAttempts halike hgrows hcall (fun _ _ => alike_law.pure ())
      (fun _ _ => Act.still_pure ()) plan.attempts c
      fun a ha q hq => hp.part (List.mem_flatMap.mpr ⟨a, ha, hq⟩)
  | recorded name body =>
    have hbody := hcall body c (hp.part List.mem_cons_self)
    have hnoted : ∀ k, Lowers last (fun _ => True) (Act.note ⟨name, .total, k⟩)
        (Act.note ⟨name, .fallible, k⟩) := fun k =>
      ⟨(Act.still_note _).grows, fun halike hok _ _ => by
        cases hok
        exact ⟨_, rfl, halike.note .total .fallible⟩⟩
    refine lowers_after (Act.still_position c).grows (alike_law.position c)
      (fun k => (hnoted k).grows.bind fun _ => hbody.grows) fun k => ?_
    exact (hnoted k).bind (fun _ => hbody.grows) (fun _ _ => hbody)
      fun _ hnot => absurd trivial hnot
  | misser accepts =>
    have hmiss : Lowers last Outcome.IsMatch (noMatch (.misser accepts) .total)
        (noMatch (.misser accepts) .fallible) := by
      refine lowers_hidden ((Act.still_describe _).bind fun _ => Act.still_pure _).grows
        fun hok => ?_
      obtain ⟨text, m1, -, hok⟩ := bind_eq_ok_iff.mp hok
      cases hok
      rintro ⟨d, v, heq⟩
      cases heq
    have hsome : ∀ v, Lowers last Outcome.IsMatch
        (if accepts v then pure (.matched c v) else noMatch (.misser accepts) .total)
        (if accepts v then pure (.matched c v)
          else noMatch (.misser accepts) .fallible) := by
      intro v
      split
      · exact lowers_pure fun _ => rfl
      · exact hmiss
    have hnext := lowers_ofElement hsome hmiss
    exact lowers_after (fun g => (growth_law g).next c) (alike_law.next c)
      (fun v => (hnext v).grows) hnext

end Calls

/-! ## Runs -/

theorem lowers_run (k : Nat) {last : Grammar} : ∀ (n : Nat) (p : Parser) (c : CursorId),
    last.Genuine p → Lowers last Outcome.IsMatch (run (resolver k) n .total p c)
      (run (resolver k) n .fallible p c)
  | 0, _, _, _ => lowers_hidden (Act.still_throw _).grows fun hok => by cases hok
  | n + 1, p, c, hp => by
    rw [run_succ, run_succ]
    exact lowers_runWith (run_alike (resolver k) n) (run_grows (resolver_grows k) n)
      (lowers_run k n) hp c

/-- **Where the total form of a genuine parser matches, the fallible form does the same**, and only
the trace tells them apart. -/
theorem match_of_total {k n : Nat} {entry : Entry} {p : Parser} {c d : CursorId} {v : Value}
    {m m1 : Machine} (h : run (resolver k) n entry p c m = .ok (.matched d v) m1)
    (hp : m1.grammar.Genuine p) :
    ∃ m1', run (resolver k) n .fallible p c m = .ok (.matched d v) m1' ∧ m1.Alike m1' := by
  cases entry with
  | fallible => exact ⟨m1, h, .refl m1⟩
  | total => exact (lowers_run k n p c hp).same (.refl m) h ⟨d, v, rfl⟩ (.refl _)

end ShapeGrammar
