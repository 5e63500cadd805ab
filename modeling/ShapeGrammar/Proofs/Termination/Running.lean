import ShapeGrammar.Proofs.Factory.Simulation
import ShapeGrammar.Proofs.Termination.Ending

/-!
# Runs end

Where left calls do not go in a circle, every run of what has a skeleton ends, in either form. The
induction is on how much input is left, and for as much input on the left calls: a part that is
called after something was consumed is called with less input left, and any other one is called from
the left. A checked repetition consumes something each time, or stops.

Headlines: `Resolver.Settles`, `RunsEnd`, `runsEnd`.
-/

namespace ShapeGrammar

open Machine Resolution

variable {S : Skeletons} {base : Grammar} {c d : CursorId} {m m1 m2 : Machine} {x y : Skeleton}
  {entry : Entry} {l : Nat}

/-- Classes are planned and delayed parsers are opened that have a skeleton. -/
structure Resolver.Settles (S : Skeletons) (base : Grammar) (r : Resolver) : Prop where
  grows : r.Obeys Grows
  plan : ∀ {g : Grammar} {c : ClassId} {x : Skeleton}, Fits S base g → g.pending = [] →
    S.ofClass c = some x → Finds S base g (r.planOf c) fun plan g' =>
      HasSkeleton S base g' (.attempts plan.attempts) x
  box : ∀ {g : Grammar} {b : BoxId} {x : Skeleton}, Fits S base g →
    HasSkeleton S base g (.parser (.box b)) (.within x) →
    Finds S base g (r.boxParser b) fun p g' => HasSkeleton S base g' (.parser p) x

/-! ## Outcomes -/

theorem Outcome.Closes.of_held {o : Outcome} (h : Reached S base c m m1) (hd : Held c m m1 d)
    (ho : o.Closes S x entry d m1 m2) : o.Closes S x entry c m m2 := by
  cases o with
  | matched e v =>
    exact ⟨.trans h.lent hd ho.1, ho.2.imp_right fun hlt => Nat.lt_of_lt_of_le hlt (h.left_le hd)⟩
  | missed => exact ho
  | failed e => exact ho

/-- A call may match nothing where what it calls from the left may. -/
theorem Outcome.Closes.imp {o : Outcome} (ho : o.Closes S x entry c m m1)
    (h : S.Nullable x → S.Nullable y) : o.Closes S y entry c m m1 := by
  cases o with
  | matched d v => exact ⟨ho.1, ho.2.imp_left h⟩
  | missed => exact ho
  | failed e => exact ho

theorem Outcome.Closes.seenBy {o : Outcome} (ho : o.Closes S x .total c m m1) (entry : Entry) :
    (o.seenBy entry).Closes S x entry c m m1 := by
  cases entry with
  | total => exact ho
  | fallible =>
    cases o with
    | matched d v => exact ho
    | missed => exact rfl
    | failed e => exact rfl

theorem Outcome.Closes.mapValue {o : Outcome} (ho : o.Closes S x entry c m m1) (f : Value → Value) :
    (o.mapValue f).Closes S x entry c m m1 := by
  cases o <;> exact ho

/-! ## Parts -/

/-- Reports can be made wherever a run has come to. -/
def ReportsEnd (S : Skeletons) (base : Grammar) (report : String → CursorId → Act Unit) : Prop :=
  ∀ (name : String) {c d : CursorId} {m m1 : Machine}, Begun S base c m → Reached S base c m m1 →
    Held c m m1 d → Concludes S base c m (report name d) m1 fun _ _ => True

section Parts

variable (S base) (call : Entry → Parser → CursorId → Act Outcome) (l : Nat) (x : Skeleton)

/-- Calls of what has the skeleton end, with no more than so much input left. -/
def CallsEnd : Prop :=
  ∀ {c : CursorId} {m : Machine} {entry : Entry} {p : Parser}, Begun S base c m → m.left c ≤ l →
    HasSkeleton S base m.grammar (.parser p) x →
    Concludes S base c m (call entry p c) m fun o m' => o.Closes S x entry c m m'

/-- So do parts, one after the other. -/
def PartsEnd : Prop :=
  ∀ {c : CursorId} {m : Machine} {entry : Entry} {ps : List Parser}, Begun S base c m →
    m.left c ≤ l → HasSkeleton S base m.grammar (.parsers ps) x →
    Concludes S base c m (gather call entry ps c) m fun r m' =>
      r.Closes S x ps.length entry c m m'

/-- So do attempts, however a missed one is reported. -/
def AttemptsEnd : Prop :=
  ∀ {c : CursorId} {m : Machine} {entry : Entry} {ts : List (Attempt Parser)}
    {report : String → CursorId → Act Unit}, ReportsEnd S base report →
    Begun S base c m → m.left c ≤ l → HasSkeleton S base m.grammar (.attempts ts) x →
    Concludes S base c m (runAttempts call report entry ts c) m fun o m' =>
      o.Closes S x entry c m m'

variable {S base call l x}

theorem PartsEnd.of_le {k : Nat} (h : PartsEnd S base call l x) (hk : k ≤ l) :
    PartsEnd S base call k x :=
  fun hc hleft hx => h hc (Nat.le_trans hleft hk) hx

/-- A call on a cursor that stands for the one that was handed over. -/
theorem CallsEnd.held {p : Parser} (hcall : CallsEnd S base call l x) (hc : Begun S base c m)
    (hl : m.left c ≤ l) (h : Reached S base c m m1) (hd : Held c m m1 d)
    (hx : HasSkeleton S base m1.grammar (.parser p) x) :
    Concludes S base c m (call entry p d) m1 fun o m2 =>
      Reached S base d m1 m2 ∧ o.Closes S x entry d m1 m2 :=
  .of_held h hd (hcall (h.begun hc hd) (Nat.le_trans (h.left_le hd) hl) hx)

theorem partsEnd_nil : PartsEnd S base call l .nil := by
  intro c m entry ps hc _ hx
  cases hx with
  | noParts => exact .pure (.refl hc) ⟨rfl, .refl hc.live, .inl .nil⟩

/-- The rest of a sequence is called from the left, or with less input left. -/
theorem partsEnd_cons (hx : CallsEnd S base call l x)
    (hnull : S.Nullable x → PartsEnd S base call l y)
    (hless : ∀ k < l, PartsEnd S base call k y) : PartsEnd S base call l (.cons x y) := by
  intro c m entry ps hc hl h
  cases h with
  | @parts _ p ps _ _ hp hps =>
    unfold gather
    refine .bind (hx hc hl hp) fun o m1 h1 _ ho => ?_
    cases o with
    | missed =>
      have hends : Outcome.missed.endsAt entry = true := ho
      simp only [hends, if_true]
      exact .pure h1 ho
    | failed e =>
      have hends : (Outcome.failed e).endsAt entry = true := ho
      simp only [hends, if_true]
      exact .pure h1 ho
    | matched d v =>
      obtain ⟨hd, hleft⟩ := ho
      have hps' := hps.mono h1.onward.later
      have hbegun := h1.begun hc hd
      have hrest : Concludes S base d m1 (gather call entry ps d) m1 fun r m2 =>
          r.Closes S y ps.length entry d m1 m2 := by
        rcases hleft with hx | hlt
        · exact hnull hx hbegun (Nat.le_trans (h1.left_le hd) hl) hps'
        · exact hless _ (Nat.lt_of_lt_of_le hlt hl) hbegun (Nat.le_refl _) hps'
      refine .bind (.of_held h1 hd hrest) fun r m2 h2 _ hr => ?_
      obtain ⟨hd2, hr⟩ := hr
      cases r with
      | stopped o => exact .pure h2 hr
      | all e vs =>
        obtain ⟨hlength, he, hleft'⟩ := hr
        refine .pure h2 ⟨congrArg Nat.succ hlength, .trans h1.lent hd he, ?_⟩
        have hle := h1.left_le hd
        have hle' := hd2.left_le he
        rcases hleft with hx | hlt
        · rcases hleft' with hy | hlt'
          · exact .inl (.cons hx hy)
          · exact .inr (Nat.lt_of_lt_of_le hlt' hle)
        · exact .inr (Nat.lt_of_le_of_lt hle' hlt)

/-! ## Attempts -/

theorem PartsEnd.runAttempt {t : Attempt Parser} (hparts : PartsEnd S base call l x)
    (hc : Begun S base c m) (hl : m.left c ≤ l) (haccepts : base.Accepts t.target t.parsers.length)
    (hx : HasSkeleton S base m.grammar (.parsers t.parsers) x) :
    Concludes S base c m (runAttempt call entry t c) m fun o m' => o.Closes S x entry c m m' := by
  refine .bind (hparts hc hl hx) fun r m1 h1 _ hr => ?_
  cases r with
  | stopped o =>
    cases o with
    | matched d v => cases entry <;> cases hr
    | missed => exact .pure h1 hr
    | failed e => exact .pure h1 hr
  | all d vs =>
    obtain ⟨hlength, hd, hleft⟩ := hr
    refine .bind (.construct h1 (hlength ▸ haccepts)) fun v m2 h2 _ hv => ?_
    subst hv
    exact .pure h2 ⟨hd, hleft⟩

/-- The last attempt is made on the cursor itself. -/
theorem PartsEnd.last {t : Attempt Parser} {report : String → CursorId → Act Unit}
    (hparts : PartsEnd S base call l x)
    (hc : Begun S base c m) (hl : m.left c ≤ l) (ht : t.snapshot = false)
    (haccepts : base.Accepts t.target t.parsers.length)
    (hx : HasSkeleton S base m.grammar (.parsers t.parsers) x) :
    Concludes S base c m (runAttempts call report entry [t] c) m fun o m' =>
      o.Closes S x entry c m m' := by
  unfold runAttempts
  split
  · rename_i hunit
    have hnone : t.parsers = [] := List.isEmpty_iff.mp hunit
    rw [hnone] at hx haccepts
    cases hx with
    | noParts =>
      refine .bind (.construct (.refl hc) haccepts) fun v m1 h1 _ hv => ?_
      subst hv
      exact .pure h1 ⟨.refl hc.live, .inl .nil⟩
  · rw [ht]
    exact hparts.runAttempt hc hl haccepts hx

theorem reportsEnd_reportAttempt (target : ClassRef) :
    ReportsEnd S base (reportAttempt target) := by
  intro name c d m m1 hc h hd
  refine .bind (.of_ok (P := fun _ m2 => m2 = m1) h rfl rfl) fun listens m2 h2 _ heq => ?_
  subst heq
  cases listens with
  | false => exact .pure h2 trivial
  | true =>
    refine .bind (.position hc h2 hd) fun k m3 h3 _ hk => ?_
    obtain ⟨rfl, -⟩ := hk
    refine .bind (.of_ok (P := fun _ m4 => m4 = m3) h3 rfl rfl) fun name m4 h4 _ heq => ?_
    subst heq
    exact .report hd h4

theorem reportsEnd_silent : ReportsEnd S base fun _ _ => pure () :=
  fun _ _ _ _ _ _ h _ => .pure h trivial

theorem attemptsEnd_choice (hx : PartsEnd S base call l x) (hy : AttemptsEnd S base call l y) :
    AttemptsEnd S base call l (.choice x y) := by
  intro c m entry ts report hreport hc hl h
  match ts, h with
  | [t], .lastAttempt _ _ h => exact nomatch t.parsers, h
  | t :: u :: ts, .nextAttempt hunit hsnap haccepts h hrest =>
    unfold runAttempts
    rw [hunit, hsnap]
    refine .bind (.snapshot (.refl hc.live) (.refl hc)) fun s m1 h1 hsize1 hs => ?_
    obtain ⟨hs, -, -, -, hgrammar⟩ := hs
    have hl1 : m1.left s ≤ l := Nat.le_trans (h1.left_le hs) hl
    refine .bind (.of_held h1 hs (hx.runAttempt (h1.begun hc hs) hl1 haccepts (hgrammar ▸ h)))
      fun o m2 h2 hsize2 ho => ?_
    have hd : Held c m m2 c := (Held.refl hc.live).mono (Nat.le_trans hsize1 hsize2)
    have hagain : Concludes S base c m (report t.name c >>= fun _ =>
        runAttempts call report entry (u :: ts) c) m2 fun o m' =>
          o.Closes S (.choice x y) entry c m m' := by
      refine .bind (hreport t.name hc h2 hd) fun _ m3 h3 hsize3 _ => ?_
      have hd3 := hd.mono hsize3
      refine .imp (.of_held h3 hd3 (hy hreport (h3.begun hc hd3) (Nat.le_trans (h3.left_le hd3) hl)
        (hrest.mono h3.onward.later))) fun o m4 ho => ?_
      exact .imp (.of_held h3 hd3 ho.2) .second
    cases o with
    | matched e v => exact .pure h2 (.imp (.of_held h1 hs ho.2) .first)
    | missed => exact hagain
    | failed e => exact hagain

/-! ## Repetitions -/

/-- A match that was checked has consumed something. -/
theorem concludes_checkMark {p : Parser} {start : Nat} (hc : Begun S base c m)
    (h : Reached S base c m m1) (hd : Held c m m1 d)
    (hx : HasSkeleton S base m1.grammar (.parser p) x) :
    Concludes S base c m (checkMark p (some start) d) m1 fun _ m2 =>
      m2 = m1 ∧ start < (m1.cursor d).position := by
  refine .bind (.position hc h hd) fun stop m2 h2 _ hstop => ?_
  obtain ⟨rfl, rfl⟩ := hstop
  split
  · exact .bind (.describe h2 hx) fun text m3 h3 _ _ => .fail h3 (.inl ⟨_, _, rfl⟩)
  · rename_i hlt
    exact .pure h2 ⟨rfl, Nat.lt_of_not_le hlt⟩

/-- A checked repetition leaves less input each time. -/
theorem CallsEnd.collect {p : Parser} (hbody : CallsEnd S base call l x) :
    ∀ {k : Nat} {c : CursorId} {m : Machine}, Begun S base c m → m.left c ≤ l → m.left c < k →
      HasSkeleton S base m.grammar (.parser p) x →
      Concludes S base c m (collect call true p k c) m fun r m' => Held c m m' r.1
  | k + 1, c, m, hc, hl, hk, hx => by
    unfold ShapeGrammar.collect
    refine .bind (.snapshot (.refl hc.live) (.refl hc)) fun s m1 h1 hsize1 hs => ?_
    obtain ⟨hs, hne, -, hsame, hgrammar⟩ := hs
    have hd1 : Held c m m1 c := (Held.refl hc.live).mono hsize1
    refine .bind (hbody.held hc hl h1 hs (hgrammar ▸ hx)) fun o m2 h2 hsize2 ho => ?_
    have hd2 : Held c m m2 c := hd1.mono hsize2
    cases o with
    | missed => exact .pure h2 hd2
    | failed e => exact .pure h2 hd2
    | matched e v =>
      obtain ⟨hlent, he, -⟩ := ho
      have he2 : Held c m m2 e := .trans h1.lent hs he
      -- the cursor itself has stayed where it was
      have hstill : m2.cursor c = m.cursor c :=
        (hlent.lent.others hne.symm hd1.lt).trans hsame
      refine .bind (P := fun start m3 => m3 = m2 ∧ start = some (m.cursor c).position)
        (.map (.imp (.position hc h2 hd2) fun start m3 h => ⟨h.1, ?_⟩)) fun start m3 h3 _ h => ?_
      · rw [h.2, hstill]
      obtain ⟨rfl, rfl⟩ := h
      refine .bind (concludes_checkMark hc h3 he2 (hx.mono h3.onward.later))
        fun _ m4 h4 _ hlt => ?_
      obtain ⟨rfl, hlt⟩ := hlt
      have hless := h4.left_lt he2 hlt
      have hrest := CallsEnd.collect hbody (k := k) (h4.begun hc he2) (by omega) (by omega)
        (hx.mono h4.onward.later)
      exact .bind (.of_held h4 he2 hrest) fun r m5 h5 _ hr => .pure h5 (.trans h4.lent he2 hr.2)

theorem CallsEnd.collectFirst {p : Parser} {k : Nat} (hbody : CallsEnd S base call l x)
    (hc : Begun S base c m) (hl : m.left c ≤ l) (hk : m.left c < k)
    (hx : HasSkeleton S base m.grammar (.parser p) x) :
    Concludes S base c m (collectFirst call true p k entry c) m fun o m' =>
      o.Closes S (.within x) entry c m m' := by
  unfold ShapeGrammar.collectFirst
  refine .bind (P := fun start m1 => m1 = m ∧ start = some (m.cursor c).position)
    (.map (.imp (.position hc (.refl hc) (.refl hc.live)) fun start m1 h =>
      ⟨h.1, congrArg some h.2⟩))
    fun start m1 h1 _ h => ?_
  obtain ⟨rfl, rfl⟩ := h
  refine .bind (hbody hc hl hx) fun o m2 h2 _ ho => ?_
  cases o with
  | missed => exact .pure h2 ho
  | failed e => exact .pure h2 ho
  | matched d v =>
    refine .bind (concludes_checkMark hc h2 ho.1 (hx.mono h2.onward.later)) fun _ m3 h3 _ hlt => ?_
    obtain ⟨rfl, hlt⟩ := hlt
    have hless := h3.left_lt ho.1 hlt
    have hrest := hbody.collect (k := k) (h3.begun hc ho.1) (by omega) (by omega)
      (hx.mono h3.onward.later)
    refine .bind (.of_held h3 ho.1 hrest) fun r m4 h4 _ hr =>
      .pure h4 ⟨.trans h3.lent ho.1 hr.2, ?_⟩
    exact .inr (Nat.lt_of_le_of_lt (hr.1.left_le hr.2) hless)

end Parts

/-! ## Combinators -/

/-- Following so many calls, runs of what has the skeleton end, with no more than so much input
left. -/
structure RunsEnd (S : Skeletons) (base : Grammar) (r : Resolver) (n l : Nat) (x : Skeleton) :
    Prop where
  calls : CallsEnd S base (run r n) l x
  parts : PartsEnd S base (run r n) l x
  attempts : AttemptsEnd S base (run r n) l x

namespace RunsEnd

variable {r : Resolver} {n : Nat}

/-- What is the skeleton of a parser only. -/
theorem of_calls (hparts : ∀ {g ps}, ¬ HasSkeleton S base g (.parsers ps) x)
    (hnext : ∀ {g t u ts}, ¬ HasSkeleton S base g (.attempts (t :: u :: ts)) x)
    (h : CallsEnd S base (run r n) l x) : RunsEnd S base r n l x where
  calls := h
  parts _ _ hx := absurd hx hparts
  attempts {c m entry ts report} _ _ _ hx := by
    match ts, hx with
    | [t], .lastAttempt _ _ hx => exact absurd hx hparts
    | _ :: _ :: _, hx => exact absurd hx hnext

/-- What is the skeleton of parts only. -/
theorem of_parts (hcalls : ∀ {g p}, ¬ HasSkeleton S base g (.parser p) x)
    (hnext : ∀ {g t u ts}, ¬ HasSkeleton S base g (.attempts (t :: u :: ts)) x)
    (h : PartsEnd S base (run r n) l x) : RunsEnd S base r n l x where
  calls _ _ hx := absurd hx hcalls
  parts := h
  attempts {c m entry ts report} _ hc hl hx := by
    match ts, hx with
    | [t], .lastAttempt ht haccepts hx => exact PartsEnd.last h hc hl ht haccepts hx
    | _ :: _ :: _, hx => exact absurd hx hnext

theorem concludes_readElement {accept : Value → Bool} {expected : Value} (hc : Begun S base c m) :
    Concludes S base c m ((·.seenBy entry) <$> readElement accept expected c) m fun o m' =>
      o.Closes S .leaf entry c m m' := by
  refine .map (.imp (P := fun o m' => o.Closes S .leaf .total c m m') ?_ fun o m1 ho =>
    ho.seenBy entry)
  refine .bind (.next (.refl hc.live) (.refl hc)) fun v m1 h1 hsize hv => ?_
  cases v with
  | none => exact .pure h1 rfl
  | some v =>
    dsimp only
    split
    · exact .pure h1 ⟨(Held.refl hc.live).mono hsize, .inr (hv rfl)⟩
    · exact .pure h1 rfl

/-- A parser that only knows how to miss describes itself instead. -/
theorem concludes_noMatch {p : Parser} (h : Reached S base c m m1)
    (hx : HasSkeleton S base m1.grammar (.parser p) x) :
    Concludes S base c m (noMatch p entry) m1 fun o m' => o.Closes S y entry c m m' := by
  cases entry with
  | fallible => exact .pure h rfl
  | total => exact .bind (.describe h hx) fun text m2 h2 _ _ => .pure h2 rfl

theorem leaf : RunsEnd S base r (n + 1) l .leaf := by
  refine .of_calls nofun nofun fun {c m entry p} hc _ hx => ?_
  cases hx with
  | element | any | satisfy => exact concludes_readElement hc
  | misser =>
    refine .bind (.next (.refl hc.live) (.refl hc)) fun v m1 h1 hsize hv => ?_
    cases v with
    | none => exact concludes_noMatch h1 .misser
    | some v =>
      dsimp only
      split
      · exact .pure h1 ⟨(Held.refl hc.live).mono hsize, .inr (hv rfl)⟩
      · exact concludes_noMatch h1 .misser

theorem row (h : RunsEnd S base r n l x) : RunsEnd S base r (n + 1) l (.row x) := by
  refine .of_calls nofun nofun fun {c m entry p} hc hl hx => ?_
  cases hx with
  | seq hx =>
    refine .bind (h.parts hc hl hx) fun r m1 h1 _ hr => ?_
    cases r with
    | all d vs => exact .pure h1 ⟨hr.2.1, hr.2.2.imp_left .row⟩
    | stopped o =>
      cases o with
      | matched d v => cases entry <;> cases hr
      | missed => exact .pure h1 hr
      | failed e => exact .pure h1 hr

theorem nil : RunsEnd S base r n l .nil :=
  .of_parts nofun nofun partsEnd_nil

theorem cons (hx : RunsEnd S base r n l x) (hnull : S.Nullable x → RunsEnd S base r n l y)
    (hless : ∀ k < l, PartsEnd S base (run r n) k y) : RunsEnd S base r n l (.cons x y) :=
  .of_parts nofun nofun (partsEnd_cons hx.calls (fun h => (hnull h).parts) hless)

/-- What runs on a snapshot leaves the cursor for what is done then. -/
theorem concludes_tried {p : Parser} {P : Outcome → Machine → Prop} {f : Outcome → Act Outcome}
    (h : RunsEnd S base r n l x) (hc : Begun S base c m) (hl : m.left c ≤ l)
    (hx : HasSkeleton S base m.grammar (.parser p) x)
    (hmatched : ∀ {d v m'}, Reached S base c m m' → Held c m m' d → Held c m m' c →
      (S.Nullable x ∨ m'.left d < m.left c) →
      Concludes S base c m (f (.matched d v)) m' P)
    (hfailed : ∀ {o m'}, (∀ d v, o ≠ .matched d v) → Reached S base c m m' → Held c m m' c →
      Concludes S base c m (f o) m' P) :
    Concludes S base c m (Act.snapshot c >>= fun s => run r n .fallible p s >>= f) m P := by
  refine .bind (.snapshot (.refl hc.live) (.refl hc)) fun s m1 h1 hsize1 hs => ?_
  obtain ⟨hs, -, -, -, hgrammar⟩ := hs
  refine .bind (CallsEnd.held h.calls hc hl h1 hs (hgrammar ▸ hx)) fun o m2 h2 hsize2 ho => ?_
  have hd : Held c m m2 c := (Held.refl hc.live).mono (Nat.le_trans hsize1 hsize2)
  have ho' := Outcome.Closes.of_held h1 hs ho.2
  cases o with
  | matched d v => exact hmatched h2 ho'.1 hd ho'.2
  | missed => exact hfailed nofun h2 hd
  | failed e => exact hfailed nofun h2 hd

theorem optional (hn : l < n) (h : RunsEnd S base r n l x) :
    RunsEnd S base r (n + 1) l (.optional x) := by
  refine .of_calls nofun nofun fun {c m entry p} hc hl hx => ?_
  cases hx with
  | opt hx =>
    refine h.concludes_tried hc hl hx (fun h' hd _ _ => .pure h' ⟨hd, .inl .optional⟩)
      fun {o m'} hne h' hd => ?_
    cases o with
    | matched d v => exact absurd rfl (hne d v)
    | missed => exact .pure h' ⟨hd, .inl .optional⟩
    | failed e => exact .pure h' ⟨hd, .inl .optional⟩
  | many hx =>
    exact .bind (CallsEnd.collect h.calls hc hl (Nat.lt_of_le_of_lt hl hn) hx) fun r m1 h1 _ hr =>
      .pure h1 ⟨hr, .inl .optional⟩
  | not hx =>
    refine h.concludes_tried hc hl hx (fun {d v m'} h' hd _ _ => ?_) fun {o m'} hne h' hd => ?_
    · cases entry with
      | fallible => exact .pure h' rfl
      | total =>
        exact .bind (.describe h' (hx.mono h'.onward.later)) fun text m2 h2 _ _ => .pure h2 rfl
    · cases o with
      | matched d v => exact absurd rfl (hne d v)
      | missed => exact .pure h' ⟨hd, .inl .optional⟩
      | failed e => exact .pure h' ⟨hd, .inl .optional⟩

theorem concludes_reportArm {p q : Parser} (hc : Begun S base c m) (h : Reached S base c m m1)
    (hd : Held c m m1 d) (hp : HasSkeleton S base m1.grammar (.parser p) x)
    (hq : HasSkeleton S base m1.grammar (.parser q) y) :
    Concludes S base c m (reportArm p q d) m1 fun _ _ => True := by
  refine .bind (.of_ok (P := fun _ m2 => m2 = m1) h rfl rfl) fun listens m2 h2 _ heq => ?_
  subst heq
  cases listens with
  | false => exact .pure h2 trivial
  | true =>
    refine .bind (.describe h2 hp) fun left m3 h3 _ heq => ?_
    subst heq
    refine .bind (.position hc h3 hd) fun k m4 h4 _ hk => ?_
    obtain ⟨rfl, -⟩ := hk
    refine .bind (.describe h4 hq) fun right m5 h5 _ heq => ?_
    subst heq
    exact .report hd h5

theorem choice (hx : RunsEnd S base r n l x) (hy : RunsEnd S base r n l y)
    (hparts : PartsEnd S base (run r (n + 1)) l x)
    (hattempts : AttemptsEnd S base (run r (n + 1)) l y) :
    RunsEnd S base r (n + 1) l (.choice x y) where
  parts _ _ hx := nomatch hx
  attempts := attemptsEnd_choice hparts hattempts
  calls {c m entry p} hc hl h := by
    cases h with
    | @either _ p q _ _ hp hq =>
      have hright : ∀ {m1}, Reached S base c m m1 → Held c m m1 c →
          Concludes S base c m (reportArm p q c >>= fun _ =>
            (·.mapValue .right) <$> run r n entry q c) m1 fun o m' =>
              o.Closes S (.choice x y) entry c m m' := by
        intro m1 h1 hd
        refine .bind (concludes_reportArm hc h1 hd (hp.mono h1.onward.later)
          (hq.mono h1.onward.later)) fun _ m2 h2 hsize _ => ?_
        have hd2 := hd.mono hsize
        refine .map (.imp (CallsEnd.held hy.calls hc hl h2 hd2 (hq.mono h2.onward.later))
          fun o m3 ho => ?_)
        exact .mapValue (.imp (.of_held h2 hd2 ho.2) .second) _
      refine hx.concludes_tried hc hl hp (fun h1 hd _ hleft =>
        .pure h1 ⟨hd, hleft.imp_left .first⟩) fun {o m1} hne h1 hd => ?_
      cases o with
      | matched d v => exact absurd rfl (hne d v)
      | missed => exact hright h1 hd
      | failed e => exact hright h1 hd

theorem within (hr : r.Settles S base) (hn : l < n) (h : RunsEnd S base r n l x) :
    RunsEnd S base r (n + 1) l (.within x) := by
  refine .of_calls nofun nofun fun {c m entry p} hc hl hx => ?_
  have hbox : ∀ {b : BoxId}, HasSkeleton S base m.grammar (.parser (.box b)) (.within x) →
      Concludes S base c m (run r (n + 1) entry (.box b) c) m fun o m' =>
        o.Closes S (.within x) entry c m m' := by
    intro b hb
    refine .bind (.resolve (hr.grows.boxParser b) (.refl hc.live) (.refl hc) (hr.box hc.fits hb))
      fun p m1 h1 hsize hp => ?_
    have hd := (Held.refl hc.live).mono hsize
    exact .imp (CallsEnd.held h.calls hc hl h1 hd hp) fun o m2 ho =>
      .imp (.of_held h1 hd ho.2) .within
  cases hx with
  | many1 hx => exact CallsEnd.collectFirst h.calls hc hl (Nat.lt_of_le_of_lt hl hn) hx
  | boxFound hp hkind hx => exact hbox (.boxFound hp hkind hx)
  | boxOpen hp hkind hb hx => exact hbox (.boxOpen hp hkind hb hx)
  | planned _ hx =>
    exact .imp (h.attempts (reportsEnd_reportAttempt _) hc hl hx) fun o m1 ho => .imp ho .within
  | @generated _ plan _ _ hx =>
    have hordered : plan.Ordered := hx.ordered
    have hruns : run r (n + 1) entry (.generated plan plan.code) c =
        runAttempts (run r n) (fun _ _ => pure ()) entry plan.attempts c :=
      hordered.invoke_eq (run r n) entry c
    rw [hruns]
    exact .imp (h.attempts reportsEnd_silent hc hl hx) fun o m1 ho => .imp ho .within
  | @map _ change p _ hraises hx =>
    refine .bind (h.calls hc hl hx) fun o m1 h1 _ ho => ?_
    cases o with
    | missed => exact .pure h1 ho
    | failed e => exact .pure h1 ho
    | matched d v =>
      dsimp only
      cases hv : change v with
      | ok w => exact .pure h1 ⟨ho.1, ho.2.imp_left .within⟩
      | error f => exact .inr ⟨f, m1, rfl, h1, .inr (hraises v f hv)⟩
  | recorded hx =>
    refine .bind (.position hc (.refl hc) (.refl hc.live)) fun k m1 h1 _ hk => ?_
    obtain ⟨rfl, -⟩ := hk
    refine .bind (.note (.refl hc.live) h1) fun _ m2 h2 hsize hgrammar => ?_
    have hd := (Held.refl hc.live).mono hsize
    exact .imp (CallsEnd.held h.calls hc hl h2 hd (hgrammar ▸ hx)) fun o m3 ho =>
      .imp (.of_held h2 hd ho.2) .within

/-- A class runs its plan. -/
theorem cls {c : ClassId} (hr : r.Settles S base)
    (h : ∀ {a}, S.ofClass c = some a → AttemptsEnd S base (run r n) l a) :
    RunsEnd S base r (n + 2) l (.cls c) := by
  refine .of_calls nofun nofun fun {d m entry p} hc hl hx => ?_
  cases hx with
  | derived hclass =>
    obtain ⟨a, ha⟩ := Option.isSome_iff_exists.mp hclass
    refine .bind (.resolve (hr.grows.planOf c) (.refl hc.live) (.refl hc)
      (hr.plan hc.fits hc.pending ha)) fun plan m1 h1 hsize hplan => ?_
    have hd := (Held.refl hc.live).mono hsize
    have hl1 : m1.left d ≤ l := Nat.le_trans (h1.left_le hd) hl
    refine .imp (.of_held h1 hd ?_) fun o m2 ho =>
      Outcome.Closes.imp (.of_held h1 hd ho.2) (.cls ha)
    exact h ha (reportsEnd_reportAttempt plan.target) (h1.begun hc hd) hl1 hplan

end RunsEnd

/-- **Where left calls do not go in a circle, runs end** within so many calls, or more. -/
theorem runsEnd (wf : WellFounded fun x y => S.LeftCalls y x) (l : Nat) (x : Skeleton) :
    ∃ N, ∀ n, N ≤ n → ∀ {r : Resolver}, r.Settles S base → RunsEnd S base r n l x := by
  induction l using Nat.strong_induction_on generalizing x with
  | _ l shorter =>
    induction x using wf.induction with
    | _ x ih =>
      cases x with
      | leaf => exact ⟨1, fun n hn _ _ => by
          obtain ⟨m, rfl⟩ : ∃ m, n = m + 1 := ⟨n - 1, by omega⟩
          exact .leaf⟩
      | nil => exact ⟨0, fun n _ _ _ => .nil⟩
      | optional x =>
        obtain ⟨N, hN⟩ := ih x .optional
        refine ⟨max N (l + 1) + 1, fun n hn r hr => ?_⟩
        obtain ⟨m, rfl⟩ : ∃ m, n = m + 1 := ⟨n - 1, by omega⟩
        exact .optional (by omega) (hN m (by omega) hr)
      | within x =>
        obtain ⟨N, hN⟩ := ih x .within
        refine ⟨max N (l + 1) + 1, fun n hn r hr => ?_⟩
        obtain ⟨m, rfl⟩ : ∃ m, n = m + 1 := ⟨n - 1, by omega⟩
        exact .within hr (by omega) (hN m (by omega) hr)
      | row x =>
        obtain ⟨N, hN⟩ := ih x .row
        refine ⟨N + 1, fun n hn r hr => ?_⟩
        obtain ⟨m, rfl⟩ : ∃ m, n = m + 1 := ⟨n - 1, by omega⟩
        exact .row (hN m (by omega) hr)
      | choice x y =>
        obtain ⟨N, hN⟩ := ih x .first
        obtain ⟨M, hM⟩ := ih y .second
        refine ⟨max N M + 1, fun n hn r hr => ?_⟩
        obtain ⟨m, rfl⟩ : ∃ m, n = m + 1 := ⟨n - 1, by omega⟩
        exact .choice (hN m (by omega) hr) (hM m (by omega) hr) (hN (m + 1) (by omega) hr).parts
          (hM (m + 1) (by omega) hr).attempts
      | cls c =>
        cases hc : S.ofClass c with
        | none =>
          refine ⟨2, fun n hn r hr => ?_⟩
          obtain ⟨m, rfl⟩ : ∃ m, n = m + 2 := ⟨n - 2, by omega⟩
          exact .cls hr fun ha => nomatch hc.symm.trans ha
        | some a =>
          obtain ⟨N, hN⟩ := ih a (.cls hc)
          refine ⟨N + 2, fun n hn r hr => ?_⟩
          obtain ⟨m, rfl⟩ : ∃ m, n = m + 2 := ⟨n - 2, by omega⟩
          refine .cls hr fun ha => ?_
          cases hc.symm.trans ha
          exact (hN m (by omega) hr).attempts
      | cons x y =>
        obtain ⟨N, hN⟩ := ih x .head
        -- after something was consumed, there is less input left
        obtain ⟨K, hK⟩ : ∃ K, ∀ n, K ≤ n → ∀ {r : Resolver}, r.Settles S base → ∀ k < l,
            PartsEnd S base (run r n) k y := by
          cases l with
          | zero => exact ⟨0, fun _ _ _ _ k hk => absurd hk (Nat.not_lt_zero k)⟩
          | succ l =>
            obtain ⟨K, hK⟩ := shorter l (Nat.lt_succ_self l) y
            exact ⟨K, fun n hn r hr k hk =>
              PartsEnd.of_le (hK n hn hr).parts (Nat.le_of_lt_succ hk)⟩
        by_cases hnull : S.Nullable x
        · obtain ⟨M, hM⟩ := ih y (.tail hnull)
          exact ⟨max N (max M K), fun n hn r hr =>
            .cons (hN n (by omega) hr) (fun _ => hM n (by omega) hr) (hK n (by omega) hr)⟩
        · exact ⟨max N K, fun n hn r hr =>
            .cons (hN n (by omega) hr) (fun h => absurd h hnull) (hK n (by omega) hr)⟩

end ShapeGrammar
