import ShapeGrammar.Proofs.Machine.Muted
import ShapeGrammar.Proofs.Peg.Refinement

/-!
# What a run certainly comes to

To say that a parser matches, or fails, is to say more than what it means where it answers: its run
does answer. A setting fixes the source, how far questions are followed, and the stages that the
grammar may be in; whatever a run finds out leads from stage to stage. `Matches n` and `Fails n` say
what a parser comes to with `n` calls inside one another, in every stage and at both entry points.
There is one rule for every way in which a parser comes to something.

Headlines: `Setting.Matches`, `Setting.Fails`, `Row.matches_seq`, `Repeats.matches_many`,
`Succeeds.matches_planned`, `Exhausts.fails_planned`.
-/

namespace ShapeGrammar

open Machine

/-- A source, and the stages of a grammar in which it is parsed. Nobody listens to misses. -/
structure Setting where
  questions : Nat
  source : Source
  Stage : Grammar → Prop
  quiet : ∀ {g}, Stage g → LogLevel.debug.heardFrom g.threshold = false

namespace Setting

variable (S : Setting)

/-- A cursor stands at place `i` of the source. -/
structure At (i : Nat) (c : CursorId) (m : Machine) : Prop where
  lt : c < m.cursors.size
  place : m.cursor c = ⟨S.source, i, true⟩
  stage : S.Stage m.grammar

/-- From place `i`, the parser matches up to `j`, with value `v`. -/
structure Matches (n : Nat) (p : Parser) (i j : Nat) (v : Value) : Prop where
  run : ∀ (entry : Entry) {c m}, S.At i c m → ∃ d m',
    run (resolver S.questions) n entry p c m = .ok (.matched d v) m' ∧ S.At j d m'

/-- At place `i`, the parser fails because of `e`. -/
structure Fails (n : Nat) (p : Parser) (i : Nat) (e : Failure) : Prop where
  run : ∀ (entry : Entry) {c m}, S.At i c m → ∃ m',
    run (resolver S.questions) n entry p c m = .ok ((Outcome.failed e).seenBy entry) m' ∧
      S.Stage m'.grammar

/-- Parsers in a row match one after the other. -/
inductive Row (n : Nat) : List Parser → Nat → Nat → List Value → Prop
  | nil {i} : Row n [] i i []
  | cons {p ps i j k v vs} (first : S.Matches n p i j v) (rest : Row n ps j k vs) :
    Row n (p :: ps) i k (v :: vs)

/-- One of some parsers in a row fails, after those before it have matched. -/
inductive Breaks (n : Nat) : List Parser → Nat → Failure → Prop
  | here {p ps i e} (first : S.Fails n p i e) : Breaks n (p :: ps) i e
  | later {p ps i j v e} (first : S.Matches n p i j v) (rest : Breaks n ps j e) :
    Breaks n (p :: ps) i e

/-- A parser matches again and again, each time something, until it fails. -/
inductive Repeats (n : Nat) (body : Parser) : Nat → Nat → List Value → Prop
  | stop {i e} (once : S.Fails n body i e) : Repeats n body i i []
  | step {i j k v vs} (once : S.Matches n body i j v) (onward : i < j)
    (rest : Repeats n body j k vs) : Repeats n body i k (v :: vs)

/-- In every stage, a class is constructed from these values. -/
def Builds (target : ClassRef) (vs : List Value) (v : Value) : Prop :=
  ∀ {g}, S.Stage g → g.construct target vs = .ok v

/-- One of some attempts succeeds, after those before it have failed. -/
inductive Succeeds (n : Nat) : List (Attempt Parser) → Nat → Nat → Value → Prop
  | here {a rest i j vs v} (fields : a.isUnit = false) (row : S.Row n a.parsers i j vs)
    (built : S.Builds a.target vs v) : Succeeds n (a :: rest) i j v
  | later {a rest i j v e} (fields : a.isUnit = false) (snapshot : a.snapshot = true)
    (breaks : S.Breaks n a.parsers i e) (others : Succeeds n rest i j v) :
    Succeeds n (a :: rest) i j v

/-- All attempts fail, the last one because of `e`. -/
inductive Exhausts (n : Nat) : List (Attempt Parser) → Nat → Failure → Prop
  | last {a i e} (fields : a.isUnit = false) (snapshot : a.snapshot = false)
    (breaks : S.Breaks n a.parsers i e) : Exhausts n [a] i e
  | next {a rest i e e'} (fields : a.isUnit = false) (snapshot : a.snapshot = true)
    (breaks : S.Breaks n a.parsers i e') (others : Exhausts n rest i e) :
    Exhausts n (a :: rest) i e

/-- In every stage, the delayed parser is found to be `p`. -/
def Opens (b : BoxId) (p : Parser) : Prop :=
  ∀ {g}, S.Stage g → ∃ g', (resolver S.questions).boxParser b g = .ok p g' ∧ S.Stage g'

/-- In every stage, the class is found to have a plan with a property. -/
def Plans (c : ClassId) (P : Plan Parser → Prop) : Prop :=
  ∀ {g}, S.Stage g →
    ∃ plan g', (resolver S.questions).planOf c g = .ok plan g' ∧ P plan ∧ S.Stage g'

end Setting

open Setting

variable {S : Setting} {n i j : Nat} {p : Parser} {v : Value} {e : Failure}

/-! ## More fuel -/

/-- What a run comes to that stays in the setting, it comes to with more fuel. -/
theorem Setting.run_mono {n' : Nat} (hn : n ≤ n') {entry : Entry} {c : CursorId} {m m' : Machine}
    {o : Outcome} (hrun : run (resolver S.questions) n entry p c m = .ok o m')
    (hstage : S.Stage m'.grammar) : run (resolver S.questions) n' entry p c m = .ok o m' := by
  have hfollows := run_follows S.questions hn entry p c m m (.refl m)
  rw [hrun] at hfollows
  generalize run (resolver S.questions) n' entry p c m = r at hfollows
  cases hfollows with
  | ok _ hmuted => rw [hmuted.eq_of_quiet (S.quiet hstage)]

theorem Setting.Matches.mono {n' : Nat} (h : S.Matches n p i j v) (hn : n ≤ n') :
    S.Matches n' p i j v := by
  refine ⟨fun entry {c m} hat => ?_⟩
  obtain ⟨d, m', hrun, hat'⟩ := h.run entry hat
  exact ⟨d, m', run_mono hn hrun hat'.stage, hat'⟩

theorem Setting.Fails.mono {n' : Nat} (h : S.Fails n p i e) (hn : n ≤ n') : S.Fails n' p i e := by
  refine ⟨fun entry {c m} hat => ?_⟩
  obtain ⟨m', hrun, hstage⟩ := h.run entry hat
  exact ⟨m', run_mono hn hrun hstage, hstage⟩

/-! ## Elements -/

/-- Reading an element that is there moves the cursor behind it. -/
theorem Setting.At.next {c : CursorId} {m : Machine} (h : S.At i c m) {v : Value}
    (hv : S.source.get? i = some v) : ∃ m', Act.next c m = .ok (some v) m' ∧ S.At (i + 1) c m' := by
  have hnext : (m.cursor c).next? = some (v, ⟨S.source, i + 1, true⟩) := by
    rw [h.place]
    exact Option.map_eq_some_iff.mpr ⟨v, hv, rfl⟩
  refine ⟨_, next_of_some hnext, ?_, ?_, h.stage⟩
  · simpa using h.lt
  · exact cursor_of_set_self rfl h.lt

/-- At the end there is nothing to read. -/
theorem Setting.At.next_none {c : CursorId} {m : Machine} (h : S.At i c m)
    (hend : S.source.get? i = none) : Act.next c m = .ok none m := by
  refine next_of_end ?_
  rw [h.place]
  exact Option.map_eq_none_iff.mpr hend

theorem matches_element {expected : Value} (hv : S.source.get? i = some v)
    (hsame : expected.same v = true) : S.Matches (n + 1) (.element expected) i (i + 1) v := by
  refine ⟨fun entry {c m} h => ?_⟩
  obtain ⟨m', hnext, h'⟩ := h.next hv
  refine ⟨c, m', map_eq_ok_iff.mpr ⟨.matched c v, ?_, by cases entry <;> rfl⟩, h'⟩
  unfold readElement
  rw [bind_of_ok hnext]
  dsimp only
  rw [if_pos hsame]
  rfl

/-- What is wrong where another element, or none, is there. -/
theorem fails_element {expected : Value}
    (h : S.source.blame (expected.same ·) expected i = some e) :
    S.Fails (n + 1) (.element expected) i e := by
  refine ⟨fun entry {c m} hat => ?_⟩
  unfold Source.blame at h
  cases hv : S.source.get? i with
  | none =>
    rw [hv] at h
    cases h
    refine ⟨m, map_eq_ok_iff.mpr ⟨_, ?_, rfl⟩, hat.stage⟩
    unfold readElement
    rw [bind_of_ok (hat.next_none hv)]
    rfl
  | some w =>
    rw [hv] at h
    dsimp only at h
    split at h
    · cases h
    · rename_i hother
      cases h
      obtain ⟨m', hnext, h'⟩ := hat.next hv
      refine ⟨m', map_eq_ok_iff.mpr ⟨_, ?_, rfl⟩, h'.stage⟩
      unfold readElement
      rw [bind_of_ok hnext]
      dsimp only
      rw [if_neg hother]
      rfl

/-! ## Wrappers -/

theorem matches_map {change : Value → Except Fault Value} {w : Value} (h : S.Matches n p i j v)
    (hchange : change v = .ok w) : S.Matches (n + 1) (.map change p) i j w := by
  refine ⟨fun entry {c m} hat => ?_⟩
  obtain ⟨d, m', hrun, hat'⟩ := h.run entry hat
  refine ⟨d, m', ?_, hat'⟩
  refine (bind_of_ok hrun).trans ?_
  show (Act.lift (change v) >>= fun w => pure (Outcome.matched d w)) m' = _
  rw [hchange]
  rfl

theorem fails_map {change : Value → Except Fault Value} (h : S.Fails n p i e) :
    S.Fails (n + 1) (.map change p) i e := by
  refine ⟨fun entry {c m} hat => ?_⟩
  obtain ⟨m', hrun, hstage⟩ := h.run entry hat
  exact ⟨m', (bind_of_ok hrun).trans (by cases entry <;> rfl), hstage⟩

theorem resolve_of_ok {α : Type} {x : Resolution α} {a : α} {m : Machine} {g : Grammar}
    (hx : x m.grammar = .ok a g) : Act.resolve x m = .ok a { m with grammar := g } := by
  unfold Act.resolve
  rw [hx]

/-- To find something out moves no cursor. -/
theorem Setting.At.resolve {α : Type} {c : CursorId} {m : Machine} (h : S.At i c m)
    {x : Resolution α} {a : α} {g : Grammar} (hx : x m.grammar = .ok a g) (hg : S.Stage g) :
    ∃ m', Act.resolve x m = .ok a m' ∧ S.At i c m' :=
  ⟨{ m with grammar := g }, resolve_of_ok hx, h.lt, h.place, hg⟩

/-- A delayed parser that is found out is called in its own place. -/
theorem run_box {r : Resolver} {n : Nat} {entry : Entry} {b : BoxId} {p : Parser} {c : CursorId}
    {m m' : Machine} (h : Act.resolve (r.boxParser b) m = .ok p m') :
    run r (n + 1) entry (.box b) c m = run r n entry p c m' :=
  bind_of_ok h

/-- The plan of a class is called in the place of the parser derived from it. -/
theorem run_derived {r : Resolver} {n : Nat} {entry : Entry} {target : ClassId}
    {plan : Plan Parser} {c : CursorId} {m m' : Machine}
    (h : Act.resolve (r.planOf target) m = .ok plan m') :
    run r (n + 1) entry (.derived target) c m = run r n entry (.planned plan) c m' :=
  bind_of_ok h

theorem matches_box {b : BoxId} (hopens : S.Opens b p) (h : S.Matches n p i j v) :
    S.Matches (n + 1) (.box b) i j v := by
  refine ⟨fun entry {c m} hat => ?_⟩
  obtain ⟨g, hg, hstage⟩ := hopens hat.stage
  obtain ⟨m1, hm1, hat1⟩ := hat.resolve hg hstage
  obtain ⟨d, m', hrun, hat'⟩ := h.run entry hat1
  exact ⟨d, m', (run_box hm1).trans hrun, hat'⟩

theorem fails_box {b : BoxId} (hopens : S.Opens b p) (h : S.Fails n p i e) :
    S.Fails (n + 1) (.box b) i e := by
  refine ⟨fun entry {c m} hat => ?_⟩
  obtain ⟨g, hg, hstage⟩ := hopens hat.stage
  obtain ⟨m1, hm1, hat1⟩ := hat.resolve hg hstage
  obtain ⟨m', hrun, hstage'⟩ := h.run entry hat1
  exact ⟨m', (run_box hm1).trans hrun, hstage'⟩

theorem matches_derived {c : ClassId} {P : Plan Parser → Prop} (hplans : S.Plans c P)
    (h : ∀ plan, P plan → S.Matches n (.planned plan) i j v) :
    S.Matches (n + 1) (.derived c) i j v := by
  refine ⟨fun entry {d m} hat => ?_⟩
  obtain ⟨plan, g, hg, hplan, hstage⟩ := hplans hat.stage
  obtain ⟨m1, hm1, hat1⟩ := hat.resolve hg hstage
  obtain ⟨d', m', hrun, hat'⟩ := (h plan hplan).run entry hat1
  exact ⟨d', m', (run_derived hm1).trans hrun, hat'⟩

theorem fails_derived {c : ClassId} {P : Plan Parser → Prop} (hplans : S.Plans c P)
    (h : ∀ plan, P plan → S.Fails n (.planned plan) i e) : S.Fails (n + 1) (.derived c) i e := by
  refine ⟨fun entry {d m} hat => ?_⟩
  obtain ⟨plan, g, hg, hplan, hstage⟩ := hplans hat.stage
  obtain ⟨m1, hm1, hat1⟩ := hat.resolve hg hstage
  obtain ⟨m', hrun, hstage'⟩ := (h plan hplan).run entry hat1
  exact ⟨m', (run_derived hm1).trans hrun, hstage'⟩

/-! ## Sequences -/

theorem Setting.Row.gather {ps : List Parser} {vs : List Value} (h : S.Row n ps i j vs)
    (entry : Entry) {c : CursorId} {m : Machine} (hat : S.At i c m) :
    ∃ d m', ShapeGrammar.gather (run (resolver S.questions) n) entry ps c m = .ok (.all d vs) m' ∧
      S.At j d m' := by
  induction h generalizing c m with
  | nil => exact ⟨c, m, rfl, hat⟩
  | cons first rest ih =>
    obtain ⟨d, m1, hrun, hat1⟩ := first.run entry hat
    obtain ⟨d', m', hgather, hat'⟩ := ih hat1
    refine ⟨d', m', ?_, hat'⟩
    rw [ShapeGrammar.gather, bind_of_ok hrun]
    dsimp only
    rw [bind_of_ok hgather]
    rfl

theorem Setting.Breaks.gather {ps : List Parser} (h : S.Breaks n ps i e) (entry : Entry)
    {c : CursorId} {m : Machine} (hat : S.At i c m) :
    ∃ m', ShapeGrammar.gather (run (resolver S.questions) n) entry ps c m =
      .ok (.stopped ((Outcome.failed e).seenBy entry)) m' ∧ S.Stage m'.grammar := by
  induction h generalizing c m with
  | here first =>
    obtain ⟨m', hrun, hstage⟩ := first.run entry hat
    refine ⟨m', ?_, hstage⟩
    rw [ShapeGrammar.gather, bind_of_ok hrun]
    cases entry <;> rfl
  | later first rest ih =>
    obtain ⟨d, m1, hrun, hat1⟩ := first.run entry hat
    obtain ⟨m', hgather, hstage⟩ := ih hat1
    refine ⟨m', ?_, hstage⟩
    rw [ShapeGrammar.gather, bind_of_ok hrun]
    dsimp only
    rw [bind_of_ok hgather]
    rfl

theorem Setting.Row.matches_seq {ps : List Parser} {vs : List Value} (h : S.Row n ps i j vs) :
    S.Matches (n + 1) (.seq ps) i j (.tuple vs) := by
  refine ⟨fun entry {c m} hat => ?_⟩
  obtain ⟨d, m', hgather, hat'⟩ := h.gather entry hat
  exact ⟨d, m', (bind_of_ok hgather).trans rfl, hat'⟩

theorem Setting.Breaks.fails_seq {ps : List Parser} (h : S.Breaks n ps i e) :
    S.Fails (n + 1) (.seq ps) i e := by
  refine ⟨fun entry {c m} hat => ?_⟩
  obtain ⟨m', hgather, hstage⟩ := h.gather entry hat
  exact ⟨m', (bind_of_ok hgather).trans rfl, hstage⟩

/-! ## Repetition -/

/-- A snapshot stands where its cursor stands, and both stay in the setting. -/
theorem Setting.At.snapshot {c : CursorId} {m : Machine} (h : S.At i c m) :
    ∃ s m', Act.snapshot c m = .ok s m' ∧ S.At i s m' := by
  have hs : Act.snapshot c m = .ok m.cursors.size _ := rfl
  obtain ⟨hcursor, hlt, -, hg, -⟩ := snapshot_eq hs
  exact ⟨_, _, hs, hlt, hcursor.trans h.place, hg ▸ h.stage⟩

/-- The cursor that a snapshot was taken of stays where it was. -/
theorem Setting.At.kept {c s : CursorId} {m m1 m2 : Machine} {o : Outcome}
    {x : CursorId → Act Outcome} (h : S.At i c m)
    (hx : ∀ {d m}, d < m.cursors.size → Lends d m (x d) m fun o m' => o.HeldBy d m m')
    (hs : Act.snapshot c m = .ok s m1) (ho : x s m1 = .ok o m2) (hstage : S.Stage m2.grammar) :
    S.At i c m2 := by
  obtain ⟨hcursor, hlt⟩ := snapshot_call hx h.lt hs ho
  exact ⟨hlt, hcursor.trans h.place, hstage⟩

theorem Setting.At.position {c : CursorId} {m : Machine} (h : S.At i c m) :
    Act.position c m = .ok i m := by
  show (if (m.cursor c).positioned then pure (m.cursor c).position
    else Act.fail (.attribute .position) : Act Nat) m = _
  rw [h.place]
  rfl

theorem Setting.At.mark {c : CursorId} {m : Machine} (h : S.At i c m) :
    ShapeGrammar.mark true c m = .ok (some i) m :=
  map_eq_ok_iff.mpr ⟨i, h.position, rfl⟩

/-- A match that gets on is accepted. -/
theorem Setting.At.checkMark {body : Parser} {d : CursorId} {m : Machine} (h : S.At j d m)
    (honward : i < j) : ShapeGrammar.checkMark body (some i) d m = .ok () m := by
  show checkProgress body i d m = _
  unfold checkProgress
  rw [bind_of_ok h.position, if_neg (Nat.not_le.mpr honward)]
  rfl

theorem Setting.Repeats.collect {body : Parser} {vs : List Value} (h : S.Repeats n body i j vs)
    {f : Nat} (hf : vs.length < f) {c : CursorId} {m : Machine} (hat : S.At i c m) :
    ∃ d m', ShapeGrammar.collect (run (resolver S.questions) n) true body f c m = .ok (d, vs) m' ∧
      S.At j d m' := by
  have hlend := run_lender (resolver_grows S.questions) n
  induction h generalizing c m f with
  | stop once =>
    obtain ⟨f, rfl⟩ := Nat.exists_eq_succ_of_ne_zero (Nat.ne_of_gt hf)
    obtain ⟨s, m1, hs, hat1⟩ := hat.snapshot
    obtain ⟨m2, hrun, hstage⟩ := once.run .fallible hat1
    refine ⟨c, m2, ?_, hat.kept (fun {_ _} => hlend .fallible body) hs hrun hstage⟩
    rw [ShapeGrammar.collect, bind_of_ok hs, bind_of_ok hrun]
    rfl
  | step once onward rest ih =>
    obtain ⟨f, rfl⟩ := Nat.exists_eq_succ_of_ne_zero (Nat.ne_of_gt (Nat.zero_lt_of_lt hf))
    obtain ⟨s, m1, hs, hat1⟩ := hat.snapshot
    obtain ⟨d, m2, hrun, hat2⟩ := once.run .fallible hat1
    have hkept := hat.kept (fun {_ _} => hlend .fallible body) hs hrun hat2.stage
    obtain ⟨d', m', hcollect, hat'⟩ := ih (Nat.lt_of_succ_lt_succ hf) hat2
    refine ⟨d', m', ?_, hat'⟩
    have hprogress : ShapeGrammar.checkMark body (some _) d m2 = .ok () m2 := hat2.checkMark onward
    rw [ShapeGrammar.collect, bind_of_ok hs, bind_of_ok hrun]
    dsimp only
    rw [bind_of_ok hkept.mark, bind_of_ok hprogress, bind_of_ok hcollect]
    rfl

theorem Setting.Repeats.matches_many {body : Parser} {vs : List Value}
    (h : S.Repeats n body i j vs) (hn : vs.length < n) :
    S.Matches (n + 1) (.many true body) i j (.list vs) := by
  refine ⟨fun entry {c m} hat => ?_⟩
  obtain ⟨d, m', hcollect, hat'⟩ := h.collect hn hat
  exact ⟨d, m', (bind_of_ok hcollect).trans rfl, hat'⟩

theorem Setting.Repeats.matches_many1 {body : Parser} {k : Nat} {vs : List Value}
    (h : S.Repeats n body j k vs) (hn : vs.length < n) (first : S.Matches n body i j v)
    (honward : i < j) : S.Matches (n + 1) (.many1 true body) i k (.nonempty v vs) := by
  refine ⟨fun entry {c m} hat => ?_⟩
  obtain ⟨d, m1, hrun, hat1⟩ := first.run entry hat
  obtain ⟨d', m', hcollect, hat'⟩ := h.collect hn hat1
  refine ⟨d', m', ?_, hat'⟩
  show collectFirst (run (resolver S.questions) n) true body n entry c m = _
  have hprogress : checkMark body (some i) d m1 = .ok () m1 := hat1.checkMark honward
  unfold collectFirst
  rw [bind_of_ok hat.mark, bind_of_ok hrun]
  dsimp only
  rw [bind_of_ok hprogress, bind_of_ok hcollect]
  rfl

theorem fails_many1 {body : Parser} (h : S.Fails n body i e) :
    S.Fails (n + 1) (.many1 true body) i e := by
  refine ⟨fun entry {c m} hat => ?_⟩
  obtain ⟨m', hrun, hstage⟩ := h.run entry hat
  refine ⟨m', ?_, hstage⟩
  show collectFirst (run (resolver S.questions) n) true body n entry c m = _
  unfold collectFirst
  rw [bind_of_ok hat.mark, bind_of_ok hrun]
  cases entry <;> rfl

/-! ## Plans -/

/-- An attempt whose fields match constructs its class. -/
theorem Setting.Row.runAttempt {a : Attempt Parser} {vs : List Value}
    (row : S.Row n a.parsers i j vs) (built : S.Builds a.target vs v) (entry : Entry)
    {c : CursorId} {m : Machine} (hat : S.At i c m) :
    ∃ d m', ShapeGrammar.runAttempt (run (resolver S.questions) n) entry a c m =
      .ok (.matched d v) m' ∧ S.At j d m' := by
  obtain ⟨d, m', hgather, hat'⟩ := row.gather entry hat
  refine ⟨d, m', ?_, hat'⟩
  unfold ShapeGrammar.runAttempt
  rw [bind_of_ok hgather]
  dsimp only
  have hbuilt : Act.construct a.target vs m' = .ok v m' := by
    unfold Act.construct
    show Act.lift (m'.grammar.construct a.target vs) m' = _
    rw [built hat'.stage]
    rfl
  rw [bind_of_ok hbuilt]
  rfl

/-- An attempt one of whose fields fails, fails. -/
theorem Setting.Breaks.runAttempt {a : Attempt Parser} (breaks : S.Breaks n a.parsers i e)
    (entry : Entry) {c : CursorId} {m : Machine} (hat : S.At i c m) :
    ∃ m', ShapeGrammar.runAttempt (run (resolver S.questions) n) entry a c m =
      .ok ((Outcome.failed e).seenBy entry) m' ∧ S.Stage m'.grammar := by
  obtain ⟨m', hgather, hstage⟩ := breaks.gather entry hat
  refine ⟨m', ?_, hstage⟩
  unfold ShapeGrammar.runAttempt
  rw [bind_of_ok hgather]
  rfl

/-- Behind an attempt that has failed on a snapshot, the others are made where it began. -/
theorem Setting.Breaks.fallBack {a : Attempt Parser} {rest : List (Attempt Parser)}
    (fields : a.isUnit = false) (snapshot : a.snapshot = true) (breaks : S.Breaks n a.parsers i e)
    (target : ClassRef) (entry : Entry) {c : CursorId} {m : Machine} (hat : S.At i c m) :
    ∃ m1, S.At i c m1 ∧
      runAttempts (run (resolver S.questions) n) (reportAttempt target) entry (a :: rest) c m =
        runAttempts (run (resolver S.questions) n) (reportAttempt target) entry rest c m1 := by
  have hlend := run_lender (resolver_grows S.questions) n
  obtain ⟨s, m1, hs, hat1⟩ := hat.snapshot
  obtain ⟨m2, hrun, hstage⟩ := breaks.runAttempt .fallible hat1
  have hkept : S.At i c m2 :=
    hat.kept (fun hd => lends_runAttempt hlend .fallible a (.refl hd) (.refl hd)) hs hrun hstage
  refine ⟨m2, hkept, ?_⟩
  have hreport : reportAttempt target a.name c m2 = .ok () m2 :=
    reportAttempt_of_quiet (S.quiet hstage) target a.name c
  rw [runAttempts, if_neg (by simp [fields]), if_neg (by simp [snapshot]), bind_of_ok hs,
    bind_of_ok hrun]
  show (reportAttempt target a.name c >>= fun _ => _) m2 = _
  rw [bind_of_ok hreport]

theorem Setting.Succeeds.runAttempts {attempts : List (Attempt Parser)}
    (h : S.Succeeds n attempts i j v) (target : ClassRef) (entry : Entry) {c : CursorId}
    {m : Machine} (hat : S.At i c m) :
    ∃ d m', ShapeGrammar.runAttempts (run (resolver S.questions) n) (reportAttempt target) entry
      attempts c m = .ok (.matched d v) m' ∧ S.At j d m' := by
  induction h generalizing c m with
  | @here a rest i j vs v fields row built =>
    cases hsnapshot : a.snapshot with
    | false =>
      rw [ShapeGrammar.runAttempts, if_neg (by simp [fields]), if_pos (by simp [hsnapshot])]
      exact row.runAttempt built entry hat
    | true =>
      rw [ShapeGrammar.runAttempts, if_neg (by simp [fields]), if_neg (by simp [hsnapshot])]
      obtain ⟨s, m1, hs, hat1⟩ := hat.snapshot
      obtain ⟨d, m', hrun, hat'⟩ := row.runAttempt built .fallible hat1
      exact ⟨d, m', by rw [bind_of_ok hs, bind_of_ok hrun]; rfl, hat'⟩
  | later fields snapshot breaks others ih =>
    obtain ⟨m1, hat1, heq⟩ := breaks.fallBack fields snapshot target entry hat
    rw [heq]
    exact ih hat1

theorem Setting.Exhausts.runAttempts {attempts : List (Attempt Parser)}
    (h : S.Exhausts n attempts i e) (target : ClassRef) (entry : Entry) {c : CursorId}
    {m : Machine} (hat : S.At i c m) :
    ∃ m', ShapeGrammar.runAttempts (run (resolver S.questions) n) (reportAttempt target) entry
      attempts c m = .ok ((Outcome.failed e).seenBy entry) m' ∧ S.Stage m'.grammar := by
  induction h generalizing c m with
  | last fields snapshot breaks =>
    rw [ShapeGrammar.runAttempts, if_neg (by simp [fields]), if_pos (by simp [snapshot])]
    exact breaks.runAttempt entry hat
  | next fields snapshot breaks others ih =>
    obtain ⟨m1, hat1, heq⟩ := breaks.fallBack fields snapshot target entry hat
    rw [heq]
    exact ih hat1

theorem Setting.Succeeds.matches_planned {plan : Plan Parser}
    (h : S.Succeeds n plan.attempts i j v) : S.Matches (n + 1) (.planned plan) i j v :=
  ⟨fun entry {_ _} hat => h.runAttempts plan.target entry hat⟩

theorem Setting.Exhausts.fails_planned {plan : Plan Parser} (h : S.Exhausts n plan.attempts i e) :
    S.Fails (n + 1) (.planned plan) i e :=
  ⟨fun entry {_ _} hat => h.runAttempts plan.target entry hat⟩

end ShapeGrammar
