import ShapeGrammar.Proofs.Grouping.Alternatives
import ShapeGrammar.Proofs.Grouping.Sequences
import ShapeGrammar.Proofs.Planning
import ShapeGrammar.Proofs.Reentry.Alerted

/-!
# The way down to what is called at the same place

From a parser the way of error kinds leads down to another one: to the first part of a sequence, or
past parts to a later one; to the right arm of a choice, past the left one; to the last attempt of a
plan, past those before it; to the body of a repetition that matches at least once, of a changed and
of a recorded parser; and through a class or a delayed parser to what it comes to.

A run goes the same way, as long as what the way leads past lets it through: a part has to match
without consuming anything, an arm or an attempt has to miss. Then the parser at the end of the way
is called at the place where the run began.

Headlines: `Descends`, `Scene.LetsThrough`, `Descends.calls`.
-/

namespace ShapeGrammar

open Machine

/-! ## The way -/

/-- A class or a delayed parser that the way leads through, and what it comes to. -/
inductive Station
  | cls (d : ClassId) (plan : Plan Parser)
  | box (b : BoxId) (p : Parser)

def Station.key : Station → Pending
  | .cls d _ => .cls d
  | .box b _ => .box b

/-- What the way leads past. -/
inductive Obstacle
  /-- A part of a sequence, with others after it. -/
  | part (p : Parser)
  /-- The left arm of a choice, with the right one. -/
  | arm (left right : Parser)
  /-- The fields of an attempt, with other attempts after it. -/
  | attempt (parsers : List Parser)

/-- From a parser a way leads down to a goal, through some stations and past some obstacles. -/
inductive Descends (goal : Parser) : List Station → List Obstacle → Parser → Prop
  | arrived : Descends goal [] [] goal
  | first {ss os p ps} (h : Descends goal ss os p) : Descends goal ss os (.seq (p :: ps))
  | later {ss os p ps} (h : Descends goal ss os (.seq ps)) :
    Descends goal ss (.part p :: os) (.seq (p :: ps))
  | many1 {ss os checked body} (h : Descends goal ss os body) :
    Descends goal ss os (.many1 checked body)
  | right {ss os left right} (h : Descends goal ss os right) :
    Descends goal ss (.arm left right :: os) (.either left right)
  | map {ss os change body} (h : Descends goal ss os body) : Descends goal ss os (.map change body)
  | recorded {ss os name body} (h : Descends goal ss os body) :
    Descends goal ss os (.recorded name body)
  | box {ss os b p} (h : Descends goal ss os p) : Descends goal (.box b p :: ss) os (.box b)
  | cls {ss os d plan} (h : Descends goal ss os (.planned plan)) :
    Descends goal (.cls d plan :: ss) os (.derived d)
  | last {ss os plan a} (ordered : plan.Ordered) (hlast : plan.attempts.getLast? = some a)
    (h : Descends goal ss os (.seq a.parsers)) :
    Descends goal ss (plan.attempts.dropLast.map (fun b => .attempt b.parsers) ++ os)
      (.planned plan)

/-! ## Runs that begin at a place -/

/-- A resolver answers what is known of some stations. -/
def Resolver.Knows (r : Resolver) (ss : List Station) : Prop :=
  (∀ {d plan}, .cls d plan ∈ ss → r.planOf d = pure plan) ∧
    ∀ {b p}, .box b p ∈ ss → r.boxParser b = pure p

theorem Resolver.Knows.tail {r : Resolver} {s : Station} {ss : List Station}
    (h : r.Knows (s :: ss)) : r.Knows ss :=
  ⟨fun hs => h.1 (List.mem_cons_of_mem s hs), fun hs => h.2 (List.mem_cons_of_mem s hs)⟩

/-- A place in an input, from which parsers are run in some state of a grammar, or in a later one.
-/
structure Scene where
  resolver : Resolver
  grows : resolver.Obeys Resolution.Grows
  grammar : Grammar
  place : Cursor
  positioned : place.positioned = true

namespace Scene

/-- A cursor stands at the place. -/
structure At (S : Scene) (m : Machine) (c : CursorId) : Prop where
  later : S.grammar.Precedes m.grammar
  lt : c < m.cursors.size
  place : m.cursor c = S.place

/-- With enough fuel, the fallible form of a parser comes to something else than a match. -/
def Misses (S : Scene) (p : Parser) : Prop :=
  ∃ enough, ∀ n, enough ≤ n → ∀ {m c}, S.At m c →
    ∃ o m', run S.resolver n .fallible p c m = .ok o m' ∧ ∀ d v, o ≠ .matched d v

/-- With enough fuel, a parser matches and consumes nothing. -/
def Passes (S : Scene) (p : Parser) : Prop :=
  ∃ enough, ∀ n, enough ≤ n → ∀ entry {m c}, S.At m c →
    ∃ d v m', run S.resolver n entry p c m = .ok (.matched d v) m' ∧ S.At m' d

/-- An obstacle does not keep a run from going on to what comes after it, at the same place. That an
arm has missed must be possible to report. -/
def LetsThrough (S : Scene) : Obstacle → Prop
  | .part p => S.Passes p
  | .arm left right => S.Misses left ∧
    ∀ {m c}, S.At m c → ∃ m', reportArm left right c m = .ok () m'
  | .attempt parsers => S.Misses (.seq parsers)

/-- With enough fuel, a run of a parser calls a class at the place before it has ended. -/
def Calls (S : Scene) (target : ClassId) (p : Parser) : Prop :=
  ∃ enough, ∀ n, enough ≤ n → ∀ alarm entry {m c}, S.At m c →
    Rings alarm (alertedRun S.resolver target S.place.position alarm n entry p c) m

namespace At

variable {S : Scene} {m m' : Machine} {c s : CursorId}

theorem duplicated (h : S.At m c) (s : CursorId) : S.At (m.duplicated s) c where
  later := h.later
  lt := by
    rw [size_duplicated]
    exact Nat.lt_succ_of_lt h.lt
  place := (m.cursor_duplicated_of_lt s h.lt).trans h.place

theorem snapshot (h : S.At m c) : S.At (m.duplicated c) m.cursors.size where
  later := h.later
  lt := by simp
  place := (m.cursor_duplicated_self c).trans h.place

theorem lent (h : S.At m c) (hs : Lent s m m') (hne : c ≠ s) : S.At m' c where
  later := h.later.trans hs.grammar
  lt := Nat.lt_of_lt_of_le h.lt hs.size
  place := (hs.others hne h.lt).trans h.place

theorem still {α : Type} {x : Act α} {a : α} (h : S.At m c) (hx : x.Still) (hok : x m = .ok a m') :
    S.At m' c where
  later := h.later.trans (hx.of_ok hok).1
  lt := by
    rw [(hx.of_ok hok).2]
    exact h.lt
  place := by
    unfold cursor
    rw [(hx.of_ok hok).2]
    exact h.place

theorem position (h : S.At m c) : Act.position c m = .ok S.place.position m := by
  rw [← h.place]
  exact position_of_positioned (by rw [h.place]; exact S.positioned)

/-- What is tried on a snapshot misses, or sets off the alarm. -/
theorem tried {p : Parser} {target : ClassId} {alarm : Stop} {n : Nat} (hat : S.At m c)
    (hmisses : ∀ {m c}, S.At m c →
      ∃ o m', run S.resolver n .fallible p c m = .ok o m' ∧ ∀ d v, o ≠ .matched d v) :
    let tries := alertedRun S.resolver target S.place.position alarm n .fallible p m.cursors.size
    Rings alarm tries (m.duplicated c) ∨ ∃ o m', tries (m.duplicated c) = .ok o m' ∧
      (∀ d v, o ≠ .matched d v) ∧ S.At m' c := by
  obtain ⟨o, m', hrun, hmiss⟩ := hmisses hat.snapshot
  refine (alertedRun_eq_or_rings n .fallible p _ (m.duplicated c)).imp id fun hsame => ?_
  have hlent := (run_lender S.grows n .fallible p hat.snapshot.lt).lent
  rw [stateAfter_of_ok hrun] at hlent
  exact ⟨o, m', hsame.trans hrun, hmiss, (hat.duplicated c).lent hlent (Nat.ne_of_lt hat.lt)⟩

end At

end Scene

/-! ## Going down -/

/-- A sequence is no call of a class, but gathers its parts. -/
theorem alertedRun_seq (r : Resolver) (target : ClassId) (place : Nat) (alarm : Stop) (n : Nat)
    (entry : Entry) (ps : List Parser) (c : CursorId) (m : Machine) :
    alertedRun r target place alarm (n + 1) entry (.seq ps) c m =
      (Gathered.outcome <$> gather (alertedRun r target place alarm n) entry ps c) m := by
  rw [alertedRun_of_not_call rfl, runWith_seq]

namespace Scene.Calls

variable {S : Scene} {target : ClassId} {p : Parser}

/-- A run of one call more. -/
theorem of_calls (enough : Nat)
    (h : ∀ n, enough ≤ n → ∀ alarm entry {m c}, S.At m c → Rings alarm
      (runWith S.resolver n (alertedRun S.resolver target S.place.position alarm n) entry p c) m) :
    S.Calls target p := by
  refine ⟨enough + 1, fun n hn alarm entry m c hat => ?_⟩
  obtain ⟨n, rfl⟩ := Nat.exists_eq_add_of_le' (Nat.le_trans (Nat.le_add_left 1 _) hn)
  exact rings_of_runWith (h n (Nat.le_of_succ_le_succ hn) alarm entry hat)

theorem arrived (S : Scene) (target : ClassId) : S.Calls target (.derived target) := by
  refine ⟨1, fun n hn alarm entry m c hat => ?_⟩
  obtain ⟨n, rfl⟩ := Nat.exists_eq_add_of_le' hn
  refine rings_of_call ?_
  show (target == target && (m.cursor c).position == S.place.position) = true
  rw [hat.place, beq_self_eq_true, beq_self_eq_true]
  rfl

/-- What the parts of a sequence call. -/
theorem gathers {ps : List Parser} (h : S.Calls target (.seq ps)) :
    ∃ enough, ∀ n, enough ≤ n → ∀ alarm entry {m c}, S.At m c → Rings alarm
      (gather (alertedRun S.resolver target S.place.position alarm n) entry ps c) m := by
  obtain ⟨enough, h⟩ := h
  refine ⟨enough, fun n hn alarm entry m c hat => ?_⟩
  have hrings := h (n + 1) (Nat.le_succ_of_le hn) alarm entry hat
  unfold Rings at hrings
  rw [alertedRun_seq] at hrings
  exact rings_map_iff.mp hrings

theorem first (h : S.Calls target p) (ps : List Parser) : S.Calls target (.seq (p :: ps)) := by
  obtain ⟨enough, h⟩ := h
  refine of_calls enough fun n hn alarm entry m c hat => ?_
  rw [runWith_seq, rings_map_iff, gather_cons]
  exact (h n hn alarm entry hat).bind

theorem later {ps : List Parser} (hp : S.LetsThrough (.part p)) (h : S.Calls target (.seq ps)) :
    S.Calls target (.seq (p :: ps)) := by
  obtain ⟨enough, hp⟩ := hp
  obtain ⟨enough', h⟩ := h.gathers
  refine of_calls (enough + enough') fun n hn alarm entry m c hat => ?_
  obtain ⟨d, v, m', hrun, hat'⟩ := hp n (by omega) entry hat
  rw [runWith_seq, rings_map_iff, gather_cons]
  rcases alertedRun_eq_or_rings n entry p c m with hrings | hsame
  · exact hrings.bind
  · exact .after (hsame.trans hrun) (rings_map_iff.mpr (h n (by omega) alarm entry hat'))

theorem many1 (h : S.Calls target p) (checked : Bool) : S.Calls target (.many1 checked p) := by
  obtain ⟨enough, h⟩ := h
  refine of_calls enough fun n hn alarm entry m c hat => ?_
  have hmark : ∃ start, mark checked c m = .ok start m := by
    cases checked with
    | false => exact ⟨none, rfl⟩
    | true => exact ⟨_, map_eq_ok_iff.mpr ⟨_, hat.position, rfl⟩⟩
  obtain ⟨start, hmark⟩ := hmark
  show Rings alarm (collectFirst _ checked p n entry c) m
  rw [collectFirst_eq]
  exact .after hmark (h n hn alarm entry hat).bind

theorem right {left : Parser} (hleft : S.LetsThrough (.arm left p)) (h : S.Calls target p) :
    S.Calls target (.either left p) := by
  obtain ⟨⟨enough, hmisses⟩, hreport⟩ := hleft
  obtain ⟨enough', h⟩ := h
  refine of_calls (enough + enough') fun n hn alarm entry m c hat => ?_
  show Rings alarm (Act.snapshot c >>= fun s =>
    alertedRun _ target _ alarm n .fallible left s >>= afterLeft _ entry left p c) m
  refine .after (snapshot_eq_duplicated m c) ?_
  rcases hat.tried (hmisses n (by omega)) with hrings | ⟨o, m', htried, hmiss, hat'⟩
  · exact hrings.bind
  · obtain ⟨m'', hreported⟩ := hreport hat'
    have hat'' := hat'.still (still_reportArm left p c) hreported
    have hright := rings_map_iff (g := (·.mapValue .right)).mpr (h n (by omega) alarm entry hat'')
    refine .after htried ?_
    cases o with
    | matched d v => exact absurd rfl (hmiss d v)
    | missed => exact .after hreported hright
    | failed e => exact .after hreported hright

theorem map (h : S.Calls target p) (change : Value → Except Fault Value) :
    S.Calls target (.map change p) := by
  obtain ⟨enough, h⟩ := h
  exact of_calls enough fun n hn alarm entry _ _ hat => (h n hn alarm entry hat).bind

theorem recorded (h : S.Calls target p) (name : String) : S.Calls target (.recorded name p) := by
  obtain ⟨enough, h⟩ := h
  refine of_calls enough fun n hn alarm entry m c hat => .after hat.position ?_
  exact .after rfl (h n hn alarm entry (hat.still (Act.still_note _) rfl))

theorem box {b : BoxId} (hb : S.resolver.boxParser b = pure p) (h : S.Calls target p) :
    S.Calls target (.box b) := by
  obtain ⟨enough, h⟩ := h
  refine of_calls enough fun n hn alarm entry m c hat => ?_
  show Rings alarm (Act.resolve (S.resolver.boxParser b) >>= _) m
  rw [hb]
  exact .after rfl (h n hn alarm entry hat)

theorem cls {d : ClassId} {plan : Plan Parser} (hd : S.resolver.planOf d = pure plan)
    (h : S.Calls target (.planned plan)) : S.Calls target (.derived d) := by
  obtain ⟨enough, h⟩ := h
  refine of_calls enough fun n hn alarm entry m c hat => ?_
  show Rings alarm (Act.resolve (S.resolver.planOf d) >>= _) m
  rw [hd]
  exact .after rfl (h n hn alarm entry hat)

/-- An attempt on a snapshot misses, or sets off the alarm. -/
theorem attempted {b : Attempt Parser} {n : Nat} {alarm : Stop} {m : Machine} {c : CursorId}
    (hat : S.At m c) (hmisses : ∀ {m c}, S.At m c →
      ∃ o m', run S.resolver (n + 1) .fallible (.seq b.parsers) c m = .ok o m' ∧
        ∀ d v, o ≠ .matched d v) :
    let attempt := runAttempt (alertedRun S.resolver target S.place.position alarm n) .fallible b
      m.cursors.size
    Rings alarm attempt (m.duplicated c) ∨ ∃ o m', attempt (m.duplicated c) = .ok o m' ∧
      (∀ d v, o ≠ .matched d v) ∧ S.At m' c := by
  rcases hat.tried hmisses with hrings | ⟨o, m', htried, hmiss, hat'⟩
  · unfold Rings at hrings
    rw [alertedRun_seq] at hrings
    exact .inl (rings_map_iff.mp hrings).bind
  · rw [alertedRun_seq] at htried
    obtain ⟨r, hr, rfl⟩ := map_eq_ok_iff.mp htried
    cases r with
    | all d vs => exact absurd rfl (hmiss d (.tuple vs))
    | stopped o => exact .inr ⟨o, m', bind_of_ok hr, hmiss, hat'⟩

/-- Attempts before the last one miss, and the last one calls the class. -/
theorem attempts (owner : ClassRef) {a : Attempt Parser} (h : S.Calls target (.seq a.parsers)) :
    ∀ {as : List (Attempt Parser)}, OrderedAttempts as → as.getLast? = some a →
      (∀ b ∈ as.dropLast, S.Misses (.seq b.parsers)) →
      ∃ enough, ∀ n, enough ≤ n → ∀ alarm entry {m c}, S.At m c → Rings alarm
        (runAttempts (alertedRun S.resolver target S.place.position alarm n)
          (reportAttempt owner) entry as c) m
  | [b], hordered, hlast, _ => by
    obtain rfl : b = a := by simpa using hlast
    obtain ⟨enough, h⟩ := h.gathers
    refine ⟨enough, fun n hn alarm entry m c hat => ?_⟩
    have hrings := h n hn alarm entry hat
    have hfields : b.isUnit = false := by
      unfold Attempt.isUnit
      cases hps : b.parsers with
      | nil =>
        rw [hps] at hrings
        obtain ⟨_, hstops⟩ := hrings
        cases hstops
      | cons p ps => rfl
    unfold runAttempts
    rw [hfields, hordered]
    exact hrings.bind
  | b :: b' :: rest, hordered, hlast, hmisses => by
    obtain ⟨hfields, hsnapshot, hrest⟩ := hordered
    obtain ⟨enough, hmiss⟩ := hmisses b List.mem_cons_self
    obtain ⟨enough', h⟩ := attempts owner h hrest hlast fun b hb =>
      hmisses b (List.mem_cons_of_mem _ hb)
    refine ⟨enough + enough', fun n hn alarm entry m c hat => ?_⟩
    unfold runAttempts
    rw [hfields, hsnapshot]
    refine .after (snapshot_eq_duplicated m c) ?_
    rcases attempted hat (hmiss (n + 1) (by omega)) with hrings | ⟨o, m', htried, hmiss, hat'⟩
    · exact hrings.bind
    · have hpositioned : (m'.cursor c).positioned = true := by rw [hat'.place, S.positioned]
      obtain ⟨m'', hreported⟩ := reportAttempt_of_positioned hpositioned owner b.name
      have hat'' := hat'.still (still_reportAttempt owner b.name c) hreported
      refine .after htried ?_
      cases o with
      | matched d v => exact absurd rfl (hmiss d v)
      | missed => exact .after hreported (h n (by omega) alarm entry hat'')
      | failed e => exact .after hreported (h n (by omega) alarm entry hat'')

theorem last {plan : Plan Parser} {a : Attempt Parser} (hordered : plan.Ordered)
    (hlast : plan.attempts.getLast? = some a)
    (hmisses : ∀ b ∈ plan.attempts.dropLast, S.LetsThrough (.attempt b.parsers))
    (h : S.Calls target (.seq a.parsers)) : S.Calls target (.planned plan) := by
  obtain ⟨enough, h⟩ := h.attempts plan.target hordered hlast hmisses
  exact of_calls enough h

end Scene.Calls

/-- **What is at the end of the way is called at the place**, if what the way leads past lets the
run through. -/
theorem Descends.calls {S : Scene} {target : ClassId} {ss : List Station} {os : List Obstacle}
    {p : Parser} (h : Descends (.derived target) ss os p) (hknows : S.resolver.Knows ss)
    (hfree : ∀ o ∈ os, S.LetsThrough o) : S.Calls target p := by
  induction h with
  | arrived => exact .arrived S target
  | first _ ih => exact (ih hknows hfree).first _
  | later _ ih =>
    have hfree := List.forall_mem_cons.mp hfree
    exact .later hfree.1 (ih hknows hfree.2)
  | many1 _ ih => exact (ih hknows hfree).many1 _
  | right _ ih =>
    have hfree := List.forall_mem_cons.mp hfree
    exact .right hfree.1 (ih hknows hfree.2)
  | map _ ih => exact (ih hknows hfree).map _
  | recorded _ ih => exact (ih hknows hfree).recorded _
  | box _ ih => exact .box (hknows.2 List.mem_cons_self) (ih hknows.tail hfree)
  | cls _ ih => exact .cls (hknows.1 List.mem_cons_self) (ih hknows.tail hfree)
  | last hordered hlast _ ih =>
    have hfree := List.forall_mem_append.mp hfree
    exact .last hordered hlast (fun b hb => hfree.1 _ (List.mem_map_of_mem hb))
      (ih hknows hfree.2)

end ShapeGrammar
