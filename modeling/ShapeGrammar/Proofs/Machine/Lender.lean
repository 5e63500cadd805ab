import ShapeGrammar.Proofs.Machine.Lending
import ShapeGrammar.Proofs.Machine.Unfolding

/-!
# Parsers keep to the cursor that they are handed

Every combinator, every plan and every factory keeps to the cursor that it is handed and to those
that come into being on the way, if the parsers it calls do; so whole runs do, whether they match,
miss, fail or stop.

Headlines: `Lender`, `lends_runAttempts`, `lends_invoke`, `run_lender`, `carryOut_lender`.
-/

namespace ShapeGrammar

open Machine

/-- The cursor that an outcome names stands for the one that was handed over. -/
def Outcome.HeldBy (c : CursorId) (m : Machine) (o : Outcome) (m' : Machine) : Prop :=
  ∀ d v, o = .matched d v → Held c m m' d

/-- The cursor behind the parts stands for the one that was handed over. -/
def Gathered.HeldBy (c : CursorId) (m : Machine) (r : Gathered) (m' : Machine) : Prop :=
  match r with
  | .all d _ => Held c m m' d
  | .stopped o => o.HeldBy c m m'

/-- Calls that keep to the cursor that they are handed. -/
def Lender (call : Entry → Parser → CursorId → Act Outcome) : Prop :=
  ∀ entry p {c m}, c < m.cursors.size → Lends c m (call entry p c) m fun o m' => o.HeldBy c m m'

section Parts

variable {call : Entry → Parser → CursorId → Act Outcome} {c d : CursorId} {m m1 : Machine}

theorem Outcome.heldBy_of_ne {o : Outcome} (h : ∀ d v, o ≠ .matched d v) (c : CursorId)
    (m m' : Machine) : o.HeldBy c m m' :=
  fun d v heq => absurd heq (h d v)

theorem Outcome.heldBy_missed (c : CursorId) (m m' : Machine) : Outcome.missed.HeldBy c m m' :=
  heldBy_of_ne (fun _ _ h => by cases h) c m m'

theorem Outcome.heldBy_failed (e : Failure) (c : CursorId) (m m' : Machine) :
    (Outcome.failed e).HeldBy c m m' :=
  heldBy_of_ne (fun _ _ h => by cases h) c m m'

theorem Outcome.heldBy_matched {v : Value} (h : Held c m m1 d) :
    (Outcome.matched d v).HeldBy c m m1 := by
  intro d' v' heq
  cases heq
  exact h

/-- A call on a held cursor. -/
theorem Lender.lends (hcall : Lender call) (h : Lent c m m1) (hd : Held c m m1 d) (entry : Entry)
    (p : Parser) : Lends c m (call entry p d) m1 fun o m2 => o.HeldBy c m m2 :=
  .of_held h hd ((hcall entry p hd.lt).mono fun _ _ ho d v heq => .trans h hd (ho d v heq))

theorem lends_snapshot_held (h : Lent c m m1) (hd : Held c m m1 d) :
    Lends c m (Act.snapshot d) m1 fun s m2 => Held c m m2 s :=
  .of_held h hd ((lends_snapshot hd.lt).mono fun _ _ hs => .trans h hd hs)

theorem lends_next_held (h : Lent c m m1) (hd : Held c m m1 d) :
    Lends c m (Act.next d) m1 fun _ _ => True :=
  .of_held h hd (lends_next hd.lt)

/-- A computation that touches no cursor keeps to any. -/
theorem Machine.Lent.still {α : Type} {x : Act α} (h : Lent c m m1) (hd : Held c m m1 d)
    (hx : x.Still) : Lends c m x m1 fun _ _ => True :=
  .of_held h hd (.still hd.lt (.refl hd.lt) hx fun _ => trivial)

theorem lends_gather (hcall : Lender call) (entry : Entry) :
    ∀ {ps : List Parser} {d : CursorId} {m1 : Machine}, Lent c m m1 → Held c m m1 d →
      Lends c m (gather call entry ps d) m1 fun r m2 => r.HeldBy c m m2
  | [], _, _, h, hd => .pure h hd
  | p :: ps, d, m1, h, hd => by
    unfold gather
    refine (hcall.lends h hd entry p).bind fun {o m2} h2 hsize ho => ?_
    have hstop : ∀ o : Outcome, (∀ d v, o ≠ .matched d v) →
        Lends c m (if o.endsAt entry then pure (Gathered.stopped o)
          else Act.fail (.type (.other "only a match is taken apart"))) m2
            fun r m3 => r.HeldBy c m m3 := by
      intro o hne
      split
      · exact .pure h2 (Outcome.heldBy_of_ne hne c m m2)
      · exact .stop h2 _
    cases o with
    | matched e v =>
      refine (lends_gather hcall entry h2 (ho _ _ rfl)).bind fun {r m3} h3 _ hr => ?_
      cases r with
      | all k vs => exact .pure h3 hr
      | stopped o => exact .pure h3 hr
    | missed => exact hstop .missed fun _ _ h => by cases h
    | failed e => exact hstop (.failed e) fun _ _ h => by cases h

theorem lends_collect (hcall : Lender call) (checked : Bool) (body : Parser) :
    ∀ {n : Nat} {d : CursorId} {m1 : Machine}, Lent c m m1 → Held c m m1 d →
      Lends c m (collect call checked body n d) m1 fun r m2 => Held c m m2 r.1
  | 0, _, _, h, _ => .stop h _
  | n + 1, d, m1, h, hd => by
    unfold collect
    refine (lends_snapshot_held h hd).bind fun {s m2} h2 hsize2 hs => ?_
    refine (hcall.lends h2 hs .fallible body).bind fun {o m3} h3 hsize3 ho => ?_
    have hd3 : Held c m m3 d := hd.mono (Nat.le_trans hsize2 hsize3)
    cases o with
    | matched e v =>
      refine (h3.still hd3 (still_mark checked d)).bind fun {start m4} h4 hsize4 _ => ?_
      refine (h4.still (hd3.mono hsize4) (still_checkMark body start e)).bind
        fun {_ m5} h5 hsize5 _ => ?_
      have he : Held c m m5 e := (ho _ _ rfl).mono (Nat.le_trans hsize4 hsize5)
      exact (lends_collect hcall checked body h5 he).bind fun h6 _ hr => .pure h6 hr
    | missed => exact .pure h3 hd3
    | failed e => exact .pure h3 hd3

theorem lends_collectFirst (hcall : Lender call) (checked : Bool) (body : Parser) (n : Nat)
    (entry : Entry) (h : Lent c m m1) (hd : Held c m m1 d) :
    Lends c m (collectFirst call checked body n entry d) m1 fun o m2 => o.HeldBy c m m2 := by
  unfold collectFirst
  refine (h.still hd (still_mark checked d)).bind fun {start m2} h2 hsize2 _ => ?_
  refine (hcall.lends h2 (hd.mono hsize2) entry body).bind fun {o m3} h3 hsize3 ho => ?_
  cases o with
  | matched e v =>
    refine (h3.still ((hd.mono hsize2).mono hsize3) (still_checkMark body start e)).bind
      fun {_ m4} h4 hsize4 _ => ?_
    exact (lends_collect hcall checked body h4 ((ho _ _ rfl).mono hsize4)).bind
      fun h5 _ hr => .pure h5 (Outcome.heldBy_matched hr)
  | missed => exact .pure h3 (Outcome.heldBy_missed c m m3)
  | failed e => exact .pure h3 (Outcome.heldBy_failed e c m m3)

/-- The right arm of a choice is called on the cursor itself. -/
theorem lends_rightArm {left right : Parser} (hcall : Lender call) (entry : Entry)
    (h : Lent c m m1) (hd : Held c m m1 d) :
    Lends c m (reportArm left right d >>= fun _ =>
      (·.mapValue .right) <$> call entry right d) m1 fun o m2 => o.HeldBy c m m2 := by
  refine (h.still hd (still_reportArm left right d)).bind fun {_ m2} h2 hsize2 _ => ?_
  refine (hcall.lends h2 (hd.mono hsize2) entry right).map fun {o m3} ho => ?_
  cases o with
  | matched e v => exact Outcome.heldBy_matched (ho _ _ rfl)
  | missed => exact Outcome.heldBy_missed c m m3
  | failed e => exact Outcome.heldBy_failed e c m m3

theorem lends_noMatch (p : Parser) (entry : Entry) (h : Lent c m m1) (hd : Held c m m1 d) :
    Lends c m (noMatch p entry) m1 fun o m2 => o.HeldBy c m m2 := by
  cases entry with
  | fallible => exact .pure h (Outcome.heldBy_missed c m m1)
  | total =>
    exact (h.still hd (Act.still_describe p)).bind fun {_ m2} h2 _ _ =>
      .pure h2 (Outcome.heldBy_failed _ c m m2)

theorem lends_readElement (accept : Value → Bool) (expected : Value) (h : Lent c m m1)
    (hd : Held c m m1 d) :
    Lends c m (readElement accept expected d) m1 fun o m2 => o.HeldBy c m m2 := by
  unfold readElement
  refine (lends_next_held h hd).bind fun {v m2} h2 hsize2 _ => ?_
  cases v with
  | none => exact .pure h2 (Outcome.heldBy_failed _ c m m2)
  | some v =>
    dsimp only
    split
    · exact .pure h2 (Outcome.heldBy_matched (hd.mono hsize2))
    · exact .pure h2 (Outcome.heldBy_failed _ c m m2)

theorem lends_runAttempt (hcall : Lender call) (entry : Entry) (a : Attempt Parser)
    (h : Lent c m m1) (hd : Held c m m1 d) :
    Lends c m (runAttempt call entry a d) m1 fun o m2 => o.HeldBy c m m2 := by
  unfold runAttempt
  refine (lends_gather hcall entry h hd).bind fun {r m2} h2 _ hr => ?_
  cases r with
  | all e vs =>
    refine (h2.still hr (Act.still_construct a.target vs)).bind fun {v m3} h3 hsize3 _ => ?_
    exact .pure h3 (Outcome.heldBy_matched (Held.mono hr hsize3))
  | stopped o => exact .pure h2 hr

theorem lends_runAttempts (hcall : Lender call) {report : String → CursorId → Act Unit}
    (hreport : ∀ name c, (report name c).Still) (entry : Entry) :
    ∀ {as : List (Attempt Parser)} {m1 : Machine}, Lent c m m1 → Held c m m1 d →
      Lends c m (runAttempts call report entry as d) m1 fun o m2 => o.HeldBy c m m2
  | [], _, h, _ => .stop h _
  | a :: rest, m1, h, hd => by
    unfold runAttempts
    split
    · refine (h.still hd (Act.still_construct a.target [])).bind fun {v m2} h2 hsize2 _ => ?_
      exact .pure h2 (Outcome.heldBy_matched (hd.mono hsize2))
    · split
      · exact lends_runAttempt hcall entry a h hd
      · refine (lends_snapshot_held h hd).bind fun {s m2} h2 hsize2 hs => ?_
        refine (lends_runAttempt hcall .fallible a h2 hs).bind fun {o m3} h3 hsize3 ho => ?_
        have hd3 : Held c m m3 d := hd.mono (Nat.le_trans hsize2 hsize3)
        cases o with
        | matched e v => exact .pure h3 ho
        | missed =>
          exact (h3.still hd3 (hreport a.name d)).bind fun h4 hsize4 _ =>
            lends_runAttempts hcall hreport entry h4 (hd3.mono hsize4)
        | failed e =>
          exact (h3.still hd3 (hreport a.name d)).bind fun h4 hsize4 _ =>
            lends_runAttempts hcall hreport entry h4 (hd3.mono hsize4)

/-! ## Factories -/

/-- A cursor in a variable stands for the one that was handed over. -/
def Slot.HeldBy (c : CursorId) (m : Machine) (slot : Slot) (m' : Machine) : Prop :=
  match slot with
  | .cursor d => Held c m m' d
  | .value _ => True
  | .outcome o => o.HeldBy c m m'

/-- Every cursor in a variable stands for the one that was handed over. -/
def SlotsHeld (c : CursorId) (m : Machine) (slots : Table Slot) (m' : Machine) : Prop :=
  ∀ name slot, slots.get? name = some slot → slot.HeldBy c m m'

/-- How far a procedure has come with what it was handed. -/
def Progress.HeldBy (c : CursorId) (m : Machine) (p : Progress) (m' : Machine) : Prop :=
  match p with
  | .running slots => SlotsHeld c m slots m'
  | .returned o => o.HeldBy c m m'

theorem SlotsHeld.mono {slots : Table Slot} {m2 : Machine} (h : SlotsHeld c m slots m1)
    (hsize : m1.cursors.size ≤ m2.cursors.size) : SlotsHeld c m slots m2 := by
  intro name slot hslot
  have hheld := h name slot hslot
  cases slot with
  | cursor d => exact Held.mono hheld hsize
  | value v => trivial
  | outcome o =>
    intro d v heq
    exact Held.mono (hheld d v heq) hsize

theorem SlotsHeld.put {slots : Table Slot} (h : SlotsHeld c m slots m1) (name : String)
    {slot : Slot} (hslot : slot.HeldBy c m m1) : SlotsHeld c m (slots.put name slot) m1 := by
  intro other slot' hslot'
  by_cases hname : name = other
  · rw [← hname, Table.get?_put_self] at hslot'
    cases hslot'
    exact hslot
  · rw [Table.get?_put_of_ne _ _ hname] at hslot'
    exact h other slot' hslot'

theorem held_of_cursorIn {slots : Table Slot} (h : SlotsHeld c m slots m1) {name : String}
    (hd : cursorIn slots name = .ok d) : Held c m m1 d := by
  unfold cursorIn at hd
  split at hd
  · rename_i k hslot
    cases hd
    exact h _ _ hslot
  · cases hd
  · cases hd

theorem heldBy_of_outcomeIn {slots : Table Slot} (h : SlotsHeld c m slots m1) {name : String}
    {o : Outcome} (ho : outcomeIn slots name = .ok o) : o.HeldBy c m m1 := by
  unfold outcomeIn at ho
  split at ho
  · rename_i k hslot
    cases ho
    exact h _ _ hslot
  · cases ho
  · cases ho

/-- Going on with an answer that is there, or stopping. -/
theorem lends_lift {α β : Type} {x : Except Fault α} {f : α → Act β}
    {post : β → Machine → Prop} (h : Lent c m m1)
    (hf : ∀ {a}, x = .ok a → Lends c m (f a) m1 post) : Lends c m (Act.lift x >>= f) m1 post := by
  cases x with
  | ok a => exact hf rfl
  | error e => exact .stop h _

variable {attempt : Procedure → CursorId → Act Outcome}

/-- Procedures that keep to the cursor that they are handed. -/
def AttemptLender (attempt : Procedure → CursorId → Act Outcome) : Prop :=
  ∀ p {c m}, c < m.cursors.size → Lends c m (attempt p c) m fun o m' => o.HeldBy c m m'

theorem AttemptLender.lends (hattempt : AttemptLender attempt) (h : Lent c m m1)
    (hd : Held c m m1 d) (p : Procedure) :
    Lends c m (attempt p d) m1 fun o m2 => o.HeldBy c m m2 :=
  .of_held h hd ((hattempt p hd.lt).mono fun _ _ ho d v heq => .trans h hd (ho d v heq))

theorem lends_step (hcall : Lender call) (hattempt : AttemptLender attempt) (items : Table Item)
    {slots : Table Slot} (s : Statement) (h : Lent c m m1) (hslots : SlotsHeld c m slots m1)
    (hc : Held c m m1 c) :
    Lends c m (s.step call attempt items slots) m1 fun p m2 => p.HeldBy c m m2 := by
  cases s with
  | call result parser entry cursor =>
    refine lends_lift h fun {p} _ => lends_lift h fun {d} hd => ?_
    refine (hcall.lends h (held_of_cursorIn hslots hd) entry p).bind fun {o m2} h2 hsize ho => ?_
    exact .pure h2 ((hslots.mono hsize).put result ho)
  | returnMiss result =>
    refine lends_lift h fun {o} _ => ?_
    cases o with
    | matched d v => exact .pure h hslots
    | missed => exact .pure h (Outcome.heldBy_missed c m m1)
    | failed e => exact .pure h hslots
  | returnError result =>
    refine lends_lift h fun {o} _ => ?_
    cases o with
    | matched d v => exact .pure h hslots
    | missed => exact .pure h hslots
    | failed e => exact .pure h (Outcome.heldBy_failed e c m m1)
  | unpack cursor value result =>
    refine lends_lift h fun {o} ho => ?_
    cases o with
    | matched d v =>
      have hd : (Slot.cursor d).HeldBy c m m1 := heldBy_of_outcomeIn hslots ho d v rfl
      have hv : (Slot.value v).HeldBy c m m1 := trivial
      exact .pure h ((hslots.put cursor hd).put value hv)
    | missed => exact .stop h _
    | failed e => exact .stop h _
  | tryAttempt found name cursor =>
    refine lends_lift h fun {p} _ => lends_lift h fun {d} hd => ?_
    refine (lends_snapshot_held h (held_of_cursorIn hslots hd)).bind fun {s m2} h2 hsize2 hs => ?_
    refine (hattempt.lends h2 hs p).bind fun {o m3} h3 hsize3 ho => ?_
    exact .pure h3 ((hslots.mono (Nat.le_trans hsize2 hsize3)).put found ho)
  | returnFound found =>
    refine lends_lift h fun {o} ho => ?_
    cases o with
    | matched d v => exact .pure h (heldBy_of_outcomeIn hslots ho)
    | missed => exact .pure h hslots
    | failed e => exact .pure h (Outcome.heldBy_failed e c m m1)
  | returnAttempt name cursor =>
    refine lends_lift h fun {p} _ => lends_lift h fun {d} hd => ?_
    exact (hattempt.lends h (held_of_cursorIn hslots hd) p).bind fun h2 _ ho => .pure h2 ho
  | returnBuilt cursor target arguments =>
    refine lends_lift h fun {d} hd => lends_lift h fun {t} _ => lends_lift h fun {vs} _ => ?_
    refine (h.still hc (Act.still_construct t vs)).bind fun {v m2} h2 hsize _ => ?_
    exact .pure h2 (Outcome.heldBy_matched ((held_of_cursorIn hslots hd).mono hsize))
  | returnNothing => exact .pure h (Outcome.heldBy_missed c m m1)

theorem lends_runStatements (hcall : Lender call) (hattempt : AttemptLender attempt)
    (items : Table Item) : ∀ {body : List Statement} {slots : Table Slot} {m1 : Machine},
      Lent c m m1 → SlotsHeld c m slots m1 → Held c m m1 c →
        Lends c m (runStatements call attempt items slots body) m1 fun o m2 => o.HeldBy c m m2
  | [], _, m1, h, _, _ => .pure h (Outcome.heldBy_missed c m m1)
  | s :: rest, slots, m1, h, hslots, hc => by
    unfold runStatements
    refine (lends_step hcall hattempt items s h hslots hc).bind fun {p m2} h2 hsize hp => ?_
    cases p with
    | running slots => exact lends_runStatements hcall hattempt items h2 hp (hc.mono hsize)
    | returned o => exact .pure h2 hp

theorem lends_procedure (hcall : Lender call) (items : Table Item) :
    ∀ depth, AttemptLender (Procedure.run call items depth)
  | 0 => fun _ _ _ hc => .stop (.refl hc) _
  | depth + 1 => fun p c m hc => by
    refine lends_runStatements hcall (lends_procedure hcall items depth) items (.refl hc) ?_
      (.refl hc)
    intro name slot hslot
    unfold Table.get? Table.get? at hslot
    split at hslot
    · cases hslot
      exact .refl hc
    · cases hslot

theorem lends_invoke (hcall : Lender call) (code : Code) (plan : Plan Parser) (entry : Entry)
    (h : Lent c m m1) (hd : Held c m m1 d) :
    Lends c m (code.invoke call plan entry d) m1 fun o m2 => o.HeldBy c m m2 := by
  unfold Code.invoke
  exact lends_lift h fun {bound} _ => (lends_procedure hcall bound.items 2).lends h hd _

end Parts

/-! ## Runs -/

theorem HeldBy.seenBy {o : Outcome} {c : CursorId} {m m' : Machine} (h : o.HeldBy c m m')
    (entry : Entry) : (o.seenBy entry).HeldBy c m m' := by
  cases entry with
  | total => exact h
  | fallible =>
    cases o with
    | matched d v => exact h
    | missed => exact h
    | failed e => exact Outcome.heldBy_missed c m m'

/-- **A call keeps to the cursor that it is handed** if the calls inside it do. -/
theorem lends_runWith {r : Resolver} (hr : r.Obeys Resolution.Grows) {n : Nat}
    {call : Entry → Parser → CursorId → Act Outcome} (ih : Lender call) :
    Lender (runWith r n call) := fun entry p c m hc => by
  have h : Lent c m m := .refl hc
  have hd : Held c m m c := .refl hc
  unfold runWith
  cases p with
  | element v => exact (lends_readElement _ _ h hd).map fun ho => HeldBy.seenBy ho entry
  | any => exact (lends_readElement _ _ h hd).map fun ho => HeldBy.seenBy ho entry
  | satisfy test description =>
    exact (lends_readElement _ _ h hd).map fun ho => HeldBy.seenBy ho entry
  | seq parts =>
    refine (lends_gather ih entry h hd).bind fun {r m2} h2 _ hr => ?_
    cases r with
    | all d vs => exact .pure h2 (Outcome.heldBy_matched hr)
    | stopped o => exact .pure h2 hr
  | opt body =>
    refine (lends_snapshot_held h hd).bind fun {s m2} h2 hsize2 hs => ?_
    refine (ih.lends h2 hs .fallible body).bind fun {o m3} h3 hsize3 ho => ?_
    have hd3 : Held c m m3 c := hd.mono (Nat.le_trans hsize2 hsize3)
    cases o with
    | matched d v => exact .pure h3 ho
    | missed => exact .pure h3 (Outcome.heldBy_matched hd3)
    | failed e => exact .pure h3 (Outcome.heldBy_matched hd3)
  | many checked body =>
    exact (lends_collect ih checked body h hd).bind fun h2 _ hr =>
      .pure h2 (Outcome.heldBy_matched hr)
  | many1 checked body => exact lends_collectFirst ih checked body n entry h hd
  | either left right =>
    refine (lends_snapshot_held h hd).bind fun {s m2} h2 hsize2 hs => ?_
    refine (ih.lends h2 hs .fallible left).bind fun {o m3} h3 hsize3 ho => ?_
    have hd3 : Held c m m3 c := hd.mono (Nat.le_trans hsize2 hsize3)
    cases o with
    | matched d v => exact .pure h3 (Outcome.heldBy_matched (ho _ _ rfl))
    | missed => exact lends_rightArm ih entry h3 hd3
    | failed e => exact lends_rightArm ih entry h3 hd3
  | not body =>
    refine (lends_snapshot_held h hd).bind fun {s m2} h2 hsize2 hs => ?_
    refine (ih.lends h2 hs .fallible body).bind fun {o m3} h3 hsize3 ho => ?_
    have hd3 : Held c m m3 c := hd.mono (Nat.le_trans hsize2 hsize3)
    cases o with
    | matched d v =>
      cases entry with
      | fallible => exact .pure h3 (Outcome.heldBy_missed c m m3)
      | total =>
        exact (h3.still hd3 (Act.still_describe body)).bind fun {_ m4} h4 _ _ =>
          .pure h4 (Outcome.heldBy_failed _ c m m4)
    | missed => exact .pure h3 (Outcome.heldBy_matched hd3)
    | failed e => exact .pure h3 (Outcome.heldBy_matched hd3)
  | box b =>
    refine (h.still hd (Act.still_resolve (hr.boxParser b))).bind fun {p m2} h2 hsize2 _ => ?_
    exact ih.lends h2 (hd.mono hsize2) entry p
  | map change body =>
    refine (ih.lends h hd entry body).bind fun {o m2} h2 _ ho => ?_
    cases o with
    | matched d v => exact lends_lift h2 fun _ => .pure h2 (Outcome.heldBy_matched (ho _ _ rfl))
    | missed => exact .pure h2 (Outcome.heldBy_missed c m m2)
    | failed e => exact .pure h2 (Outcome.heldBy_failed e c m m2)
  | derived target =>
    refine (h.still hd (Act.still_resolve (hr.planOf target))).bind
      fun {plan m2} h2 hsize2 _ => ?_
    exact ih.lends h2 (hd.mono hsize2) entry (.planned plan)
  | planned plan =>
    exact lends_runAttempts ih (still_reportAttempt plan.target) entry h hd
  | generated plan code => exact lends_invoke ih code plan entry h hd
  | recorded name body =>
    refine (h.still hd (Act.still_position c)).bind fun {k m2} h2 hsize2 _ => ?_
    refine (h2.still (hd.mono hsize2) (Act.still_note _)).bind fun {_ m3} h3 hsize3 _ => ?_
    exact ih.lends h3 ((hd.mono hsize2).mono hsize3) entry body
  | misser accepts =>
    refine (lends_next_held h hd).bind fun {v m2} h2 hsize2 _ => ?_
    cases v with
    | none => exact lends_noMatch _ entry h2 (hd.mono hsize2)
    | some v =>
      dsimp only
      split
      · exact .pure h2 (Outcome.heldBy_matched (hd.mono hsize2))
      · exact lends_noMatch _ entry h2 (hd.mono hsize2)
  | unimplemented => exact .stop h _
  | inert => exact .stop h _

/-- **Runs keep to the cursor that they are handed.** -/
theorem run_lender {r : Resolver} (hr : r.Obeys Resolution.Grows) : ∀ n, Lender (run r n)
  | 0 => fun _ _ _ _ hc => .stop (.refl hc) _
  | n + 1 => fun entry p c m hc => by
    rw [run_succ]
    exact lends_runWith hr (run_lender hr n) entry p hc

/-- So does carrying plans out. -/
theorem carryOut_lender {r : Resolver} (hr : r.Obeys Resolution.Grows) : ∀ n, Lender (carryOut r n)
  | 0 => fun _ _ _ _ hc => .stop (.refl hc) _
  | n + 1 => fun entry p c m hc => by
    have ih := carryOut_lender hr n
    rw [carryOut_succ]
    unfold carryWith
    split
    · exact lends_runAttempts ih (fun _ _ => Act.still_pure ()) entry (.refl hc) (.refl hc)
    · exact lends_runWith hr ih entry p hc

end ShapeGrammar
