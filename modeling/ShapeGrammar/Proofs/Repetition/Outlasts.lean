import ShapeGrammar.Proofs.Machine.Lender
import ShapeGrammar.Proofs.Machine.Muted
import ShapeGrammar.Proofs.Resolution.Ordinary

/-!
# Computations that outlast others

A computation outlasts another one if it does the same for as long as that one goes on: where the
other answers, or stops for an ordinary reason, it comes to the same; where the other stops because
a match has consumed nothing, or because it was not given enough fuel, it goes on and on and uses up
its fuel. It may do so on a machine whose cursors do not tell where they stand, if nobody listens to
misses; then the first machine is left as the second one, but for what can be told.

What happens is known up to a last state of the grammar, as what a parser leads to is only known
when all is done.

Headlines: `Machine.dimmed`, `Outlived`, `Outlasts`, `Outlasts.bind`, `outlasts_runAttempts`.
-/

namespace ShapeGrammar

open Machine

/-! ## Positions that cannot be told -/

/-- The cursor at the same place, which tells its position only if that may be `seen`. -/
def Cursor.dimmed (seen : Bool) (k : Cursor) : Cursor :=
  { k with positioned := seen && k.positioned }

theorem Cursor.next?_dimmed (seen : Bool) (k : Cursor) :
    (k.dimmed seen).next? = k.next?.map fun r => (r.1, r.2.dimmed seen) := by
  have hpeek : (k.dimmed seen).peek? = k.peek? := rfl
  unfold next?
  rw [hpeek]
  cases k.peek? <;> rfl

namespace Machine

/-- The machine whose cursors tell their positions only if those may be `seen`. -/
def dimmed (seen : Bool) (m : Machine) : Machine :=
  { m with cursors := m.cursors.map (Cursor.dimmed seen) }

theorem dimmed_true (m : Machine) : m.dimmed true = m := by
  have hcursors : m.cursors.map (Cursor.dimmed true) = m.cursors := Array.map_id _
  unfold dimmed
  rw [hcursors]

theorem cursor_dimmed (seen : Bool) (m : Machine) (c : CursorId) :
    (m.dimmed seen).cursor c = (m.cursor c).dimmed seen := by
  unfold cursor dimmed
  simp only [Array.getD_eq_getD_getElem?, Array.getElem?_map]
  cases m.cursors[c]? with
  | some k => rfl
  | none => cases seen <;> rfl

/-- What may have become of a machine: more is known, and no position has become unreadable. -/
structure Onto (m m' : Machine) : Prop where
  grammar : m.grammar.Precedes m'.grammar
  positioned : ∀ {c}, (m.cursor c).positioned = true → (m'.cursor c).positioned = true

/-- A cursor tells its position, and if positions may not be `seen`, nobody listens to misses. -/
structure Serves (m : Machine) (seen : Bool) (c : CursorId) : Prop where
  positioned : (m.cursor c).positioned = true
  quiet : seen = false → m.Quiet

variable {m m1 m2 : Machine} {seen : Bool} {c d : CursorId}

theorem Onto.refl (m : Machine) : m.Onto m := ⟨.refl _, id⟩

theorem Onto.trans (h : m.Onto m1) (h' : m1.Onto m2) : m.Onto m2 :=
  ⟨h.grammar.trans h'.grammar, fun hc => h'.positioned (h.positioned hc)⟩

theorem Serves.lt (h : m.Serves seen c) : c < m.cursors.size := by
  by_contra hnot
  have hdefault := h.positioned
  rw [cursor_of_size_le (Nat.le_of_not_lt hnot)] at hdefault
  cases hdefault

theorem Onto.quiet (h : m.Onto m1) (hquiet : m.Quiet) : m1.Quiet := by
  unfold Quiet
  rw [h.grammar.threshold]
  exact hquiet

theorem Serves.onto (h : m.Serves seen c) (hm : m.Onto m1) : m1.Serves seen c :=
  ⟨hm.positioned h.positioned, fun hseen => hm.quiet (h.quiet hseen)⟩

/-- What is done with a cursor that tells its position makes no position unreadable. -/
theorem Lent.onto (h : Lent c m m1) (hc : (m.cursor c).positioned = true) : m.Onto m1 := by
  refine ⟨h.grammar, fun {d} hd => ?_⟩
  have hlt : d < m.cursors.size := (Serves.mk hd nofun : m.Serves true d).lt
  by_cases heq : d = c
  · obtain ⟨k, -, -, hk⟩ := h.own (.inl heq) (Nat.lt_of_lt_of_le hlt h.size)
    rw [hk]
    exact hc
  · rw [h.others heq hlt]
    exact hd

/-- A cursor that stands for one that serves serves as well. -/
theorem Serves.held (h : m.Serves seen c) (hm : Lent c m m1) (hd : Held c m m1 d) :
    m1.Serves seen d := by
  obtain ⟨k, -, -, hk⟩ := hm.own hd.own hd.lt
  refine ⟨?_, (h.onto (hm.onto h.positioned)).quiet⟩
  rw [hk]
  exact h.positioned

end Machine

/-- The cursor behind a match serves. -/
def Outcome.ServedBy (seen : Bool) (o : Outcome) (m : Machine) : Prop :=
  ∀ d v, o = .matched d v → m.Serves seen d

/-- The cursor behind parts that all matched serves. -/
def Gathered.ServedBy (seen : Bool) (r : Gathered) (m : Machine) : Prop :=
  match r with
  | .all d _ => m.Serves seen d
  | .stopped o => o.ServedBy seen m

theorem Outcome.servedBy_of_ne {seen : Bool} {o : Outcome} {m : Machine}
    (h : ∀ d v, o ≠ .matched d v) : o.ServedBy seen m :=
  fun d v heq => absurd heq (h d v)

theorem Outcome.servedBy_missed (seen : Bool) (m : Machine) : Outcome.missed.ServedBy seen m :=
  servedBy_of_ne fun _ _ h => by cases h

theorem Outcome.servedBy_failed (seen : Bool) (e : Failure) (m : Machine) :
    (Outcome.failed e).ServedBy seen m :=
  servedBy_of_ne fun _ _ h => by cases h

theorem Outcome.servedBy_matched {seen : Bool} {m : Machine} {d : CursorId} {v : Value}
    (h : m.Serves seen d) : (Outcome.matched d v).ServedBy seen m := by
  intro d' v' heq
  cases heq
  exact h

/-! ## To come to the same, or to go on and on -/

/-- A computation has come to the same as the first one, or it has used up its fuel where that one
has stopped without deciding anything. -/
inductive Outlived (seen : Bool) {α : Type} :
    EStateM.Result Stop Machine α → EStateM.Result Stop Machine α → Prop
  | ok (a : α) (m : Machine) : Outlived seen (.ok a m) (.ok a (m.dimmed seen))
  | stopped {e : Stop} (he : e.Ordinary) (m : Machine) :
    Outlived seen (.error e m) (.error e (m.dimmed seen))
  | endless {e : Stop} (he : e = .outOfFuel ∨ ¬ e.Ordinary) (m m' : Machine) :
    Outlived seen (.error e m) (.error .outOfFuel m')

/-- What a computation leaves behind, and what is known where it answers. -/
structure Yields (m : Machine) {α : Type} (x : Act α) (post : α → Machine → Prop) : Prop where
  after : m.Onto (stateAfter x m)
  answer : ∀ {a m1}, x m = .ok a m1 → post a m1

/-- The second computation outlasts the first one, from a machine and from what is the same machine
but for what can be told, unless the first one leads beyond a last state of the grammar. -/
structure Outlasts (last : Grammar) (seen : Bool) (m : Machine) {α : Type} (x y : Act α)
    (post : α → Machine → Prop) : Prop extends Yields m x post where
  ends : (stateAfter x m).grammar.Precedes last → Outlived seen (x m) (y (m.dimmed seen))

section Sequences

variable {last : Grammar} {seen : Bool} {m m1 : Machine} {c : CursorId} {α β : Type}
  {x y : Act α} {f g : α → Act β} {post : α → Machine → Prop} {post' : β → Machine → Prop}

theorem Yields.of_ok (h : Yields m x post) {a : α} (hx : x m = .ok a m1) :
    m.Onto m1 ∧ post a m1 := by
  have hafter := h.after
  rw [stateAfter_of_ok hx] at hafter
  exact ⟨hafter, h.answer hx⟩

theorem Yields.bind (hx : Yields m x post)
    (hf : ∀ {a m1}, x m = .ok a m1 → m.Onto m1 → post a m1 → Yields m1 (f a) post') :
    Yields m (x >>= f) post' := by
  cases h : x m with
  | ok a m1 =>
    obtain ⟨hm, ha⟩ := hx.of_ok h
    have hrest := hf h hm ha
    refine ⟨?_, fun hb => ?_⟩
    · rw [stateAfter_bind_of_ok h]
      exact hm.trans hrest.after
    · rw [bind_of_ok h] at hb
      exact hrest.answer hb
  | error e m1 =>
    have hafter := hx.after
    rw [stateAfter_of_error h] at hafter
    refine ⟨?_, fun hb => ?_⟩
    · rw [stateAfter_of_error (bind_of_error h)]
      exact hafter
    · rw [bind_of_error h] at hb
      cases hb

theorem Act.Still.yields (hx : x.Still) (m : Machine) : Yields m x fun _ _ => True := by
  obtain ⟨hgrammar, hcursors⟩ := hx m
  refine ⟨⟨hgrammar, fun {c} hc => ?_⟩, fun _ => trivial⟩
  unfold cursor at hc ⊢
  rwa [hcursors]

/-- What keeps to a cursor that serves. -/
theorem Lends.yields {post' : α → Machine → Prop} (hc : m.Serves seen c) (hx : Lends c m x m post)
    (hpost : ∀ {a m1}, Lent c m m1 → post a m1 → post' a m1) : Yields m x post' :=
  ⟨hx.lent.onto hc.positioned, fun h => hpost (hx.of_ok h).1 (hx.answer h)⟩

theorem Lender.yields {call : Entry → Parser → CursorId → Act Outcome} (hcall : Lender call)
    (entry : Entry) (p : Parser) (hc : m.Serves seen c) :
    Yields m (call entry p c) fun o m1 => o.ServedBy seen m1 :=
  (hcall entry p hc.lt).yields hc fun hm ho d v heq => hc.held hm (ho d v heq)

namespace Outlasts

theorem pure {a : α} (ha : post a m) : Outlasts last seen m (pure a) (Pure.pure a) post :=
  ⟨⟨.refl m, fun h => by cases h; exact ha⟩, fun _ => .ok a m⟩

theorem stop {e : Stop} (he : e.Ordinary) : Outlasts last seen m (throw e) (throw e) post :=
  ⟨⟨.refl m, fun h => by cases h⟩, fun _ => .stopped he m⟩

theorem mono {post' : α → Machine → Prop} (h : Outlasts last seen m x y post)
    (himp : ∀ {a m1}, post a m1 → post' a m1) : Outlasts last seen m x y post' :=
  ⟨⟨h.after, fun ha => himp (h.answer ha)⟩, h.ends⟩

/-- A computation that does the same from here. -/
theorem of_eq {z : Act α} (h : x m = z m) (hz : Outlasts last seen m z y post) :
    Outlasts last seen m x y post := by
  have hafter : stateAfter x m = stateAfter z m := by
    unfold stateAfter
    rw [h]
  refine ⟨⟨hafter ▸ hz.after, fun hok => hz.answer (h ▸ hok)⟩, fun hlast => ?_⟩
  rw [h]
  exact hz.ends (hafter ▸ hlast)

/-- What comes after a part. -/
theorem bind (hx : Outlasts last seen m x y post)
    (hf : ∀ {a m1}, x m = .ok a m1 → m.Onto m1 → post a m1 →
      Outlasts last seen m1 (f a) (g a) post') :
    Outlasts last seen m (x >>= f) (y >>= g) post' := by
  refine ⟨hx.toYields.bind fun h hm ha => (hf h hm ha).toYields, fun hlast => ?_⟩
  have hends := hx.ends
  cases h : x m with
  | ok a m1 =>
    obtain ⟨hm, ha⟩ := hx.of_ok h
    have hrest := hf h hm ha
    rw [stateAfter_bind_of_ok h] at hlast
    have hbegun := hends (by rw [stateAfter_of_ok h]; exact hrest.after.grammar.trans hlast)
    rw [h] at hbegun
    generalize hy : y (m.dimmed seen) = r at hbegun
    cases hbegun with
    | ok =>
      rw [bind_of_ok h, bind_of_ok hy]
      exact hrest.ends hlast
  | error e m1 =>
    rw [stateAfter_of_error (bind_of_error h)] at hlast
    have hbegun := hends (by rw [stateAfter_of_error h]; exact hlast)
    rw [h] at hbegun
    generalize hy : y (m.dimmed seen) = r at hbegun
    cases hbegun with
    | stopped he =>
      rw [bind_of_error h, bind_of_error hy]
      exact .stopped he m1
    | endless he _ m2 =>
      rw [bind_of_error h, bind_of_error hy]
      exact .endless he m1 m2

theorem map {h : α → β} (hx : Outlasts last seen m x y post)
    (hpost : ∀ {a m1}, post a m1 → post' (h a) m1) :
    Outlasts last seen m (h <$> x) (h <$> y) post' := by
  rw [← bind_pure_comp, ← bind_pure_comp]
  exact hx.bind fun _ _ ha => .pure (hpost ha)

/-- Where positions may be seen, a computation that stops for ordinary reasons outlasts itself. -/
theorem same (hx : Yields m x post) (hstops : ∀ {e m1}, x m = .error e m1 → e.Ordinary) :
    Outlasts last true m x x post := by
  refine ⟨hx, fun _ => ?_⟩
  cases h : x m with
  | ok a m1 =>
    have hok := @Outlived.ok true α a m1
    rw [dimmed_true] at hok ⊢
    rwa [h]
  | error e m1 =>
    have hstopped := @Outlived.stopped true α e (hstops h) m1
    rw [dimmed_true] at hstopped ⊢
    rwa [h]

end Outlasts

end Sequences

/-! ## The primitives -/

section Primitives

variable {last : Grammar} {seen : Bool} {m : Machine} {c : CursorId} {α β : Type}

theorem outlasts_next (hc : m.Serves seen c) :
    Outlasts last seen m (Act.next c) (Act.next c) fun _ _ => True := by
  refine ⟨(lends_next hc.lt).yields hc fun _ _ => trivial, fun _ => ?_⟩
  cases h : (m.cursor c).next? with
  | none =>
    have h' : ((m.dimmed seen).cursor c).next? = none := by
      rw [cursor_dimmed, Cursor.next?_dimmed, h]
      rfl
    rw [next_of_end h, next_of_end h']
    exact .ok none m
  | some r =>
    obtain ⟨v, moved⟩ := r
    have h' : ((m.dimmed seen).cursor c).next? = some (v, moved.dimmed seen) := by
      rw [cursor_dimmed, Cursor.next?_dimmed, h]
      rfl
    have hcursors : (m.dimmed seen).cursors.set! c (moved.dimmed seen) =
        (m.cursors.set! c moved).map (Cursor.dimmed seen) := by
      simp [dimmed]
    rw [next_of_some h, next_of_some h', hcursors, cursor_dimmed]
    exact .ok (some v) _

theorem outlasts_snapshot (hc : m.Serves seen c) :
    Outlasts last seen m (Act.snapshot c) (Act.snapshot c) fun s m1 => m1.Serves seen s := by
  refine ⟨(lends_snapshot hc.lt).yields hc fun hm hs => hc.held hm hs, fun _ => ?_⟩
  have hsize : (m.dimmed seen).cursors.size = m.cursors.size := Array.size_map
  have hcursors : (m.dimmed seen).cursors.push ((m.dimmed seen).cursor c) =
      (m.cursors.push (m.cursor c)).map (Cursor.dimmed seen) := by
    rw [cursor_dimmed, Array.map_push]
    rfl
  unfold Act.snapshot
  rw [hsize, hcursors]
  exact .ok _ _

theorem outlasts_describe (p : Parser) :
    Outlasts last seen m (Act.describe p) (Act.describe p) fun _ _ => True := by
  refine ⟨(Act.still_describe p).yields m, fun _ => ?_⟩
  cases h : m.grammar.describe p with
  | ok text =>
    rw [describe_of_ok h, describe_of_ok (m := m.dimmed seen) h]
    exact .ok text m
  | error e =>
    rw [describe_of_error h, describe_of_error (m := m.dimmed seen) h]
    exact .stopped (m.grammar.describe_plain p e h).ordinary m

theorem outlasts_lift {x : Except Fault α} (hx : StopsAt Fault.Ordinary x) :
    Outlasts last seen m (Act.lift x) (Act.lift x) fun _ _ => True := by
  cases x with
  | ok a => exact .pure trivial
  | error f => exact .stop (e := .fault f) (hx f rfl)

theorem outlasts_construct (target : ClassRef) (vs : List Value) :
    Outlasts last seen m (Act.construct target vs) (Act.construct target vs) fun _ _ => True :=
  have h : Outlasts last seen m (Act.lift (m.grammar.construct target vs))
      (Act.lift (m.grammar.construct target vs)) fun _ _ => True :=
    outlasts_lift ((m.grammar.construct_stopsAt target vs).mono Fault.Plain.ordinary)
  ⟨(Act.still_construct target vs).yields m, h.ends⟩

theorem outlasts_note (e : Event) :
    Outlasts last seen m (Act.note e) (Act.note e) fun _ _ => True :=
  ⟨(Act.still_note e).yields m, fun _ => .ok () _⟩

/-- A value changed. -/
theorem outlasts_mapValue {x y : Act Outcome} (change : Value → Value)
    (hx : Outlasts last seen m x y fun o m1 => o.ServedBy seen m1) :
    Outlasts last seen m ((·.mapValue change) <$> x) ((·.mapValue change) <$> y)
      fun o m1 => o.ServedBy seen m1 := by
  refine hx.map fun {o m1} ho => ?_
  cases o with
  | matched d v => exact Outcome.servedBy_matched (ho d v rfl)
  | missed => exact Outcome.servedBy_missed seen m1
  | failed e => exact Outcome.servedBy_failed seen e m1

/-- What is done next may depend on what is known by then. -/
theorem outlasts_foresee {x : Resolution α} {f g : α → Act β} {post : β → Machine → Prop}
    (hx : x.Grows) (hordinary : x.Ordinary)
    (hyields : ∀ {a m1}, m.Onto m1 → Yields m1 (f a) post)
    (hf : ∀ {a m1}, Act.resolve x m = .ok a m1 → m.Onto m1 → m1.grammar.Precedes last →
      Outlasts last seen m1 (f a) (g a) post) :
    Outlasts last seen m (Act.resolve x >>= f) (Act.resolve x >>= g) post := by
  have hbegun := (Act.still_resolve hx).yields m
  refine ⟨hbegun.bind fun _ hm _ => hyields hm, fun hlast => ?_⟩
  cases h : x m.grammar with
  | ok a g1 =>
    have hok : Act.resolve x m = .ok a { m with grammar := g1 } := by
      unfold Act.resolve
      rw [h]
    have hok' : Act.resolve x (m.dimmed seen) =
        .ok a (dimmed seen { m with grammar := g1 }) := by
      unfold Act.resolve
      rw [show (m.dimmed seen).grammar = m.grammar from rfl, h]
      rfl
    have hm := (hbegun.of_ok hok).1
    rw [stateAfter_bind_of_ok hok] at hlast
    rw [bind_of_ok hok, bind_of_ok hok']
    exact (hf hok hm ((hyields hm).after.grammar.trans hlast)).ends hlast
  | error e g1 =>
    have hstop : Act.resolve x m = .error e { m with grammar := g1 } := by
      unfold Act.resolve
      rw [h]
    have hstop' : Act.resolve x (m.dimmed seen) =
        .error e (dimmed seen { m with grammar := g1 }) := by
      unfold Act.resolve
      rw [show (m.dimmed seen).grammar = m.grammar from rfl, h]
      rfl
    rw [bind_of_error hstop, bind_of_error hstop']
    exact .stopped (hordinary h) _

/-! ## Reports -/

/-- What is reported to nobody is not even put together. -/
theorem outlasts_report {x : Act Unit} (hx : x.Still)
    (hquiet : ∀ {m : Machine}, m.Quiet → x m = .ok () m)
    (hstops : ∀ {e m1}, x m = .error e m1 → e.Ordinary) (hc : m.Serves seen c) :
    Outlasts last seen m x x fun _ _ => True := by
  cases seen with
  | true => exact .same (hx.yields m) hstops
  | false =>
    refine ⟨hx.yields m, fun _ => ?_⟩
    have hm := hc.quiet rfl
    rw [hquiet hm, hquiet (m := m.dimmed false) hm]
    exact .ok () m

theorem outlasts_reportAttempt (target : ClassRef) (name : String) (hc : m.Serves seen c) :
    Outlasts last seen m (reportAttempt target name c) (reportAttempt target name c)
      fun _ _ => True := by
  refine outlasts_report (still_reportAttempt target name c)
    (fun hquiet => reportAttempt_of_quiet hquiet target name c) (fun hstop => ?_) hc
  obtain ⟨m1, hok⟩ := reportAttempt_of_positioned hc.positioned target name
  cases hok.symm.trans hstop

/-- A report of an arm that missed stops only where an arm has no description. -/
theorem reportArm_ordinary (hc : (m.cursor c).positioned = true) {left right : Parser} {e : Stop}
    {m1 : Machine} (h : reportArm left right c m = .error e m1) : e.Ordinary := by
  by_cases hquiet : m.Quiet
  · rw [reportArm_of_quiet hquiet] at h
    cases h
  · unfold reportArm at h
    rw [bind_of_ok (listens_of_loud hquiet), if_pos rfl] at h
    cases hleft : m.grammar.describe left with
    | error e1 =>
      rw [bind_of_error (describe_of_error hleft)] at h
      cases h
      exact (m.grammar.describe_plain left e hleft).ordinary
    | ok l =>
      rw [bind_of_ok (describe_of_ok hleft), bind_of_ok (position_of_positioned hc)] at h
      cases hright : m.grammar.describe right with
      | error e1 =>
        rw [bind_of_error (describe_of_error hright)] at h
        cases h
        exact (m.grammar.describe_plain right e hright).ordinary
      | ok r =>
        rw [bind_of_ok (describe_of_ok hright)] at h
        cases h

theorem outlasts_reportArm (left right : Parser) (hc : m.Serves seen c) :
    Outlasts last seen m (reportArm left right c) (reportArm left right c) fun _ _ => True :=
  outlasts_report (still_reportArm left right c)
    (fun hquiet => reportArm_of_quiet hquiet left right c) (reportArm_ordinary hc.positioned) hc

end Primitives

/-! ## Parts and attempts -/

/-- Parsers that have to do with neither repetitions nor positions beyond those of the repetitions
among them: a function that changes values stops for ordinary reasons, and nobody records calls
unless positions may be `seen`. -/
def Parser.Fair (seen : Bool) : Parser → Prop
  | .map change _ => ∀ v, StopsAt Fault.Ordinary (change v)
  | .recorded _ _ => seen = true
  | .inert => False
  | p => p.Authentic

/-- All that a parser leads to is fair. -/
def Grammar.Fair (g : Grammar) (seen : Bool) (p : Parser) : Prop :=
  ∀ q, g.Leads p q → q.Fair seen

theorem Parser.Fair.authentic {seen : Bool} {p : Parser} (h : p.Fair seen) : p.Authentic := by
  cases p with
  | planned plan => exact h
  | generated plan code => exact h
  | _ => trivial

theorem Grammar.Fair.part {g : Grammar} {seen : Bool} {p q : Parser} (hp : g.Fair seen p)
    (hq : q ∈ p.parts g) : g.Fair seen q :=
  fun s hs => hp s (.step hq hs)

theorem Grammar.Fair.mono {g g' : Grammar} {seen : Bool} {p : Parser} (hp : g'.Fair seen p)
    (h : g.Precedes g') : g.Fair seen p :=
  fun q hq => hp q (hq.mono h)

/-- What is no parser is not fair. -/
theorem Grammar.Fair.not_inert {g : Grammar} {seen : Bool} {p : Parser} (hp : g.Fair seen p) :
    ¬ g.Leads p .inert :=
  fun h => hp .inert h

theorem Grammar.Fair.genuine {g : Grammar} {seen : Bool} {p : Parser} (hp : g.Fair seen p) :
    g.Genuine p :=
  fun q hq => (hp q hq).authentic

/-- Calls that keep to the cursor that they are handed, and calls that outlast them. -/
structure CallsOutlast (last : Grammar) (seen : Bool)
    (call call' : Entry → Parser → CursorId → Act Outcome) : Prop where
  lender : Lender call
  ends : ∀ entry {p c m}, last.Fair seen p → m.Serves seen c →
    (stateAfter (call entry p c) m).grammar.Precedes last →
      Outlived seen (call entry p c m) (call' entry p c (m.dimmed seen))

section Parts

variable {last : Grammar} {seen : Bool} {call call' : Entry → Parser → CursorId → Act Outcome}
  (hcall : CallsOutlast last seen call call') {m : Machine} {c : CursorId}
include hcall

theorem CallsOutlast.outlasts (entry : Entry) {p : Parser} (hp : last.Fair seen p)
    (hc : m.Serves seen c) :
    Outlasts last seen m (call entry p c) (call' entry p c) fun o m1 => o.ServedBy seen m1 :=
  ⟨hcall.lender.yields entry p hc, hcall.ends entry hp hc⟩

/-- What is tried on a snapshot. -/
theorem outlasts_tried {α : Type} {p : Parser} (hp : last.Fair seen p) (hc : m.Serves seen c)
    {f g : Outcome → Act α} {post : α → Machine → Prop}
    (hf : ∀ {o m1}, m1.Serves seen c → o.ServedBy seen m1 →
      Outlasts last seen m1 (f o) (g o) post) :
    Outlasts last seen m (Act.snapshot c >>= fun s => call .fallible p s >>= f)
      (Act.snapshot c >>= fun s => call' .fallible p s >>= g) post :=
  (outlasts_snapshot hc).bind fun _ hm1 hs =>
    (hcall.outlasts .fallible hp hs).bind fun _ hm2 ho => hf ((hc.onto hm1).onto hm2) ho

theorem outlasts_gather (entry : Entry) : ∀ {ps : List Parser} {c : CursorId} {m : Machine},
    (∀ p ∈ ps, last.Fair seen p) → m.Serves seen c →
      Outlasts last seen m (gather call entry ps c) (gather call' entry ps c)
        fun r m1 => r.ServedBy seen m1
  | [], _, _, _, hc => .pure hc
  | p :: ps, c, m, hps, hc => by
    unfold gather
    refine (hcall.outlasts entry (hps p List.mem_cons_self) hc).bind fun {o m1} _ _ ho => ?_
    have hstop : ∀ o : Outcome, (∀ d v, o ≠ .matched d v) → Outlasts last seen m1
        (if o.endsAt entry then pure (Gathered.stopped o)
          else Act.fail (.type (.other "only a match is taken apart")))
        (if o.endsAt entry then pure (Gathered.stopped o)
          else Act.fail (.type (.other "only a match is taken apart")))
        fun r m2 => r.ServedBy seen m2 := by
      intro o hne
      split
      · exact .pure (Outcome.servedBy_of_ne hne)
      · exact .stop trivial
    cases o with
    | matched d v =>
      refine (outlasts_gather entry (fun q hq => hps q (List.mem_cons_of_mem p hq))
        (ho d v rfl)).bind fun {r m2} _ _ hr => ?_
      cases r with
      | all e vs => exact .pure hr
      | stopped o => exact .pure hr
    | missed => exact hstop .missed fun _ _ h => by cases h
    | failed e => exact hstop (.failed e) fun _ _ h => by cases h

theorem outlasts_runAttempt (entry : Entry) {a : Attempt Parser}
    (ha : ∀ p ∈ a.parsers, last.Fair seen p) (hc : m.Serves seen c) :
    Outlasts last seen m (runAttempt call entry a c) (runAttempt call' entry a c)
      fun o m1 => o.ServedBy seen m1 := by
  unfold runAttempt
  refine (outlasts_gather hcall entry ha hc).bind fun {r m1} _ _ hr => ?_
  cases r with
  | all d vs =>
    exact (outlasts_construct a.target vs).bind fun _ hm2 _ =>
      .pure (Outcome.servedBy_matched (Serves.onto hr hm2))
  | stopped o => exact .pure hr

theorem outlasts_runAttempts {report : String → CursorId → Act Unit}
    (hreport : ∀ name {c m}, m.Serves seen c →
      Outlasts last seen m (report name c) (report name c) fun _ _ => True) (entry : Entry) :
    ∀ {as : List (Attempt Parser)} {m : Machine}, (∀ a ∈ as, ∀ p ∈ a.parsers, last.Fair seen p) →
      m.Serves seen c → Outlasts last seen m (runAttempts call report entry as c)
        (runAttempts call' report entry as c) fun o m1 => o.ServedBy seen m1
  | [], _, _, _ => .stop trivial
  | a :: rest, m, has, hc => by
    have ha := has a List.mem_cons_self
    unfold runAttempts
    split
    · exact (outlasts_construct a.target []).bind fun _ hm1 _ =>
        .pure (Outcome.servedBy_matched (hc.onto hm1))
    · split
      · exact outlasts_runAttempt hcall entry ha hc
      · refine (outlasts_snapshot hc).bind fun {s m1} _ hm1 hs => ?_
        refine (outlasts_runAttempt hcall .fallible ha hs).bind fun {o m2} _ hm2 ho => ?_
        have hc2 := (hc.onto hm1).onto hm2
        have hfell := (hreport a.name hc2).bind fun _ hm3 _ =>
          outlasts_runAttempts hreport entry (fun b hb => has b (List.mem_cons_of_mem a hb))
            (hc2.onto hm3)
        cases o with
        | matched d v => exact .pure ho
        | missed => exact hfell
        | failed e => exact hfell

omit hcall in
theorem outlasts_readElement (accept : Value → Bool) (expected : Value) (hc : m.Serves seen c) :
    Outlasts last seen m (readElement accept expected c) (readElement accept expected c)
      fun o m1 => o.ServedBy seen m1 := by
  unfold readElement
  refine (outlasts_next hc).bind fun {v m1} _ hm1 _ => ?_
  cases v with
  | none => exact .pure (Outcome.servedBy_failed seen _ m1)
  | some v =>
    dsimp only
    split
    · exact .pure (Outcome.servedBy_matched (hc.onto hm1))
    · exact .pure (Outcome.servedBy_failed seen _ m1)

omit hcall in
theorem outlasts_leaf (accept : Value → Bool) (expected : Value) (entry : Entry)
    (hc : m.Serves seen c) :
    Outlasts last seen m ((·.seenBy entry) <$> readElement accept expected c)
      ((·.seenBy entry) <$> readElement accept expected c) fun o m1 => o.ServedBy seen m1 := by
  refine (outlasts_readElement accept expected hc).map fun {o m1} ho => ?_
  cases entry with
  | total => exact ho
  | fallible =>
    cases o with
    | matched d v => exact ho
    | missed => exact ho
    | failed e => exact Outcome.servedBy_missed seen m1

omit hcall in
theorem outlasts_noMatch (p : Parser) (entry : Entry) :
    Outlasts last seen m (noMatch p entry) (noMatch p entry) fun o m1 => o.ServedBy seen m1 := by
  cases entry with
  | fallible => exact .pure (Outcome.servedBy_missed seen m)
  | total =>
    exact (outlasts_describe p).bind fun {_ m1} _ _ _ => .pure (Outcome.servedBy_failed seen _ m1)

end Parts

end ShapeGrammar
