import ShapeGrammar.Proofs.Machine.Ahead
import ShapeGrammar.Proofs.Machine.Resting
import ShapeGrammar.Proofs.Session.Keeps

/-!
# The cursors of a session

A session keeps a store of cursors and hands them to parsers by name. Several names may stand for
one cursor, and cursors share their inputs; still, a cursor is moved only by a step that is handed
that cursor, only forward, and never beyond the end of its input.

Cursors whose position may not be asked for may stand anywhere to begin with; the bound is about the
others.

Headlines: `Machine.Drives`, `Session.Step.handed?`, `drives_perform`, `cursors_disciplined`.
-/

namespace ShapeGrammar

open Machine

/-- The cursor does not stand beyond the end of its input, if it may be asked for its position. -/
def Cursor.Placed (k : Cursor) : Prop :=
  k.positioned = true → k.position ≤ k.source.size

theorem Cursor.Onward.placed {a b : Cursor} (h : a.Onward b) (ha : a.Placed) : b.Placed := by
  obtain ⟨k, -, hk, rfl⟩ := h
  intro hpositioned
  rcases hk with hk | rfl
  · exact hk
  · exact ha hpositioned

/-- Every cursor is placed. -/
def Machine.Placed (m : Machine) : Prop :=
  ∀ {d}, d < m.cursors.size → (m.cursor d).Placed

/-- What may become of the cursors of a machine: those of a collection are moved forward, the others
stay where they are, and what is placed stays so. -/
structure Machine.Drives (moved : CursorId → Prop) (m m' : Machine) : Prop where
  size : m.cursors.size ≤ m'.cursors.size
  onward : ∀ {d}, d < m.cursors.size → (m.cursor d).Onward (m'.cursor d)
  kept : ∀ {d}, d < m.cursors.size → ¬ moved d → m'.cursor d = m.cursor d
  placed : m.Placed → m'.Placed

namespace Machine.Drives

variable {moved moved' : CursorId → Prop} {c : CursorId} {m m1 m2 : Machine}

theorem mono (h : m.Drives moved m1) (hmoved : ∀ {d}, moved d → moved' d) : m.Drives moved' m1 :=
  ⟨h.size, h.onward, fun hd hnot => h.kept hd fun hd' => hnot (hmoved hd'), h.placed⟩

theorem of_cursors_eq (h : m1.cursors = m.cursors) : m.Drives moved m1 := by
  have hsame : ∀ d, m1.cursor d = m.cursor d := cursor_congr h
  refine ⟨Nat.le_of_eq (congrArg Array.size h.symm), fun _ => hsame _ ▸ .refl _,
    fun _ _ => hsame _, fun hm {d} hd => ?_⟩
  rw [hsame]
  exact hm (h ▸ hd)

theorem refl (m : Machine) : m.Drives moved m := of_cursors_eq rfl

/-- Cursors that are new at first may be moved later. -/
theorem trans (h : m.Drives moved m1) (h' : m1.Drives moved' m2)
    (hmoved : ∀ {d}, d < m.cursors.size → moved' d → moved d) : m.Drives moved m2 where
  size := Nat.le_trans h.size h'.size
  onward hd := (h.onward hd).trans (h'.onward (Nat.lt_of_lt_of_le hd h.size))
  kept hd hnot :=
    (h'.kept (Nat.lt_of_lt_of_le hd h.size) fun hd' => hnot (hmoved hd hd')).trans (h.kept hd hnot)
  placed hm := h'.placed (h.placed hm)

/-- What is done with a cursor moves that cursor, and those that are new. -/
theorem of_lent (hc : c < m.cursors.size) (h : Lent c m m1) : m.Drives (· = c) m1 where
  size := h.size
  onward {d} hd := by
    by_cases hdc : d = c
    · subst hdc
      exact h.own (.inl rfl) (Nat.lt_of_lt_of_le hd h.size)
    · rw [h.others hdc hd]
      exact .refl _
  kept hd hdc := h.others hdc hd
  placed hm {d} hd := by
    by_cases hown : d = c ∨ m.cursors.size ≤ d
    · exact (h.own hown hd).placed (hm hc)
    · have hdc : d ≠ c := fun heq => hown (.inl heq)
      have hold : d < m.cursors.size := Nat.lt_of_not_le fun hle => hown (.inr hle)
      rw [h.others hdc hold]
      exact hm hold

/-- A further cursor moves none. -/
theorem of_push {k : Cursor} (h : m1.cursors = m.cursors.push k) (hk : m.Placed → k.Placed) :
    m.Drives moved m1 where
  size := by simp [h]
  onward hd := by
    rw [cursor_of_push_of_lt h hd]
    exact .refl _
  kept hd _ := cursor_of_push_of_lt h hd
  placed hm {d} hd := by
    by_cases hold : d < m.cursors.size
    · rw [cursor_of_push_of_lt h hold]
      exact hm hold
    · have hlast : d = m.cursors.size := by
        simp only [h, Array.size_push] at hd
        exact Nat.le_antisymm (Nat.lt_succ_iff.mp hd) (Nat.not_lt.mp hold)
      rw [hlast, cursor_of_push_self h]
      exact hk hm

end Machine.Drives

/-! ## Computations that move no cursor -/

/-- A computation that moves none of the cursors that were there. -/
def Act.Parks {α : Type} (x : Act α) : Prop :=
  ∀ m : Machine, m.Drives (fun _ => False) (stateAfter x m)

section Parks

variable {α β : Type}

theorem Act.Parks.bind_of_ok {x : Act α} {f : α → Act β} (hx : x.Parks)
    (hf : ∀ {a m m1}, x m = .ok a m1 → (f a).Parks) : Act.Parks (x >>= f) := fun m =>
  stateAfter_bind_rel (fun h h' => h.trans h' fun _ => id) (hx m) fun _ m1 ha => hf ha m1

theorem Act.Parks.bind {x : Act α} {f : α → Act β} (hx : x.Parks) (hf : ∀ a, (f a).Parks) :
    Act.Parks (x >>= f) :=
  hx.bind_of_ok fun {a _ _} _ => hf a

theorem Act.Still.parks {x : Act α} (hx : x.Still) : x.Parks := fun m => .of_cursors_eq (hx m).2

theorem Act.parks_pure (a : α) : Act.Parks (pure a : Act α) := (still_pure a).parks

theorem Act.parks_fail (f : Fault) : Act.Parks (fail f : Act α) := (still_fail f).parks

theorem Act.parks_lift (x : Except Fault α) : (lift x).Parks := (still_lift x).parks

theorem Act.parks_get {k : Machine → Act α} (hk : ∀ m, (k m).Parks) : Act.Parks (get >>= k) :=
  fun m => hk m m

theorem Act.parks_map {x : Act α} (hx : x.Parks) (f : α → β) : (f <$> x).Parks := fun m => by
  rw [stateAfter_map]
  exact hx m

/-- Questions about the grammar, and changes of it, touch no cursor. -/
theorem Act.parks_resolve (x : Resolution α) : (resolve x).Parks := fun m => by
  refine .of_cursors_eq ?_
  unfold stateAfter resolve
  cases x m.grammar <;> rfl

theorem Act.parks_mapM {f : α → Act β} (hf : ∀ a, (f a).Parks) (as : List α) :
    (as.mapM f).Parks := by
  induction as with
  | nil => exact parks_pure _
  | cons a as ih =>
    rw [List.mapM_cons]
    exact (hf a).bind fun _ => ih.bind fun _ => parks_pure _

/-- A cursor that is not in the store has no position to ask for. -/
theorem Machine.Placed.cursor {m : Machine} (hm : m.Placed) (c : CursorId) :
    (m.cursor c).Placed := by
  by_cases hc : c < m.cursors.size
  · exact hm hc
  · intro hpositioned
    simp only [Machine.cursor, Array.getD_eq_getD_getElem?,
      Array.getElem?_eq_none (Nat.not_lt.mp hc),
      Option.getD_none] at hpositioned
    cases hpositioned

theorem Act.parks_snapshot (c : CursorId) : (snapshot c).Parks :=
  fun _ => .of_push rfl fun hm => hm.cursor c

end Parks

namespace Session

theorem parks_shapeParser (k : Limits) (shape : ShapeExpr) : (shapeParser k shape).Parks :=
  Act.parks_resolve _

theorem parks_treeOf (p : Parser) : (treeOf p).Parks :=
  Act.parks_get fun _ => (Act.still_liftStop _).parks

theorem parks_viewAttempt (k : Limits) (a : Attempt Parser) : (viewAttempt k a).Parks :=
  (Act.parks_mapM (fun p => (Act.still_describe p).parks) _).bind fun _ =>
    (Act.parks_mapM parks_treeOf _).bind fun _ => (Act.parks_resolve _).bind fun _ =>
      Act.parks_get fun _ => Act.parks_pure _

theorem parks_viewPlan (k : Limits) (plan : Plan Parser) : (viewPlan k plan).Parks :=
  Act.parks_get fun _ => (Act.parks_mapM (parks_viewAttempt k) _).bind fun _ =>
    Act.parks_get fun _ => Act.parks_pure _

theorem parks_viewAspect (k : Limits) (p : Parser) (aspect : Aspect) :
    (viewAspect k p aspect).Parks := by
  cases aspect with
  | description => exact Act.parks_map (Act.still_describe p).parks _
  | literal => exact (Act.still_describe p).parks.bind fun _ => Act.parks_pure _
  | errorKind => exact Act.parks_map (Act.parks_resolve _) _
  | infallible => exact (Act.parks_resolve _).bind fun _ => Act.parks_pure _
  | plan => exact (Act.parks_resolve _).bind fun plan => Act.parks_map (parks_viewPlan k plan) _
  | tree => exact Act.parks_map (parks_treeOf p) _

theorem parks_classAt (path : Path) : (classAt path).Parks := by
  refine Act.parks_get fun m => (Act.parks_lift _).bind fun b => ?_
  split
  · exact Act.parks_pure _
  · exact Act.parks_fail _

theorem parks_classesAt (path : Path) : (classesAt path).Parks := by
  refine Act.parks_get fun m => (Act.parks_lift _).bind fun b => ?_
  split
  · exact Act.parks_pure _
  · exact Act.parks_pure _
  · exact Act.parks_fail _

theorem parks_subclassesAt (path : Path) (others : List Path) :
    (subclassesAt path others).Parks := by
  refine Act.parks_get fun m => (Act.parks_lift _).bind fun b =>
    Act.parks_mapM (fun other => (parks_classesAt other).bind fun ds => ?_) others
  split
  · exact Act.parks_get fun _ => Act.parks_pure _
  · exact Act.parks_fail _

theorem parks_viewLoaded (loaded : List (Plan Parser × Parser)) : (viewLoaded loaded).Parks :=
  Act.parks_mapM (fun _ => (Act.still_describe _).parks.bind fun _ =>
    Act.parks_get fun _ => Act.parks_pure _) _

theorem parks_namedCursor (cursors : Table CursorId) (name : String) :
    (namedCursor cursors name).Parks := by
  unfold namedCursor
  split
  · exact Act.parks_pure _
  · exact Act.parks_fail _

theorem parks_addCursor {c : Cursor} (hc : c.Placed) : (addCursor c).Parks :=
  fun _ => .of_push rfl fun _ => hc

/-- A cursor is made within the bounds of its input. -/
theorem placed_at {source : Source} {position : Int} {cursor : Cursor}
    (h : Cursor.at? source position = .ok cursor) : cursor.Placed := by
  unfold Cursor.at? at h
  split at h
  · cases h
  · rename_i hin
    cases h
    intro _
    simp only [Bool.or_eq_true, decide_eq_true_eq, not_or, Int.not_lt] at hin
    exact Int.toNat_le.mpr hin.2

theorem parks_freshCursor (offer : Offer) (position : Int) : (freshCursor offer position).Parks :=
  (Act.parks_lift _).bind fun _ => (Act.parks_lift _).bind_of_ok fun hcursor =>
    parks_addCursor (placed_at (lift_eq_ok hcursor).1)

end Session

/-! ## Calls -/

section Calls

variable (k : Limits) (entry : Entry) (p : Parser)

theorem call_lent {c : CursorId} {m : Machine} (hc : c < m.cursors.size) :
    Lent c m (stateAfter (k.call entry p c) m) :=
  ((run_lender (resolver_grows k.questions) _) entry p hc).lent

/-- A fresh cursor is the next one. -/
theorem freshCursor_next {offer : Offer} {position : Int} {c : CursorId} {m m1 : Machine}
    (h : Session.freshCursor offer position m = .ok c m1) :
    m.cursors.size ≤ c ∧ c < m1.cursors.size := by
  obtain ⟨source, m2, hsource, hmade⟩ := bind_eq_ok_iff.mp h
  obtain ⟨cursor, m3, hcursor, hadded⟩ := bind_eq_ok_iff.mp hmade
  obtain ⟨-, rfl⟩ := lift_eq_ok hsource
  obtain ⟨-, rfl⟩ := lift_eq_ok hcursor
  cases hadded
  exact ⟨Nat.le_refl _, by simp [addCursor]⟩

/-- What is done before a call on a cursor that is there. -/
theorem Machine.Drives.bind {α β : Type} {moved : CursorId → Prop} {x : Act α} {f : α → Act β}
    {m : Machine} (hx : m.Drives moved (stateAfter x m)) (hf : ∀ a, (f a).Parks) :
    m.Drives moved (stateAfter (x >>= f) m) := by
  cases h : x m with
  | error e m1 =>
    rw [stateAfter_of_error h] at hx
    rw [stateAfter_of_error (bind_of_error h)]
    exact hx
  | ok a m1 =>
    rw [stateAfter_of_ok h] at hx
    rw [stateAfter_bind_of_ok h]
    exact hx.trans (hf a m1) fun _ => False.elim

theorem Act.Parks.drives {α β : Type} {moved : CursorId → Prop} {x : Act α} {f : α → Act β}
    {m : Machine} (hx : x.Parks)
    (hf : ∀ {a m1}, x m = .ok a m1 → m1.Drives moved (stateAfter (f a) m1)) :
    m.Drives moved (stateAfter (x >>= f) m) := by
  have hfirst := hx m
  cases h : x m with
  | error e m1 =>
    rw [stateAfter_of_error h] at hfirst
    rw [stateAfter_of_error (bind_of_error h)]
    exact hfirst.mono False.elim
  | ok a m1 =>
    rw [stateAfter_of_ok h] at hfirst
    rw [stateAfter_bind_of_ok h]
    exact (hfirst.mono False.elim).trans (hf h) fun _ => id

/-- A call on a fresh cursor moves no cursor that was there. -/
theorem parks_call_fresh (offer : Offer) (position : Int) {α : Type}
    {f : CursorId → Outcome → Act α} (hf : ∀ c o, (f c o).Parks) :
    (Session.freshCursor offer position >>= fun c => k.call entry p c >>= f c).Parks := by
  intro m
  have hfresh := Session.parks_freshCursor offer position m
  cases hc : Session.freshCursor offer position m with
  | error e m1 =>
    rw [stateAfter_of_error hc] at hfresh
    rw [stateAfter_of_error (bind_of_error hc)]
    exact hfresh
  | ok c m1 =>
    rw [stateAfter_of_ok hc] at hfresh
    rw [stateAfter_bind_of_ok hc]
    obtain ⟨hnew, hlt⟩ := freshCursor_next hc
    exact hfresh.trans ((Drives.of_lent hlt (call_lent k entry p hlt)).bind (hf c))
      fun hd heq => absurd hd (heq ▸ Nat.not_lt.mpr hnew)

/-- What a call on a cursor names is there. -/
theorem call_named {c d : CursorId} {v : Value} {m m1 : Machine} (hc : c < m.cursors.size)
    (h : k.call entry p c m = .ok (.matched d v) m1) : d < m1.cursors.size :=
  (((run_lender (resolver_grows k.questions) _ entry p hc).of_ok h).2.2 d v rfl).lt

end Calls

/-! ## Steps -/

namespace Session

/-- The cursor that a step is handed, to be moved by it. -/
def Step.handed? (cursors : Table CursorId) : Step → Option CursorId
  | .next name => cursors.get? name
  | .parse _ _ _ (.stored name) _ => cursors.get? name
  | _ => none

/-- A step that moves no cursor, and gives names to cursors that are there. -/
def Orderly (x : Act (Answer × Option (String × CursorId))) : Prop :=
  x.Parks ∧ ∀ {m answer name c m'}, x m = .ok (answer, some (name, c)) m' → c < m'.cursors.size

section Orderly

variable {α : Type}

theorem orderly_answer (answer : Answer) : Orderly (pure (answer, none)) :=
  ⟨Act.parks_pure _, fun h => by cases h⟩

theorem orderly_fail (f : Fault) : Orderly (Act.fail f) :=
  ⟨Act.parks_fail f, fun h => by cases h⟩

theorem orderly_bind_of_ok {x : Act α} {f : α → Act (Answer × Option (String × CursorId))}
    (hx : x.Parks) (hf : ∀ {a m m1}, x m = .ok a m1 → Orderly (f a)) : Orderly (x >>= f) := by
  refine ⟨hx.bind_of_ok fun ha => (hf ha).1, fun {m answer name c m'} h => ?_⟩
  obtain ⟨a, m1, ha, h⟩ := bind_eq_ok_iff.mp h
  exact (hf ha).2 h

theorem orderly_bind {x : Act α} {f : α → Act (Answer × Option (String × CursorId))}
    (hx : x.Parks) (hf : ∀ a, Orderly (f a)) : Orderly (x >>= f) :=
  orderly_bind_of_ok hx fun {a _ _} _ => hf a

theorem orderly_get {f : Machine → Act (Answer × Option (String × CursorId))}
    (hf : ∀ m, Orderly (f m)) : Orderly (get >>= f) :=
  orderly_bind Act.still_get.parks hf

/-- A new cursor gets a name. -/
theorem orderly_addCursor {cursor : Cursor} (hcursor : cursor.Placed) (answer : Answer)
    (name : String) : Orderly (addCursor cursor >>= fun c => pure (answer, some (name, c))) := by
  refine ⟨(parks_addCursor hcursor).bind fun _ => Act.parks_pure _, fun h => ?_⟩
  cases h
  simp [Machine.addCursor]

theorem orderly_snapshot (c : CursorId) (answer : Answer) (name : String) :
    Orderly (Act.snapshot c >>= fun d => pure (answer, some (name, d))) := by
  refine ⟨(Act.parks_snapshot c).bind fun _ => Act.parks_pure _, fun h => ?_⟩
  cases h
  simp

end Orderly

theorem parks_parseOffer (k : Limits) (shape : ShapeExpr) (offer : Offer) :
    (parseOffer k shape offer).Parks :=
  (parks_shapeParser k shape).bind fun h => by
    have hcalled := parks_call_fresh k .total h.body offer 0 fun _ o => Act.parks_pure o
    simpa only [bind_pure] using hcalled

variable (k : Limits) (cursors : Table CursorId) (declarations : Nat)

/-- **Every step but those that read or parse** moves no cursor. -/
theorem orderly_perform (x : Step) (hnext : ∀ name, x ≠ .next name)
    (hparse : ∀ entry valueOnly shape origin save,
      x ≠ .parse entry valueOnly shape origin save) :
    Orderly (perform k cursors declarations x) := by
  cases x with
  | declare d => exact orderly_bind (Act.parks_resolve _) fun _ => orderly_answer _
  | openCursor name offer position positioned =>
    refine orderly_bind (Act.parks_lift _) fun source => ?_
    cases positioned with
    | true =>
      exact orderly_bind_of_ok (Act.parks_lift _) fun hcursor =>
        orderly_addCursor (placed_at (lift_eq_ok hcursor).1) .done name
    | false =>
      refine orderly_bind_of_ok (Act.parks_pure _) fun {cursor m m1} hcursor => ?_
      cases hcursor
      refine orderly_addCursor (fun hpositioned => ?_) .done name
      unfold Cursor.unpositioned at hpositioned
      split at hpositioned <;> cases hpositioned
  | next name => exact absurd rfl (hnext name)
  | peek name =>
    refine orderly_bind (parks_namedCursor cursors name) fun c =>
      orderly_bind (Act.still_position c).parks fun _ => orderly_get fun m => ?_
    split <;> exact orderly_answer _
  | state name =>
    exact orderly_bind (parks_namedCursor cursors name) fun c =>
      orderly_bind (Act.still_position c).parks fun _ => orderly_get fun _ => orderly_answer _
  | showCursor name =>
    exact orderly_bind (parks_namedCursor cursors name) fun _ => orderly_get fun _ =>
      orderly_answer _
  | snapshot name copy =>
    exact orderly_bind (parks_namedCursor cursors name) fun c => orderly_snapshot c .done copy
  | sameCursor a b =>
    exact orderly_bind (parks_namedCursor cursors a) fun _ =>
      orderly_bind (parks_namedCursor cursors b) fun _ => orderly_get fun _ => orderly_answer _
  | coerce offer => exact orderly_bind (Act.parks_lift _) fun _ => orderly_answer _
  | parse entry valueOnly shape origin save =>
    exact absurd rfl (hparse entry valueOnly shape origin save)
  | equal shapeA offerA shapeB offerB =>
    exact orderly_bind (parks_parseOffer k shapeA offerA) fun _ =>
      orderly_bind (parks_parseOffer k shapeB offerB) fun _ =>
        orderly_bind (Act.parks_lift _) fun _ => orderly_answer _
  | instances shape offer classes =>
    exact orderly_bind (parks_parseOffer k shape offer) fun _ =>
      orderly_bind (Act.parks_mapM parks_classesAt classes) fun _ => orderly_get fun _ =>
        orderly_answer _
  | subclasses path classes =>
    exact orderly_bind (parks_subclassesAt path classes) fun _ => orderly_answer _
  | inspect shape aspects =>
    exact orderly_bind (parks_shapeParser k shape) fun h =>
      orderly_bind (Act.parks_mapM (parks_viewAspect k h.body) aspects) fun _ => orderly_answer _
  | schema path =>
    exact orderly_bind (parks_classAt path) fun _ => orderly_get fun _ =>
      orderly_bind (Act.parks_lift _) fun _ => orderly_answer _
  | planSchema path =>
    exact orderly_bind (parks_classAt path) fun _ => orderly_get fun _ =>
      orderly_bind (Act.parks_lift _) fun _ => orderly_bind (Act.parks_resolve _) fun plan =>
        orderly_bind (parks_viewPlan k plan) fun _ => orderly_answer _
  | sameParser a b =>
    exact orderly_bind (parks_shapeParser k a) fun _ =>
      orderly_bind (parks_shapeParser k b) fun _ => orderly_answer _
  | character char other => exact orderly_bind (Act.parks_lift _) fun _ => orderly_answer _
  | nonempty offer => exact orderly_bind (Act.parks_lift _) fun _ => orderly_answer _
  | generate shape source name =>
    exact orderly_bind (Act.parks_resolve _) fun _ => orderly_bind (Act.parks_resolve _) fun _ =>
      orderly_get fun _ => orderly_answer _
  | fingerprint shape =>
    exact orderly_bind (Act.parks_resolve _) fun _ => orderly_bind (Act.parks_resolve _) fun _ =>
      orderly_get fun _ => orderly_answer _
  | fullName path =>
    refine orderly_get fun m => orderly_bind (Act.parks_lift _) fun b => ?_
    split
    · exact orderly_get fun _ => orderly_answer _
    · exact orderly_fail _
  | renderFactories es =>
    exact orderly_bind (Act.parks_resolve _) fun _ => orderly_bind (Act.parks_resolve _) fun _ =>
      orderly_answer _
  | writeFactories file es =>
    exact orderly_bind (Act.parks_resolve _) fun _ => orderly_bind (Act.parks_resolve _) fun _ =>
      orderly_answer _
  | loadFactories file es =>
    exact orderly_bind (Act.parks_resolve _) fun _ => orderly_get fun _ =>
      orderly_bind (Act.parks_lift _) fun _ => orderly_bind (Act.parks_resolve _) fun loaded =>
        orderly_bind (parks_viewLoaded loaded) fun _ => orderly_answer _
  | putFile file content => exact orderly_bind (Act.parks_resolve _) fun _ => orderly_answer _
  | getFile file => exact orderly_bind (Act.parks_resolve _) fun _ => orderly_answer _

theorem namedCursor_eq_ok {name : String} {c : CursorId} {m m1 : Machine}
    (h : namedCursor cursors name m = .ok c m1) : cursors.get? name = some c ∧ m1 = m := by
  unfold namedCursor at h
  cases hget : cursors.get? name with
  | none =>
    rw [hget] at h
    cases h
  | some d =>
    rw [hget] at h
    cases h
    exact ⟨rfl, rfl⟩

/-- What a parse gives a name to is there. -/
theorem parse_named {entry : Entry} {p : Parser} {valueOnly : Bool} {save : Option String}
    {c d : CursorId} {answer : Answer} {name : String} {m m1 : Machine} (hc : c < m.cursors.size)
    (h : (k.call entry p c >>= fun o => get >>= fun m =>
      (pure (.parsed (parsedOf m valueOnly c o) (traceOf m c),
        match valueOnly, o, save with
        | false, .matched d _, some name => some (name, d)
        | _, _, _ => none) : Act (Answer × Option (String × CursorId)))) m =
      .ok (answer, some (name, d)) m1) : d < m1.cursors.size := by
  obtain ⟨o, m2, ho, h⟩ := bind_eq_ok_iff.mp h
  cases o with
  | matched e v =>
    cases valueOnly <;> cases save <;> cases h
    exact call_named k entry p hc ho
  | missed => cases valueOnly <;> cases save <;> cases h
  | failed e => cases valueOnly <;> cases save <;> cases h

variable {k cursors declarations} {m : Machine}
  (hnamed : ∀ {name c}, cursors.get? name = some c → c < m.cursors.size)
include hnamed

/-- **A step moves no cursor but the one that it is handed**, forward and within its input. -/
theorem drives_perform (x : Step) :
    m.Drives (x.handed? cursors = some ·) (stateAfter (perform k cursors declarations x) m) := by
  by_cases hnext : ∃ name, x = .next name
  · obtain ⟨name, rfl⟩ := hnext
    refine (parks_namedCursor cursors name).drives fun {c m1} hc => ?_
    obtain ⟨hget, rfl⟩ := namedCursor_eq_ok cursors hc
    refine Drives.bind ?_ fun v => ?_
    · exact (Drives.of_lent (hnamed hget) (lends_next (hnamed hget)).lent).mono
        fun {d} hd => hd ▸ hget
    · cases v <;> exact Act.parks_pure _
  by_cases hparse : ∃ entry valueOnly shape origin save,
      x = .parse entry valueOnly shape origin save
  · obtain ⟨entry, valueOnly, shape, origin, save, rfl⟩ := hparse
    refine (parks_shapeParser k shape).drives fun {h m1} hh => ?_
    have hcursors : m1.cursors = m.cursors := (resolve_eq_ok hh).2
    cases origin with
    | fresh offer position =>
      exact (parks_call_fresh k entry h.body offer position
        (fun _ _ => Act.parks_get fun _ => Act.parks_pure _) m1).mono False.elim
    | stored name =>
      refine (parks_namedCursor cursors name).drives fun {c m2} hc => ?_
      obtain ⟨hget, rfl⟩ := namedCursor_eq_ok cursors hc
      have hlt : c < m2.cursors.size := hcursors ▸ hnamed hget
      exact ((Drives.of_lent hlt (call_lent k entry h.body hlt)).mono
        fun {d} hd => hd ▸ hget).bind fun _ => Act.parks_get fun _ => Act.parks_pure _
  · exact ((orderly_perform k cursors declarations x (fun name hx => hnext ⟨name, hx⟩)
      fun entry valueOnly shape origin save hx =>
        hparse ⟨entry, valueOnly, shape, origin, save, hx⟩).1 m).mono False.elim

/-- A step gives names to cursors that are there. -/
theorem perform_named {x : Step} {answer : Answer} {name : String} {c : CursorId} {m1 : Machine}
    (h : perform k cursors declarations x m = .ok (answer, some (name, c)) m1) :
    c < m1.cursors.size := by
  by_cases hnext : ∃ name, x = .next name
  · obtain ⟨name, rfl⟩ := hnext
    obtain ⟨d, m2, -, h⟩ := bind_eq_ok_iff.mp h
    obtain ⟨v, m3, -, h⟩ := bind_eq_ok_iff.mp h
    cases v <;> cases h
  by_cases hparse : ∃ entry valueOnly shape origin save,
      x = .parse entry valueOnly shape origin save
  · obtain ⟨entry, valueOnly, shape, origin, save, rfl⟩ := hparse
    obtain ⟨hshape, m2, hh, h⟩ := bind_eq_ok_iff.mp h
    have hcursors : m2.cursors = m.cursors := (resolve_eq_ok hh).2
    cases origin with
    | fresh offer position =>
      obtain ⟨d, m3, hd, hcalled⟩ := bind_eq_ok_iff.mp h
      exact parse_named k (freshCursor_next hd).2 hcalled
    | stored origin =>
      obtain ⟨d, m3, hd, hcalled⟩ := bind_eq_ok_iff.mp h
      obtain ⟨hget, rfl⟩ := namedCursor_eq_ok cursors hd
      exact parse_named k (hcursors ▸ hnamed hget) hcalled
  · exact (orderly_perform k cursors declarations x (fun name hx => hnext ⟨name, hx⟩)
      fun entry valueOnly shape origin save hx =>
        hparse ⟨entry, valueOnly, shape, origin, save, hx⟩).2 h

end Session

end ShapeGrammar
