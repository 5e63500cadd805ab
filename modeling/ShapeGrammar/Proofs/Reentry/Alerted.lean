import ShapeGrammar.Proofs.Machine.Relation

/-!
# An alarm where a class is called at a place

Does a run call a class at a place before it has ended? Let an alarm go off right there: a run with
the alarm does what the run does, unless the alarm goes off, and then nothing else is done. So if it
ends in the alarm, whatever alarm it is, the run does make that call.

Headlines: `alertedRun`, `alertedRun_eq_or_rings`.
-/

namespace ShapeGrammar

/-- Whether a call is one of a class at a place. -/
def isCallAt (target : ClassId) (place : Nat) (p : Parser) (c : CursorId) (m : Machine) : Bool :=
  match p with
  | .derived d => d == target && (m.cursor c).position == place
  | _ => false

/-- Raises an alarm if a class is about to be called at a place. -/
def alert (target : ClassId) (place : Nat) (alarm : Stop) (p : Parser) (c : CursorId) :
    Act Unit := do
  if isCallAt target place p c (← get) then throw alarm

/-- A run in which an alarm goes off as soon as a class is called at a place. -/
def alertedRun (r : Resolver) (target : ClassId) (place : Nat) (alarm : Stop) :
    Nat → Entry → Parser → CursorId → Act Outcome
  | 0, _, _, _ => throw .outOfFuel
  | n + 1, entry, p, c => do
    alert target place alarm p c
    runWith r n (alertedRun r target place alarm n) entry p c

/-- The computation ends in an alarm. -/
def Rings (alarm : Stop) {α : Type} (x : Act α) (m : Machine) : Prop :=
  ∃ m', x m = .error alarm m'

section Rings

variable {alarm : Stop} {α β : Type} {x : Act α} {f : α → Act β} {m m' : Machine}

theorem Rings.bind (h : Rings alarm x m) : Rings alarm (x >>= f) m :=
  h.imp fun _ hx => bind_of_error hx

theorem Rings.after {a : α} (hx : x m = .ok a m') (h : Rings alarm (f a) m') :
    Rings alarm (x >>= f) m := by
  unfold Rings
  rwa [bind_of_ok hx]

theorem rings_map_iff {g : α → β} : Rings alarm (g <$> x) m ↔ Rings alarm x m :=
  exists_congr fun _ => ⟨map_eq_error, map_of_error⟩

end Rings

/-- The first computation does what the second one does, unless an alarm goes off in it. -/
def OrRings (alarm : Stop) {α : Type} (x y : Act α) : Prop :=
  ∀ m, Rings alarm x m ∨ x m = y m

theorem orRings_refl (alarm : Stop) {α : Type} (x : Act α) : OrRings alarm x x :=
  fun _ => .inr rfl

theorem orRings_law (alarm : Stop) : RunLaw (OrRings alarm) where
  pure _ := orRings_refl alarm _
  stop _ := orRings_refl alarm _
  bind {_ _ x y f g} hx hf m := by
    rcases hx m with hrings | hsame
    · exact .inl hrings.bind
    · cases hy : y m with
      | error e m' =>
        rw [hy] at hsame
        exact .inr ((bind_of_error hsame).trans (bind_of_error hy).symm)
      | ok a m' =>
        rw [hy] at hsame
        exact (hf a m').imp (.after hsame) fun hfg =>
          (bind_of_ok hsame).trans (hfg.trans (bind_of_ok hy).symm)
  next _ := orRings_refl alarm _
  snapshot _ := orRings_refl alarm _
  position _ := orRings_refl alarm _
  describe _ := orRings_refl alarm _
  className _ := orRings_refl alarm _
  listens _ := orRings_refl alarm _
  report _ := orRings_refl alarm _
  note _ := orRings_refl alarm _
  construct _ _ := orRings_refl alarm _

section Alerted

variable {r : Resolver} {target : ClassId} {place : Nat} {alarm : Stop} {n : Nat} {entry : Entry}
  {p : Parser} {c : CursorId} {m : Machine}

theorem alert_of_call (h : isCallAt target place p c m = true) :
    alert target place alarm p c m = .error alarm m := by
  show (if isCallAt target place p c m then throw alarm else pure () : Act Unit) m = _
  rw [if_pos h]
  rfl

theorem alert_of_not_call (h : isCallAt target place p c m = false) :
    alert target place alarm p c m = .ok () m := by
  show (if isCallAt target place p c m then throw alarm else pure () : Act Unit) m = _
  rw [h]
  rfl

theorem alertedRun_of_not_call (h : isCallAt target place p c m = false) :
    alertedRun r target place alarm (n + 1) entry p c m =
      runWith r n (alertedRun r target place alarm n) entry p c m :=
  bind_of_ok (alert_of_not_call h)

/-- The alarm goes off where the class is called at the place. -/
theorem rings_of_call (h : isCallAt target place p c m = true) :
    Rings alarm (alertedRun r target place alarm (n + 1) entry p c) m :=
  Rings.bind ⟨m, alert_of_call h⟩

/-- It goes off in a call if it does in what the call does. -/
theorem rings_of_runWith
    (h : Rings alarm (runWith r n (alertedRun r target place alarm n) entry p c) m) :
    Rings alarm (alertedRun r target place alarm (n + 1) entry p c) m := by
  cases hcall : isCallAt target place p c m with
  | true => exact rings_of_call hcall
  | false =>
    unfold Rings
    rwa [alertedRun_of_not_call hcall]

/-- **A run with an alarm is the run, unless the alarm goes off.** -/
theorem alertedRun_eq_or_rings (n : Nat) (entry : Entry) (p : Parser) (c : CursorId) :
    OrRings alarm (alertedRun r target place alarm n entry p c) (run r n entry p c) := by
  induction n generalizing entry p c with
  | zero => exact orRings_refl alarm _
  | succ n ih =>
    intro m
    have hcall := (orRings_law alarm).runWith
      (fun b => orRings_refl alarm (Act.resolve (r.boxParser b)))
      (fun d => orRings_refl alarm (Act.resolve (r.planOf d))) ih entry p c (.inl (Eq.refl n)) m
    rw [run_succ]
    cases hnow : isCallAt target place p c m with
    | true => exact .inl (rings_of_call hnow)
    | false =>
      unfold Rings
      rw [alertedRun_of_not_call hnow]
      exact hcall

end Alerted

end ShapeGrammar
