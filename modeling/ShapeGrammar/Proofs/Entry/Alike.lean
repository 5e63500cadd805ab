import ShapeGrammar.Proofs.Machine.Invariant
import ShapeGrammar.Proofs.Machine.Likeness

/-!
# Machines that differ in the entry points that were called

The trace says at which entry point a recorded parser was called, and nothing reads it. So machines
that differ in nothing else go on alike, whatever is done next.

Headlines: `Machine.Alike`, `alike_likeness`, `run_alike`, `run_grows`.
-/

namespace ShapeGrammar

/-- Which parser was called, and where. -/
def Event.place (e : Event) : String × Nat :=
  (e.name, e.position)

/-- Two machines that are equal, but for the entry points at which recorded parsers were called. -/
inductive Machine.Alike (m : Machine) : Machine → Prop
  | mk (events : Array Event)
    (places : events.map Event.place = m.events.map Event.place) :
    Alike m { m with events := events }

namespace Machine.Alike

variable {m m' : Machine}

theorem refl (m : Machine) : m.Alike m := ⟨m.events, rfl⟩

theorem grammar_eq (h : m.Alike m') : m'.grammar = m.grammar := by
  cases h
  rfl

/-- A call is noted at either entry point. -/
theorem note {name : String} {k : Nat} (h : m.Alike m') (entry entry' : Entry) :
    Alike { m with events := m.events.push ⟨name, entry, k⟩ }
      { m' with events := m'.events.push ⟨name, entry', k⟩ } := by
  obtain ⟨events, places⟩ := h
  refine ⟨events.push ⟨name, entry', k⟩, ?_⟩
  rw [Array.map_push, Array.map_push, places]
  rfl

end Machine.Alike

/-- Nothing that a run looks at tells at which entry points parsers were called. -/
theorem alike_likeness : Likeness Machine.Alike where
  twin h := by
    obtain ⟨events, -⟩ := h
    exact ⟨_, events, rfl⟩
  heard h := congrArg Grammar.threshold h.grammar_eq
  described h p := congrArg (Grammar.describe · p) h.grammar_eq
  named h target := congrArg (Grammar.className · target) h.grammar_eq
  constructed h target vs := congrArg (Grammar.construct · target vs) h.grammar_eq
  moved h _ _ _ := by
    obtain ⟨events, places⟩ := h
    exact ⟨events, places⟩
  reported h _ := by
    obtain ⟨events, places⟩ := h
    exact ⟨events, places⟩
  noted h e := h.note e.entry e.entry

/-- A question about the grammar has the same answer. -/
theorem alike_resolve {α : Type} (x : Resolution α) :
    Follows Machine.Alike false (Act.resolve x) (Act.resolve x) := by
  rintro m _ ⟨events, places⟩
  unfold Act.resolve
  dsimp only
  cases x m.grammar with
  | ok a g => exact .ok a ⟨events, places⟩
  | error e g => exact .stopped e ⟨events, places⟩

theorem alike_law : RunLaw (Follows Machine.Alike false) := alike_likeness.law

/-- **Nothing that a run does depends on the entry points that were called.** -/
theorem run_alike (r : Resolver) (n : Nat) (entry : Entry) (p : Parser) (c : CursorId) :
    Follows Machine.Alike false (run r n entry p c) (run r n entry p c) :=
  alike_law.run (fun _ => alike_resolve _) (fun _ => alike_resolve _) entry p c (.inl rfl)

/-! ## Growth -/

/-- A computation leaves a later state of the grammar behind. -/
def Act.Grows {α : Type} (x : Act α) : Prop :=
  ∀ g : Grammar, x.Keeps g.Precedes

theorem Act.Still.grows {α : Type} {x : Act α} (h : x.Still) : x.Grows :=
  fun _ m hm => hm.trans (h m).1

/-- Whichever way it ends, a later state is left behind. -/
theorem Act.Grows.after {α : Type} {x : Act α} (h : x.Grows) (m : Machine) :
    m.grammar.Precedes (stateAfter x m).grammar :=
  h m.grammar m (.refl _)

theorem Act.Grows.of_ok {α : Type} {x : Act α} (h : x.Grows) {m m' : Machine} {a : α}
    (hx : x m = .ok a m') : m.grammar.Precedes m'.grammar :=
  (h m.grammar).of_ok (.refl _) hx

theorem Act.Grows.bind {α β : Type} {x : Act α} {f : α → Act β} (hx : x.Grows)
    (hf : ∀ a, (f a).Grows) : (x >>= f).Grows :=
  fun g => (hx g).bind fun a => hf a g

/-- What grows when it is done grows when it is composed. -/
theorem growth_law (g : Grammar) : RunLaw fun x _ => x.Keeps g.Precedes :=
  keeps_law fun r h => h.trans (.report _ r)

section Calls

variable {call : Entry → Parser → CursorId → Act Outcome}
  (hcall : ∀ entry p c, (call entry p c).Grows)
include hcall

theorem grows_gather (entry : Entry) (ps : List Parser) (c : CursorId) :
    (gather call entry ps c).Grows := fun g =>
  @RunLaw.gather _ (growth_law g) call call (fun entry p c => hcall entry p c g) entry ps c

theorem grows_collect (checked : Bool) (body : Parser) (n : Nat) (c : CursorId) :
    (collect call checked body n c).Grows := fun g =>
  @RunLaw.collect _ (growth_law g) call call (fun entry p c => hcall entry p c g) checked body n n c
    (.inl rfl)

theorem grows_runAttempt (entry : Entry) (a : Attempt Parser) (c : CursorId) :
    (runAttempt call entry a c).Grows := fun g =>
  @RunLaw.runAttempt _ (growth_law g) call call (fun entry p c => hcall entry p c g) entry a c

end Calls

theorem run_grows {r : Resolver} (hr : r.Obeys Resolution.Grows) (n : Nat) (entry : Entry)
    (p : Parser) (c : CursorId) : (run r n entry p c).Grows := fun g =>
  @RunLaw.run _ (growth_law g) r r (fun b => (Act.still_resolve (hr.boxParser b)).grows g)
    (fun c => (Act.still_resolve (hr.planOf c)).grows g) n n entry p c (.inl rfl)

end ShapeGrammar
