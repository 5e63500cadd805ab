import ShapeGrammar.Proofs.Machine.Lending
import ShapeGrammar.Proofs.Machine.Relation
import ShapeGrammar.Proofs.Resolution.Keeps

/-!
# Invariants of a grammar in runs

Only two things that a run does touch the grammar: it finds something out, and it keeps a report. So
an invariant of the grammar that no report breaks, and that questions keep, whole runs keep.

Headlines: `Act.Keeps`, `keeps_law`, `run_keeps`.
-/

namespace ShapeGrammar

open Machine

variable {α β : Type} {Inv : Grammar → Prop}

/-- A computation keeps an invariant of the grammar, whichever way it ends. -/
def Act.Keeps (Inv : Grammar → Prop) (x : Act α) : Prop :=
  ∀ m : Machine, Inv m.grammar → Inv (stateAfter x m).grammar

namespace Act

theorem Keeps.of_ok {x : Act α} (hx : x.Keeps Inv) {m m' : Machine} {a : α}
    (hm : Inv m.grammar) (h : x m = .ok a m') : Inv m'.grammar := by
  have hafter := hx m hm
  rwa [stateAfter_of_ok h] at hafter

theorem Keeps.bind {x : Act α} {f : α → Act β} (hx : x.Keeps Inv) (hf : ∀ a, (f a).Keeps Inv) :
    Act.Keeps Inv (x >>= f) := fun m hm =>
  stateAfter_bind_rel (R := fun m m' : Machine => Inv m.grammar → Inv m'.grammar)
    (fun h h' hm => h' (h hm)) (hx m) (fun a m1 _ => hf a m1) hm

theorem keeps_pure (a : α) : Act.Keeps Inv (pure a : Act α) := fun _ hm => hm

theorem keeps_throw (e : Stop) : Act.Keeps Inv (throw e : Act α) := fun _ hm => hm

theorem keeps_get {k : Machine → Act α} (hk : ∀ m, (k m).Keeps Inv) :
    Act.Keeps Inv (get >>= k) :=
  fun m hm => hk m m hm

theorem keeps_lift (x : Except Fault α) : (Act.lift x).Keeps Inv := by
  cases x with
  | ok a => exact keeps_pure a
  | error f => exact keeps_throw _

theorem keeps_next (c : CursorId) : (Act.next c).Keeps Inv := fun m hm => by
  cases h : (m.cursor c).next? with
  | none => rwa [stateAfter_of_ok (next_of_end h)]
  | some r => rwa [stateAfter_of_ok (next_of_some h)]

theorem keeps_position (c : CursorId) : (Act.position c).Keeps Inv := by
  refine keeps_get fun m => ?_
  dsimp only
  split
  · exact keeps_pure _
  · exact keeps_throw _

theorem keeps_describe (p : Parser) : (Act.describe p).Keeps Inv := by
  refine keeps_get fun m => ?_
  cases m.grammar.describe p with
  | ok d => exact keeps_pure d
  | error e => exact keeps_throw e

/-- To find something out about the grammar keeps what the question keeps. -/
theorem keeps_resolve {x : Resolution α} (hx : Resolution.Keeps Inv x) :
    (Act.resolve x).Keeps Inv := fun m hm => by
  have hg := hx m.grammar hm
  unfold stateAfter at hg ⊢
  unfold Act.resolve
  cases h : x m.grammar with
  | ok a g =>
    rw [h] at hg
    exact hg
  | error e g =>
    rw [h] at hg
    exact hg

end Act

/-- What keeps an invariant when it is done keeps it when it is composed. -/
theorem keeps_law (hreport : ∀ {g : Grammar} (r : Report), Inv g → Inv (g.report r)) :
    RunLaw fun x _ => x.Keeps Inv where
  pure := Act.keeps_pure
  stop := Act.keeps_throw
  bind := .bind
  next := Act.keeps_next
  snapshot _ _ hm := hm
  position := Act.keeps_position
  describe := Act.keeps_describe
  className _ := Act.keeps_get fun _ => Act.keeps_pure _
  listens _ := Act.keeps_get fun _ => Act.keeps_pure _
  report r _ hm := hreport r hm
  note _ _ hm := hm
  construct _ _ := Act.keeps_get fun _ => Act.keeps_lift _

/-- **Runs keep an invariant of the grammar** that no report breaks and no answer. -/
theorem run_keeps (hreport : ∀ {g : Grammar} (r : Report), Inv g → Inv (g.report r)) {r : Resolver}
    (hr : r.Obeys (Resolution.Keeps Inv)) (n : Nat) (entry : Entry) (p : Parser) (c : CursorId) :
    (run r n entry p c).Keeps Inv :=
  @RunLaw.run _ (keeps_law hreport) r r (fun b => Act.keeps_resolve (hr.boxParser b))
    (fun c => Act.keeps_resolve (hr.planOf c)) n n entry p c (.inl rfl)

end ShapeGrammar
