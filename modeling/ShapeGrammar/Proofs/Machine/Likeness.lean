import ShapeGrammar.Proofs.Machine.Lending
import ShapeGrammar.Proofs.Machine.Relation

/-!
# Machines that are alike

Where nothing that a run does can tell two machines apart, runs on them come to the same, and leave
machines behind that are alike again. A run with more fuel comes to the same, too, or to more.

Headlines: `Likeness`, `Ends`, `Follows`, `Likeness.law`.
-/

namespace ShapeGrammar

/-- A relation between machines that agree in everything that a run looks at. -/
structure Likeness (S : Machine → Machine → Prop) : Prop where
  twin : ∀ {m m'}, S m m' → ∃ g events, m' = { m with grammar := g, events := events }
  heard : ∀ {m m'}, S m m' → m'.grammar.threshold = m.grammar.threshold
  described : ∀ {m m'}, S m m' → ∀ p, m'.grammar.describe p = m.grammar.describe p
  named : ∀ {m m'}, S m m' → ∀ target, m'.grammar.className target = m.grammar.className target
  constructed : ∀ {m m'}, S m m' → ∀ target vs,
    m'.grammar.construct target vs = m.grammar.construct target vs
  /-- It does not matter where the cursors stand, and how they came there. -/
  moved : ∀ {m m'}, S m m' → ∀ cursors reads snapshots,
    S { m with cursors := cursors, reads := reads, snapshots := snapshots }
      { m' with cursors := cursors, reads := reads, snapshots := snapshots }
  reported : ∀ {m m'}, S m m' → ∀ r, S { m with grammar := m.grammar.report r }
    { m' with grammar := m'.grammar.report r }
  noted : ∀ {m m'}, S m m' → ∀ e, S { m with events := m.events.push e }
    { m' with events := m'.events.push e }

/-- Two computations have come to the same, on machines that are alike. With `slack`, the second one
may have come to anything where the first one ran out of fuel. -/
inductive Ends (S : Machine → Machine → Prop) (slack : Bool) {α : Type} :
    EStateM.Result Stop Machine α → EStateM.Result Stop Machine α → Prop
  | short (may : slack = true) (m : Machine) (r) : Ends S slack (.error .outOfFuel m) r
  | ok {m m'} (a : α) (alike : S m m') : Ends S slack (.ok a m) (.ok a m')
  | stopped {m m'} (e : Stop) (alike : S m m') : Ends S slack (.error e m) (.error e m')

/-- On machines that are alike, the second computation comes to the same as the first one. -/
def Follows (S : Machine → Machine → Prop) (slack : Bool) {α : Type} (x y : Act α) : Prop :=
  ∀ m m', S m m' → Ends S slack (x m) (y m')

variable {S : Machine → Machine → Prop} {slack : Bool} {α β : Type}

/-- What comes to the same is gone on with in the same way. -/
theorem Ends.bind {x y : Act α} {f g : α → Act β} {m m' : Machine}
    (h : Ends S slack (x m) (y m'))
    (hf : ∀ {a m1 m1'}, x m = .ok a m1 → y m' = .ok a m1' → S m1 m1' →
      Ends S slack (f a m1) (g a m1')) : Ends S slack ((x >>= f) m) ((y >>= g) m') := by
  generalize hxm : x m = r at h
  generalize hym : y m' = r' at h
  cases h with
  | short may m1 r' =>
    rw [bind_of_error hxm]
    exact .short may m1 _
  | ok a alike =>
    rw [bind_of_ok hxm, bind_of_ok hym]
    exact hf hxm hym alike
  | stopped e alike =>
    rw [bind_of_error hxm, bind_of_error hym]
    exact .stopped e alike

theorem Follows.bind {x y : Act α} {f g : α → Act β} (hx : Follows S slack x y)
    (hf : ∀ a, Follows S slack (f a) (g a)) : Follows S slack (x >>= f) (y >>= g) :=
  fun m m' h => (hx m m' h).bind fun _ _ alike => hf _ _ _ alike

namespace Likeness

variable (L : Likeness S)
include L

theorem cursor_eq {m m' : Machine} (h : S m m') (c : CursorId) : m'.cursor c = m.cursor c := by
  obtain ⟨g, events, rfl⟩ := L.twin h
  rfl

/-- **Whatever the machines are alike in, runs respect it.** -/
theorem law : RunLaw (Follows S slack) where
  pure a _ _ h := .ok a h
  stop e _ _ h := .stopped e h
  bind := .bind
  next c m m' h := by
    cases hnext : (m.cursor c).next? with
    | none =>
      rw [next_of_end hnext, next_of_end (L.cursor_eq h c ▸ hnext)]
      exact .ok none h
    | some r =>
      obtain ⟨v, moved⟩ := r
      rw [next_of_some hnext, next_of_some (L.cursor_eq h c ▸ hnext)]
      obtain ⟨g, events, rfl⟩ := L.twin h
      exact .ok (some v) (L.moved h _ _ _)
  snapshot c m m' h := by
    obtain ⟨g, events, rfl⟩ := L.twin h
    exact .ok _ (L.moved h _ _ _)
  position c m m' h := by
    show Ends S slack
      ((if (m.cursor c).positioned then pure (m.cursor c).position
        else Act.fail (.attribute .position) : Act Nat) m)
      ((if (m'.cursor c).positioned then pure (m'.cursor c).position
        else Act.fail (.attribute .position) : Act Nat) m')
    rw [L.cursor_eq h c]
    split
    · exact .ok _ h
    · exact .stopped _ h
  describe p m m' h := by
    show Ends S slack (Act.liftStop (m.grammar.describe p) m)
      (Act.liftStop (m'.grammar.describe p) m')
    rw [L.described h p]
    cases m.grammar.describe p with
    | ok text => exact .ok text h
    | error e => exact .stopped e h
  className target m m' h := by
    show Ends S slack (.ok (m.grammar.className target) m) (.ok (m'.grammar.className target) m')
    rw [L.named h target]
    exact .ok _ h
  listens level m m' h := by
    show Ends S slack (.ok (level.heardFrom m.grammar.threshold) m)
      (.ok (level.heardFrom m'.grammar.threshold) m')
    rw [L.heard h]
    exact .ok _ h
  report r _ _ h := .ok () (L.reported h r)
  note e _ _ h := .ok () (L.noted h e)
  construct target vs m m' h := by
    show Ends S slack (Act.lift (m.grammar.construct target vs) m)
      (Act.lift (m'.grammar.construct target vs) m')
    rw [L.constructed h target vs]
    cases m.grammar.construct target vs with
    | ok v => exact .ok v h
    | error f => exact .stopped _ h

end Likeness

theorem covers_of_le {n n' : Nat} (h : n ≤ n') : Covers (Follows S true) n n' :=
  .inr ⟨h, fun _ _ _ _ => .short rfl _ _⟩

end ShapeGrammar
