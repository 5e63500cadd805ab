import ShapeGrammar.Proofs.Resolution.Growth

/-!
# Invariants of a grammar

An invariant that does not tell which parsers were made, what is being found out and what was
reported, and that a new delayed parser does not break, is kept by the single steps of a resolution.

Headlines: `Resolution.Keeps`, `Resolution.keeps_steps`.
-/

namespace ShapeGrammar

namespace Resolution

variable {α β : Type} {Inv : Grammar → Prop}

/-- A computation keeps an invariant of the grammar, whichever way it ends. -/
def Keeps (Inv : Grammar → Prop) (x : Resolution α) : Prop :=
  ∀ g : Grammar, Inv g → Inv (stateAfter x g)

theorem Keeps.of_ok {x : Resolution α} (hx : Keeps Inv x) {g g' : Grammar} {a : α}
    (hg : Inv g) (h : x g = .ok a g') : Inv g' := by
  have hafter := hx g hg
  rwa [stateAfter_of_ok h] at hafter

theorem keeps_bind {x : Resolution α} {f : α → Resolution β} (hx : Keeps Inv x)
    (hf : ∀ a, Keeps Inv (f a)) : Keeps Inv (x >>= f) := by
  intro g hg
  have hafter := hx g hg
  cases h : x g with
  | ok a g' =>
    rw [stateAfter_of_ok h] at hafter
    rw [stateAfter_bind_of_ok h]
    exact hf a g' hafter
  | error e g' =>
    rw [stateAfter_of_error h] at hafter
    rwa [stateAfter_of_error (bind_of_error h)]

theorem keeps_get {k : Grammar → Resolution α} (hk : ∀ g, Keeps Inv (k g)) :
    Keeps Inv (get >>= k) :=
  fun g hg => hk g g hg

theorem keeps_ite {p : Prop} [Decidable p] {x y : Resolution α} (hx : Keeps Inv x)
    (hy : Keeps Inv y) : Keeps Inv (if p then x else y) := by
  split
  · exact hx
  · exact hy

/-- Whatever it is that something stops at. -/
theorem keeps_throw (e : Stop) : Keeps Inv (throw e : Resolution α) :=
  fun _ hg => hg

theorem keeps_fail (f : Fault) : Keeps Inv (fail f : Resolution α) :=
  keeps_throw (.fault f)

theorem keeps_lift (x : Except Fault α) : Keeps Inv (lift x) := by
  cases x with
  | ok a => exact fun _ hg => hg
  | error f => exact keeps_fail f

theorem keeps_liftStop (x : Except Stop α) : Keeps Inv (liftStop x) := by
  cases x with
  | ok a => exact fun _ hg => hg
  | error e => exact keeps_throw e

theorem keeps_guarded (hpending : ∀ {g : Grammar} (keys : List Pending), Inv g →
    Inv { g with pending := keys }) (key : Pending) (fault : List Pending → Fault)
    {x : Resolution α} (hx : Keeps Inv x) : Keeps Inv (guarded key fault x) := by
  intro g hg
  by_cases h : key ∈ g.pending
  · rwa [stateAfter_of_error (guarded_of_mem h fault x)]
  · rw [stateAfter_guarded h]
    exact hpending _ (hx _ (hpending _ hg))

/-- **Single steps keep an invariant** that is about none of what they change. -/
theorem keeps_steps (made : ∀ {g : Grammar} (n : Nat), Inv g → Inv { g with made := n })
    (pending : ∀ {g : Grammar} (keys : List Pending), Inv g → Inv { g with pending := keys })
    (reports : ∀ {g : Grammar} (rs : Array Report), Inv g → Inv (g.withReports rs))
    (box : ∀ {g : Grammar} (body : Delayed), Inv g → Inv (stateAfter (newBox body) g)) :
    StepLaw (Keeps Inv) where
  pure _ _ hg := hg
  stop _ _ hg := hg
  bind := keeps_bind
  read hk _ g hg := hk g g hg
  newHandle _ _ hg := made _ hg
  newBox body _ hg := box body hg
  report {x} _ g hg := by
    show Inv (g.report (x g))
    unfold Grammar.report
    split
    · exact reports _ hg
    · exact hg
  guarded key _ _ _ hx := keeps_guarded pending key _ hx
  mapSchemaFault {_ f x} _ hx g hg := by
    rw [stateAfter_mapSchemaFault]
    exact hx g hg

/-- To keep what was found keeps an invariant if the answer may be kept. -/
theorem keeps_remember (f : Finding α) {x : Resolution α} {g : Grammar} (hg : Inv g)
    (hx : Inv (stateAfter x g))
    (hkeep : ∀ {a g'}, f.known? g = none → x g = .ok a g' → Inv g' → Inv (f.keep g' a)) :
    Inv (stateAfter (remember f x) g) := by
  cases hf : f.known? g with
  | some a => rwa [stateAfter_of_ok (remember_of_known hf x)]
  | none =>
    unfold stateAfter at hx ⊢
    rw [remember_of_unknown hf]
    cases h : x g with
    | ok a g' =>
      rw [h] at hx
      rw [bind_of_ok h]
      exact hkeep hf h hx
    | error e g' =>
      rw [h] at hx
      rw [bind_of_error h]
      exact hx

end Resolution

end ShapeGrammar
