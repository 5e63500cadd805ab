import ShapeGrammar.Machine

/-!
# Computations with a state that outlives a stop

Resolutions and machine computations are both of the form `EStateM`: they answer or stop, and leave
a state behind in either case. `stateAfter` is that state; the lemmas below take a sequence of two
computations apart.

Headlines: `stateAfter`, `bind_eq_ok_iff`, `stateAfter_bind_of_ok`, `stateAfter_bind_rel`.
-/

namespace ShapeGrammar

variable {ε σ α β : Type}

/-- The state that a computation leaves behind, whichever way it ends. -/
def stateAfter (x : EStateM ε σ α) (s : σ) : σ :=
  match x s with
  | .ok _ t => t
  | .error _ t => t

theorem bind_of_ok {x : EStateM ε σ α} {f : α → EStateM ε σ β} {s t : σ} {a : α}
    (h : x s = .ok a t) : (x >>= f) s = f a t := by
  show EStateM.bind x f s = _
  unfold EStateM.bind
  rw [h]

theorem bind_of_error {x : EStateM ε σ α} {f : α → EStateM ε σ β} {s t : σ} {e : ε}
    (h : x s = .error e t) : (x >>= f) s = .error e t := by
  show EStateM.bind x f s = _
  unfold EStateM.bind
  rw [h]

/-- A sequence answers iff its first part does and the second part does from there. -/
theorem bind_eq_ok_iff {x : EStateM ε σ α} {f : α → EStateM ε σ β} {s u : σ} {b : β} :
    (x >>= f) s = .ok b u ↔ ∃ a t, x s = .ok a t ∧ f a t = .ok b u := by
  cases h : x s with
  | ok a t =>
    rw [bind_of_ok h]
    constructor
    · intro hf
      exact ⟨a, t, rfl, hf⟩
    · rintro ⟨_, _, heq, hf⟩
      cases heq
      exact hf
  | error e t =>
    rw [bind_of_error h]
    constructor
    · intro hf
      cases hf
    · rintro ⟨_, _, heq, -⟩
      cases heq

/-- To read the state first changes nothing. -/
theorem get_bind_eq_ok_iff {f : σ → EStateM ε σ β} {s u : σ} {b : β} :
    (get >>= f) s = .ok b u ↔ f s s = .ok b u :=
  .rfl

theorem map_eq_ok_iff {f : α → β} {x : EStateM ε σ α} {s u : σ} {b : β} :
    (f <$> x) s = .ok b u ↔ ∃ a, x s = .ok a u ∧ f a = b := by
  show EStateM.map f x s = _ ↔ _
  unfold EStateM.map
  cases x s with
  | ok a t =>
    constructor
    · intro h
      cases h
      exact ⟨a, rfl, rfl⟩
    · rintro ⟨_, heq, rfl⟩
      cases heq
      rfl
  | error e t => simp

/-- A sequence that stops does so in its first part or after it. -/
theorem bind_eq_error {x : EStateM ε σ α} {f : α → EStateM ε σ β} {s u : σ} {e : ε}
    (h : (x >>= f) s = .error e u) :
    x s = .error e u ∨ ∃ a t, x s = .ok a t ∧ f a t = .error e u := by
  cases hx : x s with
  | ok a t =>
    rw [bind_of_ok hx] at h
    exact .inr ⟨a, t, rfl, h⟩
  | error e' t =>
    rw [bind_of_error hx] at h
    cases h
    exact .inl rfl

/-- Two sequences that begin alike agree where their continuations do. -/
theorem bind_congr_at {x : EStateM ε σ α} {f f' : α → EStateM ε σ β} {s : σ}
    (h : ∀ {a t}, x s = .ok a t → f a t = f' a t) : (x >>= f) s = (x >>= f') s := by
  cases hx : x s with
  | ok a t => rw [bind_of_ok hx, bind_of_ok hx, h hx]
  | error e t => rw [bind_of_error hx, bind_of_error hx]

theorem map_congr_at {x y : EStateM ε σ α} (f : α → β) {s t : σ} (h : x s = y t) :
    (f <$> x) s = (f <$> y) t := by
  show EStateM.map f x s = EStateM.map f y t
  unfold EStateM.map
  rw [h]

theorem map_of_error {x : EStateM ε σ α} {f : α → β} {s t : σ} {e : ε} (h : x s = .error e t) :
    (f <$> x) s = .error e t := by
  show EStateM.map f x s = _
  unfold EStateM.map
  rw [h]

theorem map_eq_error {x : EStateM ε σ α} {f : α → β} {s t : σ} {e : ε}
    (h : (f <$> x) s = .error e t) : x s = .error e t := by
  cases hx : x s with
  | ok a u =>
    rw [map_eq_ok_iff.mpr ⟨a, hx, rfl⟩] at h
    cases h
  | error e' u =>
    rw [map_of_error hx] at h
    cases h
    rfl

/-- Two continuations that agree on what can be answered make the same sequence. -/
theorem bind_congr_of_ok {x : EStateM ε σ α} {f f' : α → EStateM ε σ β}
    (h : ∀ {a s t}, x s = .ok a t → f a = f' a) : x >>= f = x >>= f' := by
  funext s
  exact bind_congr_at fun hx => congrFun (h hx) _

theorem stateAfter_of_ok {x : EStateM ε σ α} {s t : σ} {a : α} (h : x s = .ok a t) :
    stateAfter x s = t := by
  unfold stateAfter
  rw [h]

theorem stateAfter_of_error {x : EStateM ε σ α} {s t : σ} {e : ε} (h : x s = .error e t) :
    stateAfter x s = t := by
  unfold stateAfter
  rw [h]

theorem stateAfter_bind_of_ok {x : EStateM ε σ α} {f : α → EStateM ε σ β} {s t : σ} {a : α}
    (h : x s = .ok a t) : stateAfter (x >>= f) s = stateAfter (f a) t := by
  unfold stateAfter
  rw [bind_of_ok h]

theorem stateAfter_map (f : α → β) (x : EStateM ε σ α) (s : σ) :
    stateAfter (f <$> x) s = stateAfter x s := by
  show stateAfter (EStateM.map f x) s = _
  unfold stateAfter EStateM.map
  cases x s <;> rfl

theorem stateAfter_get_bind (f : σ → EStateM ε σ α) (s : σ) :
    stateAfter (get >>= f) s = stateAfter (f s) s :=
  rfl

/-- What both parts of a sequence do to the state, the sequence does, for a transitive relation. -/
theorem stateAfter_bind_rel {R : σ → σ → Prop} (trans : ∀ {s t u}, R s t → R t u → R s u)
    {x : EStateM ε σ α} {f : α → EStateM ε σ β} {s : σ} (hx : R s (stateAfter x s))
    (hf : ∀ a t, x s = .ok a t → R t (stateAfter (f a) t)) : R s (stateAfter (x >>= f) s) := by
  cases h : x s with
  | ok a t =>
    rw [stateAfter_of_ok h] at hx
    rw [stateAfter_bind_of_ok h]
    exact trans hx (hf a t h)
  | error e t =>
    rw [stateAfter_of_error h] at hx
    rw [stateAfter_of_error (bind_of_error h)]
    exact hx

/-! ## Answers without a state -/

theorem except_bind_eq_ok_iff {x : Except ε α} {f : α → Except ε β} {b : β} :
    x >>= f = .ok b ↔ ∃ a, x = .ok a ∧ f a = .ok b := by
  cases x with
  | error e =>
    constructor
    · intro h
      cases h
    · rintro ⟨a, heq, -⟩
      cases heq
  | ok a =>
    constructor
    · intro h
      exact ⟨a, rfl, h⟩
    · rintro ⟨_, heq, h⟩
      cases heq
      exact h

theorem except_map_eq_ok_iff {f : α → β} {x : Except ε α} {b : β} :
    f <$> x = .ok b ↔ ∃ a, x = .ok a ∧ f a = b := by
  cases x with
  | error e =>
    constructor
    · intro h
      cases h
    · rintro ⟨a, heq, -⟩
      cases heq
  | ok a =>
    constructor
    · intro h
      exact ⟨a, rfl, Except.ok.inj h⟩
    · rintro ⟨_, heq, rfl⟩
      cases heq
      rfl

/-- What is answered about a list is answered about its elements. -/
theorem exists_of_mapM_eq_ok {f : α → Except ε β} :
    ∀ {as : List α} {bs : List β}, as.mapM f = .ok bs → ∀ b ∈ bs, ∃ a ∈ as, f a = .ok b
  | [], bs, h, b, hb => by
    cases h
    cases hb
  | a :: as, bs, h, b, hb => by
    rw [List.mapM_cons] at h
    obtain ⟨first, hfirst, h⟩ := except_bind_eq_ok_iff.mp h
    obtain ⟨rest, hrest, h⟩ := except_bind_eq_ok_iff.mp h
    cases h
    rcases List.mem_cons.mp hb with rfl | hb
    · exact ⟨a, List.mem_cons_self, hfirst⟩
    · obtain ⟨a', ha', hb'⟩ := exists_of_mapM_eq_ok hrest b hb
      exact ⟨a', List.mem_cons_of_mem a ha', hb'⟩

end ShapeGrammar
