import ShapeGrammar.Proofs.Resolution.Growth

/-!
# Resolution does not stop for what was consumed

Whatever resolution stops at, it is not that a repetition consumes nothing: to find out what a
parser is runs no parser.

Headlines: `Resolution.Ordinary`, `resolver_ordinary`.
-/

namespace ShapeGrammar

namespace Resolution

variable {α β : Type}

/-- A resolution that stops, if at all, for a reason that has nothing to do with repetitions. -/
def Ordinary (x : Resolution α) : Prop :=
  ∀ {g e g'}, x g = .error e g' → e.Ordinary

theorem ordinary_bind {x : Resolution α} {f : α → Resolution β} (hx : x.Ordinary)
    (hf : ∀ a, (f a).Ordinary) : Ordinary (x >>= f) := by
  intro g e g' h
  cases hxg : x g with
  | ok a g1 =>
    rw [bind_of_ok hxg] at h
    exact hf a h
  | error e1 g1 =>
    rw [bind_of_error hxg] at h
    cases h
    exact hx hxg

theorem ordinary_guarded (key : Pending) {fault : List Pending → Fault}
    (hfault : ∀ chain, (fault chain).Ordinary) {x : Resolution α} (hx : x.Ordinary) :
    (guarded key fault x).Ordinary := by
  intro g e g' h
  unfold guarded at h
  split at h
  · cases h
    exact hfault _
  · split at h
    · cases h
    · rename_i hxg
      cases h
      exact hx hxg

theorem ordinary_mapSchemaFault (f : Grammar → SchemaFault → SchemaFault) {x : Resolution α}
    (hx : x.Ordinary) : (mapSchemaFault f x).Ordinary := by
  intro g e g' h
  unfold mapSchemaFault at h
  split at h
  · cases h
    trivial
  · exact hx h

theorem ordinary_remember (f : Finding α) {x : Resolution α} (hx : x.Ordinary) :
    (remember f x).Ordinary := by
  intro g e g' h
  cases hf : f.known? g with
  | some a =>
    rw [remember_of_known hf] at h
    cases h
  | none =>
    rw [remember_of_unknown hf] at h
    exact ordinary_bind hx (fun a _ _ _ hkeep => by cases hkeep) h

/-- **To stop for such reasons only is a law of resolution.** -/
theorem ordinary_law : ResolutionLaw Ordinary where
  pure _ _ _ _ h := by cases h
  stop he _ _ _ h := by
    cases h
    exact he
  bind := ordinary_bind
  read hk _ g _ _ h := hk g h
  newHandle _ _ _ _ h := by cases h
  newBox _ _ _ _ h := by cases h
  report _ _ _ _ h := by cases h
  guarded key _ _ hfault hx := ordinary_guarded key hfault hx
  mapSchemaFault _ hx := ordinary_mapSchemaFault _ hx
  remember f _ hx _ := ordinary_remember f hx

end Resolution

theorem resolver_ordinary (n : Nat) : (resolver n).Obeys Resolution.Ordinary :=
  Resolution.ordinary_law.resolver n

end ShapeGrammar
