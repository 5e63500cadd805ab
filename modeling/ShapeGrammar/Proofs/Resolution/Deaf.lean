import ShapeGrammar.Proofs.Resolution.Law
import ShapeGrammar.Proofs.Resolution.Growth

/-!
# Resolution does not hear what was reported

Whatever was reported before, a resolution has the same answer, stops at the same fault, and finds
out the same about the grammar; only the reports that it leaves behind are others.

Headlines: `SameButReports`, `Resolution.Deaf`, `resolver_deaf`.
-/

namespace ShapeGrammar

/-- Two ends of a resolution that are the same, but for the reports. -/
inductive SameButReports {α : Type} : EStateM.Result Stop Grammar α →
    EStateM.Result Stop Grammar α → Prop
  | ok (a : α) (g : Grammar) (rs : Array Report) :
    SameButReports (.ok a g) (.ok a (g.withReports rs))
  | error (e : Stop) (g : Grammar) (rs : Array Report) :
    SameButReports (.error e g) (.error e (g.withReports rs))

namespace Resolution

variable {α β : Type}

/-- A resolution that does the same whatever was reported. -/
def Deaf (x : Resolution α) : Prop :=
  ∀ g rs, SameButReports (x g) (x (g.withReports rs))

theorem deaf_bind {x : Resolution α} {f : α → Resolution β} (hx : x.Deaf)
    (hf : ∀ a, (f a).Deaf) : Deaf (x >>= f) := by
  intro g rs
  have hends := hx g rs
  generalize hxg : x g = r at hends
  generalize hxg' : x (g.withReports rs) = r' at hends
  cases hends with
  | ok a g1 rs' =>
    rw [bind_of_ok hxg, bind_of_ok hxg']
    exact hf a g1 rs'
  | error e g1 rs' =>
    rw [bind_of_error hxg, bind_of_error hxg']
    exact .error e g1 rs'

theorem deaf_report {x : Grammar → Report} (hx : ∀ (g : Grammar) rs, x (g.withReports rs) = x g) :
    Deaf (modify fun g => g.report (x g) : Resolution Unit) := by
  intro g rs
  show SameButReports (.ok () (g.report (x g)))
    (.ok () ((g.withReports rs).report (x (g.withReports rs))))
  rw [hx]
  unfold Grammar.report
  show SameButReports _ (.ok () (if (x g).level.heardFrom g.threshold then _ else _))
  split
  · exact .ok () { g with reports := g.reports.push (x g) } (rs.push (x g))
  · exact .ok () g rs

theorem deaf_guarded (key : Pending) (fault : List Pending → Fault) {x : Resolution α}
    (hx : x.Deaf) : (guarded key fault x).Deaf := by
  intro g rs
  have hpending : (g.withReports rs).pending = g.pending := rfl
  unfold guarded
  rw [hpending]
  split
  · exact .error _ g rs
  · have hends := hx { g with pending := key :: g.pending } rs
    generalize x { g with pending := key :: g.pending } = r at hends ⊢
    generalize hr' : x (({ g with pending := key :: g.pending } : Grammar).withReports rs) = r'
      at hends
    have hr : x { g.withReports rs with pending := key :: g.pending } = r' := hr'
    rw [hr]
    cases hends with
    | ok a g1 rs' => exact .ok a { g1 with pending := g1.pending.tail } rs'
    | error e g1 rs' => exact .error e { g1 with pending := g1.pending.tail } rs'

theorem deaf_mapSchemaFault {f : Grammar → SchemaFault → SchemaFault}
    (hf : ∀ (g : Grammar) rs, f (g.withReports rs) = f g) {x : Resolution α} (hx : x.Deaf) :
    (mapSchemaFault f x).Deaf := by
  intro g rs
  have hends := hx g rs
  unfold mapSchemaFault
  generalize x g = r at hends ⊢
  generalize x (g.withReports rs) = r' at hends ⊢
  cases hends with
  | ok a g1 rs' => exact .ok a g1 rs'
  | error e g1 rs' =>
    cases e with
    | outOfFuel => exact .error _ g1 rs'
    | fault cause =>
      cases cause with
      | schema cause =>
        dsimp only
        rw [hf]
        exact .error _ g1 rs'
      | _ => exact .error _ g1 rs'

theorem deaf_remember (f : Finding α) {x : Resolution α} (hx : x.Deaf) : (remember f x).Deaf := by
  intro g rs
  have hknown : f.known? (g.withReports rs) = f.known? g := by cases f <;> rfl
  cases hf : f.known? g with
  | some a =>
    rw [remember_of_known hf, remember_of_known (hknown.trans hf)]
    exact .ok a g rs
  | none =>
    rw [remember_of_unknown hf, remember_of_unknown (hknown.trans hf)]
    have hkeep : ∀ a, Deaf ((modify fun g => f.keep g a) >>= fun _ => pure a) := by
      intro a g rs
      have hkept : f.keep (g.withReports rs) a = (f.keep g a).withReports rs := by cases f <;> rfl
      show SameButReports (.ok a (f.keep g a)) (.ok a (f.keep (g.withReports rs) a))
      rw [hkept]
      exact .ok a _ rs
    exact deaf_bind hx hkeep g rs

/-- **Deafness is a law of resolution.** -/
theorem deaf_law : ResolutionLaw Deaf where
  pure a g rs := .ok a g rs
  stop _ g rs := .error _ g rs
  bind := deaf_bind
  read := by
    intro α k hk hsame g rs
    show SameButReports (k g g) (k (g.withReports rs) (g.withReports rs))
    rw [hsame]
    exact hk g g rs
  newHandle body g rs := .ok _ { g with made := _ } rs
  newBox body g rs := .ok _ { g with boxes := _ } rs
  report := deaf_report
  guarded key _ _ _ hx := deaf_guarded key _ hx
  mapSchemaFault hf hx := deaf_mapSchemaFault hf hx
  remember f _ hx _ := deaf_remember f hx

end Resolution

theorem resolver_deaf (n : Nat) : (resolver n).Obeys Resolution.Deaf :=
  Resolution.deaf_law.resolver n

end ShapeGrammar
