import ShapeGrammar.Proofs.Resolution.Law

/-!
# Resolution only finds out more

Whatever a resolution does, and whichever way it ends, the grammar that it leaves behind is a later
state of the one it began with. A delayed parser that was opened, and a class that was planned, is
known from then on.

Headlines: `Resolution.Grows`, `resolver_grows`, `openBox_known`, `findPlan_known`,
`findBoxErrorKind_known`.
-/

namespace ShapeGrammar

namespace Resolution

variable {α : Type}

/-- A resolution leaves a later state of the grammar behind. -/
def Grows (x : Resolution α) : Prop :=
  ∀ g : Grammar, g.Precedes (stateAfter x g)

theorem grows_modify {f : Grammar → Grammar} (h : ∀ g : Grammar, g.Precedes (f g)) :
    Grows (modify f : Resolution Unit) := h

/-- Under a mark, a computation does what it does without, and the mark is taken off again. -/
theorem stateAfter_guarded {key : Pending} {g : Grammar} (h : key ∉ g.pending)
    (fault : List Pending → Fault) (x : Resolution α) :
    stateAfter (guarded key fault x) g =
      { stateAfter x { g with pending := key :: g.pending } with
        pending := (stateAfter x { g with pending := key :: g.pending }).pending.tail } := by
  unfold guarded stateAfter
  simp only [List.contains_iff_mem, h, if_false]
  cases x { g with pending := key :: g.pending } <;> rfl

/-- To come back to a mark stops at once. -/
theorem guarded_of_mem {key : Pending} {g : Grammar} (h : key ∈ g.pending)
    (fault : List Pending → Fault) (x : Resolution α) :
    guarded key fault x g = .error (.fault (fault ((key :: g.pending).reverse))) g := by
  unfold guarded
  simp only [List.contains_iff_mem, h, if_true]

theorem grows_guarded (key : Pending) (fault : List Pending → Fault) {x : Resolution α}
    (hx : x.Grows) : (guarded key fault x).Grows := by
  intro g
  by_cases h : key ∈ g.pending
  · rw [stateAfter_of_error (guarded_of_mem h fault x)]
    exact .refl g
  · rw [stateAfter_guarded h]
    exact (hx _).guarded

/-- To pass faults on in other words changes nothing of the grammar. -/
theorem stateAfter_mapSchemaFault (f : Grammar → SchemaFault → SchemaFault) (x : Resolution α)
    (g : Grammar) : stateAfter (mapSchemaFault f x) g = stateAfter x g := by
  unfold mapSchemaFault stateAfter
  cases h : x g with
  | ok a g' => simp only [h]
  | error e g' =>
    cases e with
    | outOfFuel => simp only [h]
    | fault cause => cases cause <;> simp only [h]

theorem grows_mapSchemaFault (f : Grammar → SchemaFault → SchemaFault) {x : Resolution α}
    (hx : x.Grows) : (mapSchemaFault f x).Grows := by
  intro g
  rw [stateAfter_mapSchemaFault]
  exact hx g

theorem get_ok (g : Grammar) : (get : Resolution Grammar) g = .ok g g :=
  rfl

/-- What `remember` does where nothing is known. -/
theorem remember_of_unknown {f : Finding α} {g : Grammar} (h : f.known? g = none)
    (x : Resolution α) :
    remember f x g = (x >>= fun a => (modify fun g => f.keep g a) >>= fun _ => pure a) g := by
  unfold remember
  rw [bind_of_ok (get_ok g), h]

/-- What `remember` does where something is known. -/
theorem remember_of_known {f : Finding α} {g : Grammar} {a : α} (h : f.known? g = some a)
    (x : Resolution α) : remember f x g = .ok a g := by
  unfold remember
  rw [bind_of_ok (get_ok g), h]
  rfl

theorem grows_remember (f : Finding α) {x : Resolution α} (hx : x.Grows)
    (hadmits : ∀ {g a g'}, x g = .ok a g' → f.Admits a) : (remember f x).Grows := by
  intro g
  cases hf : f.known? g with
  | some a =>
    rw [stateAfter_of_ok (remember_of_known hf x)]
    exact .refl g
  | none =>
    have hg := hx g
    unfold stateAfter
    rw [remember_of_unknown hf]
    cases h : x g with
    | ok a g' =>
      rw [stateAfter_of_ok h] at hg
      rw [bind_of_ok h]
      exact hg.keep hf (hadmits h)
    | error e g' =>
      rw [stateAfter_of_error h] at hg
      rw [bind_of_error h]
      exact hg

/-- **Growth is a law of resolution.** -/
theorem grows_law : ResolutionLaw Grows where
  pure _ g := .refl g
  stop _ g := .refl g
  bind hx hf g :=
    stateAfter_bind_rel (R := Grammar.Precedes) .trans (hx g) fun a g1 _ => hf a g1
  read hk _ g := hk g g
  newHandle _ g := .made g _
  newBox _ g := .pushBox g _
  report _ := grows_modify fun g => .report g _
  guarded key _ _ _ hx := grows_guarded key _ hx
  mapSchemaFault _ hx := grows_mapSchemaFault _ hx
  remember f _ hx hadmits := grows_remember f hx hadmits

/-- What was remembered is known afterwards, if there is a place to keep it. -/
theorem known_of_remember {f : Finding α} {x : Resolution α} {g g' : Grammar} {a : α}
    (hplace : ∀ {g1}, x g = .ok a g1 → f.known? (f.keep g1 a) = some a)
    (h : remember f x g = .ok a g') : f.known? g' = some a := by
  cases hf : f.known? g with
  | some b =>
    rw [remember_of_known hf] at h
    cases h
    exact hf
  | none =>
    rw [remember_of_unknown hf] at h
    obtain ⟨b, g1, hx, h⟩ := bind_eq_ok_iff.mp h
    obtain ⟨u, g2, hkeep, h⟩ := bind_eq_ok_iff.mp h
    cases hkeep
    cases h
    exact hplace hx

end Resolution

open Resolution

theorem resolver_grows (n : Nat) : (resolver n).Obeys Grows :=
  grows_law.resolver n

theorem ok_precedes {α : Type} {x : Resolution α} (hx : x.Grows) {g g' : Grammar} {a : α}
    (h : x g = .ok a g') : g.Precedes g' := by
  have hg := hx g
  rwa [stateAfter_of_ok h] at hg

/-- What is opened is a delayed parser, and it is opened by its body. -/
theorem resolveBox_eq_ok {r : Resolver} {b : BoxId} {p : Parser} {g g' : Grammar}
    (h : resolveBox r b g = .ok p g') :
    b < g.boxes.size ∧ delayedBody r (g.boxInfo b).body g = .ok p g' := by
  unfold resolveBox at h
  replace h := get_bind_eq_ok_iff.mp h
  split at h
  · cases h
  · rename_i hsize
    exact ⟨Nat.lt_of_not_le hsize, h⟩

/-- A delayed parser that was opened is known to be what it was found to be. -/
theorem openBox_known {n : Nat} {b : BoxId} {p : Parser} {g g' : Grammar}
    (h : openBox (resolver n) b g = .ok p g') : (g'.boxInfo b).parser = some p := by
  refine known_of_remember (f := .box b) (fun {g1} hx => ?_) h
  have hgrow := ok_precedes (grows_law.resolveBox (resolver_grows n).toAnswers b) hx
  have hlt := Nat.lt_of_lt_of_le (resolveBox_eq_ok hx).1 hgrow.boxCount
  simp only [Finding.known?, Finding.keep, Grammar.boxInfo_updateBox, hlt, true_and, if_true]

/-- A delayed parser whose error kind was found is known to have it. -/
theorem findBoxErrorKind_known {n : Nat} {b : BoxId} {kind : Option FailureKind} {g g' : Grammar}
    (h : findBoxErrorKind (resolver n) b g = .ok kind g') :
    (g'.boxInfo b).errorKind = some kind := by
  refine known_of_remember (f := .kind b) (fun {g1} hx => ?_) h
  obtain ⟨g2, hbody, rfl⟩ := guarded_eq_ok hx
  obtain ⟨p, g3, hp, hkind⟩ := bind_eq_ok_iff.mp hbody
  have hlt : b < g3.boxes.size := by
    refine Nat.lt_of_not_le fun hle => ?_
    have hknown := openBox_known hp
    rw [Grammar.boxInfo_of_size_le g3 hle] at hknown
    cases hknown
  have hgrow := ok_precedes (grows_law.errorKindOf (resolver_grows n).toAnswers p) hkind
  have hlt' : b < g2.boxes.size := Nat.lt_of_lt_of_le hlt hgrow.boxCount
  simp only [Finding.known?, Finding.keep, Grammar.boxInfo_updateBox, hlt', true_and, if_true]

/-- A class that was planned is known to have the plan that was found. -/
theorem findPlan_known {n : Nat} {c : ClassId} {plan : Plan Parser} {g g' : Grammar}
    (h : findPlan (resolver n) c g = .ok plan g') : (g'.classInfo c).plan = some plan := by
  refine known_of_remember (f := .plan c) (fun {g1} hx => ?_) h
  have hgrow : g.Precedes g1 :=
    ok_precedes (grows_law.makePlan (resolver_grows n).toAnswers c) hx
  have hlt := (makePlan_eq_ok hx).1
  rw [← hgrow.classCount] at hlt
  simp only [Finding.known?, Finding.keep, Grammar.classInfo_updateClass, hlt, true_and, if_true]

end ShapeGrammar
