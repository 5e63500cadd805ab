import ShapeGrammar.Proofs.Resolution.Growth

/-!
# What is being found out

While something is being found out it stays open: the plan of a class does not become known before
the class is planned, and of a delayed parser neither what it is nor its error kind. To come back to
it is refused, and there is no other way for it to become known. Hence nothing that was found out
meanwhile has to give way when the answer is kept.

Headlines: `Pending.Undecided`, `Pending.Untouched`, `Resolution.Leaves`, `marks_law`,
`makePlan_open`.
-/

namespace ShapeGrammar

open Resolution

/-- What is being found out under a mark is not known yet. -/
def Pending.Undecided (g : Grammar) : Pending → Prop
  | .cls c => (g.classInfo c).plan = none
  | .box b => b < g.boxes.size ∧ (g.boxInfo b).errorKind = none

/-- Of what is being found out under a mark, two grammars know the same. -/
def Pending.Untouched (g g' : Grammar) : Pending → Prop
  | .cls c => (g'.classInfo c).plan = (g.classInfo c).plan
  | .box b => (g'.boxInfo b).parser = (g.boxInfo b).parser ∧
    (g'.boxInfo b).errorKind = (g.boxInfo b).errorKind

namespace Pending

variable {g g' g'' : Grammar} {key : Pending}

theorem Untouched.refl (g : Grammar) (key : Pending) : key.Untouched g g := by
  cases key with
  | cls c => rfl
  | box b => exact ⟨rfl, rfl⟩

theorem untouched_of_eq (classes : g'.classes = g.classes) (boxes : g'.boxes = g.boxes) :
    key.Untouched g g' := by
  cases key with
  | cls c => exact congrArg (fun cs : Array ClassInfo => (cs.getD c default).plan) classes
  | box b =>
    exact ⟨congrArg (fun bs : Array BoxInfo => (bs.getD b default).parser) boxes,
      congrArg (fun bs : Array BoxInfo => (bs.getD b default).errorKind) boxes⟩

theorem Untouched.trans (h : key.Untouched g g') (h' : key.Untouched g' g'') :
    key.Untouched g g'' := by
  cases key with
  | cls c => exact Eq.trans h' h
  | box b => exact ⟨h'.1.trans h.1, h'.2.trans h.2⟩

theorem Undecided.untouched (h : key.Undecided g) (same : key.Untouched g g')
    (later : g.Precedes g') : key.Undecided g' := by
  cases key with
  | cls c => exact Eq.trans same h
  | box b => exact ⟨Nat.lt_of_lt_of_le h.1 later.boxCount, same.2.trans h.2⟩

end Pending

namespace Resolution

variable {α β : Type} {key : Pending}

/-- A computation under a mark leaves alone what is being found out there. -/
structure Leaves (key : Pending) (x : Resolution α) : Prop where
  grows : x.Grows
  same : ∀ {g : Grammar}, key ∈ g.pending → key.Undecided g → key.Untouched g (stateAfter x g)

theorem Leaves.of_ok {x : Resolution α} (hx : Leaves key x) {g g' : Grammar} {a : α}
    (hmark : key ∈ g.pending) (hopen : key.Undecided g) (h : x g = .ok a g') :
    key.Untouched g g' := by
  have hsame := hx.same hmark hopen
  rwa [stateAfter_of_ok h] at hsame

theorem leaves_bind {x : Resolution α} {f : α → Resolution β} (hx : Leaves key x)
    (hf : ∀ a, Leaves key (f a)) : Leaves key (x >>= f) := by
  refine ⟨grows_law.bind hx.grows fun a => (hf a).grows, fun {g} hmark hopen => ?_⟩
  have hsame := hx.same hmark hopen
  have hgrow := hx.grows g
  cases h : x g with
  | ok a g' =>
    rw [stateAfter_of_ok h] at hsame hgrow
    rw [stateAfter_bind_of_ok h]
    exact hsame.trans ((hf a).same (hgrow.pending ▸ hmark) (hopen.untouched hsame hgrow))
  | error e g' =>
    rw [stateAfter_of_error h] at hsame
    rw [stateAfter_of_error (bind_of_error h)]
    exact hsame

theorem leaves_newBox (body : Delayed) : Leaves key (newBox body) := by
  refine ⟨grows_law.newBox body, fun {g} _ hopen => ?_⟩
  cases key with
  | cls c => rfl
  | box b =>
    exact ⟨congrArg BoxInfo.parser (Grammar.boxInfo_push_of_lt g _ hopen.1),
      congrArg BoxInfo.errorKind (Grammar.boxInfo_push_of_lt g _ hopen.1)⟩

theorem leaves_guarded (key' : Pending) (fault : List Pending → Fault) {x : Resolution α}
    (hx : Leaves key x) : Leaves key (guarded key' fault x) := by
  refine ⟨grows_guarded key' fault hx.grows, fun {g} hmark hopen => ?_⟩
  by_cases h : key' ∈ g.pending
  · rw [stateAfter_of_error (guarded_of_mem h fault x)]
    exact .refl g key
  · have hsame := hx.same (g := { g with pending := key' :: g.pending })
      (List.mem_cons_of_mem key' hmark) (by cases key <;> exact hopen)
    rw [stateAfter_guarded h]
    cases key <;> exact hsame

/-- To come back to what is being found out stops. -/
theorem leaves_guarded_self (fault : List Pending → Fault) {x : Resolution α} (hx : x.Grows) :
    Leaves key (guarded key fault x) := by
  refine ⟨grows_guarded key fault hx, fun {g} hmark _ => ?_⟩
  rw [stateAfter_of_error (guarded_of_mem hmark fault x)]
  exact .refl g key

theorem stateAfter_remember_of_known {f : Finding α} {g : Grammar} {a : α}
    (h : f.known? g = some a) (x : Resolution α) : stateAfter (remember f x) g = g :=
  stateAfter_of_ok (remember_of_known h x)

/-- Where something is kept that is not the thing under the mark, or where nothing comes to be kept,
the thing under the mark is left alone. -/
theorem leaves_remember (f : Finding α) {x : Resolution α} (hx : Leaves key x)
    (hadmits : ∀ {g a g'}, x g = .ok a g' → f.Admits a)
    (hother : ∀ {g a g'}, key ∈ g.pending → x g = .ok a g' → key.Untouched g' (f.keep g' a)) :
    Leaves key (remember f x) := by
  refine ⟨grows_remember f hx.grows hadmits, fun {g} hmark hopen => ?_⟩
  cases hf : f.known? g with
  | some a =>
    rw [stateAfter_remember_of_known hf]
    exact .refl g key
  | none =>
    have hsame := hx.same hmark hopen
    unfold stateAfter
    rw [remember_of_unknown hf]
    cases h : x g with
    | ok a g' =>
      rw [stateAfter_of_ok h] at hsame
      rw [bind_of_ok h]
      exact hsame.trans (hother hmark h)
    | error e g' =>
      rw [stateAfter_of_error h] at hsame
      rw [bind_of_error h]
      exact hsame

/-- **Whatever is found out under a mark leaves alone what the mark stands for**, as far as single
steps go. -/
theorem marks_steps (key : Pending) : StepLaw (Leaves key) where
  pure a := ⟨grows_law.pure a, fun {g} _ _ => .refl g key⟩
  stop he := ⟨grows_law.stop he, fun {g} _ _ => .refl g key⟩
  bind := leaves_bind
  read hk hsame := ⟨grows_law.read (fun g => (hk g).grows) hsame, fun {g} => (hk g).same⟩
  newHandle body := ⟨grows_law.newHandle body, fun _ _ => Pending.untouched_of_eq rfl rfl⟩
  newBox := leaves_newBox
  report {x} hx := by
    refine ⟨grows_law.report hx, fun {g} _ _ => ?_⟩
    show key.Untouched g (g.report (x g))
    unfold Grammar.report
    split
    · exact Pending.untouched_of_eq rfl rfl
    · exact .refl g key
  guarded key _ _ _ hx := leaves_guarded key _ hx
  mapSchemaFault {_ f x} hf hx := by
    refine ⟨grows_law.mapSchemaFault hf hx.grows, fun {g} hmark hopen => ?_⟩
    rw [stateAfter_mapSchemaFault]
    exact hx.same hmark hopen

variable {n : Nat}

/-- A class that is being planned is not planned again. -/
theorem makePlan_of_mem {r : Resolver} {c : ClassId} {g g' : Grammar} {plan : Plan Parser}
    (h : Pending.cls c ∈ g.pending) : makePlan r c g ≠ .ok plan g' := by
  intro hx
  unfold makePlan at hx
  replace hx := get_bind_eq_ok_iff.mp hx
  split at hx
  · cases hx
  · obtain ⟨plan', g2, hplan, -⟩ := bind_eq_ok_iff.mp hx
    rw [guarded_of_mem h] at hplan
    cases hplan

theorem leaves_findPlan (c : ClassId) (hr : (resolver n).Answers (Leaves key)) :
    Leaves key (findPlan (resolver n) c) := by
  refine leaves_remember (.plan c) ((marks_steps key).makePlan hr c) makePlan_ordered
    fun {g a g'} hmark hx => ?_
  cases key with
  | box b => exact ⟨rfl, rfl⟩
  | cls d =>
    by_cases hcd : c = d
    · subst hcd
      exact absurd hx (makePlan_of_mem hmark)
    · show (((Finding.plan c).keep g' a).classInfo d).plan = _
      simp only [Finding.keep, Grammar.classInfo_updateClass, hcd, false_and, if_false]

/-- To open one delayed parser leaves another one alone. -/
theorem leaves_openBox {b : BoxId} (hne : key ≠ .box b)
    (hr : (resolver n).Answers (Leaves key)) : Leaves key (openBox (resolver n) b) := by
  refine leaves_remember (.box b) ((marks_steps key).resolveBox hr b) (fun _ => trivial)
    fun {g a g'} _ _ => ?_
  cases key with
  | cls c => rfl
  | box d =>
    have hbd : b ≠ d := fun h => hne (h ▸ rfl)
    have hsame : ((Finding.box b).keep g' a).boxInfo d = g'.boxInfo d := by
      simp only [Finding.keep, Grammar.boxInfo_updateBox, hbd, false_and, if_false]
    exact ⟨congrArg BoxInfo.parser hsame, congrArg BoxInfo.errorKind hsame⟩

theorem leaves_findBoxErrorKind (b : BoxId) (hr : (resolver n).Answers (Leaves key)) :
    Leaves key (findBoxErrorKind (resolver n) b) := by
  by_cases hkey : key = .box b
  · subst hkey
    refine leaves_remember (.kind b) (leaves_guarded_self _ ?_) (fun _ => trivial)
      fun {g a g'} hmark hx => ?_
    · exact grows_law.bind (grows_law.openBox (resolver_grows n).toAnswers b) fun p =>
        grows_law.errorKindOf (resolver_grows n).toAnswers p
    · rw [guarded_of_mem hmark] at hx
      cases hx
  · refine leaves_remember (.kind b) (leaves_guarded _ _ (leaves_bind (leaves_openBox hkey hr)
      fun p => (marks_steps key).errorKindOf hr p)) (fun _ => trivial) fun {g a g'} _ _ => ?_
    cases key with
    | cls c => rfl
    | box d =>
      have hbd : b ≠ d := fun h => hkey (h ▸ rfl)
      have hsame : ((Finding.kind b).keep g' a).boxInfo d = g'.boxInfo d := by
        simp only [Finding.keep, Grammar.boxInfo_updateBox, hbd, false_and, if_false]
      exact ⟨congrArg BoxInfo.parser hsame, congrArg BoxInfo.errorKind hsame⟩

/-- **What is being found out stays open** until it is found. -/
theorem marks_law (key : Pending) : QuestionLaw (Leaves key) where
  toStepLaw := marks_steps key
  plan c hr := leaves_findPlan c hr
  value a _ hx := leaves_remember (.value a) hx (fun _ => trivial) fun _ _ =>
    Pending.untouched_of_eq rfl rfl
  handle a _ hx := leaves_remember (.handle a) hx (fun _ => trivial) fun _ _ =>
    Pending.untouched_of_eq rfl rfl
  kind b hr := leaves_findBoxErrorKind b hr

/-- While a class is planned its plan does not become known. -/
theorem makePlan_open {c : ClassId} {g g' : Grammar} {plan : Plan Parser}
    (hopen : (g.classInfo c).plan = none) (h : makePlan (resolver n) c g = .ok plan g') :
    (g'.classInfo c).plan = none := by
  obtain ⟨-, schema, g1, report, -, hplan, rfl⟩ := makePlan_eq_ok h
  have hsame : (g1.classInfo c).plan = (g.classInfo c).plan :=
    ((marks_steps (.cls c)).planSchema ((marks_law (.cls c)).answers n) schema).of_ok
      (g := { g with pending := .cls c :: g.pending }) List.mem_cons_self hopen hplan
  unfold Grammar.report
  split <;> exact hsame.trans hopen

end Resolution

end ShapeGrammar
