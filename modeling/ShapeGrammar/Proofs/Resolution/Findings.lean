import ShapeGrammar.Proofs.Resolution.Again
import ShapeGrammar.Proofs.Resolution.Keeps
import ShapeGrammar.Proofs.Resolution.Marks

/-!
# Invariants that findings keep

A plan is kept for a class that has none, an answer for a delayed parser that has none: a mark keeps
open what is being found out, so no answer displaces another one. An invariant that such answers do
not break is kept by every question that resolution asks by itself.

Headlines: `FindingLaw`, `FindingLaw.findPlan`, `FindingLaw.findBoxErrorKind`,
`FindingLaw.questions`.
-/

namespace ShapeGrammar

open Resolution

/-- What a plan that was not known is kept as changes nothing that is known. -/
theorem retains_keep_plan {g : Grammar} {c : ClassId} (hopen : (g.classInfo c).plan = none)
    (plan : Plan Parser) : g.Retains ((Finding.plan c).keep g plan) := by
  refine ⟨fun {d plan'} hd => ?_, id, id⟩
  have hcd : c ≠ d := by
    rintro rfl
    cases hopen.symm.trans hd
  show (((Finding.plan c).keep g plan).classInfo d).plan = _
  simpa only [Finding.keep, Grammar.classInfo_updateClass, hcd, false_and, if_false] using hd

theorem retains_keep_box {g : Grammar} {b : BoxId} (hopen : (g.boxInfo b).parser = none)
    (p : Parser) : g.Retains ((Finding.box b).keep g p) := by
  refine ⟨id, fun {d q} hd => ?_, fun {d kind} hd => ?_⟩
  · have hbd : b ≠ d := by
      rintro rfl
      cases hopen.symm.trans hd
    simpa only [Finding.keep, Grammar.boxInfo_updateBox, hbd, false_and, if_false] using hd
  · simp only [Finding.keep, Grammar.boxInfo_updateBox]
    split <;> exact hd

theorem retains_keep_kind {g : Grammar} {b : BoxId} (hopen : (g.boxInfo b).errorKind = none)
    (kind : Option FailureKind) : g.Retains ((Finding.kind b).keep g kind) := by
  refine ⟨id, fun {d q} hd => ?_, fun {d kind'} hd => ?_⟩
  · simp only [Finding.keep, Grammar.boxInfo_updateBox]
    split <;> exact hd
  · have hbd : b ≠ d := by
      rintro rfl
      cases hopen.symm.trans hd
    simpa only [Finding.keep, Grammar.boxInfo_updateBox, hbd, false_and, if_false] using hd

/-- A delayed parser that is opened under its mark does not get its error kind thereby. -/
theorem openBox_open {n : Nat} {b : BoxId} {p : Parser} {g g' : Grammar}
    (hmark : .box b ∈ g.pending) (hkind : (g.boxInfo b).errorKind = none)
    (h : openBox (resolver n) b g = .ok p g') :
    (g'.boxInfo b).errorKind = none := by
  unfold openBox at h
  cases hp : (g.boxInfo b).parser with
  | some q =>
    rw [remember_of_known (f := .box b) hp] at h
    cases h
    exact hkind
  | none =>
    rw [remember_of_unknown (f := .box b) hp] at h
    obtain ⟨q, g1, hq, h⟩ := bind_eq_ok_iff.mp h
    obtain ⟨⟨⟩, g2, hkeep, h⟩ := bind_eq_ok_iff.mp h
    cases hkeep
    cases h
    have hsame := ((marks_steps (.box b)).resolveBox ((marks_law (.box b)).answers n) b).of_ok
      hmark ⟨(resolveBox_eq_ok hq).1, hkind⟩ hq
    simp only [Finding.keep, Grammar.boxInfo_updateBox]
    split <;> exact hsame.2.trans hkind

/-- An invariant that single steps keep, and that stays when an answer is kept where there was none:
the plan of a class as it was made, and the error kind of a delayed parser as the parser announces
it that the delayed parser was found to be. -/
structure FindingLaw (Inv : Grammar → Prop) : Prop where
  made {g : Grammar} (n : Nat) : Inv g → Inv { g with made := n }
  pending {g : Grammar} (keys : List Pending) : Inv g → Inv { g with pending := keys }
  reports {g : Grammar} (rs : Array Report) : Inv g → Inv (g.withReports rs)
  newBox {g : Grammar} (body : Delayed) : Inv g → Inv (stateAfter (newBox body) g)
  plan {n : Nat} {c : ClassId} {plan : Plan Parser} {g g' : Grammar} :
    makePlan (resolver n) c g = .ok plan g' → (g'.classInfo c).plan = none → Inv g' →
      Inv ((Finding.plan c).keep g' plan)
  value {g : Grammar} (a : AliasId) (body : Shape) : Inv g → Inv ((Finding.value a).keep g body)
  handle {g : Grammar} (a : AliasId) (h : Handle) : Inv g → Inv ((Finding.handle a).keep g h)
  box {g : Grammar} {b : BoxId} (p : Parser) : (g.boxInfo b).parser = none → Inv g →
    Inv ((Finding.box b).keep g p)
  kind {g : Grammar} {b : BoxId} {p : Parser} {kind : Option FailureKind} :
    (g.boxInfo b).errorKind = none → (g.boxInfo b).parser = some p → g.Announces p kind → Inv g →
      Inv ((Finding.kind b).keep g kind)

namespace FindingLaw

variable {Inv : Grammar → Prop} (L : FindingLaw Inv) {n : Nat}
include L

theorem steps : StepLaw (Keeps Inv) :=
  keeps_steps L.made L.pending L.reports L.newBox

theorem findPlan (c : ClassId) (hr : (resolver n).Answers (Keeps Inv)) :
    Keeps Inv (findPlan (resolver n) c) := fun g hg =>
  keeps_remember (.plan c) hg (L.steps.makePlan hr c g hg) fun hopen h hg' =>
    L.plan h (makePlan_open hopen h) hg'

/-- Under the mark of a delayed parser whose error kind is not known, the delayed parser is opened
once. -/
theorem openBox {b : BoxId} (hr : (resolver n).Answers (Keeps Inv)) {g : Grammar} (hg : Inv g)
    (hmark : .box b ∈ g.pending) (hkind : (g.boxInfo b).errorKind = none) :
    Inv (stateAfter (openBox (resolver n) b) g) :=
  keeps_remember (.box b) hg (L.steps.resolveBox hr b g hg) fun {p g'} hopen h hg' => by
    have hlt := (resolveBox_eq_ok h).1
    have hsame := ((marks_steps (.box b)).resolveBox ((marks_law (.box b)).answers n) b).of_ok
      hmark ⟨hlt, hkind⟩ h
    exact L.box p (hsame.1.trans hopen) hg'

/-- To open a delayed parser under its mark, and then to ask for its error kind. -/
theorem findBoxErrorKind (b : BoxId) (hr : (resolver n).Answers (Keeps Inv)) :
    Keeps Inv (findBoxErrorKind (resolver n) b) := by
  intro g hg
  unfold ShapeGrammar.findBoxErrorKind
  cases hkind : (g.boxInfo b).errorKind with
  | some kind => rwa [stateAfter_remember_of_known (f := .kind b) hkind]
  | none =>
    by_cases hmark : .box b ∈ g.pending
    · refine keeps_remember (.kind b) hg ?_ fun {kind g'} _ h _ => ?_
      · rwa [stateAfter_of_error (guarded_of_mem hmark _ _)]
      · rw [guarded_of_mem hmark] at h
        cases h
    · have hopened := L.openBox hr (L.pending (.box b :: g.pending) hg) List.mem_cons_self hkind
      refine keeps_remember (.kind b) hg ?_ fun {kind g'} _ h hg' => ?_
      · rw [stateAfter_guarded hmark]
        refine L.pending _ ?_
        cases hp :
          ShapeGrammar.openBox (resolver n) b { g with pending := .box b :: g.pending } with
        | ok p g1 =>
          rw [stateAfter_of_ok hp] at hopened
          rw [stateAfter_bind_of_ok hp]
          exact L.steps.errorKindOf hr p g1 hopened
        | error e g1 =>
          rw [stateAfter_of_error hp] at hopened
          rwa [stateAfter_of_error (bind_of_error hp)]
      · obtain ⟨g2, hbody, rfl⟩ := guarded_eq_ok h
        obtain ⟨p, g1, hp, hfound⟩ := bind_eq_ok_iff.mp hbody
        have hgrow := ok_precedes (grows_law.openBox (resolver_grows n).toAnswers b) hp
        have hknown := openBox_known hp
        have hlt : b < g1.boxes.size := Nat.lt_of_not_le fun hle => by
          rw [Grammar.boxInfo_of_size_le g1 hle] at hknown
          cases hknown
        have hmark1 : Pending.box b ∈ g1.pending := hgrow.pending ▸ List.mem_cons_self
        have hopen1 := openBox_open (g := { g with pending := .box b :: g.pending })
          List.mem_cons_self hkind hp
        have hsame := ((marks_steps (.box b)).errorKindOf ((marks_law (.box b)).answers n) p).of_ok
          hmark1 ⟨hlt, hopen1⟩ hfound
        exact L.kind (hsame.2.trans hopen1) (hsame.1.trans hknown)
          (errorKindOf_again hfound (g2.retains_pending _)) hg'

/-- **Every question that resolution asks by itself keeps the invariant.** -/
theorem questions : QuestionLaw (Keeps Inv) where
  toStepLaw := L.steps
  plan c hr := L.findPlan c hr
  value a _ hx _ hg := keeps_remember (.value a) hg (hx _ hg) fun _ _ hg' => L.value a _ hg'
  handle a _ hx _ hg := keeps_remember (.handle a) hg (hx _ hg) fun _ _ hg' => L.handle a _ hg'
  kind b hr := L.findBoxErrorKind b hr

end FindingLaw

end ShapeGrammar
