import ShapeGrammar.Proofs.ErrorKinds.Announced
import ShapeGrammar.Proofs.Inhabitation.Soundness
import ShapeGrammar.Proofs.Resolution.Declared

/-!
# Plans that are kept

The plan that a grammar keeps for a class is one that planning has made, and stays one while more is
found out. A parser of a plain shape carries out no other plans, so it leads to nothing but plans
that planning has made by now.

Headlines: `Grammar.PlansMade`, `plansMade_findings`, `Grammar.Parses.planned`.
-/

namespace ShapeGrammar

open Resolution Grammar

/-- Every plan that is known is one that planning has made by now. -/
def Grammar.PlansMade (g : Grammar) : Prop :=
  ∀ c plan, (g.classInfo c).plan = some plan → plan.Made g

theorem Plan.Made.mono {g g' : Grammar} {plan : Plan Parser} (h : plan.Made g)
    (hlater : g.Retains g') : plan.Made g' := by
  obtain ⟨k, schema, g0, g1, hplan, hkept⟩ := h
  exact ⟨k, schema, g0, g1, hplan, hkept.trans hlater⟩

namespace Grammar

variable {g g' : Grammar}

/-- What becomes known without a plan leaves known plans made. -/
theorem PlansMade.retained (h : g.PlansMade) (hlater : g.Retains g')
    (hold : ∀ c, (g'.classInfo c).plan = (g.classInfo c).plan) : g'.PlansMade :=
  fun c plan hplan => (h c plan ((hold c).symm.trans hplan)).mono hlater

/-- A plan that was made for a class without one may be kept. -/
theorem PlansMade.keep {n : Nat} {c : ClassId} {plan : Plan Parser} (h : g'.PlansMade)
    (hmade : makePlan (resolver n) c g = .ok plan g') (hopen : (g'.classInfo c).plan = none) :
    ((Finding.plan c).keep g' plan).PlansMade := by
  have hkeep := retains_keep_plan hopen plan
  intro d plan' hd
  simp only [Finding.keep, classInfo_updateClass] at hd
  split at hd
  · cases hd
    obtain ⟨-, schema, g1, report, -, hplan, rfl⟩ := makePlan_eq_ok hmade
    refine ⟨n, schema, _, g1, hplan, .trans ?_ hkeep⟩
    unfold Grammar.report
    split <;> exact ⟨id, id, id⟩
  · exact (h d plan' hd).mono hkeep

theorem plansMade_findings : FindingLaw PlansMade where
  made _ hg := hg.retained ⟨id, id, id⟩ fun _ => rfl
  pending _ hg := hg.retained ⟨id, id, id⟩ fun _ => rfl
  reports _ hg := hg.retained ⟨id, id, id⟩ fun _ => rfl
  newBox _ hg := hg.retained (Precedes.pushBox _ _).retains fun _ => rfl
  plan hmade hopen hg := hg.keep hmade hopen
  value _ _ hg := hg.retained ⟨id, id, id⟩ fun _ => rfl
  handle _ _ hg := hg.retained ⟨id, id, id⟩ fun _ => rfl
  box p hopen hg := hg.retained (retains_keep_box hopen p) fun _ => rfl
  kind {_ _ _ kind} hopen _ _ hg := hg.retained (retains_keep_kind hopen kind) fun _ => rfl

theorem PlansMade.spared (hg : g.PlansMade) (h : g.Spares g') : g'.PlansMade :=
  hg.retained h.retains h.plan

theorem empty_plansMade (threshold : Option LogLevel) : (empty threshold).PlansMade := by
  intro c plan h
  rw [classInfo_of_size_le (empty threshold) (Nat.zero_le c)] at h
  cases h

/-! ## Parsers of plain shapes -/

theorem Parses.made {p : Parser} {s : Shape} (h : g.Parses p s) (hplain : g.Plain s) :
    p.Made g := by
  cases h with
  | raw is raw => exact absurd raw (hplain.not_raw is)
  | _ => trivial

/-- A plan among the parts of a parser of a plain shape is known to be that of a class. -/
theorem Parses.part_made (hg : g.Consistent) (hmade : g.PlansMade) {p q : Parser} {s : Shape}
    (h : g.Parses p s) (hplain : g.Plain s) (hq : q ∈ p.parts g) : q.Made g := by
  obtain ⟨a, hparses, ha⟩ | ⟨c, plan, hfound, rfl, -⟩ | ⟨expected, rfl⟩ :=
    h.part_cases hg id (fun _ => rfl) hplain hq
  · exact hparses.made ha
  · exact hmade c plan hfound
  · trivial

theorem Derived.part_made (hg : g.Consistent) (hmade : g.PlansMade) {p q : Parser}
    (h : g.Derived p) (hq : q ∈ p.parts g) : q.Made g := by
  cases h with
  | shape parses plain => exact parses.part_made hg hmade plain hq
  | element => cases hq
  | plan _ attempts plain =>
    obtain ⟨a, ha, hq⟩ := List.mem_flatMap.mp hq
    obtain ⟨form, hform, -, hparses⟩ := exists_of_forall₂ attempts ha
    exact hparses.part_made hg hmade (plain form hform) hq

/-- **A parser of a plain shape leads to no plan but those that planning has made by now.** -/
theorem Parses.planned (hg : g.Consistent) (hmade : g.PlansMade) {p : Parser} {s : Shape}
    (h : g.Parses p s) (hplain : g.Plain s) : g.Planned p := fun _ hq =>
  (hq.closed (P := fun q => g.Derived q ∧ q.Made g)
    (fun hp hs => ⟨hp.1.part hg hs, hp.1.part_made hg hmade hs⟩)
    ⟨.shape h hplain, h.made hplain⟩).2

end Grammar

end ShapeGrammar
