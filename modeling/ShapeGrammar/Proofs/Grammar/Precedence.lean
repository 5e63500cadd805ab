import ShapeGrammar.Proofs.Grammar.Declarations
import ShapeGrammar.Proofs.Planning

/-!
# What is found out stays

Resolution changes a grammar in one direction only. A plan, an alias, a delayed parser or an error
kind that is known stays what it is, a plan that becomes known makes its attempts in order, and what
was declared does not change at all. `Grammar.Precedes` says so of two states of a grammar.

Headlines: `Grammar.Precedes`, `Grammar.Precedes.keep`, `Grammar.Precedes.construct_eq`,
`Grammar.PlansOrdered`.
-/

namespace ShapeGrammar

namespace Grammar

/-- `g'` is what `g` may become while things are found out about it. -/
structure Precedes (g g' : Grammar) : Prop where
  /-- Of a class, only the plan becomes known. -/
  classes : ∀ c, ∃ plan, g'.classInfo c = { g.classInfo c with plan := plan }
  known : ∀ {α : Type} {f : Finding α} {a : α}, f.known? g = some a → f.known? g' = some a
  ordered : ∀ {c plan}, (g'.classInfo c).plan = some plan →
    (g.classInfo c).plan = some plan ∨ plan.Ordered
  classCount : g'.classes.size = g.classes.size
  boxCount : g.boxes.size ≤ g'.boxes.size
  fields : g'.fields = g.fields
  names : g'.names = g.names
  files : g'.files = g.files
  threshold : g'.threshold = g.threshold
  pending : g'.pending = g.pending

/-- Every plan that is known makes its attempts in order. -/
def PlansOrdered (g : Grammar) : Prop :=
  ∀ {c plan}, (g.classInfo c).plan = some plan → plan.Ordered

theorem Precedes.refl (g : Grammar) : g.Precedes g where
  classes c := ⟨(g.classInfo c).plan, rfl⟩
  known := id
  ordered := .inl
  classCount := rfl
  boxCount := Nat.le_refl _
  fields := rfl
  names := rfl
  files := rfl
  threshold := rfl
  pending := rfl

theorem Precedes.trans {g g' g'' : Grammar} (h : g.Precedes g') (h' : g'.Precedes g'') :
    g.Precedes g'' where
  classes c := by
    obtain ⟨plan, hp⟩ := h.classes c
    obtain ⟨plan', hp'⟩ := h'.classes c
    exact ⟨plan', by rw [hp', hp]⟩
  known hk := h'.known (h.known hk)
  ordered hp := (h'.ordered hp).elim h.ordered .inr
  classCount := h'.classCount.trans h.classCount
  boxCount := Nat.le_trans h.boxCount h'.boxCount
  fields := h'.fields.trans h.fields
  names := h'.names.trans h.names
  files := h'.files.trans h.files
  threshold := h'.threshold.trans h.threshold
  pending := h'.pending.trans h.pending

theorem Precedes.plansOrdered {g g' : Grammar} (h : g.Precedes g') (hg : g.PlansOrdered) :
    g'.PlansOrdered :=
  fun hp => (h.ordered hp).elim hg id

theorem empty_plansOrdered (threshold : Option LogLevel) : (empty threshold).PlansOrdered := by
  intro c plan h
  have hnone : ((empty threshold).classInfo c).plan = none := by
    unfold empty classInfo
    simp only [Array.getD_eq_getD_getElem?, Array.getElem?_empty]
    rfl
  rw [hnone] at h
  cases h

/-! ## What the updates look up -/

theorem classInfo_updateClass (g : Grammar) (c d : ClassId) (f : ClassInfo → ClassInfo) :
    (g.updateClass c f).classInfo d =
      if c = d ∧ d < g.classes.size then f (g.classInfo d) else g.classInfo d := by
  unfold updateClass classInfo
  simp only [Array.getD_eq_getD_getElem?, Array.getElem?_modify]
  by_cases hd : d < g.classes.size <;> by_cases hc : c = d <;> simp [hc, hd]

theorem aliasInfo_updateAlias (g : Grammar) (a b : AliasId) (f : AliasInfo → AliasInfo) :
    (g.updateAlias a f).aliasInfo b =
      if a = b ∧ b < g.aliases.size then f (g.aliasInfo b) else g.aliasInfo b := by
  unfold updateAlias aliasInfo
  simp only [Array.getD_eq_getD_getElem?, Array.getElem?_modify]
  by_cases hb : b < g.aliases.size <;> by_cases ha : a = b <;> simp [ha, hb]

theorem boxInfo_updateBox (g : Grammar) (b d : BoxId) (f : BoxInfo → BoxInfo) :
    (g.updateBox b f).boxInfo d =
      if b = d ∧ d < g.boxes.size then f (g.boxInfo d) else g.boxInfo d := by
  unfold updateBox boxInfo
  simp only [Array.getD_eq_getD_getElem?, Array.getElem?_modify]
  by_cases hd : d < g.boxes.size <;> by_cases hb : b = d <;> simp [hb, hd]

theorem boxInfo_push_of_lt (g : Grammar) (info : BoxInfo) {b : BoxId} (h : b < g.boxes.size) :
    ({ g with boxes := g.boxes.push info } : Grammar).boxInfo b = g.boxInfo b := by
  unfold boxInfo
  simp only [Array.getD_eq_getD_getElem?, Array.getElem?_push_lt h, h, getElem?_pos]

/-- A delayed parser that came into being last, or an older one. -/
theorem boxInfo_push (g : Grammar) (info : BoxInfo) (b : BoxId) :
    ({ g with boxes := g.boxes.push info } : Grammar).boxInfo b =
      if b = g.boxes.size then info else g.boxInfo b := by
  unfold boxInfo
  simp only [Array.getD_eq_getD_getElem?, Array.getElem?_push]
  split <;> rfl

theorem classInfo_of_size_le (g : Grammar) {c : ClassId} (h : g.classes.size ≤ c) :
    g.classInfo c = default := by
  unfold classInfo
  rw [Array.getD_eq_getD_getElem?, Array.getElem?_eq_none h]
  rfl

theorem boxInfo_of_size_le (g : Grammar) {b : BoxId} (h : g.boxes.size ≤ b) :
    g.boxInfo b = default := by
  unfold boxInfo
  simp [Array.getD_eq_getD_getElem?, h]

end Grammar

/-! ## Findings -/

namespace Finding

variable {α β : Type}

/-- What a finding may turn out to be: a plan makes its attempts in order. -/
def Admits : Finding α → α → Prop
  | .plan _, found => found.Ordered
  | _, _ => True

/-- To keep a finding changes no other one; and the same one was not known where it was not. -/
theorem known?_keep_or (f : Finding α) (f' : Finding β) {g : Grammar} (h : f.known? g = none)
    (g' : Grammar) (a : α) :
    f'.known? (f.keep g' a) = f'.known? g' ∨ f'.known? g = none := by
  cases f with
  | plan c =>
    cases f' with
    | plan d =>
      by_cases hcd : c = d
      · exact .inr (hcd ▸ h)
      · left
        simp only [known?, keep, Grammar.classInfo_updateClass, hcd, false_and, if_false]
    | value b => exact .inl rfl
    | handle b => exact .inl rfl
    | box b => exact .inl rfl
    | kind b => exact .inl rfl
  | value c =>
    cases f' with
    | value d =>
      by_cases hcd : c = d
      · exact .inr (hcd ▸ h)
      · left
        simp only [known?, keep, Grammar.aliasInfo_updateAlias, hcd, false_and, if_false]
    | handle d =>
      left
      simp only [known?, keep, Grammar.aliasInfo_updateAlias]
      split <;> rfl
    | plan b => exact .inl rfl
    | box b => exact .inl rfl
    | kind b => exact .inl rfl
  | handle c =>
    cases f' with
    | handle d =>
      by_cases hcd : c = d
      · exact .inr (hcd ▸ h)
      · left
        simp only [known?, keep, Grammar.aliasInfo_updateAlias, hcd, false_and, if_false]
    | value d =>
      left
      simp only [known?, keep, Grammar.aliasInfo_updateAlias]
      split <;> rfl
    | plan b => exact .inl rfl
    | box b => exact .inl rfl
    | kind b => exact .inl rfl
  | box c =>
    cases f' with
    | box d =>
      by_cases hcd : c = d
      · exact .inr (hcd ▸ h)
      · left
        simp only [known?, keep, Grammar.boxInfo_updateBox, hcd, false_and, if_false]
    | kind d =>
      left
      simp only [known?, keep, Grammar.boxInfo_updateBox]
      split <;> rfl
    | plan b => exact .inl rfl
    | value b => exact .inl rfl
    | handle b => exact .inl rfl
  | kind c =>
    cases f' with
    | kind d =>
      by_cases hcd : c = d
      · exact .inr (hcd ▸ h)
      · left
        simp only [known?, keep, Grammar.boxInfo_updateBox, hcd, false_and, if_false]
    | box d =>
      left
      simp only [known?, keep, Grammar.boxInfo_updateBox]
      split <;> rfl
    | plan b => exact .inl rfl
    | value b => exact .inl rfl
    | handle b => exact .inl rfl

/-- To keep a finding changes neither what was declared nor how much there is. -/
theorem keep_frame (f : Finding α) (g : Grammar) (a : α) :
    (∀ c, ∃ plan, (f.keep g a).classInfo c = { g.classInfo c with plan := plan }) ∧
      (f.keep g a).classes.size = g.classes.size ∧ (f.keep g a).boxes.size = g.boxes.size := by
  cases f with
  | plan c =>
    refine ⟨fun d => ?_, Array.size_modify, rfl⟩
    simp only [keep, Grammar.classInfo_updateClass]
    split
    · exact ⟨some a, rfl⟩
    · exact ⟨(g.classInfo d).plan, rfl⟩
  | value b => exact ⟨fun d => ⟨(g.classInfo d).plan, rfl⟩, rfl, rfl⟩
  | handle b => exact ⟨fun d => ⟨(g.classInfo d).plan, rfl⟩, rfl, rfl⟩
  | box b => exact ⟨fun d => ⟨(g.classInfo d).plan, rfl⟩, rfl, Array.size_modify⟩
  | kind b => exact ⟨fun d => ⟨(g.classInfo d).plan, rfl⟩, rfl, Array.size_modify⟩

/-- Of plans, only the one that is kept is new. -/
theorem plan_of_keep (f : Finding α) {g : Grammar} {a : α} (ha : f.Admits a) {c : ClassId}
    {plan : Plan Parser} (h : ((f.keep g a).classInfo c).plan = some plan) :
    (g.classInfo c).plan = some plan ∨ plan.Ordered := by
  cases f with
  | plan d =>
    simp only [keep, Grammar.classInfo_updateClass] at h
    split at h
    · cases h
      exact .inr ha
    · exact .inl h
  | value b => exact .inl h
  | handle b => exact .inl h
  | box b => exact .inl h
  | kind b => exact .inl h

end Finding

namespace Grammar

/-! ## Single steps -/

theorem Precedes.made (g : Grammar) (n : Nat) : g.Precedes { g with made := n } :=
  { Precedes.refl g with known := fun {_ f _} h => by cases f <;> exact h }

theorem Precedes.report (g : Grammar) (x : Report) : g.Precedes (g.report x) := by
  unfold Grammar.report
  split
  · exact { Precedes.refl g with known := fun {_ f _} h => by cases f <;> exact h }
  · exact .refl g

theorem Precedes.pushBox (g : Grammar) (info : BoxInfo) :
    g.Precedes { g with boxes := g.boxes.push info } := by
  -- a delayed parser about which something is known is one of the old ones
  have old : ∀ b, g.boxInfo b ≠ default → b < g.boxes.size :=
    fun b hb => Nat.lt_of_not_le fun hle => hb (boxInfo_of_size_le g hle)
  refine { Precedes.refl g with known := fun {_ f a} h => ?_, boxCount := by simp }
  cases f with
  | box b =>
    have hb : b < g.boxes.size := old b fun hd => by
      simp only [Finding.known?, hd] at h
      cases h
    simpa only [Finding.known?, boxInfo_push_of_lt g info hb] using h
  | kind b =>
    have hb : b < g.boxes.size := old b fun hd => by
      simp only [Finding.known?, hd] at h
      cases h
    simpa only [Finding.known?, boxInfo_push_of_lt g info hb] using h
  | plan c => exact h
  | value b => exact h
  | handle b => exact h

/-- Work under a mark that is taken off afterwards. -/
theorem Precedes.guarded {g g' : Grammar} {key : Pending}
    (h : ({ g with pending := key :: g.pending } : Grammar).Precedes g') :
    g.Precedes { g' with pending := g'.pending.tail } := by
  refine { h with known := fun {_ f a} hf => ?_, pending := by simp [h.pending] }
  have hk := h.known (f := f) (a := a) (by cases f <;> exact hf)
  cases f <;> exact hk

/-- Something becomes known that was not; whatever was found out about it meanwhile gives way. -/
theorem Precedes.keep {g g' : Grammar} (h : g.Precedes g') {α : Type} {f : Finding α} {a : α}
    (hf : f.known? g = none) (ha : f.Admits a) : g.Precedes (f.keep g' a) := by
  obtain ⟨hclasses, hcount, hboxes⟩ := f.keep_frame g' a
  refine
    { classes := fun c => ?_
      known := fun {β f' b} hb => ?_
      ordered := fun hp => (f.plan_of_keep ha hp).elim h.ordered .inr
      classCount := hcount.trans h.classCount
      boxCount := Nat.le_trans h.boxCount (Nat.le_of_eq hboxes.symm)
      fields := ?_
      names := ?_
      files := ?_
      threshold := ?_
      pending := ?_ }
  · obtain ⟨plan, hc⟩ := h.classes c
    obtain ⟨plan', hc'⟩ := hclasses c
    exact ⟨plan', by rw [hc', hc]⟩
  · rcases f.known?_keep_or f' hf g' a with heq | hnone
    · rw [heq]
      exact h.known hb
    · rw [hnone] at hb
      cases hb
  · cases f <;> exact h.fields
  · cases f <;> exact h.names
  · cases f <;> exact h.files
  · cases f <;> exact h.threshold
  · cases f <;> exact h.pending

/-! ## What was declared -/

theorem Precedes.sameDeclarations {g g' : Grammar} (h : g.Precedes g') : g.SameDeclarations g' :=
  ⟨h.classes, h.classCount, h.fields, h.names⟩

/-- An instance does not depend on what else was found out. -/
theorem Precedes.construct_eq {g g' : Grammar} (h : g.Precedes g') (target : ClassRef)
    (arguments : List Value) : g'.construct target arguments = g.construct target arguments :=
  h.sameDeclarations.construct_eq target arguments

end Grammar

end ShapeGrammar
