import ShapeGrammar.Proofs.Termination.Plain

/-!
# Findings that have the skeleton that was foreseen

What a delayed parser is found to be has the skeleton of what it was declared as, and so have the
value and the parser of an alias; the attempts of a plan have that of the schema; and what is found
to have no error kind is nullable. A grammar fits if this holds of all that it knows. What is known
at first is what the judgment goes by, so that every grammar fits itself, and a grammar that fits
goes on fitting if what is kept fits.

A computation `Finds` something if it answers, as opposed to stopping, and leaves a fitting grammar
behind. The rules for single steps, and for what is remembered, are those of a logic of total
correctness.

Headlines: `Finding.Fits`, `Fits`, `Fits.self`, `Resolution.Finds`, `Resolution.Finds.remember`.
-/

namespace ShapeGrammar

open Resolution

/-- The finding has the skeleton that was foreseen, in every later state. -/
def Finding.Fits (S : Skeletons) (base g : Grammar) {α : Type} : Finding α → α → Prop
  | .plan c, found => ∀ g' x, g.Extends g' → HasSkeleton S base g' (.plan c) x →
      HasSkeleton S base g' (.attempts found.attempts) x ∧ (found.errorKind = none → S.Nullable x)
  -- the value of an alias is nested less far than the alias, so this asks where that is least
  | .value a, v => ∀ g' d x, (base.aliasInfo a).parser = none → g.Extends g' →
      (∀ y, ¬ HasSkeleton S base base (.shape d (.alias a)) y) →
      HasSkeleton S base g' (.shape (d + 1) (.alias a)) x → HasSkeleton S base g' (.shape d v) x
  | .handle a, h => ∀ g' d x, g.Extends g' → HasSkeleton S base g' (.shape d (.alias a)) x →
      HasSkeleton S base g' (.parser h.body) x
  | .box b, p => ∀ g' x, g.Extends g' →
      HasSkeleton S base g' (.parser (.box b)) (.within x) → HasSkeleton S base g' (.parser p) x
  | .kind b, found => ∀ g' x, g.Extends g' →
      HasSkeleton S base g' (.parser (.box b)) x → found = none → S.Nullable x

/-- All that `g`, a later state of `base`, knows has the skeletons that were foreseen. -/
structure Fits (S : Skeletons) (base g : Grammar) : Prop where
  declared : base.SameDeclarations g
  later : base.Extends g
  known : ∀ {α : Type} {f : Finding α} {a : α}, f.known? base = some a → f.known? g = some a
  fits : ∀ {α : Type} {f : Finding α} {a : α}, f.known? g = some a → f.Fits S base g a

variable {S : Skeletons} {base g g' : Grammar}

theorem Finding.Fits.mono {α : Type} {f : Finding α} {a : α} (h : f.Fits S base g a)
    (hlater : g.Extends g') : f.Fits S base g' a := by
  cases f with
  | plan c => exact fun g'' x hg => h g'' x (hlater.trans hg)
  | value b => exact fun g'' d x hnone hg => h g'' d x hnone (hlater.trans hg)
  | handle b => exact fun g'' d x hg => h g'' d x (hlater.trans hg)
  | box b => exact fun g'' x hg => h g'' x (hlater.trans hg)
  | kind b => exact fun g'' x hg => h g'' x (hlater.trans hg)

namespace Fits

/-- **What is known at first is what the judgment goes by.** -/
theorem self (S : Skeletons) (base : Grammar) : Fits S base base where
  declared := .refl base
  later := .refl base
  known h := h
  fits {α f a} hf := by
    cases f with
    | plan c =>
      intro g' x _ hx
      cases hx with
      | planFound _ hq hkind hx =>
        cases hf.symm.trans hq
        exact ⟨hx, hkind⟩
      | product _ hnone => cases hf.symm.trans hnone
      | sum _ hnone => cases hf.symm.trans hnone
    | value b =>
      intro g' d x hnone hlater _ hx
      cases hx with
      | aliasFound hh => cases hnone.symm.trans hh
      | aliasKnown _ hw hx =>
        cases hf.symm.trans hw
        exact hx.mono hlater
      | aliasOpen _ hw => cases hf.symm.trans hw
    | handle b =>
      intro g' d x hlater hx
      cases hx with
      | aliasFound hk hx =>
        cases hf.symm.trans hk
        exact hx.mono hlater
      | aliasKnown hnone => cases hf.symm.trans hnone
      | aliasOpen hnone => cases hf.symm.trans hnone
    | box b =>
      intro g' x _ hx
      cases hx with
      | boxFound hq _ hx =>
        cases hf.symm.trans hq
        exact hx
      | boxOpen hnone => cases hf.symm.trans hnone
    | kind b =>
      rintro g' x _ hx rfl
      cases hx with
      | boxFound _ hkind _ => exact .within (hkind hf)
      | boxOpen _ hkind _ _ => exact .within (hkind hf)

/-- A later state that knows the same fits as well. -/
theorem of_same (h : Fits S base g) (hdeclared : g.SameDeclarations g') (hlater : g.Extends g')
    (hsame : ∀ {α : Type} (f : Finding α), f.known? g' = f.known? g) : Fits S base g' where
  declared := h.declared.trans hdeclared
  later := h.later.trans hlater
  known hf := (hsame _).trans (h.known hf)
  fits hf := Finding.Fits.mono (h.fits (hsame _ ▸ hf)) hlater

/-- A new delayed parser is not known, or it is known as what it was declared as. -/
theorem newBox (h : Fits S base g) (body : Delayed) :
    Fits S base (stateAfter (newBox body) g) := by
  have hpush : g.Extends (stateAfter (Resolution.newBox body) g) := g.extends_pushBox _
  have hsame : g.SameDeclarations (stateAfter (Resolution.newBox body) g) :=
    (Grammar.Precedes.pushBox g _).sameDeclarations
  have hinfo : ∀ b, (stateAfter (Resolution.newBox body) g).boxInfo b =
      if b = g.boxes.size then _ else _ := g.boxInfo_push _
  have hnew : g.boxes.size < (stateAfter (Resolution.newBox body) g).boxes.size :=
    Nat.lt_of_lt_of_eq (Nat.lt_succ_self _) (Array.size_push _).symm
  refine ⟨h.declared.trans hsame, h.later.trans hpush,
    fun hf => (Grammar.Precedes.pushBox g _).known (h.known hf), fun {α f a} hf => ?_⟩
  cases f with
  | plan c => exact (h.fits (f := .plan c) hf).mono hpush
  | value b => exact (h.fits (f := .value b) hf).mono hpush
  | handle b => exact (h.fits (f := .handle b) hf).mono hpush
  | kind b =>
    simp only [Finding.known?, hinfo] at hf
    split at hf
    · cases hf
    · exact (h.fits (f := .kind b) hf).mono hpush
  | box b =>
    simp only [Finding.known?, hinfo] at hf
    split at hf
    · rename_i hb
      intro g' x hlater hx
      have hbody : (g'.boxInfo b).body = body := by
        rw [hlater.body (hb ▸ hnew), hinfo, if_pos hb]
      have hnone : (base.boxInfo b).parser = none := by
        rw [Grammar.boxInfo_of_size_le base (hb ▸ h.later.boxCount)]
        rfl
      cases hx with
      | boxFound hq => cases hnone.symm.trans hq
      | boxOpen _ _ _ hx =>
        rw [hbody] at hx
        cases body <;> cases hf
        cases hx with
        | ofParser hx => exact hx
    · exact (h.fits (f := .box b) hf).mono hpush

/-- **A finding that fits may be kept.** -/
theorem keep (h : Fits S base g) {α : Type} {f : Finding α} {a : α}
    (hnone : f.known? base = none) (hf : f.Fits S base g a) : Fits S base (f.keep g a) := by
  have hkeep := Grammar.extends_keep f g a
  have hfields : (f.keep g a).fields = g.fields := by cases f <;> rfl
  have hnames : (f.keep g a).names = g.names := by cases f <;> rfl
  refine ⟨h.declared.trans ⟨(f.keep_frame g a).1, (f.keep_frame g a).2.1, hfields, hnames⟩,
    h.later.trans hkeep, fun {β f' b} hb => ?_, fun hk => ?_⟩
  · rcases f.known?_keep_or f' hnone g a with heq | hunknown
    · rw [heq]
      exact h.known hb
    · cases hunknown.symm.trans hb
  · exact Finding.forall_known_keep (P := fun f' b => f'.Fits S base (f.keep g a) b)
      (fun hold => (h.fits hold).mono hkeep) (hf.mono hkeep) hk

end Fits

/-- A fitting grammar that comes later, in which the same is being found out. -/
structure Onward (S : Skeletons) (base g g' : Grammar) : Prop where
  fits : Fits S base g'
  later : g.Extends g'
  pending : g'.pending = g.pending

namespace Onward

theorem refl (h : Fits S base g) : Onward S base g g :=
  ⟨h, .refl g, rfl⟩

theorem trans {g'' : Grammar} (h : Onward S base g g') (h' : Onward S base g' g'') :
    Onward S base g g'' :=
  ⟨h'.fits, h.later.trans h'.later, h'.pending.trans h.pending⟩

theorem report (h : Fits S base g) (r : Report) : Onward S base g (g.report r) := by
  have hlater : ∀ rs, g.Extends (g.withReports rs) := fun _ => Grammar.extends_of_eq rfl rfl
  unfold Grammar.report
  split
  · exact ⟨h.of_same ⟨fun _ => ⟨_, rfl⟩, rfl, rfl, rfl⟩ (hlater _) fun f => by cases f <;> rfl,
      hlater _, rfl⟩
  · exact .refl h

end Onward

/-! ## Computations that answer -/

namespace Resolution

variable {α β : Type} {P : α → Grammar → Prop} {Q : β → Grammar → Prop}

/-- The computation answers as described, and leaves a fitting grammar behind. -/
def Finds (S : Skeletons) (base g : Grammar) (x : Resolution α) (P : α → Grammar → Prop) : Prop :=
  ∃ a g', x g = .ok a g' ∧ Onward S base g g' ∧ P a g'

namespace Finds

theorem pure {a : α} (hg : Fits S base g) (ha : P a g) : Finds S base g (Pure.pure a) P :=
  ⟨a, g, rfl, .refl hg, ha⟩

theorem of_ok {x : Resolution α} {a : α} (h : x g = .ok a g) (hg : Fits S base g) (ha : P a g) :
    Finds S base g x P :=
  ⟨a, g, h, .refl hg, ha⟩

theorem bind {x : Resolution α} {f : α → Resolution β} (hx : Finds S base g x P)
    (hf : ∀ a g', Onward S base g g' → P a g' → Finds S base g' (f a) Q) :
    Finds S base g (x >>= f) Q := by
  obtain ⟨a, g', ha, hg', hP⟩ := hx
  obtain ⟨b, g'', hb, hg'', hQ⟩ := hf a g' hg' hP
  exact ⟨b, g'', bind_eq_ok_iff.mpr ⟨a, g', ha, hb⟩, hg'.trans hg'', hQ⟩

theorem get {f : Grammar → Resolution β} (h : Finds S base g (f g) Q) :
    Finds S base g (MonadState.get >>= f) Q :=
  h

theorem map {x : Resolution α} {f : α → β} (hx : Finds S base g x fun a g' => Q (f a) g') :
    Finds S base g (f <$> x) Q := by
  obtain ⟨a, g', ha, hg', hQ⟩ := hx
  exact ⟨f a, g', map_eq_ok_iff.mpr ⟨a, ha, rfl⟩, hg', hQ⟩

theorem imp {P' : α → Grammar → Prop} {x : Resolution α} (hx : Finds S base g x P)
    (h : ∀ a g', Onward S base g g' → P a g' → P' a g') : Finds S base g x P' := by
  obtain ⟨a, g', ha, hg', hP⟩ := hx
  exact ⟨a, g', ha, hg', h a g' hg' hP⟩

theorem newHandle {body : Parser} {x : Skeleton} (hg : Fits S base g)
    (hx : HasSkeleton S base g (.parser body) x) :
    Finds S base g (newHandle body) fun h g' => HasSkeleton S base g' (.parser h.body) x := by
  have hlater : g.Extends { g with made := g.made + 1 } := Grammar.extends_of_eq rfl rfl
  exact ⟨⟨.made g.made, body⟩, _, rfl,
    ⟨hg.of_same (Grammar.Precedes.made _ _).sameDeclarations hlater fun f => by cases f <;> rfl,
      hlater, rfl⟩, hx.mono hlater⟩

/-- A new delayed parser is found out when it is needed. -/
theorem newBox {body : Delayed} {x : Skeleton} (hg : Fits S base g)
    (hx : HasSkeleton S base g (.delayed body) x) :
    Finds S base g (newBox body) fun b g' =>
      HasSkeleton S base g' (.parser (.box b)) (.within x) := by
  have hlater : g.Extends (stateAfter (Resolution.newBox body) g) := g.extends_pushBox _
  have hinfo : (stateAfter (Resolution.newBox body) g).boxInfo g.boxes.size = _ :=
    (g.boxInfo_push _ g.boxes.size).trans (if_pos rfl)
  have hnew : base.boxInfo g.boxes.size = default := base.boxInfo_of_size_le hg.later.boxCount
  refine ⟨g.boxes.size, stateAfter (Resolution.newBox body) g, rfl, ⟨hg.newBox body, hlater, rfl⟩,
    .boxOpen ?_ ?_ ?_ ?_⟩
  · rw [hnew]
    rfl
  · rw [hnew]
    nofun
  · exact Nat.lt_of_lt_of_eq (Nat.lt_succ_self _) (Array.size_push _).symm
  · rw [hinfo]
    exact hx.mono hlater

/-- To pass faults on in other words changes no answer. -/
theorem mapSchemaFault {f : Grammar → SchemaFault → SchemaFault} {x : Resolution α}
    (hx : Finds S base g x P) : Finds S base g (mapSchemaFault f x) P := by
  obtain ⟨a, g', ha, hg', hP⟩ := hx
  refine ⟨a, g', ?_, hg', hP⟩
  unfold Resolution.mapSchemaFault
  simp only [ha]

theorem report {f : Grammar → Report} (hg : Fits S base g) :
    Finds S base g (modify fun g => g.report (f g)) fun _ _ => True :=
  ⟨(), g.report (f g), rfl, .report hg (f g), trivial⟩

/-- What is remembered fits if what is found does. -/
theorem remember {f : Finding α} {x : Resolution α} (hg : Fits S base g)
    (hx : f.known? g = none → Finds S base g x fun a g' => f.Fits S base g' a) :
    Finds S base g (remember f x) fun a g' => f.Fits S base g' a := by
  cases hf : f.known? g with
  | some a => exact ⟨a, g, remember_of_known hf x, .refl hg, hg.fits hf⟩
  | none =>
    obtain ⟨a, g', ha, hg', hfits⟩ := hx hf
    have hkeep := Grammar.extends_keep f g' a
    refine ⟨a, f.keep g' a, ?_, ⟨hg'.fits.keep ?_ hfits, hg'.later.trans hkeep, ?_⟩,
      hfits.mono hkeep⟩
    · rw [remember_of_unknown hf, bind_of_ok ha]
      rfl
    · cases hbase : f.known? base with
      | none => rfl
      | some a => cases hf.symm.trans (hg.known hbase)
    · rw [← hg'.pending]
      cases f <;> rfl

end Finds

end Resolution

end ShapeGrammar
