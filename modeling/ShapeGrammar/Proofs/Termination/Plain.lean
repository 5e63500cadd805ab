import ShapeGrammar.Proofs.Termination.Unfolding

/-!
# Plain shapes

To evaluate a written shape that builds no parser is to look names up. So it answers the same within
all limits and in every state with the same declarations, and leaves the state as it is.

Headlines: `evaluateShape_unasked`, `evaluateShape_plain`, `Grammar.Means.evaluates`.
-/

namespace ShapeGrammar

open Resolution

/-! ## Whatever is answered -/

section Unasked

variable (r r' : Resolver)

mutual

/-- To evaluate a plain shape asks nothing, whether names in it stay forward references or not. -/
theorem evaluateShape_unasked (inField : Bool) : ∀ e : ShapeExpr, e.isPlain = true →
    evaluateShape r inField e = evaluateShape r' inField e
  | .character _, _ => rfl
  | .ref _, _ => rfl
  | .nothing, _ => rfl
  | .ellipsis, _ => rfl
  | .builtin _, _ => rfl
  | .list a, h => by
    unfold evaluateShape
    rw [evaluateShape_unasked inField a h]
  | .nonempty a, h => by
    unfold evaluateShape
    rw [evaluateShape_unasked inField a h]
  | .not a, h => by
    unfold evaluateShape
    rw [evaluateShape_unasked inField a h]
  | .box a, h => by
    unfold evaluateShape
    rw [evaluateShape_unasked inField a h]
  | .either a b, h => by
    simp only [ShapeExpr.isPlain, Bool.and_eq_true] at h
    unfold evaluateShape
    rw [evaluateShape_unasked inField a h.1, evaluateShape_unasked inField b h.2]
  | .tuple as, h => by
    unfold evaluateShape
    rw [evaluateShapes_unasked inField as h]
  | .union as, h => by
    unfold evaluateShape
    rw [evaluateShapes_unasked inField as h]
  | .mapping a b, h => by
    simp only [ShapeExpr.isPlain, Bool.and_eq_true] at h
    unfold evaluateShape
    rw [evaluateShape_unasked inField a h.1, evaluateShape_unasked inField b h.2]
  | .annotated a notes, h => by
    simp only [ShapeExpr.isPlain, Bool.and_eq_true] at h
    unfold evaluateShape
    rw [evaluateShape_unasked inField a h.1, evaluateNotes_unasked notes h.2]
  | .parser (.name _), _ => rfl

theorem evaluateShapes_unasked (inField : Bool) : ∀ es : List ShapeExpr, arePlain es = true →
    evaluateShapes r inField es = evaluateShapes r' inField es
  | [], _ => rfl
  | e :: es, h => by
    simp only [arePlain, Bool.and_eq_true] at h
    unfold evaluateShapes
    rw [evaluateShape_unasked inField e h.1, evaluateShapes_unasked inField es h.2]

theorem evaluateNotes_unasked : ∀ ns : List NoteExpr, notesArePlain ns = true →
    evaluateNotes r ns = evaluateNotes r' ns
  | [], _ => rfl
  | .text _ :: ns, h => by
    unfold evaluateNotes
    rw [evaluateNotes_unasked ns h]
  | .parser (.name _) :: ns, h => by
    unfold evaluateNotes
    rw [evaluateNotes_unasked ns h]
    rfl

end

end Unasked

/-! ## In whatever state -/

theorem lift_resolution_eq_ok {α : Type} {x : Except Fault α} {a : α} {g g1 : Grammar}
    (h : Resolution.lift x g = .ok a g1) : x = .ok a ∧ g = g1 := by
  cases x with
  | ok b =>
    cases h
    exact ⟨rfl, rfl⟩
  | error e => cases h

section Plain

-- the second and the third of the mutual lemmas use the assumption through the first one
set_option linter.unusedSectionVars false

variable {r r' : Resolver} {g g' : Grammar} (same : g.SameDeclarations g')
include same

theorem lookup_plain {path : Path} {b : Binding} {g1 : Grammar}
    (h : (get >>= fun g : Grammar => Resolution.lift (g.lookup path)) g = .ok b g1) :
    g = g1 ∧ (get >>= fun g : Grammar => Resolution.lift (g.lookup path)) g' = .ok b g' := by
  obtain ⟨hb, rfl⟩ := lift_resolution_eq_ok (get_bind_eq_ok_iff.mp h)
  refine ⟨rfl, get_bind_eq_ok_iff.mpr ?_⟩
  rw [same.lookup_eq, hb]
  rfl

mutual

/-- **To evaluate a plain shape is to look names up.** -/
theorem evaluateShape_plain : ∀ {e : ShapeExpr} {a : Shape} {g1 : Grammar}, e.isPlain = true →
    evaluateShape r false e g = .ok a g1 → g = g1 ∧ evaluateShape r' false e g' = .ok a g'
  | .character v, a, g1, _, h => by
    obtain ⟨ha, rfl⟩ := lift_resolution_eq_ok h
    refine ⟨rfl, ?_⟩
    unfold evaluateShape
    rw [ha]
    rfl
  | .ref path, a, g1, _, h => by
    have h' := get_bind_eq_ok_iff.mp h
    obtain ⟨b, g2, hb, h'⟩ := bind_eq_ok_iff.mp h'
    obtain ⟨rfl, hb'⟩ := lookup_plain same (get_bind_eq_ok_iff.mpr hb)
    cases h'
    exact ⟨rfl, get_bind_eq_ok_iff.mpr (bind_of_ok (get_bind_eq_ok_iff.mp hb'))⟩
  | .nothing, a, g1, _, h => by
    cases h
    exact ⟨rfl, rfl⟩
  | .ellipsis, a, g1, _, h => by
    cases h
    exact ⟨rfl, rfl⟩
  | .builtin b, a, g1, _, h => by
    cases h
    exact ⟨rfl, rfl⟩
  | .list e, a, g1, hp, h => by
    obtain ⟨v, g2, hv, h⟩ := bind_eq_ok_iff.mp h
    obtain ⟨rfl, hv'⟩ := evaluateShape_plain (e := e) hp hv
    cases h
    exact ⟨rfl, bind_of_ok hv'⟩
  | .nonempty e, a, g1, hp, h => by
    obtain ⟨v, g2, hv, h⟩ := bind_eq_ok_iff.mp h
    obtain ⟨rfl, hv'⟩ := evaluateShape_plain (e := e) hp hv
    cases h
    exact ⟨rfl, bind_of_ok hv'⟩
  | .not e, a, g1, hp, h => by
    obtain ⟨v, g2, hv, h⟩ := bind_eq_ok_iff.mp h
    obtain ⟨rfl, hv'⟩ := evaluateShape_plain (e := e) hp hv
    cases h
    exact ⟨rfl, bind_of_ok hv'⟩
  | .box e, a, g1, hp, h => by
    obtain ⟨v, g2, hv, h⟩ := bind_eq_ok_iff.mp h
    obtain ⟨rfl, hv'⟩ := evaluateShape_plain (e := e) hp hv
    cases h
    exact ⟨rfl, bind_of_ok hv'⟩
  | .either e f, a, g1, hp, h => by
    simp only [ShapeExpr.isPlain, Bool.and_eq_true] at hp
    obtain ⟨v, g2, hv, h⟩ := bind_eq_ok_iff.mp h
    obtain ⟨rfl, hv'⟩ := evaluateShape_plain hp.1 hv
    obtain ⟨w, g3, hw, h⟩ := bind_eq_ok_iff.mp h
    obtain ⟨rfl, hw'⟩ := evaluateShape_plain hp.2 hw
    cases h
    exact ⟨rfl, (bind_of_ok hv').trans (bind_of_ok hw')⟩
  | .tuple es, a, g1, hp, h => by
    obtain ⟨vs, g2, hvs, h⟩ := bind_eq_ok_iff.mp h
    obtain ⟨rfl, hvs'⟩ := evaluateShapes_plain hp hvs
    cases h
    exact ⟨rfl, bind_of_ok hvs'⟩
  | .union es, a, g1, hp, h => by
    obtain ⟨vs, g2, hvs, h⟩ := bind_eq_ok_iff.mp h
    obtain ⟨rfl, hvs'⟩ := evaluateShapes_plain hp hvs
    obtain ⟨ha, rfl⟩ := lift_resolution_eq_ok h
    refine ⟨rfl, (bind_of_ok hvs').trans ?_⟩
    rw [ha]
    rfl
  | .mapping e f, a, g1, hp, h => by
    simp only [ShapeExpr.isPlain, Bool.and_eq_true] at hp
    obtain ⟨v, g2, hv, h⟩ := bind_eq_ok_iff.mp h
    obtain ⟨rfl, hv'⟩ := evaluateShape_plain hp.1 hv
    obtain ⟨w, g3, hw, h⟩ := bind_eq_ok_iff.mp h
    obtain ⟨rfl, hw'⟩ := evaluateShape_plain hp.2 hw
    cases h
    exact ⟨rfl, (bind_of_ok hv').trans (bind_of_ok hw')⟩
  | .annotated e ns, a, g1, hp, h => by
    simp only [ShapeExpr.isPlain, Bool.and_eq_true] at hp
    obtain ⟨v, g2, hv, h⟩ := bind_eq_ok_iff.mp h
    obtain ⟨rfl, hv'⟩ := evaluateShape_plain hp.1 hv
    obtain ⟨ws, g3, hws, h⟩ := bind_eq_ok_iff.mp h
    obtain ⟨rfl, hws'⟩ := evaluateNotes_plain hp.2 hws
    split at h
    · cases h
    · rename_i hne
      obtain ⟨ha, rfl⟩ := lift_resolution_eq_ok h
      refine ⟨rfl, (bind_of_ok hv').trans ((bind_of_ok hws').trans ?_)⟩
      rw [if_neg hne, ha]
      rfl
  | .parser (.name path), a, g1, _, h => by
    obtain ⟨b, g2, hb, h⟩ := bind_eq_ok_iff.mp h
    obtain ⟨rfl, hb'⟩ := lookup_plain same hb
    cases h
    exact ⟨rfl, bind_of_ok hb'⟩

theorem evaluateShapes_plain : ∀ {es : List ShapeExpr} {as : List Shape} {g1 : Grammar},
    arePlain es = true → evaluateShapes r false es g = .ok as g1 →
      g = g1 ∧ evaluateShapes r' false es g' = .ok as g'
  | [], as, g1, _, h => by
    cases h
    exact ⟨rfl, rfl⟩
  | e :: es, as, g1, hp, h => by
    simp only [arePlain, Bool.and_eq_true] at hp
    obtain ⟨v, g2, hv, h⟩ := bind_eq_ok_iff.mp h
    obtain ⟨rfl, hv'⟩ := evaluateShape_plain hp.1 hv
    obtain ⟨vs, g3, hvs, h⟩ := bind_eq_ok_iff.mp h
    obtain ⟨rfl, hvs'⟩ := evaluateShapes_plain hp.2 hvs
    cases h
    exact ⟨rfl, (bind_of_ok hv').trans (bind_of_ok hvs')⟩

theorem evaluateNotes_plain : ∀ {ns : List NoteExpr} {as : List Shape} {g1 : Grammar},
    notesArePlain ns = true → evaluateNotes r ns g = .ok as g1 →
      g = g1 ∧ evaluateNotes r' ns g' = .ok as g'
  | [], as, g1, _, h => by
    cases h
    exact ⟨rfl, rfl⟩
  | .text s :: ns, as, g1, hp, h => by
    obtain ⟨vs, g3, hvs, h⟩ := bind_eq_ok_iff.mp h
    obtain ⟨rfl, hvs'⟩ := evaluateNotes_plain (show notesArePlain ns = true from hp) hvs
    cases h
    exact ⟨rfl, bind_of_ok hvs'⟩
  | .parser (.name path) :: ns, as, g1, hp, h => by
    obtain ⟨b, g2, hb, h⟩ := bind_eq_ok_iff.mp h
    obtain ⟨rfl, hb'⟩ := lookup_plain same hb
    obtain ⟨vs, g3, hvs, h⟩ := bind_eq_ok_iff.mp h
    obtain ⟨rfl, hvs'⟩ := evaluateNotes_plain (show notesArePlain ns = true from hp) hvs
    cases h
    exact ⟨rfl, (bind_of_ok hb').trans (bind_of_ok hvs')⟩

end

/-- A plain shape means the same wherever the same is declared. -/
theorem Grammar.Means.evaluates {e : ShapeExpr} {a : Shape} (h : g.Means e a) :
    evaluateShape r' false e g' = .ok a g' :=
  (evaluateShape_plain same h.1 h.2).2

end Plain

end ShapeGrammar
