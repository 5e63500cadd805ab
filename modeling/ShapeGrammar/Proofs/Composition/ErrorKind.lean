import ShapeGrammar.Proofs.Composition.ByHand
import ShapeGrammar.Proofs.Resolution.Again

/-!
# Error kinds of parsers written by hand

The parser that is written by hand for a schema has the error kind of the plan: in a choice only the
last arm decides, and a variant without fields, which cannot fail, is the last one. What error kind
the last attempt has is found again, because it was found once.

Headlines: `errorKindOf_choice`, `errorKind_composed`.
-/

namespace ShapeGrammar

open Resolution

/-- In a choice, only the last arm says what is wrong. -/
theorem errorKindOf_choice (r : Resolver) (g : Grammar) : ∀ {arms : List Arm} {a : Arm},
    arms.getLast? = some a →
      errorKindOf r (.choice (arms.map (·.parser g))) = sequenceErrorKind r a.parsers
  | [], _, h => by cases h
  | [_], _, h => by
    cases h
    rfl
  | _ :: b :: rest, a, h => by
    rw [List.getLast?_cons_cons] at h
    have ih := errorKindOf_choice r g h
    exact ih

/-- **The parser that is written by hand has the error kind of the plan.** -/
theorem errorKind_composed {k k' : Nat} {schema : Schema} {plan : Plan Parser}
    {g g1 g2 : Grammar} (h : planSchema (resolver k) schema g = .ok plan g1)
    (hlater : g1.Precedes g2) (gc : Grammar) :
    errorKindOf (resolver (k' + 1)) (schema.composed gc (plan.attempts.map (·.arm))) g2 =
      .ok plan.errorKind g2 := by
  cases schema with
  | product target fields =>
    obtain ⟨ps, kind, name, g3, -, hkind, -, rfl⟩ := planSchema_product h
    exact sequenceErrorKind_again hkind hlater.retains
  | sum target variants =>
    obtain ⟨-, as, kind, g3, g4, -, has, hkind, rfl⟩ := planSchema_sum h
    have hlast : ∀ {a : Attempt Parser}, as.getLast? = some a →
        errorKindOf (resolver (k' + 1)) (Schema.composed gc (.sum target variants)
          (as.map (·.arm))) = sequenceErrorKind (resolver (k' + 1)) a.parsers := by
      intro a ha
      refine errorKindOf_choice _ gc (a := a.arm) ?_
      rw [List.getLast?_map, ha]
      rfl
    unfold sumErrorKind at hkind
    split at hkind
    · rename_i hunit
      cases hkind
      obtain ⟨a, ha, hparsers⟩ := last_unit hunit has
      rw [hlast ha, hparsers]
      rfl
    · cases ha : as.getLast? with
      | some a =>
        simp only [ha] at hkind
        rw [hlast ha]
        exact sequenceErrorKind_again hkind hlater.retains
      | none =>
        simp only [ha] at hkind
        cases hkind

end ShapeGrammar
