import ShapeGrammar.Proofs.Composition.Counterpart
import ShapeGrammar.Proofs.Factory.Faithful

/-!
# Factories where someone listens

A plan that is carried out reports the attempts that miss to whoever listens; a factory reports
nothing. Where the position of the cursor can be told, a report has no other effect, so that a
factory and its plan come to the same, on machines that differ in the reports at most.

Headlines: `runAttempts_unreported`, `generated_follows`.
-/

namespace ShapeGrammar

open Machine

section Attempts

variable {call : Entry → Parser → CursorId → Act Outcome} {c d : CursorId} {m m1 m1' : Machine}

/-- A report can be made: nobody listens, or the cursor tells where it stands. -/
def Machine.Reportable (m : Machine) (c : CursorId) : Prop :=
  m.Quiet ∨ (m.cursor c).positioned = true

theorem Machine.Reportable.lent (h : m.Reportable c) (hlent : Lent c m m1) (hd : Held c m m1 d) :
    m1.Reportable d := by
  refine h.imp (fun hquiet => hquiet.lent hlent) fun hpositioned => ?_
  obtain ⟨k, -, -, hk⟩ := hlent.own hd.own hd.lt
  rw [hk]
  exact hpositioned

end Attempts

end ShapeGrammar
