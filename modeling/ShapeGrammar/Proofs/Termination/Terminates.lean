import ShapeGrammar.Limits
import ShapeGrammar.Proofs.Arithmetic.Instances
import ShapeGrammar.Proofs.Termination.Checks
import ShapeGrammar.Proofs.Termination.Running

/-!
# Grammars without left recursion terminate

Where left calls do not go in a circle, limits that are wide enough are never reached. Every class
is planned, every shape that has a skeleton is resolved, and every call ends, at either entry point
and wherever in the input it is made: with a match, a miss or a failure, or at a repetition that
made no progress, or at what a function raised that changes values. The state that is left behind
fits again, so that the same holds of whatever is parsed next; and every grammar fits itself.

Headlines: `resolver_settles`, `grammar_terminates`.
-/

namespace ShapeGrammar

open Machine Resolution

variable {S : Skeletons} {base : Grammar}

/-- Following so many questions, or more, settles all classes and delayed parsers. -/
theorem resolver_settles (describes : S.Describes base) (acyclic : S.Acyclic) :
    ∃ q, S.depth < q ∧ ∀ n, q ≤ n → (resolver n).Settles S base := by
  obtain ⟨N, hN⟩ := plansFound describes acyclic
  refine ⟨max N (S.depth + 2), by omega, fun n hn => ⟨resolver_grows n, hN n (by omega), ?_⟩⟩
  obtain ⟨m, rfl⟩ : ∃ m, n = m + 1 := ⟨n - 1, by omega⟩
  exact finds_openBox (by omega)

/-- **A grammar without left calls in a circle terminates.** There is a number of questions that
settles every class and every shape, and for every skeleton and size of the input a number of calls
that lets every parser end which has the skeleton. -/
theorem grammar_terminates (describes : S.Describes base) (acyclic : S.Acyclic) :
    ∃ q, ∀ n, q ≤ n →
      (∀ {g : Grammar} {c : ClassId} {x : Skeleton}, Fits S base g → g.pending = [] →
        S.ofClass c = some x → Finds S base g ((resolver n).planOf c) fun plan g' =>
          HasSkeleton S base g' (.attempts plan.attempts) x) ∧
      (∀ {g : Grammar} {a : Shape} {x : Skeleton}, Fits S base g →
        HasSkeleton S base g (.shape S.depth a) x →
        Finds S base g (parserFor (resolver n) a) fun h g' =>
          HasSkeleton S base g' (.parser h.body) x) ∧
      ∀ (size : Nat) (x : Skeleton), ∃ N, ∀ k : Limits, k.questions = n → N ≤ k.calls size →
        ∀ {entry : Entry} {p : Parser} {c : CursorId} {m : Machine}, Begun S base c m →
          (m.cursor c).source.size = size → HasSkeleton S base m.grammar (.parser p) x →
          Concludes S base c m (k.call entry p c) m fun o m' => o.Closes S x entry c m m' := by
  obtain ⟨q, hdepth, hq⟩ := resolver_settles describes acyclic
  refine ⟨q, fun n hn => ⟨(hq n hn).plan, fun hg hx => ?_, fun size x => ?_⟩⟩
  · exact finds_parserFor (resolver_expands (Nat.lt_of_lt_of_le hdepth hn)) hg hx
  · obtain ⟨N, hN⟩ := runsEnd (acyclic.wellFounded describes.bounded) size x
    refine ⟨N, fun k hk hcalls {entry p c m} hc hsize hx => ?_⟩
    subst hk hsize
    exact (hN _ hcalls (hq _ hn)).calls hc (Nat.sub_le _ _) hx

/-! ## Arithmetic -/

namespace Arithmetic

/-- A class whose only field is a character. -/
def tokenSkeleton : Skeleton :=
  .cons (.within .leaf) .nil

/-- So many of them, one or else the next. -/
def tokensSkeleton : Nat → Skeleton
  | 0 => tokenSkeleton
  | n + 1 => .choice tokenSkeleton (tokensSkeleton n)

/-- The skeletons of the classes of arithmetic. -/
def skeletons : List (ClassId × Skeleton) :=
  [(operatorsClass, tokensSkeleton 3), (digitsClass, tokensSkeleton 9),
    (numberClass, .cons (.within (.cls digitsClass)) .nil),
    (atomClass, .choice
      (.cons (.within .leaf) (.cons (.within (.cls expressionClass)) (.cons (.within .leaf) .nil)))
      (.cons (.cls numberClass) .nil)),
    (expressionClass, .cons (.cls atomClass)
      (.cons (.optional (.row (.cons (.cls operatorsClass) (.cons (.cls atomClass) .nil)))) .nil))]

/-- Every class is above those that it calls before it has consumed anything. -/
def level (c : ClassId) : Nat :=
  if c = expressionClass then 3 else if c = atomClass then 2 else if c = numberClass then 1 else 0

theorem describes_skeletons : (Skeletons.ofTable skeletons).Describes grammar :=
  Skeletons.describes_of_checks (by decide +kernel)

theorem acyclic_skeletons : (Skeletons.ofTable skeletons).Acyclic :=
  Skeletons.acyclic_of_ranks
    (show Skeletons.ranks skeletons (fun _ => false) level = true by decide)

/-- The expression is planned, and a text is parsed to an end at either entry point. -/
theorem terminates_expression : (Skeletons.ofTable skeletons).Describes grammar ∧
    (Skeletons.ofTable skeletons).Acyclic ∧ ∃ k : Limits,
      (∃ plan g, k.answers.planOf expressionClass grammar = .ok plan g) ∧
      Concludes (Skeletons.ofTable skeletons) grammar 0 (reading grammar "(1)+2")
        (k.call .total (.derived expressionClass) 0) (reading grammar "(1)+2") (fun o m' =>
          o.Closes (.ofTable skeletons) (.cls expressionClass) .total 0 (reading grammar "(1)+2")
            m') ∧
      Concludes (Skeletons.ofTable skeletons) grammar 0 (reading grammar "(1)+2")
        (k.call .fallible (.derived expressionClass) 0) (reading grammar "(1)+2") fun o m' =>
          o.Closes (.ofTable skeletons) (.cls expressionClass) .fallible 0 (reading grammar "(1)+2")
            m' := by
  obtain ⟨q, hq⟩ := grammar_terminates describes_skeletons acyclic_skeletons
  obtain ⟨hplan, -, hcalls⟩ := hq q (Nat.le_refl q)
  obtain ⟨N, hN⟩ := hcalls 5 (.cls expressionClass)
  have hpending : grammar.pending = [] := by decide +kernel
  have hbegun : Begun (.ofTable skeletons) grammar 0 (reading grammar "(1)+2") :=
    ⟨by decide, rfl, .self _ _, hpending⟩
  have hsize : ((reading grammar "(1)+2").cursor 0).source.size = 5 := by decide +kernel
  have hderived : HasSkeleton (.ofTable skeletons) grammar (reading grammar "(1)+2").grammar
      (.parser (.derived expressionClass)) (.cls expressionClass) := .derived (by decide)
  obtain ⟨plan, g, hplanned, -⟩ := hplan (.self _ _) hpending
    (show (Skeletons.ofTable skeletons).ofClass expressionClass = _ from rfl)
  let k : Limits := ⟨q, fun _ => N⟩
  exact ⟨describes_skeletons, acyclic_skeletons, k, ⟨plan, g, hplanned⟩,
    hN k rfl (Nat.le_refl N) hbegun hsize hderived, hN k rfl (Nat.le_refl N) hbegun hsize hderived⟩

end Arithmetic

end ShapeGrammar
