import ShapeGrammar.Proofs.Grouping.Alternatives
import ShapeGrammar.Proofs.Grouping.Sequences

/-!
# Grouping makes no difference

Parsers are put together two at a time, and there are several ways to put the same ones together. It
can be told from the values of matches which one was taken, and from the reports of misses, but not
from where a match ends, from what was called and read on the way, or from the errors that there may
be. A sequence that is written part by part is flat in the first place.

Where someone listens to misses, the arms of a choice are described, and an arm of one grouping may
have a part without a description which no arm that is described in the other one has.

Headlines: `grouping_irrelevant`, `grouping_undescribed`.
-/

namespace ShapeGrammar

open Machine

/-! ## Error kinds -/

/-- The error kind, or else what is asked for next. -/
def kindOrElse (rest : Resolution (Option FailureKind)) :
    Option FailureKind → Resolution (Option FailureKind)
  | some kind => pure (some kind)
  | none => rest

theorem sequenceErrorKind_cons (r : Resolver) (p : Parser) (ps : List Parser) :
    sequenceErrorKind r (p :: ps) = errorKindOf r p >>= kindOrElse (sequenceErrorKind r ps) := by
  conv_lhs => unfold sequenceErrorKind
  rfl

theorem sequenceErrorKind_append (r : Resolver) (ps qs : List Parser) :
    sequenceErrorKind r (ps ++ qs) =
      sequenceErrorKind r ps >>= kindOrElse (sequenceErrorKind r qs) := by
  induction ps with
  | nil => rfl
  | cons p ps ih =>
    rw [List.cons_append, sequenceErrorKind_cons, sequenceErrorKind_cons, ih, bind_assoc]
    congr 1
    funext kind
    cases kind with
    | some kind => rfl
    | none => rfl

/-- The parts of a sequence have their say where the sequence has. -/
theorem errorKindOf_nested (r : Resolver) (ps qs rs : List Parser) :
    errorKindOf r (.seq (ps ++ .seq qs :: rs)) = errorKindOf r (.seq (ps ++ (qs ++ rs))) := by
  have hnested : sequenceErrorKind r (.seq qs :: rs) = sequenceErrorKind r (qs ++ rs) := by
    rw [sequenceErrorKind_cons, sequenceErrorKind_append r qs rs]
    rfl
  show sequenceErrorKind r _ = sequenceErrorKind r _
  rw [sequenceErrorKind_append, sequenceErrorKind_append, hnested]

/-! ## Sequences, part by part -/

/-- A sequence takes parts on one by one. -/
theorem foldl_followedBy : ∀ (qs ps : List Parser),
    qs.foldl Parser.followedBy (.seq ps) = .seq (ps ++ qs)
  | [], ps => by rw [List.append_nil]; rfl
  | q :: qs, ps => by
    show qs.foldl Parser.followedBy (.seq (ps ++ [q])) = _
    rw [foldl_followedBy, List.append_assoc]
    rfl

theorem followedBy_of_ne_seq {p : Parser} (hp : ∀ parts, p ≠ .seq parts) (q : Parser) :
    p.followedBy q = .seq [p, q] := by
  unfold Parser.followedBy
  split
  · exact absurd rfl (hp _)
  · rfl

/-! ## All groupings -/

/-- **It makes no difference how parsers are grouped.** A sequence within a sequence ends as the
flat one does, and a choice of three ends as it does however it is grouped, with the same outcome,
or the same stop, and with machines that nothing but the reports of misses tells apart. Less fuel
may run out, and where someone listens to misses, what cannot be described may stop a choice. Both
have the same error kind, and parsers that follow each other are one flat sequence if the first one
is none. -/
theorem grouping_irrelevant (k n n' : Nat) (entry : Entry) {c : CursorId} {m : Machine}
    (hc : c < m.cursors.size) :
    (∀ ps qs rs : List Parser,
      Meets m.Agrees (n ≤ n') (n' ≤ n) (fun _ => False)
        (Outcome.Regrouped (Value.Spliced ps.length qs.length) c m)
        (run (resolver k) n entry (.seq (ps ++ .seq qs :: rs)) c m)
        (run (resolver k) n' entry (.seq (ps ++ (qs ++ rs))) c m) ∧
      errorKindOf (resolver k) (.seq (ps ++ .seq qs :: rs)) =
        errorKindOf (resolver k) (.seq (ps ++ (qs ++ rs)))) ∧
    (∀ p q r : Parser,
      Meets m.Agrees (n ≤ n') (n' ≤ n) (m.Speechless (.either p (.either q r)))
        (Outcome.Regrouped Value.Retagged c m)
        (run (resolver k) n entry (.either (.either p q) r) c m)
        (run (resolver k) n' entry (.either p (.either q r)) c m) ∧
      errorKindOf (resolver k) (.either (.either p q) r) =
        errorKindOf (resolver k) (.either p (.either q r))) ∧
    ∀ (p q : Parser) (rest : List Parser), (∀ parts, p ≠ .seq parts) →
      (q :: rest).foldl Parser.followedBy p = .seq (p :: q :: rest) := by
  refine ⟨fun ps qs rs => ⟨?_, errorKindOf_nested _ ps qs rs⟩, fun p q r => ⟨?_, rfl⟩, ?_⟩
  · exact sequences_regrouped k n n' entry ps qs rs hc
  · exact alternatives_regrouped k n n' p q r entry hc
  · intro p q rest hp
    show rest.foldl Parser.followedBy (p.followedBy q) = _
    rw [followedBy_of_ne_seq hp, foldl_followedBy]
    rfl

/-- On `"b"`, the second of three alternatives matches. A sequence that comes later stays a part. -/
theorem grouping_irrelevant_letters :
    (∃ m m', run (resolver 0) 4 .total (.either (.either (.element (.text "c"))
          (.element (.text "b"))) .any) 0 (reading (.empty none) "b") =
        .ok (.matched 1 (.left (.right (.text "b")))) m ∧
      run (resolver 0) 4 .total (.either (.element (.text "c"))
          (.either (.element (.text "b")) .any)) 0 (reading (.empty none) "b") =
        .ok (.matched 2 (.right (.left (.text "b")))) m' ∧
      (reading (.empty none) "b").Agrees m m') ∧
    [.seq [.any], .any].foldl Parser.followedBy (.opt .any) =
      .seq [.opt .any, .seq [.any], .any] := by
  have hc : 0 < (reading (.empty none) "b").cursors.size := by decide
  obtain ⟨-, halternatives, hflat⟩ := grouping_irrelevant 0 4 4 .total hc
  refine ⟨⟨_, _, rfl, rfl, ?_⟩, hflat (.opt .any) (.seq [.any]) [.any] fun parts h => nomatch h⟩
  obtain ⟨hruns, -⟩ := halternatives (.element (.text "c")) (.element (.text "b")) .any
  cases hruns with
  | answered answers =>
    cases answers with
    | matched _ _ _ agrees => exact agrees

/-- A part whose description has no end is not described in the choice that is grouped to the left:
the first two arms are, where the first one misses. In the choice that is grouped to the right, it
is, and the choice does not come to an end, with any amount of fuel. -/
theorem grouping_undescribed :
    (∀ depth, (Grammar.knotted (some .debug)).describeBox depth 0 = .error .outOfFuel) ∧
    ∀ k n, (∃ m, run (resolver k) (n + 4) .fallible
        (.either (.either (.element (.text "c")) (.element (.text "b")))
          (.seq [.element (.text "a"), .box 0])) 0
        (reading (.knotted (some .debug)) "b") = .ok (.matched 1 (.left (.right (.text "b")))) m) ∧
      ∃ m, run (resolver k) (n + 4) .fallible
        (.either (.element (.text "c"))
          (.either (.element (.text "b")) (.seq [.element (.text "a"), .box 0]))) 0
        (reading (.knotted (some .debug)) "b") = .error .outOfFuel m :=
  ⟨Grammar.describeBox_knot rfl, fun _ _ => ⟨⟨_, rfl⟩, _, rfl⟩⟩

end ShapeGrammar
