import ShapeGrammar.Proofs.Entry.Lowered
import ShapeGrammar.Proofs.Grammar.Faults
import ShapeGrammar.Proofs.Recurrence.Runs

/-!
# A match that consumes nothing is made again forever

Where the body of a repetition has matched and the cursor behind the match is at the place where it
began, the next call of the body finds everything known that the first one found out, and takes the
same way: it matches up to the same place again. So a repetition that does not look at places comes
to no end, however often it may call its body.

Headlines: `Standstill`, `Standstill.again`, `Standstill.endless`.
-/

namespace ShapeGrammar

open Machine

/-- The grammar is another one in what was told only. -/
def Grammar.Retells (g g' : Grammar) : Prop :=
  ∃ reports, g' = g.withReports reports

theorem Grammar.Retells.trans {g g' g'' : Grammar} (h : g.Retells g') (h' : g'.Retells g'') :
    g.Retells g'' := by
  obtain ⟨reports, rfl⟩ := h
  obtain ⟨reports', rfl⟩ := h'
  exact ⟨reports', rfl⟩

theorem Grammar.Retells.precedes {g g' : Grammar} (h : g.Retells g') : g.Precedes g' := by
  obtain ⟨reports, rfl⟩ := h
  exact .withReports g reports

/-- Nothing was found out, so that the grammar is still what it was. -/
theorem Grammar.Retells.back {g g' : Grammar} (h : g.Retells g') : g'.Precedes g := by
  obtain ⟨reports, rfl⟩ := h
  exact .withReports (g.withReports reports) g.reports

/-- Where something is a parser in every parser's place, descriptions stop for want of fuel only. -/
theorem Grammar.describe_outOfFuel {g : Grammar} {p : Parser} {e : Stop}
    (hinert : ¬ g.Leads p .inert) (h : g.describe p = .error e) : e = .outOfFuel :=
  g.describe_stopsAt (P := (· = .outOfFuel)) rfl p (fun hp => absurd hp hinert) e h

/-- The fallible form of a body, called within limits, has matched without getting on. -/
structure Standstill (k n : Nat) (body : Parser) (place : Cursor) (g : Grammar) : Prop where
  /-- At one time, the body was called at the place and was back there when it had matched. -/
  once : ∃ s m d v m1, s < m.cursors.size ∧ m.cursor s = place ∧
    run (resolver k) n .fallible body s m = .ok (.matched d v) m1 ∧
    d < m1.cursors.size ∧ m1.cursor d = place ∧ m1.grammar = g
  /-- All that it leads to has a description. -/
  describable : ¬ g.Leads body .inert

namespace Standstill

variable {k n : Nat} {body : Parser} {place : Cursor} {g : Grammar} {m : Machine} {c : CursorId}

/-- **The body matches without getting on whenever it is called at the place again**, or has to
describe something that comes back to itself. -/
theorem again (h : Standstill (k + 1) n body place g) (hc : c < m.cursors.size)
    (hplace : m.cursor c = place) (hg : g.Retells m.grammar) :
    (∃ d v m', run (resolver (k + 1)) n .fallible body c m = .ok (.matched d v) m' ∧
        d < m'.cursors.size ∧ m'.cursor d = place ∧ g.Retells m'.grammar) ∨
      ∃ m', run (resolver (k + 1)) n .fallible body c m = .error .outOfFuel m' ∧
        g.Retells m'.grammar := by
  obtain ⟨s, m0, d, v, m1, hs, hbegan, hok, hd, hback, rfl⟩ := h.once
  have hm : Mirrors _ m0 m := .ofCalls hs hc (hplace.trans hbegan.symm) body m1.grammar
  have hlasts : Rerun.Lasts ⟨s, m0.cursors.size, c, m.cursors.size, hs, hc, body, m1.grammar,
      m.grammar⟩ body := by
    obtain ⟨reports, hreports⟩ := hg
    refine ⟨.refl body, (Grammar.Retells.precedes ⟨reports, hreports⟩).retains, ?_, ?_⟩
    · show m.grammar.threshold = m1.grammar.threshold
      rw [hreports]
      rfl
    · intro q plan a _ _ _ vs
      show m.grammar.construct a.target vs = m1.grammar.construct a.target vs
      rw [hreports]
      rfl
  have hredone := (run_recurs (k + 1) k n).redone hm (.inl rfl) hok (.refl _) hlasts
  rw [Rerun.image_own] at hredone
  obtain ⟨o, m2, hok', ho, hm2⟩ | ⟨e, m2, p, herror, hsaid, hp, hretold⟩ := hredone
  · cases ho with
    | matched hheld v =>
      refine .inl ⟨_, v, m2, hok', (hm2.image_lt_iff hheld).mpr hd, ?_, hg.trans hm2.retold⟩
      exact (hm2.cursor hheld).trans hback
  · refine .inr ⟨m2, ?_, hg.trans hretold⟩
    have hfuel : e = .outOfFuel := by
      obtain ⟨reports, hreports⟩ := hg.trans hretold
      rw [hreports, Grammar.describe_withReports] at hsaid
      exact Grammar.describe_outOfFuel (fun h' => h.describable (hp.trans h')) hsaid
    rw [herror, hfuel]

/-- **A repetition that does not look at places never ends there.** -/
theorem endless (h : Standstill (k + 1) n body place g) : ∀ (f : Nat) {m : Machine} {c : CursorId},
    c < m.cursors.size → m.cursor c = place → g.Retells m.grammar →
      ∃ m', collect (run (resolver (k + 1)) n) false body f c m = .error .outOfFuel m' ∧
        g.Retells m'.grammar
  | 0, m, _, _, _, hg => ⟨m, rfl, hg⟩
  | f + 1, m, c, hc, hplace, hg => by
    unfold collect
    -- the next call is made on a snapshot, at the same place
    rw [bind_of_ok (show Act.snapshot c m = .ok m.cursors.size _ from rfl)]
    have hlt : m.cursors.size < (m.cursors.push (m.cursor c)).size := by simp
    have hsnapshot : Machine.cursor { m with
        cursors := m.cursors.push (m.cursor c), snapshots := m.snapshots + 1 } m.cursors.size =
          place := (cursor_of_push_self rfl).trans hplace
    obtain ⟨d, v, m2, hok, hd, hback, hg2⟩ | ⟨m2, herror, hg2⟩ := h.again hlt hsnapshot hg
    · obtain ⟨m3, hrest, hg3⟩ := h.endless f hd hback hg2
      refine ⟨m3, ?_, hg3⟩
      rw [bind_of_ok hok]
      show (collect (run (resolver (k + 1)) n) false body f d >>= fun r => pure (r.1, v :: r.2)) m2
        = _
      exact bind_of_error hrest
    · exact ⟨m2, bind_of_error herror, hg2⟩

end Standstill

end ShapeGrammar
