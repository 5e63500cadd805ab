import ShapeGrammar.Proofs.Resolution.Findings

/-!
# The error kinds that are kept

A grammar is candid if the error kind that it keeps for a delayed parser is the one that the parser
announces which the delayed parser was found to be. Where nothing was found out yet, a grammar is
candid, and every resolution leaves a candid grammar candid. What carries the proof is that a mark
keeps open what is being found out: no answer displaces another one.

Headlines: `Grammar.Candid`, `candid_law`, `errorKindOf_candid`.
-/

namespace ShapeGrammar

open Resolution

/-- Every error kind that is kept for a delayed parser is the one which that parser announces. -/
structure Grammar.Candid (g : Grammar) : Prop where
  announced : ∀ {b kind}, (g.boxInfo b).errorKind = some kind →
    ∃ p, (g.boxInfo b).parser = some p ∧ g.Announces p kind

namespace Grammar

variable {g g' : Grammar}

/-- What becomes known without an error kind leaves a grammar candid. -/
theorem Candid.retained (h : g.Candid) (hlater : g.Retains g')
    (hold : ∀ {b kind}, (g'.boxInfo b).errorKind = some kind →
      (g.boxInfo b).errorKind = some kind) : g'.Candid := by
  refine ⟨fun hkind => ?_⟩
  obtain ⟨p, hp, hannounced⟩ := h.announced (hold hkind)
  exact ⟨p, hlater.box hp, hannounced.mono hlater⟩

theorem Candid.pending (h : g.Candid) (keys : List Pending) :
    ({ g with pending := keys } : Grammar).Candid :=
  h.retained (g.retains_pending keys) id

theorem empty_candid (threshold : Option LogLevel) : (empty threshold).Candid := by
  refine ⟨fun {b kind} h => ?_⟩
  rw [boxInfo_of_size_le (empty threshold) (Nat.zero_le b)] at h
  cases h

theorem Candid.pushBox (h : g.Candid) (body : Delayed) (parser : Option Parser) :
    ({ g with boxes := g.boxes.push ⟨body, parser, none⟩ } : Grammar).Candid := by
  refine h.retained (Precedes.pushBox g _).retains fun {b kind} hkind => ?_
  rw [boxInfo_push] at hkind
  split at hkind
  · cases hkind
  · exact hkind

end Grammar

/-- What is found out leaves a candid grammar candid. -/
theorem Grammar.candid_findings : FindingLaw Candid where
  made _ hg := hg.retained ⟨id, id, id⟩ id
  pending keys hg := hg.pending keys
  reports _ hg := hg.retained ⟨id, id, id⟩ id
  newBox _ hg := hg.pushBox _ _
  plan _ hopen hg := hg.retained (retains_keep_plan hopen _) id
  value _ _ hg := hg.retained ⟨id, id, id⟩ id
  handle _ _ hg := hg.retained ⟨id, id, id⟩ id
  box p hopen hg := hg.retained (retains_keep_box hopen p) fun {d kind} hd => by
    simp only [Finding.keep, Grammar.boxInfo_updateBox] at hd
    split at hd <;> exact hd
  kind {g b p kind} hopen hp h hg := by
    have hkeep := retains_keep_kind hopen kind
    refine ⟨fun {d kind'} hd => ?_⟩
    simp only [Finding.keep, Grammar.boxInfo_updateBox] at hd
    split at hd
    · rename_i hbd
      obtain ⟨rfl, -⟩ := hbd
      cases hd
      exact ⟨p, hkeep.box hp, h.mono hkeep⟩
    · obtain ⟨q, hq, hannounced⟩ := hg.announced hd
      exact ⟨q, hkeep.box hq, hannounced.mono hkeep⟩

namespace Resolution

theorem candid_steps : StepLaw (Keeps Grammar.Candid) :=
  Grammar.candid_findings.steps

/-- **Every resolution leaves a candid grammar candid.** -/
theorem candid_law : QuestionLaw (Keeps Grammar.Candid) :=
  Grammar.candid_findings.questions

end Resolution

open Resolution

/-- To ask for an error kind leaves a candid grammar candid. -/
theorem errorKindOf_candid {k : Nat} {p : Parser} {kind : Option FailureKind} {g g' : Grammar}
    (hg : g.Candid) (h : errorKindOf (resolver k) p g = .ok kind g') : g'.Candid :=
  Keeps.of_ok (candid_steps.errorKindOf (candid_law.answers k) p) hg h

end ShapeGrammar
