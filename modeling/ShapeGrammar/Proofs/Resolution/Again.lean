import ShapeGrammar.Proofs.Resolution.Growth

/-!
# Error kinds that are found again

What error kind a parser has follows from the plans of classes, from what delayed parsers are, and
from their error kinds. Where none of these gets lost, an error kind that was found once is found
again, and it takes a single question: the grammar has the answer.

Headlines: `Grammar.Retains`, `Grammar.Announces`, `errorKindOf_again`.
-/

namespace ShapeGrammar

open Resolution

/-- Of what error kinds are found by, `g'` knows everything that `g` does. -/
structure Grammar.Retains (g g' : Grammar) : Prop where
  plan : ∀ {c plan}, (g.classInfo c).plan = some plan → (g'.classInfo c).plan = some plan
  box : ∀ {b p}, (g.boxInfo b).parser = some p → (g'.boxInfo b).parser = some p
  kind : ∀ {b kind}, (g.boxInfo b).errorKind = some kind → (g'.boxInfo b).errorKind = some kind

/-- The grammar has the error kind of a parser at hand. -/
def Grammar.Announces (g : Grammar) (p : Parser) (kind : Option FailureKind) : Prop :=
  errorKindOf (resolver 1) p g = .ok kind g

/-- The grammar has the error kind of a sequence at hand. -/
def Grammar.AnnouncesAll (g : Grammar) (ps : List Parser) (kind : Option FailureKind) : Prop :=
  sequenceErrorKind (resolver 1) ps g = .ok kind g

namespace Grammar

variable {g g' g'' : Grammar}

theorem Retains.refl (g : Grammar) : g.Retains g :=
  ⟨id, id, id⟩

theorem Retains.trans (h : g.Retains g') (h' : g'.Retains g'') : g.Retains g'' :=
  ⟨fun k => h'.plan (h.plan k), fun k => h'.box (h.box k), fun k => h'.kind (h.kind k)⟩

theorem Precedes.retains (h : g.Precedes g') : g.Retains g' where
  plan {c _} k := h.known (f := .plan c) k
  box {b _} k := h.known (f := .box b) k
  kind {b _} k := h.known (f := .kind b) k

/-- What is being found out makes no difference to what is known. -/
theorem retains_pending (g : Grammar) (keys : List Pending) :
    g.Retains { g with pending := keys } :=
  ⟨id, id, id⟩

end Grammar

mutual

/-- **An error kind that was found is found again**, whatever was found out since. -/
theorem errorKindOf_again {k k' : Nat} {g2 : Grammar} : ∀ {p : Parser} {g g1 : Grammar}
    {kind : Option FailureKind}, errorKindOf (resolver k) p g = .ok kind g1 → g1.Retains g2 →
      errorKindOf (resolver (k' + 1)) p g2 = .ok kind g2
  | .element _, _, _, _, h, _ => by cases h; rfl
  | .any, _, _, _, h, _ => by cases h; rfl
  | .satisfy _ _, _, _, _, h, _ => by cases h; rfl
  | .seq _, _, _, _, h, hlater => sequenceErrorKind_again h hlater
  | .opt _, _, _, _, h, _ => by cases h; rfl
  | .many _ _, _, _, _, h, _ => by cases h; rfl
  | .many1 _ body, _, _, _, h, hlater => errorKindOf_again (p := body) h hlater
  | .either _ right, _, _, _, h, hlater => errorKindOf_again (p := right) h hlater
  | .not _, _, _, _, h, _ => by cases h; rfl
  | .box b, _, _, _, h, hlater => by
    cases k with
    | zero => cases h
    | succ k =>
      have hknown := hlater.kind (findBoxErrorKind_known h)
      exact remember_of_known (f := .kind b) hknown _
  | .map _ body, _, _, _, h, hlater => errorKindOf_again (p := body) h hlater
  | .derived c, _, _, _, h, hlater => by
    obtain ⟨plan, g3, hplan, h⟩ := bind_eq_ok_iff.mp h
    cases h
    cases k with
    | zero => cases hplan
    | succ k =>
      have hknown := hlater.plan (findPlan_known hplan)
      exact bind_of_ok (remember_of_known (f := .plan c) hknown _)
  | .planned _, _, _, _, h, _ => by cases h; rfl
  | .generated _ _, _, _, _, h, _ => by cases h; rfl
  | .recorded _ body, _, _, _, h, hlater => errorKindOf_again (p := body) h hlater
  | .misser _, _, _, _, h, _ => by cases h; rfl
  | .unimplemented, _, _, _, h, _ => by cases h; rfl
  | .inert, _, _, _, h, _ => by cases h

theorem sequenceErrorKind_again {k k' : Nat} {g2 : Grammar} : ∀ {ps : List Parser}
    {g g1 : Grammar} {kind : Option FailureKind},
    sequenceErrorKind (resolver k) ps g = .ok kind g1 → g1.Retains g2 →
      sequenceErrorKind (resolver (k' + 1)) ps g2 = .ok kind g2
  | [], _, _, _, h, _ => by cases h; rfl
  | p :: ps, g, g1, kind, h, hlater => by
    unfold sequenceErrorKind at h ⊢
    obtain ⟨first, g3, hfirst, h⟩ := bind_eq_ok_iff.mp h
    cases first with
    | some found =>
      cases h
      rw [bind_of_ok (errorKindOf_again hfirst hlater)]
      rfl
    | none =>
      have hgrow := ok_precedes (grows_law.sequenceErrorKind (resolver_grows k).toAnswers ps) h
      rw [bind_of_ok (errorKindOf_again hfirst (hgrow.retains.trans hlater))]
      exact sequenceErrorKind_again h hlater

end

namespace Grammar

variable {g g' : Grammar} {p : Parser} {ps : List Parser} {kind kind' : Option FailureKind}

/-- What was found when it was asked for is at hand from then on. -/
theorem announces_of_found {k : Nat} (h : errorKindOf (resolver k) p g = .ok kind g') :
    g'.Announces p kind :=
  errorKindOf_again h (.refl g')

theorem Announces.mono (h : g.Announces p kind) (hlater : g.Retains g') : g'.Announces p kind :=
  errorKindOf_again h hlater

theorem AnnouncesAll.mono (h : g.AnnouncesAll ps kind) (hlater : g.Retains g') :
    g'.AnnouncesAll ps kind :=
  sequenceErrorKind_again h hlater

/-- A parser has one error kind. -/
theorem Announces.unique (h : g.Announces p kind) (h' : g.Announces p kind') : kind = kind' := by
  cases h.symm.trans h'
  rfl

/-- The error kind of a sequence is that of its first part, unless that part cannot fail. -/
theorem announcesAll_cons (h : g.AnnouncesAll (p :: ps) kind) :
    (∃ k, kind = some k ∧ g.Announces p (some k)) ∨
      (g.Announces p none ∧ g.AnnouncesAll ps kind) := by
  unfold AnnouncesAll sequenceErrorKind at h
  obtain ⟨first, g1, hfirst, h⟩ := bind_eq_ok_iff.mp h
  cases first with
  | some k =>
    cases h
    exact .inl ⟨k, rfl, hfirst⟩
  | none =>
    have hback : g1.Retains g :=
      (ok_precedes (grows_law.sequenceErrorKind (resolver_grows 1).toAnswers ps) h).retains
    exact .inr ⟨errorKindOf_again hfirst hback, sequenceErrorKind_again h (.refl g)⟩

end Grammar

end ShapeGrammar
