import ShapeGrammar.Proofs.ErrorKinds.Candid
import ShapeGrammar.Proofs.ErrorKinds.Failing
import ShapeGrammar.Proofs.Peg.Refinement

/-!
# Error kinds are sound

The error kind of a parser is inferred from its structure and kept; which failure escapes from a
parse is decided while it runs. The two agree. A parser without an error kind reports no failure; a
failure that is reported is one of those that the parser may report; and it is of the kind that was
inferred, if in every sequence on the failing path no part before the one that failed has an error
kind.

The induction is on what the failure is to blame on. An error kind that was asked for is compared at
the grammar that has it at hand; the plans come from planning, which asked for the error kind of the
last attempt.

Headlines: `Plan.Made`, `Grammar.Planned`, `FailsFirst`, `Blames.announced`, `error_kinds_sound`.
-/

namespace ShapeGrammar

open Machine Resolution

/-- A plan that planning has made by now. -/
def Plan.Made (g : Grammar) (plan : Plan Parser) : Prop :=
  ∃ k schema g0 g1, planSchema (resolver k) schema g0 = .ok plan g1 ∧ g1.Retains g

/-- Plans that planning has made by now, written out as factories or not. -/
def Parser.Made (g : Grammar) : Parser → Prop
  | .planned plan => plan.Made g
  | .generated plan _ => plan.Made g
  | _ => True

/-- Every plan that a parser leads to is one that planning has made by now. -/
def Grammar.Planned (g : Grammar) (p : Parser) : Prop :=
  ∀ q, g.Leads p q → q.Made g

/-- Whoever asks for the error kind of a parser is told this one. -/
def Grammar.Tells (g : Grammar) (p : Parser) (kind : Option FailureKind) : Prop :=
  ∃ k g', errorKindOf (resolver k) p g = .ok kind g'

/-- In every sequence on the failing path, no part before the one that failed has an error kind.
What the path is, `g` knows; the error kinds are those in `known`. -/
def FailsFirst (g known : Grammar) (xs : Source) (p : Parser) (i : Nat) : Prop :=
  ∀ {before q after i' j vs}, FailingPath g xs (p, i) (.seq (before ++ q :: after), i') →
    Derives g xs (.seq before) i' (.ok j (.tuple vs)) → Derives g xs q j .fail →
      ∀ b ∈ before, known.Tells b none

/-- Neither grammar knows anything of delayed parsers and classes that the other one contradicts. -/
structure Grammar.Agrees (g g' : Grammar) : Prop where
  box : ∀ {b p q}, (g.boxInfo b).parser = some p → (g'.boxInfo b).parser = some q → p = q
  plan : ∀ {c p q}, (g.classInfo c).plan = some p → (g'.classInfo c).plan = some q → p = q

namespace Grammar

variable {g g' : Grammar} {p q : Parser}

theorem Planned.part (hp : g.Planned p) (hq : q ∈ p.parts g) : g.Planned q :=
  fun s hs => hp s (.step hq hs)

theorem Planned.made (hp : g.Planned p) : p.Made g :=
  hp p (.refl p)

theorem Retains.agrees (h : g.Retains g') : g.Agrees g' where
  box hp hq := Option.some.inj ((h.box hp).symm.trans hq)
  plan hp hq := Option.some.inj ((h.plan hp).symm.trans hq)

theorem Agrees.symm (h : g.Agrees g') : g'.Agrees g where
  box hp hq := (h.box hq hp).symm
  plan hp hq := (h.plan hq hp).symm

/-- What is at hand is what whoever asks is told. -/
theorem Announces.told {kind kind' : Option FailureKind} (h : g.Announces p kind)
    (told : g.Tells p kind') : kind = kind' := by
  obtain ⟨k, g1, hfound⟩ := told
  have hgrow := ok_precedes (grows_law.errorKindOf (resolver_grows k).toAnswers p) hfound
  exact (h.mono hgrow.retains).unique (announces_of_found hfound)

end Grammar

/-- The error kind of a plan that can fail is that of its last attempt, as planning found it. -/
theorem Plan.Made.announces {g : Grammar} {plan : Plan Parser} (h : plan.Made g)
    (fallible : ∀ b ∈ plan.attempts, b.isUnit = false) {a : Attempt Parser}
    (last : plan.attempts.getLast? = some a) : g.AnnouncesAll a.parsers plan.errorKind := by
  obtain ⟨k, schema, g0, g1, hplan, hlater⟩ := h
  cases schema with
  | product target fields =>
    obtain ⟨ps, kind, name, g2, -, hkind, -, rfl⟩ := planSchema_product hplan
    cases last
    exact sequenceErrorKind_again hkind hlater
  | sum target variants =>
    obtain ⟨-, as, kind, g2, g3, -, has, hkind, rfl⟩ := planSchema_sum hplan
    unfold sumErrorKind at hkind
    split at hkind
    · rename_i hunit
      obtain ⟨b, hb, hparsers⟩ := last_unit hunit has
      cases last.symm.trans hb
      have hfields := fallible a (List.mem_of_getLast? last)
      unfold Attempt.isUnit at hfields
      rw [hparsers] at hfields
      cases hfields
    · have hlast : as.getLast? = some a := last
      rw [hlast] at hkind
      exact sequenceErrorKind_again hkind hlater

/-- What error kind a failure is compared with: for a plan, that of the last attempt. -/
def Grammar.Infers (g : Grammar) : Parser → Option FailureKind → Prop
  | .planned plan, kind =>
    ∀ {a}, plan.attempts.getLast? = some a → g.AnnouncesAll a.parsers kind
  | .generated plan _, kind =>
    ∀ {a}, plan.attempts.getLast? = some a → g.AnnouncesAll a.parsers kind
  | p, kind => g.Announces p kind

section Blamed

variable {g known : Grammar} {xs : Source} {p q : Parser} {i j : Nat} {e : Failure}

/-- The error kind of a parser that fails is inferred as planning has it. -/
theorem Blames.infers (h : Blames g xs p i e) (made : p.Made known)
    {kind : Option FailureKind} (told : known.Announces p kind) : known.Infers p kind := by
  cases p with
  | planned plan =>
    intro a last
    cases told
    exact Plan.Made.announces made (fallible_of_fail h.fails) last
  | generated plan code =>
    intro a last
    cases told
    cases h with
    | generated body => exact Plan.Made.announces made (fallible_of_fail body.fails) last
  | _ => exact told

/-- What holds along the failing path holds along the rest of it. -/
theorem FailsFirst.step (h : FailsFirst g known xs p i) (step : FailsIn g xs (p, i) (q, j)) :
    FailsFirst g known xs q j :=
  fun path => h (.head step path)

/-- **A failure is of the kind that was inferred.** -/
theorem Blames.announced (candid : known.Candid) (agrees : g.Agrees known)
    (h : Blames g xs p i e) :
    (∀ q ∈ p.parts known, known.Planned q) → ∀ {kind}, known.Infers p kind →
      kind ≠ none ∧ (FailsFirst g known xs p i → kind = some e.kind) := by
  induction h with
  | element h | any h | satisfy h =>
    intro _ kind told
    cases told
    exact ⟨nofun, fun _ => by rw [kind_of_blame h]⟩
  | misser _ _ | not _ _ =>
    intro _ kind told
    cases told
    exact ⟨nofun, fun _ => rfl⟩
  | @seqFirst p ps i e first ih =>
    intro hparts kind told
    have hp := hparts p List.mem_cons_self
    rcases Grammar.announcesAll_cons told with ⟨k, rfl, hk⟩ | ⟨hnone, -⟩
    · obtain ⟨-, hkind⟩ := ih (fun q hq => hp.part hq) (first.infers hp.made hk)
      refine ⟨nofun, fun fails => hkind (fails.step ?_)⟩
      exact @FailsIn.part _ _ [] _ _ _ _ _ .seqNil first.fails
    · obtain ⟨hsome, -⟩ := ih (fun q hq => hp.part hq) (first.infers hp.made hnone)
      exact absurd rfl hsome
  | @seqRest p ps i j v e first rest ih =>
    intro hparts kind told
    have hrest : ∀ q ∈ Parser.parts known (.seq ps), known.Planned q :=
      fun q hq => hparts q (List.mem_cons_of_mem p hq)
    rcases Grammar.announcesAll_cons told with ⟨k, rfl, hk⟩ | ⟨hnone, hkind⟩
    · refine ⟨nofun, fun fails => ?_⟩
      obtain ⟨before, q, after, j', vs, rfl, hbefore, hq⟩ := rest.part
      have htold := @fails (p :: before) q after _ _ _ .refl (.seqCons first hbefore) hq p
        List.mem_cons_self
      cases hk.told htold
    · obtain ⟨hsome, hkind⟩ := ih hrest hkind
      refine ⟨hsome, fun fails => hkind fun {before q after i' j' vs} path hbefore hq => ?_⟩
      -- a path from the rest of the sequence is one from the whole, unless it has no step
      rcases Relation.ReflTransGen.cases_head path with heq | ⟨next, step, onward⟩
      · cases heq
        intro b hb
        exact @fails (p :: before) q after _ _ _ .refl (.seqCons first hbefore) hq b
          (List.mem_cons_of_mem p hb)
      · generalize hs : (Parser.seq ps, j) = s at step
        cases step with
        | @part before' q' after' _ _ _ matched failed =>
          cases hs
          have hwhole :=
            @FailsIn.part _ _ (p :: before') _ after' _ _ _ (.seqCons first matched) failed
          exact fails (.head hwhole onward) hbefore hq
        | _ => cases hs
  | @many1 _ body i e once ih =>
    intro hparts kind told
    have hbody := hparts body List.mem_cons_self
    obtain ⟨hsome, hkind⟩ := ih (fun q hq => hbody.part hq) (once.infers hbody.made told)
    exact ⟨hsome, fun fails => hkind (fails.step .many1)⟩
  | @either left right i e first second ih =>
    intro hparts kind told
    have hright := hparts right (List.mem_cons_of_mem left List.mem_cons_self)
    obtain ⟨hsome, hkind⟩ := ih (fun q hq => hright.part hq) (second.infers hright.made told)
    exact ⟨hsome, fun fails => hkind (fails.step .right)⟩
  | @box b p i e found body ih =>
    intro hparts kind told
    obtain ⟨q, hq, hannounced⟩ := candid.announced (findBoxErrorKind_known told)
    cases agrees.box found hq
    have hp := hparts p (Grammar.part_of_box hq)
    obtain ⟨hsome, hkind⟩ := ih (fun q hq => hp.part hq) (body.infers hp.made hannounced)
    exact ⟨hsome, fun fails => hkind (fails.step (.box found))⟩
  | @map _ body i e once ih =>
    intro hparts kind told
    have hbody := hparts body List.mem_cons_self
    obtain ⟨hsome, hkind⟩ := ih (fun q hq => hbody.part hq) (once.infers hbody.made told)
    exact ⟨hsome, fun fails => hkind (fails.step .map)⟩
  | @derived c plan i e found body ih =>
    intro hparts kind told
    obtain ⟨plan', g1, hplan, hpure⟩ := bind_eq_ok_iff.mp told
    cases hpure
    have hknown := findPlan_known hplan
    cases agrees.plan found hknown
    have hp := hparts (.planned plan) (Grammar.part_of_derived hknown)
    obtain ⟨hsome, hkind⟩ := ih (fun q hq => hp.part hq) (body.infers hp.made rfl)
    exact ⟨hsome, fun fails => hkind (fails.step (.derived found))⟩
  | @planLast plan a i e attempts fields ih =>
    intro hparts kind told
    have hlast : plan.attempts.getLast? = some a := by rw [attempts]; rfl
    obtain ⟨hsome, hkind⟩ := ih (fun q hq => hparts q (List.mem_flatMap.mpr
      ⟨a, attempts ▸ List.mem_singleton_self a, hq⟩)) (told hlast)
    exact ⟨hsome, fun fails => hkind (fails.step (.last hlast))⟩
  | @planNext plan a b rest i e attempts fields others ih =>
    intro hparts kind told
    have hlast : plan.attempts.getLast? = (b :: rest).getLast? := by
      rw [attempts, List.getLast?_cons_cons]
    have hrest : ∀ q ∈ Parser.parts known (.planned { plan with attempts := b :: rest }),
        known.Planned q := by
      intro q hq
      obtain ⟨c, hc, hqc⟩ := List.mem_flatMap.mp hq
      exact hparts q (List.mem_flatMap.mpr ⟨c, attempts ▸ List.mem_cons_of_mem a hc, hqc⟩)
    obtain ⟨hsome, hkind⟩ := ih hrest fun {c} hc => told (hlast.trans hc)
    refine ⟨hsome, fun fails => hkind fun {before q after i' j' vs} path => ?_⟩
    rcases Relation.ReflTransGen.cases_head path with heq | ⟨next, step, onward⟩
    · cases heq
    · generalize hs : (Parser.planned { plan with attempts := b :: rest }, i) = s at step
      cases step with
      | last last =>
        cases hs
        exact fails (.head (.last (hlast.trans last)) onward)
      | _ => cases hs
  | generated _ ih =>
    intro hparts kind told
    obtain ⟨hsome, hkind⟩ := ih hparts told
    exact ⟨hsome, fun fails => hkind (fails.step .generated)⟩
  | @recorded _ body i e once ih =>
    intro hparts kind told
    have hbody := hparts body List.mem_cons_self
    obtain ⟨hsome, hkind⟩ := ih (fun q hq => hbody.part hq) (once.infers hbody.made told)
    exact ⟨hsome, fun fails => hkind (fails.step .recorded)⟩

end Blamed

/-- **Error kinds are sound.** Asked for before the call or after it, the error kind of a parser
says what the total form may report. None: it reports nothing. What is reported is in any case one
of the failures that the parser may report; and it is of the kind that was told, if in every
sequence on the failing path no part before the one that failed has an error kind. (That one has an
error kind, for it failed.) -/
theorem error_kinds_sound {k k' n : Nat} {p : Parser} {c : CursorId} {m m' : Machine} {o : Outcome}
    {g known : Grammar} {kind : Option FailureKind} (hc : c < m.cursors.size)
    (hrun : run (resolver k) n .total p c m = .ok o m') (hp : m'.grammar.Genuine p)
    (hcandid : g.Candid) (hkind : errorKindOf (resolver k') p g = .ok kind known)
    (hplanned : known.Planned p)
    (hwhen : known.Retains m'.grammar ∨ m'.grammar.Retains known) :
    (kind = none → ∀ e, o ≠ .failed e) ∧
    ∀ e, o = .failed e → m'.grammar.MayReport p e.kind ∧
      (FailsFirst m'.grammar known (m.cursor c).source p (m.cursor c).position →
        kind = some e.kind) := by
  have hmeans := (run_means k n).means hc hrun hp
  have hknown := errorKindOf_candid hcandid hkind
  have hagrees : m'.grammar.Agrees known :=
    hwhen.elim (fun h => h.agrees.symm) (fun h => h.agrees)
  have hblamed : ∀ e, o = .failed e →
      Blames m'.grammar (m.cursor c).source p (m.cursor c).position e := by
    rintro e rfl
    exact hmeans.2
  have hannounced : ∀ e, o = .failed e → kind ≠ none ∧
      (FailsFirst m'.grammar known (m.cursor c).source p (m.cursor c).position →
        kind = some e.kind) := by
    intro e he
    have hblame := hblamed e he
    exact hblame.announced hknown hagrees (fun q hq => hplanned.part hq)
      (hblame.infers hplanned.made (Grammar.announces_of_found hkind))
  refine ⟨fun hnone e he => (hannounced e he).1 hnone, fun e he => ?_⟩
  exact ⟨(hblamed e he).mayReport, (hannounced e he).2⟩

/-- A letter `b`, behind an `a` or not. -/
def letterAfterOptional : Parser :=
  .seq [.opt (.element (.text "a")), .element (.text "b")]

theorem leads_letterAfterOptional {g : Grammar} {q : Parser} (h : g.Leads letterAfterOptional q) :
    q = letterAfterOptional ∨ q = .opt (.element (.text "a")) ∨ q = .element (.text "a") ∨
      q = .element (.text "b") := by
  refine h.closed (P := fun q => q = letterAfterOptional ∨ q = .opt (.element (.text "a")) ∨
    q = .element (.text "a") ∨ q = .element (.text "b")) ?_ (.inl rfl)
  rintro q s (rfl | rfl | rfl | rfl) hs <;>
    simp only [letterAfterOptional, Parser.parts, List.mem_cons, List.not_mem_nil, or_false] at hs
  · rcases hs with rfl | rfl
    · exact .inr (.inl rfl)
    · exact .inr (.inr (.inr rfl))
  · exact .inr (.inr (.inl hs))

/-- The part that comes first has no error kind, wherever the whole fails. -/
theorem failsFirst_letterAfterOptional (g known : Grammar) (xs : Source) (i : Nat) :
    FailsFirst g known xs letterAfterOptional i := by
  intro before q after i' j vs path hbefore hq b hb
  have hsingle : ∀ {before' after' : List Parser} {s : Parser},
      letterAfterOptional = .seq (before' ++ s :: after') →
      before' = [] ∧ s = .opt (.element (.text "a")) ∨
        before' = [.opt (.element (.text "a"))] ∧ s = .element (.text "b") := by
    intro before' after' s hs
    simp only [letterAfterOptional, Parser.seq.injEq] at hs
    rcases before' with _ | ⟨x, _ | ⟨y, rest⟩⟩ <;> simp_all
  rcases Relation.ReflTransGen.cases_head path with heq | ⟨next, step, onward⟩
  · rcases hsingle (Prod.mk.inj heq).1 with ⟨rfl, -⟩ | ⟨rfl, -⟩
    · cases hb
    · cases List.mem_singleton.mp hb
      exact ⟨0, known, rfl⟩
  · generalize hs : (letterAfterOptional, i) = s at step
    cases step with
    | part matched failed =>
      rcases hsingle (Prod.mk.inj hs).1 with ⟨-, rfl⟩ | ⟨-, rfl⟩
      · cases failed
      · -- one element has no parts
        rcases Relation.ReflTransGen.cases_head onward with heq | ⟨_, step, -⟩
        · cases heq
        · cases step
    | _ => cases hs

/-- On `"c"` the second part fails. The first one has no error kind, so the failure is of the kind
that was told. -/
theorem error_kinds_sound_letterAfterOptional :
    run (resolver 0) 3 .total letterAfterOptional 0 (reading (.empty none) "c") =
        .ok (.failed (.unexpectedElement (.text "b") (.text "c")))
          (stateAfter (run (resolver 0) 3 .total letterAfterOptional 0)
            (reading (.empty none) "c")) ∧
      errorKindOf (resolver 0) letterAfterOptional (.empty none) =
        .ok (some .element) (.empty none) ∧
      some FailureKind.element = some (Failure.unexpectedElement (.text "b") (.text "c")).kind := by
  have hrun : run (resolver 0) 3 .total letterAfterOptional 0 (reading (.empty none) "c") =
      .ok (.failed (.unexpectedElement (.text "b") (.text "c")))
        (stateAfter (run (resolver 0) 3 .total letterAfterOptional 0)
          (reading (.empty none) "c")) := rfl
  have hkind : errorKindOf (resolver 0) letterAfterOptional (.empty none) =
      .ok (some .element) (.empty none) := rfl
  have hgenuine : ∀ g : Grammar, g.Genuine letterAfterOptional := fun g q hq => by
    rcases leads_letterAfterOptional hq with rfl | rfl | rfl | rfl <;> trivial
  have hplanned : ∀ g : Grammar, g.Planned letterAfterOptional := fun g q hq => by
    rcases leads_letterAfterOptional hq with rfl | rfl | rfl | rfl <;> trivial
  have hsound := error_kinds_sound (by decide) hrun (hgenuine _) (Grammar.empty_candid none) hkind
    (hplanned _) (.inl (.refl _))
  exact ⟨hrun, hkind, (hsound.2 _ rfl).2 (failsFirst_letterAfterOptional _ _ _ _)⟩

end ShapeGrammar
