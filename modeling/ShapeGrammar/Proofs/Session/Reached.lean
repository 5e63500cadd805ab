import ShapeGrammar.Proofs.ErrorKinds.Made
import ShapeGrammar.Proofs.Recurrence.Sessions
import ShapeGrammar.Proofs.Resolution.Delayed

/-!
# Grammars that sessions reach

What is asked of a grammar elsewhere is true of those that a session comes to. Known plans make
their attempts in order, whatever was done. Where nothing that is delayed builds a parser, known
error kinds are those that were announced, and known plans are those that planning has made. Where
declarations that build no parser come first, what is found out later fits the declarations; so the
parser of a plain shape that a session finds then is genuine, and stays so while it runs.

Headlines: `Session.plansOrdered`, `Session.candid`, `Session.plansMade`, `Session.consistent`,
`Session.parser_wellFormed`.
-/

namespace ShapeGrammar

open Resolution Grammar

/-! ## Declarations that build no parser -/

mutual

/-- Whether no field of a class, or of one declared in it, builds a parser. -/
def ClassDecl.isPlain : ClassDecl → Bool
  | .mk _ _ fields _ _ _ variants => fields.all (·.shape.isPlain) && variantsArePlain variants

/-- Whether no class among these members builds a parser. -/
def variantsArePlain : List VariantDecl → Bool
  | [] => true
  | .nested decl :: rest => decl.isPlain && variantsArePlain rest
  | _ :: rest => variantsArePlain rest

end

/-- Whether to make a declaration builds no parser. An alias is not evaluated when it is declared.
-/
def Declaration.isPlain : Declaration → Bool
  | .alias _ _ => true
  | .parser _ value => (ShapeExpr.parser value).isPlain
  | .cls decl _ => decl.isPlain

section Unasked

variable (r r' : Resolver)

theorem declareFields_unasked : ∀ fs : List FieldDecl, fs.all (·.shape.isPlain) = true →
    declareFields r fs = declareFields r' fs
  | [], _ => rfl
  | f :: fs, h => by
    simp only [List.all_cons, Bool.and_eq_true] at h
    unfold declareFields
    rw [evaluateShape_unasked r r' true f.shape h.1, declareFields_unasked fs h.2]

mutual

theorem declareClass_unasked (outer : Option String) : ∀ decl : ClassDecl,
    decl.isPlain = true → declareClass r outer decl = declareClass r' outer decl
  | .mk name documented fields bases record isSum variants, h => by
    simp only [ClassDecl.isPlain, Bool.and_eq_true] at h
    unfold declareClass
    simp only [declareFields_unasked r r' fields h.1, declareVariants_unasked _ variants h.2]

theorem declareVariants_unasked (outer : String) : ∀ vs : List VariantDecl,
    variantsArePlain vs = true → declareVariants r outer vs = declareVariants r' outer vs
  | [], _ => rfl
  | .nested decl :: rest, h => by
    simp only [variantsArePlain, Bool.and_eq_true] at h
    unfold declareVariants
    rw [declareClass_unasked (some outer) decl h.1, declareVariants_unasked outer rest h.2]
  | .reference _ _ :: rest, h => by
    unfold declareVariants
    rw [declareVariants_unasked outer rest h]
  | .constant _ _ :: rest, h => by
    unfold declareVariants
    rw [declareVariants_unasked outer rest h]

end

/-- **To make a declaration that builds no parser asks nothing.** -/
theorem declare_unasked (number : Nat) : ∀ d : Declaration, d.isPlain = true →
    declare r number d = declare r' number d
  | .alias _ _, _ => rfl
  | .parser _ (.name _), _ => rfl
  | .cls decl derived, h => by
    simp only [declare, declareClass_unasked r r' none decl h]

end Unasked

/-! ## Grammars of which nothing is known -/

/-- Nothing was found out about a grammar. -/
structure Grammar.Unasked (g : Grammar) : Prop where
  plan : ∀ c, (g.classInfo c).plan = none
  value : ∀ a, (g.aliasInfo a).value = none
  handle : ∀ a, (g.aliasInfo a).parser = none
  box : ∀ {b body}, (g.boxInfo b).body = .shape body → (g.boxInfo b).parser = none

namespace Grammar

variable {g g' : Grammar}

/-- What is not known fits all declarations. -/
theorem Unasked.consistent (h : g.Unasked) : g.Consistent where
  value {a _} hvalue := by cases (h.value a).symm.trans hvalue
  handle {a _} hhandle := by cases (h.handle a).symm.trans hhandle
  box hparser hbody := by cases (h.box hbody).symm.trans hparser
  plan {c _} hplan := by cases (h.plan c).symm.trans hplan

theorem empty_unasked (threshold : Option LogLevel) : (empty threshold).Unasked where
  plan c := by rw [classInfo_of_size_le (empty threshold) (Nat.zero_le c)]; rfl
  value a := rfl
  handle a := rfl
  box {b _} _ := by rw [boxInfo_of_size_le (empty threshold) (Nat.zero_le b)]; rfl

theorem Unasked.pushBox (h : g.Unasked) (body : Delayed) :
    (stateAfter (newBox body) g).Unasked where
  plan := h.plan
  value := h.value
  handle := h.handle
  box {b shape} hbody := by
    replace hbody : (BoxInfo.body (Grammar.boxInfo { g with boxes := _ } b)) = _ := hbody
    show (BoxInfo.parser (Grammar.boxInfo { g with boxes := _ } b)) = none
    rw [boxInfo_push] at hbody ⊢
    split at hbody
    · rename_i hb
      rw [if_pos hb]
      cases hbody
      rfl
    · rename_i hb
      rw [if_neg hb]
      exact h.box hbody

theorem unasked_declarations : DeclarationLaw Unasked where
  steps := keeps_steps (fun _ h => ⟨h.plan, h.value, h.handle, h.box⟩)
    (fun _ h => ⟨h.plan, h.value, h.handle, h.box⟩)
    (fun _ h => ⟨h.plan, h.value, h.handle, h.box⟩) fun body h => h.pushBox body
  frame {g g'} hg h :=
    { plan := fun c => (h.plan c).trans (hg.plan c)
      value := fun a => (h.value a).trans (hg.value a)
      handle := fun a => (h.handle a).trans (hg.handle a)
      box := fun {b _} hbody => by
        unfold boxInfo at hbody ⊢
        rw [h.boxes] at hbody ⊢
        exact hg.box hbody }

end Grammar

/-- **To make a declaration that builds no parser finds nothing out.** -/
theorem declare_keeps_unasked (k number : Nat) {d : Declaration} (hd : d.isPlain = true) :
    Keeps Grammar.Unasked (declare (resolver k) number d) := by
  rw [declare_unasked (resolver k) .exhausted number d hd]
  exact unasked_declarations.declare
    ⟨fun _ => keeps_throw _, fun _ _ => keeps_throw _, fun _ => keeps_throw _⟩ number d

/-! ## Runs and sessions -/

namespace FindingLaw

variable {Inv : Grammar → Prop} (L : FindingLaw Inv)
include L

theorem report {g : Grammar} (r : Report) (hg : g.DelaysPlainly → Inv g) :
    (g.report r).DelaysPlainly → Inv (g.report r) := by
  unfold Grammar.report
  split
  · exact L.whilePlain.reports _ hg
  · exact hg

/-- A run keeps the invariant as long as nothing delayed builds a parser. -/
theorem run (k n : Nat) (entry : Entry) (p : Parser) (c : CursorId) :
    (ShapeGrammar.run (resolver k) n entry p c).Keeps fun g => g.DelaysPlainly → Inv g :=
  run_keeps (fun {_} r hg => L.report r hg) (L.obeys k) n entry p c

/-- So does a session, whatever it declares. -/
theorem session (hframe : ∀ {g g' : Grammar}, Inv g → g.Spares g' → Inv g') (k : Limits)
    {s : Session} (hs : Inv s.machine.grammar) (xs : List Session.Step) :
    (s.run k xs).2.machine.grammar.DelaysPlainly → Inv (s.run k xs).2.machine.grammar :=
  (L.declarations hframe).session (L.obeys k.questions) xs fun _ => hs

end FindingLaw

namespace Session

variable {k : Limits} {threshold : Option LogLevel}

/-- **In every session, known plans make their attempts in order.** -/
theorem plansOrdered (k : Limits) (threshold : Option LogLevel) (xs : List Step) :
    ((start threshold).run k xs).2.machine.grammar.PlansOrdered :=
  plansOrdered_declarations.session
    ⟨plansOrdered_answers k.questions, fun b _ hg =>
      ((resolver_grows k.questions).boxParser b _).plansOrdered hg⟩ xs
    (empty_plansOrdered threshold)

/-- **In a session in which nothing that is delayed builds a parser, known error kinds are those
that were announced.** -/
theorem candid (xs : List Step)
    (hplain : ((start threshold).run k xs).2.machine.grammar.DelaysPlainly) :
    ((start threshold).run k xs).2.machine.grammar.Candid :=
  candid_findings.session candid_declarations.frame k (empty_candid threshold) xs hplain

/-- **In such a session, known plans are those that planning has made.** -/
theorem plansMade (xs : List Step)
    (hplain : ((start threshold).run k xs).2.machine.grammar.DelaysPlainly) :
    ((start threshold).run k xs).2.machine.grammar.PlansMade :=
  plansMade_findings.session PlansMade.spared k (empty_plansMade threshold) xs hplain

/-- A class with a delayed field: once it was parsed, a delayed parser is known, and nothing that is
delayed builds a parser. -/
example :
    let g := ((start none).run ⟨16, fun _ => 32⟩
      [.declare (.cls (.mk "Letters" false
        [⟨"head", .character (.text "a"), .field, none⟩,
          ⟨"rest", .box (.union [.ref ⟨"Letters", []⟩, .nothing]), .field, none⟩]
        none none false []) true),
        .parse .total false (.ref ⟨"Letters", []⟩) (.fresh (.text "aa") 0) none]).2.machine.grammar
    (g.boxInfo 0).parser.isSome = true ∧ g.DelaysPlainly := by
  decide +kernel

/-! ## Declarations first -/

theorem run_append (k : Limits) : ∀ (s : Session) (xs ys : List Step),
    (s.run k (xs ++ ys)).2 = ((s.run k xs).2.run k ys).2
  | _, [], _ => rfl
  | s, x :: xs, ys => run_append k (s.step k x).2 xs ys

/-- To declare what builds no parser finds nothing out. -/
theorem unasked_declared : ∀ {s : Session} (ds : List Declaration),
    (∀ d ∈ ds, d.isPlain = true) → s.machine.grammar.Unasked →
      (s.run k (ds.map .declare)).2.machine.grammar.Unasked
  | _, [], _, hs => hs
  | s, d :: ds, hds, hs => by
    have hdeclare : (perform k s.cursors (s.declarations + 1) (.declare d)).Keeps
        Grammar.Unasked :=
      (Act.keeps_resolve (declare_keeps_unasked k.questions _ (hds d List.mem_cons_self))).bind
        fun _ => Act.keeps_pure _
    have hstep : (s.step k (.declare d)).2.machine.grammar.Unasked := by
      rw [machine_step]
      exact hdeclare _ (unasked_declarations.usage.refreshed hs)
    exact unasked_declared ds (fun e he => hds e (List.mem_cons_of_mem d he)) hstep

theorem consistent_usage : UsageLaw Grammar.Consistent where
  steps := consistent_steps
  noticed _ hg := hg.of_eq rfl rfl rfl rfl rfl
  files _ hg := hg.of_eq rfl rfl rfl rfl rfl

section Declared

variable {ds : List Declaration} {xs : List Step} (hds : ∀ d ∈ ds, d.isPlain = true)
  (hxs : ∀ x ∈ xs, x.isDeclaration = false)
include hds hxs

/-- **Where declarations that build no parser come first, what a session finds out later fits
them.** -/
theorem consistent :
    ((start threshold).run k (ds.map .declare ++ xs)).2.machine.grammar.Consistent := by
  have hdeclared := unasked_declared (k := k) ds hds (s := start threshold)
    (empty_unasked threshold)
  have hobeys : k.answers.Obeys (Keeps Grammar.Consistent) := (resolver_sound k.questions).toObeys
  rw [run_append]
  exact consistent_usage.session hobeys xs hxs hdeclared.consistent

/-- **The parser of a plain shape that such a session finds is genuine, and stays so while it
runs**; if nothing that is delayed builds a parser, the plans that it leads to are those that
planning has made, and error kinds are those that were announced. -/
theorem parser_wellFormed {a : Shape} {h : Handle} {n : Nat} {entry : Entry} {c : CursorId}
    {g : Grammar} {m m' : Machine}
    (hg : g = ((start threshold).upcoming k (ds.map .declare ++ xs)).grammar) (hplain : g.Plain a)
    (hfound : parserFor k.answers a g = .ok h m.grammar)
    (hm' : m' = stateAfter (ShapeGrammar.run k.answers n entry h.body c) m) :
    m'.grammar.Genuine h.body ∧
      (m'.grammar.DelaysPlainly → m'.grammar.Candid ∧ m'.grammar.Planned h.body) := by
  have hconsistent : g.Consistent := hg ▸ consistent_usage.refreshed (consistent hds hxs)
  -- what is found out about the parser, and while it runs, keeps all that holds before
  have hkept : ∀ {Inv : Grammar → Prop}, FindingLaw Inv → (g.DelaysPlainly → Inv g) →
      m'.grammar.DelaysPlainly → Inv m'.grammar := fun L hbefore =>
    hm' ▸ L.run k.questions n entry h.body c m
      ((L.whilePlain.steps.parserFor (L.obeys k.questions).toAnswers a).of_ok hbefore hfound)
  have hran : ∀ {Inv : Grammar → Prop}, (∀ {g : Grammar} (r : Report), Inv g → Inv (g.report r)) →
      k.answers.Obeys (Keeps Inv) → Inv m.grammar → Inv m'.grammar := fun hreport hobeys hm =>
    hm' ▸ run_keeps hreport hobeys n entry h.body c m hm
  have hlater : m.grammar.Persists m'.grammar :=
    hran (fun r h => h.trans (persists_report _ r)) ((persists_law m.grammar).resolver k.questions)
      (.refl _)
  have hsound := resolver_sound k.questions
  have hafter : m'.grammar.Consistent := hran (fun r h => h.report r) hsound.toObeys
    (parserFor_consistent hconsistent hfound)
  have hparses : m'.grammar.Parses h.body a :=
    (resolveShape_parses hsound hconsistent hfound).mono hlater
  have hfar : g.Persists m'.grammar := (persists_of_ok (fun g0 =>
    (persists_law g0).parserFor ((persists_law g0).resolver k.questions).toAnswers a)
      hfound).trans hlater
  have hplain' := hfar.throughout hplain
  refine ⟨hparses.genuine hafter hplain', fun hdelays => ⟨?_, ?_⟩⟩
  · refine hkept candid_findings (fun hbefore => ?_) hdelays
    subst hg
    exact candid_declarations.usage.refreshed (candid _ ⟨hbefore.aliases, hbefore.boxes⟩)
  · refine hparses.planned hafter (hkept plansMade_findings (fun hbefore => ?_) hdelays) hplain'
    subst hg
    exact (plansMade _ ⟨hbefore.aliases, hbefore.boxes⟩).retained ⟨id, id, id⟩ fun _ => rfl

end Declared

end Session

end ShapeGrammar
