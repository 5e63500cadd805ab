import ShapeGrammar.Arithmetic.Parse
import ShapeGrammar.Proofs.Arithmetic.Instances
import ShapeGrammar.Proofs.Peg.Certain

/-!
# What is found out about the grammar of arithmetic

The plan of an expression is made from the plans of all other classes, but for the operators, which
stand behind an atom, and the delayed parser of the expression in parentheses: these are found out
when the first operator or parenthesis is tried, in either order. So a grammar is in one of five
stages from then on. Which plans there are in a stage, and which follows it, is computed.

Headlines: `stages`, `setting`, `plans_digits`, `plans_operators`, `opens_expression`.
-/

namespace ShapeGrammar.Arithmetic

open Resolution

/-! ## Stages -/

/-- The answers to questions about the grammar. -/
def answers : Resolver :=
  Limits.standard.answers

/-- The expression is planned. -/
def planned : Grammar :=
  stateAfter (answers.planOf expressionClass) grammar

/-- The operators are planned, too. -/
def afterOperators (g : Grammar) : Grammar :=
  stateAfter (answers.planOf operatorsClass) g

/-- The delayed parser is found out, too. -/
def afterBox (g : Grammar) : Grammar :=
  stateAfter (answers.boxParser 0) g

/-- The stages that the grammar may be in once the expression is planned. -/
def stages : List Grammar :=
  [planned, afterOperators planned, afterBox planned, afterBox (afterOperators planned),
    afterOperators (afterBox planned)]

theorem precedes_afterOperators (g : Grammar) : g.Precedes (afterOperators g) := by
  have hgrows : answers.Obeys Resolution.Grows := resolver_grows _
  exact hgrows.planOf _ g

theorem precedes_afterBox (g : Grammar) : g.Precedes (afterBox g) := by
  have hgrows : answers.Obeys Resolution.Grows := resolver_grows _
  exact hgrows.boxParser _ g

theorem precedes_stage {g : Grammar} (h : g ∈ stages) : grammar.Precedes g := by
  have hgrows : answers.Obeys Resolution.Grows := resolver_grows _
  have hplanned : grammar.Precedes planned := hgrows.planOf _ grammar
  simp only [stages, List.mem_cons, List.not_mem_nil, or_false] at h
  rcases h with rfl | rfl | rfl | rfl | rfl
  · exact hplanned
  · exact hplanned.trans (precedes_afterOperators _)
  · exact hplanned.trans (precedes_afterBox _)
  · exact (hplanned.trans (precedes_afterOperators _)).trans (precedes_afterBox _)
  · exact (hplanned.trans (precedes_afterBox _)).trans (precedes_afterOperators _)

/-- A text parsed in one of the stages. -/
def setting (text : String) : Setting where
  questions := Limits.standard.questions
  source := .ofText text
  Stage g := g ∈ stages
  quiet {g} hg := by
    have h : (LogLevel.debug.heardFrom grammar.threshold) = false := by decide +kernel
    rwa [(precedes_stage hg).threshold]

variable {text : String}

/-! ## Construction -/

/-- The classes that trees are instances of, with their fields. -/
def instanceFields : List (ClassId × List String) :=
  (List.finRange 10).map (fun d => (digitClass d, ["char"])) ++
    ([Operator.plus, .minus, .times, .divide].map (fun o => (o.cls, ["char"])) ++
      [(numberClass, ["digits"]), (groupClass, ["open", "inner", "close"]),
        (literalClass, ["number"]), (expressionClass, ["head", "tail"])])

theorem storesExactly_of_mem {c : ClassId} {names : List String}
    (h : (c, names) ∈ instanceFields) : grammar.storesExactly c names = true := by
  have hall : (instanceFields.all fun e => grammar.storesExactly e.1 e.2) = true := by
    decide +kernel
  exact List.all_eq_true.mp hall (c, names) h

theorem builds {c : ClassId} {names : List String} {vs : List Value}
    (h : grammar.storesExactly c names = true) (hlength : vs.length = names.length) :
    (setting text).Builds (.declared c) vs (built c names vs) := fun {_} hg =>
  ((precedes_stage hg).construct_eq _ _).trans (Grammar.construct_of_storesExactly h hlength)

/-! ## Questions -/

/-- Whether a question is answered, by something that passes a check. -/
def answered {α : Type} (x : Resolution α) (check : α → Bool) (g : Grammar) : Bool :=
  match x g with
  | .ok a _ => check a
  | .error _ _ => false

theorem of_answered {α : Type} {x : Resolution α} {check : α → Bool} {g : Grammar}
    (h : answered x check g = true) : ∃ a, x g = .ok a (stateAfter x g) ∧ check a = true := by
  unfold answered at h
  cases hx : x g with
  | ok a g' =>
    rw [hx] at h
    exact ⟨a, by rw [stateAfter_of_ok hx], h⟩
  | error e g' => simp [hx] at h

/-- Whether a class has a plan with attempts that pass a check. -/
def knows (c : ClassId) (check : List (Attempt Parser) → Bool) (g : Grammar) : Bool :=
  match (g.classInfo c).plan with
  | some plan => check plan.attempts
  | none => false

/-- A plan that is there is the answer. -/
theorem planOf_of_knows {c : ClassId} {check : List (Attempt Parser) → Bool} {g : Grammar}
    (h : knows c check g = true) :
    ∃ plan, answers.planOf c g = .ok plan g ∧ check plan.attempts = true := by
  unfold knows at h
  cases hplan : (g.classInfo c).plan with
  | none => simp [hplan] at h
  | some plan =>
    rw [hplan] at h
    exact ⟨plan, remember_of_known (f := .plan c) hplan _, h⟩

/-! ## Forms of plans -/

/-- Whether a parser is that of a character. -/
def isCharacter (c : Char) : Parser → Bool
  | .map change (.element (.text s)) =>
    s == String.singleton c &&
      match change (.text s) with
      | .ok (.char d) => d == c
      | _ => false
  | _ => false

/-- Whether an attempt reads a character and constructs a class from it. -/
def isToken (a : Attempt Parser) (e : ClassId × Char) : Bool :=
  a.target == .declared e.1 &&
    match a.parsers with
    | [p] => isCharacter e.2 p
    | _ => false

/-- Whether attempts read a character each, the last one without a snapshot. -/
def areTokens : List (Attempt Parser) → List (ClassId × Char) → Bool
  | [a], [e] => isToken a e && !a.snapshot
  | a :: as, e :: es => isToken a e && a.snapshot && areTokens as es
  | _, _ => false

/-- Whether a number is planned as digits in a row. -/
def isNumberPlan : List (Attempt Parser) → Bool
  | [⟨_, target, [.many1 true (.derived c)], snapshot⟩] =>
    target == .declared numberClass && c == digitsClass && !snapshot
  | _ => false

/-- Whether an atom is planned as an expression in parentheses or a number. -/
def isAtomPlan : List (Attempt Parser) → Bool
  | [⟨_, target, [opening, .box b, closing], snapshot⟩, ⟨_, target', [.derived c], snapshot'⟩] =>
    target == .declared groupClass && isCharacter '(' opening && b == 0 &&
      isCharacter ')' closing && snapshot && target' == .declared literalClass &&
        c == numberClass && !snapshot'
  | _ => false

/-- Whether an expression is planned as an atom and a list of operators with an atom each. -/
def isExpressionPlan : List (Attempt Parser) → Bool
  | [⟨_, target, [.derived c, .many true (.seq [.derived o, .derived c'])], snapshot⟩] =>
    target == .declared expressionClass && c == atomClass && o == operatorsClass &&
      c' == atomClass && !snapshot
  | _ => false

/-- Whether a parser is that of an expression. -/
def isExpression : Parser → Bool
  | .derived c => c == expressionClass
  | _ => false

/-- The classes of the digits with their characters. -/
def digitTokens : List (ClassId × Char) :=
  (List.finRange 10).map fun d => (digitClass d, digitChar d)

/-- The classes of the operators with their characters. -/
def operatorTokens : List (ClassId × Char) :=
  [Operator.plus, .minus, .times, .divide].map fun o => (o.cls, o.char)

/-! ## The plans -/

/-- The classes that are planned with the expression, with the forms of their plans. -/
def forms : List (ClassId × (List (Attempt Parser) → Bool)) :=
  [(digitsClass, (areTokens · digitTokens)), (numberClass, isNumberPlan), (atomClass, isAtomPlan),
    (expressionClass, isExpressionPlan)]

/-- Whether all plans have their form, those of the operators and the delayed parser once they are
asked for. -/
def inForm (g : Grammar) : Bool :=
  (forms.all fun form => knows form.1 form.2 g) &&
    (answered (answers.planOf operatorsClass)
        (fun plan => areTokens plan.attempts operatorTokens) g &&
      answered (answers.boxParser 0) isExpression g)

/-- All stages are computed here, and nowhere else. -/
theorem inForm_of_mem {g : Grammar} (h : g ∈ stages) : inForm g = true := by
  have hall : stages.all inForm = true := by decide +kernel
  exact List.all_eq_true.mp hall g h

theorem plans_of_form {c : ClassId} {check : List (Attempt Parser) → Bool}
    (h : (c, check) ∈ forms) :
    (setting text).Plans c fun plan => check plan.attempts = true := fun {g} hg => by
  have hforms := (Bool.and_eq_true_iff.mp (inForm_of_mem hg)).1
  obtain ⟨plan, hplan, hcheck⟩ := planOf_of_knows (List.all_eq_true.mp hforms _ h)
  exact ⟨plan, g, hplan, hcheck, hg⟩

theorem plans_digits :
    (setting text).Plans digitsClass fun plan => areTokens plan.attempts digitTokens = true :=
  @plans_of_form text _ (areTokens · digitTokens) (.head _)

theorem plans_number :
    (setting text).Plans numberClass fun plan => isNumberPlan plan.attempts = true :=
  plans_of_form (.tail _ (.head _))

theorem plans_atom : (setting text).Plans atomClass fun plan => isAtomPlan plan.attempts = true :=
  plans_of_form (.tail _ (.tail _ (.head _)))

theorem plans_expression :
    (setting text).Plans expressionClass fun plan => isExpressionPlan plan.attempts = true :=
  plans_of_form (.tail _ (.tail _ (.tail _ (.head _))))

theorem planOf_operators {g : Grammar} (h : g ∈ stages) :
    ∃ plan, answers.planOf operatorsClass g = .ok plan (afterOperators g) ∧
      areTokens plan.attempts operatorTokens = true :=
  of_answered (Bool.and_eq_true_iff.mp (Bool.and_eq_true_iff.mp (inForm_of_mem h)).2).1

theorem boxParser_expression {g : Grammar} (h : g ∈ stages) :
    answers.boxParser 0 g = .ok (.derived expressionClass) (afterBox g) := by
  obtain ⟨p, hp, hcheck⟩ :=
    of_answered (Bool.and_eq_true_iff.mp (Bool.and_eq_true_iff.mp (inForm_of_mem h)).2).2
  cases p with
  | derived c =>
    cases beq_iff_eq.mp hcheck
    exact hp
  | _ => cases hcheck

/-- Once the operators are planned, they are planned for good. -/
theorem afterOperators_of_precedes {g g' : Grammar} (h : g ∈ stages)
    (hg : (afterOperators g).Precedes g') : afterOperators g' = g' := by
  obtain ⟨plan, hplan, -⟩ := planOf_operators h
  have hknown := hg.known (f := .plan operatorsClass) (planOf_known hplan)
  exact stateAfter_of_ok (remember_of_known hknown _)

/-- A delayed parser that is found out stays what it is. -/
theorem afterBox_of_precedes {g g' : Grammar} (h : g ∈ stages)
    (hg : (afterBox g).Precedes g') : afterBox g' = g' := by
  have hknown := hg.known (f := .box 0) (boxParser_known (boxParser_expression h))
  exact stateAfter_of_ok (remember_of_known hknown _)

theorem planned_mem : planned ∈ stages :=
  .head _

theorem afterBox_planned_mem : afterBox planned ∈ stages :=
  .tail _ (.tail _ (.head _))

theorem afterOperators_planned_mem : afterOperators planned ∈ stages :=
  .tail _ (.head _)

theorem afterOperators_mem {g : Grammar} (h : g ∈ stages) : afterOperators g ∈ stages := by
  have hmem := h
  simp only [stages, List.mem_cons, List.not_mem_nil, or_false] at h
  rcases h with rfl | rfl | rfl | rfl | rfl
  · exact afterOperators_planned_mem
  · rwa [afterOperators_of_precedes planned_mem (.refl _)]
  · exact .tail _ (.tail _ (.tail _ (.tail _ (.head _))))
  · rwa [afterOperators_of_precedes planned_mem (precedes_afterBox _)]
  · rwa [afterOperators_of_precedes afterBox_planned_mem (.refl _)]

theorem afterBox_mem {g : Grammar} (h : g ∈ stages) : afterBox g ∈ stages := by
  have hmem := h
  simp only [stages, List.mem_cons, List.not_mem_nil, or_false] at h
  rcases h with rfl | rfl | rfl | rfl | rfl
  · exact afterBox_planned_mem
  · exact .tail _ (.tail _ (.tail _ (.head _)))
  · rwa [afterBox_of_precedes planned_mem (.refl _)]
  · rwa [afterBox_of_precedes afterOperators_planned_mem (.refl _)]
  · rwa [afterBox_of_precedes planned_mem (precedes_afterOperators _)]

theorem plans_operators :
    (setting text).Plans operatorsClass fun plan =>
      areTokens plan.attempts operatorTokens = true := fun {g} hg => by
  obtain ⟨plan, hplan, hcheck⟩ := planOf_operators hg
  exact ⟨plan, _, hplan, hcheck, afterOperators_mem hg⟩

theorem opens_expression : (setting text).Opens 0 (.derived expressionClass) := fun {_} hg =>
  ⟨_, boxParser_expression hg, afterBox_mem hg⟩

end ShapeGrammar.Arithmetic
