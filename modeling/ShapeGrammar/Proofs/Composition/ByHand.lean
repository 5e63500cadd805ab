import ShapeGrammar.Proofs.Resolution.Deaf

/-!
# Parsers written by hand

What someone would write who has no planner. A product is the sequence of its fields, turned into an
instance by position. A sum is the choice, nested to the right, between such sequences, one for
every variant that can be reached; what is left of the choice in its value is one tag for every arm
that was passed over, and one for the arm that matched unless it is the last, and these are taken
off.

The fields are resolved in order, as planning resolves them, but nothing is planned.

Headlines: `Arm.parser`, `Parser.choice`, `untag`, `Schema.arms`, `Schema.composed`.
-/

namespace ShapeGrammar

open Resolution

/-- The instance that is made of the values of a sequence, by position. -/
def Grammar.constructOf (g : Grammar) (target : ClassRef) : Value → Except Fault Value
  | .tuple vs => g.construct target vs
  | _ => .error (.type (.other "only a sequence is constructed from"))

/-- A class, and the parsers of its fields. -/
structure Arm where
  target : ClassRef
  parsers : List Parser
  deriving Inhabited

/-- The fields one after the other, turned into an instance of the class. -/
def Arm.parser (g : Grammar) (a : Arm) : Parser :=
  .map (g.constructOf a.target) (.seq a.parsers)

/-- The choice between parsers, nested to the right. -/
def Parser.choice : List Parser → Parser
  | [] => .inert
  | [p] => p
  | p :: q :: ps => .either p (choice (q :: ps))

/-- Takes the tags off that a nested choice has put on, and no others; so many arms come before the
last one. -/
def untag : Nat → Value → Except Fault Value
  | 0, v => .ok v
  | _ + 1, .left v => .ok v
  | n + 1, .right v => untag n v
  | _ + 1, _ => .error (.type (.other "only a choice is tagged"))

/-- The variants that can be reached: those before the first one without fields, and that one. -/
def reached (vs : List Variant) : List Variant :=
  vs.takeWhile (!·.isUnit) ++ (vs.find? (·.isUnit)).toList

/-- Resolves the fields of variants, in order. -/
def variantArms (r : Resolver) : List Variant → Resolution (List Arm)
  | [] => pure []
  | v :: vs => do
    let parsers ← fieldParsers r v.target v.fields
    let rest ← variantArms r vs
    pure (⟨v.target, parsers⟩ :: rest)

/-- Resolves the fields of a schema. -/
def Schema.arms (r : Resolver) : Schema → Resolution (List Arm)
  | .product target fields => do
    let parsers ← fieldParsers r target fields
    pure [⟨target, parsers⟩]
  | .sum _ variants => variantArms r (reached variants)

/-- The parser that is written by hand for a schema with these fields. -/
def Schema.composed (g : Grammar) : Schema → List Arm → Parser
  | .product _ _, arms => .choice (arms.map (·.parser g))
  | .sum _ _, arms => .map (untag (arms.length - 1)) (.choice (arms.map (·.parser g)))

/-! ## The fields that planning resolves -/

/-- What an attempt is written by hand as. -/
def Attempt.arm (a : Attempt Parser) : Arm :=
  ⟨a.target, a.parsers⟩

theorem reachable_eq_reached (vs : List Variant) : (reachable vs).1 = reached vs := by
  unfold reached
  induction vs with
  | nil => rfl
  | cons v vs ih =>
    unfold reachable
    by_cases hv : v.isUnit = true
    · simp [hv]
    · simp [hv, ih]

variable {r : Resolver}

/-- Planning variants resolves their fields. -/
theorem variantArms_of_planVariants : ∀ {vs : List Variant} {as : List (Attempt Parser)}
    {g g' : Grammar}, planVariants r vs g = .ok as g' →
      variantArms r vs g = .ok (as.map (·.arm)) g'
  | [], as, g, g', h => by
    cases h
    rfl
  | v :: vs, as, g, g', h => by
    obtain ⟨ps, rest, g1, hps, hrest, rfl⟩ := planVariants_cons h
    unfold variantArms
    rw [bind_of_ok hps, bind_of_ok (variantArms_of_planVariants hrest)]
    rfl

theorem deaf_variantArms (hr : r.Answers Deaf) : ∀ vs, (variantArms r vs).Deaf
  | [] => deaf_law.pure _
  | v :: vs =>
    deaf_law.bind (deaf_law.fieldParsers hr v.target v.fields) fun _ =>
      deaf_law.bind (deaf_variantArms hr vs) fun _ => deaf_law.pure _

/-- What is hidden is reported, and nothing else happens. -/
theorem withReports_of_reportHidden {target : ClassRef} {shown hidden : List Variant}
    {g g' : Grammar} (h : reportHidden target shown hidden g = .ok () g') :
    g'.withReports g.reports = g := by
  unfold reportHidden at h
  generalize shown.getLast? = last at h
  cases hidden with
  | nil =>
    cases last <;> cases h <;> rfl
  | cons w ws =>
    cases last with
    | none =>
      cases h
      rfl
    | some v =>
      cases h
      dsimp only
      unfold Grammar.report
      split <;> rfl

/-- **Who writes a parser by hand finds the fields that planning finds.** -/
theorem arms_of_planSchema {k : Nat} {schema : Schema} {plan : Plan Parser} {g g' : Grammar}
    (h : planSchema (resolver k) schema g = .ok plan g') :
    ∃ g1, schema.arms (resolver k) g = .ok (plan.attempts.map (·.arm)) g1 := by
  cases schema with
  | product target fields =>
    obtain ⟨ps, kind, name, g1, hps, -, -, rfl⟩ := planSchema_product h
    exact ⟨g1, bind_of_ok hps⟩
  | sum target variants =>
    obtain ⟨-, as, kind, g1, g2, hhidden, has, -, rfl⟩ := planSchema_sum h
    rw [reachable_eq_reached] at has
    have hends := deaf_variantArms (resolver_deaf k).toAnswers (reached variants) g1 g.reports
    rw [withReports_of_reportHidden hhidden, variantArms_of_planVariants has] at hends
    generalize hr : variantArms (resolver k) (reached variants) g = result at hends
    cases hends with
    | ok _ _ rs => exact ⟨_, hr⟩

end ShapeGrammar
