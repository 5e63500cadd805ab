import ShapeGrammar.Resolve
import ShapeGrammar.Proofs.Computation

/-!
# What planning decides

A plan makes its attempts in the order of the variants, up to and including the first variant
without fields. Every attempt but the last has fields and runs on a snapshot; the last one runs on
the cursor itself.

Headlines: `OrderedAttempts`, `planVariants_ordered`, `planSchema_ordered`, `makePlan_eq_ok`.
-/

namespace ShapeGrammar

open Resolution

/-- All attempts but the last have fields and run on a snapshot; the last one runs on the cursor
itself. There is a last one. -/
def OrderedAttempts {P : Type} : List (Attempt P) → Prop
  | [] => False
  | [a] => a.snapshot = false
  | a :: b :: rest => a.isUnit = false ∧ a.snapshot = true ∧ OrderedAttempts (b :: rest)

instance {P : Type} : ∀ as : List (Attempt P), Decidable (OrderedAttempts as)
  | [] => .isFalse id
  | [a] => inferInstanceAs (Decidable (a.snapshot = false))
  | a :: b :: rest =>
    have := instDecidableOrderedAttempts (b :: rest)
    inferInstanceAs (Decidable (a.isUnit = false ∧ a.snapshot = true ∧ OrderedAttempts (b :: rest)))

/-- A plan whose attempts are made in order. -/
def Plan.Ordered {P : Type} (plan : Plan P) : Prop :=
  OrderedAttempts plan.attempts

/-! ## Variants that can be reached -/

/-- No variant but the last is without fields. -/
def UnitLast : List Variant → Prop
  | [] => True
  | v :: vs => (vs ≠ [] → v.isUnit = false) ∧ UnitLast vs

theorem reachable_unitLast (vs : List Variant) : UnitLast (reachable vs).1 := by
  induction vs with
  | nil => trivial
  | cons v vs ih =>
    unfold reachable
    split
    · exact ⟨fun h => absurd rfl h, trivial⟩
    · rename_i hv
      exact ⟨fun _ => by simpa using hv, ih⟩

theorem reachable_ne_nil {vs : List Variant} (h : vs ≠ []) : (reachable vs).1 ≠ [] := by
  cases vs with
  | nil => exact absurd rfl h
  | cons v vs =>
    unfold reachable
    split <;> simp

/-! ## Attempts at variants -/

variable {r : Resolver}

/-- A computation whose faults are reworded answers what it answers otherwise. -/
theorem mapSchemaFault_eq_ok {α : Type} {f : Grammar → SchemaFault → SchemaFault} {x : Resolution α}
    {a : α} {g g' : Grammar} (h : mapSchemaFault f x g = .ok a g') : x g = .ok a g' := by
  unfold mapSchemaFault at h
  split at h
  · cases h
  · exact h

/-- Every field has one parser. -/
theorem fieldParsers_length {owner : ClassRef} : ∀ {fs : List SchemaField} {ps : List Parser}
    {g g' : Grammar}, fieldParsers r owner fs g = .ok ps g' → ps.length = fs.length
  | [], ps, g, g', h => by
    cases h
    rfl
  | f :: fs, ps, g, g', h => by
    unfold fieldParsers at h
    obtain ⟨a, g1, -, h⟩ := bind_eq_ok_iff.mp h
    obtain ⟨as, g2, has, h⟩ := bind_eq_ok_iff.mp h
    cases h
    simp only [List.length_cons, fieldParsers_length has]

theorem isUnit_of_fieldParsers {owner : ClassRef} {v : Variant} {name : String} {snapshot : Bool}
    {ps : List Parser} {g g' : Grammar} (h : fieldParsers r owner v.fields g = .ok ps g') :
    (⟨name, owner, ps, snapshot⟩ : Attempt Parser).isUnit = v.isUnit := by
  have hlen := fieldParsers_length h
  unfold Attempt.isUnit Variant.isUnit
  cases ps <;> cases hv : v.fields <;> simp_all

/-- Planning a list of variants plans the first one and then the others. -/
theorem planVariants_cons {v : Variant} {vs : List Variant} {as : List (Attempt Parser)}
    {g g' : Grammar} (h : planVariants r (v :: vs) g = .ok as g') :
    ∃ ps rest g1, fieldParsers r v.target v.fields g = .ok ps g1 ∧
      planVariants r vs g1 = .ok rest g' ∧
      as = ⟨v.name, v.target, ps, !vs.isEmpty && !v.isUnit⟩ :: rest := by
  unfold planVariants at h
  obtain ⟨ps, g1, hps, h⟩ := bind_eq_ok_iff.mp h
  obtain ⟨rest, g2, hrest, h⟩ := bind_eq_ok_iff.mp h
  cases h
  exact ⟨ps, rest, g1, hps, hrest, rfl⟩

theorem planVariants_ordered : ∀ {vs : List Variant} {as : List (Attempt Parser)}
    {g g' : Grammar}, vs ≠ [] → UnitLast vs → planVariants r vs g = .ok as g' →
      OrderedAttempts as
  | [], _, _, _, hne, _, _ => absurd rfl hne
  | [v], as, g, g', _, _, h => by
    obtain ⟨ps, rest, g1, -, hrest, rfl⟩ := planVariants_cons h
    cases hrest
    rfl
  | v :: w :: vs, as, g, g', _, hunit, h => by
    obtain ⟨ps, rest, g1, hps, hrest, rfl⟩ := planVariants_cons h
    have ih := planVariants_ordered (by simp) hunit.2 hrest
    obtain ⟨qs, more, g2, -, -, rfl⟩ := planVariants_cons hrest
    have hv := hunit.1 (by simp)
    refine ⟨?_, ?_, ih⟩
    · rw [isUnit_of_fieldParsers hps, hv]
    · simp [hv]

/-- If there is a variant without fields, the last attempt is at one. -/
theorem last_unit : ∀ {vs : List Variant} {as : List (Attempt Parser)}
    {g g' : Grammar}, vs.any (·.isUnit) = true → planVariants r (reachable vs).1 g = .ok as g' →
      ∃ a, as.getLast? = some a ∧ a.parsers = []
  | [], _, _, _, hany, _ => by cases hany
  | v :: vs, as, g, g', hany, h => by
    unfold reachable at h
    split at h
    · rename_i hunit
      obtain ⟨ps, rest, g1, hps, hrest, rfl⟩ := planVariants_cons h
      cases hrest
      refine ⟨_, rfl, ?_⟩
      have hlength := fieldParsers_length hps
      rw [List.isEmpty_iff.mp hunit] at hlength
      exact List.eq_nil_of_length_eq_zero hlength
    · rename_i hunit
      obtain ⟨ps, rest, g1, -, hrest, rfl⟩ := planVariants_cons h
      rw [List.any_cons, Bool.eq_false_iff.mpr hunit, Bool.false_or] at hany
      obtain ⟨a, ha, hparsers⟩ := last_unit hany hrest
      refine ⟨a, ?_, hparsers⟩
      cases rest with
      | nil => cases ha
      | cons b rest =>
        rw [List.getLast?_cons_cons]
        exact ha

/-! ## Plans of schemas -/

/-- How a product is planned. -/
theorem planSchema_product {target : ClassRef} {fields : List SchemaField} {plan : Plan Parser}
    {g g' : Grammar} (h : planSchema r (.product target fields) g = .ok plan g') :
    ∃ ps kind name g1, fieldParsers r target fields g = .ok ps g1 ∧
      sequenceErrorKind r ps g1 = .ok kind g' ∧ name = g'.shortName target ∧
      plan = ⟨target, .product, [⟨name, target, ps, false⟩], kind⟩ := by
  unfold planSchema at h
  obtain ⟨ps, g1, hps, h⟩ := bind_eq_ok_iff.mp h
  obtain ⟨kind, g2, hkind, h⟩ := bind_eq_ok_iff.mp h
  replace h := get_bind_eq_ok_iff.mp h
  cases h
  exact ⟨ps, kind, _, g1, hps, hkind, rfl, rfl⟩

/-- How a sum is planned. -/
theorem planSchema_sum {target : ClassRef} {variants : List Variant} {plan : Plan Parser}
    {g g' : Grammar} (h : planSchema r (.sum target variants) g = .ok plan g') :
    variants ≠ [] ∧ ∃ as kind g1 g2,
      reportHidden target (reachable variants).1 (reachable variants).2 g = .ok () g1 ∧
      planVariants r (reachable variants).1 g1 = .ok as g2 ∧
      sumErrorKind r target variants as g2 = .ok kind g' ∧ plan = ⟨target, .sum, as, kind⟩ := by
  unfold planSchema at h
  obtain ⟨⟨⟩, g1, hhidden, h⟩ := bind_eq_ok_iff.mp h
  obtain ⟨as, g2, has, h⟩ := bind_eq_ok_iff.mp h
  obtain ⟨kind, g3, hkind, h⟩ := bind_eq_ok_iff.mp h
  cases h
  refine ⟨?_, as, kind, g1, g2, hhidden, has, hkind, rfl⟩
  rintro rfl
  cases has
  cases hkind

theorem planSchema_ordered {schema : Schema} {plan : Plan Parser} {g g' : Grammar}
    (h : planSchema r schema g = .ok plan g') : plan.Ordered := by
  cases schema with
  | product target fields =>
    obtain ⟨ps, kind, name, g1, -, -, -, rfl⟩ := planSchema_product h
    rfl
  | sum target variants =>
    obtain ⟨hne, as, kind, g1, g2, -, has, -, rfl⟩ := planSchema_sum h
    exact planVariants_ordered (reachable_ne_nil hne) (reachable_unitLast variants) has

/-! ## Plans of classes -/

/-- What is found out under a mark. -/
theorem guarded_eq_ok {α : Type} {key : Pending} {fault : List Pending → Fault} {x : Resolution α}
    {g g' : Grammar} {a : α} (h : guarded key fault x g = .ok a g') :
    ∃ g1, x { g with pending := key :: g.pending } = .ok a g1 ∧
      g' = { g1 with pending := g1.pending.tail } := by
  unfold guarded at h
  split at h
  · cases h
  · generalize hr : x { g with pending := key :: g.pending } = result at h
    cases result with
    | ok b g1 =>
      cases h
      exact ⟨g1, rfl, rfl⟩
    | error e g1 => cases h

/-- How a class is planned: its schema is, while the class counts as being found out. -/
theorem makePlan_eq_ok {c : ClassId} {plan : Plan Parser} {g g' : Grammar}
    (h : makePlan r c g = .ok plan g') :
    c < g.classes.size ∧ ∃ schema g1 report,
      ({ g with pending := .cls c :: g.pending } : Grammar).schemaOf (.declared c) = .ok schema ∧
      planSchema r schema { g with pending := .cls c :: g.pending } = .ok plan g1 ∧
      g' = { g1 with pending := g1.pending.tail }.report report := by
  unfold makePlan at h
  replace h := get_bind_eq_ok_iff.mp h
  split at h
  · cases h
  · rename_i hsize
    obtain ⟨plan', g2, hplan, h⟩ := bind_eq_ok_iff.mp h
    obtain ⟨⟨⟩, g3, hreport, h⟩ := bind_eq_ok_iff.mp h
    cases hreport
    cases h
    obtain ⟨g4, hbody, rfl⟩ := guarded_eq_ok hplan
    replace hbody := get_bind_eq_ok_iff.mp hbody
    obtain ⟨schema, g7, hschema, hbody⟩ := bind_eq_ok_iff.mp hbody
    generalize Grammar.schemaOf _ _ = answer at hschema ⊢
    cases answer <;> cases hschema
    exact ⟨Nat.lt_of_not_le hsize, schema, g4, _, rfl, hbody, rfl⟩

theorem makePlan_ordered {c : ClassId} {plan : Plan Parser} {g g' : Grammar}
    (h : makePlan r c g = .ok plan g') : plan.Ordered := by
  obtain ⟨-, schema, g1, report, -, hplan, -⟩ := makePlan_eq_ok h
  exact planSchema_ordered hplan

end ShapeGrammar
