import ShapeGrammar.Proofs.Factory.Reading
import ShapeGrammar.Proofs.Factory.Simulation

/-!
# No plan runs out of attempts

The attempts of a plan are the variants of its schema up to the first one without fields. Only the
last of them may be without fields, and exactly the others run on a snapshot. So whoever makes the
attempts in order never comes to the end of the list, and whoever writes them out writes procedures
that all end with a statement that returns. In the text it takes a line end in the name of the shape
to get a procedure that does not.

Headlines: `Attempt.At`, `Plan.Covers`, `runAttemptsElse`, `planSchema_covers`,
`planSchema_never_exhausted`.
-/

namespace ShapeGrammar

open Resolution

/-! ## What a schema offers -/

/-- The alternatives of a schema: the variants of a sum, or the shape itself. -/
def Schema.alternatives (g : Grammar) : Schema → List Variant
  | .product target fields => [⟨g.shortName target, target, fields⟩]
  | .sum _ variants => variants

/-- The class that a schema is of. -/
def Schema.target : Schema → ClassRef
  | .product target _ => target
  | .sum target _ => target

/-- Whether a schema is a sequence of fields or a choice. -/
def Schema.kind : Schema → PlanKind
  | .product _ _ => .product
  | .sum _ _ => .sum

/-- The variants up to the first one without fields, with that one. -/
def upToUnit (vs : List Variant) : List Variant :=
  vs.take (vs.findIdx (·.isUnit) + 1)

theorem upToUnit_singleton (v : Variant) : upToUnit [v] = [v] :=
  List.take_of_length_le (Nat.le_add_left 1 _)

theorem reachable_eq_upToUnit (vs : List Variant) : (reachable vs).1 = upToUnit vs := by
  unfold upToUnit
  induction vs with
  | nil => rfl
  | cons v vs ih =>
    unfold reachable
    rw [List.findIdx_cons]
    cases hv : v.isUnit with
    | true => rfl
    | false =>
      rw [cond_false, List.take_succ_cons, ← ih]
      rfl

/-! ## The attempts at it -/

/-- An attempt at a variant: it constructs the class of the variant from what the parsers of its
fields match, one parser for each field in order. -/
structure Attempt.At (r : Resolver) (v : Variant) (a : Attempt Parser) : Prop where
  name : a.name = v.name
  target : a.target = v.target
  parsers : List.Forall₂
    (fun f p => ∃ h g g', parserFor r f.shape g = .ok h g' ∧ p = h.body) v.fields a.parsers

/-- What the plan of a schema is made of. -/
structure Plan.Covers (r : Resolver) (g : Grammar) (schema : Schema) (plan : Plan Parser) :
    Prop where
  target : plan.target = schema.target
  kind : plan.kind = schema.kind
  /-- The attempts are at the alternatives up to the first one without fields, in order. -/
  attempts : List.Forall₂ (Attempt.At r) (upToUnit (schema.alternatives g)) plan.attempts
  nonempty : plan.attempts ≠ []
  /-- A product has a single attempt. -/
  single : plan.kind = .product → plan.attempts.length = 1
  /-- An attempt without parsers is the last one. -/
  unit_last : ∀ {i a}, plan.attempts[i]? = some a → a.parsers = [] → i + 1 = plan.attempts.length
  /-- An attempt runs on a snapshot iff it is not the last one. -/
  snapshot_iff : ∀ {i a}, plan.attempts[i]? = some a →
    (a.snapshot = true ↔ i + 1 ≠ plan.attempts.length)
  requiresSnapshot_iff : plan.requiresSnapshot = true ↔ 2 ≤ plan.attempts.length
  /-- A plan with an attempt that always matches cannot fail. -/
  errorKind_none : (schema.alternatives g).any (·.isUnit) = true → plan.errorKind = none

section Attempts

variable {r : Resolver} {g g' : Grammar}

theorem fieldParsers_forall₂ {owner : ClassRef} : ∀ {fs : List SchemaField} {ps : List Parser}
    {g g' : Grammar}, fieldParsers r owner fs g = .ok ps g' → List.Forall₂
      (fun f p => ∃ h g g', parserFor r f.shape g = .ok h g' ∧ p = h.body) fs ps
  | [], _, _, _, h => by
    cases h
    exact .nil
  | f :: fs, ps, g, g', h => by
    unfold fieldParsers at h
    obtain ⟨a, g1, ha, h⟩ := bind_eq_ok_iff.mp h
    obtain ⟨rest, g2, hrest, h⟩ := bind_eq_ok_iff.mp h
    cases h
    exact .cons ⟨a, g, g1, mapSchemaFault_eq_ok ha, rfl⟩ (fieldParsers_forall₂ hrest)

theorem planVariants_forall₂ : ∀ {vs : List Variant} {as : List (Attempt Parser)}
    {g g' : Grammar}, planVariants r vs g = .ok as g' → List.Forall₂ (Attempt.At r) vs as
  | [], _, _, _, h => by
    cases h
    exact .nil
  | v :: vs, as, g, g', h => by
    obtain ⟨ps, rest, g1, hps, hrest, rfl⟩ := planVariants_cons h
    exact .cons ⟨rfl, rfl, fieldParsers_forall₂ hps⟩ (planVariants_forall₂ hrest)

/-- Attempts in order are at their places: those with something after them have fields and run on a
snapshot, and the one with nothing after it does not. -/
theorem OrderedAttempts.of_getElem? {P : Type} {as : List (Attempt P)} (h : OrderedAttempts as)
    {i : Nat} {a : Attempt P} (ha : as[i]? = some a) :
    (a.isUnit = true → i + 1 = as.length) ∧ (a.snapshot = true ↔ i + 1 ≠ as.length) := by
  obtain ⟨init, last, rfl, hlast, hinit⟩ := h.split
  rw [List.length_append, List.length_singleton]
  by_cases hi : i < init.length
  · rw [List.getElem?_append_left hi] at ha
    obtain ⟨hfields, hsnapshot⟩ := hinit a (List.mem_of_getElem? ha)
    refine ⟨fun hunit => ?_, fun _ => by omega, fun _ => hsnapshot⟩
    rw [hfields] at hunit
    cases hunit
  · have hlt := (List.getElem?_eq_some_iff.mp ha).1
    rw [List.length_append, List.length_singleton] at hlt
    obtain rfl : i = init.length := by omega
    rw [List.getElem?_concat_length] at ha
    cases ha
    refine ⟨fun _ => rfl, fun hsnapshot => ?_, fun hne => absurd rfl hne⟩
    rw [hlast] at hsnapshot
    cases hsnapshot

theorem Plan.Ordered.requiresSnapshot_iff {P : Type} {plan : Plan P} (h : plan.Ordered) :
    plan.requiresSnapshot = true ↔ 2 ≤ plan.attempts.length := by
  unfold Plan.requiresSnapshot
  rw [List.any_eq_true]
  constructor
  · rintro ⟨a, ha, hsnapshot⟩
    obtain ⟨i, hi⟩ := List.mem_iff_getElem?.mp ha
    have hlast := (OrderedAttempts.of_getElem? h hi).2.mp hsnapshot
    have hlt := (List.getElem?_eq_some_iff.mp hi).1
    omega
  · intro hlength
    obtain ⟨a, ha⟩ : ∃ a, plan.attempts[0]? = some a :=
      ⟨_, List.getElem?_eq_getElem (Nat.lt_of_lt_of_le Nat.two_pos hlength)⟩
    exact ⟨a, List.mem_of_getElem? ha, (OrderedAttempts.of_getElem? h ha).2.mpr (by omega)⟩

/-- **A plan covers its schema**, whatever resolved the shapes of the fields. -/
theorem planSchema_covers {schema : Schema} {plan : Plan Parser}
    (h : planSchema r schema g = .ok plan g') : plan.Covers r g' schema := by
  have hordered : plan.Ordered := planSchema_ordered h
  have hunit : ∀ {i a}, plan.attempts[i]? = some a → a.parsers = [] →
      i + 1 = plan.attempts.length := by
    intro i a ha hparsers
    exact (OrderedAttempts.of_getElem? hordered ha).1 (by rw [Attempt.isUnit, hparsers]; rfl)
  have hsnapshot : ∀ {i a}, plan.attempts[i]? = some a →
      (a.snapshot = true ↔ i + 1 ≠ plan.attempts.length) :=
    fun ha => (OrderedAttempts.of_getElem? hordered ha).2
  have hne : plan.attempts ≠ [] := by
    intro hnil
    rw [Plan.Ordered, hnil] at hordered
    exact hordered
  cases schema with
  | product target fields =>
    obtain ⟨ps, kind, name, g1, hps, hkind, rfl, rfl⟩ := planSchema_product h
    have hattempt : Attempt.At r ⟨g'.shortName target, target, fields⟩
        ⟨g'.shortName target, target, ps, false⟩ := ⟨rfl, rfl, fieldParsers_forall₂ hps⟩
    refine ⟨rfl, rfl, ?_, hne, fun _ => rfl, hunit, hsnapshot, hordered.requiresSnapshot_iff,
      fun hany => ?_⟩
    · rw [Schema.alternatives, upToUnit_singleton]
      exact .cons hattempt .nil
    · -- a product without fields has no part that can fail
      have hfields : fields = [] := by simpa [Schema.alternatives, Variant.isUnit] using hany
      subst hfields
      cases hps
      cases hkind
      rfl
  | sum target variants =>
    obtain ⟨-, as, kind, g1, g2, -, has, hkind, rfl⟩ := planSchema_sum h
    rw [reachable_eq_upToUnit] at has
    refine ⟨rfl, rfl, planVariants_forall₂ has, hne, fun heq => (nomatch heq), hunit, hsnapshot,
      hordered.requiresSnapshot_iff, fun hany => ?_⟩
    have hsome : variants.any (·.isUnit) = true := hany
    unfold sumErrorKind at hkind
    rw [if_pos hsome] at hkind
    cases hkind
    rfl

end Attempts

/-! ## Making the attempts -/

section Making

variable {call : Entry → Parser → CursorId → Act Outcome} {report : String → CursorId → Act Unit}
  {entry : Entry}

/-- Makes the attempts of a plan in order, and does something else where none is left. -/
def runAttemptsElse (exhausted : Act Outcome) (call : Entry → Parser → CursorId → Act Outcome)
    (report : String → CursorId → Act Unit) (entry : Entry) :
    List (Attempt Parser) → CursorId → Act Outcome
  | [], _ => exhausted
  | a :: rest, c => do
    if a.isUnit then
      let v ← Act.construct a.target []
      pure (.matched c v)
    else if !a.snapshot then runAttempt call entry a c
    else
      let s ← Act.snapshot c
      match ← runAttempt call .fallible a s with
      | .matched d v => pure (.matched d v)
      | _ => do
        report a.name c
        runAttemptsElse exhausted call report entry rest c

theorem runAttemptsElse_planExhausted : ∀ (as : List (Attempt Parser)) (c : CursorId),
    runAttemptsElse (Act.fail .planExhausted) call report entry as c =
      runAttempts call report entry as c
  | [], _ => rfl
  | a :: rest, c => by
    have ih : runAttemptsElse (Act.fail .planExhausted) call report entry rest =
        runAttempts call report entry rest :=
      funext (runAttemptsElse_planExhausted rest)
    unfold runAttemptsElse
    rw [ih]
    rfl

/-- It does not matter what is done where no attempt is left: attempts in order never get there. -/
theorem OrderedAttempts.runAttemptsElse_eq (exhausted other : Act Outcome) :
    ∀ {as : List (Attempt Parser)} (c : CursorId), OrderedAttempts as →
      runAttemptsElse exhausted call report entry as c =
        runAttemptsElse other call report entry as c
  | [], _, h => h.elim
  | [a], c, h => by
    have hlast : (!a.snapshot) = true := by rw [show a.snapshot = false from h]; rfl
    unfold runAttemptsElse
    simp only [hlast, if_true]
  | a :: b :: rest, c, h => by
    unfold runAttemptsElse
    simp only [h.2.2.runAttemptsElse_eq exhausted other c]

end Making

/-! ## The attempts written out -/

section Writing

variable {call : Entry → Parser → CursorId → Act Outcome}
  {attempt : Procedure → CursorId → Act Outcome} {items : Table Item}

/-- Whether a statement may return a miss. -/
def Statement.mayMiss : Statement → Bool
  | .returnMiss _ => true
  | .returnAttempt _ _ => true
  | .returnNothing => true
  | _ => false

/-- A statement that returns whatever it finds does return. -/
theorem step_of_leaves {s : Statement} (hs : s.leaves = true) {slots slots' : Table Slot}
    {m m' : Machine} : s.step call attempt items slots m ≠ .ok (.running slots') m' := by
  intro h
  cases s with
  | returnAttempt name cursor =>
    obtain ⟨p, m1, -, h⟩ := bind_eq_ok_iff.mp h
    obtain ⟨c, m2, -, h⟩ := bind_eq_ok_iff.mp h
    obtain ⟨o, m3, -, h⟩ := bind_eq_ok_iff.mp h
    cases h
  | returnBuilt cursor target arguments =>
    obtain ⟨c, m1, -, h⟩ := bind_eq_ok_iff.mp h
    obtain ⟨t, m2, -, h⟩ := bind_eq_ok_iff.mp h
    obtain ⟨vs, m3, -, h⟩ := bind_eq_ok_iff.mp h
    obtain ⟨v, m4, -, h⟩ := bind_eq_ok_iff.mp h
    cases h
  | returnNothing => cases h
  | _ => cases hs

/-- What a statement returns is a miss only where it may be one. -/
theorem step_ne_missed {s : Statement} (hs : s.mayMiss = false) {slots : Table Slot}
    {m m' : Machine} : s.step call attempt items slots m ≠ .ok (.returned .missed) m' := by
  intro h
  cases s with
  | call result parser entry cursor =>
    obtain ⟨p, m1, -, h⟩ := bind_eq_ok_iff.mp h
    obtain ⟨c, m2, -, h⟩ := bind_eq_ok_iff.mp h
    obtain ⟨o, m3, -, h⟩ := bind_eq_ok_iff.mp h
    cases h
  | returnError result =>
    obtain ⟨o, m1, -, h⟩ := bind_eq_ok_iff.mp h
    cases o <;> cases h
  | unpack cursor value result =>
    obtain ⟨o, m1, -, h⟩ := bind_eq_ok_iff.mp h
    cases o <;> cases h
  | tryAttempt found name cursor =>
    obtain ⟨p, m1, -, h⟩ := bind_eq_ok_iff.mp h
    obtain ⟨c, m2, -, h⟩ := bind_eq_ok_iff.mp h
    obtain ⟨d, m3, -, h⟩ := bind_eq_ok_iff.mp h
    obtain ⟨o, m4, -, h⟩ := bind_eq_ok_iff.mp h
    cases h
  | returnFound found =>
    obtain ⟨o, m1, -, h⟩ := bind_eq_ok_iff.mp h
    cases o <;> cases h
  | returnBuilt cursor target arguments =>
    obtain ⟨c, m1, -, h⟩ := bind_eq_ok_iff.mp h
    obtain ⟨t, m2, -, h⟩ := bind_eq_ok_iff.mp h
    obtain ⟨vs, m3, -, h⟩ := bind_eq_ok_iff.mp h
    obtain ⟨v, m4, -, h⟩ := bind_eq_ok_iff.mp h
    cases h
  | returnMiss result => cases hs
  | returnAttempt name cursor => cases hs
  | returnNothing => cases hs

/-- Statements that end with one that returns, and none of which returns a miss, answer no miss. -/
theorem runStatements_ne_missed : ∀ {body : List Statement} {slots : Table Slot} {m m' : Machine},
    (∃ s, body.getLast? = some s ∧ s.leaves = true) → (∀ s ∈ body, s.mayMiss = false) →
      runStatements call attempt items slots body m ≠ .ok .missed m'
  | [], _, _, _, ⟨_, hlast, _⟩, _, _ => by cases hlast
  | s :: rest, slots, m, m', ⟨last, hlast, hleaves⟩, hmiss, h => by
    unfold runStatements at h
    obtain ⟨progress, m1, hstep, h⟩ := bind_eq_ok_iff.mp h
    cases progress with
    | returned o =>
      cases h
      exact step_ne_missed (hmiss s List.mem_cons_self) hstep
    | running slots' =>
      cases rest with
      | nil =>
        cases hlast
        exact step_of_leaves hleaves hstep
      | cons t rest =>
        rw [List.getLast?_cons_cons] at hlast
        exact runStatements_ne_missed ⟨last, hlast, hleaves⟩
          (fun u hu => hmiss u (List.mem_cons_of_mem s hu)) h

/-- Only the fallible form returns misses. -/
theorem mayMiss_of_mem_total {a : Attempt Parser} {i : Nat} {s : Statement}
    (hs : s ∈ a.statements .total i) : s.mayMiss = false := by
  unfold Attempt.statements at hs
  split at hs
  · cases List.mem_singleton.mp hs
    rfl
  · split at hs
    · simp only [List.mem_cons, List.not_mem_nil, or_false] at hs
      rcases hs with rfl | rfl <;> rfl
    · unfold attemptStatements at hs
      rcases List.mem_append.mp hs with hs | hs
      · obtain ⟨j, -, hs⟩ := List.mem_flatMap.mp hs
        simp only [fieldStatements, List.mem_cons, List.not_mem_nil, or_false] at hs
        rcases hs with rfl | rfl | rfl <;> rfl
      · cases List.mem_singleton.mp hs
        rfl

/-- The total form of the factory of a plan never answers a miss, whatever the calls of the field
parsers answer. -/
theorem Plan.Ordered.invoke_ne_missed {plan : Plan Parser} (h : plan.Ordered) {c : CursorId}
    {m m' : Machine} : plan.code.invoke call plan .total c m ≠ .ok .missed m' := by
  intro hrun
  unfold Code.invoke at hrun
  rw [plan.bind_code, Act.lift_ok_bind] at hrun
  obtain ⟨front, s, hbody, hs⟩ := (h.entry_wellNamed .total).ends
  have hleaves : ∃ s, (plan.entryProcedure .total).body.getLast? = some s ∧ s.leaves = true :=
    ⟨s, by rw [hbody, List.getLast?_concat], hs⟩
  refine runStatements_ne_missed hleaves ?_ hrun
  intro s hs
  obtain ⟨a, -, hs⟩ := List.mem_flatMap.mp hs
  exact mayMiss_of_mem_total hs

end Writing

/-! ## The theorem -/

/-- **The invariants of a plan.** A plan covers its schema. Carrying it out never comes to the end
of its attempts: whatever stood there in place of the alarm would make no difference. Where the name
of the shape stands on one line, the factory that the text of the plan is read as has procedures
that all end with a statement that returns, and its total form never answers a miss. -/
theorem planSchema_never_exhausted {r : Resolver} {schema : Schema} {plan : Plan Parser}
    {g g' : Grammar} (h : planSchema r schema g = .ok plan g') :
    plan.Covers r g' schema ∧
      (∀ (exhausted : Act Outcome) (r' : Resolver) (n : Nat) (entry : Entry) (c : CursorId),
        run r' (n + 1) entry (.planned plan) c =
          runAttemptsElse exhausted (run r' n) (reportAttempt plan.target) entry
            plan.attempts c) ∧
      ∀ title name : String, OneLine title → IsName name →
        ∃ code, Code.ofText name (plan.generate title name) = .ok code ∧
          (∀ p ∈ code.procedures, ∃ front s, p.body = front ++ [s] ∧ s.leaves = true) ∧
          ∀ (r' : Resolver) (n : Nat) (c : CursorId) (m m' : Machine),
            run r' n .total (.generated plan code) c m ≠ .ok .missed m' := by
  have hordered : plan.Ordered := planSchema_ordered h
  refine ⟨planSchema_covers h, fun exhausted r' n entry c => ?_, fun title name htitle hname =>
    ⟨plan.code, hordered.ofText_generate htitle hname,
      fun p hp => (hordered.wellNamed.procedures p hp).ends, fun r' n c m m' hrun => ?_⟩⟩
  · calc
      run r' (n + 1) entry (.planned plan) c =
          runAttempts (run r' n) (reportAttempt plan.target) entry plan.attempts c := rfl
      _ = runAttemptsElse (Act.fail .planExhausted) (run r' n) (reportAttempt plan.target) entry
            plan.attempts c := (runAttemptsElse_planExhausted _ c).symm
      _ = runAttemptsElse exhausted (run r' n) (reportAttempt plan.target) entry
            plan.attempts c := OrderedAttempts.runAttemptsElse_eq _ _ c hordered
  · cases n with
    | zero => cases hrun
    | succ n => exact hordered.invoke_ne_missed hrun

/-- A choice in which a variant without fields stands before others. -/
def shadowedSchema : Schema :=
  .sum (.declared 0)
    [⟨"Pair", .declared 1, [⟨"left", .cls (.character 'a')⟩, ⟨"right", .cls (.character 'b')⟩]⟩,
      ⟨"Empty", .declared 2, []⟩, ⟨"Blank", .declared 3, []⟩,
      ⟨"Single", .declared 4, [⟨"only", .cls (.character 'b')⟩]⟩]

/-- The plan of `shadowedSchema`. -/
def shadowedPlan : Plan Parser where
  target := .declared 0
  kind := .sum
  attempts :=
    [⟨"Pair", .declared 1, [.character 'a', .character 'b'], true⟩,
      ⟨"Empty", .declared 2, [], false⟩]
  errorKind := none

theorem planSchema_never_exhausted_shadowed :
    planSchema (resolver 0) shadowedSchema (.empty none) =
        .ok shadowedPlan (stateAfter (planSchema (resolver 0) shadowedSchema) (.empty none)) ∧
      shadowedPlan.requiresSnapshot = true ∧
      run (resolver 0) 3 .total (.planned shadowedPlan) 0 =
        runAttemptsElse (pure .missed) (run (resolver 0) 2) (reportAttempt (.declared 0)) .total
          shadowedPlan.attempts 0 ∧
      OneLine "grammar.Shadowed" ∧ IsName factoryName ∧
      ∃ code, Code.ofText factoryName (shadowedPlan.generate "grammar.Shadowed" factoryName) =
          .ok code ∧
        run (resolver 0) 3 .total (.generated shadowedPlan code) 0
            (Machine.ofGrammar (.empty none)) ≠
          .ok .missed (Machine.ofGrammar (.empty none)) := by
  have hplan : planSchema (resolver 0) shadowedSchema (.empty none) =
      .ok shadowedPlan (stateAfter (planSchema (resolver 0) shadowedSchema) (.empty none)) := rfl
  have htitle : OneLine "grammar.Shadowed" := by decide
  obtain ⟨hcovers, hrun, hwritten⟩ := planSchema_never_exhausted hplan
  obtain ⟨code, hread, -, hmatches⟩ :=
    hwritten "grammar.Shadowed" factoryName htitle isName_factoryName
  exact ⟨hplan, hcovers.requiresSnapshot_iff.mpr (by decide), hrun _ _ _ _ _, htitle,
    isName_factoryName, code, hread, hmatches _ _ _ _ _⟩

end ShapeGrammar
