import ShapeGrammar.Proofs.Composition.Counterpart

/-!
# Derived parsers are compositions

A plan that was made of a schema, and the parser that is written by hand for the schema, do the same
at either entry point on every cursor: they have the same outcome or stop in the same way, move the
same cursors, read the same elements, and call the fields in the same order, at the same entry
points and places. They have the same error kind, too. The exception is that a parser written by
hand has to be described where it reports a miss to someone who listens.

Headlines: `composed_counterpart`, `plan_equals_composition`, `composition_undescribed`.
-/

namespace ShapeGrammar

open Machine

/-- The arm with other field parsers: `watch j` changes that of field `j`. -/
def Arm.watched (watch : Nat → Parser → Parser) (a : Arm) : Arm :=
  { a with parsers := a.parsers.mapIdx watch }

theorem arms_watched (watch : Nat → Nat → Parser → Parser) (plan : Plan Parser) :
    (plan.watched watch).attempts.map (·.arm) =
      (plan.attempts.map (·.arm)).mapIdx fun i a => a.watched (watch i) := by
  refine List.ext_getElem? fun i => ?_
  unfold Plan.watched
  simp only [List.getElem?_map, List.getElem?_mapIdx, Option.map_map]
  rfl

/-- How a changed parser is run. -/
theorem run_map {r : Resolver} {n : Nat} {entry : Entry} {change : Value → Except Fault Value}
    {body : Parser} {c : CursorId} :
    run r (n + 1) entry (.map change body) c = (do
      match ← run r n entry body c with
      | .matched d v => do
        let w ← Act.lift (change v)
        pure (.matched d w)
      | o => pure o) :=
  rfl

theorem Outcome.Tagged.eq {o o' : Outcome} (h : o.Tagged 0 o') : o = o' := by
  cases h with
  | matched d untagged =>
    cases untagged
    rfl
  | missed => rfl
  | failed e => rfl

/-- The tags that a choice has put on are taken off. -/
theorem Outcome.Tagged.untag {arms : Nat} {o o' : Outcome} (h : o.Tagged arms o') (m : Machine) :
    ∃ o'', (match o' with
      | .matched d v => do
        let w ← Act.lift (untag arms v)
        pure (.matched d w)
      | o => pure o : Act Outcome) m = .ok o'' m ∧ o = o'' := by
  cases h with
  | matched d untagged =>
    refine ⟨_, ?_, rfl⟩
    dsimp only
    rw [untagged]
    rfl
  | missed => exact ⟨_, rfl, rfl⟩
  | failed e => exact ⟨_, rfl, rfl⟩

/-- A plan and the parser that is written by hand for its attempts. -/
theorem composed_counterpart {short short' : Bool} {k : Nat} {schema : Schema}
    {plan : Plan Parser} (hordered : plan.Ordered)
    (hproduct : ∀ target fields, schema = .product target fields → plan.attempts.length = 1)
    {entry : Entry} {c : CursorId} {m : Machine} : ∀ {n j : Nat},
      (short = true ∧ n + plan.attempts.length + 1 ≤ j ∨ short' = true ∧ j ≤ n) →
      Counterpart m.grammar short short' (schema.composed m.grammar (plan.attempts.map (·.arm))) Eq
        (run (resolver k) n entry (.planned plan) c m)
        (run (resolver k) j entry (schema.composed m.grammar (plan.attempts.map (·.arm))) c m)
  | 0, 0, hfuel => by
    obtain ⟨may, -⟩ := hfuel.resolve_left fun hmay => absurd hmay.2 (by omega)
    exact .second may _ m
  | 0, j + 1, hfuel => by
    obtain ⟨may, -⟩ := hfuel.resolve_right fun hmay => absurd hmay.2 (by omega)
    exact .first may m _
  | n + 1, 0, hfuel => by
    obtain ⟨may, -⟩ := hfuel.resolve_left fun hmay => absurd hmay.2 (by omega)
    exact .second may _ m
  | n + 1, j + 1, hfuel => by
    have hplanned : run (resolver k) (n + 1) entry (.planned plan) c m = runAttempts
        (run (resolver k) n) (reportAttempt plan.target) entry plan.attempts c m := rfl
    rw [hplanned]
    have hchoice : ∀ {i : Nat},
        (short = true ∧ n + 1 + plan.attempts.length ≤ i ∨ short' = true ∧ i ≤ n + 2) →
        Counterpart m.grammar short short' (.choice (plan.attempts.map (·.arm.parser m.grammar)))
          (Outcome.Tagged (plan.attempts.length - 1))
          (runAttempts (run (resolver k) n) (reportAttempt plan.target) entry plan.attempts c m)
          (run (resolver k) i entry (.choice (plan.attempts.map (·.arm.parser m.grammar))) c m) :=
      fun hfuel => attempts_counterpart hordered hfuel (.refl m) (.refl m.grammar)
    have harms : (plan.attempts.map (·.arm)).map (·.parser m.grammar) =
        plan.attempts.map (·.arm.parser m.grammar) := List.map_map
    cases schema with
    | product target fields =>
      have hwhole : Schema.composed m.grammar (.product target fields)
          (plan.attempts.map (·.arm)) =
            .choice (plan.attempts.map (·.arm.parser m.grammar)) :=
        congrArg Parser.choice harms
      rw [hwhole]
      refine (hchoice (hfuel.imp (And.imp_right fun h => by omega)
        (And.imp_right fun h => by omega))).mono fun twins => ?_
      rw [hproduct target fields rfl] at twins
      exact twins.eq
    | sum target variants =>
      have hwhole : Schema.composed m.grammar (.sum target variants)
          (plan.attempts.map (·.arm)) = .map (untag (plan.attempts.length - 1))
            (.choice (plan.attempts.map (·.arm.parser m.grammar))) := by
        rw [Schema.composed, harms, List.length_map]
      rw [hwhole, run_map]
      have hbody := hchoice (i := j) (hfuel.imp (And.imp_right fun h => by omega)
        (And.imp_right fun h => by omega))
      exact (hbody.bind_right fun m1 twins => twins.untag m1).lift id

theorem length_of_product {r : Resolver} {schema : Schema} {plan : Plan Parser} {g g' : Grammar}
    (h : planSchema r schema g = .ok plan g') (target : ClassRef) (fields : List SchemaField)
    (hproduct : schema = .product target fields) : plan.attempts.length = 1 := by
  subst hproduct
  obtain ⟨ps, kind, name, g1, -, -, -, rfl⟩ := planSchema_product h
  rfl

/-- A run that has come to nothing, for want of fuel. -/
def OutOfFuel (r : EStateM.Result Stop Machine Outcome) : Prop :=
  ∃ m, r = .error .outOfFuel m

/-- Where nobody listens to misses, the two sides do not differ at all. -/
theorem Counterpart.exact {short short' : Bool} {whole : Parser} {x y : Act Outcome} {m : Machine}
    (h : Counterpart m.grammar short short' whole Eq (x m) (y m)) (hx : x.Grows)
    (hquiet : m.Quiet) :
    short = true ∧ OutOfFuel (x m) ∨ short' = true ∧ OutOfFuel (y m) ∨ y m = x m := by
  have hkept : ∀ m1 : Machine, m.grammar.Precedes m1.grammar → m1.Quiet := by
    intro m1 hgrow
    unfold Quiet
    rw [hgrow.threshold]
    exact hquiet
  have hgrow := hx.after m
  generalize hxm : x m = r at h
  generalize y m = r' at h
  cases h with
  | answered twins muted =>
    rw [stateAfter_of_ok hxm] at hgrow
    rw [twins, muted.eq_of_quiet (hkept _ hgrow)]
    exact .inr (.inr rfl)
  | stopped e muted =>
    rw [stateAfter_of_error hxm] at hgrow
    rw [muted.eq_of_quiet (hkept _ hgrow)]
    exact .inr (.inr rfl)
  | first may m1 r' => exact .inl ⟨may, m1, rfl⟩
  | second may r m1 => exact .inr (.inl ⟨may, m1, rfl⟩)
  | undescribed r loud unsaid => exact absurd (loud.symm.trans hquiet) Bool.noConfusion

/-- How a plan and the parser `whole` in its place run from a machine on, with more and more fuel:
what either of them comes to, the other comes to as well, the latter with so much more fuel. Where
nobody listens to misses, they are equal; where someone does, they are counterparts. -/
structure Corresponds (whole : Parser) (m : Machine) (more : Nat)
    (planned composed : Nat → EStateM.Result Stop Machine Outcome) : Prop where
  equal : m.Quiet → ∀ {n n'}, n + more ≤ n' → OutOfFuel (planned n) ∨ composed n' = planned n
  equal' : m.Quiet → ∀ {n n'}, n' ≤ n → OutOfFuel (composed n') ∨ composed n' = planned n
  counterpart : ∀ {n n'}, n + more ≤ n' →
    Counterpart m.grammar true false whole Eq (planned n) (composed n')
  counterpart' : ∀ {n n'}, n' ≤ n →
    Counterpart m.grammar false true whole Eq (planned n) (composed n')

theorem corresponds_of_counterpart {whole : Parser} {m : Machine} {more : Nat}
    {x y : Nat → Act Outcome} (hgrows : ∀ n, (x n).Grows)
    (h : ∀ {short short' : Bool} {n n' : Nat},
      (short = true ∧ n + more ≤ n' ∨ short' = true ∧ n' ≤ n) →
        Counterpart m.grammar short short' whole Eq (x n m) (y n' m)) :
    Corresponds whole m more (fun n => x n m) (fun n => y n m) where
  equal hquiet n n' hfuel := by
    have hends : Counterpart m.grammar true false whole Eq (x n m) (y n' m) := h (.inl ⟨rfl, hfuel⟩)
    rcases hends.exact (hgrows n) hquiet with ⟨-, hout⟩ | ⟨hmay, -⟩ | heq
    · exact .inl hout
    · cases hmay
    · exact .inr heq
  equal' hquiet n n' hfuel := by
    have hends : Counterpart m.grammar false true whole Eq (x n m) (y n' m) := h (.inr ⟨rfl, hfuel⟩)
    rcases hends.exact (hgrows n) hquiet with ⟨hmay, -⟩ | ⟨-, hout⟩ | heq
    · cases hmay
    · exact .inl hout
    · exact .inr heq
  counterpart hfuel := h (.inl ⟨rfl, hfuel⟩)
  counterpart' hfuel := h (.inr ⟨rfl, hfuel⟩)

/-- **Carrying out a plan equals running the composition**, whatever the fields of a schema are
resolved to, and whatever stands in their place. The composition has the error kind of the plan, and
a class runs as the plan that is found for it. -/
theorem plan_equals_composition {k : Nat} {schema : Schema} {plan : Plan Parser} {g g1 : Grammar}
    (hplan : planSchema (resolver k) schema g = .ok plan g1) :
    ∃ arms g2, schema.arms (resolver k) g = .ok arms g2 ∧
      (∀ (watch : Nat → Nat → Parser → Parser) (k' : Nat) (entry : Entry) (c : CursorId)
        (m : Machine) (whole : Parser),
        whole = schema.composed m.grammar (arms.mapIdx fun i a => a.watched (watch i)) →
          Corresponds whole m (arms.length + 1)
            (fun n => run (resolver k') n entry (.planned (plan.watched watch)) c m)
            (fun n => run (resolver k') n entry whole c m)) ∧
      (∀ (k' : Nat) (g3 gc : Grammar), g1.Precedes g3 →
        errorKindOf (resolver (k' + 1)) (schema.composed gc arms) g3 =
          .ok plan.errorKind g3) ∧
      ∀ (k' n : Nat) (entry : Entry) (d : ClassId) (c : CursorId) (m : Machine) (g3 : Grammar),
        (resolver k').planOf d m.grammar = .ok plan g3 →
          run (resolver k') (n + 1) entry (.derived d) c m =
            run (resolver k') n entry (.planned plan) c { m with grammar := g3 } := by
  obtain ⟨g2, harms⟩ := arms_of_planSchema hplan
  refine ⟨_, g2, harms, ?_, fun k' g3 gc hlater => errorKind_composed hplan hlater gc,
    fun k' n entry d c m g3 hfound => ?_⟩
  · rintro watch k' entry c m whole hwhole
    have hordered := (planSchema_ordered hplan).watched watch
    have hlength : (plan.watched watch).attempts.length = plan.attempts.length := by
      unfold Plan.watched
      exact List.length_mapIdx
    have hproduct := fun target fields hschema =>
      hlength.trans (length_of_product hplan target fields hschema)
    refine corresponds_of_counterpart (fun n => run_grows (resolver_grows k') n entry _ c)
      fun {short short' n n'} hfuel => ?_
    rw [hwhole, ← arms_watched]
    rw [List.length_map, ← hlength, ← Nat.add_assoc] at hfuel
    exact composed_counterpart hordered hproduct hfuel
  · have hresolved : Act.resolve ((resolver k').planOf d) m =
        .ok plan { m with grammar := g3 } := by
      unfold Act.resolve
      rw [hfound]
    exact bind_of_ok hresolved

/-- On `"ac"`, the first attempt reads both letters and fails; the composition does the same. -/
theorem plan_equals_composition_letters :
    planSchema (resolver 0) letterSchema (.empty none) = .ok letterPlan (.empty none) ∧
      ∃ arms g2, letterSchema.arms (resolver 0) (.empty none) = .ok arms g2 ∧
        run (resolver 0) 9 .total (letterSchema.composed (.empty none)
            (arms.mapIdx fun i a => a.watched (recordFields i))) 0 (reading (.empty none) "ac") =
          run (resolver 0) 6 .total (.planned (letterPlan.watched recordFields)) 0
            (reading (.empty none) "ac") := by
  have hplan : planSchema (resolver 0) letterSchema (.empty none) =
      .ok letterPlan (.empty none) := rfl
  obtain ⟨arms, g2, harms, hruns, -, -⟩ := plan_equals_composition hplan
  have hfound : letterSchema.arms (resolver 0) (.empty none) =
      .ok (letterPlan.attempts.map (·.arm)) (.empty none) := rfl
  cases hfound.symm.trans harms
  have hrun : run (resolver 0) 6 .total (.planned (letterPlan.watched recordFields)) 0
      (reading (.empty none) "ac") =
        .ok (.failed (.unexpectedElement (.text "b") (.text "a"))) (stateAfter
          (run (resolver 0) 6 .total (.planned (letterPlan.watched recordFields)) 0)
          (reading (.empty none) "ac")) := rfl
  have hequal := (hruns recordFields 0 .total 0 (reading (.empty none) "ac") _ rfl).equal rfl
    (show 6 + 3 ≤ 9 by decide)
  refine ⟨hplan, _, _, harms, hequal.resolve_left ?_⟩
  rintro ⟨m, hout⟩
  cases hrun.symm.trans hout

/-- A choice whose first variant has a description without an end, for there is a delayed parser
inside itself in it. -/
def endlessSchema : Schema :=
  .sum (.declared 0)
    [⟨"First", .declared 1,
        [⟨"x", .parser ⟨.made 1, .seq [.element (.text "a"), .box 0]⟩⟩]⟩,
      ⟨"Second", .declared 2, [⟨"y", .parser ⟨.made 2, .element (.text "c")⟩⟩]⟩]

/-- Where someone listens to misses, the plan misses on `"b"`, and the composition does not come to
an end: it describes its first variant, with any amount of fuel. -/
theorem composition_undescribed :
    ∃ plan arms g1 g2,
      planSchema (resolver 2) endlessSchema (.knotted (some .debug)) = .ok plan g1 ∧
      endlessSchema.arms (resolver 2) (.knotted (some .debug)) = .ok arms g2 ∧
      (∀ depth, g1.describeBox depth 0 = .error .outOfFuel) ∧
      ∀ k n, (∃ m1, run (resolver (k + 1)) (n + 7) .fallible (.planned plan) 0 (reading g1 "b") =
          .ok .missed m1) ∧
        ∃ m1, run (resolver (k + 1)) (n + 7) .fallible (endlessSchema.composed g1 arms) 0
          (reading g1 "b") = .error .outOfFuel m1 :=
  ⟨_, _, _, _, rfl, rfl, Grammar.describeBox_knot rfl, fun _ _ => ⟨⟨_, rfl⟩, _, rfl⟩⟩

end ShapeGrammar
