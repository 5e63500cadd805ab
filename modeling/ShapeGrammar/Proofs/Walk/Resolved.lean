import ShapeGrammar.Proofs.Walk.Watched

/-!
# What resolution spends

Each function of resolution spends no more than what it is about costs, and stops at nothing bad, if
the questions that it asks do so and a walk keeps clear of what it must not come upon. A shape
spends its cost on the delayed parsers that come from it. An expression spends on those that it
makes, and what it means costs what is left.

Headlines: `Frame.Expands`, `Frame.Answering`, `resolveShape_ends`, `errorKindOf_ends`,
`planSchema_ends`, `evaluateShape_ends`, `buildParser_ends`.
-/

namespace ShapeGrammar

open Resolution Inquiry ShapeGrammar.Frame

/-- The questions after aliases that are asked in a frame end. -/
def Frame.Expands (F : Frame) : Prop :=
  ∀ {a : AliasId} {g : Grammar} {xs : List Inquiry}, F.Sound g →
    F.Calm (.expansion F.expanding a :: xs) g → F.Affords g 0 →
    F.Ends 0 (fun _ => 0) ((resolver F.fuel).aliasParser F.expanding a) g

/-- So do all questions, in a frame in which no alias is being expanded. -/
structure Frame.Answering (F : Frame) : Prop where
  idle : F.expanding = []
  expands : F.Expands
  plan : ∀ {c : ClassId} {g : Grammar} {xs : List Inquiry}, F.Sound g → F.Calm (.plan c :: xs) g →
    F.Affords g 0 → F.Ends 0 (fun _ => 0) ((resolver F.fuel).planOf c) g
  boxKind : ∀ {b : BoxId} {g : Grammar} {xs : List Inquiry}, F.Sound g →
    F.Calm (.kind (.box b) :: xs) g → F.Affords g 0 →
    F.Ends 0 (fun _ => 0) ((resolver F.fuel).boxErrorKind b) g

variable {F : Frame} {g : Grammar} {xs : List Inquiry} {k : Nat}

/-! ## Shapes -/

theorem classParser_ends (hg : F.Sound g) (c : ClassRef) :
    F.Ends k (fun _ => 0) (classParser c) g := by
  refine ends_get ?_
  cases c with
  | declared d =>
    dsimp only
    split
    · exact hg.pure (Nat.zero_le _)
    · exact ends_fail trivial
  | character c => exact hg.pure (Nat.zero_le _)
  | builtin b =>
    cases b with
    | text => exact hg.newHandle fun _ => Nat.zero_le _
    | _ => exact ends_fail trivial

section Shapes

variable (hr : F.Expands)
include hr

-- the two halves of a mutual block use different ones of the shared assumptions
set_option linter.unusedSectionVars false

mutual

theorem resolveShape_ends : ∀ (a : Shape) {g : Grammar} {xs : List Inquiry}, F.Sound g →
    F.Calm (.shape F.expanding a :: xs) g → F.Affords g a.cost →
    F.Ends a.cost (fun _ => 0) (resolveShape (resolver F.fuel) F.expanding a) g
  | .parser h, g, _, hg, _, _ => hg.pure (Nat.zero_le _)
  | .cls c, g, _, hg, _, _ => classParser_ends hg c
  | .alias a, g, _, hg, hcalm, hafford => hr hg hcalm.parts hafford
  | .annotated body notes, g, _, hg, hcalm, hafford => by
    have hparts := hcalm.parts
    unfold Inquiry.parts at hparts
    unfold resolveShape
    cases hnoted : Shape.notedParser? notes with
    | some h => exact hg.pure (Nat.zero_le _)
    | none =>
      simp only [hnoted] at hparts
      exact resolveShape_ends body hg hparts hafford
  | .tuple items, g, _, hg, hcalm, hafford => by
    have hparts := hcalm.parts
    unfold Inquiry.parts at hparts
    unfold resolveShape
    cases hopen : openEnded items with
    | true =>
      have hrun : resolveShape (resolver F.fuel) F.expanding (.tuple items) g =
          failShowing (.tuple items) (.schema .noFixedLength) g := by
        unfold resolveShape
        rw [if_pos hopen]
      exact ends_failShowing trivial (hcalm.shown (.shape hrun))
    | false =>
      simp only [hopen, Bool.false_eq_true, if_false] at hparts
      exact (resolveShapes_ends items hg hparts hafford).finish fun _ hg' =>
        hg'.newHandle fun _ => Nat.zero_le _
  | .list item, g, _, hg, hcalm, hafford =>
    (resolveShape_ends item hg hcalm.parts hafford).finish fun _ hg' =>
      hg'.newHandle fun _ => Nat.zero_le _
  | .nonempty item, g, _, hg, hcalm, hafford =>
    (resolveShape_ends item hg hcalm.parts hafford).finish fun _ hg' =>
      hg'.newHandle fun _ => Nat.zero_le _
  | .union [a, b], g, _, hg, hcalm, hafford => by
    have hparts := hcalm.parts
    unfold Inquiry.parts at hparts
    have hcost : Shape.cost (.union [a, b]) = a.cost + (b.cost + 0) := rfl
    unfold resolveShape
    cases ha : a.isNothing with
    | true =>
      simp only [ha, if_true] at hparts ⊢
      have hb := resolveShape_ends b hg hparts (hafford.mono (by omega))
      exact (hb.mono (by omega) fun _ => Nat.le_refl _).finish fun _ hg' =>
        hg'.newHandle fun _ => Nat.zero_le _
    | false =>
      cases hb : b.isNothing with
      | true =>
        simp only [ha, hb, if_true, Bool.false_eq_true, if_false] at hparts ⊢
        have ha' := resolveShape_ends a hg hparts (hafford.mono (by omega))
        exact (ha'.mono (by omega) fun _ => Nat.le_refl _).finish fun _ hg' =>
          hg'.newHandle fun _ => Nat.zero_le _
      | false =>
        have hrun : resolveShape (resolver F.fuel) F.expanding (.union [a, b]) g =
            failShowing (.union [a, b]) (.schema .unorderedAlternative) g := by
          unfold resolveShape
          simp only [ha, hb, Bool.false_eq_true, if_false]
        exact ends_failShowing trivial (hcalm.shown (.shape hrun))
  | .union [], _, _, _, hcalm, _ => ends_failShowing trivial (hcalm.shown (.shape rfl))
  | .union [_], _, _, _, hcalm, _ => ends_failShowing trivial (hcalm.shown (.shape rfl))
  | .union (_ :: _ :: _ :: _), _, _, _, hcalm, _ =>
    ends_failShowing trivial (hcalm.shown (.shape rfl))
  | .either left right, g, _, hg, hcalm, hafford =>
    (resolveShape_ends left hg hcalm.parts (hafford.mono (Nat.le_add_right _ _))).after hafford
      fun hl hg' hafford' =>
        (resolveShape_ends right hg' (hcalm.parts.past (run_of_ok hl)) hafford').finish
          fun _ hg'' => hg''.newHandle fun _ => Nat.zero_le _
  | .not body, g, _, hg, hcalm, hafford =>
    (resolveShape_ends body hg hcalm.parts hafford).finish fun _ hg' =>
      hg'.newHandle fun _ => Nat.zero_le _
  | .box body, g, _, hg, _, _ =>
    (hg.newBox (.shape body)).finish fun _ hg' => hg'.newHandle fun _ => Nat.zero_le _
  | .nothing, _, _, _, hcalm, _ => ends_failShowing trivial (hcalm.shown (.shape rfl))
  | .ellipsis, _, _, _, hcalm, _ => ends_failShowing trivial (hcalm.shown (.shape rfl))
  | .constant _, _, _, _, hcalm, _ => ends_failShowing trivial (hcalm.shown (.shape rfl))
  | .foreign _, _, _, _, hcalm, _ => ends_failShowing trivial (hcalm.shown (.shape rfl))
  | .forward _, _, _, _, hcalm, _ => ends_failShowing trivial (hcalm.shown (.shape rfl))
  | .mapping _ _, _, _, _, hcalm, _ => ends_failShowing trivial (hcalm.shown (.shape rfl))
  | .shared _, _, _, _, hcalm, _ => ends_failShowing trivial (hcalm.shown (.shape rfl))
  | .parameterOnly _, _, _, _, hcalm, _ => ends_failShowing trivial (hcalm.shown (.shape rfl))

theorem resolveShapes_ends : ∀ (as : List Shape) {g : Grammar}, F.Sound g →
    F.Calm (as.map (.shape F.expanding)) g → F.Affords g (Shape.costs as) →
    F.Ends (Shape.costs as) (fun _ => 0) (resolveShapes (resolver F.fuel) F.expanding as) g
  | [], _, hg, _, _ => hg.pure (Nat.zero_le _)
  | a :: as, _, hg, hcalm, hafford =>
    (resolveShape_ends a hg hcalm (hafford.mono (Nat.le_add_right _ _))).after hafford
      fun ha hg' hafford' =>
        (resolveShapes_ends as hg' (hcalm.past (run_of_ok ha)) hafford').finish
          fun _ hg'' => hg''.pure (Nat.zero_le _)

end

end Shapes

section Answering

variable (hr : F.Answering)
include hr

theorem parserFor_ends {a : Shape} (hg : F.Sound g) (hcalm : F.Calm (.shape [] a :: xs) g)
    (hafford : F.Affords g a.cost) :
    F.Ends a.cost (fun _ => 0) (parserFor (resolver F.fuel) a) g := by
  have h := resolveShape_ends hr.expands a hg (hr.idle.symm ▸ hcalm) hafford
  rwa [hr.idle] at h

/-! ## Error kinds -/

-- the two halves of a mutual block use different ones of the shared assumptions
set_option linter.unusedSectionVars false

mutual

theorem errorKindOf_ends : ∀ (p : Parser) {g : Grammar} {xs : List Inquiry}, F.Sound g →
    F.Calm (.kind p :: xs) g → F.Affords g 0 →
    F.Ends 0 (fun _ => 0) (errorKindOf (resolver F.fuel) p) g
  | .seq ps, _, _, hg, hcalm, hafford => sequenceErrorKind_ends ps hg hcalm.parts hafford
  | .many1 _ body, _, _, hg, hcalm, hafford => errorKindOf_ends body hg hcalm.parts hafford
  | .either _ right, _, _, hg, hcalm, hafford => errorKindOf_ends right hg hcalm.parts hafford
  | .map _ body, _, _, hg, hcalm, hafford => errorKindOf_ends body hg hcalm.parts hafford
  | .recorded _ body, _, _, hg, hcalm, hafford => errorKindOf_ends body hg hcalm.parts hafford
  | .box _, _, _, hg, hcalm, hafford => hr.boxKind hg hcalm hafford
  | .derived _, _, _, hg, hcalm, hafford =>
    (hr.plan hg hcalm.parts hafford).finish fun _ hg' => hg'.pure (Nat.le_refl _)
  | .inert, _, _, _, _, _ => ends_fail trivial
  | .element _, _, _, hg, _, _ => hg.pure (Nat.le_refl _)
  | .any, _, _, hg, _, _ => hg.pure (Nat.le_refl _)
  | .satisfy _ _, _, _, hg, _, _ => hg.pure (Nat.le_refl _)
  | .opt _, _, _, hg, _, _ => hg.pure (Nat.le_refl _)
  | .many _ _, _, _, hg, _, _ => hg.pure (Nat.le_refl _)
  | .not _, _, _, hg, _, _ => hg.pure (Nat.le_refl _)
  | .planned _, _, _, hg, _, _ => hg.pure (Nat.le_refl _)
  | .generated _ _, _, _, hg, _, _ => hg.pure (Nat.le_refl _)
  | .misser _, _, _, hg, _, _ => hg.pure (Nat.le_refl _)
  | .unimplemented, _, _, hg, _, _ => hg.pure (Nat.le_refl _)

theorem sequenceErrorKind_ends : ∀ (ps : List Parser) {g : Grammar} {xs : List Inquiry},
    F.Sound g → F.Calm (.kinds ps :: xs) g → F.Affords g 0 →
    F.Ends 0 (fun _ => 0) (sequenceErrorKind (resolver F.fuel) ps) g
  | [], _, _, hg, _, _ => hg.pure (Nat.le_refl _)
  | p :: ps, _, _, hg, hcalm, hafford =>
    (errorKindOf_ends p hg hcalm.parts hafford).first hafford fun {kind _} hkind hg' hafford' =>
      match kind with
      | some _ => hg'.pure (Nat.le_refl _)
      | none => sequenceErrorKind_ends ps hg' (hcalm.leads (.later hkind)) hafford'

end

/-! ## Plans -/

theorem fieldParsers_ends (owner : ClassRef) : ∀ (fs : List SchemaField) {g : Grammar}
    {xs : List Inquiry}, F.Sound g → F.Calm (shapesOf fs ++ xs) g → F.Affords g (fieldsCost fs) →
    F.Ends (fieldsCost fs) (fun _ => 0) (fieldParsers (resolver F.fuel) owner fs) g
  | [], _, _, hg, _, _ => hg.pure (Nat.zero_le _)
  | _ :: fs, _, _, hg, hcalm, hafford =>
    (parserFor_ends hr hg hcalm (hafford.mono (Nat.le_add_right _ _))).mapSchemaFault.after hafford
      fun hf hg' hafford' =>
        have hcalm' := hcalm.past (run_of_ok (mapSchemaFault_eq_ok hf))
        (fieldParsers_ends owner fs hg' hcalm' hafford').thenPure fun _ => Nat.le_refl _

omit hr in
/-- What comes after the fields is still to be looked into. -/
theorem Frame.Calm.past_fields {owner : ClassRef} : ∀ {fs : List SchemaField} {ps : List Parser}
    {g g' : Grammar}, F.Calm (shapesOf fs ++ xs) g →
    fieldParsers (resolver F.fuel) owner fs g = .ok ps g' → F.Calm xs g'
  | [], _, _, _, hcalm, h => by
    cases h
    exact hcalm
  | _ :: _, _, _, _, hcalm, h => by
    unfold fieldParsers at h
    obtain ⟨k, g1, hk, h⟩ := bind_eq_ok_iff.mp h
    obtain ⟨rest, g2, hrest, h⟩ := bind_eq_ok_iff.mp h
    cases h
    exact (hcalm.past (run_of_ok (mapSchemaFault_eq_ok hk))).past_fields hrest

theorem planVariants_ends : ∀ (vs : List Variant) {g : Grammar}, F.Sound g →
    F.Calm (shapesOf (vs.flatMap (·.fields))) g → F.Affords g (fieldsCost (vs.flatMap (·.fields))) →
    F.Ends (fieldsCost (vs.flatMap (·.fields))) (fun _ => 0) (planVariants (resolver F.fuel) vs) g
  | [], _, hg, _, _ => hg.pure (Nat.zero_le _)
  | v :: vs, g, hg, hcalm, hafford => by
    have hcalm' : F.Calm (shapesOf v.fields ++ shapesOf (vs.flatMap (·.fields))) g := by
      unfold shapesOf at hcalm ⊢
      rwa [List.flatMap_cons, List.map_append] at hcalm
    rw [List.flatMap_cons, fieldsCost_append] at hafford ⊢
    have hfields := fieldParsers_ends hr v.target v.fields hg hcalm'
      (hafford.mono (Nat.le_add_right _ _))
    refine hfields.after hafford fun hps hg' hafford' => ?_
    exact (planVariants_ends vs hg' (hcalm'.past_fields hps) hafford').thenPure
      fun _ => Nat.le_refl _

omit hr in
theorem reportHidden_ends (hg : F.Sound g) (target : ClassRef) (shown hidden : List Variant) :
    F.Ends k (fun _ => 0) (reportHidden target shown hidden) g := by
  unfold reportHidden
  split
  · exact hg.pure (Nat.zero_le _)
  · exact hg.pure (Nat.zero_le _)
  · exact hg.report _

theorem planProduct_ends {target : ClassRef} {fields : List SchemaField} (hg : F.Sound g)
    (hcalm : F.Calm (.schema (.product target fields) :: xs) g)
    (hafford : F.Affords g (fieldsCost fields)) :
    F.Ends (fieldsCost fields) (fun _ => 0)
      (planSchema (resolver F.fuel) (.product target fields)) g := by
  have hshapes : F.Calm (shapesOf fields ++ []) g := by
    rw [List.append_nil]
    exact hcalm.parts
  have hfields := fieldParsers_ends hr target fields hg hshapes hafford
  refine hfields.spending hafford fun hps hg1 hafford1 => ?_
  have hkinds := hcalm.leads (.product hps)
  exact (sequenceErrorKind_ends hr _ hg1 hkinds hafford1).finish fun _ hg2 =>
    ends_get (hg2.pure (Nat.le_refl _))

theorem sumErrorKind_ends (target : ClassRef) {vs : List Variant} {as : List (Attempt Parser)}
    (hg : F.Sound g) (hcalm : vs.any (·.isUnit) = false → ∀ {a}, as.getLast? = some a →
      F.Calm [.kinds a.parsers] g) (hafford : F.Affords g 0) :
    F.Ends 0 (fun _ => 0) (sumErrorKind (resolver F.fuel) target vs as) g := by
  unfold sumErrorKind
  cases hunit : vs.any (·.isUnit) with
  | true => exact hg.pure (Nat.le_refl _)
  | false =>
    simp only [Bool.false_eq_true, if_false]
    cases hlast : as.getLast? with
    | none => exact ends_get (ends_fail trivial)
    | some a => exact sequenceErrorKind_ends hr a.parsers hg (hcalm hunit hlast) hafford

theorem planSum_ends {target : ClassRef} {vs : List Variant} (hg : F.Sound g)
    (hcalm : F.Calm (.schema (.sum target vs) :: xs) g)
    (hafford : F.Affords g (fieldsCost (vs.flatMap (·.fields)))) :
    F.Ends (fieldsCost (vs.flatMap (·.fields))) (fun _ => 0)
      (planSchema (resolver F.fuel) (.sum target vs)) g := by
  have hless := fieldsCost_reachable_le vs
  refine Ends.first (k := _) (reportHidden_ends hg target (reachable vs).1 (reachable vs).2) hafford
    fun {_ g1} hhidden hg1 hafford1 => ?_
  refine Ends.mono (k := fieldsCost ((reachable vs).1.flatMap (·.fields))) ?_ hless
    fun _ => Nat.le_refl _
  have hshapes := hcalm.leads (.variants hhidden)
  have hvariants := planVariants_ends hr (reachable vs).1 hg1 hshapes (hafford1.mono hless)
  refine hvariants.spending (hafford1.mono hless) fun {as g2} has hg2 hafford2 => ?_
  have hkind := sumErrorKind_ends hr target hg2
    (fun hunit {_} hlast => hcalm.leads (.last hhidden has hunit hlast)) hafford2
  exact hkind.thenPure fun _ => Nat.le_refl _

theorem planSchema_ends (s : Schema) (hg : F.Sound g) (hcalm : F.Calm (.schema s :: xs) g)
    (hafford : F.Affords g s.cost) :
    F.Ends s.cost (fun _ => 0) (planSchema (resolver F.fuel) s) g := by
  cases s with
  | product target fields => exact planProduct_ends hr hg hcalm hafford
  | sum target vs => exact planSum_ends hr hg hcalm hafford

omit hr in
theorem schemaFor_ends (hg : F.Sound g) (a : Shape) :
    F.Ends F.price Schema.cost (schemaFor a) g := by
  unfold schemaFor
  split
  · exact ends_get (hg.lift (g.schemaOf_stopsAt _) fun h => hg.priced.schemas h)
  · exact ends_fail trivial

omit hr in
/-- To look a schema up changes nothing. -/
theorem schemaFor_eq_ok {a : Shape} {s : Schema} {g g' : Grammar} (h : schemaFor a g = .ok s g') :
    g' = g := by
  unfold schemaFor at h
  cases hclass : a.declaring? with
  | none =>
    simp only [hclass] at h
    cases h
  | some c =>
    simp only [hclass] at h
    replace h := get_bind_eq_ok_iff.mp h
    generalize g.schemaOf c = answer at h
    cases answer <;> cases h
    rfl

theorem derivedPlan_ends {a : Shape} (hg : F.Sound g) (hcalm : F.Calm (.derived a :: xs) g)
    (hafford : F.Affords g a.cost) :
    F.Ends a.cost (fun _ => 0) (derivedPlan (resolver F.fuel) a) g := by
  have hparser := parserFor_ends hr hg hcalm.parts hafford
  refine hparser.spending hafford fun {h g1} hh hg1 hafford1 => ?_
  cases hderived : h.body with
  | derived c => exact hr.plan hg1 (hcalm.leads (.planned hh hderived)) hafford1
  | _ =>
    have hrun : derivedPlan (resolver F.fuel) a g = failShowing a (.type .notDerived) g1 := by
      unfold derivedPlan
      rw [bind_of_ok hh, hderived]
    exact ends_failShowing trivial (hcalm.shown (.derived hh hrun))

omit hr in
theorem generatedParser_ends (hg : F.Sound g) (plan : Plan Parser) :
    F.Ends k (fun _ => 0) (generatedParser plan) g := by
  refine ends_get ?_
  have hread : F.Ends k (fun _ => 0)
      (lift (Code.ofText factoryName (plan.generate (g.fullName plan.target) factoryName))) g :=
    hg.lift (Code.ofText_stopsAt _ _) fun _ => Nat.zero_le _
  refine hread.finish fun {code g1} _ hg1 => ?_
  have hbound : F.Ends 0 (fun _ => 0) (lift (code.bind plan)) g1 :=
    hg1.lift (code.bind_stopsAt plan) fun _ => Nat.le_refl _
  exact hbound.finish fun _ hg2 => hg2.pure (Nat.le_refl _)

/-- A single factory is loaded for the plan that it runs. -/
theorem loadFactories_ends (file : String) (listed : List Listed) {a : Shape} (hg : F.Sound g)
    (hcalm : F.Calm (.derived a :: xs) g) (hafford : F.Affords g a.cost) :
    F.Ends a.cost (fun _ => 0) (loadFactories (resolver F.fuel) file listed [a]) g := by
  refine (derivedPlan_ends hr hg hcalm hafford).finish fun {plan g1} _ hg1 => ends_get ?_
  have hbound : F.Ends 0 (fun _ => 0) (lift (boundFactory g1 file listed plan)) g1 :=
    hg1.lift (g1.boundFactory_stopsAt _ _ _) fun _ => Nat.le_refl _
  exact hbound.finish fun _ hg2 => hg2.pure (Nat.le_refl _)

/-! ## Written shapes and parsers -/

omit hr in
theorem lookup_ends (hg : F.Sound g) (path : Path) :
    F.Ends F.price Binding.cost (lift (g.lookup path)) g :=
  hg.lift (g.lookup_stopsAt path) fun h => hg.priced.names h

mutual

theorem evaluateShape_ends : ∀ (e : ShapeExpr) {g : Grammar} {xs : List Inquiry}, F.Sound g →
    F.Calm (.writtenShape e :: xs) g → F.Affords g (e.cost F.price) →
    F.Ends (e.cost F.price) Shape.cost (evaluateShape (resolver F.fuel) false e) g
  | .character v, _, _, hg, _, _ =>
    hg.lift (characterClass_stopsAt v) fun h => Nat.le_of_eq (cost_characterClass h)
  | .ref path, _, _, hg, _, _ =>
    ends_get ((lookup_ends hg path).thenPure fun _ => Nat.le_refl _)
  | .nothing, _, _, hg, _, _ => hg.pure (Nat.le_refl _)
  | .ellipsis, _, _, hg, _, _ => hg.pure (Nat.le_refl _)
  | .builtin _, _, _, hg, _, _ => hg.pure (Nat.le_refl _)
  | .list a, _, _, hg, hcalm, hafford =>
    (evaluateShape_ends a hg hcalm.parts hafford).thenPure fun _ => Nat.le_refl _
  | .nonempty a, _, _, hg, hcalm, hafford =>
    (evaluateShape_ends a hg hcalm.parts hafford).thenPure fun _ => Nat.le_refl _
  | .not a, _, _, hg, hcalm, hafford =>
    (evaluateShape_ends a hg hcalm.parts hafford).thenPure fun b => Nat.le_of_eq b.cost_asType
  | .box a, _, _, hg, hcalm, hafford =>
    have ha := evaluateShape_ends a hg hcalm.parts (hafford.mono (Nat.le_add_right _ 1))
    have hbox := (ha.keeping 1).mono (Nat.le_of_eq (Nat.add_comm 1 _)) fun _ => Nat.le_refl _
    hbox.thenPure fun b => Nat.le_of_eq <| by rw [Shape.cost, b.cost_asType, Nat.add_comm]
  | .either a b, _, _, hg, hcalm, hafford =>
    (evaluateShape_ends a hg hcalm.parts (hafford.mono (Nat.le_add_right _ _))).bind hafford
      fun {a' _} ha hg' hafford' =>
        have hb := evaluateShape_ends b hg' (hcalm.parts.past (run_of_ok ha))
          (hafford'.mono (Nat.le_add_left _ _))
        (hb.keeping a'.cost).thenPure fun b' =>
          Nat.le_of_eq (congrArg₂ (· + ·) a'.cost_asType b'.cost_asType)
  | .mapping a b, _, _, hg, hcalm, hafford =>
    (evaluateShape_ends a hg hcalm.parts (hafford.mono (Nat.le_add_right _ _))).bind hafford
      fun {a' _} ha hg' hafford' =>
        have hb := evaluateShape_ends b hg' (hcalm.parts.past (run_of_ok ha))
          (hafford'.mono (Nat.le_add_left _ _))
        (hb.keeping a'.cost).thenPure fun _ => Nat.le_refl _
  | .tuple as, _, _, hg, hcalm, hafford =>
    (evaluateShapes_ends as hg hcalm.parts hafford).thenPure fun _ => Nat.le_refl _
  | .union as, _, _, hg, hcalm, hafford =>
    have has := evaluateShapes_ends as hg hcalm.parts hafford
    has.spending hafford fun _ hg' _ =>
      hg'.lift (Shape.unionOf_stopsAt _) fun h => Shape.cost_unionOf h
  | .annotated a notes, _, _, hg, hcalm, hafford =>
    (evaluateShape_ends a hg hcalm.parts (hafford.mono (Nat.le_add_right _ _))).bind hafford
      fun {a' _} ha hg' hafford' => by
        have hnotes := evaluateNotes_ends notes hg' (hcalm.parts.past (run_of_ok ha))
          (hafford'.mono (Nat.le_add_left _ _))
        refine (hnotes.keeping a'.cost).spending hafford' fun {notes' _} _ hg'' _ => ?_
        split
        · exact ends_fail trivial
        · exact hg''.lift (Shape.annotatedOf_stopsAt _ _) fun h => Shape.cost_annotatedOf h
  | .parser p, _, _, hg, hcalm, hafford =>
    (buildParser_ends p hg hcalm.parts hafford).thenPure fun _ => Nat.le_refl _

theorem evaluateShapes_ends : ∀ (es : List ShapeExpr) {g : Grammar}, F.Sound g →
    F.Calm (es.map .writtenShape) g → F.Affords g (ShapeExpr.costs F.price es) →
    F.Ends (ShapeExpr.costs F.price es) Shape.costs (evaluateShapes (resolver F.fuel) false es) g
  | [], _, hg, _, _ => hg.pure (Nat.le_refl _)
  | e :: es, _, hg, hcalm, hafford =>
    (evaluateShape_ends e hg hcalm (hafford.mono (Nat.le_add_right _ _))).bind hafford
      fun {a _} ha hg' hafford' =>
        have has := evaluateShapes_ends es hg' (hcalm.past (run_of_ok ha))
          (hafford'.mono (Nat.le_add_left _ _))
        (has.keeping a.cost).thenPure fun _ => Nat.le_refl _

theorem evaluateNotes_ends : ∀ (ns : List NoteExpr) {g : Grammar}, F.Sound g →
    F.Calm (noted ns) g → F.Affords g (NoteExpr.costs F.price ns) →
    F.Ends (NoteExpr.costs F.price ns) (fun _ => 0) (evaluateNotes (resolver F.fuel) ns) g
  | [], _, hg, _, _ => hg.pure (Nat.le_refl _)
  | .text _ :: ns, _, hg, hcalm, hafford =>
    (evaluateNotes_ends ns hg hcalm hafford).thenPure fun _ => Nat.le_refl _
  | .parser p :: ns, _, hg, hcalm, hafford =>
    (buildParser_ends p hg hcalm (hafford.mono (Nat.le_add_right _ _))).after hafford
      fun hp hg' hafford' =>
        (evaluateNotes_ends ns hg' (hcalm.past (run_of_ok hp)) hafford').thenPure
          fun _ => Nat.le_refl _

theorem buildParser_ends : ∀ (e : ParserExpr) {g : Grammar} {xs : List Inquiry}, F.Sound g →
    F.Calm (.writtenParser e :: xs) g → F.Affords g (e.cost F.price) →
    F.Ends (e.cost F.price) Binding.cost (buildParser (resolver F.fuel) e) g
  | .element _, _, _, hg, _, _ => hg.made _
  | .any, _, _, hg, _, _ => hg.made _
  | .satisfy _ _, _, _, hg, _, _ => hg.made _
  | .misser _, _, _, hg, _, _ => hg.made _
  | .unimplemented, _, _, hg, _, _ => hg.made _
  | .seq ps, _, _, hg, hcalm, hafford =>
    (buildParsers_ends ps hg hcalm.parts hafford).finish fun _ hg' => hg'.made _
  | .opt body, _, _, hg, hcalm, hafford =>
    (buildParser_ends body hg hcalm.parts hafford).finish fun _ hg' => hg'.made _
  | .many _ body, _, _, hg, hcalm, hafford =>
    (buildParser_ends body hg hcalm.parts hafford).finish fun _ hg' => hg'.made _
  | .many1 _ body, _, _, hg, hcalm, hafford =>
    (buildParser_ends body hg hcalm.parts hafford).finish fun _ hg' => hg'.made _
  | .not body, _, _, hg, hcalm, hafford =>
    (buildParser_ends body hg hcalm.parts hafford).finish fun _ hg' => hg'.made _
  | .recorded _ body, _, _, hg, hcalm, hafford =>
    (buildParser_ends body hg hcalm.parts hafford).finish fun _ hg' => hg'.made _
  | .map _ body, _, _, hg, hcalm, hafford =>
    (buildParser_ends body hg hcalm.parts hafford).finish fun {b _} _ hg' => by
      cases b with
      | parser h => exact hg'.made _
      | _ => exact ends_fail trivial
  | .either left right, _, _, hg, hcalm, hafford =>
    (buildParser_ends left hg hcalm.parts (hafford.mono (Nat.le_add_right _ _))).after hafford
      fun hl hg' hafford' =>
        (buildParser_ends right hg' (hcalm.parts.past (run_of_ok hl)) hafford').finish
          fun _ hg'' => hg''.made _
  | .sum first second, _, _, hg, hcalm, hafford =>
    (buildParser_ends first hg hcalm.parts (hafford.mono (Nat.le_add_right _ _))).after hafford
      fun {a _} ha hg' hafford' =>
        (buildParser_ends second hg' (hcalm.parts.past (run_of_ok ha)) hafford').finish
          fun _ hg'' => by
            cases a with
            | parser h => exact hg''.made _
            | _ => exact ends_fail trivial
  | .choice first second, _, _, hg, hcalm, hafford =>
    (buildParser_ends first hg hcalm.parts (hafford.mono (Nat.le_add_right _ _))).bind hafford
      fun {a _} ha hg' hafford' => by
        have hb := buildParser_ends second hg' (hcalm.parts.past (run_of_ok ha))
          (hafford'.mono (Nat.le_add_left _ _))
        refine (hb.keeping a.cost).spending hafford' fun {b _} _ hg'' _ => ?_
        cases a with
        | parser h => exact hg''.made _
        | _ => exact hg''.lift (Binding.join_stopsAt _ _) fun h => Binding.cost_join h
  | .box body, _, _, hg, hcalm, hafford =>
    (buildParser_ends body hg hcalm.parts (hafford.mono (Nat.le_add_right _ 1))).after hafford
      fun {b _} _ hg' _ => by
        cases b with
        | parser h => exact (hg'.newBox (.known h.body)).finish fun _ hg'' => hg''.made _
        | _ => exact (hg'.newBox (.call _)).finish fun _ hg'' => hg''.made _
  | .delayed body, _, _, hg, _, _ =>
    (hg.newBox (.expression body)).finish fun _ hg' => hg'.made _
  | .name path, _, _, hg, _, _ => ends_get (lookup_ends hg path)
  | .shape a, _, _, hg, hcalm, hafford =>
    have ha := evaluateShape_ends a hg hcalm.parts hafford
    ha.spending hafford fun ha' hg' hafford' =>
      .map (parserFor_ends hr hg' (hcalm.leads (.shaped ha')) hafford')
  | .compiled a, _, _, hg, hcalm, hafford =>
    (evaluateShape_ends a hg hcalm.parts (hafford.mono (Nat.le_add_right _ _))).after hafford
      fun {b _} ha hg' hafford' =>
        (schemaFor_ends hg' b).spending hafford' fun {s _} hs hg'' hafford'' => by
          cases schemaFor_eq_ok hs
          have hplan := planSchema_ends hr s hg'' (hcalm.leads (.compiled ha hs)) hafford''
          exact hplan.finish fun _ hg3 => hg3.made _
  | .generated a, _, _, hg, hcalm, hafford =>
    have ha := evaluateShape_ends a hg hcalm.parts hafford
    ha.spending hafford fun ha' hg' hafford' =>
      (derivedPlan_ends hr hg' (hcalm.leads (.generated ha')) hafford').finish fun _ hg'' =>
        (generatedParser_ends hg'' _).finish fun _ hg3 => hg3.made _
  | .generatedSchema a, _, _, hg, hcalm, hafford =>
    (evaluateShape_ends a hg hcalm.parts (hafford.mono (Nat.le_add_right _ _))).after hafford
      fun {b _} ha hg' hafford' =>
        (schemaFor_ends hg' b).spending hafford' fun {s _} hs hg'' hafford'' => by
          cases schemaFor_eq_ok hs
          have hplan := planSchema_ends hr s hg'' (hcalm.leads (.generatedSchema ha hs)) hafford''
          exact hplan.finish fun _ hg3 =>
            (generatedParser_ends hg3 _).finish fun _ hg4 => hg4.made _
  | .loaded file a, _, _, hg, hcalm, hafford =>
    have ha := evaluateShape_ends a hg hcalm.parts hafford
    ha.spending hafford fun {b g1} ha' hg' hafford' => ends_get <| by
      cases hlisted : factoriesOf g1 file with
      | error f =>
        have hplain := g1.factoriesOf_stopsAt file f hlisted
        exact ends_of_error (bind_of_error rfl) (F.watch.plain hplain)
      | ok listed =>
        have hloaded := loadFactories_ends hr file listed hg'
          (hcalm.leads (.loaded ha' hlisted)) hafford'
        exact hloaded.finish fun {found _} _ hg'' =>
          match found with
          | (_, _) :: _ => hg''.made _
          | [] => ends_fail trivial

theorem buildParsers_ends : ∀ (es : List ParserExpr) {g : Grammar}, F.Sound g →
    F.Calm (es.map .writtenParser) g → F.Affords g (ParserExpr.costs F.price es) →
    F.Ends (ParserExpr.costs F.price es) (fun _ => 0) (buildParsers (resolver F.fuel) es) g
  | [], _, hg, _, _ => hg.pure (Nat.le_refl _)
  | e :: es, _, hg, hcalm, hafford =>
    (buildParser_ends e hg hcalm (hafford.mono (Nat.le_add_right _ _))).after hafford
      fun he hg' hafford' =>
        (buildParsers_ends es hg' (hcalm.past (run_of_ok he)) hafford').thenPure
          fun _ => Nat.le_refl _

end

end Answering

end ShapeGrammar
