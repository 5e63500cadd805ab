import ShapeGrammar.Proofs.Grammar.Faults
import ShapeGrammar.Proofs.Grammar.Reports

/-!
# Laws of resolution

Resolution is put together from few single steps: to look something up, to make a parser, to report,
to work under a mark, and to remember a finding. A property of computations that the single steps
have, and that is kept when they are put together, holds of everything that is resolved. The
induction over shapes, parsers and expressions, and over the number of questions, is made here once.
Where a step stops, it is never for the reason for which repetitions stop.

What is remembered comes in two forms. A `ResolutionLaw` is kept by everything that is remembered,
whenever that happens. A `QuestionLaw` has to be kept by the questions that resolution asks by
itself; among these, a delayed parser is only opened where its error kind is asked for.

Headlines: `StepLaw`, `ResolutionLaw.resolver`, `QuestionLaw.answers`.
-/

namespace ShapeGrammar

open Resolution

/-- What the single steps of a resolution have, and what is put together from them. -/
structure StepLaw (P : {α : Type} → Resolution α → Prop) : Prop where
  pure {α : Type} (a : α) : P (pure a : Resolution α)
  stop {α : Type} {e : Stop} : e.Ordinary → P (throw e : Resolution α)
  bind {α β : Type} {x : Resolution α} {f : α → Resolution β} :
    P x → (∀ a, P (f a)) → P (x >>= f)
  /-- To look at the grammar, apart from its reports. -/
  read {α : Type} {k : Grammar → Resolution α} :
    (∀ g, P (k g)) → (∀ g rs, k (g.withReports rs) = k g) → P (get >>= k)
  newHandle (body : Parser) : P (newHandle body)
  newBox (body : Delayed) : P (newBox body)
  report {x : Grammar → Report} :
    (∀ g rs, x (g.withReports rs) = x g) → P (modify fun g => g.report (x g) : Resolution Unit)
  guarded {α : Type} (key : Pending) {fault : List Pending → Fault} {x : Resolution α} :
    (∀ chain, (fault chain).Ordinary) → P x → P (guarded key fault x)
  mapSchemaFault {α : Type} {f : Grammar → SchemaFault → SchemaFault} {x : Resolution α} :
    (∀ g rs, f (g.withReports rs) = f g) → P x → P (mapSchemaFault f x)

/-- A law of single steps that what is remembered keeps. -/
structure ResolutionLaw (P : {α : Type} → Resolution α → Prop) : Prop extends StepLaw P where
  remember {α : Type} (f : Finding α) {x : Resolution α} :
    P x → (∀ {g a g'}, x g = .ok a g' → f.Admits a) → P (remember f x)

/-- Answers that have a property, to the questions that resolution asks by itself. -/
structure Resolver.Answers (P : {α : Type} → Resolution α → Prop) (r : Resolver) : Prop where
  planOf (c : ClassId) : P (r.planOf c)
  aliasParser (expanding : List AliasId) (a : AliasId) : P (r.aliasParser expanding a)
  boxErrorKind (b : BoxId) : P (r.boxErrorKind b)

/-- Answers that have a property. What a delayed parser is, only runs ask. -/
structure Resolver.Obeys (P : {α : Type} → Resolution α → Prop) (r : Resolver) : Prop
    extends r.Answers P where
  boxParser (b : BoxId) : P (r.boxParser b)

namespace StepLaw

-- the two halves of a mutual block use different ones of the shared assumptions
set_option linter.unusedSectionVars false

variable {P : {α : Type} → Resolution α → Prop} (L : StepLaw P)
include L

theorem fail {α : Type} {f : Fault} (hf : f.Ordinary) : P (fail f : Resolution α) :=
  L.stop (e := .fault f) hf

theorem lift {α : Type} {x : Except Fault α} (hx : StopsAt Fault.Plain x) : P (lift x) := by
  cases x with
  | ok a => exact L.pure a
  | error f => exact L.fail (hx f rfl).ordinary

theorem liftStop {α : Type} {x : Except Stop α} (hx : StopsAt Stop.Plain x) :
    P (liftStop x) := by
  cases x with
  | ok a => exact L.pure a
  | error e => exact L.stop (hx e rfl).ordinary

theorem map {α β : Type} {x : Resolution α} (f : α → β) (hx : P x) : P (f <$> x) :=
  L.bind hx fun a => L.pure (f a)

theorem failShowing {α : Type} (a : Shape) {f : Fault} (hf : f.Ordinary) :
    P (failShowing a f : Resolution α) := by
  unfold ShapeGrammar.failShowing
  refine L.read (fun g => L.bind (L.liftStop (g.showShape_plain a)) fun _ => L.fail hf)
    fun g rs => ?_
  rw [g.showShape_withReports rs a]

theorem made (body : Parser) : P (made body) :=
  L.map _ (L.newHandle body)

theorem classParser (c : ClassRef) : P (classParser c) := by
  unfold ShapeGrammar.classParser
  refine L.read (fun g => ?_) fun g rs => rfl
  cases c with
  | declared d =>
    simp only
    split
    · exact L.pure _
    · exact L.fail trivial
  | character c => exact L.pure _
  | builtin b =>
    cases b with
    | text => exact L.newHandle _
    | _ => exact L.fail trivial

variable {r : Resolver}

/-! ## Shapes -/

section Shapes

variable (halias : ∀ expanding a, P (r.aliasParser expanding a))
include halias

mutual

theorem resolveShape (expanding : List AliasId) : ∀ a : Shape, P (resolveShape r expanding a)
  | .parser h => L.pure h
  | .cls c => L.classParser c
  | .alias a => halias expanding a
  | .annotated body notes => by
    unfold ShapeGrammar.resolveShape
    split
    · exact L.pure _
    · exact resolveShape expanding body
  | .tuple items => by
    unfold ShapeGrammar.resolveShape
    split
    · exact L.failShowing _ trivial
    · exact L.bind (resolveShapes expanding items) fun ps => L.newHandle _
  | .list item => L.bind (resolveShape expanding item) fun h => L.newHandle _
  | .nonempty item => L.bind (resolveShape expanding item) fun h => L.newHandle _
  | .union [a, b] => by
    unfold ShapeGrammar.resolveShape
    split
    · exact L.bind (resolveShape expanding b) fun h => L.newHandle _
    · split
      · exact L.bind (resolveShape expanding a) fun h => L.newHandle _
      · exact L.failShowing _ trivial
  | .union [] => L.failShowing _ trivial
  | .union [_] => L.failShowing _ trivial
  | .union (_ :: _ :: _ :: _) => L.failShowing _ trivial
  | .either left right =>
    L.bind (resolveShape expanding left) fun l =>
      L.bind (resolveShape expanding right) fun h => L.newHandle _
  | .not body => L.bind (resolveShape expanding body) fun h => L.newHandle _
  | .box body => L.bind (L.newBox _) fun b => L.newHandle _
  | .nothing => L.failShowing _ trivial
  | .ellipsis => L.failShowing _ trivial
  | .constant _ => L.failShowing _ trivial
  | .foreign _ => L.failShowing _ trivial
  | .forward _ => L.failShowing _ trivial
  | .mapping _ _ => L.failShowing _ trivial
  | .shared _ => L.failShowing _ trivial
  | .parameterOnly _ => L.failShowing _ trivial

theorem resolveShapes (expanding : List AliasId) :
    ∀ as : List Shape, P (resolveShapes r expanding as)
  | [] => L.pure _
  | a :: as =>
    L.bind (resolveShape expanding a) fun _ =>
      L.bind (resolveShapes expanding as) fun _ => L.pure _

end

theorem resolveAlias (expanding : List AliasId) {a : AliasId} (ha : P (aliasValue r a)) :
    P (resolveAlias r expanding a) := by
  unfold ShapeGrammar.resolveAlias
  refine L.read (fun g => ?_) fun g rs => rfl
  split
  · exact L.fail trivial
  · exact L.bind ha fun value => L.resolveShape halias _ value

end Shapes

variable (hr : r.Answers P)
include hr

theorem parserFor (a : Shape) : P (parserFor r a) :=
  L.resolveShape hr.aliasParser [] a

/-! ## Error kinds -/

mutual

theorem errorKindOf : ∀ p : Parser, P (errorKindOf r p)
  | .element _ => L.pure _
  | .any => L.pure _
  | .satisfy _ _ => L.pure _
  | .seq parts => sequenceErrorKind parts
  | .opt _ => L.pure _
  | .many _ _ => L.pure _
  | .many1 _ body => errorKindOf body
  | .either _ right => errorKindOf right
  | .not _ => L.pure _
  | .box b => hr.boxErrorKind b
  | .map _ body => errorKindOf body
  | .derived c => L.bind (hr.planOf c) fun _ => L.pure _
  | .planned _ => L.pure _
  | .generated _ _ => L.pure _
  | .recorded _ body => errorKindOf body
  | .misser _ => L.pure _
  | .unimplemented => L.pure _
  | .inert => L.fail trivial

theorem sequenceErrorKind : ∀ ps : List Parser, P (sequenceErrorKind r ps)
  | [] => L.pure _
  | p :: ps =>
    L.bind (errorKindOf p) fun
      | some _ => L.pure _
      | none => sequenceErrorKind ps

end

/-! ## Plans -/

theorem fieldParsers (owner : ClassRef) : ∀ fs, P (fieldParsers r owner fs)
  | [] => L.pure _
  | f :: fs =>
    L.bind (L.mapSchemaFault (fun _ _ => rfl) (L.parserFor hr f.shape)) fun _ =>
      L.bind (fieldParsers owner fs) fun _ => L.pure _

theorem planVariants : ∀ vs, P (planVariants r vs)
  | [] => L.pure _
  | v :: vs =>
    L.bind (L.fieldParsers hr v.target v.fields) fun _ =>
      L.bind (planVariants vs) fun _ => L.pure _

omit hr in
theorem reportHidden (target : ClassRef) (shown hidden : List Variant) :
    P (reportHidden target shown hidden) := by
  unfold ShapeGrammar.reportHidden
  split
  · exact L.pure _
  · exact L.pure _
  · exact L.report fun g rs => rfl

theorem sumErrorKind (target : ClassRef) (variants : List Variant)
    (attempts : List (Attempt Parser)) : P (sumErrorKind r target variants attempts) := by
  unfold ShapeGrammar.sumErrorKind
  split
  · exact L.pure _
  · split
    · exact L.sequenceErrorKind hr _
    · exact L.read (fun g => L.fail trivial) fun g rs => rfl

theorem planSchema (schema : Schema) : P (planSchema r schema) := by
  cases schema with
  | product target fields =>
    exact L.bind (L.fieldParsers hr target fields) fun parsers =>
      L.bind (L.sequenceErrorKind hr parsers) fun kind =>
        L.read (fun g => L.pure _) fun g rs => rfl
  | sum target variants =>
    exact L.bind (L.reportHidden target _ _) fun _ =>
      L.bind (L.planVariants hr _) fun attempts =>
        L.bind (L.sumErrorKind hr target variants attempts) fun kind => L.pure _

omit hr in
theorem schemaFor (a : Shape) : P (schemaFor a) := by
  unfold ShapeGrammar.schemaFor
  split
  · refine L.read (fun g => L.lift (g.schemaOf_stopsAt _)) fun g rs => ?_
    rw [g.schemaOf_withReports rs]
  · exact L.fail trivial

theorem derivedPlan (a : Shape) : P (derivedPlan r a) := by
  refine L.bind (L.parserFor hr a) fun h => ?_
  split
  · exact hr.planOf _
  · exact L.failShowing _ trivial

omit hr in
theorem generatedParser (plan : Plan Parser) : P (generatedParser plan) :=
  L.read
    (fun _ => L.bind (L.lift (Code.ofText_stopsAt _ _)) fun code =>
      L.bind (L.lift (code.bind_stopsAt plan)) fun _ => L.pure _)
    fun _ _ => rfl

theorem loadFactories (file : String) (listed : List Listed) :
    ∀ as, P (loadFactories r file listed as)
  | [] => L.pure _
  | a :: as =>
    L.bind (L.derivedPlan hr a) fun _ =>
      L.read
        (fun g => L.bind (L.lift (g.boundFactory_stopsAt file listed _)) fun _ =>
          L.bind (loadFactories file listed as) fun _ => L.pure _)
        fun _ _ => rfl

/-! ## Written shapes and parsers -/

mutual

theorem evaluateShape (inField : Bool) : ∀ e : ShapeExpr, P (evaluateShape r inField e)
  | .character v => L.lift (characterClass_stopsAt v)
  | .ref path => by
    unfold ShapeGrammar.evaluateShape
    split
    · exact L.pure _
    · refine L.read (fun g => L.bind (L.lift (g.lookup_stopsAt path)) fun b => L.pure _)
        fun g rs => ?_
      rw [g.lookup_withReports rs path]
  | .nothing => L.pure _
  | .ellipsis => L.pure _
  | .builtin b => L.pure _
  | .list a => L.bind (evaluateShape inField a) fun a => L.pure _
  | .nonempty a => L.bind (evaluateShape inField a) fun a => L.pure _
  | .not a => L.bind (evaluateShape inField a) fun a => L.pure _
  | .box a => L.bind (evaluateShape inField a) fun a => L.pure _
  | .either a b =>
    L.bind (evaluateShape inField a) fun a =>
      L.bind (evaluateShape inField b) fun b => L.pure _
  | .tuple as => L.bind (evaluateShapes inField as) fun as => L.pure _
  | .union as => L.bind (evaluateShapes inField as) fun as => L.lift (Shape.unionOf_stopsAt _)
  | .mapping a b =>
    L.bind (evaluateShape inField a) fun a =>
      L.bind (evaluateShape inField b) fun b => L.pure _
  | .annotated a notes => by
    refine L.bind (evaluateShape inField a) fun a => L.bind (evaluateNotes notes) fun ns => ?_
    split
    · exact L.fail trivial
    · exact L.lift (Shape.annotatedOf_stopsAt _ _)
  | .parser p => L.bind (buildParser p) fun b => L.pure _

theorem evaluateShapes (inField : Bool) : ∀ es : List ShapeExpr, P (evaluateShapes r inField es)
  | [] => L.pure _
  | e :: es =>
    L.bind (evaluateShape inField e) fun _ =>
      L.bind (evaluateShapes inField es) fun _ => L.pure _

theorem evaluateNotes : ∀ ns : List NoteExpr, P (evaluateNotes r ns)
  | [] => L.pure _
  | .text _ :: ns => L.bind (evaluateNotes ns) fun _ => L.pure _
  | .parser p :: ns =>
    L.bind (buildParser p) fun _ => L.bind (evaluateNotes ns) fun _ => L.pure _

theorem buildParser : ∀ e : ParserExpr, P (buildParser r e)
  | .element v => L.made _
  | .any => L.made _
  | .satisfy test description => L.made _
  | .seq parts => L.bind (buildParsers parts) fun parts => L.made _
  | .opt body => L.bind (buildParser body) fun b => L.made _
  | .many checked body => L.bind (buildParser body) fun b => L.made _
  | .many1 checked body => L.bind (buildParser body) fun b => L.made _
  | .either left right =>
    L.bind (buildParser left) fun l => L.bind (buildParser right) fun b => L.made _
  | .choice first second => by
    refine L.bind (buildParser first) fun a => L.bind (buildParser second) fun b => ?_
    split
    · exact L.made _
    · exact L.lift (Binding.join_stopsAt _ _)
  | .not body => L.bind (buildParser body) fun b => L.made _
  | .box body => by
    refine L.bind (buildParser body) fun b => ?_
    split
    · exact L.bind (L.newBox _) fun b => L.made _
    · exact L.bind (L.newBox _) fun b => L.made _
  | .delayed body => L.bind (L.newBox _) fun b => L.made _
  | .map change body => by
    refine L.bind (buildParser body) fun b => ?_
    split
    · exact L.made _
    · exact L.fail trivial
  | .sum first second => by
    refine L.bind (buildParser first) fun a => L.bind (buildParser second) fun b => ?_
    split
    · exact L.made _
    · exact L.fail trivial
  | .name path => by
    refine L.read (fun g => L.lift (g.lookup_stopsAt path)) fun g rs => ?_
    rw [g.lookup_withReports rs path]
  | .shape a =>
    L.bind (evaluateShape false a) fun a => L.map _ (L.parserFor hr a)
  | .compiled a =>
    L.bind (evaluateShape false a) fun a =>
      L.bind (L.schemaFor a) fun schema =>
        L.bind (L.planSchema hr schema) fun plan => L.made _
  | .generated a =>
    L.bind (evaluateShape false a) fun a =>
      L.bind (L.derivedPlan hr a) fun plan =>
        L.bind (L.generatedParser plan) fun p => L.made _
  | .generatedSchema a =>
    L.bind (evaluateShape false a) fun a =>
      L.bind (L.schemaFor a) fun schema =>
        L.bind (L.planSchema hr schema) fun plan =>
          L.bind (L.generatedParser plan) fun p => L.made _
  | .loaded file a => by
    refine L.bind (evaluateShape false a) fun a =>
      L.read (fun g => L.bind (L.lift (g.factoriesOf_stopsAt file)) fun listed =>
        L.bind (L.loadFactories hr file listed [a]) fun loaded => ?_) fun g rs => rfl
    split
    · exact L.made _
    · exact L.fail trivial
  | .recorded name body => L.bind (buildParser body) fun b => L.made _
  | .misser accepted => L.made _
  | .unimplemented => L.made _

theorem buildParsers : ∀ es : List ParserExpr, P (buildParsers r es)
  | [] => L.pure _
  | e :: es =>
    L.bind (buildParser e) fun _ => L.bind (buildParsers es) fun _ => L.pure _

end

/-! ## The questions -/

theorem makePlan (c : ClassId) : P (makePlan r c) := by
  unfold ShapeGrammar.makePlan
  refine L.read (fun g => ?_) fun g rs => rfl
  split
  · exact L.fail trivial
  · refine L.bind (L.guarded _ (fun _ => trivial) ?_) fun plan =>
      L.bind (L.report fun g rs => rfl) fun _ => L.pure _
    refine L.read (fun g => L.bind (L.lift (g.schemaOf_stopsAt _)) fun schema =>
      L.planSchema hr schema) fun g rs => ?_
    rw [g.schemaOf_withReports rs]

/-- The value of an alias, before it is kept. -/
theorem aliasShape (a : AliasId) : P (get >>= fun g : Grammar =>
    ShapeGrammar.evaluateShape r false (g.aliasInfo a).expression) :=
  L.read (fun _ => L.evaluateShape hr false _) fun _ _ => rfl

omit hr in
theorem callFor (b : Binding) : P (callFor b) := by
  unfold ShapeGrammar.callFor
  split
  · exact L.read (fun g => L.bind (L.lift (g.construct_stopsAt _ _)) fun _ => L.pure _)
      fun g rs => rfl
  · exact L.fail trivial

theorem delayedBody : ∀ d, P (delayedBody r d)
  | .shape a => L.bind (L.parserFor hr a) fun h => L.pure _
  | .expression e => by
    refine L.bind (L.buildParser hr e) fun b => ?_
    split
    · exact L.fail trivial
    · exact L.pure _
  | .known p => L.pure p
  | .call target => L.callFor target

theorem resolveBox (b : BoxId) : P (resolveBox r b) := by
  unfold ShapeGrammar.resolveBox
  refine L.read (fun g => ?_) fun g rs => rfl
  split
  · exact L.fail trivial
  · exact L.delayedBody hr _

end StepLaw

/-- A law of single steps that the questions keep which resolution asks by itself. Delayed parsers
are opened under the mark of their error kind only. -/
structure QuestionLaw (P : {α : Type} → Resolution α → Prop) : Prop extends StepLaw P where
  plan {n : Nat} (c : ClassId) : (resolver n).Answers P → P (findPlan (resolver n) c)
  value (a : AliasId) {x : Resolution Shape} : P x → P (remember (.value a) x)
  handle (a : AliasId) {x : Resolution Handle} : P x → P (remember (.handle a) x)
  kind {n : Nat} (b : BoxId) : (resolver n).Answers P → P (findBoxErrorKind (resolver n) b)

/-- **The law holds of every answer that resolution asks for by itself.** -/
theorem QuestionLaw.answers {P : {α : Type} → Resolution α → Prop} (L : QuestionLaw P) :
    ∀ n, (resolver n).Answers P
  | 0 => ⟨fun _ => L.stop trivial, fun _ _ => L.stop trivial, fun _ => L.stop trivial⟩
  | n + 1 => by
    have ih := L.answers n
    refine ⟨fun c => L.plan c ih, fun expanding a => ?_, fun b => L.kind b ih⟩
    exact L.handle a (L.resolveAlias ih.aliasParser expanding (L.value a (L.aliasShape ih a)))

namespace ResolutionLaw

variable {P : {α : Type} → Resolution α → Prop} (L : ResolutionLaw P) {r : Resolver}
include L

section Questions

variable (hr : r.Answers P)
include hr

theorem findPlan (c : ClassId) : P (findPlan r c) :=
  L.remember (.plan c) (L.makePlan hr c) makePlan_ordered

theorem aliasValue (a : AliasId) : P (aliasValue r a) :=
  L.remember (.value a) (L.aliasShape hr a) fun _ => trivial

theorem expandAlias (expanding : List AliasId) (a : AliasId) : P (expandAlias r expanding a) :=
  L.remember (.handle a) (L.resolveAlias hr.aliasParser expanding (L.aliasValue hr a))
    fun _ => trivial

theorem openBox (b : BoxId) : P (openBox r b) :=
  L.remember (.box b) (L.resolveBox hr b) fun _ => trivial

theorem findBoxErrorKind (b : BoxId) : P (findBoxErrorKind r b) :=
  L.remember (.kind b)
    (L.guarded _ (fun _ => trivial) (L.bind (L.openBox hr b) fun p => L.errorKindOf hr p))
    fun _ => trivial

end Questions

/-- **The law holds of every answer.** -/
theorem resolver : ∀ n, (resolver n).Obeys P
  | 0 => ⟨⟨fun _ => L.stop trivial, fun _ _ => L.stop trivial, fun _ => L.stop trivial⟩,
      fun _ => L.stop trivial⟩
  | n + 1 => by
    have ih := (resolver n).toAnswers
    exact ⟨⟨L.findPlan ih, L.expandAlias ih, L.findBoxErrorKind ih⟩, L.openBox ih⟩

end ResolutionLaw

end ShapeGrammar
