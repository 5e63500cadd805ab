import ShapeGrammar.Proofs.Machine.Invariant
import ShapeGrammar.Proofs.Resolution.Declared
import ShapeGrammar.Session.Execute

/-!
# What sessions keep

A step of a session declares something, finds something out, runs parsers, or writes a file; between
two steps, what was noticed is forgotten. So an invariant of the grammar that declarations and
answers keep, every session keeps, whether its steps answer or stop. Of an invariant that answers
keep and declarations may break, the same is true where nothing is declared.

Headlines: `UsageLaw`, `UsageLaw.writeFactories`, `UsageLaw.session`, `DeclarationLaw.session`.
-/

namespace ShapeGrammar

open Resolution

variable {Inv : Grammar → Prop}

theorem Act.keeps_mapM {α β : Type} {f : α → Act β} (hf : ∀ a, (f a).Keeps Inv) :
    ∀ as : List α, (as.mapM f).Keeps Inv
  | [] => keeps_pure _
  | a :: as => by
    rw [List.mapM_cons]
    exact (hf a).bind fun _ => (keeps_mapM hf as).bind fun _ => keeps_pure _

theorem Act.keeps_liftStop {α : Type} (x : Except Stop α) : (Act.liftStop x).Keeps Inv := by
  cases x with
  | ok a => exact keeps_pure a
  | error e => exact keeps_throw e

theorem Act.keeps_map {α β : Type} {x : Act α} (hx : x.Keeps Inv) (f : α → β) :
    (f <$> x).Keeps Inv := by
  rw [← bind_pure_comp]
  exact hx.bind fun _ => keeps_pure _

theorem Act.keeps_ite {α : Type} {p : Prop} [Decidable p] {x y : Act α} (hx : x.Keeps Inv)
    (hy : y.Keeps Inv) : (if p then x else y).Keeps Inv := by
  split
  · exact hx
  · exact hy

namespace Session

theorem keeps_addCursor (c : Cursor) : (addCursor c).Keeps Inv :=
  fun _ hm => hm

theorem keeps_freshCursor (offer : Offer) (position : Int) :
    (freshCursor offer position).Keeps Inv :=
  (Act.keeps_lift _).bind fun _ => (Act.keeps_lift _).bind fun _ => keeps_addCursor _

theorem keeps_namedCursor (cursors : Table CursorId) (name : String) :
    (namedCursor cursors name).Keeps Inv := by
  unfold namedCursor
  split
  · exact Act.keeps_pure _
  · exact Act.keeps_throw _

theorem keeps_classAt (path : Path) : (classAt path).Keeps Inv := by
  refine Act.keeps_get fun m => (Act.keeps_lift _).bind fun b => ?_
  split
  · exact Act.keeps_pure _
  · exact Act.keeps_throw _

theorem keeps_classesAt (path : Path) : (classesAt path).Keeps Inv := by
  refine Act.keeps_get fun m => (Act.keeps_lift _).bind fun b => ?_
  split
  · exact Act.keeps_pure _
  · exact Act.keeps_pure _
  · exact Act.keeps_throw _

theorem keeps_subclassesAt (path : Path) (others : List Path) :
    (subclassesAt path others).Keeps Inv := by
  refine Act.keeps_get fun m => (Act.keeps_lift _).bind fun b =>
    Act.keeps_mapM (fun other => (keeps_classesAt other).bind fun ds => ?_) others
  split
  · exact Act.keeps_get fun _ => Act.keeps_pure _
  · exact Act.keeps_throw _

theorem keeps_viewLoaded (loaded : List (Plan Parser × Parser)) :
    (viewLoaded loaded).Keeps Inv :=
  Act.keeps_mapM (fun _ => (Act.keeps_describe _).bind fun _ =>
    Act.keeps_get fun _ => Act.keeps_pure _) _

/-- What a step did stays done when it stops. -/
theorem machine_step (k : Limits) (s : Session) (x : Step) :
    (s.step k x).2.machine = stateAfter (perform k s.cursors
      (if x.isDeclaration then s.declarations + 1 else s.declarations) x)
        (refreshed s.machine) := by
  unfold step stateAfter
  dsimp only
  cases perform k s.cursors (if x.isDeclaration then s.declarations + 1 else s.declarations) x
    (refreshed s.machine) <;> rfl

end Session

/-- An invariant that single steps keep, and that neither what was noticed nor a file breaks. -/
structure UsageLaw (Inv : Grammar → Prop) : Prop where
  steps : StepLaw (Keeps Inv)
  noticed {g : Grammar} (rs : Array Report) : Inv g → Inv (g.withReports rs)
  files {g : Grammar} (files : Table String) : Inv g → Inv { g with files := files }

namespace UsageLaw

variable (L : UsageLaw Inv)
include L

/-! ## Files -/

section Files

variable {r : Resolver} (hr : r.Answers (Keeps Inv))

theorem putFile (file text : String) : Keeps Inv (putFile file text) := by
  have hput : Keeps Inv (modify fun g => { g with files := Table.put g.files file text } :
      Resolution Unit) :=
    fun _ hg => L.files _ hg
  unfold ShapeGrammar.putFile
  split
  · exact keeps_bind (keeps_fail _) fun _ => hput
  · exact hput

theorem getFile (file : String) : Keeps Inv (getFile file) := by
  refine keeps_get fun g => ?_
  split
  · exact L.steps.pure _
  · exact keeps_fail _

include hr

theorem planHeld (p : Parser) : Keeps Inv (planHeld r p) := by
  cases p
  case derived c => exact hr.planOf c
  case planned plan => exact L.steps.pure plan
  case generated plan code => exact L.steps.pure plan
  all_goals exact keeps_fail _

theorem planFrom (a : Shape) (source : PlanSource) : Keeps Inv (planFrom r a source) := by
  cases source with
  | shape => exact L.steps.derivedPlan hr a
  | schema => exact keeps_bind (L.steps.schemaFor a) fun _ => L.steps.planSchema hr _
  | parser => exact keeps_bind (L.steps.parserFor hr a) fun _ => L.planHeld hr _

theorem derivedPlans (as : List Shape) : Keeps Inv (derivedPlans r as) := by
  induction as with
  | nil => exact L.steps.pure _
  | cons a as ih =>
    exact keeps_bind (L.steps.derivedPlan hr a) fun _ => keeps_bind ih fun _ => L.steps.pure _

theorem renderFactories (as : List Shape) : Keeps Inv (renderFactories r as) :=
  keeps_bind (L.derivedPlans hr as) fun _ => keeps_get fun _ => L.steps.pure _

theorem writeFactories (file : String) (as : List Shape) :
    Keeps Inv (writeFactories r file as) := by
  have hwrite : Keeps Inv (do
      let rendered ← ShapeGrammar.renderFactories r as
      ShapeGrammar.putFile file rendered.text
      pure rendered : Resolution FactoryFile) :=
    keeps_bind (L.renderFactories hr as) fun _ =>
      keeps_bind (L.putFile file _) fun _ => L.steps.pure _
  refine keeps_get fun g => ?_
  split
  · exact keeps_ite (keeps_bind (keeps_fail _) fun _ => hwrite) hwrite
  · exact hwrite

end Files

/-! ## Steps -/

section Steps

variable {k : Limits} (hk : k.answers.Obeys (Keeps Inv))

/-- What was noticed can be forgotten. -/
theorem refreshed {m : Machine} (hm : Inv m.grammar) : Inv (Session.refreshed m).grammar :=
  L.noticed #[] hm

include hk

theorem call (entry : Entry) (p : Parser) (c : CursorId) : (k.call entry p c).Keeps Inv := by
  refine Act.keeps_get fun m => run_keeps (fun {g} r hg => ?_) hk _ entry p c
  unfold Grammar.report
  split
  · exact L.noticed _ hg
  · exact hg

theorem shapeParser (shape : ShapeExpr) : (Session.shapeParser k shape).Keeps Inv :=
  Act.keeps_resolve (keeps_bind (L.steps.evaluateShape hk.toAnswers false shape) fun a =>
    L.steps.parserFor hk.toAnswers a)

theorem shapes (es : List ShapeExpr) : (Session.shapes k es).Keeps Inv :=
  Act.keeps_resolve (L.steps.evaluateShapes hk.toAnswers false es)

theorem parseOffer (shape : ShapeExpr) (offer : Offer) :
    (Session.parseOffer k shape offer).Keeps Inv :=
  (L.shapeParser hk shape).bind fun h => (Session.keeps_freshCursor offer 0).bind fun c =>
    L.call hk .total h.body c

theorem viewAttempt (a : Attempt Parser) : (Session.viewAttempt k a).Keeps Inv :=
  (Act.keeps_mapM Act.keeps_describe _).bind fun _ =>
    (Act.keeps_mapM (fun _ => Act.keeps_get fun _ => Act.keeps_liftStop _) _).bind fun _ =>
      (Act.keeps_resolve (L.steps.sequenceErrorKind hk.toAnswers _)).bind fun _ =>
        Act.keeps_get fun _ => Act.keeps_pure _

theorem viewPlan (plan : Plan Parser) : (Session.viewPlan k plan).Keeps Inv :=
  (Act.keeps_mapM (L.viewAttempt hk) _).bind fun _ => Act.keeps_get fun _ => Act.keeps_pure _

theorem viewAspect (p : Parser) : ∀ aspect, (Session.viewAspect k p aspect).Keeps Inv
  | .description => Act.keeps_map (Act.keeps_describe p) _
  | .literal => (Act.keeps_describe p).bind fun _ => Act.keeps_pure _
  | .errorKind => Act.keeps_map (Act.keeps_resolve (L.steps.errorKindOf hk.toAnswers p)) _
  | .infallible =>
    (Act.keeps_resolve (L.steps.errorKindOf hk.toAnswers p)).bind fun _ => Act.keeps_pure _
  | .plan => (Act.keeps_resolve (L.planHeld hk.toAnswers p)).bind fun _ =>
      Act.keeps_map (L.viewPlan hk _) _
  | .tree => Act.keeps_map (Act.keeps_get fun _ => Act.keeps_liftStop _) _

/-- **A step that declares nothing keeps what answers keep.** -/
theorem perform (cursors : Table CursorId) (declarations : Nat) :
    ∀ x : Session.Step, x.isDeclaration = false →
      (Session.perform k cursors declarations x).Keeps Inv
  | .openCursor name offer position positioned, _ => by
    refine (Act.keeps_lift _).bind fun source => ?_
    cases positioned with
    | true =>
      exact (Act.keeps_lift _).bind fun _ =>
        (Session.keeps_addCursor _).bind fun _ => Act.keeps_pure _
    | false =>
      exact (Act.keeps_pure _).bind fun _ =>
        (Session.keeps_addCursor _).bind fun _ => Act.keeps_pure _
  | .next name, _ => by
    refine (Session.keeps_namedCursor cursors name).bind fun c =>
      (Act.keeps_next c).bind fun v => ?_
    cases v <;> exact Act.keeps_pure _
  | .peek name, _ => by
    refine (Session.keeps_namedCursor cursors name).bind fun c =>
      (Act.keeps_position c).bind fun _ => Act.keeps_get fun m => ?_
    split <;> exact Act.keeps_pure _
  | .state name, _ =>
    (Session.keeps_namedCursor cursors name).bind fun c => (Act.keeps_position c).bind fun _ =>
      Act.keeps_get fun _ => Act.keeps_pure _
  | .showCursor name, _ =>
    (Session.keeps_namedCursor cursors name).bind fun _ => Act.keeps_get fun _ => Act.keeps_pure _
  | .snapshot name copy, _ =>
    (Session.keeps_namedCursor cursors name).bind fun _ =>
      Act.Keeps.bind (fun _ hm => hm) fun _ => Act.keeps_pure _
  | .sameCursor a b, _ =>
    (Session.keeps_namedCursor cursors a).bind fun _ =>
      (Session.keeps_namedCursor cursors b).bind fun _ => Act.keeps_get fun _ => Act.keeps_pure _
  | .coerce offer, _ => (Act.keeps_lift _).bind fun _ => Act.keeps_pure _
  | .parse entry valueOnly shape origin save, _ => by
    refine (L.shapeParser hk shape).bind fun h => ?_
    cases origin with
    | fresh offer position =>
      exact (Session.keeps_freshCursor offer position).bind fun c =>
        (L.call hk entry h.body c).bind fun o => Act.keeps_get fun m => Act.keeps_pure _
    | stored name =>
      exact (Session.keeps_namedCursor cursors name).bind fun c =>
        (L.call hk entry h.body c).bind fun o => Act.keeps_get fun m => Act.keeps_pure _
  | .equal shapeA offerA shapeB offerB, _ =>
    (L.parseOffer hk shapeA offerA).bind fun _ => (L.parseOffer hk shapeB offerB).bind fun _ =>
      (Act.keeps_lift _).bind fun _ => Act.keeps_pure _
  | .instances shape offer classes, _ =>
    (L.parseOffer hk shape offer).bind fun _ =>
      (Act.keeps_mapM Session.keeps_classesAt classes).bind fun _ =>
        Act.keeps_get fun _ => Act.keeps_pure _
  | .subclasses path classes, _ =>
    (Session.keeps_subclassesAt path classes).bind fun _ => Act.keeps_pure _
  | .inspect shape aspects, _ =>
    (L.shapeParser hk shape).bind fun h =>
      (Act.keeps_mapM (L.viewAspect hk h.body) aspects).bind fun _ => Act.keeps_pure _
  | .schema path, _ =>
    (Session.keeps_classAt path).bind fun _ => Act.keeps_get fun _ =>
      (Act.keeps_lift _).bind fun _ => Act.keeps_pure _
  | .planSchema path, _ =>
    (Session.keeps_classAt path).bind fun _ => Act.keeps_get fun _ =>
      (Act.keeps_lift _).bind fun s =>
        (Act.keeps_resolve (L.steps.planSchema hk.toAnswers s)).bind fun plan =>
          (L.viewPlan hk plan).bind fun _ => Act.keeps_pure _
  | .sameParser a b, _ =>
    (L.shapeParser hk a).bind fun _ => (L.shapeParser hk b).bind fun _ => Act.keeps_pure _
  | .character char other, _ => (Act.keeps_lift _).bind fun _ => Act.keeps_pure _
  | .nonempty offer, _ => (Act.keeps_lift _).bind fun _ => Act.keeps_pure _
  | .generate shape source name, _ =>
    (Act.keeps_resolve (L.steps.evaluateShape hk.toAnswers false shape)).bind fun a =>
      (Act.keeps_resolve (L.planFrom hk.toAnswers a source)).bind fun _ =>
        Act.keeps_get fun _ => Act.keeps_pure _
  | .fingerprint shape, _ =>
    (Act.keeps_resolve (L.steps.evaluateShape hk.toAnswers false shape)).bind fun a =>
      (Act.keeps_resolve (L.steps.derivedPlan hk.toAnswers a)).bind fun _ =>
        Act.keeps_get fun _ => Act.keeps_pure _
  | .fullName path, _ => by
    refine Act.keeps_get fun m => (Act.keeps_lift _).bind fun b => ?_
    split
    · exact Act.keeps_get fun _ => Act.keeps_pure _
    · exact Act.keeps_throw _
  | .renderFactories es, _ =>
    (L.shapes hk es).bind fun as =>
      (Act.keeps_resolve (L.renderFactories hk.toAnswers as)).bind fun _ => Act.keeps_pure _
  | .writeFactories file es, _ =>
    (L.shapes hk es).bind fun as =>
      (Act.keeps_resolve (L.writeFactories hk.toAnswers file as)).bind fun _ => Act.keeps_pure _
  | .loadFactories file es, _ =>
    (L.shapes hk es).bind fun as => Act.keeps_get fun _ => (Act.keeps_lift _).bind fun listed =>
      (Act.keeps_resolve (L.steps.loadFactories hk.toAnswers file listed as)).bind fun loaded =>
        (Session.keeps_viewLoaded loaded).bind fun _ => Act.keeps_pure _
  | .putFile file text, _ =>
    (Act.keeps_resolve (L.putFile file text)).bind fun _ => Act.keeps_pure _
  | .getFile file, _ => (Act.keeps_resolve (L.getFile file)).bind fun _ => Act.keeps_pure _

theorem step {s : Session} (hs : Inv s.machine.grammar) {x : Session.Step}
    (hx : x.isDeclaration = false) : Inv (s.step k x).2.machine.grammar := by
  rw [Session.machine_step]
  exact L.perform hk s.cursors _ x hx _ (L.refreshed hs)

/-- **Where nothing is declared, a session keeps what answers keep.** -/
theorem session : ∀ {s : Session} (xs : List Session.Step), (∀ x ∈ xs, x.isDeclaration = false) →
    Inv s.machine.grammar → Inv (s.run k xs).2.machine.grammar
  | _, [], _, hs => hs
  | _, x :: xs, hxs, hs =>
    session xs (fun y hy => hxs y (List.mem_cons_of_mem x hy))
      (L.step hk hs (hxs x List.mem_cons_self))

end Steps

end UsageLaw

namespace DeclarationLaw

variable (L : DeclarationLaw Inv)
include L

theorem usage : UsageLaw Inv where
  steps := L.steps
  noticed _ hg := L.frame hg (.of_eq rfl rfl rfl rfl)
  files _ hg := L.frame hg (.of_eq rfl rfl rfl rfl)

variable {k : Limits} (hk : k.answers.Obeys (Keeps Inv))
include hk

/-- **A step keeps what declarations and answers keep.** -/
theorem perform (cursors : Table CursorId) (declarations : Nat) (x : Session.Step) :
    (Session.perform k cursors declarations x).Keeps Inv := by
  cases hx : x.isDeclaration with
  | false => exact L.usage.perform hk cursors declarations x hx
  | true =>
    cases x with
    | declare d =>
      exact (Act.keeps_resolve (L.declare hk.toAnswers declarations d)).bind fun _ =>
        Act.keeps_pure _
    | _ => cases hx

theorem step {s : Session} (hs : Inv s.machine.grammar) (x : Session.Step) :
    Inv (s.step k x).2.machine.grammar := by
  rw [Session.machine_step]
  exact L.perform hk s.cursors _ x _ (L.usage.refreshed hs)

/-- **A session keeps what declarations and answers keep.** -/
theorem session : ∀ {s : Session} (xs : List Session.Step), Inv s.machine.grammar →
    Inv (s.run k xs).2.machine.grammar
  | _, [], hs => hs
  | _, x :: xs, hs => session xs (L.step hk hs x)

end DeclarationLaw

end ShapeGrammar
