import ShapeGrammar.Proofs.Grammar.Reports
import ShapeGrammar.Proofs.Resolution.Marks
import ShapeGrammar.Proofs.Walk.Resolved

/-!
# Every question is answered

A question is answered in a frame of its own: a class or a delayed parser counts as being found out,
the value of one more alias is evaluated, one more alias is expanded. Each of these leaves less that
can be nested inside it, so that all questions end that a walk keeps clear of; this is by induction
on how many may be followed one inside the other.

Headlines: `findPlan_ends`, `findBoxErrorKind_ends`, `expandAlias_ends`, `Frame.answered`.
-/

namespace ShapeGrammar

open Resolution Inquiry

theorem Finding.sameDeclarations_keep {α : Type} (f : Finding α) (g : Grammar) (a : α) :
    g.SameDeclarations (f.keep g a) where
  classes := (f.keep_frame g a).1
  classCount := (f.keep_frame g a).2.1
  fields := by cases f <;> rfl
  names := by cases f <;> rfl

namespace Frame

variable {F : Frame} {g g' : Grammar} {xs : List Inquiry} {k m : Nat} {α : Type}

/-! ## What is kept -/

theorem Sound.keep (hg : F.Sound g) (f : Finding α) (a : α)
    (hvalue : F.watch.charged → ∀ {b v}, ((f.keep g a).aliasInfo b).value = some v →
      v.cost ≤ F.aliasPrice) : F.Sound (f.keep g a) where
  priced := hg.priced.mono (f.sameDeclarations_keep g a)
  expression b := by
    have hsame : ((f.keep g a).aliasInfo b).expression = (g.aliasInfo b).expression := by
      cases f with
      | value _ | handle _ =>
        simp only [Finding.keep, Grammar.aliasInfo_updateAlias]
        split <;> rfl
      | _ => rfl
    rw [hsame]
    exact hg.expression b
  value := hvalue
  classCount := (f.sameDeclarations_keep g a).classCount.trans hg.classCount
  aliasCount := by
    cases f with
    | value _ | handle _ => exact Array.size_modify.trans hg.aliasCount
    | _ => exact hg.aliasCount
  pending := by cases f <;> exact hg.pending

/-- A question is answered if what answers it ends, and what is kept was paid for. -/
theorem Sound.remember {rest : α → Nat} (hg : F.Sound g) {f : Finding α} {x : Resolution α}
    (hknown : F.watch.charged → ∀ {a}, f.known? g = some a → rest a ≤ k)
    (hanswer : ∀ {a g'}, f.known? g = none → x g = .ok a g' → g.Precedes (f.keep g' a) ∧
      F.Sound (f.keep g' a) ∧
        (F.watch.charged → F.owed (f.keep g' a) + rest a ≤ F.owed g + k ∧ rest a ≤ k))
    (hsafe : f.known? g = none → F.watch.Safe x g) :
    F.Ends k rest (Resolution.remember f x) g where
  answer {a g'} h := by
    cases hf : f.known? g with
    | some b =>
      rw [remember_of_known hf] at h
      cases h
      exact ⟨.refl g, hg, fun hcharged =>
        ⟨Nat.add_le_add_left (hknown hcharged hf) _, hknown hcharged hf⟩⟩
    | none =>
      rw [remember_of_unknown hf] at h
      obtain ⟨b, g1, hx, h⟩ := bind_eq_ok_iff.mp h
      cases h
      exact hanswer hf hx
  safe := .remember hsafe

/-- So is a question that is known to have an answer, or to stop at nothing bad. -/
theorem Sound.remember_of_raises (hg : F.Sound g) {f : Finding α} {x : Resolution α}
    (h : f.known? g = none → Raises (fun e g => ¬ F.watch.bad e g) x g) :
    F.Ends 0 (fun _ => 0) (Resolution.remember f x) g := by
  refine hg.remember (fun _ _ _ => Nat.le_refl 0) (fun hunknown hx => ?_) fun hunknown e g' hx => ?_
  · obtain ⟨e, g2, hstop, -⟩ := h hunknown
    rw [hstop] at hx
    cases hx
  · obtain ⟨e', g2, hstop, hgood⟩ := h hunknown
    rw [hstop] at hx
    cases hx
    exact hgood

/-! ## Frames within frames -/

/-- The frame of what is found out under a mark. -/
def marking (F : Frame) (m : Nat) (key : Pending) : Frame :=
  { F with fuel := m, pending := key :: F.pending }

/-- The frame in which the value of an alias is evaluated. -/
def evaluate (F : Frame) (a : AliasId) : Frame :=
  { F with evaluating := a :: F.evaluating, expanding := [] }

/-- The frame in which an alias is expanded. -/
def expand (F : Frame) (m : Nat) (a : AliasId) : Frame :=
  { F with fuel := m, expanding := F.expanding ++ [a] }

theorem Sound.marking (hg : F.Sound g) (m : Nat) (key : Pending) :
    (F.marking m key).Sound { g with pending := key :: g.pending } where
  priced := hg.priced.mono (g.sameDeclarations_marked _)
  expression := hg.expression
  value := hg.value
  classCount := hg.classCount
  aliasCount := hg.aliasCount
  pending := congrArg (key :: ·) hg.pending

theorem Sound.unmarked {key : Pending} (hg : (F.marking m key).Sound g) :
    F.Sound { g with pending := g.pending.tail } where
  priced := hg.priced.mono (g.sameDeclarations_marked _)
  expression := hg.expression
  value := hg.value
  classCount := hg.classCount
  aliasCount := hg.aliasCount
  pending := congrArg List.tail hg.pending

/-- Which aliases are evaluated or expanded does not matter to what is said of a grammar. -/
theorem Sound.reframe {F' : Frame} (hg : F.Sound g) (hcharged : F'.watch.charged → F.watch.charged)
    (hprice : F'.price = F.price) (haliasPrice : F'.aliasPrice = F.aliasPrice)
    (hclasses : F'.classCount = F.classCount) (haliases : F'.aliasCount = F.aliasCount)
    (hpending : F'.pending = F.pending) : F'.Sound g where
  priced := hprice ▸ hg.priced
  expression a := by
    rw [hprice, haliasPrice]
    exact hg.expression a
  value h := by
    rw [haliasPrice]
    exact hg.value (hcharged h)
  classCount := hg.classCount.trans hclasses.symm
  aliasCount := hg.aliasCount.trans haliases.symm
  pending := hg.pending.trans hpending.symm

theorem Calm.down {x : Inquiry} {ys : List Inquiry} (h : F.Calm (x :: xs) g)
    (hfuel : F.fuel = m + 1) (hx : x.Leads (m + 1) g m ys g') :
    ¬ ComesUpon (F.watch.goal F.evaluating) m ys g' :=
  fun hc => h (.into (hfuel ▸ hx) hc)

/-! ### Depth -/

theorem mem_markedClasses {c : ClassId} {marks : List Pending} :
    c ∈ markedClasses marks ↔ .cls c ∈ marks := by
  unfold markedClasses
  rw [List.mem_filterMap]
  constructor
  · rintro ⟨key, hmem, hkey⟩
    cases key with
    | cls d =>
      cases hkey
      exact hmem
    | box b => cases hkey
  · exact fun h => ⟨.cls c, h, rfl⟩

theorem mem_markedBoxes {b : BoxId} {marks : List Pending} :
    b ∈ markedBoxes marks ↔ .box b ∈ marks := by
  unfold markedBoxes
  rw [List.mem_filterMap]
  constructor
  · rintro ⟨key, hmem, hkey⟩
    cases key with
    | box d =>
      cases hkey
      exact hmem
    | cls c => cases hkey
  · exact fun h => ⟨.box b, h, rfl⟩

/-- To nest one more of them leaves room for all aliases to be expanded. -/
theorem Deep.nested {F' : Frame} (h : F.Deep) (hcharged : F'.watch.charged → F.watch.charged)
    (haliases : F'.aliasCount = F.aliasCount) (hroom : F'.watch.charged → F'.room + 1 = F.room)
    (hfuel : F.fuel ≤ F'.fuel + 1) : F'.Deep := by
  intro hc
  have hdepth := h (hcharged hc)
  have hless := remaining_le F'.aliasCount F'.expanding
  unfold depth at hdepth ⊢
  rw [← hroom hc, Nat.add_mul, Nat.one_mul] at hdepth
  rw [haliases] at hless ⊢
  omega

theorem Deep.marking_cls {c : ClassId} (h : F.Deep) (hfuel : F.fuel = m + 1)
    (hc : c < F.classCount) (hfree : .cls c ∉ F.pending) : (F.marking m (.cls c)).Deep := by
  refine h.nested id rfl (fun _ => ?_) (Nat.le_of_eq hfuel)
  have hless : remaining F.classCount (markedClasses (.cls c :: F.pending)) + 1 =
      remaining F.classCount (markedClasses F.pending) :=
    remaining_add_one hc (fun hmem => hfree (mem_markedClasses.mp hmem)) fun _ => List.mem_cons
  have hboxes : markedBoxes (.cls c :: F.pending) = markedBoxes F.pending := rfl
  simp only [room, marking, hboxes]
  omega

theorem Deep.marking_box {b : BoxId} (h : F.Deep) (hfuel : F.fuel = m + 1)
    (hb : F.watch.charged → b < F.limit) (hfree : .box b ∉ F.pending) :
    (F.marking m (.box b)).Deep := by
  refine h.nested id rfl (fun hcharged => ?_) (Nat.le_of_eq hfuel)
  have hless : remaining F.limit (markedBoxes (.box b :: F.pending)) + 1 =
      remaining F.limit (markedBoxes F.pending) :=
    remaining_add_one (hb hcharged) (fun hmem => hfree (mem_markedBoxes.mp hmem))
      fun _ => List.mem_cons
  have hclasses : markedClasses (.box b :: F.pending) = markedClasses F.pending := rfl
  simp only [room, marking, hclasses]
  omega

theorem Deep.evaluate {a : AliasId} (h : F.Deep) (ha : a < F.aliasCount)
    (hnew : F.watch.charged → a ∉ F.evaluating) : (F.evaluate a).Deep := by
  refine h.nested id rfl (fun hcharged => ?_) (Nat.le_add_right _ _)
  have hless : remaining F.aliasCount (a :: F.evaluating) + 1 =
      remaining F.aliasCount F.evaluating :=
    remaining_add_one ha (hnew hcharged) fun _ => List.mem_cons
  simp only [room, Frame.evaluate]
  omega

theorem Deep.expand {a : AliasId} (h : F.Deep) (hfuel : F.fuel = m + 1) (ha : a < F.aliasCount)
    (hnew : a ∉ F.expanding) : (F.expand m a).Deep := by
  intro hcharged
  have hdepth := h hcharged
  have hless : remaining F.aliasCount (F.expanding ++ [a]) + 1 =
      remaining F.aliasCount F.expanding :=
    remaining_add_one ha hnew fun d => by simp [or_comm]
  unfold depth room at hdepth ⊢
  simp only [Frame.expand]
  omega

/-! ## Plans -/

/-- The marked class has a plan, or stops at nothing bad. -/
theorem schema_safe {c : ClassId} (hr : F.Answering) (hg : F.Sound g)
    (hcalm : ∀ {s}, g.schemaOf (.declared c) = .ok s → F.Calm [.schema s] g)
    (hafford : F.Affords g F.price) :
    F.watch.Safe (do
      let schema ← lift ((← get).schemaOf (.declared c))
      planSchema (resolver F.fuel) schema) g := by
  refine Watch.safe_get ((Watch.safe_lift (g.schemaOf_stopsAt _)).bind fun {s g1} hs => ?_)
  cases hschema : g.schemaOf (.declared c) with
  | error f =>
    rw [hschema] at hs
    cases hs
  | ok s' =>
    rw [hschema] at hs
    cases hs
    exact (planSchema_ends hr s hg (hcalm hschema) (hafford.mono (hg.priced.schemas hschema))).safe

theorem findPlan_ends {c : ClassId} (hfuel : F.fuel = m + 1)
    (hinner : c < F.classCount → .cls c ∉ F.pending → (F.marking m (.cls c)).Answering)
    (hg : F.Sound g) (hcalm : F.Calm (.plan c :: xs) g) (hafford : F.Affords g 0) :
    F.Ends 0 (fun _ => 0) (findPlan (resolver m) c) g := by
  -- what is not owed any longer while the class is being planned pays for its schema
  have hmarked : c < g.classes.size → .cls c ∉ g.pending → (g.classInfo c).plan = none →
      (F.marking m (.cls c)).owed { g with pending := .cls c :: g.pending } + F.price =
        F.owed g := fun hc hfree hunknown => Grammar.owed_mark_cls hc hunknown hfree
  have haffords : c < g.classes.size → .cls c ∉ g.pending → (g.classInfo c).plan = none →
      (F.marking m (.cls c)).Affords { g with pending := .cls c :: g.pending } F.price :=
    fun hc hfree hunknown hcharged =>
      Nat.le_trans (Nat.le_of_eq (hmarked hc hfree hunknown)) (hafford hcharged)
  have hanswers : c < g.classes.size → .cls c ∉ g.pending →
      (F.marking m (.cls c)).Answering := fun hc hfree =>
    hinner (hg.classCount ▸ hc) (hg.pending ▸ hfree)
  have hschemas {s : Schema}
      (hs : ({ g with pending := .cls c :: g.pending } : Grammar).schemaOf (.declared c) = .ok s) :
      g.schemaOf (.declared c) = .ok s := by
    rwa [(g.sameDeclarations_marked _).schemaOf_eq] at hs
  refine hg.remember (fun _ _ _ => Nat.le_refl 0) (fun {plan g'} hunknown h => ?_)
    fun hunknown => ?_
  · have hlater := (ok_precedes (grows_law.makePlan (resolver_grows m).toAnswers c) h).keep
      (f := .plan c) hunknown (makePlan_ordered h)
    have hfree : .cls c ∉ g.pending := fun hmem => makePlan_of_mem hmem h
    obtain ⟨hc, schema, g1, report, hschema, hplan, rfl⟩ := makePlan_eq_ok h
    have hcheap := hg.priced.schemas (hschemas hschema)
    have hends := planSchema_ends (hanswers hc hfree) schema (hg.marking m (.cls c))
      (hcalm.down hfuel (.cls hunknown hc hfree (hschemas hschema)))
      ((haffords hc hfree hunknown).mono hcheap)
    obtain ⟨-, hg1, hspent⟩ := hends.answer hplan
    obtain ⟨reports, hreports⟩ :=
      ({ g1 with pending := g1.pending.tail } : Grammar).report_eq_withReports report
    have hsound : F.Sound ((Finding.plan c).keep { g1 with pending := g1.pending.tail } plan) :=
      hg1.unmarked.keep (.plan c) plan hg1.unmarked.value
    rw [hreports] at hlater ⊢
    refine ⟨hlater, ?_, fun hcharged => ⟨?_, Nat.le_refl 0⟩⟩
    · exact hsound.later (.withReports _ reports) rfl
    · have hkept : F.owed ((Finding.plan c).keep { g1 with pending := g1.pending.tail } plan) ≤
          (F.marking m (.cls c)).owed g1 :=
        Grammar.owed_keep_plan_le (by rw [hg1.classCount]; exact hg.classCount ▸ hc)
          (by rw [hg1.pending]; rfl)
      have := hspent hcharged
      have := hmarked hc hfree hunknown
      show F.owed ((Finding.plan c).keep { g1 with pending := g1.pending.tail } plan) ≤ _
      omega
  · refine Watch.safe_get ?_
    split
    · exact Watch.safe_fail trivial
    · rename_i hsize
      have hc := Nat.lt_of_not_le hsize
      refine Watch.Safe.bind ?_ fun _ => Watch.safe_modify.bind fun _ => Watch.safe_pure
      by_cases hmem : .cls c ∈ g.pending
      · intro e g' h hbad
        rw [guarded_of_mem hmem] at h
        cases h
        refine hcalm (.here (F.watch.marked ?_ hbad))
        rw [hfuel]
        exact ⟨hunknown, hc, hmem⟩
      · exact .guarded hmem (schema_safe (hanswers hc hmem) (hg.marking m (.cls c))
          (fun hs => hcalm.down hfuel (.cls hunknown hc hmem (hschemas hs)))
          (haffords hc hmem hunknown))

/-! ## Delayed parsers -/

theorem callFor_ends (hg : F.Sound g) (b : Binding) : F.Ends k (fun _ => 0) (callFor b) g := by
  cases b with
  | cls c =>
    have hmade : F.Ends k (fun _ => 0) (lift (g.construct c [])) g :=
      hg.lift (g.construct_stopsAt c []) fun _ => Nat.zero_le _
    exact ends_get (hmade.finish fun _ hg' => hg'.pure (Nat.le_refl _))
  | _ => exact ends_fail trivial

theorem delayedBody_ends {b : BoxId} (hr : F.Answering) (hg : F.Sound g)
    (hcalm : F.Calm (.opening b :: xs) g) (hb : b < g.boxes.size)
    (hunknown : (g.boxInfo b).parser = none)
    (hafford : F.Affords g ((g.boxInfo b).body.cost F.price)) :
    F.Ends ((g.boxInfo b).body.cost F.price) (fun _ => 0)
      (delayedBody (resolver F.fuel) (g.boxInfo b).body) g := by
  cases hbody : (g.boxInfo b).body with
  | shape a =>
    rw [hbody] at hafford
    exact (parserFor_ends hr hg (hcalm.leads (.delayedShape hunknown hb hbody)) hafford).thenPure
      fun _ => Nat.le_refl _
  | expression e =>
    rw [hbody] at hafford
    have hbuilt := buildParser_ends hr e hg (hcalm.leads (.delayedParser hunknown hb hbody)) hafford
    refine hbuilt.finish fun _ hg' => ?_
    split
    · exact ends_fail trivial
    · exact hg'.pure (Nat.le_refl _)
  | known p => exact hg.pure (Nat.le_refl _)
  | call target => exact callFor_ends hg target

theorem openBox_ends {b : BoxId} (hr : F.Answering) (hg : F.Sound g)
    (hcalm : F.Calm (.opening b :: xs) g) (hb : b < g.boxes.size)
    (hk : (g.boxInfo b).parser = none → (g.boxInfo b).body.cost F.price ≤ k)
    (hafford : F.Affords g k) : F.Ends k (fun _ => 0) (openBox (resolver F.fuel) b) g := by
  have hopened (hunknown : (g.boxInfo b).parser = none) :=
    (delayedBody_ends hr hg hcalm hb hunknown (hafford.mono (hk hunknown))).mono (hk hunknown)
      fun _ => Nat.le_refl 0
  refine hg.remember (fun _ _ _ => Nat.zero_le k) (fun {p g'} hunknown h => ?_)
    fun hunknown => ?_
  · obtain ⟨hlater, hg', hspent⟩ := (hopened hunknown).answer (resolveBox_eq_ok h).2
    refine ⟨hlater.keep (f := .box b) hunknown trivial, hg'.keep (.box b) p hg'.value,
      fun hcharged => ⟨?_, Nat.zero_le k⟩⟩
    have hkept : F.owed ((Finding.box b).keep g' p) ≤ F.owed g' :=
      Grammar.owed_updateBox_le (fun _ => rfl) fun _ _ => rfl
    have := hspent hcharged
    omega
  · refine Watch.safe_get ?_
    rw [if_neg (Nat.not_le_of_lt hb)]
    exact (hopened hunknown).safe

/-- What is no delayed parser has no error kind. -/
theorem raises_undelayed {r : Resolver} {b : BoxId} (hb : g.boxes.size ≤ b) :
    Raises (fun e g => ¬ F.watch.bad e g) (do let p ← openBox r b; errorKindOf r p) g := by
  have hunknown : (g.boxInfo b).parser = none := by
    rw [g.boxInfo_of_size_le hb]
    rfl
  refine (Raises.remember (f := .box b) hunknown (Raises.after (get_ok g) ?_)).bind
  rw [if_pos hb]
  exact ⟨_, g, rfl, F.watch.plain (f := .attribute .parser) trivial⟩

theorem findBoxErrorKind_ends {b : BoxId} (hfuel : F.fuel = m + 1)
    (hinner : (F.watch.charged → b < F.limit) → .box b ∉ F.pending →
      (F.marking m (.box b)).Answering)
    (hg : F.Sound g) (hcalm : F.Calm (.kind (.box b) :: xs) g) (hafford : F.Affords g 0) :
    F.Ends 0 (fun _ => 0) (findBoxErrorKind (resolver m) b) g := by
  by_cases hmem : .box b ∈ g.pending
  · -- a walk would have come back to it
    refine hg.remember_of_raises fun hunknown =>
      ⟨_, g, guarded_of_mem hmem _ _, fun hbad => hcalm (.here (F.watch.marked ?_ hbad))⟩
    rw [hfuel]
    exact ⟨hunknown, hmem⟩
  by_cases hb : b < g.boxes.size
  swap
  · exact hg.remember_of_raises fun _ =>
      Raises.guarded F.watch.passes hmem (raises_undelayed (Nat.le_of_not_lt hb))
  have hlimit : F.watch.charged → b < F.limit := fun hcharged =>
    Nat.lt_of_lt_of_le hb (Nat.le_trans Grammar.boxes_le_owed (hafford hcharged))
  have hr := hinner hlimit (hg.pending ▸ hmem)
  -- what is not owed any longer while it is being found out pays for opening it
  have hmarked : (F.marking m (.box b)).owed { g with pending := .box b :: g.pending } +
      (if (g.boxInfo b).parser.isSome then 0 else (g.boxInfo b).body.cost F.price) = F.owed g :=
    Grammar.owed_mark_box hb hmem
  generalize hcost : (if (g.boxInfo b).parser.isSome then 0
    else (g.boxInfo b).body.cost F.price) = cost at hmarked
  have hpays (hclosed : (g.boxInfo b).parser = none) :
      (g.boxInfo b).body.cost F.price ≤ cost := by
    simp only [hclosed, Option.isSome_none, Bool.false_eq_true, if_false] at hcost
    exact Nat.le_of_eq hcost
  have haffords : (F.marking m (.box b)).Affords { g with pending := .box b :: g.pending } cost :=
    fun hcharged => Nat.le_trans (Nat.le_of_eq hmarked) (hafford hcharged)
  have hends (hunknown : (g.boxInfo b).errorKind = none) :
      (F.marking m (.box b)).Ends cost (fun _ => 0)
        (do let p ← openBox (resolver m) b; errorKindOf (resolver m) p)
        { g with pending := .box b :: g.pending } :=
    (openBox_ends hr (hg.marking m _) (hcalm.down hfuel (.opened hunknown hmem)) hb hpays
      haffords).spending haffords fun hopen hg' hafford' =>
        errorKindOf_ends hr _ hg' (hcalm.down hfuel (.box hunknown hmem hopen)) hafford'
  refine hg.remember (fun _ _ _ => Nat.le_refl 0) (fun {kind g'} hunknown h => ?_)
    fun hunknown => .guarded hmem (hends hunknown).safe
  obtain ⟨g1, hkind, rfl⟩ := guarded_eq_ok h
  obtain ⟨hlater, hg1, hspent⟩ := (hends hunknown).answer hkind
  refine ⟨hlater.guarded.keep (f := .kind b) hunknown trivial,
    hg1.unmarked.keep (.kind b) kind hg1.unmarked.value, fun hcharged => ⟨?_, Nat.le_refl 0⟩⟩
  have hopened : (g1.boxInfo b).parser.isSome := by
    obtain ⟨p, g2, hopen, hrest⟩ := bind_eq_ok_iff.mp hkind
    have hgrow := ok_precedes (grows_law.errorKindOf (resolver_grows m).toAnswers p) hrest
    have hknown : (g1.boxInfo b).parser = some p :=
      hgrow.known (f := .box b) (openBox_known hopen)
    rw [hknown]
    rfl
  have hunmarked : F.owed { g1 with pending := g1.pending.tail } = (F.marking m (.box b)).owed g1 :=
    Grammar.owed_unmark_box (by rw [hg1.pending]; rfl) hopened
  have hkept : F.owed ((Finding.kind b).keep { g1 with pending := g1.pending.tail } kind) ≤
      F.owed { g1 with pending := g1.pending.tail } :=
    Grammar.owed_updateBox_le (fun _ => rfl) fun _ h => h
  have := hspent hcharged
  omega

/-! ## Aliases -/

/-- The value of an alias costs no more than an alias may. -/
theorem aliasValue_ends {a : AliasId} (ha : a < g.aliases.size)
    (hinner : (F.watch.charged → a ∉ F.evaluating) → (F.evaluate a).Answering) (hg : F.Sound g)
    (hcalm : F.Calm (.value a :: xs) g) (hafford : F.Affords g 0) :
    F.Ends F.aliasPrice Shape.cost (aliasValue (resolver F.fuel) a) g := by
  have hnew (hunknown : (g.aliasInfo a).value = none) : F.watch.charged → a ∉ F.evaluating :=
    fun hcharged hmem => hcalm (.here (F.watch.evaluated hcharged hmem ⟨rfl, hunknown⟩))
  have howed (hunknown : (g.aliasInfo a).value = none) (hcharged : F.watch.charged) :
      (F.evaluate a).owed g + g.unexpanded F.aliasPrice F.expanding + F.aliasPrice = F.owed g :=
    Grammar.owed_evaluate ha hunknown (hnew hunknown hcharged)
  have hcheap := hg.expression a
  have hends (hunknown : (g.aliasInfo a).value = none) :
      (F.evaluate a).Ends ((g.aliasInfo a).expression.cost F.price) Shape.cost
        (evaluateShape (resolver F.fuel) false (g.aliasInfo a).expression) g := by
    have hentered : (F.evaluate a).Calm [.writtenShape (g.aliasInfo a).expression] g :=
      fun hc => hcalm (F.watch.entered ⟨rfl, hunknown⟩ hc).append
    refine evaluateShape_ends (hinner (hnew hunknown)) _ (hg.reframe id rfl rfl rfl rfl rfl)
      hentered fun hcharged => ?_
    have := howed hunknown hcharged
    have := hafford hcharged
    show (F.evaluate a).owed g + (g.aliasInfo a).expression.cost F.price ≤ F.limit
    omega
  refine hg.remember (fun hcharged {v} hv => hg.value hcharged hv) (fun {v g'} hunknown h => ?_)
    fun hunknown => Watch.safe_get (hends hunknown).safe
  obtain ⟨hlater, hg', hspent⟩ := (hends hunknown).answer (get_bind_eq_ok_iff.mp h)
  have hback : F.Sound g' := hg'.reframe id rfl rfl rfl rfl rfl
  have hcount : g'.aliases.size = g.aliases.size := hback.aliasCount.trans hg.aliasCount.symm
  have hcost (hcharged : F.watch.charged) : v.cost ≤ F.aliasPrice :=
    Nat.le_trans (hspent hcharged).2 hcheap
  refine ⟨hlater.keep (f := .value a) hunknown trivial, ?_, fun hcharged =>
    ⟨Nat.add_le_add ?_ (hcost hcharged), hcost hcharged⟩⟩
  · refine hback.keep (.value a) v fun hcharged {b w} hw => ?_
    simp only [Finding.keep, Grammar.aliasInfo_updateAlias] at hw
    split at hw
    · cases hw
      exact hcost hcharged
    · exact hback.value hcharged hw
  · have hkept : F.owed ((Finding.value a).keep g' v) ≤
        (F.evaluate a).owed g' + g'.unexpanded F.aliasPrice F.expanding :=
      Grammar.owed_keep_value_le (hcount ▸ ha) (hnew hunknown hcharged)
    have : g'.unexpanded F.aliasPrice F.expanding ≤ g.unexpanded F.aliasPrice F.expanding :=
      Grammar.unexpanded_mono hlater hcount
    have := howed hunknown hcharged
    have := hspent hcharged
    omega

/-- What is no alias has nothing to parse. -/
theorem raises_undeclared {r : Resolver} {expanding : List AliasId} {a : AliasId}
    (ha : g.aliases.size ≤ a) : Raises (fun e g => ¬ F.watch.bad e g)
      (do let v ← aliasValue r a; resolveShape r expanding v) g := by
  have hinfo : g.aliasInfo a = default := by
    unfold Grammar.aliasInfo
    rw [Array.getD_eq_getD_getElem?, Array.getElem?_eq_none ha]
    rfl
  have hvalue : aliasValue r a g = .ok .nothing ((Finding.value a).keep g .nothing) := by
    unfold aliasValue
    rw [remember_of_unknown (by simp only [Finding.known?, hinfo]; rfl),
      bind_of_ok (get_bind_eq_ok_iff.mpr (by rw [hinfo]; rfl))]
    rfl
  exact .after hvalue ⟨_, _, rfl, F.watch.plain (f := .schema .unknownShape) trivial⟩

theorem expandAlias_ends {a : AliasId} (hfuel : F.fuel = m + 1)
    (hinner : a < F.aliasCount → a ∉ F.expanding → (F.expand m a).Expands ∧
      ((F.watch.charged → a ∉ F.evaluating) → ((F.expand m a).evaluate a).Answering))
    (hg : F.Sound g) (hcalm : F.Calm (.expansion F.expanding a :: xs) g) (hafford : F.Affords g 0) :
    F.Ends 0 (fun _ => 0) (expandAlias (resolver m) F.expanding a) g := by
  by_cases hmem : a ∈ F.expanding
  · refine hg.remember_of_raises fun _ => .after (get_ok g) ?_
    rw [if_pos (List.contains_iff_mem.mpr hmem)]
    exact ⟨_, g, rfl, F.watch.plain (f := .schema (.selfContainingAlias _ _)) trivial⟩
  have hopen : ¬ F.expanding.contains a = true := fun h => hmem (List.contains_iff_mem.mp h)
  by_cases ha : a < g.aliases.size
  swap
  · refine hg.remember_of_raises fun _ => .after (get_ok g) ?_
    rw [if_neg hopen]
    exact raises_undeclared (Nat.le_of_not_lt ha)
  obtain ⟨hexpands, hevaluates⟩ := hinner (hg.aliasCount ▸ ha) hmem
  -- what is not owed any longer while the alias is expanded pays for its value
  have howed (hunknown : (g.aliasInfo a).parser = none) :
      (F.expand m a).owed g + F.aliasPrice = F.owed g := Grammar.owed_expand ha hunknown hmem
  have hends (hunknown : (g.aliasInfo a).parser = none) :
      (F.expand m a).Ends F.aliasPrice (fun _ => 0)
        (do let v ← aliasValue (resolver m) a; resolveShape (resolver m) (F.expanding ++ [a]) v)
        g := by
    have haffords : (F.expand m a).Affords g F.aliasPrice := fun hcharged =>
      Nat.le_trans (Nat.le_of_eq (howed hunknown)) (hafford hcharged)
    have hvalue : (F.expand m a).Ends F.aliasPrice Shape.cost (aliasValue (resolver m) a) g :=
      aliasValue_ends ha hevaluates (hg.reframe id rfl rfl rfl rfl rfl)
        (hcalm.down hfuel (.value hunknown hmem)) (haffords.mono (Nat.zero_le _))
    exact hvalue.spending haffords fun {v g1} hv hg1 hafford1 =>
      resolveShape_ends hexpands v hg1 (hcalm.down hfuel (.expanded hunknown hmem hv)) hafford1
  refine hg.remember (fun _ _ _ => Nat.le_refl 0) (fun {h g'} hunknown hx => ?_)
    fun hunknown => Watch.safe_get ?_
  · replace hx := get_bind_eq_ok_iff.mp hx
    rw [if_neg hopen] at hx
    obtain ⟨hlater, hg', hspent⟩ := (hends hunknown).answer hx
    have hback : F.Sound g' := hg'.reframe id rfl rfl rfl rfl rfl
    refine ⟨hlater.keep (f := .handle a) hunknown trivial, ?_, fun hcharged =>
      ⟨?_, Nat.le_refl 0⟩⟩
    · refine hback.keep (.handle a) h fun hcharged {b w} hw => ?_
      simp only [Finding.keep, Grammar.aliasInfo_updateAlias] at hw
      split at hw <;> exact hback.value hcharged hw
    · have hcount : g'.aliases.size = g.aliases.size := hback.aliasCount.trans hg.aliasCount.symm
      have hkept : F.owed ((Finding.handle a).keep g' h) ≤ (F.expand m a).owed g' :=
        Grammar.owed_keep_handle_le (hcount ▸ ha)
      have := howed hunknown
      have := hspent hcharged
      omega
  · rw [if_neg hopen]
    exact (hends hunknown).safe

/-! ## All questions -/

/-- Without fuel, nothing can be asked where an account is kept. -/
theorem ends_exhausted {rest : α → Nat} (hdeep : F.Deep) (hfuel : F.fuel = 0) :
    F.Ends k rest (throw .outOfFuel : Resolution α) g := by
  have hthrow : (throw .outOfFuel : Resolution α) g = .error .outOfFuel g := rfl
  refine ends_of_error hthrow fun hbad => ?_
  have hdepth := hdeep (F.watch.outOfFuel hbad)
  unfold depth at hdepth
  omega

/-- **All questions end that a walk keeps clear of**, if as many may be followed one inside the
other as can be nested. -/
theorem answered : ∀ (n : Nat) {F : Frame}, F.fuel = n → F.Deep →
    F.Expands ∧ (F.expanding = [] → F.Answering)
  | 0, F, hfuel, hdeep => by
    have hexpands : F.Expands := fun _ _ _ => by
      rw [hfuel]
      exact ends_exhausted hdeep hfuel
    refine ⟨hexpands, fun hidle => ⟨hidle, hexpands, fun _ _ _ => ?_, fun _ _ _ => ?_⟩⟩
    all_goals
      rw [hfuel]
      exact ends_exhausted hdeep hfuel
  | m + 1, F, hfuel, hdeep => by
    have hexpands : F.Expands := fun {a g xs} hg hcalm hafford => by
      rw [hfuel]
      exact expandAlias_ends hfuel (fun ha hnew =>
        have hdeeper := hdeep.expand hfuel ha hnew
        ⟨(answered m rfl hdeeper).1, fun hfree =>
          (answered m rfl (hdeeper.evaluate ha hfree)).2 rfl⟩) hg hcalm hafford
    refine ⟨hexpands, fun hidle => ⟨hidle, hexpands, fun {c g xs} hg hcalm hafford => ?_,
      fun {b g xs} hg hcalm hafford => ?_⟩⟩
    · rw [hfuel]
      exact findPlan_ends hfuel (fun hc hfree =>
        (answered m rfl (hdeep.marking_cls hfuel hc hfree)).2 hidle) hg hcalm hafford
    · rw [hfuel]
      exact findBoxErrorKind_ends hfuel (fun hb hfree =>
        (answered m rfl (hdeep.marking_box hfuel hb hfree)).2 hidle) hg hcalm hafford

end Frame

end ShapeGrammar
