import ShapeGrammar.Grammar.Declare
import ShapeGrammar.Proofs.Walk.Answered
import ShapeGrammar.Proofs.Walk.Stopped

/-!
# How a question comes out

Whatever is asked of a grammar, for the plan of a class or for the error kind of a parser, the
question ends, whether it is answered or not: there is a number of questions that need never be
exceeded by those that are followed one inside the other. There are two exceptions, and a walk comes
upon either: an alias whose value is needed for that value, which nothing guards against, and a
refusal whose wording has no end. The question stops at left recursion exactly if a walk comes back
to something that is being found out already. Afterwards nothing more counts as being found out than
before, and nothing is kept of what stopped.

A walk also looks into what is built on the way: the parsers of all fields, what a delayed parser
comes to, and the values of aliases. It is not enough to follow error kinds from one part to the
next: a delayed parser that has to build a factory of its own class is left-recursive, even where
the factory comes after a letter.

Headlines: `Inquiry.Settles`, `resolution_settles`, `planned_letters_leftRecursive`.
-/

namespace ShapeGrammar

open Resolution Inquiry

/-- What stops is that something depends on itself. -/
def Stop.LeftRecursive : Stop → Prop
  | .fault f => f.LeftRecursive
  | .outOfFuel => False

/-! ## What is watched for -/

theorem ComesUpon.split {goal P Q : Nat → Inquiry → Grammar → Prop}
    (hsplit : ∀ {n x g}, goal n x g → P n x g ∨ Q n x g) {n : Nat} {xs : List Inquiry} {g : Grammar}
    (h : ComesUpon goal n xs g) : ComesUpon P n xs g ∨ ComesUpon Q n xs g := by
  induction h with
  | here hx => exact (hsplit hx).imp .here .here
  | past hx _ ih => exact ih.imp (.past hx) (.past hx)
  | into hstep _ ih => exact ih.imp (.into hstep) (.into hstep)

theorem ComesUpon.mono {goal P : Nat → Inquiry → Grammar → Prop}
    (hmono : ∀ {n x g}, goal n x g → P n x g) {n : Nat} {xs : List Inquiry} {g : Grammar}
    (h : ComesUpon goal n xs g) : ComesUpon P n xs g :=
  (h.split fun hx => .inl (hmono hx)).elim id id

/-- What is come upon is one of those that the goal is about. -/
theorem ComesUpon.exists {ι : Type} {goal : ι → Nat → Inquiry → Grammar → Prop} {n : Nat}
    {xs : List Inquiry} {g : Grammar} (h : ComesUpon (fun n x g => ∃ i, goal i n x g) n xs g) :
    ∃ i, ComesUpon (goal i) n xs g := by
  induction h with
  | here hx => exact hx.imp fun _ hi => .here hi
  | past hx _ ih => exact ih.imp fun _ hi => .past hx hi
  | into hstep _ ih => exact ih.imp fun _ hi => .into hstep hi

/-- Left recursion. -/
def Watch.comingBack : Watch where
  goal _ := Marked
  bad e _ := e.LeftRecursive
  charged := False
  plain hf := hf.not_leftRecursive
  outOfFuel := id
  shown {_ _ _ _ e g g'} _ he hbad := by
    have hplain := g'.showShape_plain _ _ he
    cases e with
    | fault f => exact absurd hbad (Fault.Plain.not_leftRecursive hplain)
    | outOfFuel => exact hbad.elim
  inField := id
  unmarked := id
  marked h _ := h
  evaluated h := h.elim
  entered hvalue hc := .into (.written hvalue.2) hc

/-- To go on without end. -/
def Watch.goingOn : Watch where
  goal evaluating n x g := Circular n x g ∨ Unworded n x g ∨ ∃ a ∈ evaluating, Evaluates a n x g
  bad e _ := e = .outOfFuel
  charged := True
  plain _ h := nomatch h
  outOfFuel _ := trivial
  shown hx he h := .inr (.inl ⟨_, _, hx, h ▸ he⟩)
  inField h := nomatch h
  unmarked := id
  marked _ h := nomatch h
  evaluated _ hmem h := .inr (.inr ⟨_, hmem, h⟩)
  entered {evaluating n a g} hvalue hc := by
    have hsplit {n x g} (h : Circular n x g ∨ Unworded n x g ∨
        ∃ b ∈ a :: evaluating, Evaluates b n x g) : Evaluates a n x g ∨
          (Circular n x g ∨ Unworded n x g ∨ ∃ b ∈ evaluating, Evaluates b n x g) := by
      rcases h with h | h | ⟨b, hb, h⟩
      · exact .inr (.inl h)
      · exact .inr (.inr (.inl h))
      · rcases List.mem_cons.mp hb with rfl | hb
        · exact .inl h
        · exact .inr (.inr (.inr ⟨b, hb, h⟩))
    -- what is evaluated inside its own value is what must not be come upon
    rcases hc.split hsplit with hagain | hother
    · exact .here (.inl ⟨a, hvalue, hagain⟩)
    · exact .into (.written hvalue.2) hother

/-! ## The frame around everything -/

/-- There is a price that no alias exceeds. -/
theorem Grammar.exists_aliasPrice (g : Grammar) (w : Nat) :
    ∃ u, (∀ a, (g.aliasInfo a).expression.cost w ≤ u) ∧
      ∀ {a v}, (g.aliasInfo a).value = some v → v.cost ≤ u := by
  refine ⟨∑ a ∈ Finset.range g.aliases.size, ((g.aliasInfo a).expression.cost w +
    ((g.aliasInfo a).value.map Shape.cost).getD 0), ?_⟩
  have hless (a : AliasId) : (g.aliasInfo a).expression.cost w +
      ((g.aliasInfo a).value.map Shape.cost).getD 0 ≤
        ∑ a ∈ Finset.range g.aliases.size, ((g.aliasInfo a).expression.cost w +
          ((g.aliasInfo a).value.map Shape.cost).getD 0) := by
    by_cases ha : a < g.aliases.size
    · exact Finset.single_le_sum (f := fun a => (g.aliasInfo a).expression.cost w +
        ((g.aliasInfo a).value.map Shape.cost).getD 0) (fun _ _ => Nat.zero_le _)
        (Finset.mem_range.mpr ha)
    · rw [show g.aliasInfo a = default from ?_]
      · exact Nat.zero_le _
      · unfold aliasInfo
        rw [Array.getD_eq_getD_getElem?, Array.getElem?_eq_none (Nat.le_of_not_lt ha)]
        rfl
  refine ⟨fun a => Nat.le_trans (Nat.le_add_right _ _) (hless a), fun {a v} hv => ?_⟩
  have h := hless a
  rw [hv] at h
  exact Nat.le_trans (Nat.le_add_left _ _) h

/-- What is asked of a grammar from outside. -/
def Inquiry.IsQuestion : Inquiry → Prop
  | .plan _ => True
  | .kind _ => True
  | _ => False

/-- **There is an end to all questions** that a walk keeps clear of. -/
theorem exists_enough (g : Grammar) : ∃ enough, ∀ (W : Watch) (n : Nat) (x : Inquiry),
    x.IsQuestion → (W.charged → enough ≤ n) → ¬ ComesUpon (W.goal []) n [x] g →
      W.Safe (x.run (resolver n)) g := by
  obtain ⟨w, hw⟩ := g.exists_priced
  obtain ⟨u, hexpression, hvalue⟩ := g.exists_aliasPrice w
  let frame (W : Watch) (n : Nat) : Frame :=
    ⟨W, w, u, g.owed w u [] [], g.classes.size, g.aliases.size, n, [], [], g.pending⟩
  refine ⟨(frame .goingOn 0).depth, fun W n x hx henough hcalm => ?_⟩
  have hsound : (frame W n).Sound g := ⟨hw, hexpression, fun _ => hvalue, rfl, rfl, rfl⟩
  have hafford : (frame W n).Affords g 0 := fun _ => Nat.le_refl _
  have hr := (Frame.answered n (F := frame W n) rfl henough).2 rfl
  intro e g' h
  cases x with
  | plan c => exact (hr.plan hsound hcalm hafford).safe e g' (map_eq_error h)
  | kind p => exact (errorKindOf_ends hr p hsound hcalm hafford).safe e g' (map_eq_error h)
  | _ => exact hx.elim

/-! ## How it comes out -/

/-- How a question comes out if at most `n` questions may be followed one inside the other. -/
structure Inquiry.Settles (enough n : Nat) (x : Inquiry) (g : Grammar) : Prop where
  /-- It ends, unless an alias is evaluated for its own value or the wording of a refusal has no
  end. -/
  ends : enough ≤ n → ∀ g', x.run (resolver n) g = .error .outOfFuel g' →
    x.Repeats n g ∨ x.EndsUnworded n g
  /-- It is left-recursive if and only if a walk comes back to what is being found out. -/
  leftRecursive_iff : Raises (fun e _ => e.LeftRecursive) (x.run (resolver n)) g ↔ x.ComesBack n g
  /-- What counts as being found out is what did before. -/
  restored : (stateAfter (x.run (resolver n)) g).pending = g.pending
  /-- What stopped on the way is not known. -/
  uncached : ∀ key : Pending, ComesUpon key.Stops n [x] g →
    key.Uncached (stateAfter (x.run (resolver n)) g)

/-- To come back to what is being found out is refused. -/
theorem Inquiry.Marked.raises {n : Nat} {x : Inquiry} {g : Grammar} (h : Marked n x g) :
    Raises (fun e _ => e.LeftRecursive) (x.run (resolver n)) g := by
  unfold Marked at h
  split at h
  · rename_i c
    obtain ⟨hunknown, hc, hmem⟩ := h
    refine (Raises.remember (f := .plan c) hunknown (.after (get_ok _) ?_)).map _
    rw [if_neg (Nat.not_le_of_lt hc)]
    exact Raises.bind ⟨_, _, guarded_of_mem hmem _ _, trivial⟩
  · rename_i b
    obtain ⟨hunknown, hmem⟩ := h
    exact (Raises.remember (f := .kind b) hunknown ⟨_, _, guarded_of_mem hmem _ _, trivial⟩).map _
  · exact h.elim

/-- To look into something changes nothing but what is known. -/
theorem Inquiry.grows (n : Nat) (x : Inquiry) : (x.run (resolver n)).Grows := by
  have hanswers := (resolver_grows n).toAnswers
  cases x with
  | kind p => exact grows_law.map _ (grows_law.errorKindOf hanswers p)
  | kinds ps => exact grows_law.map _ (grows_law.sequenceErrorKind hanswers ps)
  | plan c => exact grows_law.map _ (hanswers.planOf c)
  | schema s => exact grows_law.map _ (grows_law.planSchema hanswers s)
  | derived a => exact grows_law.map _ (grows_law.derivedPlan hanswers a)
  | opening b => exact grows_law.map _ (grows_law.openBox hanswers b)
  | shape expanding a =>
    exact grows_law.map _ (grows_law.resolveShape hanswers.aliasParser expanding a)
  | expansion expanding a => exact grows_law.map _ (hanswers.aliasParser expanding a)
  | value a => exact grows_law.map _ (grows_law.aliasValue hanswers a)
  | writtenShape e => exact grows_law.map _ (grows_law.evaluateShape hanswers false e)
  | writtenParser e => exact grows_law.map _ (grows_law.buildParser hanswers e)

/-- A walk finds out more, and declares nothing. -/
theorem Inquiry.Leads.sameDeclarations {n m : Nat} {x : Inquiry} {ys : List Inquiry}
    {g g' : Grammar} (h : x.Leads n g m ys g') : g.SameDeclarations g' := by
  have hanswers := (resolver_grows n).toAnswers
  have later {α : Type} {f : Resolution α} {a : α} {g1 g2 : Grammar} (hf : f.Grows)
      (h : f g1 = .ok a g2) : g1.SameDeclarations g2 := (ok_precedes hf h).sameDeclarations
  cases h with
  | parts => exact .refl g
  | later h => exact later (grows_law.errorKindOf hanswers _) h
  | product h => exact later (grows_law.fieldParsers hanswers _ _) h
  | variants h => exact later (grows_law.reportHidden _ _ _) h
  | last hhidden has =>
    exact (later (grows_law.reportHidden _ _ _) hhidden).trans
      (later (grows_law.planVariants hanswers _) has)
  | planned h => exact later (grows_law.parserFor hanswers _) h
  | shaped h => exact later (grows_law.evaluateShape hanswers false _) h
  | compiled h => exact later (grows_law.evaluateShape hanswers false _) h
  | generatedSchema h => exact later (grows_law.evaluateShape hanswers false _) h
  | generated h => exact later (grows_law.evaluateShape hanswers false _) h
  | loaded h => exact later (grows_law.evaluateShape hanswers false _) h
  | cls => exact g.sameDeclarations_marked _
  | opened => exact g.sameDeclarations_marked _
  | box _ _ h =>
    exact (g.sameDeclarations_marked _).trans
      (later (grows_law.openBox (resolver_grows m).toAnswers _) h)
  | delayedShape => exact .refl g
  | delayedParser => exact .refl g
  | value => exact .refl g
  | expanded _ _ h => exact later (grows_law.aliasValue (resolver_grows m).toAnswers _) h
  | written => exact .refl g

/-- What a walk comes upon, it comes upon among the same declarations. -/
theorem ComesUpon.since {goal : Nat → Inquiry → Grammar → Prop} {n : Nat} {xs : List Inquiry}
    {g0 g : Grammar} (hsame : g0.SameDeclarations g) (h : ComesUpon goal n xs g) :
    ComesUpon (fun m y g' => goal m y g' ∧ g0.SameDeclarations g') n xs g := by
  induction h with
  | here hx => exact .here ⟨hx, hsame⟩
  | past hx _ ih =>
    exact .past hx (ih (hsame.trans (ok_precedes (Inquiry.grows _ _) hx).sameDeclarations))
  | into hstep _ ih => exact .into hstep (ih (hsame.trans hstep.sameDeclarations))

/-- **Every question ends, stops at left recursion if and only if a walk comes back, and leaves
behind neither marks nor anything about what stopped.** -/
theorem resolution_settles (g : Grammar) : ∃ enough, ∀ n,
    (∀ c, (Inquiry.plan c).Settles enough n g) ∧ ∀ p, (Inquiry.kind p).Settles enough n g := by
  obtain ⟨enough, henough⟩ := exists_enough g
  have settles {n : Nat} {x : Inquiry} (hx : x.IsQuestion) : x.Settles enough n g := by
    refine ⟨fun hn g' h => ?_, ⟨fun ⟨e, g', h, he⟩ => ?_, fun hback => ?_⟩,
      (x.grows n g).pending, fun key h => h.uncached⟩
    · by_contra hnot
      refine henough .goingOn n x hx (fun _ => hn) (fun hc => hnot ?_) _ g' h rfl
      rcases hc.split (fun h => h) with hcircular | hother
      · exact .inl hcircular
      · refine .inr ((hother.split (fun h => h)).resolve_right fun hc => ?_)
        obtain ⟨e, g', h, hfalse⟩ := hc.raises (P := fun _ _ => False) ⟨fun _ _ _ h => h, id⟩
          fun ⟨_, hmem, _⟩ => nomatch hmem
        exact hfalse
    · by_contra hnot
      exact henough .comingBack n x hx False.elim hnot e g' h he
    · exact raises_single (hback.raises ⟨fun _ _ _ h => h, id⟩ Marked.raises)
  exact ⟨enough, fun n => ⟨fun c => settles trivial, fun p => settles trivial⟩⟩

/-! ## Error kinds alone -/

/-- What is looked into for an error kind alone. -/
def Inquiry.OfKind : Inquiry → Prop
  | .kind _ => True
  | .kinds _ => True
  | .plan _ => True
  | .schema _ => True
  | _ => False

/-- A walk from one error kind to the next comes back to what is being found out. -/
inductive Inquiry.KindComesBack : Nat → Inquiry → Grammar → Prop
  | here {n x g} : Marked n x g → KindComesBack n x g
  | into {n x g m y g'} : x.Leads n g m [y] g' → y.OfKind → KindComesBack m y g' →
      KindComesBack n x g

namespace Inquiry.KindComesBack

variable {n : Nat} {g : Grammar}

/-- From a class it goes on to the schema. -/
theorem of_plan {c : ClassId} (h : KindComesBack (n + 1) (.plan c) g) (hfree : .cls c ∉ g.pending) :
    ∃ s, g.schemaOf (.declared c) = .ok s ∧
      KindComesBack n (.schema s) { g with pending := .cls c :: g.pending } := by
  cases h with
  | here hmarked => exact absurd hmarked.2.2 hfree
  | @into _ _ _ _ y _ hstep _ h =>
    generalize hys : [y] = ys at hstep
    cases hstep with
    | parts => cases hys
    | cls _ _ _ hschema =>
      cases hys
      exact ⟨_, hschema, h⟩

/-- From the schema of a product it goes on to the parsers of the fields. -/
theorem of_product {target : ClassRef} {fields : List SchemaField}
    (h : KindComesBack n (.schema (.product target fields)) g) :
    ∃ ps g', fieldParsers (resolver n) target fields g = .ok ps g' ∧
      KindComesBack n (.kinds ps) g' := by
  cases h with
  | here hmarked => cases n <;> exact hmarked.elim
  | @into _ _ _ _ y _ hstep hkind h =>
    generalize hys : [y] = ys at hstep
    cases hstep with
    | parts =>
      obtain ⟨f, -, rfl⟩ := List.mem_map.mp (hys ▸ List.mem_singleton_self _)
      exact hkind.elim
    | product hfields =>
      cases hys
      exact ⟨_, _, hfields, h⟩

/-- From a single parser that has an error kind it goes on to that parser. -/
theorem of_kinds {p : Parser} (h : KindComesBack n (.kinds [p]) g)
    (hfails : ∀ g', errorKindOf (resolver n) p g ≠ .ok none g') : KindComesBack n (.kind p) g := by
  cases h with
  | here hmarked => cases n <;> exact hmarked.elim
  | @into _ _ _ _ y _ hstep _ h =>
    generalize hys : [y] = ys at hstep
    cases hstep with
    | parts =>
      cases hys
      exact h
    | later hnone => exact absurd hnone (hfails _)

/-- From a delayed parser it goes on to what that comes to. -/
theorem of_box {b : BoxId} (h : KindComesBack (n + 1) (.kind (.box b)) g)
    (hfree : .box b ∉ g.pending) :
    ∃ p g', openBox (resolver n) b { g with pending := .box b :: g.pending } = .ok p g' ∧
      KindComesBack n (.kind p) g' := by
  cases h with
  | here hmarked => exact absurd hmarked.2 hfree
  | @into _ _ _ _ y _ hstep hkind h =>
    generalize hys : [y] = ys at hstep
    cases hstep with
    | parts => cases hys
    | opened =>
      cases hys
      exact hkind.elim
    | box _ _ hopen =>
      cases hys
      exact ⟨_, _, hopen, h⟩

end Inquiry.KindComesBack

/-- A class whose one field is delayed: a letter, and after it what a factory of the class makes. -/
def lazyLetters : Grammar :=
  stateAfter (declare (resolver 0) 1 (.cls (.mk "C" false
    [⟨"x", .parser (.delayed (.seq [.element (.text "a"), .generated (.ref ⟨"C", []⟩)])), .field,
      none⟩] none none false []) true)) (.empty none)

/-- A walk of the other kind comes back to the class, which then has no plan. -/
theorem resolution_settles_lazyLetters : (Inquiry.plan 0).ComesBack 4 lazyLetters ∧
    ((stateAfter ((Inquiry.plan 0).run (resolver 4)) lazyLetters).classInfo 0).plan = none := by
  obtain ⟨_, h⟩ := resolution_settles lazyLetters
  have hplan := (h 4).1 0
  exact ⟨hplan.leftRecursive_iff.mp ⟨_, _, rfl, trivial⟩,
    hplan.uncached (.cls 0) (.here ⟨rfl, _, _, rfl⟩)⟩

/-- To open the delayed parser makes the factory, for which the class has to be planned. The error
kind would have been that of the letter. -/
theorem planned_letters_leftRecursive :
    Raises (fun e _ => e.LeftRecursive) ((Inquiry.plan 0).run (resolver 4)) lazyLetters ∧
      ¬ (Inquiry.plan 0).KindComesBack 4 lazyLetters := by
  have hschema : lazyLetters.schemaOf (.declared 0) =
      .ok (.product (.declared 0) [⟨"x", .parser ⟨.made 0, .box 0⟩⟩]) := rfl
  refine ⟨⟨_, _, rfl, trivial⟩, fun h => ?_⟩
  obtain ⟨s, hs, h⟩ := h.of_plan (by simp [show lazyLetters.pending = [] from rfl])
  cases hschema.symm.trans hs
  obtain ⟨ps, g1, hfields, h⟩ := h.of_product
  cases hfields
  obtain ⟨p, g2, hopen, -⟩ := (h.of_kinds nofun).of_box
    (by simp [show lazyLetters.pending = [] from rfl])
  cases hopen

/-! ## Questions without an end -/

/-- An alias whose note compiles the class that has a field of it. -/
def compilingAlias : Grammar :=
  stateAfter (do
    declare (resolver 0) 1 (.alias "A"
      (.annotated (.builtin .text) [.parser (.compiled (.ref ⟨"C", []⟩))]))
    declare (resolver 0) 2 (.cls (.mk "C" false [⟨"x", .ref ⟨"A", []⟩, .field, none⟩]
      none none false []) true)) (.empty none)

/-- The schema of the class. -/
def compiledSchema : Schema :=
  .product (.declared 0) [⟨"x", .alias 0⟩]

/-- From the schema of the class a walk goes into the alias, and from its value into the schema
again. -/
theorem comesUpon_compilingAlias {goal : Nat → Inquiry → Grammar → Prop} {n : Nat}
    (h : ComesUpon goal n [.schema compiledSchema] { compilingAlias with pending := [.cls 0] }) :
    ComesUpon goal n [.writtenShape
        (.annotated (.builtin .text) [.parser (.compiled (.ref ⟨"C", []⟩))])]
      { compilingAlias with pending := [.cls 0] } := by
  have hbuiltin : (Inquiry.writtenShape (.builtin .text)).run (resolver n)
      { compilingAlias with pending := [.cls 0] } =
      .ok () { compilingAlias with pending := [.cls 0] } := rfl
  refine .into .parts (.past hbuiltin ?_)
  exact .into (.compiled (a := .cls (.declared 0)) rfl rfl) h

theorem comesUpon_aliasOf {goal : Nat → Inquiry → Grammar → Prop} {n : Nat}
    (h : ComesUpon goal n [.expansion [] 0] { compilingAlias with pending := [.cls 0] }) :
    ComesUpon goal n [.schema compiledSchema] { compilingAlias with pending := [.cls 0] } :=
  .into .parts (.into .parts h)

/-- The walk repeats itself: to evaluate the alias, it has to be evaluated. It has no end, however
many questions may be followed. -/
theorem repeats_compilingAlias : (∀ n, (Inquiry.plan 0).Repeats (n + 3) compilingAlias) ∧
    ∀ n, Raises (fun e _ => e = .outOfFuel) ((Inquiry.plan 0).run (resolver n)) compilingAlias := by
  have hcls (n : Nat) : (Inquiry.plan 0).Leads (n + 1) compilingAlias n [.schema compiledSchema]
      { compilingAlias with pending := [.cls 0] } :=
    .cls rfl (by decide) (by decide) rfl
  refine ⟨fun n => ?_, fun n => ?_⟩
  · refine .into (hcls _) (comesUpon_aliasOf (.into (.value rfl nofun) (.here ?_)))
    refine ⟨0, ⟨rfl, rfl⟩, comesUpon_compilingAlias (comesUpon_aliasOf ?_)⟩
    exact .into (.value rfl nofun) (.here ⟨rfl, rfl⟩)
  · -- however far it goes, in the end the alias is asked for where no question may be followed
    have hdown (n : Nat) : ComesUpon (fun m y _ => m = 0 ∧ y = .expansion [] 0) n
        [.schema compiledSchema] { compilingAlias with pending := [.cls 0] } := by
      induction n with
      | zero => exact comesUpon_aliasOf (.here ⟨rfl, rfl⟩)
      | succ n ih =>
        refine comesUpon_aliasOf (.into (.value rfl nofun) (.into (.written rfl) ?_))
        exact comesUpon_compilingAlias ih
    cases n with
    | zero => exact ⟨_, _, rfl, rfl⟩
    | succ n =>
      refine raises_single (ComesUpon.raises (P := fun e _ => e = .outOfFuel)
        ⟨fun _ _ _ h => (nomatch h), id⟩ ?_ (.into (hcls n) (hdown n)))
      rintro m y g ⟨rfl, rfl⟩
      exact ⟨_, _, rfl, rfl⟩

/-- A class with a tuple without a fixed length, of a delayed parser inside itself. -/
def openTuple : Grammar :=
  stateAfter (declare (resolver 0) 2 (.cls (.mk "C" false
    [⟨"x", .tuple [.parser (.name ⟨"B", []⟩), .ellipsis], .field, none⟩] none none false []) true))
    (.knotted none)

/-- Such a tuple is refused, and the refusal has no end: it shows the tuple, and the description of
the parser has none. -/
theorem endsUnworded_openTuple : (∀ n, (Inquiry.plan 0).EndsUnworded (n + 1) openTuple) ∧
    ∀ n, Raises (fun e _ => e = .outOfFuel) ((Inquiry.plan 0).run (resolver n)) openTuple := by
  refine ⟨fun n => ?_, fun n => ?_⟩
  · refine .into (.cls (s := .product (.declared 0) [⟨"x", .tuple [.parser ⟨.made 0, .box 0⟩,
      .ellipsis]⟩]) rfl (by decide) (by decide) rfl) (.into .parts (.here ?_))
    exact ⟨_, _, .shape (f := .schema .noFixedLength) rfl, rfl⟩
  · cases n with
    | zero => exact ⟨_, _, rfl, rfl⟩
    | succ n => exact ⟨_, _, rfl, rfl⟩

end ShapeGrammar
