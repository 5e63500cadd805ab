import ShapeGrammar.Grammar.Declare
import ShapeGrammar.Proofs.ErrorKinds.Candid

/-!
# What declarations keep

A declaration adds classes, aliases, names and entries of fields, and changes members and records.
None of this touches a plan that is known, the name of a class, a delayed parser, or what an alias
is written as and was found to be. So an invariant that single steps of a resolution keep, and that
is about nothing else, is kept by declarations, too: known plans make their attempts in order, and
known error kinds are those that were announced.

Headlines: `Grammar.Spares`, `DeclarationLaw`, `DeclarationLaw.declare`, `declare_candid`,
`declare_plansOrdered`.
-/

namespace ShapeGrammar

open Resolution

/-- Between two grammars, at most what is declared changes: what is known stays, and the classes
that there are keep their names. -/
structure Grammar.Spares (g g' : Grammar) : Prop where
  boxes : g'.boxes = g.boxes
  plan : ∀ c, (g'.classInfo c).plan = (g.classInfo c).plan
  value : ∀ a, (g'.aliasInfo a).value = (g.aliasInfo a).value
  handle : ∀ a, (g'.aliasInfo a).parser = (g.aliasInfo a).parser
  expression : ∀ a < g.aliases.size, (g'.aliasInfo a).expression = (g.aliasInfo a).expression
  threshold : g'.threshold = g.threshold
  classCount : g.classes.size ≤ g'.classes.size
  name : ∀ c < g.classes.size, (g'.classInfo c).qualifiedName = (g.classInfo c).qualifiedName

/-- An invariant that single steps keep, and that no declaration can break. -/
structure DeclarationLaw (Inv : Grammar → Prop) : Prop where
  steps : StepLaw (Keeps Inv)
  frame {g g' : Grammar} : Inv g → g.Spares g' → Inv g'

namespace Grammar

/-- To change something else than classes, aliases and delayed parsers. -/
theorem Spares.of_eq {g g' : Grammar} (hboxes : g'.boxes = g.boxes)
    (haliases : g'.aliases = g.aliases) (hclasses : g'.classes = g.classes)
    (hthreshold : g'.threshold = g.threshold) : g.Spares g' := by
  have hinfo : ∀ c, g'.classInfo c = g.classInfo c := by
    intro c
    unfold classInfo
    rw [hclasses]
  have halias : ∀ a, g'.aliasInfo a = g.aliasInfo a := by
    intro a
    unfold aliasInfo
    rw [haliases]
  exact
    { boxes := hboxes
      plan := fun c => congrArg _ (hinfo c)
      value := fun a => congrArg _ (halias a)
      handle := fun a => congrArg _ (halias a)
      expression := fun a _ => congrArg _ (halias a)
      threshold := hthreshold
      classCount := Nat.le_of_eq (congrArg Array.size hclasses.symm)
      name := fun c _ => congrArg _ (hinfo c) }

/-- To change classes, but none of their plans and names. -/
theorem Spares.of_classes {g g' : Grammar} (hboxes : g'.boxes = g.boxes)
    (haliases : g'.aliases = g.aliases) (hthreshold : g'.threshold = g.threshold)
    (hcount : g.classes.size ≤ g'.classes.size)
    (hclasses : ∀ c, (g'.classInfo c).plan = (g.classInfo c).plan ∧
      (c < g.classes.size → (g'.classInfo c).qualifiedName = (g.classInfo c).qualifiedName)) :
    g.Spares g' :=
  have hrest : g.Spares { g' with classes := g.classes } := .of_eq hboxes haliases rfl hthreshold
  { boxes := hboxes
    plan := fun c => (hclasses c).1
    value := hrest.value
    handle := hrest.handle
    expression := hrest.expression
    threshold := hthreshold
    classCount := hcount
    name := fun c hc => (hclasses c).2 hc }

/-- To change anything about a class but its plan and its name. -/
theorem Spares.updateClass (g : Grammar) (c : ClassId) {f : ClassInfo → ClassInfo}
    (hplan : ∀ i, (f i).plan = i.plan) (hname : ∀ i, (f i).qualifiedName = i.qualifiedName) :
    g.Spares (g.updateClass c f) := by
  refine .of_classes rfl rfl rfl (Nat.le_of_eq (by simp [Grammar.updateClass])) fun d => ?_
  rw [classInfo_updateClass]
  split
  · exact ⟨hplan _, fun _ => hname _⟩
  · exact ⟨rfl, fun _ => rfl⟩

/-- To add a class without a plan. -/
theorem Spares.pushClass (g : Grammar) {info : ClassInfo} (hinfo : info.plan = none) :
    g.Spares { g with classes := g.classes.push info } := by
  refine .of_classes rfl rfl rfl (by simp) fun d => ⟨?_, fun hd => ?_⟩
  · unfold classInfo
    simp only [Array.getD_eq_getD_getElem?, Array.getElem?_push]
    split
    · rename_i hd
      subst hd
      rw [Option.getD_some, hinfo, Array.getElem?_eq_none (Nat.le_refl _)]
      rfl
    · rfl
  · unfold classInfo
    simp only [Array.getD_eq_getD_getElem?, Array.getElem?_push_lt hd, hd, getElem?_pos]

/-- To add an alias of which nothing was found out. -/
theorem Spares.pushAlias (g : Grammar) {info : AliasInfo} (hvalue : info.value = none)
    (hparser : info.parser = none) : g.Spares { g with aliases := g.aliases.push info } := by
  have hrest : g.Spares { g with aliases := g.aliases } := .of_eq rfl rfl rfl rfl
  have hold : ∀ a, a < g.aliases.size →
      ({ g with aliases := g.aliases.push info } : Grammar).aliasInfo a = g.aliasInfo a := by
    intro a ha
    unfold aliasInfo
    simp only [Array.getD_eq_getD_getElem?, Array.getElem?_push_lt ha, ha, getElem?_pos]
  have hnew : ∀ a, g.aliases.size ≤ a → g.aliasInfo a = default ∧
      (({ g with aliases := g.aliases.push info } : Grammar).aliasInfo a = info ∨
        ({ g with aliases := g.aliases.push info } : Grammar).aliasInfo a = default) := by
    intro a ha
    unfold aliasInfo
    simp only [Array.getD_eq_getD_getElem?, Array.getElem?_push, Array.getElem?_eq_none ha]
    split
    · exact ⟨rfl, .inl rfl⟩
    · exact ⟨rfl, .inr rfl⟩
  have hopen : ∀ {α : Type} (part : AliasInfo → Option α), part info = none →
      part default = none → ∀ a,
        part (({ g with aliases := g.aliases.push info } : Grammar).aliasInfo a) =
          part (g.aliasInfo a) := by
    intro α part hpart hdefault a
    rcases Nat.lt_or_ge a g.aliases.size with ha | ha
    · rw [hold a ha]
    · obtain ⟨hbefore, hafter | hafter⟩ := hnew a ha
      · rw [hbefore, hafter, hpart, hdefault]
      · rw [hbefore, hafter]
  exact
    { hrest with
      value := hopen (·.value) hvalue rfl
      handle := hopen (·.parser) hparser rfl
      expression := fun a ha => congrArg _ (hold a ha) }

/-- What is known stays known. -/
theorem Spares.retains {g g' : Grammar} (h : g.Spares g') : g.Retains g' := by
  have hbox : ∀ b, g'.boxInfo b = g.boxInfo b := by
    intro b
    unfold boxInfo
    rw [h.boxes]
  exact ⟨fun hc => (h.plan _).trans hc, fun hb => (hbox _).symm ▸ hb, fun hb => (hbox _).symm ▸ hb⟩

end Grammar

namespace DeclarationLaw

variable {Inv : Grammar → Prop} (L : DeclarationLaw Inv)
include L

/-- To change something else. -/
theorem changed {f : Grammar → Grammar} (hf : ∀ g, (f g).boxes = g.boxes ∧
    (f g).aliases = g.aliases ∧ (f g).classes = g.classes ∧ (f g).threshold = g.threshold) :
    Keeps Inv (modify f : Resolution Unit) := fun g hg =>
  have ⟨hboxes, haliases, hclasses, hthreshold⟩ := hf g
  L.frame hg (.of_eq hboxes haliases hclasses hthreshold)

/-- To change anything about a class but its plan and its name. -/
theorem updated {g : Grammar} (hg : Inv g) (c : ClassId) {f : ClassInfo → ClassInfo}
    (hplan : ∀ i, (f i).plan = i.plan) (hname : ∀ i, (f i).qualifiedName = i.qualifiedName) :
    Inv (g.updateClass c f) :=
  L.frame hg (.updateClass g c hplan hname)

/-! ## Records -/

theorem addField (entry : FieldEntry) : Keeps Inv (addField entry) :=
  fun _ hg => L.frame hg (.of_eq rfl rfl rfl rfl)

theorem openField (c : ClassId) (name : String) (role : FieldRole) :
    Keeps Inv (openField c name role) := by
  refine keeps_get fun g => ?_
  split
  · exact L.steps.pure _
  · exact L.addField _
  · exact L.addField _

theorem declareField (c : ClassId) (byName : Bool) (name : String) (s : Shape) :
    Keeps Inv (declareField c byName name s) := by
  refine keeps_bind (L.openField c name s.role) fun f => keeps_get fun g => ?_
  refine keeps_bind (L.changed fun _ => ⟨rfl, rfl, rfl, rfl⟩) fun _ => ?_
  exact keeps_ite (keeps_fail _) (keeps_ite (keeps_fail _) (L.steps.pure _))

theorem declareNames (c : ClassId) (byName : Bool) (names : Table Shape) :
    Keeps Inv (declareNames c byName names) := by
  induction names with
  | nil => exact L.steps.pure _
  | cons e rest ih =>
    exact keeps_bind (L.declareField c byName e.1 e.2) fun _ =>
      keeps_bind ih fun _ => L.steps.pure _

theorem settleMember (c : ClassId) (name : String) : Keeps Inv (settleMember c name) := by
  intro g hg
  have hmembers : ∀ members : Table Binding → Table Binding,
      Inv (g.updateClass c fun i => { i with members := members i.members }) :=
    fun members => L.updated hg c (fun _ => rfl) fun _ => rfl
  unfold ShapeGrammar.settleMember
  rw [stateAfter_get_bind]
  split
  · split
    · exact hmembers (Table.put · name _)
    · split
      · exact hmembers (Table.erase · name)
      · exact keeps_fail _ g hg
  · exact L.steps.pure _ g hg

theorem settleMembers (c : ClassId) (names : Table FieldId) :
    Keeps Inv (settleMembers c names) := by
  induction names with
  | nil => exact L.steps.pure _
  | cons e rest ih => exact keeps_bind (L.settleMember c e.1) fun _ => ih

/-- To give a class its fields, and then its constructor if there is a possible one. -/
theorem makeRecord (c : ClassId) (byName : Bool) : Keeps Inv (makeRecord c byName) := by
  have hrecord : ∀ layout, Keeps Inv (modify (·.updateClass c fun i =>
      { i with record := layout }) : Resolution Unit) :=
    fun layout _ hg => L.updated hg c (fun _ => rfl) fun _ => rfl
  have hfields : ∀ own, Keeps Inv (do
      let fields := Table.putAll ((← get).inheritedFields c) own
      modify (·.updateClass c fun i => { i with record := some ⟨fields, none⟩ })
      let parameters := (← get).parametersOf fields
      if defaultsLast (positional parameters) then
        let parts := (← get).instanceFields fields
        modify (·.updateClass c fun i =>
          { i with record := some ⟨fields, some ⟨parameters, parts⟩⟩ })
        let g ← get
        if !(g.classInfo c).documented then liftStop (g.showParameters parameters)
      else fail (.type (.other "a parameter without a default follows one with a default")) :
      Resolution Unit) := by
    intro own
    refine keeps_get fun g => keeps_bind (hrecord _) fun _ => keeps_get fun g =>
      keeps_ite ?_ (keeps_fail _)
    exact keeps_get fun g => keeps_bind (hrecord _) fun _ => keeps_get fun g =>
      keeps_ite (keeps_liftStop _) (L.steps.pure _)
  refine keeps_get fun g => keeps_bind (L.declareNames c byName _) fun own =>
    keeps_bind (L.settleMembers c own) fun _ => keeps_get fun g => ?_
  split
  · exact keeps_bind (keeps_fail _) fun _ => hfields own
  · exact hfields own

theorem ensureRecord (c : ClassRef) : Keeps Inv (ensureRecord c) := by
  refine keeps_get fun g => ?_
  split
  · cases c with
    | declared d => exact L.makeRecord d false
    | _ => exact keeps_fail _
  · exact L.steps.pure _

theorem ensureRecords (vs : List (String × ClassRef)) : Keeps Inv (ensureRecords vs) := by
  induction vs with
  | nil => exact L.steps.pure _
  | cons v vs ih => exact keeps_bind (L.ensureRecord v.2) fun _ => ih

/-! ## Classes -/

variable {r : Resolver} (hr : r.Answers (Keeps Inv))

include hr in
theorem declareFields (fs : List FieldDecl) : Keeps Inv (declareFields r fs) := by
  induction fs with
  | nil => exact L.steps.pure _
  | cons f fs ih =>
    exact keeps_bind (L.steps.evaluateShape hr true f.shape) fun _ =>
      keeps_bind ih fun _ => L.steps.pure _

theorem declareOptions (fs : List FieldDecl) : Keeps Inv (declareOptions fs) := by
  induction fs with
  | nil => exact L.steps.pure _
  | cons f fs ih =>
    unfold ShapeGrammar.declareOptions
    split
    · exact ih
    · exact keeps_bind (L.addField _) fun _ => keeps_bind ih fun _ => L.steps.pure _

theorem lookupAll (ps : List Path) : Keeps Inv (lookupAll ps) := by
  induction ps with
  | nil => exact L.steps.pure _
  | cons p ps ih =>
    exact keeps_get fun g => keeps_bind (keeps_lift _) fun _ =>
      keeps_bind ih fun _ => L.steps.pure _

theorem addClass {info : ClassId → ClassInfo} (hinfo : ∀ c, (info c).plan = none) :
    Keeps Inv (addClass info) :=
  fun g hg => L.frame hg (.pushClass g (hinfo _))

include hr

-- the two halves of the mutual block use different ones of the shared assumptions
set_option linter.unusedSectionVars false

mutual

theorem declareClass (outer : Option String) :
    ∀ decl, Keeps Inv (declareClass r outer decl)
  | .mk name documented fields bases record isSum variants => by
    unfold ShapeGrammar.declareClass
    cases bases
    all_goals
      -- whether the bases are named or not, the rest is the same
      first
        | refine keeps_bind (L.lookupAll _) fun above => ?_
        | refine keeps_bind (L.steps.pure _) fun above => ?_
      refine keeps_bind (L.declareFields hr fields) fun shapes =>
        keeps_bind (declareVariants _ variants) fun nested =>
        keeps_bind (keeps_lift _) fun ancestors => keeps_get fun g => ?_
      split
      · exact keeps_fail _
      · refine keeps_bind (L.declareOptions fields) fun options =>
          keeps_bind (L.addClass fun _ => rfl) fun c => ?_
        dsimp only
        split
        · exact keeps_bind (L.makeRecord _ _) fun _ => L.steps.pure _
        · exact L.steps.pure _

theorem declareVariants (outer : String) :
    ∀ vs, Keeps Inv (declareVariants r outer vs)
  | [] => L.steps.pure _
  | .nested decl :: rest =>
    keeps_bind (declareClass (some outer) decl) fun _ =>
      keeps_bind (declareVariants outer rest) fun _ => L.steps.pure _
  | .reference _ _ :: rest =>
    keeps_get fun _ => keeps_bind (keeps_lift _) fun _ =>
      keeps_bind (declareVariants outer rest) fun _ => L.steps.pure _
  | .constant _ _ :: rest =>
    keeps_bind (declareVariants outer rest) fun _ => L.steps.pure _

end

omit hr in
theorem derive (c : ClassRef) (location : String) : Keeps Inv (derive c location) := by
  refine keeps_get fun g => keeps_ite (keeps_ite ?failing ?sum) ?product
  case' failing =>
    refine keeps_bind (keeps_fail _) fun _ => keeps_bind (L.ensureRecords _) fun _ => ?_
  case' sum => refine keeps_bind (L.ensureRecords _) fun _ => ?_
  case' product => refine keeps_bind (L.ensureRecord c) fun _ => ?_
  -- each way ends with a note of where the class was derived
  all_goals
    cases c with
    | declared d => exact fun _ hg => L.updated hg d (fun _ => rfl) fun _ => rfl
    | _ => exact L.steps.pure _

theorem declare (number : Nat) : ∀ d, Keeps Inv (declare r number d)
  | .alias name value =>
    keeps_bind (fun g hg => L.frame hg (.pushAlias g rfl rfl)) fun _ =>
      L.changed fun _ => ⟨rfl, rfl, rfl, rfl⟩
  | .parser name value =>
    keeps_bind (L.steps.buildParser hr value) fun _ =>
      L.changed fun _ => ⟨rfl, rfl, rfl, rfl⟩
  | .cls decl derived => by
    refine keeps_bind (L.declareClass hr none decl) fun c => keeps_ite ?_ ?_
    · exact keeps_bind (L.derive c _) fun _ =>
        L.changed fun _ => ⟨rfl, rfl, rfl, rfl⟩
    · exact L.changed fun _ => ⟨rfl, rfl, rfl, rfl⟩


end DeclarationLaw

/-! ## Error kinds and orders -/

/-- What is known without an error kind tells whether a grammar is candid. -/
theorem candid_declarations : DeclarationLaw Grammar.Candid where
  steps := candid_steps
  frame {g g'} hg h := hg.retained h.retains fun {b kind} hb => by
    unfold Grammar.boxInfo at hb ⊢
    rwa [h.boxes] at hb

theorem plansOrdered_declarations : DeclarationLaw Grammar.PlansOrdered where
  steps := keeps_steps (fun _ hg => hg) (fun _ hg => hg) (fun _ hg => hg) fun _ hg => hg
  frame hg h := fun {_ _} hc => hg ((h.plan _).symm.trans hc)

theorem plansOrdered_answers (k : Nat) : (resolver k).Answers (Keeps Grammar.PlansOrdered) where
  planOf c g hg := ((resolver_grows k).planOf c g).plansOrdered hg
  aliasParser expanding a g hg := ((resolver_grows k).aliasParser expanding a g).plansOrdered hg
  boxErrorKind b g hg := ((resolver_grows k).boxErrorKind b g).plansOrdered hg

/-- **A declaration leaves a candid grammar candid**, even if it stops. -/
theorem declare_candid (k number : Nat) (d : Declaration) :
    Keeps Grammar.Candid (declare (resolver k) number d) :=
  candid_declarations.declare (candid_law.answers k) number d

end ShapeGrammar
