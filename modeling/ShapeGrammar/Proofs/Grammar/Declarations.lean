import ShapeGrammar.Grammar.Schema

/-!
# What declarations say

What a class is and what it declares, how its instances are made, and what a name stands for: none
of this depends on what has been found out about a grammar, or on what was reported. Two grammars
with the same declarations answer all of it alike.

Headlines: `Grammar.SameDeclarations`, `SameDeclarations.construct_eq`,
`SameDeclarations.lookup_eq`, `SameDeclarations.schemaOf_eq`.
-/

namespace ShapeGrammar

namespace Grammar

/-- Two grammars with the same names and fields, and with the same classes but for their plans. -/
structure SameDeclarations (g g' : Grammar) : Prop where
  classes : ∀ c, ∃ plan, g'.classInfo c = { g.classInfo c with plan := plan }
  classCount : g'.classes.size = g.classes.size
  fields : g'.fields = g.fields
  names : g'.names = g.names

theorem SameDeclarations.refl (g : Grammar) : g.SameDeclarations g where
  classes c := ⟨(g.classInfo c).plan, rfl⟩
  classCount := rfl
  fields := rfl
  names := rfl

theorem SameDeclarations.symm {g g' : Grammar} (h : g.SameDeclarations g') :
    g'.SameDeclarations g where
  classes c := by
    obtain ⟨plan, hc⟩ := h.classes c
    exact ⟨(g.classInfo c).plan, by rw [hc]⟩
  classCount := h.classCount.symm
  fields := h.fields.symm
  names := h.names.symm

theorem SameDeclarations.trans {g g' g'' : Grammar} (h : g.SameDeclarations g')
    (h' : g'.SameDeclarations g'') : g.SameDeclarations g'' where
  classes c := by
    obtain ⟨plan, hc⟩ := h.classes c
    obtain ⟨plan', hc'⟩ := h'.classes c
    exact ⟨plan', by rw [hc', hc]⟩
  classCount := h'.classCount.trans h.classCount
  fields := h'.fields.trans h.fields
  names := h'.names.trans h.names

/-- What is being found out is no declaration. -/
theorem sameDeclarations_marked (g : Grammar) (marks : List Pending) :
    g.SameDeclarations { g with pending := marks } where
  classes c := ⟨(g.classInfo c).plan, rfl⟩
  classCount := rfl
  fields := rfl
  names := rfl

namespace SameDeclarations

variable {g g' : Grammar} (h : g.SameDeclarations g')
include h

/-! ## Classes -/

theorem ancestry_eq (c : ClassRef) : g'.ancestry c = g.ancestry c := by
  cases c with
  | declared d =>
    obtain ⟨plan, hd⟩ := h.classes d
    unfold ancestry
    simp only [hd]
  | character c => rfl
  | builtin b => rfl

theorem ownMembers_eq (c : ClassRef) : g'.ownMembers c = g.ownMembers c := by
  cases c with
  | declared d =>
    obtain ⟨plan, hd⟩ := h.classes d
    unfold ownMembers
    simp only [hd]
  | character c => rfl
  | builtin b => rfl

theorem className_eq (c : ClassRef) : g'.className c = g.className c := by
  cases c with
  | declared d =>
    obtain ⟨plan, hd⟩ := h.classes d
    unfold className
    simp only [hd]
  | character c => rfl
  | builtin b => rfl

theorem location_eq (c : ClassRef) : g'.location c = g.location c := by
  cases c with
  | declared d =>
    obtain ⟨plan, hd⟩ := h.classes d
    unfold location
    simp only [hd]
  | character c => rfl
  | builtin b => rfl

theorem isSum_eq (c : ClassRef) : g'.isSum c = g.isSum c := by
  unfold isSum
  rw [h.ancestry_eq]

theorem variantClasses_eq (c : ClassRef) : g'.variantClasses c = g.variantClasses c := by
  unfold variantClasses
  rw [h.ownMembers_eq]

theorem member?_eq (c : ClassRef) (name : String) : g'.member? c name = g.member? c name := by
  unfold member?
  simp only [h.ancestry_eq, h.ownMembers_eq]

theorem fieldEntry_eq (f : FieldId) : g'.fieldEntry f = g.fieldEntry f := by
  unfold fieldEntry
  rw [h.fields]

/-! ## Records -/

theorem record?_eq (c : ClassRef) : g'.record? c = g.record? c := by
  unfold record?
  rw [h.ancestry_eq c]
  congr 1
  funext a
  cases a with
  | declared d =>
    obtain ⟨plan, hd⟩ := h.classes d
    simp only [hd]
  | character c => rfl
  | builtin b => rfl

theorem constructor?_eq (c : ClassRef) : g'.constructor? c = g.constructor? c := by
  unfold constructor?
  rw [h.ancestry_eq c]
  congr 1
  funext a
  cases a with
  | declared d =>
    obtain ⟨plan, hd⟩ := h.classes d
    simp only [hd]
  | character c => rfl
  | builtin b => rfl

theorem instanceOf_eq (c : ClassId) (bound : Table Value) :
    g'.instanceOf c bound = g.instanceOf c bound := by
  obtain ⟨plan, hc⟩ := h.classes c
  have hfields : ∀ fields, g'.instanceFields fields = g.instanceFields fields := by
    intro fields
    unfold instanceFields
    simp only [h.fieldEntry_eq]
  have hvalue : ∀ d name, g'.fieldValue? d bound name = g.fieldValue? d bound name := by
    intro d name
    unfold fieldValue?
    rw [h.member?_eq d name]
  unfold instanceOf
  simp only [h.record?_eq, h.constructor?_eq, hfields, hvalue, hc]

/-- An instance does not depend on what else was found out. -/
theorem construct_eq (target : ClassRef) (arguments : List Value) :
    g'.construct target arguments = g.construct target arguments := by
  cases target with
  | declared c =>
    unfold construct
    dsimp only
    rw [h.constructor?_eq]
    simp only [h.instanceOf_eq]
  | character c => cases arguments <;> rfl
  | builtin b => cases b <;> cases arguments <;> rfl

/-! ## Names -/

theorem members?_eq (path : List String) : ∀ b, g'.members? b path = g.members? b path := by
  induction path with
  | nil =>
    intro b
    cases b <;> rfl
  | cons name rest ih =>
    intro b
    cases b with
    | cls c =>
      rw [members?, members?, h.member?_eq, h.className_eq]
      cases g.member? c name with
      | some b => exact ih b
      | none => rfl
    | _ => rfl

theorem lookup_eq (path : Path) : g'.lookup path = g.lookup path := by
  unfold lookup
  rw [h.names]
  cases g.names.get? path.head with
  | some b => exact h.members?_eq path.members b
  | none => rfl

theorem lookupInside_eq (c : ClassId) (path : Path) :
    g'.lookupInside c path = g.lookupInside c path := by
  obtain ⟨plan, hc⟩ := h.classes c
  unfold lookupInside
  simp only [h.members?_eq, h.names, hc]

theorem bindingCount_eq : g'.bindingCount = g.bindingCount := by
  have hmembers : g'.classes.map (·.members.length) = g.classes.map (·.members.length) := by
    refine Array.ext (by simp [h.classCount]) fun i hi hi' => ?_
    simp only [Array.size_map] at hi hi'
    obtain ⟨plan, hi''⟩ := h.classes i
    simp only [classInfo, Array.getD_eq_getD_getElem?, Array.getElem?_eq_getElem hi,
      Array.getElem?_eq_getElem hi', Option.getD_some] at hi''
    simp [hi'']
  have hcount : ∀ k : Grammar, k.bindingCount =
      (k.classes.map (·.members.length)).foldl (· + ·) k.names.length := by
    intro k
    unfold bindingCount
    rw [Array.foldl_map]
  rw [hcount, hcount, hmembers, h.names]

theorem follow_eq (c : ClassId) (n : Nat) : ∀ met path,
    g'.follow c n met path = g.follow c n met path := by
  induction n with
  | zero =>
    intro met path
    rfl
  | succ n ih =>
    intro met path
    unfold follow
    simp only [h.lookupInside_eq, ih]

theorem fieldReference_eq (c : ClassId) : g'.fieldReference c = g.fieldReference c := by
  funext path
  unfold fieldReference
  rw [h.bindingCount_eq]
  exact h.follow_eq c _ [] path

/-! ## Schemas -/

theorem ownShapes_eq (found : Table Shape) (c : ClassId) :
    g'.ownShapes found c = g.ownShapes found c := by
  obtain ⟨plan, hc⟩ := h.classes c
  unfold ownShapes
  simp only [h.fieldReference_eq, hc]

theorem shapesOf_eq (c : ClassRef) : g'.shapesOf c = g.shapesOf c := by
  unfold shapesOf
  simp only [h.ancestry_eq, h.ownShapes_eq]

theorem declaredShapes_eq (c : ClassRef) : g'.declaredShapes c = g.declaredShapes c := by
  cases c with
  | declared d =>
    obtain ⟨plan, hd⟩ := h.classes d
    unfold declaredShapes
    simp only [hd]
  | character c => rfl
  | builtin b => rfl

theorem schemaFields_eq (name location : String) (shapes : Table Shape) :
    ∀ fields, g'.schemaFields name location shapes fields =
      g.schemaFields name location shapes fields := by
  intro fields
  induction fields with
  | nil => rfl
  | cons e rest ih =>
    obtain ⟨field, f⟩ := e
    unfold schemaFields
    rw [ih, h.fieldEntry_eq]

theorem fieldsOf_eq (c : ClassRef) (location : String) :
    g'.fieldsOf c location = g.fieldsOf c location := by
  unfold fieldsOf extraParameters
  simp only [h.className_eq, h.record?_eq, h.declaredShapes_eq, h.shapesOf_eq, h.schemaFields_eq,
    h.constructor?_eq]

/-- **What a class declares does not depend on what was found out.** -/
theorem schemaOf_eq (c : ClassRef) : g'.schemaOf c = g.schemaOf c := by
  unfold schemaOf
  simp only [h.location_eq, h.isSum_eq, h.variantClasses_eq, h.fieldsOf_eq, h.className_eq]

end SameDeclarations

end Grammar

end ShapeGrammar
