import ShapeGrammar.Proofs.Inhabitation.Parses
import ShapeGrammar.Proofs.Inhabitation.Stored

/-!
# Premises that can be computed

A grammar about which nothing was found out has nothing that could contradict its declarations. If
its classes have only fields in whose shapes no alias and no written parser stands, and all of them
are up to date, then so is everything that such a shape leads to.

Headlines: `Grammar.consistent_of_unknown`, `Shape.isOfClasses`, `Grammar.plain_of_classes`,
`Grammar.upToDate_of_classes`.
-/

namespace ShapeGrammar

namespace Grammar

variable {g : Grammar}

/-! ## Nothing found out -/

theorem forall_getD {α : Type} {P : α → Prop} {xs : Array α} (h : ∀ x ∈ xs, P x) {x : α} (hx : P x)
    (i : Nat) : P (xs.getD i x) := by
  by_cases hi : i < xs.size
  · rw [Array.getD_eq_getD_getElem?, Array.getElem?_eq_getElem hi]
    exact h _ (Array.getElem_mem hi)
  · rw [Array.getD_eq_getD_getElem?, Array.getElem?_eq_none (Nat.le_of_not_lt hi)]
    exact hx

/-- **In the beginning, what is known fits the declarations**, since nothing is known. -/
theorem consistent_of_unknown (hclasses : ∀ i ∈ g.classes, i.plan.isNone = true)
    (haliases : ∀ i ∈ g.aliases, i.value.isNone = true ∧ i.parser.isNone = true)
    (hboxes : ∀ i ∈ g.boxes, i.parser.isNone = true) : g.Consistent where
  value {a body} h := by
    have hnone := (forall_getD haliases (x := default) ⟨rfl, rfl⟩ a).1
    unfold aliasInfo at h
    rw [h] at hnone
    cases hnone
  handle {a body} h := by
    have hnone := (forall_getD haliases (x := default) ⟨rfl, rfl⟩ a).2
    unfold aliasInfo at h
    rw [h] at hnone
    cases hnone
  box {b p body} h _ := by
    have hnone := forall_getD hboxes (x := default) rfl b
    unfold boxInfo at h
    rw [h] at hnone
    cases hnone
  plan {c plan} h := by
    have hnone := forall_getD hclasses (x := default) rfl c
    unfold classInfo at h
    rw [h] at hnone
    cases hnone

end Grammar

/-! ## Shapes of classes -/

mutual

/-- Whether no alias and no written parser stands in a shape. -/
def Shape.isOfClasses : Shape → Bool
  | .parser _ => false
  | .alias _ => false
  | .annotated body notes => (Shape.notedParser? notes).isNone && body.isOfClasses
  | .tuple items => Shape.areOfClasses items
  | .union members => Shape.areOfClasses members
  | .list item => item.isOfClasses
  | .nonempty item => item.isOfClasses
  | .not body => body.isOfClasses
  | .box body => body.isOfClasses
  | .either left right => left.isOfClasses && right.isOfClasses
  | _ => true

/-- Whether no alias and no written parser stands in any of some shapes. -/
def Shape.areOfClasses : List Shape → Bool
  | [] => true
  | a :: as => a.isOfClasses && Shape.areOfClasses as

end

namespace Grammar

variable {g : Grammar}

theorem isOfClasses_of_mem {as : List Shape} (h : Shape.areOfClasses as = true) :
    ∀ a ∈ as, a.isOfClasses = true := by
  induction as with
  | nil => exact fun _ ha => by cases ha
  | cons a as ih =>
    unfold Shape.areOfClasses at h
    obtain ⟨hfirst, hrest⟩ := Bool.and_eq_true_iff.mp h
    exact List.forall_mem_cons.mpr ⟨hfirst, ih hrest⟩

theorem isRaw_of_isOfClasses {a : Shape} (h : a.isOfClasses = true) : a.isRaw = false := by
  cases a with
  | parser _ => cases h
  | annotated body notes =>
    unfold Shape.isOfClasses at h
    have hnone := (Bool.and_eq_true_iff.mp h).1
    simpa [Shape.isRaw] using hnone
  | _ => rfl

instance (g : Grammar) (c : ClassRef) : Decidable (g.Current c) :=
  inferInstanceAs (Decidable (∀ r ∈ g.record? c, (Table.names r.fields).Nodup ∧
    ∃ k ∈ g.constructor? c, signature k.parameters = signature (g.parametersOf r.fields)))

/-- Whether a form is up to date, and the shapes of its fields are of classes. -/
def isFormOfClasses (g : Grammar) (form : ClassRef × List SchemaField) : Bool :=
  decide (g.Current form.1) && form.2.all (·.shape.isOfClasses)

/-- Whether this is so of all forms of a class. -/
def isClassOfClasses (g : Grammar) (c : ClassId) : Bool :=
  match g.schemaOf (.declared c) with
  | .ok schema => schema.forms.all g.isFormOfClasses
  | .error _ => true

/-- Whether this is so of all classes. -/
def isOfClasses (g : Grammar) : Bool :=
  (List.range g.classes.size).all g.isClassOfClasses

/-- A class that was never declared has no ancestors. -/
theorem ancestry_of_size_le {c : ClassId} (h : g.classes.size ≤ c) :
    g.ancestry (.declared c) = [] := by
  show (g.classInfo c).ancestry = []
  rw [g.classInfo_of_size_le h]
  rfl

theorem form_of_classes (hg : g.isOfClasses = true) {c : ClassId} {schema : Schema}
    (hschema : g.schemaOf (.declared c) = .ok schema) {form : ClassRef × List SchemaField}
    (hform : form ∈ schema.forms) : g.isFormOfClasses form = true := by
  by_cases hc : c < g.classes.size
  · have hclass := List.all_eq_true.mp hg c (List.mem_range.mpr hc)
    unfold isClassOfClasses at hclass
    rw [hschema] at hclass
    exact List.all_eq_true.mp hclass form hform
  · have hancestry := ancestry_of_size_le (Nat.le_of_not_lt hc)
    have hrecord : g.record? (.declared c) = none := by
      unfold Grammar.record?
      rw [hancestry]
      rfl
    obtain ⟨variants, rfl, hsum, -⟩ | ⟨fields, rfl, hfields⟩ := schemaOf_eq_ok hschema
    · unfold isSum at hsum
      rw [hancestry] at hsum
      cases hsum
    · cases List.mem_singleton.mp hform
      obtain rfl := fieldsOf_of_not_record hfields hrecord
      have hcurrent : g.Current (.declared c) := by
        intro r hr
        rw [hrecord] at hr
        cases hr
      simp [isFormOfClasses, hcurrent]

/-- Where all classes are of classes, what leads out of such a shape leads to one. -/
theorem isOfClasses_part (hg : g.isOfClasses = true) {a b : Shape} (ha : a.isOfClasses = true)
    (h : g.HasPart a b) : b.isOfClasses = true := by
  cases h with
  | stands stands =>
    cases stands with
    | value value => cases ha
    | annotated =>
      unfold Shape.isOfClasses at ha
      exact (Bool.and_eq_true_iff.mp ha).2
  | item mem =>
    unfold Shape.isOfClasses at ha
    exact isOfClasses_of_mem ha _ mem
  | member mem =>
    unfold Shape.isOfClasses at ha
    exact isOfClasses_of_mem ha _ mem
  | list => exact ha
  | nonempty => exact ha
  | left =>
    unfold Shape.isOfClasses at ha
    exact (Bool.and_eq_true_iff.mp ha).1
  | right =>
    unfold Shape.isOfClasses at ha
    exact (Bool.and_eq_true_iff.mp ha).2
  | not => exact ha
  | box => exact ha
  | field declared form_mem mem =>
    have hform := form_of_classes hg declared form_mem
    unfold isFormOfClasses at hform
    exact List.all_eq_true.mp (Bool.and_eq_true_iff.mp hform).2 _ mem

theorem throughout_of_classes (hg : g.isOfClasses = true) {a : Shape} (ha : a.isOfClasses = true) :
    g.Throughout (fun b => b.isOfClasses = true) a := by
  intro b hb
  induction hb with
  | refl => exact ha
  | tail _ hpart ih => exact isOfClasses_part hg ih hpart

theorem plain_of_classes (hg : g.isOfClasses = true) {a : Shape} (ha : a.isOfClasses = true) :
    g.Plain a :=
  fun b hb => isRaw_of_isOfClasses (throughout_of_classes hg ha b hb)

theorem upToDate_of_classes (hg : g.isOfClasses = true) (a : Shape) : g.UpToDate a := by
  rintro b - c schema rfl hschema form hform
  have hchecked := form_of_classes hg hschema hform
  unfold isFormOfClasses at hchecked
  exact of_decide_eq_true (Bool.and_eq_true_iff.mp hchecked).1

end Grammar

end ShapeGrammar
