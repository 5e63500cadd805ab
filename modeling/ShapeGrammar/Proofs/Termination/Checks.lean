import ShapeGrammar.Proofs.Inhabitation.Checks
import ShapeGrammar.Proofs.Termination.Kinds

/-!
# Skeletons that are checked

Whether a table gives the classes of a grammar their skeletons, for a grammar about which nothing
was found out yet and in whose fields no alias and no written parser stands. The classes have to be
up to date: what a class is constructed from is what its fields are declared as.

Headlines: `Grammar.accepts_of_current`, `Skeletons.ofTable`, `Skeletons.describes_of_checks`.
-/

namespace ShapeGrammar

variable {g : Grammar}

/-! ## Construction -/

/-- **A class that is up to date is constructed from as many values as it has fields.** -/
theorem Grammar.accepts_of_current {c : ClassId} (h : g.Current (.declared c)) {location : String}
    {fs : List SchemaField} (hfs : g.fieldsOf (.declared c) location = .ok fs) :
    g.Accepts (.declared c) fs.length := by
  intro vs hlength
  cases hr : g.record? (.declared c) with
  | some r =>
    have hcount : vs.length = (fs.map (·.name)).length := by rw [hlength, List.length_map]
    obtain ⟨type, values, hbuilt, -⟩ := (fieldsOf_stores h hfs hr).construct hcount
    exact ⟨_, hbuilt⟩
  | none =>
    obtain rfl := fieldsOf_of_not_record hfs hr
    obtain rfl := List.length_eq_zero_iff.mp hlength
    unfold Grammar.construct
    rw [constructor?_of_not_record hr]
    exact ⟨_, rfl⟩

/-! ## Tables -/

/-- The skeletons in a table. -/
def Skeletons.ofTable (table : List (ClassId × Skeleton)) : Skeletons where
  ofClass c := table.lookup c
  raises _ := False
  depth := 0

namespace Skeletons

variable {S : Skeletons}

mutual

/-- The skeleton of a shape of classes. -/
def ofShape (S : Skeletons) (g : Grammar) : Shape → Option Skeleton
  | .cls (.declared c) =>
    if (g.classInfo c).derivedAt.isSome && (S.ofClass c).isSome then some (.cls c) else none
  | .cls (.character _) => some (.within .leaf)
  | .cls (.builtin .text) => some .leaf
  | .annotated a notes =>
    match Shape.notedParser? notes with
    | some _ => none
    | none => ofShape S g a
  | .tuple as => if openEnded as then none else .row <$> ofShapes S g as
  | .list a => .optional <$> ofShape S g a
  | .nonempty a => .within <$> ofShape S g a
  | .union [a, b] =>
    if a.isNothing then .optional <$> ofShape S g b
    else if b.isNothing then .optional <$> ofShape S g a
    else none
  | .either a b => do
    let x ← ofShape S g a
    let y ← ofShape S g b
    some (.choice x y)
  | .not a => .optional <$> ofShape S g a
  | .box a => .within <$> ofShape S g a
  | _ => none

/-- The skeleton of shapes of classes, one after the other. -/
def ofShapes (S : Skeletons) (g : Grammar) : List Shape → Option Skeleton
  | [] => some .nil
  | a :: as => do
    let x ← ofShape S g a
    let y ← ofShapes S g as
    some (.cons x y)

end

/-- The skeleton of the fields of a class, where as many values make an instance. -/
def ofForm (S : Skeletons) (g : Grammar) (target : ClassRef) (fs : List SchemaField) :
    Option Skeleton :=
  match target with
  | .declared c =>
    if decide (g.Current (.declared c)) then ofShapes S g (fs.map (·.shape)) else none
  | _ => none

/-- The skeleton of variants, one or else the other. -/
def ofVariants (S : Skeletons) (g : Grammar) : List Variant → Option Skeleton
  | [] => none
  | [v] => ofForm S g v.target v.fields
  | v :: w :: vs => do
    let x ← ofForm S g v.target v.fields
    let y ← ofVariants S g (w :: vs)
    some (.choice x y)

/-- The skeleton of a class that was not planned yet. -/
def ofPlan (S : Skeletons) (g : Grammar) (c : ClassId) : Option Skeleton :=
  if g.classes.size ≤ c || (g.classInfo c).plan.isSome then none
  else
    match g.schemaOf (.declared c) with
    | .ok (.product target fs) => ofForm S g target fs
    | .ok (.sum _ vs) => ofVariants S g (reachable vs).1
    | .error _ => none

mutual

theorem hasSkeleton_of_ofShape : ∀ {a : Shape} {x : Skeleton} {d : Nat}, S.ofShape g a = some x →
    HasSkeleton S g g (.shape d a) x
  | .cls (.declared c), x, d, h => by
    unfold ofShape at h
    split at h
    · rename_i hc
      cases h
      exact .declaredClass (Bool.and_eq_true_iff.mp hc).1 (Bool.and_eq_true_iff.mp hc).2
    · cases h
  | .cls (.character c), x, d, h => by
    cases h
    exact .characterClass
  | .cls (.builtin b), x, d, h => by
    cases b <;> cases h
    exact .text
  | .annotated a notes, x, d, h => by
    unfold ofShape at h
    split at h
    · cases h
    · exact .unnoted ‹_› (hasSkeleton_of_ofShape h)
  | .tuple as, x, d, h => by
    unfold ofShape at h
    split at h
    · cases h
    · obtain ⟨y, hy, rfl⟩ := Option.map_eq_some_iff.mp h
      exact .tuple (Bool.eq_false_iff.mpr ‹_›) (hasSkeleton_of_ofShapes hy)
  | .list a, x, d, h => by
    obtain ⟨y, hy, rfl⟩ := Option.map_eq_some_iff.mp h
    exact .list (hasSkeleton_of_ofShape hy)
  | .nonempty a, x, d, h => by
    obtain ⟨y, hy, rfl⟩ := Option.map_eq_some_iff.mp h
    exact .nonempty (hasSkeleton_of_ofShape hy)
  | .union [a, b], x, d, h => by
    unfold ofShape at h
    split at h
    · obtain ⟨y, hy, rfl⟩ := Option.map_eq_some_iff.mp h
      exact .optionalRight ‹_› (hasSkeleton_of_ofShape hy)
    · rename_i ha
      split at h
      · obtain ⟨y, hy, rfl⟩ := Option.map_eq_some_iff.mp h
        exact .optionalLeft (Bool.eq_false_iff.mpr ha) ‹_› (hasSkeleton_of_ofShape hy)
      · cases h
  | .union [], x, d, h => nomatch h
  | .union [_], x, d, h => nomatch h
  | .union (_ :: _ :: _ :: _), x, d, h => nomatch h
  | .either a b, x, d, h => by
    obtain ⟨y, hy, h⟩ := Option.bind_eq_some_iff.mp h
    obtain ⟨z, hz, h⟩ := Option.bind_eq_some_iff.mp h
    cases h
    exact .eitherShape (hasSkeleton_of_ofShape hy) (hasSkeleton_of_ofShape hz)
  | .not a, x, d, h => by
    obtain ⟨y, hy, rfl⟩ := Option.map_eq_some_iff.mp h
    exact .notShape (hasSkeleton_of_ofShape hy)
  | .box a, x, d, h => by
    obtain ⟨y, hy, rfl⟩ := Option.map_eq_some_iff.mp h
    exact .boxShape (hasSkeleton_of_ofShape hy)
  | .alias _, x, d, h => nomatch h
  | .parser _, x, d, h => nomatch h
  | .nothing, x, d, h => nomatch h
  | .ellipsis, x, d, h => nomatch h
  | .constant _, x, d, h => nomatch h
  | .foreign _, x, d, h => nomatch h
  | .forward _, x, d, h => nomatch h
  | .mapping _ _, x, d, h => nomatch h
  | .shared _, x, d, h => nomatch h
  | .parameterOnly _, x, d, h => nomatch h

theorem hasSkeleton_of_ofShapes : ∀ {as : List Shape} {x : Skeleton} {d : Nat},
    S.ofShapes g as = some x → HasSkeleton S g g (.shapes d as) x
  | [], x, d, h => by
    cases h
    exact .noShapes
  | a :: as, x, d, h => by
    obtain ⟨y, hy, h⟩ := Option.bind_eq_some_iff.mp h
    obtain ⟨z, hz, h⟩ := Option.bind_eq_some_iff.mp h
    cases h
    exact .shapes (hasSkeleton_of_ofShape hy) (hasSkeleton_of_ofShapes hz)

end

/-- Fields are parsed as their shapes are, one after the other. -/
theorem hasSkeleton_fields : ∀ {fs : List SchemaField} {x : Skeleton},
    HasSkeleton S g g (.shapes S.depth (fs.map (·.shape))) x → HasSkeleton S g g (.fields fs) x
  | [], x, h => by
    cases h with
    | noShapes => exact .noFields
  | f :: fs, x, h => by
    cases h with
    | shapes hf hfs => exact .field hf (hasSkeleton_fields hfs)

theorem form_of_ofForm {target : ClassRef} {fs : List SchemaField} {x : Skeleton}
    {location : String} (hfs : g.fieldsOf target location = .ok fs)
    (h : S.ofForm g target fs = some x) :
    g.Accepts target fs.length ∧ HasSkeleton S g g (.fields fs) x := by
  unfold ofForm at h
  split at h
  · split at h
    · rename_i hcurrent
      exact ⟨Grammar.accepts_of_current (of_decide_eq_true hcurrent) hfs,
        hasSkeleton_fields (hasSkeleton_of_ofShapes h)⟩
    · cases h
  · cases h

theorem hasSkeleton_of_ofVariants {location : String} : ∀ {vs : List Variant} {x : Skeleton},
    (∀ v ∈ vs, g.fieldsOf v.target location = .ok v.fields) → S.ofVariants g vs = some x →
    HasSkeleton S g g (.variants vs) x
  | [v], x, hvs, h => by
    obtain ⟨haccepts, hx⟩ := form_of_ofForm (hvs v List.mem_cons_self) h
    exact .lastVariant haccepts hx
  | v :: w :: vs, x, hvs, h => by
    obtain ⟨y, hy, h⟩ := Option.bind_eq_some_iff.mp h
    obtain ⟨z, hz, h⟩ := Option.bind_eq_some_iff.mp h
    cases h
    obtain ⟨haccepts, hx⟩ := form_of_ofForm (hvs v List.mem_cons_self) hy
    exact .nextVariant haccepts hx
      (hasSkeleton_of_ofVariants (fun v hv => hvs v (List.mem_cons_of_mem _ hv)) hz)

/-- **What is computed from the schema of a class is its skeleton.** -/
theorem hasSkeleton_of_ofPlan {c : ClassId} {x : Skeleton} (h : S.ofPlan g c = some x) :
    HasSkeleton S g g (.plan c) x := by
  unfold ofPlan at h
  split at h
  · cases h
  · rename_i hnew
    simp only [Bool.or_eq_true, decide_eq_true_eq, not_or, Nat.not_le, Bool.not_eq_true,
      Option.isSome_eq_false_iff, Option.isNone_iff_eq_none] at hnew
    split at h
    · rename_i target fs hschema
      obtain ⟨_, heq, _⟩ | ⟨fields, heq, hfields⟩ := Grammar.schemaOf_eq_ok hschema <;> cases heq
      obtain ⟨haccepts, hx⟩ := form_of_ofForm hfields h
      exact .product hnew.1 hnew.2 hschema haccepts hx
    · rename_i target vs hschema
      obtain ⟨_, heq, _, hvs⟩ | ⟨fields, heq, hfields⟩ := Grammar.schemaOf_eq_ok hschema <;>
        cases heq
      have hall : ∀ v ∈ (reachable vs).1,
          g.fieldsOf v.target (g.location (.declared c)) = .ok v.fields :=
        fun v hv => (hvs v (Grammar.reachable_subset hv)).2
      exact .sum hnew.1 hnew.2 hschema (hasSkeleton_of_ofVariants hall h)
    · cases h

/-- Whether every class in a table has the skeleton that its schema gives. -/
def checks (table : List (ClassId × Skeleton)) (g : Grammar) : Bool :=
  table.all fun e => (ofTable table).ofPlan g e.1 == some e.2

theorem mem_of_ofTable {table : List (ClassId × Skeleton)} {c : ClassId} {x : Skeleton}
    (h : (ofTable table).ofClass c = some x) : (c, x) ∈ table := by
  have hlookup : table.lookup c = some x := h
  obtain ⟨before, after, rfl, -⟩ := List.lookup_eq_some_iff.mp hlookup
  simp

/-- **A table that passes the check gives the classes their skeletons.** -/
theorem describes_of_checks {table : List (ClassId × Skeleton)} (h : checks table g = true) :
    (ofTable table).Describes g := fun hc =>
  hasSkeleton_of_ofPlan (beq_iff_eq.mp (List.all_eq_true.mp h _ (mem_of_ofTable hc)))

/-- Whether the ranks in a table fall along the left calls. -/
def ranks (table : List (ClassId × Skeleton)) (may : ClassId → Bool) (rank : ClassId → Nat) :
    Bool :=
  table.all fun e => (!nullable may e.2 || may e.1) && callsBelow may rank (rank e.1) e.2

theorem acyclic_of_ranks {table : List (ClassId × Skeleton)} {may : ClassId → Bool}
    {rank : ClassId → Nat} (h : ranks table may rank = true) : (ofTable table).Acyclic := by
  have hall : ∀ {c x}, (ofTable table).ofClass c = some x → _ :=
    fun hc => List.all_eq_true.mp h _ (mem_of_ofTable hc)
  have closed : ∀ {c a}, (ofTable table).ofClass c = some a → nullable may a → may c :=
    fun hc hnull => by simpa [hnull] using (Bool.and_eq_true_iff.mp (hall hc)).1
  have falls : ∀ {c a}, (ofTable table).ofClass c = some a → callsBelow may rank (rank c) a :=
    fun hc => (Bool.and_eq_true_iff.mp (hall hc)).2
  exact acyclic_of_rank closed falls

end Skeletons

end ShapeGrammar
