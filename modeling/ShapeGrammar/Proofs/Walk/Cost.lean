import Mathlib.Algebra.Order.BigOperators.Group.Finset
import ShapeGrammar.Proofs.Resolution.Growth

/-!
# What it costs to find something out

To resolve a shape makes one delayed parser for every delayed part, and each of these has to be
opened in its turn. So the cost of a shape is the number of delayed parts in it, nested ones
included; that of an expression is the number of delayed parsers that it makes, and as much for
every name in it as a name may cost. An alias costs nothing where it is met: it is paid for as an
alias.

What a grammar declares is finite, so that there is a price that no name and no schema exceeds.

Headlines: `Shape.cost`, `ParserExpr.cost`, `Grammar.Priced`, `Grammar.exists_priced`.
-/

namespace ShapeGrammar

/-! ## Shapes -/

mutual

/-- How many delayed parsers come from a shape. -/
def Shape.cost : Shape → Nat
  | .list a => a.cost
  | .nonempty a => a.cost
  | .not a => a.cost
  | .box a => a.cost + 1
  | .either a b => a.cost + b.cost
  | .tuple as => Shape.costs as
  | .union as => Shape.costs as
  | .mapping a b => a.cost + b.cost
  | .annotated a _ => a.cost
  | .shared a => a.cost
  | .parameterOnly a => a.cost
  | _ => 0

/-- How many come from several shapes. -/
def Shape.costs : List Shape → Nat
  | [] => 0
  | a :: as => a.cost + Shape.costs as

end

namespace Shape

theorem costs_append (as bs : List Shape) : costs (as ++ bs) = costs as + costs bs := by
  induction as with
  | nil => simp [costs]
  | cons a as ih =>
    rw [List.cons_append, costs, costs, ih]
    omega

@[simp]
theorem cost_asType (a : Shape) : a.asType.cost = a.cost := by
  cases a <;> rfl

@[simp]
theorem costs_members (a : Shape) : costs a.members = a.cost := by
  cases a with
  | union as => rfl
  | _ => rfl

theorem costs_flatMap_members (as : List Shape) :
    costs (as.flatMap fun a => members a.asType) = costs as := by
  induction as with
  | nil => rfl
  | cons a as ih => rw [List.flatMap_cons, costs_append, costs_members, cost_asType, ih, costs]

/-- To drop shapes costs nothing. -/
theorem costs_distinct_le (as : List Shape) : costs (distinct as) ≤ costs as := by
  have hfold : ∀ as kept : List Shape,
      costs (as.foldl (fun kept a => if kept.any (same a) then kept else kept ++ [a]) kept) ≤
        costs kept + costs as := by
    intro as
    induction as with
    | nil => exact fun kept => Nat.le_add_right _ _
    | cons a as ih =>
      intro kept
      refine Nat.le_trans (ih _) ?_
      rw [costs]
      dsimp only
      split
      · omega
      · rw [costs_append, costs, costs]
        omega
  have h := hfold as []
  rwa [costs, Nat.zero_add] at h

theorem cost_unionOf {as : List Shape} {a : Shape} (h : unionOf as = .ok a) :
    a.cost ≤ costs as := by
  rw [← costs_flatMap_members]
  refine Nat.le_trans ?_ (costs_distinct_le _)
  unfold unionOf at h
  dsimp only at h
  split at h
  · cases h
  · split at h
    · cases h
    · rename_i b hdistinct
      cases h
      rw [hdistinct, costs, costs]
      omega
    · cases h
      exact Nat.le_refl _

theorem cost_annotatedOf {a b : Shape} {notes : List Shape} (h : annotatedOf a notes = .ok b) :
    b.cost ≤ a.cost := by
  unfold annotatedOf at h
  split at h
  · cases h
    exact Nat.le_refl _
  · cases h
  · cases h
  · cases h
  · cases h
    exact Nat.le_of_eq (cost_asType a)

end Shape

theorem cost_characterClass {v : Value} {a : Shape} (h : characterClass v = .ok a) :
    a.cost = 0 := by
  unfold characterClass at h
  split at h
  · split at h <;> cases h
    rfl
  · cases h
  · cases h

/-! ## Bindings -/

/-- What a binding costs where it is a shape. -/
def Binding.cost (b : Binding) : Nat :=
  b.shape.cost

theorem Binding.costs_joined {b : Binding} {as : List Shape} (h : b.joined? = some as) :
    Shape.costs as = b.cost := by
  cases b with
  | cls ref =>
    cases h
    rfl
  | union members =>
    cases h
    rfl
  | constant v =>
    cases v with
    | nothing =>
      cases h
      rfl
    | _ => cases h
  | _ => cases h

theorem Binding.cost_join {a b c : Binding} (h : a.join b = .ok c) : c.cost ≤ a.cost + b.cost := by
  unfold join at h
  split at h
  · rename_i as bs has hbs
    rw [← costs_joined has, ← costs_joined hbs, ← Shape.costs_append]
    split at h
    · cases h
    · cases h
      exact Nat.zero_le _
    · cases h
      exact Shape.costs_distinct_le _
  · cases h

/-! ## Schemas -/

/-- What the fields of a schema cost. -/
def fieldsCost (fs : List SchemaField) : Nat :=
  Shape.costs (fs.map (·.shape))

theorem fieldsCost_append (fs gs : List SchemaField) :
    fieldsCost (fs ++ gs) = fieldsCost fs + fieldsCost gs := by
  unfold fieldsCost
  rw [List.map_append, Shape.costs_append]

/-- What a schema costs to plan. -/
def Schema.cost : Schema → Nat
  | .product _ fields => fieldsCost fields
  | .sum _ variants => fieldsCost (variants.flatMap (·.fields))

theorem fieldsCost_reachable_le (vs : List Variant) :
    fieldsCost ((reachable vs).1.flatMap (·.fields)) ≤ fieldsCost (vs.flatMap (·.fields)) := by
  induction vs with
  | nil => exact Nat.le_refl _
  | cons v vs ih =>
    unfold reachable
    split
    · rw [List.flatMap_cons, List.flatMap_cons, fieldsCost_append, fieldsCost_append]
      exact Nat.add_le_add_left (Nat.zero_le _) _
    · rw [List.flatMap_cons, List.flatMap_cons, fieldsCost_append, fieldsCost_append]
      exact Nat.add_le_add_left ih _

/-! ## Expressions -/

mutual

/-- How many delayed parsers come from a written shape, and from what it means, where a name and a
schema cost `w`. -/
def ShapeExpr.cost (w : Nat) : ShapeExpr → Nat
  | .ref _ => w
  | .list a => a.cost w
  | .nonempty a => a.cost w
  | .not a => a.cost w
  | .box a => a.cost w + 1
  | .either a b => a.cost w + b.cost w
  | .tuple as => ShapeExpr.costs w as
  | .union as => ShapeExpr.costs w as
  | .mapping a b => a.cost w + b.cost w
  | .annotated a notes => a.cost w + NoteExpr.costs w notes
  | .parser p => p.cost w
  | _ => 0

/-- How many come from several written shapes. -/
def ShapeExpr.costs (w : Nat) : List ShapeExpr → Nat
  | [] => 0
  | e :: es => e.cost w + ShapeExpr.costs w es

/-- How many come from written notes. -/
def NoteExpr.costs (w : Nat) : List NoteExpr → Nat
  | [] => 0
  | .text _ :: ns => NoteExpr.costs w ns
  | .parser p :: ns => p.cost w + NoteExpr.costs w ns

/-- How many come from a written parser. -/
def ParserExpr.cost (w : Nat) : ParserExpr → Nat
  | .seq ps => ParserExpr.costs w ps
  | .opt body => body.cost w
  | .many _ body => body.cost w
  | .many1 _ body => body.cost w
  | .either left right => left.cost w + right.cost w
  | .choice first second => first.cost w + second.cost w
  | .not body => body.cost w
  | .box body => body.cost w + 1
  | .delayed body => body.cost w + 1
  | .map _ body => body.cost w
  | .sum first second => first.cost w + second.cost w
  | .name _ => w
  | .shape a => a.cost w
  | .compiled a => a.cost w + w
  | .generated a => a.cost w
  | .generatedSchema a => a.cost w + w
  | .loaded _ a => a.cost w
  | .recorded _ body => body.cost w
  | _ => 0

/-- How many come from several written parsers. -/
def ParserExpr.costs (w : Nat) : List ParserExpr → Nat
  | [] => 0
  | e :: es => e.cost w + ParserExpr.costs w es

end

/-- How many delayed parsers come from opening one. -/
def Delayed.cost (w : Nat) : Delayed → Nat
  | .shape a => a.cost
  | .expression e => e.cost w
  | .known _ => 0
  | .call _ => 0

/-! ## Prices -/

namespace Grammar

/-- No name and no schema costs more than `w`. -/
structure Priced (w : Nat) (g : Grammar) : Prop where
  names : ∀ {path b}, g.lookup path = .ok b → b.cost ≤ w
  schemas : ∀ {c s}, g.schemaOf c = .ok s → s.cost ≤ w

theorem Priced.mono {w : Nat} {g g' : Grammar} (h : g.Priced w) (hg : g.SameDeclarations g') :
    g'.Priced w where
  names hb := h.names (by rwa [hg.lookup_eq] at hb)
  schemas hs := h.schemas (by rwa [hg.schemaOf_eq] at hs)

variable (g : Grammar)

/-- What the entries of a table cost together. -/
def tableCost : Table Binding → Nat
  | [] => 0
  | (_, b) :: t => b.cost + tableCost t

theorem cost_le_tableCost {t : Table Binding} {name : String} {b : Binding}
    (h : t.get? name = some b) : b.cost ≤ tableCost t := by
  induction t with
  | nil => cases h
  | cons e t ih =>
    obtain ⟨k, c⟩ := e
    unfold Table.get? at h
    unfold tableCost
    split at h
    · cases h
      exact Nat.le_add_right _ _
    · exact Nat.le_trans (ih h) (Nat.le_add_left _ _)

/-- What everything costs that a name may stand for. -/
def namesCost : Nat :=
  tableCost g.names + ∑ c ∈ Finset.range g.classes.size, tableCost (g.classInfo c).members

theorem cost_member_le {c : ClassRef} {name : String} {b : Binding}
    (h : g.member? c name = some b) : b.cost ≤ g.namesCost := by
  obtain ⟨a, -, ha⟩ := List.exists_of_findSome?_eq_some h
  cases a with
  | declared d =>
    by_cases hd : d < g.classes.size
    · have hsum : tableCost (g.classInfo d).members ≤
          ∑ c ∈ Finset.range g.classes.size, tableCost (g.classInfo c).members :=
        Finset.single_le_sum (f := fun c => tableCost (g.classInfo c).members)
          (fun _ _ => Nat.zero_le _) (Finset.mem_range.mpr hd)
      have hb := cost_le_tableCost ha
      unfold ownMembers at hb
      unfold namesCost
      dsimp only at hb
      omega
    · unfold ownMembers at ha
      dsimp only at ha
      rw [g.classInfo_of_size_le (Nat.le_of_not_lt hd)] at ha
      cases ha
  | character c =>
    unfold ownMembers Table.get? at ha
    split at ha
    · cases ha
      exact Nat.zero_le _
    · cases ha
  | builtin b => cases ha

theorem cost_members_le : ∀ {path : List String} {b c : Binding}, b.cost ≤ g.namesCost →
    g.members? b path = .ok c → c.cost ≤ g.namesCost
  | [], b, c, hb, h => by
    unfold members? at h
    cases h
    exact hb
  | name :: rest, b, c, _, h => by
    cases b with
    | cls ref =>
      unfold members? at h
      split at h
      · rename_i d hd
        exact cost_members_le (g.cost_member_le hd) h
      · cases h
    | _ => cases h

theorem cost_lookup_le {path : Path} {b : Binding} (h : g.lookup path = .ok b) :
    b.cost ≤ g.namesCost := by
  unfold lookup at h
  split at h
  · rename_i c hc
    exact g.cost_members_le (Nat.le_trans (cost_le_tableCost hc) (Nat.le_add_right _ _)) h
  · cases h

/-- What all declared classes cost to plan. -/
def schemasCost : Nat :=
  ∑ c ∈ Finset.range g.classes.size,
    match g.schemaOf (.declared c) with
    | .ok s => s.cost
    | .error _ => 0

/-- What is no record and declares nothing has no fields. -/
theorem cost_of_undeclared {c : ClassRef} {s : Schema} (hsum : g.isSum c = false)
    (hrecord : g.record? c = none) (hshapes : g.declaredShapes c = []) (h : g.schemaOf c = .ok s) :
    s.cost = 0 := by
  unfold schemaOf at h
  simp only [hsum, Bool.false_eq_true, if_false] at h
  unfold fieldsOf at h
  simp only [hrecord, hshapes, List.isEmpty_nil, if_true] at h
  cases h
  rfl

theorem cost_schema_le {c : ClassRef} {s : Schema} (h : g.schemaOf c = .ok s) :
    s.cost ≤ g.schemasCost := by
  cases c with
  | declared d =>
    by_cases hd : d < g.classes.size
    · have hsum := Finset.single_le_sum
        (f := fun c => match g.schemaOf (.declared c) with
          | .ok s => s.cost
          | .error _ => 0)
        (fun _ _ => Nat.zero_le _) (Finset.mem_range.mpr hd)
      simp only [h] at hsum
      exact hsum
    · have hinfo := g.classInfo_of_size_le (Nat.le_of_not_lt hd)
      have hancestry : g.ancestry (.declared d) = [] := by
        unfold ancestry
        simp only [hinfo]
        rfl
      rw [g.cost_of_undeclared _ _ _ h]
      · exact Nat.zero_le _
      · unfold isSum
        rw [hancestry]
        rfl
      · unfold record?
        rw [hancestry]
        rfl
      · unfold declaredShapes
        simp only [hinfo]
        rfl
  | character c => rw [g.cost_of_undeclared rfl rfl rfl h]; exact Nat.zero_le _
  | builtin b =>
    cases b with
    | sum => cases h
    | _ => rw [g.cost_of_undeclared rfl rfl rfl h]; exact Nat.zero_le _

/-- **There is a price that no name and no schema exceeds.** -/
theorem exists_priced : ∃ w, g.Priced w :=
  ⟨g.namesCost + g.schemasCost,
    fun h => Nat.le_trans (g.cost_lookup_le h) (Nat.le_add_right _ _),
    fun h => Nat.le_trans (g.cost_schema_le h) (Nat.le_add_left _ _)⟩

end Grammar

end ShapeGrammar
