import ShapeGrammar.Reference
import ShapeGrammar.Fault
import Mathlib.Logic.Relation
import Mathlib.Data.Fintype.Basic
import Mathlib.Data.Fintype.EquivFin
import Mathlib.Order.WellFounded
import Mathlib.Data.Set.Finite.Basic

/-!
# Skeletons

What decides whether a parser can match without consuming anything, and which parsers it may call
before it has consumed something. A skeleton is a finite tree: delayed parsers and aliases are
unfolded in it, and only classes are left as names. Recursion passes through the classes, whose
skeletons `Skeletons` gives.

A parser is nullable by the least relation that its constructs allow, and it calls another one from
the left if nothing need be consumed before the call. Where no parser calls itself from the left,
along whatever way, the left calls are well-founded: the classes are finitely many, and between two
classes every call leads to a part. A rank of the classes that falls along the left calls shows that
there is no such circle.

Headlines: `Skeleton`, `Skeletons.Nullable`, `Skeletons.LeftCalls`, `Skeletons.Acyclic.wellFounded`,
`Skeletons.acyclic_of_rank`.
-/

namespace ShapeGrammar

/-- What of a parser matters for whether it ends. -/
inductive Skeleton
  /-- A match consumes one element. -/
  | leaf
  /-- Nothing need be consumed, whatever the body does: an option, a repetition that may be empty,
  a lookahead. -/
  | optional (body : Skeleton)
  /-- A match is one of the body, at least: one or more of it, its value changed, or found out when
  it is needed. -/
  | within (body : Skeleton)
  /-- Parts one after the other. -/
  | row (parts : Skeleton)
  /-- No parts. -/
  | nil
  /-- A part and those after it. -/
  | cons (first rest : Skeleton)
  /-- One alternative, or else the other. -/
  | choice (first second : Skeleton)
  /-- The parser of a declared class. -/
  | cls (id : ClassId)
  deriving DecidableEq, Repr, Inhabited

/-- How much there is of a skeleton. -/
def Skeleton.size : Skeleton → Nat
  | .leaf => 1
  | .optional body => body.size + 1
  | .within body => body.size + 1
  | .row parts => parts.size + 1
  | .nil => 1
  | .cons first rest => first.size + rest.size + 1
  | .choice first second => first.size + second.size + 1
  | .cls _ => 1

/-- The parts of a row with one more behind them, or else a row of two. -/
def Skeleton.followedBy : Skeleton → Skeleton → Skeleton
  | .row parts, y => .row (append parts y)
  | x, y => .row (.cons x (.cons y .nil))
where
  append : Skeleton → Skeleton → Skeleton
    | .cons first rest, y => .cons first (append rest y)
    | _, y => .cons y .nil

/-- The skeletons of some classes, and what the changes of values in them may raise. -/
structure Skeletons where
  /-- The skeleton of a class, which is that of its plan. -/
  ofClass : ClassId → Option Skeleton
  /-- The faults that a function which changes values may raise. -/
  raises : Fault → Prop
  /-- How far aliases are nested. -/
  depth : Nat

namespace Skeletons

variable (S : Skeletons)

/-- What may match without consuming anything. -/
inductive Nullable : Skeleton → Prop
  | optional {a} : Nullable (.optional a)
  | within {a} : Nullable a → Nullable (.within a)
  | row {a} : Nullable a → Nullable (.row a)
  | nil : Nullable .nil
  | cons {a b} : Nullable a → Nullable b → Nullable (.cons a b)
  | first {a b} : Nullable a → Nullable (.choice a b)
  | second {a b} : Nullable b → Nullable (.choice a b)
  | cls {c a} : S.ofClass c = some a → Nullable a → Nullable (.cls c)

/-- What may be called before anything is consumed. The rest of a sequence is called from the left
where its first part is nullable. -/
inductive LeftCalls : Skeleton → Skeleton → Prop
  | optional {a} : LeftCalls (.optional a) a
  | within {a} : LeftCalls (.within a) a
  | row {a} : LeftCalls (.row a) a
  | head {a b} : LeftCalls (.cons a b) a
  | tail {a b} : S.Nullable a → LeftCalls (.cons a b) b
  | first {a b} : LeftCalls (.choice a b) a
  | second {a b} : LeftCalls (.choice a b) b
  | cls {c a} : S.ofClass c = some a → LeftCalls (.cls c) a

/-- No left calls go in a circle. -/
def Acyclic : Prop :=
  ∀ a, ¬ Relation.TransGen S.LeftCalls a a

/-- The classes that have a skeleton are among the first so many. -/
def Bounded (n : Nat) : Prop :=
  ∀ {c a}, S.ofClass c = some a → c < n

variable {S}

/-! ## Left calls are well-founded -/

/-- Between two classes, every left call leads to a part. -/
theorem acc_of_classes : ∀ a : Skeleton,
    (∀ c, Relation.ReflTransGen S.LeftCalls a (.cls c) →
      Acc (fun x y => S.LeftCalls y x) (.cls c)) → Acc (fun x y => S.LeftCalls y x) a := by
  intro a hclasses
  have part {x} (h : S.LeftCalls a x) : ∀ c, Relation.ReflTransGen S.LeftCalls x (.cls c) →
      Acc (fun x y => S.LeftCalls y x) (.cls c) :=
    fun c hc => hclasses c (.head h hc)
  induction a with
  | leaf => exact ⟨_, nofun⟩
  | nil => exact ⟨_, nofun⟩
  | cls c => exact hclasses c .refl
  | optional a ih | within a ih | row a ih =>
    refine ⟨_, fun x hx => ?_⟩
    have hpart := part hx
    cases hx
    exact ih hpart fun h c hc => hpart c (.head h hc)
  | cons a b iha ihb | choice a b iha ihb =>
    refine ⟨_, fun x hx => ?_⟩
    have hpart := part hx
    cases hx
    · exact iha hpart fun h c hc => hpart c (.head h hc)
    · exact ihb hpart fun h c hc => hpart c (.head h hc)

/-- **Left calls that do not go in a circle come to an end**, if the classes are finitely many. -/
theorem Acyclic.wellFounded (h : S.Acyclic) {n : Nat} (bounded : S.Bounded n) :
    WellFounded fun x y => S.LeftCalls y x := by
  -- from a class without a skeleton nothing is called; the others are finitely many
  let later (c d : Fin n) : Prop := Relation.TransGen S.LeftCalls (.cls d) (.cls c)
  have htrans : IsTrans (Fin n) later := ⟨fun _ _ _ h h' => h'.trans h⟩
  have hirrefl : Std.Irrefl later := ⟨fun c hc => h _ hc⟩
  have hwf : WellFounded later := Finite.wellFounded_of_trans_of_irrefl later
  have hbeyond : ∀ c, ¬ c < n → Acc (fun x y => S.LeftCalls y x) (.cls c) := fun c hc =>
    ⟨_, fun x hx => by
      cases hx with
      | cls hx => exact absurd (bounded hx) hc⟩
  have hclass : ∀ c : Fin n, Acc (fun x y => S.LeftCalls y x) (.cls c) := by
    intro c
    induction c using hwf.induction with
    | _ c ih =>
      refine ⟨_, fun a ha => acc_of_classes a fun d hd => ?_⟩
      by_cases hlt : d < n
      · exact ih ⟨d, hlt⟩ (.head' ha hd)
      · exact hbeyond d hlt
  refine ⟨fun a => acc_of_classes a fun c _ => ?_⟩
  by_cases hlt : c < n
  · exact hclass ⟨c, hlt⟩
  · exact hbeyond c hlt

/-! ## Ranks -/

variable (S)

/-- Whether a skeleton may match without consuming anything, if these classes may. -/
def nullable (may : ClassId → Bool) : Skeleton → Bool
  | .leaf => false
  | .optional _ => true
  | .within a => nullable may a
  | .row a => nullable may a
  | .nil => true
  | .cons a b => nullable may a && nullable may b
  | .choice a b => nullable may a || nullable may b
  | .cls c => may c

/-- Whether all classes that are called from the left are of a rank below `n`. -/
def callsBelow (may : ClassId → Bool) (rank : ClassId → Nat) (n : Nat) : Skeleton → Bool
  | .leaf => true
  | .optional a => callsBelow may rank n a
  | .within a => callsBelow may rank n a
  | .row a => callsBelow may rank n a
  | .nil => true
  | .cons a b => callsBelow may rank n a && (!nullable may a || callsBelow may rank n b)
  | .choice a b => callsBelow may rank n a && callsBelow may rank n b
  | .cls c => decide (rank c < n)

variable {S} {may : ClassId → Bool} {rank : ClassId → Nat}

theorem nullable_of_nullable (closed : ∀ {c a}, S.ofClass c = some a → nullable may a → may c)
    {a : Skeleton} (h : S.Nullable a) : nullable may a := by
  induction h with
  | optional | nil => rfl
  | within _ ih | row _ ih => exact ih
  | cons _ _ iha ihb => simp only [nullable, iha, ihb, Bool.and_self]
  | first _ ih => simp only [nullable, ih, Bool.true_or]
  | second _ ih => simp only [nullable, ih, Bool.or_true]
  | cls hc _ ih => exact closed hc ih

/-- Ranks that fall from every class to those that it calls from the left: where a call leads to a
class, its rank is below the bound of the caller. -/
theorem callsBelow_of_leftCalls
    (closed : ∀ {c a}, S.ofClass c = some a → nullable may a → may c)
    (falls : ∀ {c a}, S.ofClass c = some a → callsBelow may rank (rank c) a) {n : Nat}
    {a b : Skeleton} (h : S.LeftCalls a b) (ha : callsBelow may rank n a) :
    callsBelow may rank n b := by
  have weaken : ∀ {k l : Nat}, k ≤ l → ∀ {a : Skeleton}, callsBelow may rank k a →
      callsBelow may rank l a := by
    intro k l hkl a
    induction a with
    | leaf | nil => exact fun h => h
    | optional _ ih | within _ ih | row _ ih => exact ih
    | cons a b iha ihb | choice a b iha ihb =>
      simp only [callsBelow, Bool.and_eq_true, Bool.or_eq_true]
      grind
    | cls c =>
      simp only [callsBelow, decide_eq_true_eq]
      omega
  cases h with
  | optional | within | row => exact ha
  | head | first => exact (Bool.and_eq_true _ _ ▸ ha).1
  | tail hnull =>
    have hrest := (Bool.and_eq_true _ _ ▸ ha).2
    simpa only [nullable_of_nullable closed hnull, Bool.not_true, Bool.false_or] using hrest
  | second => exact (Bool.and_eq_true _ _ ▸ ha).2
  | cls hc => exact weaken (Nat.le_of_lt (of_decide_eq_true ha)) (falls hc)

/-- **A rank that falls along the left calls shows that they go in no circle.** -/
theorem acyclic_of_rank (closed : ∀ {c a}, S.ofClass c = some a → nullable may a → may c)
    (falls : ∀ {c a}, S.ofClass c = some a → callsBelow may rank (rank c) a) : S.Acyclic := by
  -- a circle passes through a class, for otherwise every call leads to a smaller skeleton
  have through : ∀ {a b}, Relation.TransGen S.LeftCalls a b →
      b.size < a.size ∨ ∃ c x, S.ofClass c = some x ∧
        Relation.ReflTransGen S.LeftCalls a (.cls c) ∧ Relation.ReflTransGen S.LeftCalls x b := by
    intro a b h
    induction h with
    | single h =>
      cases h with
      | cls hc => exact .inr ⟨_, _, hc, .refl, .refl⟩
      | _ => exact .inl (by simp only [Skeleton.size]; omega)
    | tail hab h ih =>
      rcases ih with hlt | ⟨c, x, hc, hac, hxb⟩
      · cases h with
        | cls hc => exact .inr ⟨_, _, hc, hab.to_reflTransGen, .refl⟩
        | _ => exact .inl (by simp only [Skeleton.size] at hlt ⊢; omega)
      · exact .inr ⟨c, x, hc, hac, hxb.tail h⟩
  have below : ∀ {n a b}, Relation.ReflTransGen S.LeftCalls a b → callsBelow may rank n a →
      callsBelow may rank n b := by
    intro n a b h ha
    induction h with
    | refl => exact ha
    | tail _ h ih => exact callsBelow_of_leftCalls closed falls h ih
  intro a ha
  rcases through ha with hlt | ⟨c, x, hc, hac, hxa⟩
  · exact absurd hlt (Nat.lt_irrefl _)
  · have hself := below (hxa.trans hac) (falls hc)
    exact absurd (of_decide_eq_true hself) (Nat.lt_irrefl _)

end Skeletons

end ShapeGrammar
