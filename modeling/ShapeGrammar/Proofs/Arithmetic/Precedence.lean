import ShapeGrammar.Arithmetic.Evaluate

/-!
# Precedence

An expression is a flat chain of operators; the usual reading of it is a tree in which every
operator stands between two operands. In a grouped tree the left operand of an operator binds at
least as tightly as the operator, the right operand binds more tightly: products bind tighter than
sums, and operators that bind equally are grouped from the left. Every chain is written for exactly
one grouped tree, and evaluating the chain in two passes gives the value of that tree, whatever the
operators do.

Headlines: `Binary.Grouped`, `Binary.flatten`, `Expression.grouped_unique`,
`Expression.evaluate_eq_value`.
-/

namespace ShapeGrammar.Arithmetic

/-! ## Trees -/

/-- A tree in which every operator stands between two operands. Parentheses are kept. -/
inductive Binary
  | literal (digits : Digits)
  | group (inner : Binary)
  | join (operator : Operator) (left right : Binary)

/-- How tightly an operator binds. -/
def Operator.rank : Operator → Nat
  | .plus | .minus => 0
  | .times | .divide => 1

/-- The chain that goes on with another one. -/
def Tail.append : Tail → Tail → Tail
  | .nil, t => t
  | .cons o a rest, t => .cons o a (rest.append t)

theorem Tail.append_assoc : ∀ t u v : Tail, (t.append u).append v = t.append (u.append v)
  | .nil, _, _ => rfl
  | .cons o a rest, u, v => congrArg (Tail.cons o a) (rest.append_assoc u v)

theorem Tail.append_nil : ∀ t : Tail, t.append .nil = t
  | .nil => rfl
  | .cons o a rest => congrArg (Tail.cons o a) rest.append_nil

/-- Two expressions with an operator between them, as they are written. -/
def Expression.join (o : Operator) : Expression → Expression → Expression
  | .chain head tail, .chain head' tail' => .chain head (tail.append (.cons o head' tail'))

/-- An expression that goes on with a chain. -/
def Expression.append : Expression → Tail → Expression
  | .chain head tail, t => .chain head (tail.append t)

theorem Expression.append_nil (e : Expression) : e.append .nil = e := by
  cases e
  simp only [append, Tail.append_nil]

theorem Expression.join_append (o : Operator) (e e' : Expression) (t : Tail) :
    (e.join o e').append t = e.join o (e'.append t) := by
  cases e
  cases e'
  simp only [join, append, Tail.append_assoc, Tail.append]

namespace Binary

/-- How tightly the outermost operator binds. Nothing binds more tightly than an atom. -/
def rank : Binary → Nat
  | .literal _ | .group _ => 2
  | .join o _ _ => o.rank

/-- Operators are grouped by how tightly they bind, and from the left. -/
def Grouped : Binary → Prop
  | .literal _ => True
  | .group inner => inner.Grouped
  | .join o left right => o.rank ≤ left.rank ∧ o.rank < right.rank ∧ left.Grouped ∧ right.Grouped

/-- The chain that a tree is written as. -/
def flatten : Binary → Expression
  | .literal ds => .chain (.literal ds) .nil
  | .group inner => .chain (.group inner.flatten) .nil
  | .join o left right => left.flatten.join o right.flatten

/-- The value of a tree. -/
def value {N : Type} (apply : Operator → N → N → N) (literal : Nat → N) : Binary → N
  | .literal ds => literal ds.value
  | .group inner => inner.value apply literal
  | .join o left right => apply o (left.value apply literal) (right.value apply literal)

/-! ## Grouping a chain -/

/-- A term behind the sum of those before it, if there are some. -/
def close : Option (Binary × Operator) → Binary → Binary
  | none, term => term
  | some (sum, o), term => .join o sum term

end Binary

open Binary

mutual

/-- The grouped tree of an expression. -/
def Expression.grouped : Expression → Binary
  | .chain head tail => tail.grouped none head.grouped

/-- The grouped tree of an atom. -/
def Atom.grouped : Atom → Binary
  | .group inner => .group inner.grouped
  | .literal ds => .literal ds

/-- The grouped tree of a chain that goes on from a term, behind the sum of the terms before it. -/
def Tail.grouped (sum : Option (Binary × Operator)) (term : Binary) : Tail → Binary
  | .nil => close sum term
  | .cons o a rest =>
    match o with
    | .times | .divide => rest.grouped sum (.join o term a.grouped)
    | .plus | .minus => rest.grouped (some (close sum term, o)) a.grouped

end

theorem Tail.grouped_cons_of_product {o : Operator} (ho : o.rank = 1) (a : Atom) (rest : Tail)
    (sum : Option (Binary × Operator)) (term : Binary) :
    (Tail.cons o a rest).grouped sum term = rest.grouped sum (.join o term a.grouped) := by
  cases o <;> first | rfl | cases ho

theorem Tail.grouped_cons_of_sum {o : Operator} (ho : o.rank = 0) (a : Atom) (rest : Tail)
    (sum : Option (Binary × Operator)) (term : Binary) :
    (Tail.cons o a rest).grouped sum term =
      rest.grouped (some (close sum term, o)) a.grouped := by
  cases o <;> first | rfl | cases ho

theorem Operator.rank_eq (o : Operator) : o.rank = 0 ∨ o.rank = 1 := by
  cases o <;> simp [rank]

theorem Atom.rank_grouped (a : Atom) : a.grouped.rank = 2 := by
  cases a <;> rfl

/-! ### The tree is written as the chain -/

theorem flatten_close_join (sum : Option (Binary × Operator)) (o : Operator) (term right : Binary) :
    (close sum (.join o term right)).flatten = (close sum term).flatten.join o right.flatten := by
  cases sum with
  | none => rfl
  | some s =>
    obtain ⟨l, p⟩ := s
    simp only [close, flatten]
    cases l.flatten
    cases term.flatten
    cases right.flatten
    simp only [Expression.join, Tail.append_assoc, Tail.append]

mutual

theorem Expression.flatten_grouped : ∀ e : Expression, e.grouped.flatten = e
  | .chain head tail => by
    rw [Expression.grouped, tail.flatten_grouped, close, head.flatten_grouped]
    rfl

theorem Atom.flatten_grouped : ∀ a : Atom, a.grouped.flatten = .chain a .nil
  | .group inner => by rw [Atom.grouped, flatten, inner.flatten_grouped]
  | .literal _ => rfl

theorem Tail.flatten_grouped : ∀ (t : Tail) (sum : Option (Binary × Operator)) (term : Binary),
    (t.grouped sum term).flatten = (close sum term).flatten.append t
  | .nil, sum, term => (Expression.append_nil _).symm
  | .cons o a rest, sum, term => by
    have hnext : (close sum term).flatten.join o (.chain a rest) =
        (close sum term).flatten.append (.cons o a rest) := by
      cases (close sum term).flatten
      rfl
    rw [← hnext]
    rcases o.rank_eq with ho | ho
    · rw [Tail.grouped_cons_of_sum ho, rest.flatten_grouped, close, flatten, a.flatten_grouped,
        Expression.join_append]
      rfl
    · rw [Tail.grouped_cons_of_product ho, rest.flatten_grouped, flatten_close_join,
        a.flatten_grouped, Expression.join_append]
      rfl

end

/-! ### The tree is grouped -/

/-- The sum before a term is grouped, and an operator of sums stands behind it. -/
def GroupedSum (sum : Option (Binary × Operator)) : Prop :=
  ∀ s ∈ sum, s.1.Grouped ∧ s.2.rank = 0

theorem grouped_close {sum : Option (Binary × Operator)} {term : Binary} (hsum : GroupedSum sum)
    (hterm : term.Grouped) (hrank : 1 ≤ term.rank) : (close sum term).Grouped := by
  cases sum with
  | none => exact hterm
  | some s =>
    obtain ⟨hs, ho⟩ := hsum s rfl
    show _ ≤ _ ∧ _ < _ ∧ _ ∧ _
    rw [ho]
    exact ⟨Nat.zero_le _, hrank, hs, hterm⟩

mutual

theorem Expression.grouped_grouped : ∀ e : Expression, e.grouped.Grouped
  | .chain head tail => by
    rw [Expression.grouped]
    exact tail.grouped_grouped (fun s hs => by cases hs) head.grouped_grouped
      (by rw [head.rank_grouped]; decide)

theorem Atom.grouped_grouped : ∀ a : Atom, a.grouped.Grouped
  | .group inner => by
    rw [Atom.grouped]
    exact inner.grouped_grouped
  | .literal _ => trivial

theorem Tail.grouped_grouped : ∀ (t : Tail) {sum : Option (Binary × Operator)} {term : Binary},
    GroupedSum sum → term.Grouped → 1 ≤ term.rank → (t.grouped sum term).Grouped
  | .nil, _, _, hsum, hterm, hrank => grouped_close hsum hterm hrank
  | .cons o a rest, sum, term, hsum, hterm, hrank => by
    have ha := a.rank_grouped
    rcases o.rank_eq with ho | ho
    · rw [Tail.grouped_cons_of_sum ho]
      refine rest.grouped_grouped (fun s hs => ?_) a.grouped_grouped (by omega)
      cases hs
      exact ⟨grouped_close hsum hterm hrank, ho⟩
    · rw [Tail.grouped_cons_of_product ho]
      have hjoin : (Binary.join o term a.grouped).Grouped :=
        ⟨by omega, by omega, hterm, a.grouped_grouped⟩
      exact rest.grouped_grouped hsum hjoin (Nat.le_of_eq ho.symm)

end

/-! ### There is no other one -/

namespace Binary

/-- The last term of a tree, and the sum before it. -/
def opened : Binary → Option (Binary × Operator) × Binary
  | .join .plus left right => (some (left, .plus), right)
  | .join .minus left right => (some (left, .minus), right)
  | t => (none, t)

theorem close_opened (t : Binary) : close t.opened.1 t.opened.2 = t := by
  unfold opened
  split <;> rfl

theorem opened_of_sum {o : Operator} (ho : o.rank = 0) (left right : Binary) :
    (Binary.join o left right).opened = (some (left, o), right) := by
  cases o <;> first | rfl | cases ho

theorem opened_of_term : ∀ {t : Binary}, 1 ≤ t.rank → t.opened = (none, t)
  | .literal _, _ => rfl
  | .group _, _ => rfl
  | .join o left right, h => by
    cases o <;> first | rfl | exact absurd h (by simp [rank, Operator.rank])

end Binary

/-- Grouping an expression that goes on with a chain, behind a sum. -/
def Expression.groupedOnto (sum : Option (Binary × Operator)) (rest : Tail) : Expression → Binary
  | .chain head tail => (tail.append rest).grouped sum head.grouped

theorem Expression.groupedOnto_join (o : Operator) (sum : Option (Binary × Operator)) (rest : Tail)
    (e : Expression) (a : Atom) (t : Tail) : (e.join o (.chain a t)).groupedOnto sum rest =
      e.groupedOnto sum (.cons o a (t.append rest)) := by
  cases e
  simp only [join, groupedOnto, Tail.append_assoc, Tail.append]

/-- Grouping what a grouped tree is written as gives the tree: a term goes on with what follows it
behind any sum, a sum goes on with its last term. -/
theorem groupedOnto_flatten : ∀ {t : Binary}, t.Grouped →
    (∀ rest, t.flatten.groupedOnto none rest = rest.grouped t.opened.1 t.opened.2) ∧
      (1 ≤ t.rank → ∀ sum rest, t.flatten.groupedOnto sum rest = rest.grouped sum t)
  | .literal ds, _ => ⟨fun _ => rfl, fun _ _ _ => rfl⟩
  | .group inner, h => by
    have hinner : inner.flatten.grouped = inner := by
      have hclose := (groupedOnto_flatten (t := inner) h).1 .nil
      rw [Tail.grouped, close_opened] at hclose
      cases he : inner.flatten with
      | chain head tail =>
        rw [he, Expression.groupedOnto, Tail.append_nil] at hclose
        rw [Expression.grouped, hclose]
    have hgroup : ∀ sum rest, (Binary.group inner).flatten.groupedOnto sum rest =
        rest.grouped sum (.group inner) := by
      intro sum rest
      show rest.grouped sum (.group inner.flatten.grouped) = _
      rw [hinner]
    exact ⟨hgroup none, fun _ => hgroup⟩
  | .join o left right, ⟨hleft, hright, hl, hr⟩ => by
    obtain ⟨hopen, hterm⟩ := groupedOnto_flatten hl
    obtain ⟨-, hlast⟩ := groupedOnto_flatten hr
    have hsplit : ∃ a t, right.flatten = .chain a t := by
      cases right.flatten with
      | chain a t => exact ⟨a, t, rfl⟩
    obtain ⟨a, t, hat⟩ := hsplit
    have honto : ∀ sum rest, right.flatten.groupedOnto sum rest =
        (t.append rest).grouped sum a.grouped := fun sum rest => by rw [hat]; rfl
    rcases o.rank_eq with ho | ho
    · constructor
      · intro rest
        rw [flatten, hat, Expression.groupedOnto_join, hopen, Tail.grouped_cons_of_sum ho,
          close_opened, ← honto, hlast (by omega), opened_of_sum ho]
      · intro hrank
        exact absurd hrank (by simp [rank, ho])
    · -- the right operand of a product is an atom
      have hatom : ∀ sum rest, (Expression.join o left.flatten right.flatten).groupedOnto sum rest =
          rest.grouped sum (.join o left right) := by
        intro sum rest
        rw [hat, Expression.groupedOnto_join, hterm (by omega), Tail.grouped_cons_of_product ho]
        cases right with
        | literal ds =>
          cases hat
          rfl
        | group inner =>
          have hsame := hlast (by simp [rank]) none .nil
          rw [honto] at hsame
          cases hat
          simp only [Tail.append, Tail.grouped, close] at hsame
          rw [hsame]
          rfl
        | join p l r =>
          have hp := p.rank_eq
          simp only [rank] at hright
          omega
      exact ⟨fun rest => by rw [opened_of_term (by simp [rank, ho])]; exact hatom none rest,
        fun _ => hatom⟩

/-- **Every expression is written for exactly one grouped tree.** -/
theorem Expression.grouped_unique (e : Expression) {t : Binary} (ht : t.Grouped)
    (h : t.flatten = e) : t = e.grouped := by
  have hclose := (groupedOnto_flatten ht).1 .nil
  rw [h, Tail.grouped, close_opened] at hclose
  cases e with
  | chain head tail =>
    rw [Expression.groupedOnto, Tail.append_nil] at hclose
    exact hclose.symm

/-! ## Terms with their operators -/

section Passes

variable {m : Type → Type} [Monad m] {N : Type} {apply : Operator → N → N → m N}
  {literal : Nat → N}

theorem sumTerms_cons {o : Operator} (ho : o.rank = 0) (sum term : N)
    (rest : List (Operator × N)) : sumTerms apply sum ((o, term) :: rest) =
      (apply o sum term >>= fun sum => sumTerms apply sum rest) := by
  cases o <;> first | rfl | cases ho

/-- The first term of a chain that goes on from the term `last`, and the other ones, each with the
operator before it. -/
def Tail.terms (apply : Operator → N → N → m N) (literal : Nat → N) (last : N) :
    Tail → m (N × List (Operator × N))
  | .nil => pure (last, [])
  | .cons o atom rest => do
    let v ← atom.evaluate apply literal
    match o with
    | .times | .divide => do
      let product ← apply o last v
      rest.terms apply literal product
    | .plus | .minus => do
      let (term, others) ← rest.terms apply literal v
      pure (last, (o, term) :: others)

theorem Tail.terms_of_product {o : Operator} (ho : o.rank = 1) (a : Atom) (rest : Tail) (x : N) :
    (Tail.cons o a rest).terms apply literal x =
      (a.evaluate apply literal >>= fun v => apply o x v >>= rest.terms apply literal) := by
  cases o <;> first | rfl | cases ho

theorem Tail.terms_of_sum {o : Operator} (ho : o.rank = 0) (a : Atom) (rest : Tail) (x : N) :
    (Tail.cons o a rest).terms apply literal x =
      (a.evaluate apply literal >>= fun v => rest.terms apply literal v >>= fun r =>
        pure (x, (o, r.1) :: r.2)) := by
  cases o <;> first | rfl | cases ho

theorem Tail.fold_of_product {o : Operator} (ho : o.rank = 1) (a : Atom) (rest : Tail)
    (terms : List N) (x : N) (operators : List Operator) :
    (Tail.cons o a rest).fold apply literal terms x operators =
      (a.evaluate apply literal >>= fun v => apply o x v >>= fun product =>
        rest.fold apply literal terms product operators) := by
  cases o <;> first | rfl | cases ho

theorem Tail.fold_of_sum {o : Operator} (ho : o.rank = 0) (a : Atom) (rest : Tail)
    (terms : List N) (x : N) (operators : List Operator) :
    (Tail.cons o a rest).fold apply literal terms x operators =
      (a.evaluate apply literal >>= fun v =>
        rest.fold apply literal (terms ++ [x]) v (operators ++ [o])) := by
  cases o <;> first | rfl | cases ho

/-- The two lists are those of the terms and of the operators before them. -/
theorem Tail.fold_eq [LawfulMonad m] : ∀ (t : Tail) (terms : List N) (last : N)
    (operators : List Operator), t.fold apply literal terms last operators =
      (fun r => (terms ++ r.1 :: r.2.map (·.2), operators ++ r.2.map (·.1))) <$>
        t.terms apply literal last
  | .nil, terms, last, operators => by simp [fold, Tail.terms]
  | .cons o a rest, terms, last, operators => by
    rcases o.rank_eq with ho | ho
    · rw [fold_of_sum ho, terms_of_sum ho, map_bind]
      refine bind_congr fun v => ?_
      rw [rest.fold_eq, map_bind, ← bind_pure_comp]
      simp
    · rw [fold_of_product ho, terms_of_product ho, map_bind]
      refine bind_congr fun v => ?_
      rw [map_bind]
      exact bind_congr fun product => rest.fold_eq terms product operators

/-- The terms are added up, each with the operator before it. -/
theorem Expression.evaluate_eq_terms [LawfulMonad m] (head : Atom) (tail : Tail) :
    (Expression.chain head tail).evaluate apply literal =
      (head.evaluate apply literal >>= fun first => tail.terms apply literal first >>= fun r =>
        sumTerms apply r.1 r.2) := by
  rw [Expression.evaluate]
  refine bind_congr fun first => ?_
  rw [tail.fold_eq, bind_map_left]
  refine bind_congr fun r => ?_
  show sumTerms apply r.1 ((r.2.map (·.1)).zip (r.2.map (·.2))) = _
  rw [← List.zip_of_prod rfl rfl]

end Passes

/-! ## Values -/

section Values

variable {N : Type} {apply : Operator → N → N → N} {literal : Nat → N}

/-- The terms of a chain where operators are total functions. -/
def Tail.signedTerms (apply : Operator → N → N → N) (literal : Nat → N) (last : N) (t : Tail) :
    N × List (Operator × N) :=
  t.terms (m := Id) apply literal last

theorem Tail.signedTerms_of_product {o : Operator} (ho : o.rank = 1) (a : Atom) (rest : Tail)
    (x : N) : (Tail.cons o a rest).signedTerms apply literal x =
      rest.signedTerms apply literal (apply o x (a.evaluate (m := Id) apply literal)) :=
  Tail.terms_of_product (m := Id) ho a rest x

theorem Tail.signedTerms_of_sum {o : Operator} (ho : o.rank = 0) (a : Atom) (rest : Tail) (x : N) :
    (Tail.cons o a rest).signedTerms apply literal x =
      (x, (o, (rest.signedTerms apply literal (a.evaluate (m := Id) apply literal)).1) ::
        (rest.signedTerms apply literal (a.evaluate (m := Id) apply literal)).2) :=
  Tail.terms_of_sum (m := Id) ho a rest x

theorem Expression.evaluate_chain (head : Atom) (tail : Tail) :
    (Expression.chain head tail).evaluate (m := Id) apply literal =
      sumTerms (m := Id) apply
        (tail.signedTerms apply literal (head.evaluate (m := Id) apply literal)).1
        (tail.signedTerms apply literal (head.evaluate (m := Id) apply literal)).2 :=
  Expression.evaluate_eq_terms (m := Id) head tail

mutual

/-- **Evaluating a chain in two passes gives the value of its grouped tree.** -/
theorem Expression.evaluate_eq_value : ∀ e : Expression,
    e.evaluate (m := Id) apply literal = e.grouped.value apply literal
  | .chain head tail => by
    rw [Expression.evaluate_chain, Expression.grouped, head.evaluate_eq_value]
    exact tail.sumTerms_first head.grouped

theorem Atom.evaluate_eq_value : ∀ a : Atom,
    a.evaluate (m := Id) apply literal = a.grouped.value apply literal
  | .group inner => inner.evaluate_eq_value
  | .literal _ => rfl

/-- The terms of a chain that goes on from a first term sum up to its grouped tree. -/
theorem Tail.sumTerms_first : ∀ (t : Tail) (term : Binary),
    sumTerms (m := Id) apply (t.signedTerms apply literal (term.value apply literal)).1
        (t.signedTerms apply literal (term.value apply literal)).2 =
      (t.grouped none term).value apply literal
  | .nil, _ => rfl
  | .cons o a rest, term => by
    rcases o.rank_eq with ho | ho
    · rw [Tail.signedTerms_of_sum ho, Tail.grouped_cons_of_sum ho, a.evaluate_eq_value]
      exact rest.sumTerms_behind ho term a.grouped
    · rw [Tail.signedTerms_of_product ho, Tail.grouped_cons_of_product ho, a.evaluate_eq_value]
      exact rest.sumTerms_first (.join o term a.grouped)

/-- Behind a sum, the terms of a chain are added to it. -/
theorem Tail.sumTerms_behind : ∀ (t : Tail) {sign : Operator}, sign.rank = 0 →
    ∀ sum term : Binary, sumTerms (m := Id) apply (sum.value apply literal)
        ((sign, (t.signedTerms apply literal (term.value apply literal)).1) ::
          (t.signedTerms apply literal (term.value apply literal)).2) =
      (t.grouped (some (sum, sign)) term).value apply literal
  | .nil, _, hsign, sum, term => sumTerms_cons hsign _ _ []
  | .cons o a rest, sign, hsign, sum, term => by
    rcases o.rank_eq with ho | ho
    · rw [Tail.signedTerms_of_sum ho, Tail.grouped_cons_of_sum ho, a.evaluate_eq_value,
        sumTerms_cons hsign]
      exact rest.sumTerms_behind ho (.join sign sum term) a.grouped
    · rw [Tail.signedTerms_of_product ho, Tail.grouped_cons_of_product ho, a.evaluate_eq_value]
      exact rest.sumTerms_behind hsign sum (.join o term a.grouped)

end

end Values

end ShapeGrammar.Arithmetic
