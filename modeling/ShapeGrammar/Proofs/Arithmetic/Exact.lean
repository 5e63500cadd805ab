import Mathlib.Data.Nat.Digits.Defs
import ShapeGrammar.Proofs.Arithmetic.Precedence
import ShapeGrammar.Proofs.Arithmetic.Printing

/-!
# Exact arithmetic

What a text of arithmetic denotes, as a grammar with a value for every rule: sums of products of
atoms, where an atom is a number in decimal or a sum in parentheses. Evaluating an expression
without quotients gives the integer that its text denotes, exactly, however large it is; and a text
that denotes an integer is parsed to such an expression, up to its end.

Headlines: `Denotes`, `Digits.value_eq_ofDigits`, `Expression.number_of_exact`, `evaluate_denoted`.
-/

namespace ShapeGrammar.Arithmetic

/-! ## Numbers in decimal -/

/-- The digits of a number, from the left. -/
def Digits.all (ds : Digits) : List Nat :=
  (ds.first :: ds.rest).map Fin.val

theorem foldl_eq_ofDigits (n : Nat) : ∀ ds : List Nat,
    ds.foldl (fun n d => n * 10 + d) n = n * 10 ^ ds.length + Nat.ofDigits 10 ds.reverse
  | [] => by simp
  | d :: ds => by
    rw [List.foldl_cons, foldl_eq_ofDigits (n * 10 + d) ds, List.reverse_cons,
      Nat.ofDigits_append, List.length_reverse, Nat.ofDigits_singleton, List.length_cons]
    ring

/-- **The value of a number is the one that its digits have in decimal.** -/
theorem Digits.value_eq_ofDigits (ds : Digits) : ds.value = Nat.ofDigits 10 ds.all.reverse := by
  have hfold : ds.value = (ds.rest.map Fin.val).foldl (fun n d => n * 10 + d) ds.first.val := by
    rw [List.foldl_map]
    rfl
  rw [hfold, foldl_eq_ofDigits, all, List.map_cons, List.reverse_cons, Nat.ofDigits_append,
    Nat.ofDigits_singleton, List.length_reverse]
  ring

/-! ## Expressions without quotients -/

mutual

/-- Nothing is divided in the expression. -/
def Expression.DivideFree : Expression → Prop
  | .chain head tail => head.DivideFree ∧ tail.DivideFree

/-- Nothing is divided in the atom. -/
def Atom.DivideFree : Atom → Prop
  | .group inner => inner.DivideFree
  | .literal _ => True

/-- Nothing is divided in the chain. -/
def Tail.DivideFree : Tail → Prop
  | .nil => True
  | .cons o a rest => o ≠ .divide ∧ a.DivideFree ∧ rest.DivideFree

end

theorem Operator.char_ne_slash {o : Operator} (h : o ≠ .divide) : o.char ≠ '/' := by
  cases o with
  | divide => exact absurd rfl h
  | plus | minus | times => decide

theorem digitChar_ne_slash : ∀ d : Fin 10, digitChar d ≠ '/' := by
  decide

mutual

/-- Nothing is divided iff no slash is written. -/
theorem Expression.divideFree_iff : ∀ e : Expression, e.DivideFree ↔ '/' ∉ e.text
  | .chain head tail => by
    rw [Expression.DivideFree, Expression.text, head.divideFree_iff, tail.divideFree_iff,
      List.mem_append, not_or]

theorem Atom.divideFree_iff : ∀ a : Atom, a.DivideFree ↔ '/' ∉ a.text
  | .group inner => by
    rw [Atom.DivideFree, Atom.text, inner.divideFree_iff]
    simp
  | .literal ds => by
    have hdigits : '/' ∉ ds.text := by
      show '/' ∉ (ds.first :: ds.rest).map digitChar
      simp only [List.mem_map, not_exists, not_and]
      exact fun d _ => digitChar_ne_slash d
    exact ⟨fun _ => hdigits, fun _ => trivial⟩

theorem Tail.divideFree_iff : ∀ t : Tail, t.DivideFree ↔ '/' ∉ t.text
  | .nil => by simp [Tail.DivideFree, Tail.text]
  | .cons o a rest => by
    rw [Tail.DivideFree, Tail.text, a.divideFree_iff, rest.divideFree_iff, List.mem_cons,
      List.mem_append, not_or, not_or]
    have ho : o ≠ .divide ↔ ¬ '/' = o.char :=
      ⟨fun h heq => Operator.char_ne_slash h heq.symm, fun h heq => h (by rw [heq]; rfl)⟩
    rw [ho]

end

/-- An interpretation of the operators in integers that is exact but for quotients. -/
structure ExactOnInts (f : Operator → Int → Int → Int) : Prop where
  plus : ∀ i j, f .plus i j = i + j
  minus : ∀ i j, f .minus i j = i - j
  times : ∀ i j, f .times i j = i * j

section Ints

variable {f : Operator → Int → Int → Int}

/-- Only operators of sums stand between terms. -/
theorem Tail.rank_signedTerms : ∀ (t : Tail) (i : Int),
    ∀ u ∈ (t.signedTerms f Int.ofNat i).2, u.1.rank = 0
  | .nil, _, _, hu => nomatch hu
  | .cons o a rest, i, u, hu => by
    rcases o.rank_eq with ho | ho
    · rw [Tail.signedTerms_of_sum ho] at hu
      rcases List.mem_cons.mp hu with rfl | hu
      · exact ho
      · exact rest.rank_signedTerms _ u hu
    · rw [Tail.signedTerms_of_product ho] at hu
      exact rest.rank_signedTerms _ u hu

theorem apply_ints (hf : ExactOnInts f) {o : Operator} (ho : o ≠ .divide) (i j : Int) :
    Number.apply o (.int i) (.int j) = .ok (.int (f o i j)) := by
  cases o with
  | plus => rw [hf.plus]; rfl
  | minus => rw [hf.minus]; rfl
  | times => rw [hf.times]; rfl
  | divide => exact absurd rfl ho

/-- A term of integers as a term of numbers. -/
def Operator.signed (t : Operator × Int) : Operator × Number :=
  (t.1, .int t.2)

theorem sumTerms_ints (hf : ExactOnInts f) : ∀ {ts : List (Operator × Int)} (i : Int),
    (∀ t ∈ ts, t.1.rank = 0) → sumTerms Number.apply (.int i) (ts.map Operator.signed) =
      .ok (.int (sumTerms (m := Id) f i ts))
  | [], i, _ => rfl
  | (o, j) :: ts, i, h => by
    have ho : o.rank = 0 := h (o, j) List.mem_cons_self
    have hdivide : o ≠ .divide := by
      rintro rfl
      cases ho
    rw [List.map_cons, Operator.signed, sumTerms_cons ho, sumTerms_cons ho,
      apply_ints hf hdivide i j]
    exact sumTerms_ints hf _ fun u hu => h u (List.mem_cons_of_mem _ hu)

mutual

/-- Without quotients, the value in numbers is the one in integers. -/
theorem Expression.number_eq_int (hf : ExactOnInts f) : ∀ {e : Expression}, e.DivideFree →
    e.number = .ok (.int (e.evaluate (m := Id) f Int.ofNat))
  | .chain head tail, h => by
    have hhead : head.evaluate Number.apply (fun n => .int n) =
        .ok (.int (head.evaluate (m := Id) f Int.ofNat)) := head.number_eq_int hf h.1
    have hterms := tail.terms_eq_ints hf h.2 (head.evaluate (m := Id) f Int.ofNat)
    rw [Expression.evaluate_chain, Expression.number, Expression.evaluate_eq_terms, hhead]
    show (tail.terms Number.apply (fun n => .int n) _ >>= fun r => sumTerms _ r.1 r.2) = _
    rw [hterms]
    exact sumTerms_ints hf _ (tail.rank_signedTerms _)

theorem Atom.number_eq_int (hf : ExactOnInts f) : ∀ {a : Atom}, a.DivideFree →
    a.number = .ok (.int (a.evaluate (m := Id) f Int.ofNat))
  | .group _, h => Expression.number_eq_int hf h
  | .literal _, _ => rfl

theorem Tail.terms_eq_ints (hf : ExactOnInts f) : ∀ {t : Tail}, t.DivideFree → ∀ i : Int,
    t.terms Number.apply (fun n => Number.int n) (.int i) =
      .ok (.int (t.signedTerms f Int.ofNat i).1,
        (t.signedTerms f Int.ofNat i).2.map Operator.signed)
  | .nil, _, _ => rfl
  | .cons o a rest, ⟨ho, ha, hrest⟩, i => by
    have hatom : a.evaluate Number.apply (fun n => .int n) =
        .ok (.int (a.evaluate (m := Id) f Int.ofNat)) := a.number_eq_int hf ha
    rcases o.rank_eq with hrank | hrank
    · rw [Tail.terms_of_sum hrank, hatom, Tail.signedTerms_of_sum hrank]
      show (rest.terms Number.apply _ _ >>= fun r => _) = _
      rw [rest.terms_eq_ints hf hrest]
      rfl
    · rw [Tail.terms_of_product hrank, hatom, Tail.signedTerms_of_product hrank]
      show (Number.apply o (.int i) _ >>= fun product => _) = _
      rw [apply_ints hf ho]
      exact rest.terms_eq_ints hf hrest _

end

/-- **Evaluating an expression without quotients gives an integer exactly**: the value of its
grouped tree. -/
theorem Expression.number_of_exact (hf : ExactOnInts f) {e : Expression} (h : e.DivideFree) :
    e.number = .ok (.int (e.grouped.value f Int.ofNat)) := by
  rw [e.number_eq_int hf h, e.evaluate_eq_value]

end Ints

/-! ## What a text denotes -/

/-- A text denotes an integer: as an atom (2), as a product of atoms (1) or as a sum of products
(0). An atom is a number in decimal or a sum in parentheses. -/
inductive Denotes : Nat → List Char → Int → Prop
  | number (ds : Digits) : Denotes 2 ds.text (Int.ofNat (Nat.ofDigits 10 ds.all.reverse))
  | group {cs : List Char} {i : Int} : Denotes 0 cs i → Denotes 2 ('(' :: (cs ++ [')'])) i
  | times {cs cs' : List Char} {i j : Int} : Denotes 1 cs i → Denotes 2 cs' j →
      Denotes 1 (cs ++ '*' :: cs') (i * j)
  | plus {cs cs' : List Char} {i j : Int} : Denotes 0 cs i → Denotes 1 cs' j →
      Denotes 0 (cs ++ '+' :: cs') (i + j)
  | minus {cs cs' : List Char} {i j : Int} : Denotes 0 cs i → Denotes 1 cs' j →
      Denotes 0 (cs ++ '-' :: cs') (i - j)
  | alone {k : Nat} {cs : List Char} {i : Int} : Denotes (k + 1) cs i → Denotes k cs i

theorem Denotes.loosen {j k : Nat} {cs : List Char} {i : Int} (h : Denotes k cs i) (hle : j ≤ k) :
    Denotes j cs i := by
  induction k, hle using Nat.le_induction with
  | base => exact h
  | succ k _ ih => exact ih h.alone

theorem Tail.text_append : ∀ t u : Tail, (t.append u).text = t.text ++ u.text
  | .nil, _ => rfl
  | .cons o a rest, u => by
    simp only [append, text, rest.text_append u, List.cons_append, List.append_assoc]

theorem Expression.text_join (o : Operator) (e e' : Expression) :
    (e.join o e').text = e.text ++ o.char :: e'.text := by
  cases e
  cases e'
  simp only [join, text, Tail.text_append, Tail.text, List.append_assoc]

theorem Binary.text_literal (ds : Digits) : (Binary.literal ds).flatten.text = ds.text :=
  List.append_nil ds.text

theorem Binary.text_group (inner : Binary) :
    (Binary.group inner).flatten.text = '(' :: (inner.flatten.text ++ [')']) :=
  List.append_nil _

theorem Binary.text_join (o : Operator) (left right : Binary) :
    (Binary.join o left right).flatten.text = left.flatten.text ++ o.char :: right.flatten.text :=
  Expression.text_join o _ _

section Meaning

variable {f : Operator → Int → Int → Int} (hf : ExactOnInts f)
include hf

/-- The text of a grouped tree without quotients denotes its value. -/
theorem denotes_of_grouped : ∀ {t : Binary}, t.Grouped → '/' ∉ t.flatten.text →
    Denotes t.rank t.flatten.text (t.value f Int.ofNat)
  | .literal ds, _, _ => by
    rw [Binary.text_literal, Binary.value, ds.value_eq_ofDigits]
    exact .number ds
  | .group inner, h, hfree => by
    rw [Binary.text_group] at hfree ⊢
    have hinner : '/' ∉ inner.flatten.text := by
      simp only [List.mem_cons, List.mem_append, not_or] at hfree
      exact hfree.2.1
    exact .group ((denotes_of_grouped (t := inner) h hinner).loosen (Nat.zero_le _))
  | .join o left right, ⟨hleft, hright, hl, hr⟩, hfree => by
    rw [Binary.text_join] at hfree ⊢
    simp only [List.mem_append, List.mem_cons, not_or] at hfree
    obtain ⟨hfl, ho, hfr⟩ := hfree
    have ihl := (denotes_of_grouped hl hfl).loosen hleft
    have ihr := (denotes_of_grouped hr hfr).loosen (Nat.succ_le_of_lt hright)
    cases o with
    | plus => rw [Binary.value, hf.plus]; exact .plus ihl ihr
    | minus => rw [Binary.value, hf.minus]; exact .minus ihl ihr
    | times => rw [Binary.value, hf.times]; exact .times ihl ihr
    | divide => exact absurd rfl ho

/-- What a text denotes is the value of a grouped tree that is written as the text. -/
theorem grouped_of_denotes {k : Nat} {cs : List Char} {i : Int} (h : Denotes k cs i) :
    ∃ t : Binary, t.Grouped ∧ k ≤ t.rank ∧ t.flatten.text = cs ∧ '/' ∉ cs ∧
      t.value f Int.ofNat = i := by
  induction h with
  | number ds =>
    refine ⟨.literal ds, trivial, Nat.le_refl 2, Binary.text_literal ds,
      (Atom.divideFree_iff (.literal ds)).mp trivial, ?_⟩
    rw [Binary.value, ds.value_eq_ofDigits]
  | group _ ih =>
    obtain ⟨t, ht, -, rfl, hfree, rfl⟩ := ih
    exact ⟨.group t, ht, Nat.le_refl 2, Binary.text_group t, by simpa using hfree, rfl⟩
  | times _ _ ihl ihr =>
    obtain ⟨l, hl, hleft, rfl, hfl, rfl⟩ := ihl
    obtain ⟨r, hr, hright, rfl, hfr, rfl⟩ := ihr
    exact ⟨.join .times l r, ⟨hleft, hright, hl, hr⟩, Nat.le_refl 1, Binary.text_join .times l r,
      by simpa using ⟨hfl, hfr⟩, hf.times _ _⟩
  | plus _ _ ihl ihr =>
    obtain ⟨l, hl, hleft, rfl, hfl, rfl⟩ := ihl
    obtain ⟨r, hr, hright, rfl, hfr, rfl⟩ := ihr
    exact ⟨.join .plus l r, ⟨hleft, hright, hl, hr⟩, Nat.le_refl 0, Binary.text_join .plus l r,
      by simpa using ⟨hfl, hfr⟩, hf.plus _ _⟩
  | minus _ _ ihl ihr =>
    obtain ⟨l, hl, hleft, rfl, hfl, rfl⟩ := ihl
    obtain ⟨r, hr, hright, rfl, hfr, rfl⟩ := ihr
    exact ⟨.join .minus l r, ⟨hleft, hright, hl, hr⟩, Nat.le_refl 0, Binary.text_join .minus l r,
      by simpa using ⟨hfl, hfr⟩, hf.minus _ _⟩
  | alone _ ih =>
    obtain ⟨t, ht, hrank, hrest⟩ := ih
    exact ⟨t, ht, by omega, hrest⟩

end Meaning

/-! ## The theorem -/

/-- An integer for every pair of integers, whatever the operator; a quotient is rounded down. -/
def Operator.onInts : Operator → Int → Int → Int
  | .plus, i, j => i + j
  | .minus, i, j => i - j
  | .times, i, j => i * j
  | .divide, i, j => i / j

theorem Operator.exactOnInts : ExactOnInts Operator.onInts :=
  ⟨fun _ _ => rfl, fun _ _ => rfl, fun _ _ => rfl⟩

/-- A text without a slash that is written for an expression denotes the value of the expression. -/
theorem Expression.denotes {e : Expression} (h : e.DivideFree) :
    ∃ i, Denotes 0 e.text i ∧ e.number = .ok (.int i) := by
  have hfree : '/' ∉ e.grouped.flatten.text := by
    rw [e.flatten_grouped]
    exact e.divideFree_iff.mp h
  have hdenotes := denotes_of_grouped Operator.exactOnInts e.grouped_grouped hfree
  rw [e.flatten_grouped] at hdenotes
  exact ⟨_, hdenotes.loosen (Nat.zero_le _), e.number_of_exact Operator.exactOnInts h⟩

/-- A text that denotes an integer is written for an expression with that value. -/
theorem expression_of_denotes {cs : List Char} {i : Int} (h : Denotes 0 cs i) :
    ∃ e : Expression, e.text = cs ∧ e.DivideFree ∧ e.number = .ok (.int i) := by
  obtain ⟨t, ht, -, rfl, hfree, rfl⟩ := grouped_of_denotes Operator.exactOnInts h
  have hgrouped := t.flatten.grouped_unique ht rfl
  have hdivide := t.flatten.divideFree_iff.mpr hfree
  have hnumber := Expression.number_of_exact Operator.exactOnInts hdivide
  rw [← hgrouped] at hnumber
  exact ⟨t.flatten, rfl, hdivide, hnumber⟩

theorem not_startsLink_nil : ¬ StartsLink [] := by
  rintro ⟨o, a, rest, h⟩
  cases h

theorem not_startsDigit_nil : ¬ StartsDigit [] := by
  rintro ⟨d, rest, h⟩
  cases h

/-- The end of a text closes every expression. -/
theorem Expression.closed_nil (e : Expression) : e.Closed [] :=
  e.closed_of_ends not_startsDigit_nil not_startsLink_nil

/-- A text denotes one integer at most. -/
theorem Denotes.unique {cs : List Char} {i j : Int} (hi : Denotes 0 cs i) (hj : Denotes 0 cs j) :
    i = j := by
  obtain ⟨e, rfl, -, he⟩ := expression_of_denotes hi
  obtain ⟨e', htext, -, he'⟩ := expression_of_denotes hj
  obtain ⟨rfl, -⟩ := Expression.closed_unique (congrArg (· ++ []) htext) e'.closed_nil e.closed_nil
  cases he.symm.trans he'
  rfl

/-- **Evaluation follows the usual precedence.** Every expression is written for one grouped tree,
and its value is that of the tree, whatever the operators do; without quotients, it is the exact
integer. A number has the value of its digits in decimal. A text that denotes an integer is parsed
up to its end, and what it is parsed to has this integer as its value; every text without a slash
that is parsed up to its end denotes an integer, and one only. -/
theorem evaluate_denoted :
    (∀ e : Expression, ∃ t : Binary,
      (t.Grouped ∧ t.flatten = e ∧ ∀ t' : Binary, t'.Grouped → t'.flatten = e → t' = t) ∧
      (∀ (N : Type) (apply : Operator → N → N → N) (literal : Nat → N),
        e.evaluate (m := Id) apply literal = t.value apply literal) ∧
      (e.DivideFree → ∀ f, ExactOnInts f → e.number = .ok (.int (t.value f Int.ofNat)))) ∧
    (∀ ds : Digits, ds.value = Nat.ofDigits 10 ds.all.reverse ∧
      Symbol.number.number? ds.toValue =
        some (.ok (.int (Int.ofNat (Nat.ofDigits 10 ds.all.reverse))))) ∧
    (∀ (text : String) (i : Int), Denotes 0 text.toList i → ∀ entry, ∃ c v m,
      Symbol.expression.parse .derived entry text 0 = (.ok (.matched c v), m) ∧
        m.cursor c = ⟨.ofText text, text.toList.length, true⟩ ∧
        Symbol.expression.number? v = some (.ok (.int i))) ∧
    (∀ (text : String) (entry : Entry) (c : CursorId) (v : Value) (m : Machine),
      Symbol.expression.parse .derived entry text 0 = (.ok (.matched c v), m) →
        (m.cursor c).position = text.toList.length → '/' ∉ text.toList →
          ∃ i, (Denotes 0 text.toList i ∧ ∀ j, Denotes 0 text.toList j → j = i) ∧
            Symbol.expression.number? v = some (.ok (.int i))) := by
  refine ⟨fun e => ?_, fun ds => ?_, fun text i h entry => ?_,
    fun text entry c v m h hend hfree => ?_⟩
  · exact ⟨e.grouped, ⟨e.grouped_grouped, e.flatten_grouped, fun t => e.grouped_unique⟩,
      fun N apply literal => e.evaluate_eq_value, fun hfree f hf => e.number_of_exact hf hfree⟩
  · refine ⟨ds.value_eq_ofDigits, ?_⟩
    rw [Symbol.number?, ds.ofValue?_toValue, ← ds.value_eq_ofDigits]
    rfl
  · obtain ⟨e, htext, -, hnumber⟩ := expression_of_denotes h
    have hwhole : left text 0 = e.text ++ [] := by
      rw [htext, List.append_nil]
      rfl
    cases settled_parse entry text 0 with
    | tree e' r c m reads closed call place =>
      obtain ⟨rfl, -⟩ :=
        Expression.closed_unique (hwhole.symm.trans reads) e.closed_nil closed
      rw [Nat.zero_add, htext] at place
      refine ⟨c, _, m, call, place, ?_⟩
      rw [Symbol.number?, e.ofValue?_toValue, Option.map_some, hnumber]
    | none lacks call => exact absurd hwhole (lacks e [])
  · cases settled_parse entry text 0 with
    | tree e r d m' reads closed call place =>
      cases call.symm.trans h
      have hwhole : text.toList = e.text ++ r := reads
      have hnothing : r = [] := by
        rw [place, hwhole, List.length_append] at hend
        exact List.eq_nil_of_length_eq_zero (by simpa using hend.symm)
      rw [hnothing, List.append_nil] at hwhole
      rw [hwhole] at hfree ⊢
      obtain ⟨i, hdenotes, hnumber⟩ := Expression.denotes (e.divideFree_iff.mpr hfree)
      refine ⟨i, ⟨hdenotes, fun j hj => hj.unique hdenotes⟩, ?_⟩
      rw [Symbol.number?, e.ofValue?_toValue, Option.map_some, hnumber]
    | none lacks call => exact absurd h (call c v m)

/-- `2*(10-3-4)+007` denotes 13, and is evaluated to 13. -/
theorem evaluate_denoted_thirteen :
    Denotes 0 "2*(10-3-4)+007".toList 13 ∧
      ∃ c v m, Symbol.expression.parse .derived .total "2*(10-3-4)+007" 0 =
          (.ok (.matched c v), m) ∧
        m.cursor c = ⟨.ofText "2*(10-3-4)+007", 14, true⟩ ∧
        Symbol.expression.number? v = some (.ok (.int 13)) := by
  have hten : Denotes 1 ['1', '0'] 10 := (Denotes.number ⟨1, [0]⟩).alone
  have hinner : Denotes 0 ['1', '0', '-', '3', '-', '4'] 3 :=
    .minus (.minus hten.alone (Denotes.number ⟨3, []⟩).alone) (Denotes.number ⟨4, []⟩).alone
  have hproduct : Denotes 1 ['2', '*', '(', '1', '0', '-', '3', '-', '4', ')'] 6 :=
    .times (Denotes.number ⟨2, []⟩).alone hinner.group
  have hdenotes : Denotes 0 "2*(10-3-4)+007".toList 13 :=
    .plus hproduct.alone (Denotes.number ⟨0, [0, 7]⟩).alone
  exact ⟨hdenotes, evaluate_denoted.2.2.1 "2*(10-3-4)+007" 13 hdenotes .total⟩

end ShapeGrammar.Arithmetic
