import ShapeGrammar.Arithmetic.Tree

/-!
# The language of arithmetic

Which texts are expressions, and how two expressions at the beginning of one text compare. An
expression is closed by what follows if that neither continues the number at its end nor begins with
an operator and an atom. A closing parenthesis closes every expression. Of two expressions that a
text begins with, one that is closed is the other one, or longer. So a text has one closed
expression at its beginning at most, it is the longest one, and no text is written for two
expressions.

Headlines: `Expression.Closed`, `Expression.compare_closed`, `Expression.shorter_of_closed`.
-/

namespace ShapeGrammar.Arithmetic

/-! ## Characters -/

theorem digitChar_injective {d d' : Fin 10} (h : digitChar d = digitChar d') : d = d' := by
  revert d d'
  decide

theorem digitChar_ne_open (d : Fin 10) : digitChar d ≠ '(' := by
  revert d
  decide

theorem digitChar_ne_close (d : Fin 10) : digitChar d ≠ ')' := by
  revert d
  decide

theorem Operator.char_injective {o o' : Operator} (h : o.char = o'.char) : o = o' := by
  cases o <;> cases o' <;> first | rfl | exact absurd h (by decide)

theorem Operator.char_ne_close (o : Operator) : o.char ≠ ')' := by
  cases o <;> decide

theorem Operator.char_ne_digitChar (o : Operator) (d : Fin 10) : o.char ≠ digitChar d := by
  revert d
  cases o <;> decide

/-! ## What closes an expression -/

/-- A digit comes first. -/
def StartsDigit (after : List Char) : Prop :=
  ∃ d rest, after = digitChar d :: rest

/-- An operator and an atom come first. -/
def StartsLink (after : List Char) : Prop :=
  ∃ (o : Operator) (a : Atom) (rest : List Char), after = o.char :: (a.text ++ rest)

/-- What follows does not continue an atom. -/
def Atom.Closed : Atom → List Char → Prop
  | .group _, _ => True
  | .literal _, after => ¬ StartsDigit after

/-- What follows continues neither the last atom of a chain nor the chain. -/
def Tail.Closed (last : Atom) : Tail → List Char → Prop
  | .nil, after => last.Closed after ∧ ¬ StartsLink after
  | .cons _ a rest, after => rest.Closed a after

/-- What follows continues neither the last atom of an expression nor its chain. -/
def Expression.Closed : Expression → List Char → Prop
  | .chain head tail, after => tail.Closed head after

theorem startsDigit_close (rest : List Char) : ¬ StartsDigit (')' :: rest) := by
  rintro ⟨d, rest', h⟩
  exact digitChar_ne_close d (List.cons.inj h).1.symm

theorem startsLink_close (rest : List Char) : ¬ StartsLink (')' :: rest) := by
  rintro ⟨o, a, rest', h⟩
  exact o.char_ne_close (List.cons.inj h).1.symm

theorem Tail.closed_close (rest : List Char) :
    ∀ (last : Atom) (t : Tail), t.Closed last (')' :: rest)
  | .group _, .nil => ⟨trivial, startsLink_close rest⟩
  | .literal _, .nil => ⟨startsDigit_close rest, startsLink_close rest⟩
  | _, .cons _ a t => t.closed_close rest a

/-- A closing parenthesis closes every expression. -/
theorem Expression.closed_close (rest : List Char) (e : Expression) : e.Closed (')' :: rest) := by
  cases e with
  | chain head tail => exact tail.closed_close rest head

/-! ## Two readings of one text -/

/-- Of two rows of digits at the beginning of one text, one goes on where the other ends. -/
theorem digits_compare : ∀ {ds ds' : List (Fin 10)} {r r' : List Char},
    ds.map digitChar ++ r = ds'.map digitChar ++ r' →
      (ds = ds' ∧ r = r') ∨ (∃ d s, r = digitChar d :: (s ++ r')) ∨
        ∃ d s, r' = digitChar d :: (s ++ r)
  | [], [], r, r', h => .inl ⟨rfl, h⟩
  | [], d :: ds', r, r', h => .inr (.inl ⟨d, ds'.map digitChar, h⟩)
  | d :: ds, [], r, r', h => .inr (.inr ⟨d, ds.map digitChar, h.symm⟩)
  | d :: ds, d' :: ds', r, r', h => by
    obtain ⟨hd, hrest⟩ := List.cons.inj h
    rcases digits_compare hrest with ⟨rfl, rfl⟩ | hlater
    · exact .inl ⟨by rw [digitChar_injective hd], rfl⟩
    · exact .inr hlater

/-- Where the first of two expressions that a text begins with is closed, the second one is the same
or stops before it. -/
def ComparesClosed (e' : Expression) : Prop :=
  ∀ {e : Expression} {r r' : List Char}, e.text ++ r = e'.text ++ r' → e.Closed r →
    (e = e' ∧ r = r') ∨ (¬ e'.Closed r' ∧ ∃ s, s ≠ [] ∧ r' = s ++ r)

/-- Two atoms at the beginning of one text are the same, unless one of them is a number that goes on
where the other ends. -/
def ComparesAtoms (a' : Atom) : Prop :=
  ∀ {a : Atom} {r r' : List Char}, a.text ++ r = a'.text ++ r' →
    (a = a' ∧ r = r') ∨ (∃ ds d s, a = .literal ds ∧ r = digitChar d :: (s ++ r')) ∨
      ∃ ds d s, a' = .literal ds ∧ r' = digitChar d :: (s ++ r)

/-- The same for the chains behind an atom. -/
def ComparesTails (t' : Tail) : Prop :=
  ∀ {last : Atom} {t : Tail} {r r' : List Char}, t.text ++ r = t'.text ++ r' → t.Closed last r →
    (t = t' ∧ r = r') ∨ (¬ t'.Closed last r' ∧ ∃ s, s ≠ [] ∧ r' = s ++ r)

/-- An atom and the chain behind it. -/
theorem compare_link {a a' : Atom} {t t' : Tail} {r r' : List Char} (ha : ComparesAtoms a')
    (ht : ComparesTails t') (h : a.text ++ (t.text ++ r) = a'.text ++ (t'.text ++ r'))
    (hclosed : t.Closed a r) :
    (a = a' ∧ t = t' ∧ r = r') ∨ (¬ t'.Closed a' r' ∧ ∃ s, s ≠ [] ∧ r' = s ++ r) := by
  rcases ha h with ⟨rfl, hrest⟩ | ⟨ds, d, s, rfl, hdigit⟩ | ⟨ds, d, s, rfl, hdigit⟩
  · rcases ht hrest hclosed with ⟨rfl, rfl⟩ | hlater
    · exact .inl ⟨rfl, rfl, rfl⟩
    · exact .inr hlater
  · -- the first number would go on
    exfalso
    cases t with
    | nil => exact hclosed.1 ⟨d, _, hdigit⟩
    | cons o b t => exact o.char_ne_digitChar d (List.cons.inj hdigit).1
  · -- the second number goes on
    cases t' with
    | nil =>
      refine .inr ⟨fun hclosed' => hclosed'.1 ⟨d, _, hdigit⟩, digitChar d :: (s ++ t.text),
        by simp, ?_⟩
      simpa [Tail.text] using hdigit
    | cons o b t' => exact absurd (List.cons.inj hdigit).1 (o.char_ne_digitChar d)

mutual

theorem Expression.compare_closed : ∀ e' : Expression, ComparesClosed e'
  | .chain head' tail', .chain head tail, r, r', h, hclosed => by
    have hlink : head.text ++ (tail.text ++ r) = head'.text ++ (tail'.text ++ r') := by
      simpa [Expression.text] using h
    rcases compare_link head'.compare tail'.compare_closed hlink hclosed with
      ⟨rfl, rfl, rfl⟩ | hlater
    · exact .inl ⟨rfl, rfl⟩
    · exact .inr hlater

theorem Atom.compare : ∀ a' : Atom, ComparesAtoms a'
  | .group e', .group e, r, r', h => by
    have hinner : e.text ++ (')' :: r) = e'.text ++ (')' :: r') := by
      simpa [Atom.text] using h
    rcases e'.compare_closed hinner (e.closed_close r) with ⟨rfl, hrest⟩ | ⟨hopen, -⟩
    · exact .inl ⟨rfl, (List.cons.inj hrest).2⟩
    · exact absurd (e'.closed_close r') hopen
  | .group e', .literal ds, r, r', h => absurd (List.cons.inj h).1 (digitChar_ne_open ds.first)
  | .literal ds', .group e, r, r', h =>
    absurd (List.cons.inj h).1.symm (digitChar_ne_open ds'.first)
  | .literal ds', .literal ds, r, r', h => by
    have hdigits : (ds.first :: ds.rest).map digitChar ++ r =
        (ds'.first :: ds'.rest).map digitChar ++ r' := h
    rcases digits_compare hdigits with
      ⟨hsame, rfl⟩ | ⟨d, s, hlater⟩ | ⟨d, s, hlater⟩
    · obtain ⟨hfirst, hrest⟩ := List.cons.inj hsame
      left
      obtain ⟨first, rest⟩ := ds
      obtain ⟨first', rest'⟩ := ds'
      cases hfirst
      cases hrest
      exact ⟨rfl, rfl⟩
    · exact .inr (.inl ⟨ds, d, s, rfl, hlater⟩)
    · exact .inr (.inr ⟨ds', d, s, rfl, hlater⟩)

theorem Tail.compare_closed : ∀ t' : Tail, ComparesTails t'
  | .nil, last, .nil, r, r', h, _ => .inl ⟨rfl, h⟩
  | .nil, last, .cons o a t, r, r', h, _ => by
    have hlink : r' = o.char :: (a.text ++ (t.text ++ r)) := by simpa [Tail.text] using h.symm
    refine .inr ⟨fun hclosed => hclosed.2 ⟨o, a, _, hlink⟩, o.char :: (a.text ++ t.text), by simp,
      ?_⟩
    simpa using hlink
  | .cons o' a' t', last, .nil, r, r', h, hclosed => by
    refine absurd ⟨o', a', t'.text ++ r', ?_⟩ hclosed.2
    simpa [Tail.text] using h
  | .cons o' a' t', last, .cons o a t, r, r', h, hclosed => by
    obtain ⟨ho, hrest⟩ := List.cons.inj h
    have hlink : a.text ++ (t.text ++ r) = a'.text ++ (t'.text ++ r') := by
      simpa using hrest
    rcases compare_link a'.compare t'.compare_closed hlink hclosed with ⟨rfl, rfl, rfl⟩ | hlater
    · exact .inl ⟨by rw [Operator.char_injective ho], rfl⟩
    · exact .inr hlater

end

/-- **No other expression at the beginning of a text reaches as far as one that is closed.** -/
theorem Expression.shorter_of_closed {cs r : List Char} {e e' : Expression} (h : cs = e.text ++ r)
    (hclosed : e.Closed r) (hbegins : e'.text <+: cs) (hne : e' ≠ e) :
    e'.text.length < e.text.length := by
  obtain ⟨r', h'⟩ := hbegins
  rcases e'.compare_closed (h.symm.trans h'.symm) hclosed with ⟨rfl, -⟩ | ⟨-, s, hs, rfl⟩
  · exact absurd rfl hne
  · have hlength := congrArg List.length (h.symm.trans h'.symm)
    have hpos := List.length_pos_iff.mpr hs
    simp only [List.length_append] at hlength
    omega

end ShapeGrammar.Arithmetic
