import ShapeGrammar.Proofs.Arithmetic.Longest

/-!
# Parsing what was written

To parse undoes to write. An expression that is written in front of something that continues neither
a number nor a chain is found again, just as it was; and whatever expression is found in a text, the
text begins with what is written for it, up to where the cursor stands.

An expression is closed by such a rest whatever it ends with, and a text begins with one closed
expression at most.

Headlines: `Expression.closed_of_ends`, `settled_parse`, `parse_text`.
-/

namespace ShapeGrammar.Arithmetic

open Setting

/-! ## What closes every expression -/

section Closed

variable {after : List Char}

theorem Atom.closed_of_not_startsDigit (h : ¬ StartsDigit after) (a : Atom) : a.Closed after := by
  cases a with
  | group e => trivial
  | literal ds => exact h

theorem Tail.closed_of_ends (hdigit : ¬ StartsDigit after) (hlink : ¬ StartsLink after) :
    ∀ (last : Atom) (t : Tail), t.Closed last after
  | last, .nil => ⟨last.closed_of_not_startsDigit hdigit, hlink⟩
  | _, .cons _ a rest => rest.closed_of_ends hdigit hlink a

/-- What begins neither with a digit nor with an operator and an atom closes every expression. -/
theorem Expression.closed_of_ends (hdigit : ¬ StartsDigit after) (hlink : ¬ StartsLink after)
    (e : Expression) : e.Closed after := by
  cases e with
  | chain head tail => exact tail.closed_of_ends hdigit hlink head

/-- A text begins with one closed expression at most. -/
theorem Expression.closed_unique {e e' : Expression} {r r' : List Char}
    (h : e.text ++ r = e'.text ++ r') (hr : e.Closed r) (hr' : e'.Closed r') :
    e = e' ∧ r = r' :=
  (e'.compare_closed h hr).resolve_right fun hlonger => hlonger.1 hr'

end Closed

/-! ## Calls -/

/-- How a call of the parser of expressions ends: it matches the closed expression that comes next,
or there is none and it does not match. -/
inductive SettledParse (entry : Entry) (text : String) (i : Nat) : Prop
  | tree (e : Expression) (r : List Char) (c : CursorId) (m : Machine)
    (reads : left text i = e.text ++ r) (closed : e.Closed r)
    (call : Symbol.expression.parse .derived entry text i = (.ok (.matched c e.toValue), m))
    (place : m.cursor c = ⟨.ofText text, i + e.text.length, true⟩)
  | none (lacks : ∀ (e : Expression) (r : List Char), left text i ≠ e.text ++ r)
    (call : ∀ c v m, Symbol.expression.parse .derived entry text i ≠ (.ok (.matched c v), m))

/-- **Every call of the parser of expressions settles what comes next.** -/
theorem settled_parse (entry : Entry) (text : String) (i : Nat) : SettledParse entry text i := by
  have hlimit : 8 * (left text i).length + 13 ≤ Limits.standard.calls text.toList.length := by
    have hleft : (left text i).length ≤ text.toList.length := by simp [left]
    show _ ≤ 8192 + 64 * text.toList.length
    omega
  have hat : (setting text).At i 0 (machineAt text i planned) := at_machineAt List.mem_cons_self
  cases (settles_expression (left text i).length (Nat.le_refl _)).mono hlimit with
  | tree e r reads closed runs =>
    obtain ⟨c, m, hrun, hat'⟩ := runs.run entry hat
    exact .tree e r c m reads closed (parse_of_run hrun) hat'.place
  | none lacks runs =>
    obtain ⟨m, hrun, -⟩ := runs.run entry hat
    refine .none lacks fun c v m' hmatched => ?_
    have hends := (parse_of_run hrun).symm.trans hmatched
    cases entry <;> cases hends

/-- What is left of a text where a tree is written at its beginning. -/
theorem left_written (t : Expression) (r : String) :
    left (String.ofList t.text ++ r) 0 = t.text ++ r.toList := by
  simp [left]

/-- **To parse undoes to write.** A tree that is written in front of something that begins neither
with a digit nor with an operator and an atom is the value that is parsed, and the cursor stands
behind it. Where a text is parsed to a value, the value is a tree, and what is written for that tree
is the text up to the cursor. -/
theorem parse_text :
    (∀ (entry : Entry) (t : Expression) (r : String),
      ¬ StartsDigit r.toList → ¬ StartsLink r.toList →
        ∃ c m, Symbol.expression.parse .derived entry (String.ofList t.text ++ r) 0 =
            (.ok (.matched c t.toValue), m) ∧
          m.cursor c = ⟨.ofText (String.ofList t.text ++ r), t.text.length, true⟩) ∧
    (∀ (entry : Entry) (s : String) (c : CursorId) (v : Value) (m : Machine),
      Symbol.expression.parse .derived entry s 0 = (.ok (.matched c v), m) →
        ∃ t : Expression, v = t.toValue ∧ Expression.ofValue? v = some t ∧
          m.cursor c = ⟨.ofText s, t.text.length, true⟩ ∧
          t.text = s.toList.take (m.cursor c).position) := by
  constructor
  · intro entry t r hdigit hlink
    have hwritten := left_written t r
    have hclosed := t.closed_of_ends hdigit hlink
    cases settled_parse entry (String.ofList t.text ++ r) 0 with
    | tree e r' c m reads closed call place =>
      obtain ⟨rfl, -⟩ := Expression.closed_unique (hwritten.symm.trans reads) hclosed closed
      rw [Nat.zero_add] at place
      exact ⟨c, m, call, place⟩
    | none lacks call => exact absurd hwritten (lacks t r.toList)
  · intro entry s c v m hparse
    cases settled_parse entry s 0 with
    | tree e r d m' reads closed call place =>
      cases call.symm.trans hparse
      rw [Nat.zero_add] at place
      refine ⟨e, rfl, e.ofValue?_toValue, place, ?_⟩
      have hwhole : s.toList = e.text ++ r := reads
      rw [place, hwhole, List.take_left]
    | none lacks call => exact absurd hparse (call c v m)

/-- The tree of `(007)-1`. -/
def zerosLess : Expression :=
  .chain (.group (.chain (.literal ⟨0, [0, 7]⟩) .nil)) (.cons .minus (.literal ⟨1, []⟩) .nil)

/-- Of `(007)-1+`, everything but the operator at the end is found again. -/
theorem parse_text_zerosLess :
    ¬ StartsDigit "+".toList ∧ ¬ StartsLink "+".toList ∧
      String.ofList zerosLess.text ++ "+" = "(007)-1+" ∧
      (∃ c m, Symbol.expression.parse .derived .total "(007)-1+" 0 =
          (.ok (.matched c zerosLess.toValue), m) ∧
        m.cursor c = ⟨.ofText "(007)-1+", 7, true⟩ ∧
        ∃ t : Expression, zerosLess.toValue = t.toValue ∧
          t.text = "(007)-1+".toList.take (m.cursor c).position) := by
  have hdigit : ¬ StartsDigit "+".toList := by
    rintro ⟨d, rest, h⟩
    exact Operator.plus.char_ne_digitChar d (List.cons.inj h).1
  have hlink : ¬ StartsLink "+".toList := by
    rintro ⟨o, a, rest, h⟩
    have hnothing : a.text ++ rest = [] := (List.cons.inj h).2.symm
    cases a <;> cases hnothing
  have hwritten : String.ofList zerosLess.text ++ "+" = "(007)-1+" := by decide
  obtain ⟨c, m, hparse, hplace⟩ := parse_text.1 .total zerosLess "+" hdigit hlink
  rw [hwritten] at hparse hplace
  obtain ⟨t, ht, -, -, htext⟩ := parse_text.2 .total "(007)-1+" c _ m hparse
  exact ⟨hdigit, hlink, hwritten, c, m, hparse, hplace, t, ht, htext⟩

end ShapeGrammar.Arithmetic
