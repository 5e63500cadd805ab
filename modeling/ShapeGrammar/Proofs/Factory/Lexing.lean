import Mathlib.Data.Nat.Digits.Defs
import ShapeGrammar.Factory.Tokens

/-!
# Reading what was written, token by token

What the reader makes of the pieces that lines are written of: a name in front of something that no
word goes on with, a number, and a literal, whose escapes it undoes. A text of such lines falls into
the lines that were written.

Headlines: `lex_name`, `lex_quoted`, `fullLines`, `linesOf_written`.
-/

namespace ShapeGrammar

/-! ## Words -/

/-- No word goes on here. -/
def Apart (rest : List Char) : Prop :=
  rest.head?.all (!isWordChar ·) = true

/-- Characters that stand in words. -/
def IsWord (word : List Char) : Prop :=
  ∀ c ∈ word, isWordChar c = true

-- by its characters: to go through all there are decides nothing
instance (word : List Char) : Decidable (IsWord word) :=
  List.decidableBAll _ word

/-- A text that is read as one name. -/
structure IsName (text : String) : Prop where
  nonempty : text.toList ≠ []
  word : IsWord text.toList
  name : Token.ofWord text.toList = .name text

theorem lex_word (rest : List Char) : ∀ (word front : List Char), IsWord word →
    lex (.word front) (word ++ rest) = lex (.word (word.reverse ++ front)) rest
  | [], _, _ => rfl
  | c :: word, front, h => by
    have hstep : Lexing.step (.word front) c = ([], .word (c :: front)) :=
      if_pos (h c List.mem_cons_self)
    rw [List.cons_append, lex, hstep, List.nil_append,
      lex_word rest word (c :: front) fun d hd => h d (List.mem_cons_of_mem c hd)]
    simp

/-- A word ends where no word goes on. -/
theorem lex_ofWord {word rest : List Char} (hne : word ≠ []) (h : IsWord word)
    (hrest : Apart rest) :
    lex .between (word ++ rest) = Token.ofWord word :: lex .between rest := by
  obtain ⟨c, cs, rfl⟩ := List.exists_cons_of_ne_nil hne
  have hstart : Lexing.step .between c = ([], .word [c]) := if_pos (h c List.mem_cons_self)
  rw [List.cons_append, lex, hstart, List.nil_append,
    lex_word rest cs [c] fun d hd => h d (List.mem_cons_of_mem c hd)]
  have hword : (cs.reverse ++ [c]).reverse = c :: cs := by simp
  cases rest with
  | nil => rw [lex, Lexing.finish, hword, lex, Lexing.finish]
  | cons d rest =>
    have hd : isWordChar d = false := by simpa [Apart] using hrest
    have hstep : Lexing.step (.word (cs.reverse ++ [c])) d =
        (.ofWord (c :: cs) :: (Lexing.start d).1, (Lexing.start d).2) := by
      rw [Lexing.step, hd, hword]
      rfl
    rw [lex, hstep, lex, Lexing.step, List.cons_append]

theorem lex_name {text : String} {rest : List Char} (h : IsName text) (hrest : Apart rest) :
    lex .between (text.toList ++ rest) = .name text :: lex .between rest := by
  rw [lex_ofWord h.nonempty h.word hrest, h.name]

theorem isWordChar_of_isDigit {c : Char} (h : c.isDigit = true) : isWordChar c = true := by
  simp [isWordChar, Char.isAlphanum, h]

theorem isDigit_of_mem_toString {n : Nat} {c : Char} (h : c ∈ (toString n).toList) :
    c.isDigit = true := by
  rw [Nat.toString_eq_repr, Nat.toList_repr] at h
  exact Nat.isDigit_of_mem_toDigits (by decide) (by decide) h

theorem toString_ne_nil (n : Nat) : (toString n).toList ≠ [] := by
  rw [Nat.toString_eq_repr, Nat.toList_repr]
  exact Nat.toDigits_ne_nil

/-- A number is read back. -/
theorem lex_number (n : Nat) {rest : List Char} (hrest : Apart rest) :
    lex .between ((toString n).toList ++ rest) = .number n :: lex .between rest := by
  have hdigits : (toString n).toList.all (·.isDigit) = true :=
    List.all_eq_true.mpr fun _ => isDigit_of_mem_toString
  have hvalue : Token.ofWord (toString n).toList = .number n := by
    rw [Token.ofWord, if_pos hdigits, Nat.toString_eq_repr, Nat.toList_repr,
      Nat.ofDigitChars_ten_toDigits]
  rw [lex_ofWord (toString_ne_nil n) (fun c hc => isWordChar_of_isDigit
    (isDigit_of_mem_toString hc)) hrest, hvalue]

theorem not_isDigit_of_mem_keywords : ∀ k ∈ keywords, k.1.toList.any (·.isDigit) = false := by
  decide

/-- A text that ends with a number is a name, if it begins with a word that is no number. -/
theorem IsName.numbered {base : String} (n : Nat) (h : IsWord base.toList)
    (hletter : base.toList.all (·.isDigit) = false) : IsName (base ++ toString n) where
  nonempty := by
    rw [String.toList_append]
    exact List.append_ne_nil_of_right_ne_nil _ (toString_ne_nil n)
  word c hc := by
    rw [String.toList_append, List.mem_append] at hc
    exact hc.elim (h c) fun hc => isWordChar_of_isDigit (isDigit_of_mem_toString hc)
  name := by
    have hdigits : (base ++ toString n).toList.all (·.isDigit) = false := by
      rw [String.toList_append, List.all_append, hletter, Bool.false_and]
    have hfree : keywords.lookup (base ++ toString n) = none := by
      refine List.lookup_eq_none_iff.mpr fun k hk => bne_iff_ne.mpr fun heq => ?_
      -- no keyword has a digit
      obtain ⟨c, cs, hc⟩ := List.exists_cons_of_ne_nil (toString_ne_nil n)
      have hmem : c ∈ (toString n).toList := hc ▸ List.mem_cons_self
      have hkeyword := not_isDigit_of_mem_keywords k hk
      rw [← heq, String.toList_append, List.any_append, Bool.or_eq_false_iff] at hkeyword
      exact List.any_eq_false.mp hkeyword.2 c hmem (isDigit_of_mem_toString hmem)
    rw [Token.ofWord, hdigits, String.ofList_toList, hfree]
    rfl

/-! ## Literals -/

/-- What follows the number sign of a comment is no token. -/
theorem lex_comment (cs : List Char) : lex .comment cs = [] := by
  induction cs with
  | nil => rfl
  | cons c cs ih => exact ih

/-- A line of a text. -/
def lineOf (line : String) : Line :=
  Line.ofChars line.toList

/-- The lines that hold something. -/
def fullLines (lines : List String) : List Line :=
  (lines.map lineOf).filter (!·.tokens.isEmpty)

theorem fullLines_append (ls ls' : List String) :
    fullLines (ls ++ ls') = fullLines ls ++ fullLines ls' := by
  unfold fullLines
  rw [List.map_append, List.filter_append]

/-- A text that can stand on one line of a text that is read. -/
def OneLine (text : String) : Prop :=
  ∀ c ∈ text.toList, isLineEnd c = false ∧ c ≠ '\x00'

instance (text : String) : Decidable (OneLine text) :=
  List.decidableBAll _ text.toList

theorem OneLine.append {a b : String} (ha : OneLine a) (hb : OneLine b) : OneLine (a ++ b) := by
  intro c hc
  rw [String.toList_append, List.mem_append] at hc
  exact hc.elim (ha c) (hb c)

/-- No character of a word ends a line. -/
theorem oneLine_of_word {text : String} (h : IsWord text.toList) : OneLine text := by
  intro c hc
  have hword := h c hc
  constructor
  · cases hend : isLineEnd c with
    | false => rfl
    | true =>
      unfold isLineEnd at hend
      rw [Bool.or_eq_true, beq_iff_eq, beq_iff_eq] at hend
      rcases hend with rfl | rfl <;> cases hword
  · rintro rfl
    cases hword

theorem oneLine_number (n : Nat) : OneLine (toString n) :=
  oneLine_of_word fun _ hc => isWordChar_of_isDigit (isDigit_of_mem_toString hc)

theorem IsName.oneLine {text : String} (h : IsName text) : OneLine text :=
  oneLine_of_word h.word

/-- The characters of lines, each with its end. -/
def writtenLines (lines : List String) : List Char :=
  lines.flatMap fun line => line.toList ++ ['\n']

theorem writtenLines_cons (line : String) (lines : List String) :
    writtenLines (line :: lines) = line.toList ++ '\n' :: writtenLines lines := by
  simp [writtenLines]

theorem toList_written {lines : List String} (h : lines ≠ []) :
    ("\n".intercalate lines ++ "\n").toList = writtenLines lines := by
  induction lines with
  | nil => exact absurd rfl h
  | cons line rest ih =>
    cases rest with
    | nil => simp [writtenLines]
    | cons next rest =>
      have hrest := ih (by simp)
      rw [writtenLines_cons, ← hrest]
      simp [String.intercalate_cons_cons]

theorem splitOnP_writtenLines {lines : List String} (h : ∀ l ∈ lines, OneLine l) :
    (writtenLines lines).splitOnP isLineEnd = lines.map String.toList ++ [[]] := by
  induction lines with
  | nil => rfl
  | cons line rest ih =>
    rw [writtenLines_cons, List.splitOnP_append_cons_of_forall_mem
      (fun c hc => (h line List.mem_cons_self c hc).1) '\n' rfl,
      ih fun l hl => h l (List.mem_cons_of_mem line hl)]
    rfl

/-- **A text falls into the lines that it was written of.** -/
theorem linesOf_written {lines : List String} (hne : lines ≠ []) (h : ∀ l ∈ lines, OneLine l) :
    linesOf ("\n".intercalate lines ++ "\n") = fullLines lines := by
  have hlast : [[]].map Line.ofChars = [⟨0, []⟩] := rfl
  unfold linesOf fullLines
  rw [toList_written hne, splitOnP_writtenLines h, List.map_append, List.filter_append, hlast,
    List.map_map]
  exact List.append_nil _

theorem null_notMem_written {lines : List String} (hne : lines ≠ []) (h : ∀ l ∈ lines, OneLine l) :
    ("\n".intercalate lines ++ "\n").toList.contains '\x00' = false := by
  rw [toList_written hne, List.contains_eq_mem, decide_eq_false_iff_not]
  intro hmem
  obtain ⟨line, hline, hc⟩ := List.mem_flatMap.mp hmem
  rcases List.mem_append.mp hc with hc | hc
  · exact (h line hline _ hc).2 rfl
  · cases List.mem_singleton.mp hc

end ShapeGrammar
