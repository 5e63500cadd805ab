import ShapeGrammar.Proofs.Arithmetic.Stages

/-!
# The longest expression

The parser of expressions finds the longest expression that the text goes on with, or there is none.
Each parser of the grammar settles, at every place, whether a tree of its kind comes next: either it
matches one that is closed by what follows it, or there is none and it fails. For an atom this rests
on the expressions behind the place, for an expression on the atoms at and behind it; the induction
is on what is left of the text. Being closed, the tree that is found is the longest one.

Headlines: `Settles`, `settles_atom`, `settles_expression`, `parse_expression`.
-/

namespace ShapeGrammar.Arithmetic

open Setting Resolution

variable {text : String} {n i : Nat}

/-! ## Characters of a text -/

/-- What is left of a text from a place on. -/
def left (text : String) (i : Nat) : List Char :=
  text.toList.drop i

/-- What is wrong where a character is missing: another one is there, or the end. -/
def lacking (text : String) (i : Nat) (expected : Char) : Failure :=
  match text.toList[i]? with
  | some c => .unexpectedElement (.text (String.singleton expected)) (.text (String.singleton c))
  | none => .endOfInput (.text (String.singleton expected))

theorem get?_ofText (text : String) (i : Nat) :
    (Source.ofText text).get? i = text.toList[i]?.map fun c => .text (String.singleton c) := by
  simp [Source.get?, Source.ofText]

theorem getElem?_of_left {c : Char} {r : List Char} (h : left text i = c :: r) :
    text.toList[i]? = some c := by
  rw [← List.head?_drop]
  exact congrArg List.head? h

theorem left_append {s r : List Char} (h : left text i = s ++ r) :
    left text (i + s.length) = r := by
  unfold left at h ⊢
  rw [← List.drop_drop, h, List.drop_left]

theorem left_cons {c : Char} {r : List Char} (h : left text i = c :: r) : left text (i + 1) = r :=
  left_append (s := [c]) h

theorem left_of_getElem? {c : Char} (h : text.toList[i]? = some c) :
    left text i = c :: left text (i + 1) := by
  obtain ⟨hlt, rfl⟩ := List.getElem?_eq_some_iff.mp h
  exact List.drop_eq_getElem_cons hlt

theorem singleton_injective {c d : Char} (h : String.singleton c = String.singleton d) : c = d := by
  have hlist := congrArg String.toList h
  simpa using hlist

/-! ## Parsers of characters -/

theorem eq_of_isCharacter {c : Char} {p : Parser} (h : isCharacter c p = true) :
    ∃ change, p = .map change (.element (.text (String.singleton c))) ∧
      change (.text (String.singleton c)) = .ok (.char c) := by
  unfold isCharacter at h
  split at h
  · rename_i change s
    obtain ⟨hs, hchange⟩ := Bool.and_eq_true_iff.mp h
    cases beq_iff_eq.mp hs
    refine ⟨change, rfl, ?_⟩
    split at hchange
    · rename_i d hd
      rw [hd, beq_iff_eq.mp hchange]
    · cases hchange
  · cases h

theorem matches_character {c : Char} {p : Parser} (hp : isCharacter c p = true)
    (h : text.toList[i]? = some c) : (setting text).Matches 2 p i (i + 1) (.char c) := by
  obtain ⟨change, rfl, hchange⟩ := eq_of_isCharacter hp
  refine matches_map (matches_element ?_ ?_) hchange
  · show (Source.ofText text).get? i = _
    rw [get?_ofText, h]
    rfl
  · simp [Value.same, Value.compare, Value.Comparison.of]

theorem fails_character {c : Char} {p : Parser} (hp : isCharacter c p = true)
    (h : text.toList[i]? ≠ some c) : (setting text).Fails 2 p i (lacking text i c) := by
  obtain ⟨change, rfl, -⟩ := eq_of_isCharacter hp
  refine fails_map (fails_element ?_)
  show (Source.ofText text).blame _ _ i = _
  unfold Source.blame lacking
  rw [get?_ofText]
  cases hd : text.toList[i]? with
  | none => rfl
  | some d =>
    have hne : String.singleton c ≠ String.singleton d := fun heq =>
      h (hd.trans (congrArg some (singleton_injective heq).symm))
    simp [Value.same, Value.compare, Value.Comparison.of, hne]

/-! ## Kinds of trees -/

/-- Trees of a kind: how they are written, what closes them, which instances they are, and which
character is said to be missing where there is none. -/
structure Kind (T : Type) where
  text : T → List Char
  Closed : T → List Char → Prop
  value : T → Value
  missing : Char

/-- A parser finds out whether a tree comes next: it matches one that is closed by what follows, or
there is none and it fails. -/
inductive Settles {T : Type} (K : Kind T) (text : String) (n : Nat) (p : Parser) (i : Nat) : Prop
  | tree (t : T) (r : List Char) (reads : left text i = K.text t ++ r) (closed : K.Closed t r)
    (runs : (setting text).Matches n p i (i + (K.text t).length) (K.value t))
  | none (lacks : ∀ t r, left text i ≠ K.text t ++ r)
    (runs : (setting text).Fails n p i (lacking text i K.missing))

theorem Settles.mono {T : Type} {K : Kind T} {p : Parser} {n' : Nat} (h : Settles K text n p i)
    (hn : n ≤ n') : Settles K text n' p i := by
  cases h with
  | tree t r reads closed runs => exact .tree t r reads closed (runs.mono hn)
  | none lacks runs => exact .none lacks (runs.mono hn)

def digitKind : Kind (Fin 10) := ⟨fun d => [digitChar d], fun _ _ => True, digitValue, '9'⟩

def operatorKind : Kind Operator := ⟨fun o => [o.char], fun _ _ => True, Operator.toValue, '/'⟩

def numberKind : Kind Digits := ⟨Digits.text, fun _ r => ¬ StartsDigit r, Digits.toValue, '9'⟩

def atomKind : Kind Atom := ⟨Atom.text, Atom.Closed, Atom.toValue, '9'⟩

def expressionKind : Kind Expression :=
  ⟨Expression.text, Expression.Closed, Expression.toValue, '9'⟩

/-! ## Digits and operators -/

theorem eq_of_isToken {a : Attempt Parser} {e : ClassId × Char} (h : isToken a e = true) :
    a.target = .declared e.1 ∧ ∃ p, a.parsers = [p] ∧ isCharacter e.2 p = true := by
  unfold isToken at h
  obtain ⟨htarget, hparsers⟩ := Bool.and_eq_true_iff.mp h
  refine ⟨beq_iff_eq.mp htarget, ?_⟩
  split at hparsers
  · exact ⟨_, ‹_›, hparsers⟩
  · cases hparsers

theorem isUnit_of_isToken {a : Attempt Parser} {e : ClassId × Char} (h : isToken a e = true) :
    a.isUnit = false := by
  obtain ⟨-, p, hp, -⟩ := eq_of_isToken h
  simp [Attempt.isUnit, hp]

/-- An attempt at a character that comes next. -/
theorem row_token {a : Attempt Parser} {e : ClassId × Char} (h : isToken a e = true)
    (hc : text.toList[i]? = some e.2) :
    (setting text).Row 2 a.parsers i (i + 1) [.char e.2] := by
  obtain ⟨-, p, hp, hcharacter⟩ := eq_of_isToken h
  rw [hp]
  exact .cons (matches_character hcharacter hc) .nil

/-- An attempt at a character that does not come next. -/
theorem breaks_token {a : Attempt Parser} {e : ClassId × Char} (h : isToken a e = true)
    (hc : text.toList[i]? ≠ some e.2) :
    (setting text).Breaks 2 a.parsers i (lacking text i e.2) := by
  obtain ⟨-, p, hp, hcharacter⟩ := eq_of_isToken h
  rw [hp]
  exact .here (fails_character hcharacter hc)

theorem succeeds_tokens {as : List (Attempt Parser)} {es : List (ClassId × Char)}
    (h : areTokens as es = true) (hnodup : (es.map (·.2)).Nodup) {e : ClassId × Char} (he : e ∈ es)
    (hstores : grammar.storesExactly e.1 ["char"] = true) (hc : text.toList[i]? = some e.2) :
    (setting text).Succeeds 2 as i (i + 1) (built e.1 ["char"] [.char e.2]) := by
  have hhere : ∀ {a : Attempt Parser} {rest}, isToken a e = true →
      (setting text).Succeeds 2 (a :: rest) i (i + 1) (built e.1 ["char"] [.char e.2]) := by
    intro a rest ha
    refine .here (isUnit_of_isToken ha) (row_token ha hc) ?_
    rw [(eq_of_isToken ha).1]
    exact builds hstores rfl
  fun_induction areTokens as es with
  | case1 a e1 =>
    cases List.mem_singleton.mp he
    exact hhere (Bool.and_eq_true_iff.mp h).1
  | case2 a as e1 es _ ih =>
    obtain ⟨hfirst, hrest⟩ := Bool.and_eq_true_iff.mp h
    obtain ⟨htoken, hsnapshot⟩ := Bool.and_eq_true_iff.mp hfirst
    obtain ⟨hnew, hnodup'⟩ := List.nodup_cons.mp hnodup
    rcases List.mem_cons.mp he with rfl | hlater
    · exact hhere htoken
    · have hother : text.toList[i]? ≠ some e1.2 := fun heq => by
        have hsame : e.2 = e1.2 := Option.some.inj (hc.symm.trans heq)
        exact hnew (List.mem_map.mpr ⟨e, hlater, hsame⟩)
      exact .later (isUnit_of_isToken htoken) hsnapshot (breaks_token htoken hother)
        (ih hrest hnodup' hlater)
  | case3 => cases h

theorem exhausts_tokens {as : List (Attempt Parser)} {es : List (ClassId × Char)}
    (h : areTokens as es = true) (hnone : ∀ e ∈ es, text.toList[i]? ≠ some e.2) {last : Char}
    (hlast : (es.map (·.2)).getLast? = some last) :
    (setting text).Exhausts 2 as i (lacking text i last) := by
  fun_induction areTokens as es with
  | case1 a e1 =>
    obtain ⟨htoken, hsnapshot⟩ := Bool.and_eq_true_iff.mp h
    cases hlast
    exact .last (isUnit_of_isToken htoken) (by simpa using hsnapshot)
      (breaks_token htoken (hnone e1 List.mem_cons_self))
  | case2 a as e1 es hmore ih =>
    obtain ⟨hfirst, hrest⟩ := Bool.and_eq_true_iff.mp h
    obtain ⟨htoken, hsnapshot⟩ := Bool.and_eq_true_iff.mp hfirst
    refine .next (isUnit_of_isToken htoken) hsnapshot
      (breaks_token htoken (hnone e1 List.mem_cons_self))
      (ih hrest (fun e he => hnone e (List.mem_cons_of_mem _ he)) ?_)
    cases es with
    | nil => cases as <;> simp [areTokens] at hrest
    | cons e2 es => simpa using hlast
  | case3 => cases h

/-- A class of characters is settled by the next one. -/
theorem settles_tokens {T : Type} {cls : T → ClassId} {char : T → Char} {missing : Char}
    (ts : List T) (hall : ∀ t, t ∈ ts) (hnodup : (ts.map char).Nodup)
    (hlast : (ts.map char).getLast? = some missing)
    (hstores : ∀ t, grammar.storesExactly (cls t) ["char"] = true) {c : ClassId}
    (hplans : (setting text).Plans c fun plan =>
      areTokens plan.attempts (ts.map fun t => (cls t, char t)) = true) :
    Settles ⟨fun t => [char t], fun _ _ => True,
      fun t => built (cls t) ["char"] [.char (char t)], missing⟩ text 4 (.derived c) i := by
  have hchars : (ts.map fun t => (cls t, char t)).map (·.2) = ts.map char := by simp
  by_cases h : ∃ t, text.toList[i]? = some (char t)
  · obtain ⟨t, ht⟩ := h
    refine .tree t (left text (i + 1)) (left_of_getElem? ht) trivial
      (matches_derived hplans fun plan hplan => ?_)
    exact (succeeds_tokens hplan (hchars ▸ hnodup) (List.mem_map.mpr ⟨t, hall t, rfl⟩) (hstores t)
      ht).matches_planned
  · refine .none (fun t r heq => h ⟨t, getElem?_of_left heq⟩)
      (fails_derived hplans fun plan hplan => ?_)
    refine (exhausts_tokens hplan ?_ (hchars ▸ hlast)).fails_planned
    rintro e he heq
    obtain ⟨t, -, rfl⟩ := List.mem_map.mp he
    exact h ⟨t, heq⟩

theorem settles_digit (text : String) (i : Nat) :
    Settles digitKind text 4 (.derived digitsClass) i :=
  settles_tokens (List.finRange 10) List.mem_finRange (by decide) (by decide)
    (fun d => storesExactly_of_mem (by simp [instanceFields])) plans_digits

theorem settles_operator (text : String) (i : Nat) :
    Settles operatorKind text 4 (.derived operatorsClass) i :=
  settles_tokens [.plus, .minus, .times, .divide] (fun o => by cases o <;> simp)
    (by decide) (by decide)
    (fun o => storesExactly_of_mem (by cases o <;> simp [instanceFields])) plans_operators

/-! ## Numbers -/

theorem eq_of_isNumberPlan {as : List (Attempt Parser)} (h : isNumberPlan as = true) :
    ∃ name, as = [⟨name, .declared numberClass, [.many1 true (.derived digitsClass)], false⟩] := by
  unfold isNumberPlan at h
  split at h
  · simp only [Bool.and_eq_true, beq_iff_eq, Bool.not_eq_true'] at h
    obtain ⟨⟨rfl, rfl⟩, rfl⟩ := h
    exact ⟨_, rfl⟩
  · cases h

/-- Digits are read as long as there are any. -/
theorem repeats_digits (hn : 4 ≤ n) {cs : List Char} (h : left text i = cs) :
    ∃ (ds : List (Fin 10)) (r : List Char), cs = ds.map digitChar ++ r ∧ ¬ StartsDigit r ∧
      (setting text).Repeats n (.derived digitsClass) i (i + ds.length) (ds.map digitValue) := by
  have hstop : ∀ {cs i}, left text i = cs → (∀ t r, left text i ≠ digitKind.text t ++ r) →
      ¬ StartsDigit cs := by
    rintro cs i rfl hlacks ⟨d, r, heq⟩
    exact hlacks d r heq
  induction cs generalizing i with
  | nil =>
    cases settles_digit text i with
    | tree d r reads => cases h.symm.trans reads
    | none lacks runs => exact ⟨[], [], rfl, hstop h lacks, .stop (runs.mono hn)⟩
  | cons c cs ih =>
    cases settles_digit text i with
    | tree d r reads closed runs =>
      obtain ⟨hc, -⟩ := List.cons.inj (h.symm.trans reads)
      obtain ⟨ds, r', hcs, hclosed, hrepeats⟩ := ih (left_cons h)
      refine ⟨d :: ds, r', by rw [hc, hcs]; rfl, hclosed, ?_⟩
      have hcount : i + (d :: ds).length = i + 1 + ds.length := by
        simp only [List.length_cons]
        omega
      rw [hcount]
      exact .step (runs.mono hn) (Nat.lt_succ_self i) hrepeats
    | none lacks runs => exact ⟨[], c :: cs, rfl, hstop h lacks, .stop (runs.mono hn)⟩

theorem settles_number {k : Nat} (hk : (left text i).length ≤ k) :
    Settles numberKind text (k + 7) (.derived numberClass) i := by
  cases settles_digit text i with
  | tree d r reads closed runs =>
    have hfirst : left text i = digitChar d :: r := reads
    obtain ⟨ds, r', rfl, hclosed, hrepeats⟩ :=
      repeats_digits (n := k + 4) (Nat.le_add_left 4 k) (left_cons hfirst)
    have hcount : (ds.map digitValue).length < k + 4 := by
      simp only [hfirst, List.length_cons, List.length_append, List.length_map] at hk ⊢
      omega
    have hmany := hrepeats.matches_many1 hcount (runs.mono (Nat.le_add_left 4 k))
      (Nat.lt_succ_self i)
    refine .tree ⟨d, ds⟩ r' hfirst hclosed (matches_derived plans_number fun plan hplan => ?_)
    obtain ⟨name, hattempts⟩ := eq_of_isNumberPlan hplan
    have hend : i + (numberKind.text ⟨d, ds⟩).length = i + 1 + ds.length := by
      simp only [numberKind, Digits.text, List.length_cons, List.length_map]
      omega
    rw [hend]
    refine Succeeds.matches_planned ?_
    rw [hattempts]
    exact .here rfl (.cons hmany .nil)
      (builds (storesExactly_of_mem (by simp [instanceFields])) rfl)
  | none lacks runs =>
    refine .none (fun ds r heq => lacks ds.first _ heq)
      (fails_derived plans_number fun plan hplan => ?_)
    obtain ⟨name, hattempts⟩ := eq_of_isNumberPlan hplan
    have hmany := fails_many1 (runs.mono (Nat.le_add_left 4 k))
    refine Exhausts.fails_planned ?_
    rw [hattempts]
    exact .last rfl rfl (.here hmany)

/-! ## Atoms -/

theorem eq_of_isAtomPlan {as : List (Attempt Parser)} (h : isAtomPlan as = true) :
    ∃ name opening closing name', isCharacter '(' opening = true ∧ isCharacter ')' closing = true ∧
      as = [⟨name, .declared groupClass, [opening, .box 0, closing], true⟩,
        ⟨name', .declared literalClass, [.derived numberClass], false⟩] := by
  unfold isAtomPlan at h
  split at h
  · simp only [Bool.and_eq_true, beq_iff_eq, Bool.not_eq_true'] at h
    obtain ⟨⟨⟨⟨⟨⟨⟨rfl, hopening⟩, rfl⟩, hclosing⟩, rfl⟩, rfl⟩, rfl⟩, rfl⟩ := h
    exact ⟨_, _, _, _, hopening, hclosing, rfl⟩
  · cases h

/-- The attempt at an expression in parentheses is left. -/
def NoGroup (text : String) (n i : Nat) : Prop :=
  ∃ e, ∀ {opening closing}, isCharacter '(' opening = true → isCharacter ')' closing = true →
    (setting text).Breaks n [opening, .box 0, closing] i e

theorem noGroup_of_open (hn : 2 ≤ n) (hopen : text.toList[i]? ≠ some '(') : NoGroup text n i :=
  ⟨_, fun hopening _ => .here ((fails_character hopening hopen).mono hn)⟩

theorem noGroup_of_inner {e : Failure} (hn : 2 ≤ n) (hopen : text.toList[i]? = some '(')
    (hinner : (setting text).Fails n (.derived expressionClass) (i + 1) e) :
    NoGroup text (n + 1) i :=
  ⟨e, fun hopening _ => .later ((matches_character hopening hopen).mono (Nat.le_succ_of_le hn))
    (.here (fails_box opens_expression hinner))⟩

theorem noGroup_of_close {j : Nat} {v : Value} (hn : 2 ≤ n) (hopen : text.toList[i]? = some '(')
    (hinner : (setting text).Matches n (.derived expressionClass) (i + 1) j v)
    (hclose : text.toList[j]? ≠ some ')') : NoGroup text (n + 1) i :=
  ⟨_, fun hopening hclosing =>
    .later ((matches_character hopening hopen).mono (Nat.le_succ_of_le hn))
      (.later (matches_box opens_expression hinner)
        (.here ((fails_character hclosing hclose).mono (Nat.le_succ_of_le hn))))⟩

theorem matches_group {j : Nat} {v : Value} (hn : 2 ≤ n) (hopen : text.toList[i]? = some '(')
    (hinner : (setting text).Matches n (.derived expressionClass) (i + 1) j v)
    (hclose : text.toList[j]? = some ')') :
    (setting text).Matches (n + 3) (.derived atomClass) i (j + 1)
      (built groupClass ["open", "inner", "close"] [.char '(', v, .char ')']) := by
  refine matches_derived plans_atom fun plan hplan => Succeeds.matches_planned ?_
  obtain ⟨name, opening, closing, name', hopening, hclosing, hattempts⟩ := eq_of_isAtomPlan hplan
  have hn' : 2 ≤ n + 1 := Nat.le_succ_of_le hn
  have hrow : (setting text).Row (n + 1) [opening, .box 0, closing] i (j + 1)
      [.char '(', v, .char ')'] :=
    .cons ((matches_character hopening hopen).mono hn')
      (.cons (matches_box opens_expression hinner)
        (.cons ((matches_character hclosing hclose).mono hn') .nil))
  rw [hattempts]
  exact .here rfl hrow (builds (storesExactly_of_mem (by simp [instanceFields])) rfl)

theorem matches_literal {j : Nat} {v : Value} (hgroup : NoGroup text n i)
    (hnumber : (setting text).Matches n (.derived numberClass) i j v) :
    (setting text).Matches (n + 2) (.derived atomClass) i j
      (built literalClass ["number"] [v]) := by
  refine matches_derived plans_atom fun plan hplan => Succeeds.matches_planned ?_
  obtain ⟨name, opening, closing, name', hopening, hclosing, hattempts⟩ := eq_of_isAtomPlan hplan
  obtain ⟨e, hbreaks⟩ := hgroup
  rw [hattempts]
  exact .later rfl rfl (hbreaks hopening hclosing)
    (.here rfl (.cons hnumber .nil) (builds (storesExactly_of_mem (by simp [instanceFields])) rfl))

theorem fails_atom {e : Failure} (hgroup : NoGroup text n i)
    (hnumber : (setting text).Fails n (.derived numberClass) i e) :
    (setting text).Fails (n + 2) (.derived atomClass) i e := by
  refine fails_derived plans_atom fun plan hplan => Exhausts.fails_planned ?_
  obtain ⟨name, opening, closing, name', hopening, hclosing, hattempts⟩ := eq_of_isAtomPlan hplan
  obtain ⟨e', hbreaks⟩ := hgroup
  rw [hattempts]
  exact .next rfl rfl (hbreaks hopening hclosing) (.last rfl rfl (.here hnumber))

/-- Without an expression in parentheses it is a number or nothing that comes next. -/
theorem settles_literal {k : Nat} (hnumber : Settles numberKind text n (.derived numberClass) i)
    (hgroup : NoGroup text n i)
    (hlacks : ∀ (e : Expression) r, left text i ≠ '(' :: (e.text ++ ')' :: r)) (hk : n + 2 ≤ k) :
    Settles atomKind text k (.derived atomClass) i := by
  cases hnumber with
  | tree ds r reads closed runs =>
    exact .tree (.literal ds) r reads closed ((matches_literal hgroup runs).mono hk)
  | none lacks runs =>
    refine .none (fun a r heq => ?_) ((fails_atom hgroup runs).mono hk)
    cases a with
    | group e => exact hlacks e r (by simpa [atomKind, Atom.text] using heq)
    | literal ds => exact lacks ds r heq

/-- An expression that is closed by what follows it is the only one behind a parenthesis that
another one may follow. -/
theorem not_group_of_closed {e : Expression} {r : List Char}
    (hopen : left text i = '(' :: (e.text ++ r))
    (hclosed : e.Closed r) (hclose : r.head? ≠ some ')') (e' : Expression) (r' : List Char) :
    left text i ≠ '(' :: (e'.text ++ ')' :: r') := by
  intro h
  have hinner : e.text ++ r = e'.text ++ ')' :: r' := (List.cons.inj (hopen.symm.trans h)).2
  rcases e'.compare_closed hinner hclosed with ⟨-, rfl⟩ | ⟨hopen', -⟩
  · exact hclose rfl
  · exact hopen' (e'.closed_close r')

/-- An atom is settled by the expression behind a parenthesis, or else by a number. -/
theorem settles_atom {k : Nat} (hk : (left text i).length ≤ k)
    (inner : ∀ {r}, left text i = '(' :: r →
      Settles expressionKind text (8 * k + 5) (.derived expressionClass) (i + 1)) :
    Settles atomKind text (8 * k + 9) (.derived atomClass) i := by
  have hnumber : Settles numberKind text (8 * k + 7) (.derived numberClass) i :=
    (settles_number hk).mono (by omega)
  by_cases hopen : text.toList[i]? = some '('
  · have hleft := left_of_getElem? hopen
    cases (inner hleft).mono (show 8 * k + 5 ≤ 8 * k + 6 by omega) with
    | tree e r reads closed runs =>
      have hbehind : left text (i + 1 + e.text.length) = r := left_append reads
      have hinner : left text i = '(' :: (e.text ++ r) := by rw [hleft, reads]; rfl
      by_cases hclose : text.toList[i + 1 + e.text.length]? = some ')'
      · have hr := hbehind.symm.trans (left_of_getElem? hclose)
        refine .tree (.group e) (left text (i + 1 + e.text.length + 1)) ?_ trivial ?_
        · rw [hinner, hr]
          simp [atomKind, Atom.text]
        have hend : i + (atomKind.text (.group e)).length = i + 1 + e.text.length + 1 := by
          simp only [atomKind, Atom.text, List.length_cons, List.length_append, List.length_nil]
          omega
        rw [hend]
        exact matches_group (by omega) hopen runs hclose
      · refine settles_literal hnumber (noGroup_of_close (by omega) hopen runs hclose) ?_ (by omega)
        refine not_group_of_closed hinner closed fun hhead => hclose ?_
        rw [← List.head?_drop]
        exact (congrArg List.head? hbehind).trans hhead
    | none lacks runs =>
      refine settles_literal hnumber (noGroup_of_inner (by omega) hopen runs) ?_ (by omega)
      exact fun e r heq => lacks e (')' :: r) (List.cons.inj (hleft.symm.trans heq)).2
  · refine settles_literal hnumber (noGroup_of_open (by omega) hopen) ?_ (by omega)
    exact fun e r heq => hopen (getElem?_of_left heq)

/-! ## Chains -/

theorem Tail.length_toValues_le (t : Tail) : t.toValues.length ≤ t.text.length := by
  cases t with
  | nil => exact Nat.le_refl 0
  | cons o a rest =>
    have hrest := rest.length_toValues_le
    simp only [Tail.toValues, Tail.text, List.length_cons, List.length_append]
    omega

/-- An operator and an atom. -/
def link : Parser :=
  .seq [.derived operatorsClass, .derived atomClass]

/-- Operators with an atom each are read as long as there are any. -/
theorem repeats_links {k : Nat} (hn : 4 ≤ n)
    (atoms : ∀ {j}, (left text j).length ≤ k → Settles atomKind text n (.derived atomClass) j)
    (last : Atom) {cs : List Char} (h : left text i = cs) (hk : cs.length ≤ k)
    (hclosed : last.Closed cs) :
    ∃ (t : Tail) (r : List Char), cs = t.text ++ r ∧ t.Closed last r ∧
      (setting text).Repeats (n + 1) link i (i + t.text.length) t.toValues := by
  induction hlength : cs.length using Nat.strongRecOn generalizing cs i last with
  | ind length ih =>
  subst hlength
  cases (settles_operator text i).mono hn with
  | none lacks runs =>
    refine ⟨.nil, cs, rfl, ⟨hclosed, fun ⟨o, a, r, heq⟩ => ?_⟩,
      .stop (Breaks.fails_seq (.here runs))⟩
    exact lacks o (a.text ++ r) (h.trans heq)
  | tree o r reads closed runs =>
    have hcs : cs = o.char :: r := h.symm.trans reads
    have hbehind : left text (i + 1) = r := left_append reads
    have hshorter : r.length < cs.length := by rw [hcs]; exact Nat.lt_succ_self _
    cases atoms (j := i + 1) (by rw [hbehind]; omega) with
    | none lacks runs' =>
      refine ⟨.nil, cs, rfl, ⟨hclosed, fun ⟨o', a, r', heq⟩ => ?_⟩,
        .stop (Breaks.fails_seq (.later runs (.here runs')))⟩
      exact lacks a r' (hbehind.trans (List.cons.inj (hcs.symm.trans heq)).2)
    | tree a r' reads' closed' runs' =>
      have hr : r = a.text ++ r' := hbehind.symm.trans reads'
      have hshorter' : r'.length ≤ r.length := by rw [hr, List.length_append]; omega
      obtain ⟨t, rest, hrest, htail, hrepeats⟩ :=
        ih r'.length (by omega) a (left_append reads') (by omega) closed' rfl
      refine ⟨.cons o a t, rest, ?_, htail, ?_⟩
      · rw [hcs, hr, hrest]
        simp [Tail.text]
      · have hend : i + (Tail.cons o a t).text.length = i + 1 + a.text.length + t.text.length := by
          simp only [Tail.text, List.length_cons, List.length_append]
          omega
        rw [hend]
        have honward : i < i + 1 + a.text.length :=
          Nat.lt_of_lt_of_le (Nat.lt_succ_self i) (Nat.le_add_right _ _)
        exact .step (Row.matches_seq (.cons runs (.cons runs' .nil))) honward hrepeats

/-! ## Expressions -/

theorem eq_of_isExpressionPlan {as : List (Attempt Parser)} (h : isExpressionPlan as = true) :
    ∃ name, as =
      [⟨name, .declared expressionClass, [.derived atomClass, .many true link], false⟩] := by
  unfold isExpressionPlan at h
  split at h
  · simp only [Bool.and_eq_true, beq_iff_eq, Bool.not_eq_true'] at h
    obtain ⟨⟨⟨⟨rfl, rfl⟩, rfl⟩, rfl⟩, rfl⟩ := h
    exact ⟨_, rfl⟩
  · cases h

/-- An expression is settled by the atoms at the place and behind it. -/
theorem settles_of_atoms {k : Nat} (hn : 4 ≤ n) (hk : k ≤ n)
    (atoms : ∀ {j}, (left text j).length ≤ k → Settles atomKind text n (.derived atomClass) j)
    (hi : (left text i).length ≤ k) :
    Settles expressionKind text (n + 4) (.derived expressionClass) i := by
  cases atoms hi with
  | tree a r reads closed runs =>
    have hr : r.length ≤ k := by
      rw [reads, List.length_append] at hi
      omega
    obtain ⟨t, r', rfl, htail, hrepeats⟩ :=
      repeats_links hn atoms a (left_append reads) hr closed
    have hcount : t.toValues.length < n + 1 := by
      have := t.length_toValues_le
      rw [List.length_append] at hr
      omega
    refine .tree (.chain a t) r' ?_ htail
      (matches_derived plans_expression fun plan hplan => Succeeds.matches_planned ?_)
    · rw [reads]
      simp [expressionKind, atomKind, Expression.text]
    · obtain ⟨name, hattempts⟩ := eq_of_isExpressionPlan hplan
      have hend : i + (expressionKind.text (.chain a t)).length =
          i + a.text.length + t.text.length := by
        simp only [expressionKind, Expression.text, List.length_append]
        omega
      rw [hattempts, hend]
      exact .here rfl (.cons (runs.mono (by omega)) (.cons (hrepeats.matches_many hcount) .nil))
        (builds (storesExactly_of_mem (by simp [instanceFields])) rfl)
  | none lacks runs =>
    refine .none (fun e r heq => ?_)
      (fails_derived plans_expression fun plan hplan => Exhausts.fails_planned ?_)
    · cases e with
      | chain a t =>
        exact lacks a (t.text ++ r) (by simpa [expressionKind, atomKind, Expression.text] using heq)
    · obtain ⟨name, hattempts⟩ := eq_of_isExpressionPlan hplan
      rw [hattempts]
      exact .last rfl rfl (.here (runs.mono (by omega)))

theorem settles_expression (k : Nat) : ∀ {i}, (left text i).length ≤ k →
    Settles expressionKind text (8 * k + 13) (.derived expressionClass) i := by
  induction k with
  | zero =>
    intro i hi
    refine settles_of_atoms (n := 9) (by omega) (by omega) (fun {j} hj => ?_) hi
    refine settles_atom hj fun {r} hopen => ?_
    simp [hopen] at hj
  | succ k ih =>
    intro i hi
    refine settles_of_atoms (n := 8 * (k + 1) + 9) (by omega) (by omega) (fun {j} hj => ?_) hi
    refine settles_atom hj fun {r} hopen => (ih ?_).mono (by omega)
    rw [left_cons hopen]
    simp only [hopen, List.length_cons] at hj
    omega

/-! ## Calls -/

/-- Whether what a name stands for is a class. -/
def namesClass (c : ClassId) : Except Fault Binding → Bool
  | .ok (.cls (.declared d)) => d == c
  | _ => false

theorem eq_of_namesClass {c : ClassId} {x : Except Fault Binding} (h : namesClass c x = true) :
    x = .ok (.cls (.declared c)) := by
  unfold namesClass at h
  split at h
  · rw [beq_iff_eq.mp h]
  · cases h

/-- The class of expressions has the parser derived from it. -/
theorem buildParser_expression :
    buildParser answers (parserExpr .expression .derived) grammar =
      .ok (.parser (.derived expressionClass)) grammar := by
  have hlookup : grammar.lookup ⟨"Expression", []⟩ = .ok (.cls (.declared expressionClass)) :=
    eq_of_namesClass (by decide +kernel)
  have hderived : (grammar.classInfo expressionClass).derivedAt.isSome = true := by decide +kernel
  have hshape : evaluateShape answers false (reference "Expression") grammar =
      .ok (.cls (.declared expressionClass)) grammar := by
    show (if false = true then _ else _ : Resolution Shape) grammar = _
    rw [if_neg (by decide), bind_of_ok (get_ok grammar), hlookup]
    rfl
  have hclass : classParser (.declared expressionClass) grammar =
      .ok (.derived expressionClass) grammar := by
    unfold classParser
    rw [bind_of_ok (get_ok grammar)]
    dsimp only
    rw [if_pos hderived]
    rfl
  show (evaluateShape answers false (reference "Expression") >>= fun a =>
    Binding.parser <$> parserFor answers a) grammar = _
  rw [bind_of_ok hshape]
  exact map_eq_ok_iff.mpr ⟨_, hclass, rfl⟩

/-- A machine with a cursor at a place of a text, in a stage of the grammar. -/
def machineAt (text : String) (i : Nat) (g : Grammar) : Machine :=
  (Machine.ofGrammar g).addCursor ⟨.ofText text, i, true⟩

theorem at_machineAt {g : Grammar} (hg : g ∈ stages) :
    (setting text).At i 0 (machineAt text i g) where
  lt := Nat.zero_lt_one
  place := rfl
  stage := hg

/-- To find something out changes the grammar of a machine. It is said of any grammar, since the one
of arithmetic is not to be computed for it. -/
theorem resolve_machineAt {α : Type} {x : Resolution α} {a : α} {g g' : Grammar}
    (h : x g = .ok a g') : Act.resolve x (machineAt text i g) = .ok a (machineAt text i g') :=
  resolve_of_ok h

/-- To plan the expression first comes to the same. -/
theorem run_planned (entry : Entry) :
    run answers (n + 1) entry (.derived expressionClass) 0 (machineAt text i grammar) =
      run answers (n + 1) entry (.derived expressionClass) 0 (machineAt text i planned) := by
  have hanswered : answered (answers.planOf expressionClass) (fun _ => true) grammar = true := by
    decide +kernel
  obtain ⟨plan, hplan, -⟩ := of_answered hanswered
  have hknown : answers.planOf expressionClass planned = .ok plan planned :=
    remember_of_known (f := .plan expressionClass) (findPlan_known hplan) _
  have hfirst : Act.resolve (answers.planOf expressionClass) (machineAt text i grammar) =
      .ok plan (machineAt text i planned) := resolve_machineAt hplan
  have hagain : Act.resolve (answers.planOf expressionClass) (machineAt text i planned) =
      .ok plan (machineAt text i planned) := resolve_machineAt hknown
  rw [run_derived hfirst, run_derived hagain]

/-- The call of the parser of expressions, within the limits. -/
theorem parseAct_expression (entry : Entry) (text : String) (i : Nat) :
    parseAct .standard .expression .derived entry text i (.ofGrammar grammar) =
      run answers (Limits.standard.calls text.toList.length) entry (.derived expressionClass) 0
        (machineAt text i planned) := by
  have hbuilt : Act.resolve (buildParser answers (parserExpr .expression .derived))
      (.ofGrammar grammar) = .ok (.parser (.derived expressionClass)) (.ofGrammar grammar) :=
    resolve_of_ok buildParser_expression
  have hsize : (Source.ofText text).size = text.toList.length := by
    simp [Source.size, Source.ofText]
  have hcalls : Limits.standard.calls text.toList.length = 8191 + 64 * text.toList.length + 1 := by
    show 8192 + 64 * text.toList.length = _
    omega
  unfold parseAct
  show (Act.resolve (buildParser answers (parserExpr .expression .derived)) >>= fun b => _) _ = _
  rw [bind_of_ok hbuilt]
  show run answers (Limits.standard.calls (Source.ofText text).size) entry
    (.derived expressionClass) 0 (machineAt text i grammar) = _
  rw [hsize, hcalls, run_planned]

theorem parse_of_run {entry : Entry} {o : Outcome} {m : Machine}
    (h : run answers (Limits.standard.calls text.toList.length) entry (.derived expressionClass) 0
      (machineAt text i planned) = .ok o m) :
    Symbol.expression.parse .derived entry text i = (.ok o, m) := by
  unfold Symbol.parse
  rw [parseAct_expression, h]

/-- The longest expression that a text goes on with at a place. -/
structure Longest (text : String) (i : Nat) (e : Expression) : Prop where
  reads : e.text <+: text.toList.drop i
  longest : ∀ e' : Expression, e'.text <+: text.toList.drop i → e' ≠ e →
    e'.text.length < e.text.length

/-- **The parser of expressions finds the longest expression that the text goes on with.** It
matches just where there is one, the value is its tree, and the cursor that is returned stands
behind it. Where there is none, the total form says that a digit is missing at the place where the
parser was called. -/
theorem parse_expression (entry : Entry) (text : String) (i : Nat) :
    ∃ o m, Symbol.expression.parse .derived entry text i = (.ok o, m) ∧
      ((∃ c v, o = .matched c v) ↔ ∃ e : Expression, e.text <+: text.toList.drop i) ∧
      (∀ c v, o = .matched c v → ∃ e, Longest text i e ∧ v = e.toValue ∧
        Expression.ofValue? v = some e ∧
          m.cursor c = ⟨.ofText text, i + e.text.length, true⟩) ∧
      ((∀ e : Expression, ¬ e.text <+: text.toList.drop i) →
        o = (Outcome.failed (lacking text i '9')).seenBy entry) := by
  have hlimit : 8 * (left text i).length + 13 ≤ Limits.standard.calls text.toList.length := by
    have hleft : (left text i).length ≤ text.toList.length := by simp [left]
    show _ ≤ 8192 + 64 * text.toList.length
    omega
  have hat : (setting text).At i 0 (machineAt text i planned) := at_machineAt List.mem_cons_self
  cases (settles_expression (left text i).length (Nat.le_refl _)).mono hlimit with
  | tree e r reads closed runs =>
    obtain ⟨d, m, hrun, hat'⟩ := runs.run entry hat
    have hreads : e.text <+: text.toList.drop i := ⟨r, reads.symm⟩
    have hlongest : Longest text i e :=
      ⟨hreads, fun e' hbegins hne => Expression.shorter_of_closed reads closed hbegins hne⟩
    refine ⟨.matched d e.toValue, m, ?_, ⟨fun _ => ⟨e, hreads⟩, fun _ => ⟨d, _, rfl⟩⟩, ?_,
      fun hnone => absurd hreads (hnone e)⟩
    · exact parse_of_run hrun
    · rintro c v ⟨⟩
      exact ⟨e, hlongest, rfl, e.ofValue?_toValue, hat'.place⟩
  | none lacks runs =>
    obtain ⟨m, hrun, -⟩ := runs.run entry hat
    have hnone : ∀ e : Expression, ¬ e.text <+: text.toList.drop i := fun e ⟨r, hr⟩ =>
      lacks e r hr.symm
    have hmissed : ∀ c v, (Outcome.failed (lacking text i '9')).seenBy entry ≠ .matched c v := by
      cases entry <;> rintro c v ⟨⟩
    refine ⟨_, m, parse_of_run hrun, ⟨?_, ?_⟩, ?_, fun _ => rfl⟩
    · rintro ⟨c, v, h⟩
      exact absurd h (hmissed c v)
    · rintro ⟨e, he⟩
      exact absurd he (hnone e)
    · exact fun c v h => absurd h (hmissed c v)

end ShapeGrammar.Arithmetic
