import Mathlib.Data.List.Nodup
import ShapeGrammar.Factory.Emit

/-!
# Positional names

Everything in a factory is known by a positional name. The names never meet: a number can be read
back from the name it is written in, and the beginning of a name tells what it stands for.

Headlines: `parserName_injective`, `nameKind`, `ne_of_nameKind`.
-/

namespace ShapeGrammar

/-! ## Numbers in names -/

/-- A number can be read back from behind a fixed text. -/
theorem numbered_injective (base : String) {i j : Nat}
    (h : base ++ toString i = base ++ toString j) : i = j := by
  have hchars := congrArg String.toList h
  simp only [String.toList_append, List.append_cancel_left_eq, Nat.toString_eq_repr,
    Nat.toList_repr] at hchars
  have hread := congrArg (fun ds => Nat.ofDigitChars 10 ds 0) hchars
  simpa only [Nat.ofDigitChars_ten_toDigits] using hread

theorem targetName_injective {i j : Nat} (h : targetName i = targetName j) : i = j :=
  numbered_injective "target" h

theorem fieldName_injective {i j : Nat} (h : fieldName i = fieldName j) : i = j :=
  numbered_injective "field" h

theorem attemptName_injective {i j : Nat} (h : attemptName i = attemptName j) : i = j :=
  numbered_injective "attempt" h

/-- Both numbers can be read back, since no digit is the character between them. -/
theorem parserName_injective {i j i' j' : Nat} (h : parserName i j = parserName i' j') :
    i = i' ∧ j = j' := by
  have hchars := congrArg String.toList h
  simp only [parserName, String.toList_append, List.append_assoc, List.append_cancel_left_eq,
    Nat.toString_eq_repr, Nat.toList_repr] at hchars
  obtain ⟨hi, -, hj⟩ := (List.append_cons_inj_of_notMem Nat.underscore_not_in_toDigits
    Nat.underscore_not_in_toDigits).mp hchars
  have read : ∀ {a b : Nat}, Nat.toDigits 10 a = Nat.toDigits 10 b → a = b := fun {a b} hab => by
    have hread := congrArg (fun ds => Nat.ofDigitChars 10 ds 0) hab
    simpa only [Nat.ofDigitChars_ten_toDigits] using hread
  exact ⟨read hi, read hj⟩

/-! ## Kinds of names -/

/-- What a name stands for. -/
inductive NameKind
  | target | parser | field | attempt | entry | input | result | found | other
  deriving DecidableEq

/-- The kind of a name, told from how it begins. -/
def nameKind (name : String) : NameKind :=
  match name.toList with
  | 't' :: 'a' :: _ => .target
  | 'p' :: 'a' :: 'r' :: 's' :: 'e' :: 'r' :: _ => .parser
  | 'f' :: 'i' :: _ => .field
  | 'a' :: _ => .attempt
  | 'p' :: _ => .entry
  | 't' :: _ => .entry
  | 'i' :: _ => .input
  | 'r' :: _ => .result
  | 'f' :: _ => .found
  | _ => .other

@[simp]
theorem nameKind_targetName (i : Nat) : nameKind (targetName i) = .target := by
  simp [nameKind, targetName]

@[simp]
theorem nameKind_parserName (i j : Nat) : nameKind (parserName i j) = .parser := by
  simp [nameKind, parserName]

@[simp]
theorem nameKind_fieldName (j : Nat) : nameKind (fieldName j) = .field := by
  simp [nameKind, fieldName]

@[simp]
theorem nameKind_attemptName (i : Nat) : nameKind (attemptName i) = .attempt := by
  simp [nameKind, attemptName]

@[simp]
theorem nameKind_entry (entry : Entry) : nameKind entry.name = .entry := by
  cases entry <;> rfl

@[simp]
theorem nameKind_input : nameKind "input" = .input := rfl

@[simp]
theorem nameKind_result : nameKind "result" = .result := rfl

@[simp]
theorem nameKind_found : nameKind "found" = .found := rfl

/-- Names of different kinds differ. -/
theorem ne_of_nameKind {a b : String} (h : nameKind a ≠ nameKind b) : a ≠ b :=
  fun hab => h (congrArg nameKind hab)

end ShapeGrammar
