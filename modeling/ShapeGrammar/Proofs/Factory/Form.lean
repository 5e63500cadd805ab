import ShapeGrammar.Proofs.Factory.Faithful

/-!
# The form of a plan

The form of a plan is its kind together with the number of fields of every attempt. It is all that a
factory shows of a plan whose attempts are made in order: plans of one form have one body of their
factories, and the form can be read back from the text of a factory. What stands behind the caption
can be read as one body only, and the body unpacks as many field parsers as the attempts have.

Headlines: `Plan.form`, `code_of_form`, `form_of_generate`.
-/

namespace ShapeGrammar

variable {P Q : Type}

/-- The kind of a plan, and how many fields its attempts have. -/
def Plan.form (plan : Plan P) : PlanKind × List Nat :=
  (plan.kind, plan.attempts.map (·.parsers.length))

/-! ## Plans of one form -/

/-- Attempts that are in order and have equally many fields have the same outlines. -/
theorem outlines_of_lengths : ∀ {as : List (Attempt P)} {bs : List (Attempt Q)},
    OrderedAttempts as → OrderedAttempts bs →
      as.map (·.parsers.length) = bs.map (·.parsers.length) →
      List.Forall₂ (fun a b => a.outline = b.outline) as bs
  | [], _, has, _, _ => has.elim
  | _ :: _, [], _, hbs, _ => hbs.elim
  | [_], [_], has, hbs, h => by
    simp only [List.map_cons, List.map_nil, List.cons.injEq, and_true] at h
    exact .cons (Prod.ext h (has.trans hbs.symm)) .nil
  | [_], _ :: _ :: _, _, _, h => by simp at h
  | _ :: _ :: _, [_], _, _, h => by simp at h
  | _ :: _ :: _, _ :: _ :: _, has, hbs, h => by
    rw [List.map_cons, List.map_cons (l := _ :: _), List.cons.injEq] at h
    exact .cons (Prod.ext h.1 (has.2.1.trans hbs.2.1.symm))
      (outlines_of_lengths has.2.2 hbs.2.2 h.2)

/-- **The factories of plans of one form have one body.** -/
theorem code_of_form {p : Plan P} {q : Plan Q} (hp : p.Ordered) (hq : q.Ordered)
    (h : p.form = q.form) : p.code = q.code :=
  code_of_outline (outlines_of_lengths hp hq (Prod.mk.inj h).2)

/-! ## What a body unpacks -/

/-- Attempts that are in order are as many as their rows of field parsers, and perhaps one without
fields at the end. -/
theorem lengths_of_rows : ∀ {as : List (Attempt P)}, OrderedAttempts as →
    as.map (·.parsers.length) = (as.filter (!·.isUnit)).map (·.parsers.length) ++
      List.replicate (as.length - (as.filter (!·.isUnit)).length) 0
  | [], h => h.elim
  | [a], _ => by
    cases hunit : a.isUnit with
    | false => simp [hunit]
    | true =>
      have hnone : a.parsers = [] := List.isEmpty_iff.mp hunit
      simp [hunit, hnone]
  | a :: b :: rest, h => by
    have ih := lengths_of_rows h.2.2
    rw [List.filter_cons_of_pos (by simp [h.1]), List.map_cons, ih]
    simp

theorem map_filter_zipIdx {α β : Type} (f : α → Bool) (g : α → β) (l : List α) (k : Nat) :
    ((l.zipIdx k).filter fun e => f e.1).map (fun e => g e.1) = (l.filter f).map g := by
  induction l generalizing k with
  | nil => rfl
  | cons a l ih =>
    rw [List.zipIdx_cons, List.filter_cons, List.filter_cons]
    split <;> simp [ih]

/-- How many field parsers a step of a factory unpacks. -/
def Clause.width? : Clause → Option Nat
  | .parsers _ names => some names.length
  | _ => none

theorem widths_code (plan : Plan P) :
    plan.code.filterMap Clause.width? =
      (plan.attempts.filter (!·.isUnit)).map (·.parsers.length) := by
  have hrows : plan.unpackings.filterMap Clause.width? =
      (plan.attempts.filter (!·.isUnit)).map (·.parsers.length) := by
    rw [← map_filter_zipIdx (!·.isUnit) (·.parsers.length) plan.attempts 0, Plan.unpackings,
      List.filterMap_map]
    simp [Clause.width?, Function.comp_def]
  have hprocedures : (plan.procedures.map Clause.procedure).filterMap Clause.width? = [] := by
    simp [Clause.width?]
  unfold Plan.code
  simp only [List.cons_append, List.filterMap_cons, List.filterMap_append, List.filterMap_nil,
    hrows, hprocedures, Clause.width?, List.append_nil]

/-- Attempts whose factories have one body have equally many fields. -/
theorem lengths_of_code {p : Plan P} {q : Plan Q} (hp : p.Ordered) (hq : q.Ordered)
    (h : p.code = q.code) :
    p.attempts.map (·.parsers.length) = q.attempts.map (·.parsers.length) := by
  have hlength : p.attempts.length = q.attempts.length := by
    have hnames := congrArg List.length (Clause.targets.inj (List.cons.inj h).1)
    simpa using hnames
  have hrows := congrArg (List.filterMap Clause.width?) h
  rw [widths_code, widths_code] at hrows
  have hcount := congrArg List.length hrows
  rw [List.length_map, List.length_map] at hcount
  rw [lengths_of_rows hp, lengths_of_rows hq, hrows, hlength, hcount]

/-! ## The text of a factory -/

/-- What stands before the first occurrence of something, and what behind it. -/
theorem parted_by_first {α : Type} {a : α} : ∀ {x x' y y' : List α}, a ∉ x → a ∉ x' →
    x ++ a :: y = x' ++ a :: y' → x = x' ∧ y = y'
  | [], [], _, _, _, _, h => ⟨rfl, (List.cons.inj h).2⟩
  | [], b :: _, _, _, _, hx', h => absurd ((List.cons.inj h).1 ▸ List.mem_cons_self) hx'
  | b :: _, [], _, _, hx, _, h => absurd ((List.cons.inj h).1 ▸ List.mem_cons_self) hx
  | b :: x, b' :: x', _, _, hx, hx', h => by
    obtain ⟨rfl, hrest⟩ := List.cons.inj h
    obtain ⟨rfl, hy⟩ := parted_by_first (List.not_mem_of_not_mem_cons hx)
      (List.not_mem_of_not_mem_cons hx') hrest
    exact ⟨rfl, hy⟩

/-- The lines of a body are those of one body only. -/
theorem code_of_writtenLines {p : Plan P} {q : Plan Q} (hp : p.Ordered) (hq : q.Ordered)
    (h : writtenLines (p.code.flatMap Clause.lines) = writtenLines (q.code.flatMap Clause.lines)) :
    p.code = q.code := by
  have hne : p.code ≠ [] := List.cons_ne_nil _ _
  have hne' : q.code ≠ [] := List.cons_ne_nil _ _
  obtain ⟨hread, -, hlines⟩ := ofLines?_code hne hp.code_legible
  obtain ⟨hread', -, hlines'⟩ := ofLines?_code hne' hq.code_legible
  have hsplit := congrArg (List.splitOnP isLineEnd) h
  rw [splitOnP_writtenLines hlines, splitOnP_writtenLines hlines'] at hsplit
  have hsame : p.code.flatMap Clause.lines = q.code.flatMap Clause.lines :=
    List.map_injective_iff.mpr (fun _ _ => String.toList_inj.mp) (List.append_cancel_right hsplit)
  rw [hsame] at hread
  exact Option.some.inj (hread.symm.trans hread')

/-- Texts of factories that are the same under one name are the same from the caption on. -/
theorem body_of_generate {p : Plan P} {q : Plan Q} {title title' name : String}
    (h : p.generate title name = q.generate title' name) :
    ("    # " ++ (p.factory title name).caption).toList ++
        '\n' :: writtenLines (p.code.flatMap Clause.lines) =
      ("    # " ++ (q.factory title' name).caption).toList ++
        '\n' :: writtenLines (q.code.flatMap Clause.lines) := by
  have hchars := congrArg String.toList h
  unfold Plan.generate Factory.source Factory.lines at hchars
  rw [toList_written (List.cons_ne_nil _ _), toList_written (List.cons_ne_nil _ _),
    writtenLines_cons, writtenLines_cons _ (_ :: _), writtenLines_cons,
    writtenLines_cons ("    # " ++ _)] at hchars
  exact (List.cons.inj (List.append_cancel_left hchars)).2

end ShapeGrammar
