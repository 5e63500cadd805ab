import ShapeGrammar.Proofs.Walk.Cost

/-!
# What a grammar still owes

A grammar owes what it would cost to find out everything that it does not know: the plans of its
classes, the values and the parsers of its aliases, and what its delayed parsers come to. A delayed
parser costs one more for being there, so that there are never more of them than a grammar owes.
Nothing is owed for what is being found out at the moment; its cost is being spent.

Aliases are expanded inside one another, and while the value of an alias is evaluated all of them
may be expanded once again. So an alias without a parser is owed once for each alias whose value is
not being evaluated, and once more where it is not being expanded.

Headlines: `Grammar.owed`, `remaining`, `Grammar.owed_push_le`, `Grammar.owed_mark_cls`,
`Grammar.owed_mark_box`, `Grammar.owed_evaluate`, `Grammar.owed_expand`.
-/

namespace ShapeGrammar

/-! ## Counting -/

/-- How many of the first `n` numbers are not among those that were met. -/
def remaining (n : Nat) (met : List Nat) : Nat :=
  ((Finset.range n).filter (· ∉ met)).card

/-- To meet a new one leaves one less. -/
theorem remaining_add_one {n x : Nat} {met met' : List Nat} (hx : x < n) (hnew : x ∉ met)
    (hmet : ∀ y, y ∈ met' ↔ y = x ∨ y ∈ met) : remaining n met' + 1 = remaining n met := by
  have herase : (Finset.range n).filter (· ∉ met') =
      ((Finset.range n).filter (· ∉ met)).erase x := by
    ext y
    simp only [Finset.mem_filter, Finset.mem_erase, hmet, not_or]
    exact ⟨fun h => ⟨h.2.1, h.1, h.2.2⟩, fun h => ⟨h.2.1, h.1, h.2.2⟩⟩
  have hmem : x ∈ (Finset.range n).filter (· ∉ met) :=
    Finset.mem_filter.mpr ⟨Finset.mem_range.mpr hx, hnew⟩
  unfold remaining
  rw [herase]
  exact Finset.card_erase_add_one hmem

theorem remaining_le (n : Nat) (met : List Nat) : remaining n met ≤ n := by
  have h := Finset.card_filter_le (Finset.range n) (· ∉ met)
  rwa [Finset.card_range] at h

/-- Two sums that differ in one place only. -/
theorem sum_add_of_eq_elsewhere {f f' : Nat → Nat} {n x k : Nat} (hx : x < n) (hat : f' x + k = f x)
    (helse : ∀ y, y ≠ x → f' y = f y) :
    ∑ y ∈ Finset.range n, f' y + k = ∑ y ∈ Finset.range n, f y := by
  have hmem := Finset.mem_range.mpr hx
  have hsame : ∑ y ∈ (Finset.range n).erase x, f' y = ∑ y ∈ (Finset.range n).erase x, f y :=
    Finset.sum_congr rfl fun y hy => helse y (Finset.ne_of_mem_erase hy)
  have hf := Finset.add_sum_erase (Finset.range n) f hmem
  have hf' := Finset.add_sum_erase (Finset.range n) f' hmem
  omega

namespace Grammar

variable (w u : Nat) (evaluating expanding : List AliasId) (g : Grammar)

/-! ## Debts -/

/-- What is owed for a class. -/
def planDebt (c : ClassId) : Nat :=
  if (g.classInfo c).plan.isSome ∨ .cls c ∈ g.pending then 0 else w

/-- What is owed for the value of an alias. -/
def valueDebt (a : AliasId) : Nat :=
  if (g.aliasInfo a).value.isSome ∨ a ∈ evaluating then 0 else u

/-- What is owed for the parser of an alias. -/
def handleDebt (a : AliasId) : Nat :=
  if (g.aliasInfo a).parser.isSome then 0
  else (remaining g.aliases.size evaluating + if a ∈ expanding then 0 else 1) * u

/-- What is owed for a delayed parser. -/
def boxDebt (b : BoxId) : Nat :=
  1 + if (g.boxInfo b).parser.isSome ∨ .box b ∈ g.pending then 0 else (g.boxInfo b).body.cost w

/-- What is owed for all classes. -/
def plansOwed : Nat :=
  ∑ c ∈ Finset.range g.classes.size, g.planDebt w c

/-- What is owed for the values of all aliases. -/
def valuesOwed : Nat :=
  ∑ a ∈ Finset.range g.aliases.size, g.valueDebt u evaluating a

/-- What is owed for the parsers of all aliases. -/
def handlesOwed : Nat :=
  ∑ a ∈ Finset.range g.aliases.size, g.handleDebt u evaluating expanding a

/-- What is owed for all delayed parsers. -/
def boxesOwed : Nat :=
  ∑ b ∈ Finset.range g.boxes.size, g.boxDebt w b

/-- What is owed for all that is not known. -/
def owed : Nat :=
  g.plansOwed w + g.valuesOwed u evaluating + g.handlesOwed u evaluating expanding + g.boxesOwed w

variable {w u : Nat} {evaluating expanding : List AliasId} {g : Grammar}

/-- There are no more delayed parsers than what is owed. -/
theorem boxes_le_owed : g.boxes.size ≤ g.owed w u evaluating expanding := by
  have hone : ∑ _b ∈ Finset.range g.boxes.size, 1 ≤ g.boxesOwed w :=
    Finset.sum_le_sum fun b _ => Nat.le_add_right 1 _
  rw [← Finset.card_eq_sum_ones, Finset.card_range] at hone
  unfold owed
  omega

theorem owed_of_eq {g' : Grammar} (hclasses : g'.classes = g.classes)
    (haliases : g'.aliases = g.aliases) (hboxes : g'.boxes = g.boxes)
    (hpending : g'.pending = g.pending) :
    g'.owed w u evaluating expanding = g.owed w u evaluating expanding := by
  unfold owed plansOwed valuesOwed handlesOwed boxesOwed planDebt valueDebt handleDebt boxDebt
  unfold classInfo aliasInfo boxInfo
  rw [hclasses, haliases, hboxes, hpending]

/-! ## Delayed parsers -/

/-- A new delayed parser is owed for with what it costs to open it, if it has to be opened. -/
theorem owed_push_le {info : BoxInfo} {k : Nat}
    (hk : info.parser = none → info.body.cost w ≤ k) :
    ({ g with boxes := g.boxes.push info } : Grammar).owed w u evaluating expanding ≤
      g.owed w u evaluating expanding + (k + 1) := by
  have hold : ∑ b ∈ Finset.range g.boxes.size,
      ({ g with boxes := g.boxes.push info } : Grammar).boxDebt w b = g.boxesOwed w := by
    refine Finset.sum_congr rfl fun b hb => ?_
    unfold boxDebt
    rw [boxInfo_push_of_lt g info (Finset.mem_range.mp hb)]
  have hnew : ({ g with boxes := g.boxes.push info } : Grammar).boxInfo g.boxes.size = info := by
    rw [boxInfo_push, if_pos rfl]
  have hdebt :
      ({ g with boxes := g.boxes.push info } : Grammar).boxDebt w g.boxes.size ≤ k + 1 := by
    unfold boxDebt
    rw [hnew]
    split
    · omega
    · rename_i hopen
      have := hk (by simpa using (not_or.mp hopen).1)
      omega
  have hboxes : ({ g with boxes := g.boxes.push info } : Grammar).boxesOwed w ≤
      g.boxesOwed w + (k + 1) := by
    unfold boxesOwed
    rw [Array.size_push, Finset.sum_range_succ, hold]
    exact Nat.add_le_add_left hdebt _
  exact Nat.le_trans (Nat.add_le_add_left hboxes _) (Nat.le_of_eq (Nat.add_assoc _ _ _).symm)

/-- While a delayed parser is being found out, nothing is owed for opening it. -/
theorem owed_mark_box {b : BoxId} (hb : b < g.boxes.size) (hfree : .box b ∉ g.pending) :
    ({ g with pending := .box b :: g.pending } : Grammar).owed w u evaluating expanding +
        (if (g.boxInfo b).parser.isSome then 0 else (g.boxInfo b).body.cost w) =
      g.owed w u evaluating expanding := by
  have hboxes : ({ g with pending := .box b :: g.pending } : Grammar).boxesOwed w +
      (if (g.boxInfo b).parser.isSome then 0 else (g.boxInfo b).body.cost w) = g.boxesOwed w :=
    sum_add_of_eq_elsewhere hb (by simp [boxDebt, boxInfo, hfree])
      fun d hd => by simp [boxDebt, boxInfo, hd]
  have hplans : ({ g with pending := .box b :: g.pending } : Grammar).plansOwed w =
      g.plansOwed w := by
    simp [plansOwed, planDebt, classInfo]
  have hvalues : ({ g with pending := .box b :: g.pending } : Grammar).valuesOwed u evaluating =
      g.valuesOwed u evaluating := rfl
  have hhandles : ({ g with pending := .box b :: g.pending } : Grammar).handlesOwed u evaluating
      expanding = g.handlesOwed u evaluating expanding := rfl
  unfold owed
  omega

/-- What was opened is owed for no more when it is not being found out any longer. -/
theorem owed_unmark_box {b : BoxId} {marks : List Pending} (hmarks : g.pending = .box b :: marks)
    (hknown : (g.boxInfo b).parser.isSome) :
    ({ g with pending := marks } : Grammar).owed w u evaluating expanding =
      g.owed w u evaluating expanding := by
  have hbox : ∀ d, ({ g with pending := marks } : Grammar).boxDebt w d = g.boxDebt w d := by
    intro d
    by_cases hd : d = b
    · subst hd
      have hknown' : (({ g with pending := marks } : Grammar).boxInfo d).parser.isSome := hknown
      simp only [boxDebt, hknown, hknown', true_or, if_true]
    · simp [boxDebt, boxInfo, hmarks, hd]
  have hboxes : ({ g with pending := marks } : Grammar).boxesOwed w = g.boxesOwed w :=
    Finset.sum_congr rfl fun d _ => hbox d
  have hplans : ({ g with pending := marks } : Grammar).plansOwed w = g.plansOwed w := by
    simp [plansOwed, planDebt, classInfo, hmarks]
  unfold owed
  rw [hboxes, hplans]
  rfl

/-- To keep what is known of a delayed parser does not add to what is owed. -/
theorem owed_updateBox_le {b : BoxId} {f : BoxInfo → BoxInfo} (hbody : ∀ i, (f i).body = i.body)
    (hparser : ∀ i, i.parser.isSome → (f i).parser.isSome) :
    (g.updateBox b f).owed w u evaluating expanding ≤ g.owed w u evaluating expanding := by
  have hbox : ∀ d, (g.updateBox b f).boxDebt w d ≤ g.boxDebt w d := by
    intro d
    have hpending : (g.updateBox b f).pending = g.pending := rfl
    unfold boxDebt
    rw [boxInfo_updateBox, hpending]
    split
    · rename_i hd
      rw [hbody]
      by_cases hknown : (g.boxInfo d).parser.isSome
      · simp [hknown, hparser _ hknown]
      · split <;> split <;> simp_all
    · exact Nat.le_refl _
  have hboxes : (g.updateBox b f).boxesOwed w ≤ g.boxesOwed w := by
    have hsize : (g.updateBox b f).boxes.size = g.boxes.size := Array.size_modify
    unfold boxesOwed
    rw [hsize]
    exact Finset.sum_le_sum fun d _ => hbox d
  exact Nat.add_le_add_left hboxes _

/-! ## Classes -/

/-- While a class is being planned, nothing is owed for it. -/
theorem owed_mark_cls {c : ClassId} (hc : c < g.classes.size)
    (hunknown : (g.classInfo c).plan = none)
    (hfree : .cls c ∉ g.pending) :
    ({ g with pending := .cls c :: g.pending } : Grammar).owed w u evaluating expanding + w =
      g.owed w u evaluating expanding := by
  have hplans : ({ g with pending := .cls c :: g.pending } : Grammar).plansOwed w + w =
      g.plansOwed w := by
    refine sum_add_of_eq_elsewhere hc ?_ fun d hd => by simp [planDebt, classInfo, hd]
    have hopen : (g.classInfo c).plan.isSome = false := by rw [hunknown]; rfl
    have hmarked : ({ g with pending := .cls c :: g.pending } : Grammar).planDebt w c = 0 :=
      if_pos (.inr List.mem_cons_self)
    rw [hmarked, Nat.zero_add]
    unfold planDebt
    simp [hopen, hfree]
  have hboxes : ({ g with pending := .cls c :: g.pending } : Grammar).boxesOwed w =
      g.boxesOwed w := by
    simp [boxesOwed, boxDebt, boxInfo]
  have hvalues : ({ g with pending := .cls c :: g.pending } : Grammar).valuesOwed u evaluating =
      g.valuesOwed u evaluating := rfl
  have hhandles : ({ g with pending := .cls c :: g.pending } : Grammar).handlesOwed u evaluating
      expanding = g.handlesOwed u evaluating expanding := rfl
  unfold owed
  omega

/-- When its plan is kept and the class is not being planned any longer, nothing is owed for it. -/
theorem owed_keep_plan_le {c : ClassId} {plan : Plan Parser} {marks : List Pending}
    (hc : c < g.classes.size) (hmarks : g.pending = .cls c :: marks) :
    ((Finding.plan c).keep { g with pending := marks } plan).owed w u evaluating expanding ≤
      g.owed w u evaluating expanding := by
  have hsize : ((Finding.plan c).keep { g with pending := marks } plan).classes.size =
      g.classes.size := Array.size_modify
  have hpending : ((Finding.plan c).keep { g with pending := marks } plan).pending = marks := rfl
  have hplan : ∀ d, ((Finding.plan c).keep { g with pending := marks } plan).planDebt w d ≤
      g.planDebt w d := by
    intro d
    unfold planDebt
    rw [hpending, hmarks]
    simp only [Finding.keep, classInfo_updateClass]
    by_cases hd : c = d
    · subst hd
      have hlt : c < ({ g with pending := marks } : Grammar).classes.size := hc
      simp only [hlt, true_and, if_true, Option.isSome_some, true_or]
      exact Nat.zero_le _
    · have hinfo : ({ g with pending := marks } : Grammar).classInfo d = g.classInfo d := rfl
      have hne : ¬ Pending.cls d = .cls c := fun h => hd (Pending.cls.inj h).symm
      simp only [hd, false_and, if_false, hinfo, List.mem_cons, hne, false_or]
      exact Nat.le_refl _
  have hplans : ((Finding.plan c).keep { g with pending := marks } plan).plansOwed w ≤
      g.plansOwed w := by
    unfold plansOwed
    rw [hsize]
    exact Finset.sum_le_sum fun d _ => hplan d
  have hboxes : ((Finding.plan c).keep { g with pending := marks } plan).boxesOwed w =
      g.boxesOwed w := by
    have hbox : ∀ b, ((Finding.plan c).keep { g with pending := marks } plan).boxDebt w b =
        g.boxDebt w b := by
      intro b
      unfold boxDebt
      rw [hpending, hmarks]
      simp [Finding.keep, updateClass, boxInfo]
    exact Finset.sum_congr rfl fun b _ => hbox b
  have hvalues : ((Finding.plan c).keep { g with pending := marks } plan).valuesOwed u evaluating =
      g.valuesOwed u evaluating := rfl
  have hhandles : ((Finding.plan c).keep { g with pending := marks } plan).handlesOwed u evaluating
      expanding = g.handlesOwed u evaluating expanding := rfl
  unfold owed
  omega

/-! ## Aliases -/

/-- What is owed for the parsers of aliases that are not being expanded, each one once. -/
def unexpanded (u : Nat) (expanding : List AliasId) (g : Grammar) : Nat :=
  ∑ a ∈ Finset.range g.aliases.size,
    if (g.aliasInfo a).parser.isSome ∨ a ∈ expanding then 0 else u

theorem unexpanded_mono {g' : Grammar} (hg : g.Precedes g')
    (hcount : g'.aliases.size = g.aliases.size) :
    g'.unexpanded u expanding ≤ g.unexpanded u expanding := by
  unfold unexpanded
  rw [hcount]
  refine Finset.sum_le_sum fun a _ => ?_
  cases hknown : (g.aliasInfo a).parser with
  | some k =>
    have hlater : (g'.aliasInfo a).parser = some k := hg.known (f := .handle a) hknown
    simp [hlater]
  | none => split <;> split <;> simp_all

/-- While the value of one more alias is evaluated, all those that are being expanded may be
expanded once again. -/
theorem handlesOwed_evaluate {a : AliasId} (ha : a < g.aliases.size) (hnew : a ∉ evaluating) :
    g.handlesOwed u (a :: evaluating) [] + g.unexpanded u expanding =
      g.handlesOwed u evaluating expanding := by
  have hleft : remaining g.aliases.size (a :: evaluating) + 1 =
      remaining g.aliases.size evaluating := remaining_add_one ha hnew fun _ => List.mem_cons
  unfold handlesOwed unexpanded
  rw [← Finset.sum_add_distrib]
  refine Finset.sum_congr rfl fun d _ => ?_
  unfold handleDebt
  by_cases hknown : (g.aliasInfo d).parser.isSome
  · simp [hknown]
  · by_cases hd : d ∈ expanding
    · simp [hknown, hd, hleft]
    · simp [hknown, hd, hleft, Nat.add_mul]

/-- While the value of an alias is evaluated, nothing is owed for it. -/
theorem owed_evaluate {a : AliasId} (ha : a < g.aliases.size)
    (hunknown : (g.aliasInfo a).value = none) (hnew : a ∉ evaluating) :
    g.owed w u (a :: evaluating) [] + g.unexpanded u expanding + u =
      g.owed w u evaluating expanding := by
  have hvalues : g.valuesOwed u (a :: evaluating) + u = g.valuesOwed u evaluating := by
    refine sum_add_of_eq_elsewhere ha ?_ fun d hd => by simp [valueDebt, hd]
    simp [valueDebt, hunknown, hnew]
  have hhandles : g.handlesOwed u (a :: evaluating) [] + g.unexpanded u expanding =
      g.handlesOwed u evaluating expanding := handlesOwed_evaluate ha hnew
  unfold owed
  omega

/-- Nothing is owed for a value that is kept. -/
theorem owed_keep_value_le {a : AliasId} {v : Shape} (ha : a < g.aliases.size)
    (hnew : a ∉ evaluating) : ((Finding.value a).keep g v).owed w u evaluating expanding ≤
      g.owed w u (a :: evaluating) [] + g.unexpanded u expanding := by
  have hsize : ((Finding.value a).keep g v).aliases.size = g.aliases.size := Array.size_modify
  have hvalues : ((Finding.value a).keep g v).valuesOwed u evaluating ≤
      g.valuesOwed u (a :: evaluating) := by
    unfold valuesOwed
    rw [hsize]
    refine Finset.sum_le_sum fun d _ => ?_
    unfold valueDebt
    simp only [Finding.keep, aliasInfo_updateAlias]
    by_cases hd : a = d
    · subst hd
      simp [ha]
    · simp [hd, Ne.symm hd]
  have hhandles : ((Finding.value a).keep g v).handlesOwed u evaluating expanding =
      g.handlesOwed u evaluating expanding := by
    unfold handlesOwed
    rw [hsize]
    refine Finset.sum_congr rfl fun d _ => ?_
    unfold handleDebt
    rw [hsize]
    simp only [Finding.keep, aliasInfo_updateAlias]
    split <;> rfl
  have hsplit : g.handlesOwed u (a :: evaluating) [] + g.unexpanded u expanding =
      g.handlesOwed u evaluating expanding := handlesOwed_evaluate ha hnew
  have hplans : ((Finding.value a).keep g v).plansOwed w = g.plansOwed w := rfl
  have hboxes : ((Finding.value a).keep g v).boxesOwed w = g.boxesOwed w := rfl
  unfold owed
  omega

/-- An alias that is being expanded is owed for once less. -/
theorem owed_expand {a : AliasId} (ha : a < g.aliases.size)
    (hunknown : (g.aliasInfo a).parser = none) (hnew : a ∉ expanding) :
    g.owed w u evaluating (expanding ++ [a]) + u = g.owed w u evaluating expanding := by
  have hhandles : g.handlesOwed u evaluating (expanding ++ [a]) + u =
      g.handlesOwed u evaluating expanding := by
    refine sum_add_of_eq_elsewhere ha ?_ fun d hd => by simp [handleDebt, hd]
    simp [handleDebt, hunknown, hnew, Nat.add_mul]
  unfold owed
  omega

/-- Nothing is owed for a parser that is kept. -/
theorem owed_keep_handle_le {a : AliasId} {h : Handle} (ha : a < g.aliases.size) :
    ((Finding.handle a).keep g h).owed w u evaluating expanding ≤
      g.owed w u evaluating (expanding ++ [a]) := by
  have hsize : ((Finding.handle a).keep g h).aliases.size = g.aliases.size := Array.size_modify
  have hhandles : ((Finding.handle a).keep g h).handlesOwed u evaluating expanding ≤
      g.handlesOwed u evaluating (expanding ++ [a]) := by
    unfold handlesOwed
    rw [hsize]
    refine Finset.sum_le_sum fun d _ => ?_
    unfold handleDebt
    rw [hsize]
    simp only [Finding.keep, aliasInfo_updateAlias]
    by_cases hd : a = d
    · subst hd
      simp [ha]
    · simp [hd, Ne.symm hd]
  have hvalues : ((Finding.handle a).keep g h).valuesOwed u evaluating =
      g.valuesOwed u evaluating := by
    unfold valuesOwed
    rw [hsize]
    refine Finset.sum_congr rfl fun d _ => ?_
    unfold valueDebt
    simp only [Finding.keep, aliasInfo_updateAlias]
    split <;> rfl
  have hplans : ((Finding.handle a).keep g h).plansOwed w = g.plansOwed w := rfl
  have hboxes : ((Finding.handle a).keep g h).boxesOwed w = g.boxesOwed w := rfl
  unfold owed
  omega

end Grammar

end ShapeGrammar
