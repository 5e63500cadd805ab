import ShapeGrammar.Proofs.Termination.Fitting
import Mathlib.Data.Finset.Card
import Mathlib.Data.Finset.Filter
import Mathlib.Data.Finset.Range

/-!
# What has a skeleton has a description

A description spells out a delayed parser as what it was found to be. What is behind it has a
smaller skeleton, so that no delayed parser comes twice on one way into a description, and the
number of delayed parsers bounds how far the way leads.

Headline: `HasSkeleton.describe`.
-/

namespace ShapeGrammar

variable {S : Skeletons} {base g : Grammar} {x : Skeleton}

/-- A delayed parser that has a skeleton is there. -/
theorem HasSkeleton.box_lt (hg : Fits S base g) {b : BoxId}
    (h : HasSkeleton S base g (.parser (.box b)) x) : b < g.boxes.size := by
  cases h with
  | boxFound hp =>
    refine Nat.lt_of_lt_of_le (Nat.lt_of_not_le fun hle => ?_) hg.later.boxCount
    rw [base.boxInfo_of_size_le hle] at hp
    cases hp
  | boxOpen _ _ hb => exact hb

mutual

/-- What has a skeleton has a description, if all delayed parsers have one that are no larger. -/
theorem HasSkeleton.describeWith {k : Grammar} {box : BoxId → Except Stop String} :
    ∀ {p : Parser} {x : Skeleton}, HasSkeleton S base g (.parser p) x →
      (∀ {b y}, HasSkeleton S base g (.parser (.box b)) y → y.size ≤ x.size →
        ∃ text, box b = .ok text) →
      ∃ text, p.describeWith k box = .ok text
  | .element v, x, hx, hbox => ⟨_, rfl⟩
  | .any, x, hx, hbox => ⟨_, rfl⟩
  | .satisfy _ _, x, hx, hbox => ⟨_, rfl⟩
  | .seq [], x, hx, hbox => ⟨_, rfl⟩
  | .seq (p :: ps), x, hx, hbox => by
    cases hx with
    | seq hx =>
      obtain ⟨texts, ht⟩ := HasSkeleton.describeParts (k := k) hx fun hb hle =>
        hbox hb (Nat.le_trans hle (Nat.le_succ _))
      exact ⟨_, except_map_eq_ok_iff.mpr ⟨texts, ht, rfl⟩⟩
  | .opt p, x, hx, hbox => by
    cases hx with
    | opt hx =>
      obtain ⟨text, ht⟩ := hx.describeWith (k := k) fun hb hle =>
        hbox hb (Nat.le_trans hle (Nat.le_succ _))
      exact ⟨_, except_map_eq_ok_iff.mpr ⟨text, ht, rfl⟩⟩
  | .many _ p, x, hx, hbox => by
    cases hx with
    | many hx =>
      obtain ⟨text, ht⟩ := hx.describeWith (k := k) fun hb hle =>
        hbox hb (Nat.le_trans hle (Nat.le_succ _))
      exact ⟨_, except_map_eq_ok_iff.mpr ⟨text, ht, rfl⟩⟩
  | .many1 _ p, x, hx, hbox => by
    cases hx with
    | many1 hx =>
      obtain ⟨text, ht⟩ := hx.describeWith (k := k) fun hb hle =>
        hbox hb (Nat.le_trans hle (Nat.le_succ _))
      exact ⟨_, except_map_eq_ok_iff.mpr ⟨text, ht, rfl⟩⟩
  | .either p q, x, hx, hbox => by
    cases hx with
    | either hp hq =>
      obtain ⟨l, hl⟩ := hp.describeWith (k := k) fun hb hle =>
        hbox hb (by simp only [Skeleton.size]; omega)
      obtain ⟨r, hr⟩ := hq.describeWith (k := k) fun hb hle =>
        hbox hb (by simp only [Skeleton.size]; omega)
      exact ⟨_, except_bind_eq_ok_iff.mpr ⟨l, hl, except_bind_eq_ok_iff.mpr ⟨r, hr, rfl⟩⟩⟩
  | .not p, x, hx, hbox => by
    cases hx with
    | not hx =>
      obtain ⟨text, ht⟩ := hx.describeWith (k := k) fun hb hle =>
        hbox hb (Nat.le_trans hle (Nat.le_succ _))
      exact ⟨_, except_map_eq_ok_iff.mpr ⟨text, ht, rfl⟩⟩
  | .box b, x, hx, hbox => hbox hx (Nat.le_refl _)
  | .map _ p, x, hx, hbox => by
    cases hx with
    | map _ hx => exact hx.describeWith fun hb hle => hbox hb (Nat.le_trans hle (Nat.le_succ _))
  | .derived _, x, hx, hbox => ⟨_, rfl⟩
  | .planned _, x, hx, hbox => ⟨_, rfl⟩
  | .generated _ _, x, hx, hbox => ⟨_, rfl⟩
  | .recorded _ _, x, hx, hbox => ⟨_, rfl⟩
  | .misser _, x, hx, hbox => ⟨_, rfl⟩
  | .unimplemented, x, hx, hbox => ⟨_, rfl⟩
  | .inert, x, hx, hbox => nomatch hx

theorem HasSkeleton.describeParts {k : Grammar} {box : BoxId → Except Stop String} :
    ∀ {ps : List Parser} {x : Skeleton}, HasSkeleton S base g (.parsers ps) x →
      (∀ {b y}, HasSkeleton S base g (.parser (.box b)) y → y.size ≤ x.size →
        ∃ text, box b = .ok text) →
      ∃ texts, ShapeGrammar.describeParts k box ps = .ok texts
  | [], x, hx, hbox => ⟨_, rfl⟩
  | p :: ps, x, hx, hbox => by
    cases hx with
    | parts hp hps =>
      obtain ⟨t, ht⟩ := hp.describeWith (k := k) fun hb hle =>
        hbox hb (by simp only [Skeleton.size]; omega)
      obtain ⟨ts, hts⟩ := HasSkeleton.describeParts (k := k) hps fun hb hle =>
        hbox hb (by simp only [Skeleton.size]; omega)
      exact ⟨_, except_bind_eq_ok_iff.mpr ⟨t, ht, except_bind_eq_ok_iff.mpr ⟨ts, hts, rfl⟩⟩⟩

end

section Boxes

open Classical

/-- The delayed parsers whose skeleton is of less than this size. -/
noncomputable def boxesBelow (S : Skeletons) (base g : Grammar) (n : Nat) : Finset BoxId :=
  (Finset.range g.boxes.size).filter fun b =>
    ∃ y, HasSkeleton S base g (.parser (.box b)) y ∧ y.size < n

theorem mem_boxesBelow {n : Nat} {b : BoxId} : b ∈ boxesBelow S base g n ↔
    b < g.boxes.size ∧ ∃ y, HasSkeleton S base g (.parser (.box b)) y ∧ y.size < n := by
  unfold boxesBelow
  rw [Finset.mem_filter, Finset.mem_range]

/-- Fewer delayed parsers are smaller than one of them that is smaller. -/
theorem card_boxesBelow_lt {b : BoxId} {y : Skeleton} {n : Nat} (hg : Fits S base g)
    (hy : HasSkeleton S base g (.parser (.box b)) y) (hn : y.size < n) :
    (boxesBelow S base g y.size).card < (boxesBelow S base g n).card := by
  refine Finset.card_lt_card (Finset.ssubset_iff_of_subset (fun c hc => ?_) |>.mpr ⟨b, ?_, ?_⟩)
  · obtain ⟨hlt, z, hz, hsize⟩ := mem_boxesBelow.mp hc
    exact mem_boxesBelow.mpr ⟨hlt, z, hz, Nat.lt_trans hsize hn⟩
  · exact mem_boxesBelow.mpr ⟨hy.box_lt hg, y, hy, hn⟩
  · intro hb
    obtain ⟨-, z, hz, hsize⟩ := mem_boxesBelow.mp hb
    rw [hz.unique hy] at hsize
    exact Nat.lt_irrefl _ hsize

/-- A delayed parser is described through as many others as are smaller. -/
theorem HasSkeleton.describeBox (hg : Fits S base g) : ∀ {depth : Nat} {b : BoxId} {x : Skeleton},
    HasSkeleton S base g (.parser (.box b)) x → (boxesBelow S base g x.size).card < depth →
      ∃ text, g.describeBox depth b = .ok text
  | depth + 1, b, x, hx, hdepth => by
    unfold Grammar.describeBox
    cases hp : (g.boxInfo b).parser with
    | none => exact ⟨_, rfl⟩
    | some p =>
      -- what is behind it is smaller
      obtain ⟨y, rfl⟩ : ∃ y, x = .within y := by cases hx <;> exact ⟨_, rfl⟩
      have hy := hg.fits (f := .box b) hp g y (.refl g) hx
      refine hy.describeWith fun {c z} hz hle => ?_
      have hlt := card_boxesBelow_lt hg hz (Nat.lt_succ_of_le hle)
      exact HasSkeleton.describeBox hg hz (Nat.lt_of_lt_of_le hlt (Nat.le_of_lt_succ hdepth))

/-- **What has a skeleton has a description.** -/
theorem HasSkeleton.describe (hg : Fits S base g) {p : Parser}
    (hx : HasSkeleton S base g (.parser p) x) : ∃ text, g.describe p = .ok text := by
  refine hx.describeWith fun {b y} hy _ => hy.describeBox hg (Nat.lt_succ_of_le ?_)
  exact (Finset.card_filter_le _ _).trans_eq (Finset.card_range _)

end Boxes

end ShapeGrammar
