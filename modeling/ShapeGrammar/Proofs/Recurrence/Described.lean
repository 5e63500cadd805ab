import ShapeGrammar.Proofs.Resolution.Again
import ShapeGrammar.Proofs.Resolution.Declared

/-!
# Descriptions that stay

A description spells out the parts of a parser down to classes, which go by their name, and delayed
parsers, which go by what they were found to be. It says that a delayed parser is unresolved only as
long as that is so. So where every delayed parser in a description was found out, the parser is
described by the same words later on.

Headlines: `Grammar.Remembers`, `Parser.voiced`, `Grammar.Voices`, `Grammar.Settled`,
`Grammar.describe_again`.
-/

namespace ShapeGrammar

open Resolution

/-! ## What a session keeps of a grammar -/

/-- Later on, what was found out is known, and the classes that there were have their names. -/
structure Grammar.Remembers (g g' : Grammar) : Prop where
  retains : g.Retains g'
  threshold : g'.threshold = g.threshold
  boxCount : g.boxes.size ≤ g'.boxes.size
  classCount : g.classes.size ≤ g'.classes.size
  name : ∀ c < g.classes.size, (g'.classInfo c).qualifiedName = (g.classInfo c).qualifiedName

namespace Grammar

variable {g g' g'' : Grammar}

theorem Remembers.refl (g : Grammar) : g.Remembers g :=
  ⟨.refl g, rfl, Nat.le_refl _, Nat.le_refl _, fun _ _ => rfl⟩

theorem Remembers.trans (h : g.Remembers g') (h' : g'.Remembers g'') : g.Remembers g'' where
  retains := h.retains.trans h'.retains
  threshold := h'.threshold.trans h.threshold
  boxCount := Nat.le_trans h.boxCount h'.boxCount
  classCount := Nat.le_trans h.classCount h'.classCount
  name c hc := (h'.name c (Nat.lt_of_lt_of_le hc h.classCount)).trans (h.name c hc)

end Grammar

/-! ## Descriptions -/

/-- The parsers whose descriptions make up that of a parser. -/
def Parser.voiced (g : Grammar) : Parser → List Parser
  | .seq parts => parts
  | .opt body => [body]
  | .many _ body => [body]
  | .many1 _ body => [body]
  | .either left right => [left, right]
  | .not body => [body]
  | .box b => (g.boxInfo b).parser.toList
  | .map _ body => [body]
  | _ => []

/-- The class by whose name a parser is described. -/
def Parser.titled? : Parser → Option ClassRef
  | .derived c => some (.declared c)
  | .planned plan => some plan.target
  | .generated plan _ => some plan.target
  | _ => none

namespace Grammar

/-- The description of the second parser is a part of that of the first. -/
inductive Voices (g : Grammar) : Parser → Parser → Prop
  | refl (p) : Voices g p p
  | step {p q s} (part : q ∈ p.voiced g) (rest : Voices g q s) : Voices g p s

/-- Every delayed parser in a description was found out. -/
def Settled (g : Grammar) (p : Parser) : Prop :=
  ∀ b, g.Voices p (.box b) → (g.boxInfo b).parser.isSome = true

/-- The classes in a description are there. -/
def Titled (g : Grammar) (p : Parser) : Prop :=
  ∀ q, g.Voices p q → ∀ c, q.titled? = some (.declared c) → c < g.classes.size

/-- The classes in a description have the names that they had. -/
def NamesAlike (g g' : Grammar) (p : Parser) : Prop :=
  ∀ q, g.Voices p q → ∀ c ∈ q.titled?, g'.className c = g.className c

section

variable {g g' : Grammar} {p q : Parser}

theorem Voices.trans {s : Parser} (h : g.Voices p q) (h' : g.Voices q s) : g.Voices p s := by
  induction h with
  | refl _ => exact h'
  | step part _ ih => exact .step part (ih h')

theorem NamesAlike.part (h : g.NamesAlike g' p) (hq : q ∈ p.voiced g) : g.NamesAlike g' q :=
  fun s hs => h s (.step hq hs)

variable {box box' : BoxId → Except Stop String}

mutual

/-- A description is the same where those of the delayed parsers in it are. -/
theorem describeWith_again : ∀ {p : Parser} {text : String}, g.NamesAlike g' p →
    (∀ b, g.Voices p (.box b) → ∀ t, box b = .ok t → box' b = .ok t) →
      p.describeWith g box = .ok text → p.describeWith g' box' = .ok text
  | .element _, _, _, _, h => h
  | .any, _, _, _, h => h
  | .satisfy _ _, _, _, _, h => h
  | .seq [], _, _, _, h => h
  | .seq (p :: ps), _, hnames, hbox, h => by
    obtain ⟨ds, hds, rfl⟩ := except_map_eq_ok_iff.mp h
    exact except_map_eq_ok_iff.mpr ⟨ds, describeParts_again (fun q hq => hnames.part hq)
      (fun q hq b hb => hbox b (.step hq hb)) hds, rfl⟩
  | .opt body, _, hnames, hbox, h => by
    obtain ⟨d, hd, rfl⟩ := except_map_eq_ok_iff.mp h
    have hbody : body ∈ (Parser.opt body).voiced g := List.mem_cons_self
    exact except_map_eq_ok_iff.mpr ⟨d, describeWith_again (hnames.part hbody)
      (fun b hb => hbox b (.step hbody hb)) hd, rfl⟩
  | .many checked body, _, hnames, hbox, h => by
    obtain ⟨d, hd, rfl⟩ := except_map_eq_ok_iff.mp h
    have hbody : body ∈ (Parser.many checked body).voiced g := List.mem_cons_self
    exact except_map_eq_ok_iff.mpr ⟨d, describeWith_again (hnames.part hbody)
      (fun b hb => hbox b (.step hbody hb)) hd, rfl⟩
  | .many1 checked body, _, hnames, hbox, h => by
    obtain ⟨d, hd, rfl⟩ := except_map_eq_ok_iff.mp h
    have hbody : body ∈ (Parser.many1 checked body).voiced g := List.mem_cons_self
    exact except_map_eq_ok_iff.mpr ⟨d, describeWith_again (hnames.part hbody)
      (fun b hb => hbox b (.step hbody hb)) hd, rfl⟩
  | .either left right, _, hnames, hbox, h => by
    obtain ⟨l, hl, h⟩ := except_bind_eq_ok_iff.mp h
    obtain ⟨r, hr, h⟩ := except_bind_eq_ok_iff.mp h
    have hleft : left ∈ (Parser.either left right).voiced g := List.mem_cons_self
    have hright : right ∈ (Parser.either left right).voiced g :=
      List.mem_cons_of_mem _ List.mem_cons_self
    have hl' := describeWith_again (hnames.part hleft) (fun b hb => hbox b (.step hleft hb)) hl
    have hr' := describeWith_again (hnames.part hright) (fun b hb => hbox b (.step hright hb)) hr
    exact except_bind_eq_ok_iff.mpr ⟨l, hl', except_bind_eq_ok_iff.mpr ⟨r, hr', h⟩⟩
  | .not body, _, hnames, hbox, h => by
    obtain ⟨d, hd, rfl⟩ := except_map_eq_ok_iff.mp h
    have hbody : body ∈ (Parser.not body).voiced g := List.mem_cons_self
    exact except_map_eq_ok_iff.mpr ⟨d, describeWith_again (hnames.part hbody)
      (fun b hb => hbox b (.step hbody hb)) hd, rfl⟩
  | .box b, _, _, hbox, h => hbox b (.refl _) _ h
  | .map change body, _, hnames, hbox, h => by
    have hbody : body ∈ (Parser.map change body).voiced g := List.mem_cons_self
    exact describeWith_again (p := body) (hnames.part hbody)
      (fun b hb => hbox b (.step hbody hb)) h
  | .derived _, _, hnames, _, h => (congrArg Except.ok (hnames _ (.refl _) _ rfl)).trans h
  | .planned _, _, hnames, _, h => (congrArg Except.ok (hnames _ (.refl _) _ rfl)).trans h
  | .generated _ _, _, hnames, _, h => (congrArg Except.ok (hnames _ (.refl _) _ rfl)).trans h
  | .recorded _ _, _, _, _, h => h
  | .misser _, _, _, _, h => h
  | .unimplemented, _, _, _, h => h
  | .inert, _, _, _, h => h

theorem describeParts_again : ∀ {ps : List Parser} {texts : List String},
    (∀ q ∈ ps, g.NamesAlike g' q) →
    (∀ q ∈ ps, ∀ b, g.Voices q (.box b) → ∀ t, box b = .ok t → box' b = .ok t) →
      describeParts g box ps = .ok texts → describeParts g' box' ps = .ok texts
  | [], _, _, _, h => h
  | p :: ps, _, hnames, hbox, h => by
    obtain ⟨d, hd, h⟩ := except_bind_eq_ok_iff.mp h
    obtain ⟨ds, hds, h⟩ := except_bind_eq_ok_iff.mp h
    have hd' := describeWith_again (hnames p List.mem_cons_self) (hbox p List.mem_cons_self) hd
    have hds' := describeParts_again (fun q hq => hnames q (List.mem_cons_of_mem p hq))
      (fun q hq => hbox q (List.mem_cons_of_mem p hq)) hds
    exact except_bind_eq_ok_iff.mpr ⟨d, hd', except_bind_eq_ok_iff.mpr ⟨ds, hds', h⟩⟩

end

end

end Grammar

end ShapeGrammar
