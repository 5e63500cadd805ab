import Mathlib.Data.List.Forall2
import ShapeGrammar.Proofs.Inhabitation.Shapes
import ShapeGrammar.Proofs.Resolution.Keeps

/-!
# Parsers of shapes

Which parsers a shape may be resolved to: the structure of the parser is that of the shape, down to
classes, which are parsed by their plans, and delayed parsers, which are found out later. What is
known of a grammar fits its declarations if the parser of every alias is one of its value, every
delayed parser that was found out is one of its shape, and every plan makes one attempt for each
form of the class with the parsers of its fields in order.

Headlines: `Grammar.persists_law`, `Grammar.Parses`, `Grammar.Realizes`, `Grammar.Consistent`.
-/

namespace ShapeGrammar

open Resolution

namespace Grammar

/-! ## What stays -/

section Persists

variable {g : Grammar}

theorem persists_of_eq {g' : Grammar} (hclasses : g'.classes = g.classes)
    (haliases : g'.aliases = g.aliases) (hboxes : g'.boxes = g.boxes)
    (hfields : g'.fields = g.fields) (hnames : g'.names = g.names) : g.Persists g' where
  classes c := ⟨(g.classInfo c).plan, by unfold classInfo; rw [hclasses]⟩
  classCount := by rw [hclasses]
  fields := hfields
  names := hnames
  aliases a := by unfold aliasInfo; rw [haliases]
  boxes hb := ⟨hboxes ▸ hb, by unfold boxInfo; rw [hboxes]⟩

theorem persists_pushBox (info : BoxInfo) :
    g.Persists { g with boxes := g.boxes.push info } where
  toSameDeclarations := ⟨fun c => ⟨(g.classInfo c).plan, rfl⟩, rfl, rfl, rfl⟩
  aliases _ := rfl
  boxes {b} hb := by
    refine ⟨?_, congrArg BoxInfo.body (boxInfo_push_of_lt g info hb)⟩
    rw [Array.size_push]
    exact Nat.lt_succ_of_lt hb

theorem persists_keep {α : Type} (f : Finding α) (a : α) : g.Persists (f.keep g a) := by
  obtain ⟨hclasses, hcount, hboxes⟩ := f.keep_frame g a
  refine ⟨⟨hclasses, hcount, ?_, ?_⟩, fun b => ?_, fun {b} hb => ⟨hboxes ▸ hb, ?_⟩⟩
  · cases f <;> rfl
  · cases f <;> rfl
  · cases f with
    | value c =>
      simp only [Finding.keep, aliasInfo_updateAlias]
      split <;> rfl
    | handle c =>
      simp only [Finding.keep, aliasInfo_updateAlias]
      split <;> rfl
    | _ => rfl
  · cases f with
    | box c =>
      simp only [Finding.keep, boxInfo_updateBox]
      split <;> rfl
    | kind c =>
      simp only [Finding.keep, boxInfo_updateBox]
      split <;> rfl
    | _ => rfl

/-- What a grammar declares stays while things are found out. -/
theorem persists_law (g0 : Grammar) : ResolutionLaw (Keeps g0.Persists) where
  toStepLaw := keeps_steps (fun _ h => h.trans (persists_of_eq rfl rfl rfl rfl rfl))
    (fun _ h => h.trans (persists_of_eq rfl rfl rfl rfl rfl))
    (fun _ h => h.trans (persists_of_eq rfl rfl rfl rfl rfl))
    fun _ h => h.trans (persists_pushBox _)
  remember f _ hx _ g hg := keeps_remember f hg (hx g hg) fun _ _ h =>
    h.trans (persists_keep f _)

end Persists

end Grammar

/-- What a computation leaves behind has the same declarations. -/
theorem persists_of_ok {α : Type} {x : Resolution α} (hx : ∀ g0 : Grammar, Keeps g0.Persists x)
    {g g' : Grammar} {a : α} (h : x g = .ok a g') : g.Persists g' :=
  (hx g).of_ok (.refl g) h

/-! ## Parsers of shapes -/

namespace Grammar

/-- The parsers that a shape may be resolved to. -/
inductive Parses (g : Grammar) : Parser → Shape → Prop
  /-- Somebody has written the parser. -/
  | raw {p s a} (is : g.Denotes s a) (raw : a.isRaw = true) : Parses g p s
  | character {s c} (is : g.Denotes s (.cls (.character c))) : Parses g (.character c) s
  | text {s} (is : g.Denotes s (.cls (.builtin .text))) : Parses g .any s
  | derived {s c} (is : g.Denotes s (.cls (.declared c))) : Parses g (.derived c) s
  | tupleNil {s} (is : g.Denotes s (.tuple [])) : Parses g (.seq []) s
  | tupleCons {s p ps a as} (is : g.Denotes s (.tuple (a :: as))) (first : Parses g p a)
    (rest : Parses g (.seq ps) (.tuple as)) : Parses g (.seq (p :: ps)) s
  | list {s p item} (is : g.Denotes s (.list item)) (parses : Parses g p item) :
    Parses g (.many true p) s
  | nonempty {s p item} (is : g.Denotes s (.nonempty item)) (parses : Parses g p item) :
    Parses g (.many1 true p) s
  | second {s p a b} (is : g.Denotes s (.union [a, b])) (optional : a.isNothing = true)
    (parses : Parses g p b) : Parses g (.opt p) s
  | first {s p a b} (is : g.Denotes s (.union [a, b])) (optional : b.isNothing = true)
    (parses : Parses g p a) : Parses g (.opt p) s
  | either {s p q a b} (is : g.Denotes s (.either a b)) (left : Parses g p a)
    (right : Parses g q b) : Parses g (.either p q) s
  | not {s p a} (is : g.Denotes s (.not a)) (parses : Parses g p a) : Parses g (.not p) s
  | box {s b body} (is : g.Denotes s (.box body)) (lt : b < g.boxes.size)
    (delayed : (g.boxInfo b).body = .shape body) : Parses g (.box b) s

/-- What stands for a shape has its parsers. -/
theorem Parses.stands {g : Grammar} {p : Parser} {a b : Shape} (stands : g.StandsFor a b)
    (h : g.Parses p b) : g.Parses p a := by
  cases h with
  | raw is raw => exact .raw (.head stands is) raw
  | character is => exact .character (.head stands is)
  | text is => exact .text (.head stands is)
  | derived is => exact .derived (.head stands is)
  | tupleNil is => exact .tupleNil (.head stands is)
  | tupleCons is first rest => exact .tupleCons (.head stands is) first rest
  | list is parses => exact .list (.head stands is) parses
  | nonempty is parses => exact .nonempty (.head stands is) parses
  | second is optional parses => exact .second (.head stands is) optional parses
  | first is optional parses => exact .first (.head stands is) optional parses
  | either is left right => exact .either (.head stands is) left right
  | not is parses => exact .not (.head stands is) parses
  | box is lt delayed => exact .box (.head stands is) lt delayed

theorem Parses.mono {g g' : Grammar} (hg : g.Persists g') {p : Parser} {a : Shape}
    (h : g.Parses p a) : g'.Parses p a := by
  induction h with
  | raw is raw => exact .raw (hg.denotes is) raw
  | character is => exact .character (hg.denotes is)
  | text is => exact .text (hg.denotes is)
  | derived is => exact .derived (hg.denotes is)
  | tupleNil is => exact .tupleNil (hg.denotes is)
  | tupleCons is _ _ ih ih' => exact .tupleCons (hg.denotes is) ih ih'
  | list is _ ih => exact .list (hg.denotes is) ih
  | nonempty is _ ih => exact .nonempty (hg.denotes is) ih
  | second is optional _ ih => exact .second (hg.denotes is) optional ih
  | first is optional _ ih => exact .first (hg.denotes is) optional ih
  | either is _ _ ih ih' => exact .either (hg.denotes is) ih ih'
  | not is _ ih => exact .not (hg.denotes is) ih
  | box is lt delayed =>
    obtain ⟨lt', hbody⟩ := hg.boxes lt
    exact .box (hg.denotes is) lt' (hbody.trans delayed)

/-- An attempt parses the fields of a form, and constructs its class. -/
def Attempts (g : Grammar) (a : Attempt Parser) (form : ClassRef × List SchemaField) : Prop :=
  a.target = form.1 ∧ g.Parses (.seq a.parsers) (.tuple (form.2.map (·.shape)))

/-- A plan makes one attempt for each form of a schema. -/
def Realizes (g : Grammar) (plan : Plan Parser) (schema : Schema) : Prop :=
  List.Forall₂ g.Attempts plan.attempts schema.forms

theorem Attempts.mono {g g' : Grammar} (hg : g.Persists g') {a : Attempt Parser}
    {form : ClassRef × List SchemaField} (h : g.Attempts a form) : g'.Attempts a form :=
  ⟨h.1, h.2.mono hg⟩

theorem Realizes.mono {g g' : Grammar} (hg : g.Persists g') {plan : Plan Parser} {schema : Schema}
    (h : g.Realizes plan schema) : g'.Realizes plan schema :=
  List.Forall₂.imp (fun _ _ => Attempts.mono hg) h

/-- What is known was found out from the declarations as they are. -/
structure Consistent (g : Grammar) : Prop where
  value : ∀ {a body}, (g.aliasInfo a).value = some body → g.ComesTo a body
  handle : ∀ {a h}, (g.aliasInfo a).parser = some h → g.Parses h.body (.alias a)
  box : ∀ {b p body}, (g.boxInfo b).parser = some p → (g.boxInfo b).body = .shape body →
    g.Parses p body
  plan : ∀ {c plan}, (g.classInfo c).plan = some plan →
    plan.Ordered ∧ ∃ schema, g.schemaOf (.declared c) = .ok schema ∧ g.Realizes plan schema

/-- What is known later was known before, or fits the declarations. -/
theorem Consistent.extend {g g' : Grammar} (h : g.Consistent) (hg : g.Persists g')
    (hvalue : ∀ {a body}, (g'.aliasInfo a).value = some body →
      (g.aliasInfo a).value = some body ∨ g'.ComesTo a body)
    (hhandle : ∀ {a handle}, (g'.aliasInfo a).parser = some handle →
      (g.aliasInfo a).parser = some handle ∨ g'.Parses handle.body (.alias a))
    (hbox : ∀ {b p body}, (g'.boxInfo b).parser = some p → (g'.boxInfo b).body = .shape body →
      (g.boxInfo b).parser = some p ∧ (g.boxInfo b).body = .shape body ∨ g'.Parses p body)
    (hplan : ∀ {c plan}, (g'.classInfo c).plan = some plan →
      (g.classInfo c).plan = some plan ∨ plan.Ordered ∧
        ∃ schema, g'.schemaOf (.declared c) = .ok schema ∧ g'.Realizes plan schema) :
    g'.Consistent where
  value hknown := (hvalue hknown).elim (fun hold => hg.comesTo_iff.mpr (h.value hold)) id
  handle hknown := (hhandle hknown).elim (fun hold => (h.handle hold).mono hg) id
  box hknown hbody := (hbox hknown hbody).elim (fun hold => (h.box hold.1 hold.2).mono hg) id
  plan {c plan} hknown := by
    rcases hplan hknown with hold | hnew
    · obtain ⟨hordered, schema, hschema, hrealizes⟩ := h.plan hold
      exact ⟨hordered, schema, (hg.schemaOf_eq _).trans hschema, hrealizes.mono hg⟩
    · exact hnew

theorem Consistent.of_eq {g g' : Grammar} (h : g.Consistent) (hclasses : g'.classes = g.classes)
    (haliases : g'.aliases = g.aliases) (hboxes : g'.boxes = g.boxes)
    (hfields : g'.fields = g.fields) (hnames : g'.names = g.names) : g'.Consistent := by
  have halias : ∀ a, g'.aliasInfo a = g.aliasInfo a := fun a => by
    unfold aliasInfo
    rw [haliases]
  have hbox : ∀ b, g'.boxInfo b = g.boxInfo b := fun b => by
    unfold boxInfo
    rw [hboxes]
  have hclass : ∀ c, g'.classInfo c = g.classInfo c := fun c => by
    unfold classInfo
    rw [hclasses]
  exact h.extend (persists_of_eq hclasses haliases hboxes hfields hnames)
    (fun {a _} hvalue => .inl (halias a ▸ hvalue)) (fun {a _} hhandle => .inl (halias a ▸ hhandle))
    (fun {b _ _} hp hbody => .inl ⟨hbox b ▸ hp, hbox b ▸ hbody⟩)
    (fun {c _} hplan => .inl (hclass c ▸ hplan))

/-- A new delayed parser of a shape is not known to be anything. -/
theorem Consistent.pushBox {g : Grammar} (h : g.Consistent) {body : Delayed}
    {parser : Option Parser} (hparser : ∀ shape, body = .shape shape → parser = none) :
    ({ g with boxes := g.boxes.push ⟨body, parser, none⟩ } : Grammar).Consistent := by
  refine h.extend (persists_pushBox _) .inl .inl (fun {b p shape} hp hbody => .inl ?_) .inl
  rw [boxInfo_push] at hp hbody
  split at hp
  · rename_i hb
    rw [if_pos hb] at hbody
    cases hp.symm.trans (hparser shape hbody)
  · rename_i hb
    rw [if_neg hb] at hbody
    exact ⟨hp, hbody⟩

theorem consistent_steps : StepLaw (Keeps Consistent) :=
  keeps_steps (fun _ h => h.of_eq rfl rfl rfl rfl rfl) (fun _ h => h.of_eq rfl rfl rfl rfl rfl)
    (fun _ h => h.of_eq rfl rfl rfl rfl rfl) fun _ h => h.pushBox (by rintro shape rfl; rfl)

end Grammar

end ShapeGrammar
