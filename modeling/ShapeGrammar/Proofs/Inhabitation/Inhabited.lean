import ShapeGrammar.Proofs.Inhabitation.Parses
import ShapeGrammar.Proofs.Inhabitation.Stored
import ShapeGrammar.Proofs.Peg.Derivation
import ShapeGrammar.Proofs.Peg.Leads

/-!
# What parsers mean inhabits their shapes

Where what is known of a grammar fits its declarations, whatever a parser of a shape means over a
text inhabits the shape. The induction is on the meaning of the parser; what carries it through a
class is that a plan makes one attempt for each form of the class, and that each form is constructed
with its values under the names of its fields.

Headlines: `Grammar.Promises`, `Grammar.derives_promises`, `Grammar.derives_inhabits`.
-/

namespace ShapeGrammar

/-- Every element is a text of one character. -/
def Source.Textual (xs : Source) : Prop :=
  ∀ i v, xs.get? i = some v → ∃ c, v = .text (String.singleton c)

theorem Source.textual_ofText (s : String) : (Source.ofText s).Textual := by
  intro i v h
  unfold get? ofText at h
  rw [List.getElem?_toArray, List.getElem?_map, Option.map_eq_some_iff] at h
  obtain ⟨c, -, rfl⟩ := h
  exact ⟨c, rfl⟩

namespace Grammar

variable {g : Grammar}

/-! ## What parsers promise -/

/-- A shape leads to no parser that somebody has written, and to no class that is out of date. -/
def Sound (g : Grammar) : Shape → Prop :=
  g.Throughout fun a => a.isRaw = false ∧ g.CurrentForms a

theorem soundHere_tuple (as : List Shape) :
    (Shape.tuple as).isRaw = false ∧ g.CurrentForms (.tuple as) :=
  ⟨rfl, fun _ _ h => by cases h⟩

theorem soundHere_list (a : Shape) : (Shape.list a).isRaw = false ∧ g.CurrentForms (.list a) :=
  ⟨rfl, fun _ _ h => by cases h⟩

theorem Sound.plain {s : Shape} (h : g.Sound s) : g.Plain s :=
  fun a ha => (h a ha).1

/-- The value is an instance of a form, with inhabitants of the shapes of its fields. -/
def Instantiates (g : Grammar) (form : ClassRef × List SchemaField) (v : Value) : Prop :=
  ∃ vs, classOf? v = some form.1 ∧ g.Inhabits (.tuple (form.2.map (·.shape))) (.tuple vs) ∧
    ∀ e ∈ (form.2.map (·.name)).zip vs, v.attribute? e.1 = some e.2

/-- A form that is up to date and has sound fields. -/
def Proper (g : Grammar) (form : ClassRef × List SchemaField) : Prop :=
  g.Sound (.tuple (form.2.map (·.shape))) ∧ g.Current form.1 ∧
    ∃ location, g.fieldsOf form.1 location = .ok form.2

/-- What the values of a parser have to be: inhabitants of every sound shape that it parses, and if
it carries out a plan for some forms, an instance of one of them. -/
def Promises (g : Grammar) : Parser → Value → Prop
  | .planned plan, v => ∀ forms, List.Forall₂ g.Attempts plan.attempts forms →
    (∀ form ∈ forms, g.Proper form) → ∃ form ∈ forms, g.Instantiates form v
  | p, v => ∀ s, g.Parses p s → g.Sound s → g.Inhabits s v

theorem Promises.inhabits {p : Parser} {v : Value} (h : g.Promises p v) {s : Shape}
    (hs : g.Parses p s) (hsound : g.Sound s) : g.Inhabits s v := by
  cases p with
  | planned plan =>
    cases hs with
    | raw is raw => exact absurd raw (hsound.plain.not_raw is)
  | _ => exact h s hs hsound

/-- What an attempt constructs is an instance of its form. -/
theorem instantiates_of_construct {a : Attempt Parser} {form : ClassRef × List SchemaField}
    (ha : g.Attempts a form) (hform : g.Proper form) {vs : List Value}
    (hvs : g.Promises (.seq a.parsers) (.tuple vs)) {v : Value}
    (hv : g.construct a.target vs = .ok v) : g.Instantiates form v := by
  obtain ⟨htarget, hparses⟩ := ha
  obtain ⟨hsound, hcurrent, location, hfields⟩ := hform
  have hinhabits : g.Inhabits (.tuple (form.2.map (·.shape))) (.tuple vs) := hvs _ hparses hsound
  have hlength : vs.length = form.2.length := by
    rw [hinhabits.tuple_length, List.length_map]
  obtain ⟨hclass, hstored⟩ := construct_of_fieldsOf hcurrent hfields hlength (htarget ▸ hv)
  exact ⟨vs, hclass, hinhabits, hstored⟩

/-! ## One lemma for each operator -/

section Operators

variable {p q : Parser} {ps : List Parser} {v w : Value} {vs : List Value}

theorem promises_any {c : Char} : g.Promises .any (.text (String.singleton c)) := by
  intro s hs hsound
  cases hs with
  | raw is raw => exact absurd raw (hsound.plain.not_raw is)
  | text is => exact .of_denotes is .text

theorem promises_seq_nil : g.Promises (.seq []) (.tuple []) := by
  intro s hs hsound
  cases hs with
  | raw is raw => exact absurd raw (hsound.plain.not_raw is)
  | tupleNil is => exact .of_denotes is .tupleNil

theorem promises_seq_cons (hp : g.Promises p v) (hps : g.Promises (.seq ps) (.tuple vs)) :
    g.Promises (.seq (p :: ps)) (.tuple (v :: vs)) := by
  intro s hs hsound
  cases hs with
  | raw is raw => exact absurd raw (hsound.plain.not_raw is)
  | tupleCons is first rest =>
    have hitems := (hsound.denotes is).items
    have hrest : g.Sound (.tuple _) := throughout_tuple (soundHere_tuple _) fun a ha =>
      hitems a (List.mem_cons_of_mem _ ha)
    have hfirst := hp.inhabits first (hitems _ List.mem_cons_self)
    exact .of_denotes is (.tupleCons hfirst (hps.inhabits rest hrest))

theorem promises_opt_some (hp : g.Promises p v) : g.Promises (.opt p) v := by
  intro s hs hsound
  cases hs with
  | raw is raw => exact absurd raw (hsound.plain.not_raw is)
  | second is optional parses =>
    have hpart := (hsound.denotes is).part .second
    exact .of_denotes is (.second optional (hp.inhabits parses hpart))
  | first is optional parses =>
    have hpart := (hsound.denotes is).part .first
    exact .of_denotes is (.first optional (hp.inhabits parses hpart))

theorem promises_opt_none : g.Promises (.opt p) .nothing := by
  intro s hs hsound
  cases hs with
  | raw is raw => exact absurd raw (hsound.plain.not_raw is)
  | second is optional _ => exact .of_denotes is (.absent (.inl optional))
  | first is optional _ => exact .of_denotes is (.absent (.inr optional))

theorem promises_many_nil {checked : Bool} : g.Promises (.many checked p) (.list []) := by
  intro s hs hsound
  cases hs with
  | raw is raw => exact absurd raw (hsound.plain.not_raw is)
  | list is _ => exact .of_denotes is (.list fun v hv => by cases hv)

theorem promises_many_cons {checked : Bool} (hp : g.Promises p v)
    (hps : g.Promises (.many checked p) (.list vs)) :
    g.Promises (.many checked p) (.list (v :: vs)) := by
  intro s hs hsound
  cases hs with
  | raw is raw => exact absurd raw (hsound.plain.not_raw is)
  | list is parses =>
    have hlist := hsound.denotes is
    have hrest := (hps.inhabits (.list .refl parses) hlist).list_items
    have hfirst := hp.inhabits parses (hlist.part .list)
    exact .of_denotes is (.list (List.forall_mem_cons.mpr ⟨hfirst, hrest⟩))

theorem promises_many1 {checked : Bool} (hp : g.Promises p v)
    (hps : g.Promises (.many checked p) (.list vs)) :
    g.Promises (.many1 checked p) (.nonempty v vs) := by
  intro s hs hsound
  cases hs with
  | raw is raw => exact absurd raw (hsound.plain.not_raw is)
  | nonempty is parses =>
    have hitem := (hsound.denotes is).part .nonempty
    have hlist : g.Sound (.list _) := throughout_list (soundHere_list _) hitem
    have hrest := (hps.inhabits (.list .refl parses) hlist).list_items
    exact .of_denotes is (.nonempty (hp.inhabits parses hitem) hrest)

theorem promises_left (hp : g.Promises p v) : g.Promises (.either p q) (.left v) := by
  intro s hs hsound
  cases hs with
  | raw is raw => exact absurd raw (hsound.plain.not_raw is)
  | either is left _ =>
    have hpart := (hsound.denotes is).part .left
    exact .of_denotes is (.left (hp.inhabits left hpart))

theorem promises_right (hq : g.Promises q v) : g.Promises (.either p q) (.right v) := by
  intro s hs hsound
  cases hs with
  | raw is raw => exact absurd raw (hsound.plain.not_raw is)
  | either is _ right =>
    have hpart := (hsound.denotes is).part .right
    exact .of_denotes is (.right (hq.inhabits right hpart))

theorem promises_not : g.Promises (.not p) .nothing := by
  intro s hs hsound
  cases hs with
  | raw is raw => exact absurd raw (hsound.plain.not_raw is)
  | not is _ => exact .of_denotes is .not

theorem promises_box (hg : g.Consistent) {b : BoxId} (found : (g.boxInfo b).parser = some p)
    (hp : g.Promises p v) : g.Promises (.box b) v := by
  intro s hs hsound
  cases hs with
  | raw is raw => exact absurd raw (hsound.plain.not_raw is)
  | box is _ delayed =>
    have hpart := (hsound.denotes is).part .box
    exact .of_denotes is (.box (hp.inhabits (hg.box found delayed) hpart))

/-- The only values that are changed are those of characters. -/
theorem promises_map {change : Value → Except Fault Value} (changed : change v = .ok w) :
    g.Promises (.map change p) w := by
  intro s hs hsound
  cases hs with
  | raw is raw => exact absurd raw (hsound.plain.not_raw is)
  | character is =>
    cases changed
    exact .of_denotes is .character

theorem promises_derived (hg : g.Consistent) {c : ClassId} {plan : Plan Parser}
    (found : (g.classInfo c).plan = some plan) (hplan : g.Promises (.planned plan) v) :
    g.Promises (.derived c) v := by
  intro s hs hsound
  cases hs with
  | raw is raw => exact absurd raw (hsound.plain.not_raw is)
  | derived is =>
    obtain ⟨-, schema, hschema, hrealizes⟩ := hg.plan found
    have hclass := hsound.denotes is
    have hproper : ∀ form ∈ schema.forms, g.Proper form := fun form hform =>
      ⟨hclass.form hschema hform soundHere_tuple, hclass.here.2 _ _ rfl hschema form hform, _,
        fieldsOf_form hschema hform⟩
    obtain ⟨form, hform, vs, hexact, hfields, hstored⟩ := hplan schema.forms hrealizes hproper
    exact .of_denotes is (.cls hschema hform hexact hfields hstored)

/-- An attempt that matches constructs an instance of its form. -/
theorem promises_first {plan : Plan Parser} {a : Attempt Parser} {rest : List (Attempt Parser)}
    (attempts : plan.attempts = a :: rest) (hfields : g.Promises (.seq a.parsers) (.tuple vs))
    (built : g.construct a.target vs = .ok v) : g.Promises (.planned plan) v := by
  intro forms hattempts hforms
  rw [attempts] at hattempts
  cases hattempts with
  | cons ha _ =>
    have hform := hforms _ List.mem_cons_self
    exact ⟨_, List.mem_cons_self, instantiates_of_construct ha hform hfields built⟩

theorem promises_next {plan : Plan Parser} {a : Attempt Parser} {rest : List (Attempt Parser)}
    (attempts : plan.attempts = a :: rest)
    (hrest : g.Promises (.planned { plan with attempts := rest }) v) :
    g.Promises (.planned plan) v := by
  intro forms hattempts hforms
  rw [attempts] at hattempts
  cases hattempts with
  | cons _ hattempts =>
    obtain ⟨form, hform, hinstance⟩ :=
      hrest _ hattempts fun form hform => hforms form (List.mem_cons_of_mem _ hform)
    exact ⟨form, List.mem_cons_of_mem _ hform, hinstance⟩

end Operators

/-- An element of a text. -/
theorem textual_read {xs : Source} (hxs : xs.Textual) {accept : Value → Bool} {i j : Nat}
    {v : Value} (h : .ok j v = xs.read accept i) : ∃ c, v = .text (String.singleton c) := by
  unfold Source.read at h
  cases hget : xs.get? i with
  | none =>
    rw [hget] at h
    cases h
  | some w =>
    rw [hget] at h
    dsimp only at h
    split at h
    · cases h
      exact hxs i v hget
    · cases h

/-- **Parsers keep their promises.** -/
theorem derives_promises (hg : g.Consistent) {xs : Source} (hxs : xs.Textual)
    {p : Parser} {i : Nat} {r : Verdict} (h : Derives g xs p i r) :
    ∀ {j v}, r = .ok j v → g.Promises p v := by
  induction h with
  -- no sound shape is resolved to one of these
  | element _ | satisfy _ | misser _ | recorded _ _ | generated _ _ =>
    intro j v _ s hs hsound
    cases hs with
    | raw is raw => exact absurd raw (hsound.plain.not_raw is)
  | any h =>
    rintro j v rfl
    obtain ⟨c, rfl⟩ := textual_read hxs h
    exact promises_any
  | seqNil =>
    rintro j v ⟨⟩
    exact promises_seq_nil
  | seqCons _ _ ih ih' =>
    rintro j v ⟨⟩
    exact promises_seq_cons (ih rfl) (ih' rfl)
  | optSome _ ih =>
    rintro j v ⟨⟩
    exact promises_opt_some (ih rfl)
  | optNone _ _ =>
    rintro j v ⟨⟩
    exact promises_opt_none
  | manyStop _ _ =>
    rintro j v ⟨⟩
    exact promises_many_nil
  | manyStep _ _ ih ih' =>
    rintro j v ⟨⟩
    exact promises_many_cons (ih rfl) (ih' rfl)
  | many1Some _ _ ih ih' =>
    rintro j v ⟨⟩
    exact promises_many1 (ih rfl) (ih' rfl)
  | left _ ih =>
    rintro j v ⟨⟩
    exact promises_left (ih rfl)
  | right _ _ _ ih =>
    rintro j v ⟨⟩
    exact promises_right (ih rfl)
  | notOk _ _ =>
    rintro j v ⟨⟩
    exact promises_not
  | box found _ ih =>
    rintro j v rfl
    exact promises_box hg found (ih rfl)
  | mapOk _ changed _ =>
    rintro j v ⟨⟩
    exact promises_map changed
  | derived found _ ih =>
    rintro j v rfl
    exact promises_derived hg found (ih rfl)
  | planFirst attempts _ built ih =>
    rintro j v ⟨⟩
    exact promises_first attempts (ih rfl) built
  | planNext attempts _ _ _ ih =>
    rintro j v rfl
    exact promises_next attempts (ih rfl)
  -- a parser that fails promises nothing
  | seqFirst _ _ | seqRest _ _ _ _ | many1None _ _ | neither _ _ _ _ | notFail _ _ | mapFail _ _
  | planNone _ => rintro j v ⟨⟩

/-- **What a parser of a sound shape means inhabits the shape.** -/
theorem derives_inhabits (hg : g.Consistent) {xs : Source} (hxs : xs.Textual) {p : Parser}
    {s : Shape} (hs : g.Parses p s) (hplain : g.Plain s) (hup : g.UpToDate s) {i j : Nat}
    {v : Value} (h : Derives g xs p i (.ok j v)) : g.Inhabits s v :=
  (derives_promises hg hxs h rfl).inhabits hs (hplain.and hup)

end Grammar

end ShapeGrammar
