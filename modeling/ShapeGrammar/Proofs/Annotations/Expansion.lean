import Mathlib.Data.List.Forall2
import Mathlib.Logic.Relation
import ShapeGrammar.Resolve

/-!
# Expansions of annotations

What an annotation says about its parser, read off the annotation and the values of the aliases in
it. To expand an annotation is to put values in the place of aliases. The expansion does not go into
a delayed part, into a class, or under notes among which there is a parser; where it is finite, and
where each of its parts parses as something, it gives the parser its structure. Otherwise there is a
first part, from left to right and from the outside in, that is refused.

Nothing here knows of what was resolved before. An alias that contains itself has no finite
expansion, and an annotation that has one is refused nowhere, whatever aliases it is met in.

Headlines: `Shape.GoesOn`, `Grammar.Resolvable`, `Grammar.Expands`, `Grammar.Builds`,
`Grammar.Refuses`, `Expands.resolvable`, `Refuses.not_resolvable`, `Refuses.unique`.
-/

namespace ShapeGrammar

open Relation

/-- What aliases stand for. -/
abbrev Environment := AliasId → Shape

/-- The expansion of a shape goes on with another one: with the value of an alias, with what has
notes beside it if none of them is a parser, with the parts of a compound. Of a union only the
members that say something are expanded. -/
inductive Shape.GoesOn (env : Environment) : Shape → Shape → Prop
  | value {a} : GoesOn env (.alias a) (env a)
  | annotated {body notes} (bare : Shape.notedParser? notes = none) :
    GoesOn env (.annotated body notes) body
  | item {items a} (mem : a ∈ items) : GoesOn env (.tuple items) a
  | list {item} : GoesOn env (.list item) item
  | nonempty {item} : GoesOn env (.nonempty item) item
  | member {members a} (mem : a ∈ members) (is : a.isNothing = false) :
    GoesOn env (.union members) a
  | left {a b} : GoesOn env (.either a b) a
  | right {a b} : GoesOn env (.either a b) b
  | not {a} : GoesOn env (.not a) a

/-- The structure that a finite expansion gives to a parser. A delayed part stays as it is. -/
inductive Expansion
  /-- A parser that is there already. -/
  | leaf (body : Parser)
  | seq (parts : List Expansion)
  | opt (body : Expansion)
  | many (item : Expansion)
  | many1 (item : Expansion)
  | either (left right : Expansion)
  | not (body : Expansion)
  | delayed (body : Shape)

namespace Grammar

/-- Whether a part of an expansion parses as something, as far as it is up to this part: a leaf is a
parser, a text, or a class with a parser of its own, a tuple is of fixed length, and a union is one
of a single member and the absent value. -/
def admits (g : Grammar) : Shape → Bool
  | .parser _ => true
  | .cls (.declared c) => (g.classInfo c).derivedAt.isSome
  | .cls (.character _) => true
  | .cls (.builtin b) => b == .text
  | .tuple items => !openEnded items
  | .union [a, b] => a.isNothing != b.isNothing
  | .alias _ => true
  | .annotated _ _ => true
  | .list _ => true
  | .nonempty _ => true
  | .either _ _ => true
  | .not _ => true
  | .box _ => true
  | _ => false

/-- The expansion of a shape is finite, and every part of it parses as something. -/
def Resolvable (g : Grammar) (env : Environment) (a : Shape) : Prop :=
  Acc (fun c b => Shape.GoesOn env b c) a ∧
    ∀ b, ReflTransGen (Shape.GoesOn env) a b → g.admits b = true

/-- The structure that a shape gives to its parser. -/
inductive Expands (g : Grammar) (env : Environment) : Shape → Expansion → Prop
  | parser {h : Handle} : Expands g env (.parser h) (.leaf h.body)
  | derived {c} (derived : (g.classInfo c).derivedAt.isSome = true) :
    Expands g env (.cls (.declared c)) (.leaf (.derived c))
  | character {c} : Expands g env (.cls (.character c)) (.leaf (.character c))
  | text : Expands g env (.cls (.builtin .text)) (.leaf .any)
  | value {a x} (inner : Expands g env (env a) x) : Expands g env (.alias a) x
  | noted {body notes h} (noted : Shape.notedParser? notes = some h) :
    Expands g env (.annotated body notes) (.leaf h.body)
  | annotated {body notes x} (bare : Shape.notedParser? notes = none)
    (inner : Expands g env body x) : Expands g env (.annotated body notes) x
  | tuple {items xs} (fixed : openEnded items = false) (length : items.length = xs.length)
    (each : ∀ {a x}, (a, x) ∈ items.zip xs → Expands g env a x) :
    Expands g env (.tuple items) (.seq xs)
  | list {item x} (inner : Expands g env item x) : Expands g env (.list item) (.many x)
  | nonempty {item x} (inner : Expands g env item x) :
    Expands g env (.nonempty item) (.many1 x)
  | second {a b x} (absent : a.isNothing = true) (is : b.isNothing = false)
    (inner : Expands g env b x) : Expands g env (.union [a, b]) (.opt x)
  | first {a b x} (is : a.isNothing = false) (absent : b.isNothing = true)
    (inner : Expands g env a x) : Expands g env (.union [a, b]) (.opt x)
  | either {a b x y} (left : Expands g env a x) (right : Expands g env b y) :
    Expands g env (.either a b) (.either x y)
  | not {a x} (inner : Expands g env a x) : Expands g env (.not a) (.not x)
  | box {body} : Expands g env (.box body) (.delayed body)

/-- The grammar holds a parser of this structure. -/
inductive Builds (g : Grammar) : Expansion → Parser → Prop
  | leaf {p} : Builds g (.leaf p) p
  | seq {xs ps} (length : xs.length = ps.length)
    (each : ∀ {x p}, (x, p) ∈ xs.zip ps → Builds g x p) : Builds g (.seq xs) (.seq ps)
  | opt {x p} (inner : Builds g x p) : Builds g (.opt x) (.opt p)
  | many {x p} (inner : Builds g x p) : Builds g (.many x) (.many true p)
  | many1 {x p} (inner : Builds g x p) : Builds g (.many1 x) (.many1 true p)
  | either {x y p q} (left : Builds g x p) (right : Builds g y q) :
    Builds g (.either x y) (.either p q)
  | not {x p} (inner : Builds g x p) : Builds g (.not x) (.not p)
  | delayed {body b} (lt : b < g.boxes.size) (is : (g.boxInfo b).body = .shape body) :
    Builds g (.delayed body) (.box b)

end Grammar

/-- Whether a shape is one of a kind that no parser is known for. -/
def Shape.isUnknown : Shape → Bool
  | .nothing => true
  | .ellipsis => true
  | .constant _ => true
  | .foreign _ => true
  | .forward _ => true
  | .mapping _ _ => true
  | .shared _ => true
  | .parameterOnly _ => true
  | _ => false

theorem Shape.eq_of_isNothing {a : Shape} (h : a.isNothing = true) :
    a = .cls (.builtin .nothing) := by
  unfold isNothing at h
  split at h
  · rfl
  · cases h

/-- Whether a union is one of two members of which one is the absent value. -/
def Shape.areOptional : List Shape → Bool
  | [a, b] => a.isNothing || b.isNothing
  | _ => false

namespace Grammar

/-- Why a shape is refused that is met while the given aliases are expanded, and the shape that the
refusal shows, if it shows one. -/
inductive Refuses (g : Grammar) (env : Environment) :
    List AliasId → Shape → Option Shape → SchemaFault → Prop
  | declared {expanding c} (plain : (g.classInfo c).derivedAt.isSome = false) :
    Refuses g env expanding (.cls (.declared c)) none (.noParser (g.className (.declared c)))
  | builtin {expanding b} (other : b ≠ .text) :
    Refuses g env expanding (.cls (.builtin b)) none (.noParser b.name)
  | contained {expanding a} (mem : a ∈ expanding) :
    Refuses g env expanding (.alias a) none (.selfContainingAlias (g.aliasInfo a).name
      ((expanding ++ [a]).map fun b => (g.aliasInfo b).name))
  | value {expanding a shown f} (new : a ∉ expanding)
    (inner : Refuses g env (expanding ++ [a]) (env a) shown f) :
    Refuses g env expanding (.alias a) shown f
  | annotated {expanding body notes shown f} (bare : Shape.notedParser? notes = none)
    (inner : Refuses g env expanding body shown f) :
    Refuses g env expanding (.annotated body notes) shown f
  | repeated {expanding items} (repeated : openEnded items = true) :
    Refuses g env expanding (.tuple items) (some (.tuple items)) .noFixedLength
  /-- The first item that is refused decides. -/
  | item {expanding earlier a later shown f} (fixed : openEnded (earlier ++ a :: later) = false)
    (fine : ∀ b ∈ earlier, g.Resolvable env b) (inner : Refuses g env expanding a shown f) :
    Refuses g env expanding (.tuple (earlier ++ a :: later)) shown f
  | list {expanding item shown f} (inner : Refuses g env expanding item shown f) :
    Refuses g env expanding (.list item) shown f
  | nonempty {expanding item shown f} (inner : Refuses g env expanding item shown f) :
    Refuses g env expanding (.nonempty item) shown f
  | second {expanding a b shown f} (absent : a.isNothing = true)
    (inner : Refuses g env expanding b shown f) : Refuses g env expanding (.union [a, b]) shown f
  | first {expanding a b shown f} (is : a.isNothing = false) (absent : b.isNothing = true)
    (inner : Refuses g env expanding a shown f) : Refuses g env expanding (.union [a, b]) shown f
  | union {expanding members} (other : Shape.areOptional members = false) :
    Refuses g env expanding (.union members) (some (.union members)) .unorderedAlternative
  | left {expanding a b shown f} (inner : Refuses g env expanding a shown f) :
    Refuses g env expanding (.either a b) shown f
  | right {expanding a b shown f} (fine : g.Resolvable env a)
    (inner : Refuses g env expanding b shown f) : Refuses g env expanding (.either a b) shown f
  | not {expanding a shown f} (inner : Refuses g env expanding a shown f) :
    Refuses g env expanding (.not a) shown f
  | unknown {expanding a} (unknown : a.isUnknown = true) :
    Refuses g env expanding a (some a) .unknownShape

section Expansions

variable {g : Grammar} {env : Environment} {a b : Shape}

/-! ## Finite expansions -/

/-- What a finite expansion goes on with it does not come back to. -/
theorem not_transGen_self_of_acc (h : Acc (fun c b => Shape.GoesOn env b c) a) :
    ¬ TransGen (Shape.GoesOn env) a a := by
  induction h with
  | intro a _ ih =>
    intro hloop
    obtain ⟨b, hab, hba⟩ := TransGen.head'_iff.mp hloop
    exact ih b hab (.tail' hba hab)

theorem Resolvable.goesOn (h : g.Resolvable env a) (hab : Shape.GoesOn env a b) :
    g.Resolvable env b :=
  ⟨h.1.inv hab, fun c hc => h.2 c (.head hab hc)⟩

theorem Resolvable.admits (h : g.Resolvable env a) : g.admits a = true :=
  h.2 a .refl

/-- What parses as something itself, and goes on with what is resolvable only. -/
theorem resolvable_of_goesOn (ha : g.admits a = true)
    (h : ∀ b, Shape.GoesOn env a b → g.Resolvable env b) : g.Resolvable env a := by
  refine ⟨⟨a, fun b hab => (h b hab).1⟩, fun b hb => ?_⟩
  rcases hb.cases_head with rfl | ⟨c, hac, hcb⟩
  · exact ha
  · exact (h c hac).2 b hcb

/-- What stands in the first of two equally long lists stands beside something in the second. -/
theorem exists_mem_zip {α β : Type} : ∀ {as : List α} {bs : List β}, as.length = bs.length →
    ∀ {a : α}, a ∈ as → ∃ b, (a, b) ∈ as.zip bs
  | _ :: _, [], hlength, _, _ => by cases hlength
  | a :: as, b :: bs, hlength, c, hc => by
    rcases List.mem_cons.mp hc with rfl | hc
    · exact ⟨b, List.mem_cons_self⟩
    · obtain ⟨d, hd⟩ := exists_mem_zip (Nat.succ.inj hlength) hc
      exact ⟨d, List.mem_cons_of_mem _ hd⟩

/-- **What gives a structure to its parser has a finite expansion**, and every part of it parses as
something. -/
theorem Expands.resolvable {x : Expansion} (h : g.Expands env a x) : g.Resolvable env a := by
  induction h with
  | parser | character | text | box => exact resolvable_of_goesOn rfl nofun
  | derived derived => exact resolvable_of_goesOn derived nofun
  | value _ ih =>
    refine resolvable_of_goesOn rfl fun b hab => ?_
    cases hab
    exact ih
  | noted noted =>
    refine resolvable_of_goesOn rfl fun b hab => ?_
    cases hab with
    | annotated bare => rw [noted] at bare; cases bare
  | annotated _ _ ih =>
    refine resolvable_of_goesOn rfl fun b hab => ?_
    cases hab
    exact ih
  | @tuple items xs fixed length _ ih =>
    refine resolvable_of_goesOn (by simp [Grammar.admits, fixed]) fun b hab => ?_
    cases hab with
    | item mem =>
      obtain ⟨x, hx⟩ := exists_mem_zip length mem
      exact ih hx
  | list _ ih | nonempty _ ih | not _ ih =>
    refine resolvable_of_goesOn rfl fun b hab => ?_
    cases hab
    exact ih
  | second absent is _ ih =>
    refine resolvable_of_goesOn (by simp [Grammar.admits, absent, is]) fun b hab => ?_
    cases hab with
    | member mem his =>
      simp only [List.mem_cons, List.not_mem_nil, or_false] at mem
      rcases mem with rfl | rfl
      · rw [absent] at his
        cases his
      · exact ih
  | first is absent _ ih =>
    refine resolvable_of_goesOn (by simp [Grammar.admits, absent, is]) fun b hab => ?_
    cases hab with
    | member mem his =>
      simp only [List.mem_cons, List.not_mem_nil, or_false] at mem
      rcases mem with rfl | rfl
      · exact ih
      · rw [absent] at his
        cases his
  | either _ _ ihl ihr =>
    refine resolvable_of_goesOn rfl fun b hab => ?_
    cases hab
    · exact ihl
    · exact ihr

/-- A shape gives its parser one structure only. -/
theorem Expands.unique {x y : Expansion} (h : g.Expands env a x) (h' : g.Expands env a y) :
    x = y := by
  induction h generalizing y with
  | parser | derived | character | text | box =>
    cases h'
    rfl
  | value _ ih =>
    cases h' with
    | value h' => exact ih h'
  | noted noted =>
    cases h' with
    | noted noted' =>
      cases noted.symm.trans noted'
      rfl
    | annotated bare => cases noted.symm.trans bare
  | annotated bare _ ih =>
    cases h' with
    | noted noted => cases noted.symm.trans bare
    | annotated _ h' => exact ih h'
  | @tuple items xs _ length _ ih =>
    cases h' with
    | @tuple _ ys _ length' each =>
      refine congrArg Expansion.seq
        (List.ext_getElem (length.symm.trans length') fun i hi hi' => ?_)
      have hi0 : i < items.length := length ▸ hi
      have hmem : (items[i], xs[i]) ∈ items.zip xs :=
        List.mem_iff_getElem.mpr ⟨i, by rw [List.length_zip]; omega, by simp⟩
      have hmem' : (items[i], ys[i]) ∈ items.zip ys :=
        List.mem_iff_getElem.mpr ⟨i, by rw [List.length_zip]; omega, by simp⟩
      exact ih hmem (each hmem')
  | list _ ih =>
    cases h' with
    | list h' => rw [ih h']
  | nonempty _ ih =>
    cases h' with
    | nonempty h' => rw [ih h']
  | second absent is _ ih =>
    cases h' with
    | second _ _ h' => rw [ih h']
    | first is' => cases absent.symm.trans is'
  | first is absent _ ih =>
    cases h' with
    | second absent' => cases absent'.symm.trans is
    | first _ _ h' => rw [ih h']
  | either _ _ ihl ihr =>
    cases h' with
    | either hl hr => rw [ihl hl, ihr hr]
  | not _ ih =>
    cases h' with
    | not h' => rw [ih h']

/-! ## Refusals -/

variable {expanding : List AliasId} {shown shown' : Option Shape} {f f' : SchemaFault}

/-- The expansion of a shape comes to an alias that is being expanded. -/
def LeadsBack (env : Environment) (expanding : List AliasId) (a : Shape) : Prop :=
  ∃ b ∈ expanding, ReflTransGen (Shape.GoesOn env) a (.alias b)

theorem LeadsBack.before (h : LeadsBack env expanding b) (hab : Shape.GoesOn env a b) :
    LeadsBack env expanding a := by
  obtain ⟨c, hc, hback⟩ := h
  exact ⟨c, hc, .head hab hback⟩

/-- Where something resolvable is refused, its expansion leads back to an alias that is being
expanded. -/
theorem Refuses.leadsBack (h : g.Refuses env expanding a shown f) (ha : g.Resolvable env a) :
    LeadsBack env expanding a := by
  have step {expanding : List AliasId} {a b : Shape} (ha : g.Resolvable env a)
      (hab : Shape.GoesOn env a b) (ih : g.Resolvable env b → LeadsBack env expanding b) :
      LeadsBack env expanding a :=
    (ih (ha.goesOn hab)).before hab
  have refused {expanding : List AliasId} {a : Shape} (ha : g.Resolvable env a)
      (hnot : g.admits a = false) : LeadsBack env expanding a :=
    absurd (ha.admits.symm.trans hnot) nofun
  induction h with
  | declared plain => exact refused ha plain
  | builtin other => exact refused ha (by simp [Grammar.admits, other])
  | contained mem => exact ⟨_, mem, .refl⟩
  | @value expanding a shown f new _ ih =>
    obtain ⟨b, hb, hback⟩ := ih (ha.goesOn .value)
    rcases List.mem_append.mp hb with hb | hb
    · exact ⟨b, hb, .head .value hback⟩
    · rw [List.mem_singleton.mp hb] at hback
      exact absurd (TransGen.head' .value hback) (not_transGen_self_of_acc ha.1)
  | annotated bare _ ih => exact step ha (.annotated bare) ih
  | repeated repeated => exact refused ha (by simp [Grammar.admits, repeated])
  | item _ _ _ ih => exact step ha (.item (List.mem_append_right _ List.mem_cons_self)) ih
  | list _ ih => exact step ha .list ih
  | nonempty _ ih => exact step ha .nonempty ih
  | @second expanding a b shown f absent _ ih =>
    cases is : b.isNothing with
    | true => exact refused ha (by simp [Grammar.admits, absent, is])
    | false => exact step ha (.member (List.mem_cons_of_mem a List.mem_cons_self) is) ih
  | first is _ _ ih => exact step ha (.member List.mem_cons_self is) ih
  | @union expanding members other =>
    refine refused ha ?_
    match members, other with
    | [], _ => rfl
    | [_], _ => rfl
    | [a, b], other =>
      obtain ⟨ha, hb⟩ := Bool.or_eq_false_iff.mp other
      simp [Grammar.admits, ha, hb]
    | _ :: _ :: _ :: _, _ => rfl
  | left _ ih => exact step ha .left ih
  | right _ _ ih => exact step ha .right ih
  | not _ ih => exact step ha .not ih
  | @unknown expanding a unknown =>
    refine refused ha ?_
    cases a <;> first | rfl | cases unknown

/-- Every alias that is being expanded leads to the shape. -/
def LeadTo (env : Environment) (expanding : List AliasId) (a : Shape) : Prop :=
  ∀ b ∈ expanding, TransGen (Shape.GoesOn env) (.alias b) a

theorem LeadTo.goesOn (h : LeadTo env expanding a) (hab : Shape.GoesOn env a b) :
    LeadTo env expanding b :=
  fun c hc => .tail (h c hc) hab

theorem LeadTo.value {a : AliasId} (h : LeadTo env expanding (.alias a)) :
    LeadTo env (expanding ++ [a]) (env a) := by
  intro b hb
  rcases List.mem_append.mp hb with hb | hb
  · exact .tail (h b hb) .value
  · rw [List.mem_singleton.mp hb]
    exact .single .value

/-- **What is refused is not resolvable**: where it is met while aliases are expanded, these lead to
it. -/
theorem Refuses.not_resolvable (h : g.Refuses env expanding a shown f)
    (hlead : LeadTo env expanding a) : ¬ g.Resolvable env a := by
  intro ha
  obtain ⟨b, hb, hback⟩ := h.leadsBack ha
  exact not_transGen_self_of_acc ha.1 (.trans_right hback (hlead b hb))

/-- **A shape is refused for one reason only.** -/
theorem Refuses.unique (h : g.Refuses env expanding a shown f)
    (h' : g.Refuses env expanding a shown' f') (hlead : LeadTo env expanding a) :
    shown = shown' ∧ f = f' := by
  induction h generalizing shown' f' with
  | declared =>
    cases h' with
    | declared => exact ⟨rfl, rfl⟩
    | unknown unknown => cases unknown
  | builtin =>
    cases h' with
    | builtin => exact ⟨rfl, rfl⟩
    | unknown unknown => cases unknown
  | contained mem =>
    cases h' with
    | contained => exact ⟨rfl, rfl⟩
    | value new => exact absurd mem new
    | unknown unknown => cases unknown
  | value new _ ih =>
    cases h' with
    | contained mem => exact absurd mem new
    | value _ h' => exact ih h' hlead.value
    | unknown unknown => cases unknown
  | annotated bare _ ih =>
    cases h' with
    | annotated _ h' => exact ih h' (hlead.goesOn (.annotated bare))
    | unknown unknown => cases unknown
  | repeated repeated =>
    cases h' with
    | repeated => exact ⟨rfl, rfl⟩
    | item fixed => cases repeated.symm.trans fixed
    | unknown unknown => cases unknown
  | @item expanding earlier a later shown f fixed fine h ih =>
    generalize hitems : Shape.tuple (earlier ++ a :: later) = t at h'
    cases h' with
    | repeated repeated =>
      cases hitems
      cases repeated.symm.trans fixed
    | @item _ earlier' a' later' _ _ _ fine' h' =>
      -- whichever of the two comes first, the items before the other one are resolvable
      have hlead' {b : Shape} (hb : b ∈ earlier ++ a :: later) : LeadTo env expanding b :=
        hlead.goesOn (.item hb)
      have hmem' : a' ∈ earlier ++ a :: later := by
        rw [Shape.tuple.inj hitems]
        exact List.mem_append_right _ List.mem_cons_self
      have hmem : a ∈ earlier ++ a :: later := List.mem_append_right _ List.mem_cons_self
      rcases List.append_eq_append_iff.mp (Shape.tuple.inj hitems) with
        ⟨between, rfl, heq⟩ | ⟨between, rfl, heq⟩
      · cases between with
        | nil =>
          cases heq
          exact ih h' (hlead' hmem)
        | cons c cs =>
          cases heq
          exact absurd (fine' a (List.mem_append_right _ List.mem_cons_self))
            (h.not_resolvable (hlead' hmem))
      · cases between with
        | nil =>
          cases heq
          exact ih h' (hlead' hmem)
        | cons c cs =>
          cases heq
          exact absurd (fine a' (List.mem_append_right _ List.mem_cons_self))
            (h'.not_resolvable (hlead' hmem'))
    | unknown unknown =>
      cases hitems
      cases unknown
    | _ => cases hitems
  | list _ ih =>
    cases h' with
    | list h' => exact ih h' (hlead.goesOn .list)
    | unknown unknown => cases unknown
  | nonempty _ ih =>
    cases h' with
    | nonempty h' => exact ih h' (hlead.goesOn .nonempty)
    | unknown unknown => cases unknown
  | @second expanding a b shown f absent h ih =>
    cases h' with
    | second _ h' =>
      cases is : b.isNothing with
      | false => exact ih h' (hlead.goesOn (.member (List.mem_cons_of_mem a List.mem_cons_self) is))
      | true =>
        -- the absent value is refused itself, where its union does not go on with it
        obtain rfl := Shape.eq_of_isNothing is
        cases h with
        | builtin =>
          cases h' with
          | builtin => exact ⟨rfl, rfl⟩
          | unknown unknown => cases unknown
        | unknown unknown => cases unknown
    | first is => cases absent.symm.trans is
    | union other => cases (Bool.or_eq_false_iff.mp other).1.symm.trans absent
    | unknown unknown => cases unknown
  | first is absent _ ih =>
    cases h' with
    | second absent' => cases absent'.symm.trans is
    | first _ _ h' => exact ih h' (hlead.goesOn (.member List.mem_cons_self is))
    | union other => cases (Bool.or_eq_false_iff.mp other).2.symm.trans absent
    | unknown unknown => cases unknown
  | @union expanding members other => 
    cases h' with
    | second absent => cases (Bool.or_eq_false_iff.mp other).1.symm.trans absent
    | first _ absent => cases (Bool.or_eq_false_iff.mp other).2.symm.trans absent
    | union => exact ⟨rfl, rfl⟩
    | unknown unknown => cases unknown
  | left h ih =>
    cases h' with
    | left h' => exact ih h' (hlead.goesOn .left)
    | right fine => exact absurd fine (h.not_resolvable (hlead.goesOn .left))
    | unknown unknown => cases unknown
  | right fine _ ih =>
    cases h' with
    | left h' => exact absurd fine (h'.not_resolvable (hlead.goesOn .left))
    | right _ h' => exact ih h' (hlead.goesOn .right)
    | unknown unknown => cases unknown
  | not _ ih =>
    cases h' with
    | not h' => exact ih h' (hlead.goesOn .not)
    | unknown unknown => cases unknown
  | unknown unknown =>
    cases h' with
    | unknown => exact ⟨rfl, rfl⟩
    | _ => cases unknown

end Expansions

end Grammar

end ShapeGrammar
