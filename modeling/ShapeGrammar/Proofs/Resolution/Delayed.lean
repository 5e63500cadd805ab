import ShapeGrammar.Proofs.Inhabitation.Parses
import ShapeGrammar.Proofs.Resolution.Declared
import ShapeGrammar.Proofs.Termination.Plain

/-!
# What is delayed

An alias is evaluated when it is needed, a delayed parser opened when it is called or asked for its
error kind. A run opens it without a mark: if that builds a plan, nothing refuses to open it once
more on the way, and one answer would displace another one. Where nothing that is delayed builds a
parser this cannot happen, since to open a delayed parser opens no other one. Hence what the
questions of a resolution keep, runs keep as well.

Headlines: `Delayed.isPlain`, `Grammar.DelaysPlainly`, `resolveBox_opens_none`, `FindingLaw.obeys`,
`FindingLaw.declarations`.
-/

namespace ShapeGrammar

open Resolution Grammar

/-- Whether to open a delayed parser builds none: what is delayed as an expression is a name. -/
def Delayed.isPlain : Delayed → Bool
  | .expression e => (ShapeExpr.parser e).isPlain
  | _ => true

/-- Nothing that is delayed builds a parser. -/
structure Grammar.DelaysPlainly (g : Grammar) : Prop where
  aliases : ∀ a, (g.aliasInfo a).expression.isPlain = true
  boxes : ∀ b, (g.boxInfo b).body.isPlain = true

namespace Grammar.DelaysPlainly

variable {g g' : Grammar}

theorem iff_all : g.DelaysPlainly ↔ (∀ i ∈ g.aliases.toList, i.expression.isPlain = true) ∧
    ∀ i ∈ g.boxes.toList, i.body.isPlain = true := by
  constructor
  · refine fun h => ⟨fun i hi => ?_, fun i hi => ?_⟩
    · obtain ⟨a, ha, rfl⟩ := List.mem_iff_getElem.mp hi
      have hplain := h.aliases a
      unfold aliasInfo at hplain
      simpa [Array.getD_eq_getD_getElem?, Array.length_toList.symm ▸ ha] using hplain
    · obtain ⟨b, hb, rfl⟩ := List.mem_iff_getElem.mp hi
      have hplain := h.boxes b
      unfold boxInfo at hplain
      simpa [Array.getD_eq_getD_getElem?, Array.length_toList.symm ▸ hb] using hplain
  · refine fun h => ⟨fun a => ?_, fun b => ?_⟩
    · unfold aliasInfo
      rw [Array.getD_eq_getD_getElem?]
      cases ha : g.aliases[a]? with
      | none => rfl
      | some i => exact h.1 i (Array.mem_toList_iff.mpr (Array.mem_of_getElem? ha))
    · unfold boxInfo
      rw [Array.getD_eq_getD_getElem?]
      cases hb : g.boxes[b]? with
      | none => rfl
      | some i => exact h.2 i (Array.mem_toList_iff.mpr (Array.mem_of_getElem? hb))

instance (g : Grammar) : Decidable g.DelaysPlainly :=
  decidable_of_iff _ iff_all.symm

/-- Where less is delayed, less can build a parser. -/
theorem fewer (h : g'.DelaysPlainly)
    (halias : ∀ a < g.aliases.size, (g'.aliasInfo a).expression = (g.aliasInfo a).expression)
    (hbox : ∀ b < g.boxes.size, (g'.boxInfo b).body = (g.boxInfo b).body) : g.DelaysPlainly where
  aliases a := by
    by_cases ha : a < g.aliases.size
    · rw [← halias a ha]
      exact h.aliases a
    · unfold aliasInfo
      rw [Array.getD_eq_getD_getElem?, Array.getElem?_eq_none (Nat.le_of_not_lt ha)]
      rfl
  boxes b := by
    by_cases hb : b < g.boxes.size
    · rw [← hbox b hb]
      exact h.boxes b
    · rw [g.boxInfo_of_size_le (Nat.le_of_not_lt hb)]
      rfl

/-- What is delayed later was delayed before, as far as it was there. -/
theorem before (h : g'.DelaysPlainly) (hg : g.Persists g') : g.DelaysPlainly :=
  h.fewer (fun a _ => hg.aliases a) fun _ hb => (hg.boxes hb).2

theorem spared (h : g'.DelaysPlainly) (hg : g.Spares g') : g.DelaysPlainly :=
  h.fewer hg.expression fun b _ => by
    unfold boxInfo
    rw [hg.boxes]

end Grammar.DelaysPlainly

namespace Resolution

variable {α β : Type}

/-- A computation that finds out nothing about the delayed parsers that there are, provided that
nothing that is delayed builds a parser. -/
structure OpensNone (x : Resolution α) : Prop where
  persists : ∀ g0 : Grammar, Keeps g0.Persists x
  same : ∀ {g g' : Grammar} {a : α}, x g = .ok a g' → g'.DelaysPlainly →
    ∀ b < g.boxes.size, g'.boxInfo b = g.boxInfo b

theorem boxInfo_of_boxes {g g' : Grammar} (h : g'.boxes = g.boxes) (b : BoxId) :
    g'.boxInfo b = g.boxInfo b := by
  unfold boxInfo
  rw [h]

theorem opensNone_bind {x : Resolution α} {f : α → Resolution β} (hx : x.OpensNone)
    (hf : ∀ a, (f a).OpensNone) : OpensNone (x >>= f) := by
  refine ⟨fun g0 => keeps_bind (hx.persists g0) fun a => (hf a).persists g0,
    fun h hplain b hb => ?_⟩
  obtain ⟨a, g1, hxg, hfg⟩ := bind_eq_ok_iff.mp h
  have hlater := persists_of_ok (hf a).persists hfg
  have hsize := ((persists_of_ok hx.persists hxg).boxes hb).1
  exact ((hf a).same hfg hplain b hsize).trans (hx.same hxg (hplain.before hlater) b hb)

theorem opensNone_steps : StepLaw OpensNone where
  pure a := ⟨fun g0 => (persists_law g0).pure a, by rintro g g' _ ⟨⟩ _ _ _; rfl⟩
  stop he := ⟨fun g0 => (persists_law g0).stop he, by rintro g g' _ ⟨⟩⟩
  bind := opensNone_bind
  read hk hsame := ⟨fun g0 => (persists_law g0).read (fun g => (hk g).persists g0) hsame,
    fun {g} => (hk g).same⟩
  newHandle body := ⟨fun g0 => (persists_law g0).newHandle body, by rintro g g' _ ⟨⟩ _ _ _; rfl⟩
  newBox body := ⟨fun g0 => (persists_law g0).newBox body, by
    rintro g g' _ ⟨⟩ _ b hb
    exact boxInfo_push_of_lt g _ hb⟩
  report {x} hx := ⟨fun g0 => (persists_law g0).report hx, by
    rintro g g' _ ⟨⟩ _ b _
    refine boxInfo_of_boxes ?_ b
    show (g.report (x g)).boxes = g.boxes
    unfold Grammar.report
    split <;> rfl⟩
  guarded key _ _ hordinary hx :=
    ⟨fun g0 => (persists_law g0).guarded key hordinary (hx.persists g0),
      fun {g g' a} h hplain b hb => by
        obtain ⟨g1, hbody, rfl⟩ := guarded_eq_ok h
        exact hx.same hbody ⟨hplain.aliases, hplain.boxes⟩ b hb⟩
  mapSchemaFault hf hx := ⟨fun g0 => (persists_law g0).mapSchemaFault hf (hx.persists g0),
    fun h => hx.same (mapSchemaFault_eq_ok h)⟩

/-- To keep a finding about an alias is none about a delayed parser. -/
theorem opensNone_remember (f : Finding α) {x : Resolution α} (hx : x.OpensNone)
    (hadmits : ∀ {g a g'}, x g = .ok a g' → f.Admits a)
    (hf : ∀ (g : Grammar) (a : α), (f.keep g a).boxes = g.boxes) : (remember f x).OpensNone := by
  refine ⟨fun g0 => (persists_law g0).remember f (hx.persists g0) hadmits,
    fun {g g' a} h hplain b hb => ?_⟩
  cases hknown : f.known? g with
  | some found =>
    rw [remember_of_known hknown] at h
    cases h
    rfl
  | none =>
    rw [remember_of_unknown hknown] at h
    obtain ⟨found, g1, hxg, h⟩ := bind_eq_ok_iff.mp h
    obtain ⟨⟨⟩, g2, hkeep, h⟩ := bind_eq_ok_iff.mp h
    cases hkeep
    cases h
    exact (boxInfo_of_boxes (hf g1 a) b).trans
      (hx.same hxg (hplain.before (persists_keep f a)) b hb)

/-- To evaluate an alias is to look names up. -/
theorem opensNone_aliasValue (n : Nat) (a : AliasId) : (aliasValue (resolver n) a).OpensNone := by
  refine opensNone_remember (.value a) ⟨fun g0 => (persists_law g0).aliasShape
    ((persists_law g0).resolver n).toAnswers a, fun {g g' body} h hplain b _ => ?_⟩
    (fun _ => trivial) fun _ _ => rfl
  have hlater := persists_of_ok (fun g0 => (persists_law g0).aliasShape
    ((persists_law g0).resolver n).toAnswers a) h
  have hexpression := (hplain.before hlater).aliases a
  obtain ⟨rfl, -⟩ : g = g' ∧ evaluateShape (resolver n) false (g.aliasInfo a).expression g = _ :=
    evaluateShape_plain (.refl g) hexpression (get_bind_eq_ok_iff.mp h)
  rfl

/-- To find the parser of an alias opens no delayed parser. -/
theorem opensNone_aliasParser : ∀ (n : Nat) (expanding : List AliasId) (a : AliasId),
    ((resolver n).aliasParser expanding a).OpensNone
  | 0, _, _ => opensNone_steps.stop trivial
  | n + 1, expanding, a =>
    opensNone_remember (.handle a)
      (opensNone_steps.resolveAlias (opensNone_aliasParser n) expanding (opensNone_aliasValue n a))
      (fun _ => trivial) fun _ _ => rfl

theorem opensNone_delayedBody (n : Nat) : ∀ d : Delayed, d.isPlain = true →
    (delayedBody (resolver n) d).OpensNone
  | .shape a, _ => opensNone_steps.bind
      (opensNone_steps.resolveShape (opensNone_aliasParser n) [] a) fun h => opensNone_steps.pure _
  | .expression e, hplain => by
    cases e with
    | name path =>
      have hlookup : (get >>= fun g : Grammar => lift (g.lookup path) :
          Resolution Binding).OpensNone := by
        refine opensNone_steps.read (fun g => opensNone_steps.lift (g.lookup_stopsAt path))
          fun g rs => ?_
        rw [g.lookup_withReports rs path]
      refine opensNone_steps.bind hlookup fun b => ?_
      split
      · exact opensNone_steps.fail trivial
      · exact opensNone_steps.pure _
    | _ => cases hplain
  | .known p, _ => opensNone_steps.pure p
  | .call target, _ => opensNone_steps.callFor target

end Resolution

/-- **To open a delayed parser opens no other one**, and asks for no error kind, where nothing that
is delayed builds a parser. -/
theorem resolveBox_opens_none {n : Nat} {b : BoxId} {p : Parser} {g g' : Grammar}
    (h : resolveBox (resolver n) b g = .ok p g') (hplain : g'.DelaysPlainly) :
    ∀ d < g.boxes.size, g'.boxInfo d = g.boxInfo d := by
  have hlater := persists_of_ok (fun g0 =>
    (persists_law g0).resolveBox ((persists_law g0).resolver n).toAnswers b) h
  exact (opensNone_delayedBody n _ ((hplain.before hlater).boxes b)).same
    (resolveBox_eq_ok h).2 hplain

/-! ## Invariants -/

namespace FindingLaw

variable {Inv : Grammar → Prop} (L : FindingLaw Inv)
include L

/-- An invariant may depend on it that nothing delayed builds a parser. -/
theorem whilePlain : FindingLaw fun g => g.DelaysPlainly → Inv g where
  made n hg hplain := L.made n (hg ⟨hplain.aliases, hplain.boxes⟩)
  pending keys hg hplain := L.pending keys (hg ⟨hplain.aliases, hplain.boxes⟩)
  reports rs hg hplain := L.reports rs (hg ⟨hplain.aliases, hplain.boxes⟩)
  newBox body hg hplain := L.newBox body (hg (hplain.before (persists_pushBox _)))
  plan h hopen hg hplain := L.plan h hopen (hg (hplain.before (persists_keep _ _)))
  value a body hg hplain := L.value a body (hg (hplain.before (persists_keep _ _)))
  handle a h hg hplain := L.handle a h (hg (hplain.before (persists_keep _ _)))
  box p hopen hg hplain := L.box p hopen (hg (hplain.before (persists_keep _ _)))
  kind hopen hp h hg hplain := L.kind hopen hp h (hg (hplain.before (persists_keep _ _)))

/-- **Every answer keeps the invariant** as long as nothing delayed builds a parser, also those that
only runs ask for. -/
theorem obeys : ∀ n, (resolver n).Obeys (Keeps fun g => g.DelaysPlainly → Inv g)
  | 0 => ⟨L.whilePlain.questions.answers 0, fun _ => keeps_throw _⟩
  | n + 1 => by
    refine ⟨L.whilePlain.questions.answers (n + 1), fun b g hg => ?_⟩
    have hopened := L.whilePlain.steps.resolveBox (L.whilePlain.questions.answers n) b g hg
    refine keeps_remember (.box b) hg hopened fun {p g'} hopen h hg' hplain => ?_
    have hplain' := hplain.before (persists_keep _ _)
    have hsame := resolveBox_opens_none h hplain' b (resolveBox_eq_ok h).1
    exact L.box p ((congrArg BoxInfo.parser hsame).trans hopen) (hg' hplain')

/-- So do declarations, if they cannot break it. -/
theorem declarations (hframe : ∀ {g g' : Grammar}, Inv g → g.Spares g' → Inv g') :
    DeclarationLaw fun g => g.DelaysPlainly → Inv g where
  steps := L.whilePlain.steps
  frame hg h hplain := hframe (hg (hplain.spared h)) h

end FindingLaw

end ShapeGrammar
