import ShapeGrammar.Proofs.Annotations.Upheld

/-!
# Annotations are settled by their expansion

A shape is resolved part by part, as its expansion goes on, and ends with a parser of its structure
or at the first part that is refused. An alias is expanded while others are only if it is none of
them, so that no more questions are asked one inside the other than there are aliases.

Headlines: `Settles`, `resolveShape_settles`, `resolveAlias_settles`, `aliasParser_settles`,
`parserFor_settles`.
-/

namespace ShapeGrammar

open Resolution

/-! ## Settled computations -/

section Settled

variable {env : Environment} {g0 : Grammar}

/-- How a computation about annotations ends: with an answer that is `good`, or because something is
refused, for a reason that is `bad`. It runs out of questions only if there are `few` of them. -/
def Settles (env : Environment) (g0 : Grammar) (few : Prop) {α : Type}
    (good : α → Grammar → Prop) (bad : Option Shape → SchemaFault → Prop) (x : Resolution α)
    (g : Grammar) : Prop :=
  match x g with
  | .ok found g' => g.Persists g' ∧ g0.Upholds env g' ∧ good found g'
  | .error e g' => g0.Upholds env g' ∧
    (few ∧ e = .outOfFuel ∨ ∃ shown f, bad shown f ∧ e = g'.stopShowing shown f)

variable {few few' : Prop} {α β : Type} {good : α → Grammar → Prop} {good' : β → Grammar → Prop}
  {bad bad' : Option Shape → SchemaFault → Prop} {g g' : Grammar}

theorem settles_of_ok {x : Resolution α} {found : α} (h : x g = .ok found g')
    (hlater : g.Persists g') (hg' : g0.Upholds env g') (hfound : good found g') :
    Settles env g0 few good bad x g := by
  unfold Settles
  rw [h]
  exact ⟨hlater, hg', hfound⟩

theorem settles_of_error {x : Resolution α} {e : Stop} (h : x g = .error e g')
    (hg' : g0.Upholds env g')
    (he : few ∧ e = .outOfFuel ∨ ∃ shown f, bad shown f ∧ e = g'.stopShowing shown f) :
    Settles env g0 few good bad x g := by
  unfold Settles
  rw [h]
  exact ⟨hg', he⟩

theorem Settles.of_ok {x : Resolution α} {found : α} (hx : Settles env g0 few good bad x g)
    (h : x g = .ok found g') : g.Persists g' ∧ g0.Upholds env g' ∧ good found g' := by
  unfold Settles at hx
  rwa [h] at hx

theorem Settles.of_error {x : Resolution α} {e : Stop} (hx : Settles env g0 few good bad x g)
    (h : x g = .error e g') : g0.Upholds env g' ∧
      (few ∧ e = .outOfFuel ∨ ∃ shown f, bad shown f ∧ e = g'.stopShowing shown f) := by
  unfold Settles at hx
  rwa [h] at hx

theorem Settles.bind {x : Resolution α} {f : α → Resolution β}
    (hx : Settles env g0 few good bad x g) (hbad : ∀ {shown f}, bad shown f → bad' shown f)
    (hf : ∀ {found g'}, g.Persists g' → g0.Upholds env g' → good found g' →
      Settles env g0 few good' bad' (f found) g') :
    Settles env g0 few good' bad' (x >>= f) g := by
  cases h : x g with
  | ok found g' =>
    obtain ⟨hlater, hg', hfound⟩ := hx.of_ok h
    have hrest := hf hlater hg' hfound
    cases hlast : f found g' with
    | ok answer g'' =>
      obtain ⟨hlater', hg'', hanswer⟩ := hrest.of_ok hlast
      exact settles_of_ok ((bind_of_ok h).trans hlast) (hlater.trans hlater') hg'' hanswer
    | error e g'' =>
      obtain ⟨hg'', he⟩ := hrest.of_error hlast
      exact settles_of_error ((bind_of_ok h).trans hlast) hg'' he
  | error e g' =>
    obtain ⟨hg', he⟩ := hx.of_error h
    exact settles_of_error (bind_of_error h) hg'
      (he.imp_right fun ⟨shown, f, hrefused, he⟩ => ⟨shown, f, hbad hrefused, he⟩)

theorem Settles.imp {x : Resolution α} {good' : α → Grammar → Prop}
    (hx : Settles env g0 few good bad x g) (hfew : few → few')
    (hgood : ∀ {found g'}, good found g' → good' found g')
    (hbad : ∀ {shown f}, bad shown f → bad' shown f) : Settles env g0 few' good' bad' x g := by
  cases h : x g with
  | ok found g' =>
    obtain ⟨hlater, hg', hfound⟩ := hx.of_ok h
    exact settles_of_ok h hlater hg' (hgood hfound)
  | error e g' =>
    obtain ⟨hg', he⟩ := hx.of_error h
    exact settles_of_error h hg' (he.imp (fun hout => ⟨hfew hout.1, hout.2⟩)
      fun ⟨shown, f, hrefused, he⟩ => ⟨shown, f, hbad hrefused, he⟩)

theorem Grammar.Upholds.pure (hg : g0.Upholds env g) {found : α} (h : good found g) :
    Settles env g0 few good bad (Pure.pure found : Resolution α) g :=
  settles_of_ok rfl (.refl g) hg h

theorem Grammar.Upholds.refuse (hg : g0.Upholds env g) {f : SchemaFault} (h : bad none f) :
    Settles env g0 few good bad (fail (.schema f) : Resolution α) g :=
  settles_of_error rfl hg (.inr ⟨none, f, h, rfl⟩)

theorem Grammar.Upholds.newHandle (hg : g0.Upholds env g) {body : Parser}
    {good : Handle → Grammar → Prop}
    (h : ∀ {k : Handle} {g'}, g.Persists g' → k.body = body → good k g') :
    Settles env g0 few good bad (Resolution.newHandle body) g := by
  have hlater : g.Persists { g with made := g.made + 1 } :=
    Grammar.persists_of_eq rfl rfl rfl rfl rfl
  exact settles_of_ok rfl hlater (hg.of_eq rfl rfl rfl rfl rfl) (h hlater rfl)

theorem Grammar.Upholds.failShowing (hg : g0.Upholds env g) {a : Shape} {f : SchemaFault}
    (h : bad (some a) f) : Settles env g0 few good bad (failShowing a (.schema f)) g := by
  have hstop : ShapeGrammar.failShowing (α := α) a (.schema f) g =
      .error (g.stopShowing (some a) f) g := by
    unfold ShapeGrammar.failShowing
    rw [bind_of_ok (get_ok g)]
    unfold Grammar.stopShowing
    cases hshow : g.showShape a with
    | ok text =>
      simp only [hshow]
      rfl
    | error e =>
      simp only [hshow]
      rfl
  exact settles_of_error hstop hg (.inr ⟨some a, f, h, rfl⟩)

/-- What is found may be kept if it is what may be kept. -/
theorem Settles.remember {f : Finding α} {x : Resolution α} (hg : g0.Upholds env g)
    (hknown : ∀ {found}, f.known? g = some found → good found g)
    (hx : f.known? g = none → Settles env g0 few good bad x g)
    (hkeep : ∀ {found g'}, good found g' →
      f.Agrees env g0 g' found ∧ good found (f.keep g' found)) :
    Settles env g0 few good bad (remember f x) g := by
  cases hf : f.known? g with
  | some found => exact settles_of_ok (remember_of_known hf x) (.refl g) hg (hknown hf)
  | none =>
    have hrun := remember_of_unknown hf x
    cases h : x g with
    | ok found g' =>
      obtain ⟨hlater, hg', hfound⟩ := (hx hf).of_ok h
      obtain ⟨hagrees, hkept⟩ := hkeep hfound
      exact settles_of_ok (hrun.trans (bind_of_ok h))
        (hlater.trans (Grammar.persists_keep f found)) (hg'.keep hagrees) hkept
    | error e g' =>
      obtain ⟨hg', he⟩ := (hx hf).of_error h
      exact settles_of_error (hrun.trans (bind_of_error h)) hg' he

end Settled

/-! ## Shapes -/

section Shapes

variable {env : Environment} {g0 g : Grammar} {few : Prop}

/-- The parser has the structure of the shape. -/
def Grammar.Suits (env : Environment) (g0 : Grammar) (a : Shape) (h : Handle) (g : Grammar) :
    Prop :=
  ∃ x, g0.Expands env a x ∧ g.Builds x h.body

/-- The parsers have the structures of the shapes, one each. -/
def Grammar.SuitsAll (env : Environment) (g0 : Grammar) (as : List Shape) (ps : List Parser)
    (g : Grammar) : Prop :=
  ∃ xs : List Expansion, List.Forall₂ (g0.Expands env) as xs ∧ List.Forall₂ g.Builds xs ps

/-- One of the shapes is refused, and those before it are resolvable. -/
def Grammar.RefusesAll (g : Grammar) (env : Environment) (expanding : List AliasId)
    (as : List Shape) (shown : Option Shape) (f : SchemaFault) : Prop :=
  ∃ earlier a later, as = earlier ++ a :: later ∧ (∀ b ∈ earlier, g.Resolvable env b) ∧
    g.Refuses env expanding a shown f

/-- A computation ends as the expansion of the shape has it. -/
abbrev Grammar.SettlesShape (env : Environment) (g0 : Grammar) (few : Prop)
    (expanding : List AliasId) (a : Shape) (x : Resolution Handle) (g : Grammar) : Prop :=
  Settles env g0 few (g0.Suits env a) (g0.Refuses env expanding a) x g

theorem classParser_settles {expanding : List AliasId} {c : ClassRef} (hg : g0.Upholds env g) :
    g0.SettlesShape env few expanding (.cls c) (classParser c) g := by
  cases c with
  | declared d =>
    obtain ⟨plan, hclass⟩ := hg.classes d
    have hderived : (g.classInfo d).derivedAt = (g0.classInfo d).derivedAt := by rw [hclass]
    cases hsome : (g0.classInfo d).derivedAt.isSome with
    | true =>
      have hrun : classParser (.declared d) g = .ok (.derived d) g := by
        unfold classParser
        rw [bind_of_ok (get_ok g)]
        simp only [hderived, hsome, if_true]
        rfl
      exact settles_of_ok hrun (.refl g) hg ⟨_, .derived hsome, .leaf⟩
    | false =>
      refine settles_of_error ?_ hg (.inr ⟨_, _, .declared hsome, rfl⟩)
      unfold classParser
      rw [bind_of_ok (get_ok g)]
      simp only [hderived, hsome, hg.className_eq]
      rfl
  | character c => exact hg.pure ⟨_, .character, .leaf⟩
  | builtin b =>
    cases b with
    | text => exact hg.newHandle fun _ hbody => ⟨_, .text, hbody ▸ .leaf⟩
    | _ => exact hg.refuse (.builtin nofun)

variable {r : Resolver} {expanding : List AliasId}

/-- A part that decides about the whole. -/
theorem settles_within {x : Resolution Handle} {a b : Shape} {make : Parser → Parser}
    {grow : Expansion → Expansion} (hx : g0.SettlesShape env few expanding b x g)
    (hexpands : ∀ {y}, g0.Expands env b y → g0.Expands env a (grow y))
    (hbuilds : ∀ {g' y p}, Grammar.Builds g' y p → g'.Builds (grow y) (make p))
    (hrefuses : ∀ {shown f}, g0.Refuses env expanding b shown f →
      g0.Refuses env expanding a shown f) :
    g0.SettlesShape env few expanding a (x >>= fun h => newHandle (make h.body)) g :=
  hx.bind hrefuses fun _ hg' ⟨y, hy, hp⟩ => hg'.newHandle fun hlater hbody =>
    ⟨grow y, hexpands hy, hbody ▸ (hbuilds hp).mono hlater⟩

/-- The absent value is no parser. -/
theorem Grammar.Expands.isNothing {a : Shape} {x : Expansion} (h : g.Expands env a x) :
    a.isNothing = false := by
  cases is : a.isNothing with
  | false => rfl
  | true =>
    obtain rfl := Shape.eq_of_isNothing is
    cases h

-- the second of the mutual lemmas uses the assumption through the first one
set_option linter.unusedSectionVars false

variable (hr : ∀ {a : AliasId} {g : Grammar}, g0.Upholds env g →
  g0.SettlesShape env few expanding (.alias a) (r.aliasParser expanding a) g)
include hr

mutual

/-- **A shape is settled by its expansion.** -/
theorem resolveShape_settles : ∀ {a : Shape} {g : Grammar}, g0.Upholds env g →
    g0.SettlesShape env few expanding a (resolveShape r expanding a) g
  | .parser h, g, hg => hg.pure ⟨_, .parser, .leaf⟩
  | .cls c, g, hg => classParser_settles hg
  | .alias a, g, hg => hr hg
  | .annotated body notes, g, hg => by
    unfold resolveShape
    cases hnote : Shape.notedParser? notes with
    | some h => exact hg.pure ⟨_, .noted hnote, .leaf⟩
    | none =>
      exact (resolveShape_settles hg).imp id (fun ⟨x, hx, hp⟩ => ⟨x, .annotated hnote hx, hp⟩)
        (.annotated hnote)
  | .tuple items, g, hg => by
    unfold resolveShape
    cases hopen : openEnded items with
    | true => exact hg.failShowing (.repeated hopen)
    | false =>
      refine (resolveShapes_settles hg).bind ?_ fun _ hg' ⟨xs, hxs, hps⟩ => ?_
      · rintro shown f ⟨earlier, a, later, rfl, hearlier, ha⟩
        exact .item hopen hearlier ha
      · refine hg'.newHandle fun hlater hbody => ⟨.seq xs, ?_, hbody ▸ ?_⟩
        · obtain ⟨hlength, heach⟩ := List.forall₂_iff_zip.mp hxs
          exact .tuple hopen hlength heach
        · obtain ⟨hlength, heach⟩ := List.forall₂_iff_zip.mp hps
          exact .seq hlength fun hmem => (heach hmem).mono hlater
  | .list item, g, hg => settles_within (resolveShape_settles hg) .list .many .list
  | .nonempty item, g, hg => settles_within (resolveShape_settles hg) .nonempty .many1 .nonempty
  | .union [a, b], g, hg => by
    unfold resolveShape
    cases ha : a.isNothing with
    | true =>
      exact settles_within (resolveShape_settles hg) (fun hb => .second ha hb.isNothing hb) .opt
        (.second ha)
    | false =>
      cases hb : b.isNothing with
      | true =>
        exact settles_within (resolveShape_settles hg) (.first ha hb) .opt (.first ha hb)
      | false => exact hg.failShowing (.union (by simp [Shape.areOptional, ha, hb]))
  | .either left right, g, hg => by
    refine (resolveShape_settles hg).bind .left fun _ hg1 ⟨x, hx, hp⟩ => ?_
    refine (resolveShape_settles hg1).bind (.right hx.resolvable) fun hlater hg2 ⟨y, hy, hq⟩ => ?_
    exact hg2.newHandle fun hlast hbody => ⟨.either x y, .either hx hy,
      hbody ▸ .either (hp.mono (hlater.trans hlast)) (hq.mono hlast)⟩
  | .not body, g, hg => settles_within (resolveShape_settles hg) .not .not .not
  | .box body, g, hg => by
    have hnew : Settles env g0 few
        (fun b g' => b < g'.boxes.size ∧ (g'.boxInfo b).body = .shape body) (fun _ _ => False)
        (newBox (.shape body)) g := by
      refine settles_of_ok rfl (Grammar.persists_pushBox _) ?_ ⟨?_, ?_⟩
      · exact (Grammar.upholds_steps env g0).newBox (.shape body) g hg
      · rw [Array.size_push]
        exact Nat.lt_succ_self _
      · rw [Grammar.boxInfo_push, if_pos rfl]
    refine hnew.bind nofun fun _ hg1 ⟨hlt, hbody⟩ => ?_
    refine hg1.newHandle fun hlater hsame => ⟨.delayed body, .box, hsame ▸ ?_⟩
    exact Grammar.Builds.mono (.delayed hlt hbody) hlater
  | .union [], g, hg => hg.failShowing (.union rfl)
  | .union [_], g, hg => hg.failShowing (.union rfl)
  | .union (_ :: _ :: _ :: _), g, hg => hg.failShowing (.union rfl)
  | .nothing, g, hg => hg.failShowing (.unknown rfl)
  | .ellipsis, g, hg => hg.failShowing (.unknown rfl)
  | .constant _, g, hg => hg.failShowing (.unknown rfl)
  | .foreign _, g, hg => hg.failShowing (.unknown rfl)
  | .forward _, g, hg => hg.failShowing (.unknown rfl)
  | .mapping _ _, g, hg => hg.failShowing (.unknown rfl)
  | .shared _, g, hg => hg.failShowing (.unknown rfl)
  | .parameterOnly _, g, hg => hg.failShowing (.unknown rfl)

theorem resolveShapes_settles : ∀ {as : List Shape} {g : Grammar}, g0.Upholds env g →
    Settles env g0 few (g0.SuitsAll env as) (g0.RefusesAll env expanding as)
      (resolveShapes r expanding as) g
  | [], g, hg => hg.pure ⟨[], .nil, .nil⟩
  | a :: as, g, hg => by
    unfold resolveShapes
    refine (resolveShape_settles hg).bind ?_ fun _ hg1 ⟨x, hx, hp⟩ => ?_
    · exact fun ha => ⟨[], a, as, rfl, nofun, ha⟩
    refine (resolveShapes_settles hg1).bind ?_ fun hlater hg2 ⟨xs, hxs, hps⟩ => ?_
    · rintro shown f ⟨earlier, b, later, rfl, hearlier, hb⟩
      refine ⟨a :: earlier, b, later, rfl, fun c hc => ?_, hb⟩
      rcases List.mem_cons.mp hc with rfl | hc
      · exact hx.resolvable
      · exact hearlier c hc
    · exact hg2.pure ⟨x :: xs, .cons hx hxs, .cons (hp.mono hlater) hps⟩

end

end Shapes

/-! ## Aliases -/

section Aliases

variable {env : Environment} {g0 g : Grammar}

/-- Different aliases of the grammar. -/
def Grammar.Distinct (g : Grammar) (expanding : List AliasId) : Prop :=
  expanding.Nodup ∧ ∀ a ∈ expanding, a < g.aliases.size

theorem Grammar.Distinct.length_le {expanding : List AliasId} (h : g.Distinct expanding) :
    expanding.length ≤ g.aliases.size := by
  have hsub : expanding ⊆ List.range g.aliases.size := fun a ha => List.mem_range.mpr (h.2 a ha)
  have hle := (List.subperm_of_subset h.1 hsub).length_le
  rwa [List.length_range] at hle

theorem Grammar.Distinct.append {expanding : List AliasId} (h : g.Distinct expanding) {a : AliasId}
    (hnew : a ∉ expanding) (ha : a < g.aliases.size) : g.Distinct (expanding ++ [a]) := by
  refine ⟨h.1.append (List.nodup_singleton a) ?_, fun b hb => ?_⟩
  · intro b hb hba
    exact hnew (List.mem_singleton.mp hba ▸ hb)
  · rcases List.mem_append.mp hb with hb | hb
    · exact h.2 b hb
    · rwa [List.mem_singleton.mp hb]

end Aliases

end ShapeGrammar
