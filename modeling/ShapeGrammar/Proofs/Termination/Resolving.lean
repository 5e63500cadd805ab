import ShapeGrammar.Proofs.Termination.Plain
import ShapeGrammar.Proofs.Termination.Fitting

/-!
# What has a skeleton is resolved

A shape that has a skeleton has a parser with this skeleton, and to resolve the shape finds it; what
is written down in such a way is built; and a delayed parser is opened. The induction is on how far
aliases are nested: an alias leads to what is nested less, or is the same at a lower bound, and so
it never meets itself while it is expanded.

Headlines: `finds_resolveShape`, `finds_buildParser`, `resolver_expands`, `finds_openBox`,
`finds_fieldParsers`.
-/

namespace ShapeGrammar

open Resolution

variable {S : Skeletons} {base g g' : Grammar} {x : Skeleton} {d e : Nat}

/-! ## Forms of skeletons -/

/-- What an alias stands for does not depend on what came into being later. -/
theorem HasSkeleton.alias_of_alias {a : AliasId}
    (h : HasSkeleton S base g (.shape d (.alias a)) x) :
    HasSkeleton S base g' (.shape d (.alias a)) x := by
  cases h with
  | aliasFound hh hx => exact .aliasFound hh hx
  | aliasKnown hh hv hx => exact .aliasKnown hh hv hx
  | aliasOpen hh hv hx => exact .aliasOpen hh hv hx

/-- A shape that has a skeleton is a type. -/
theorem HasSkeleton.asType_eq {a : Shape} (h : HasSkeleton S base g (.shape d a) x) :
    a.asType = a := by
  cases a with
  | nothing => cases h
  | _ => rfl

theorem HasSkeleton.not_openEnded {as : List Shape} (h : HasSkeleton S base g (.shapes d as) x) :
    openEnded as = false := by
  unfold openEnded
  split
  · cases h with
    | shapes _ hrest =>
      cases hrest with
      | shapes hx _ => cases hx
  · rfl

/-- The parser that stands for a class. -/
theorem HasSkeleton.character {c : Char} :
    HasSkeleton S base g (.parser (.character c)) (.within .leaf) :=
  .map (fun _ _ h => nomatch h) .element

/-! ## Shapes -/

/-- No skeleton is known of these aliases where aliases are nested no further than so far. -/
def Unsettled (S : Skeletons) (base : Grammar) (d : Nat) (expanding : List AliasId) : Prop :=
  ∀ a ∈ expanding, ∀ x, ¬ HasSkeleton S base base (.shape d (.alias a)) x

theorem Unsettled.of_le {expanding : List AliasId} (h : Unsettled S base e expanding)
    (hde : d ≤ e) : Unsettled S base d expanding :=
  fun a ha x hx => h a ha x (hx.shape_le hde)

theorem Unsettled.nil : Unsettled S base d [] :=
  fun _ ha => nomatch ha

/-- The resolver finds the parsers of the aliases that are nested no further than so far. -/
def Resolver.Expands (S : Skeletons) (base : Grammar) (r : Resolver) (d : Nat) : Prop :=
  ∀ {g : Grammar} {expanding : List AliasId} {a : AliasId} {x : Skeleton}, Fits S base g →
    Unsettled S base d expanding → HasSkeleton S base g (.shape d (.alias a)) x →
    Finds S base g (r.aliasParser expanding a) fun h g' => HasSkeleton S base g' (.parser h.body) x

theorem finds_classParser {c : ClassRef} (hg : Fits S base g)
    (h : HasSkeleton S base g (.shape d (.cls c)) x) :
    Finds S base g (classParser c) fun h g' => HasSkeleton S base g' (.parser h.body) x := by
  refine .get ?_
  cases h with
  | @declaredClass _ _ c hderived hc =>
    obtain ⟨plan, hinfo⟩ := hg.declared.classes c
    have hsome : (g.classInfo c).derivedAt.isSome = true := by
      rw [hinfo]
      exact hderived
    simp only [hsome, if_true]
    exact .pure hg (.derived hc)
  | characterClass => exact .pure hg .character
  | text => exact .newHandle hg .any

section Shapes

-- the second of the mutual lemmas uses the assumptions through the first one
set_option linter.unusedSectionVars false

variable {r : Resolver} (hr : r.Expands S base d) {expanding : List AliasId}
  (hexp : Unsettled S base d expanding)
include hr hexp

mutual

/-- **A shape that has a skeleton has a parser of this skeleton.** -/
theorem finds_resolveShape : ∀ {a : Shape} {g : Grammar} {x : Skeleton}, Fits S base g →
    HasSkeleton S base g (.shape d a) x →
    Finds S base g (resolveShape r expanding a) fun h g' => HasSkeleton S base g' (.parser h.body) x
  | .parser h, g, x, hg, hx => by
    cases hx with
    | parserShape hx => exact .pure hg hx
  | .cls c, g, x, hg, hx => finds_classParser hg hx
  | .alias a, g, x, hg, hx => hr hg hexp hx
  | .annotated body notes, g, x, hg, hx => by
    unfold resolveShape
    cases hx with
    | noted hn hx =>
      rw [hn]
      exact .pure hg hx
    | unnoted hn hx =>
      rw [hn]
      exact finds_resolveShape hg hx
  | .tuple items, g, x, hg, hx => by
    unfold resolveShape
    cases hx with
    | tuple hopen hx =>
      rw [hopen]
      exact .bind (finds_resolveShapes hg hx) fun ps g1 h1 hps => .newHandle h1.fits (.seq hps)
  | .list item, g, x, hg, hx => by
    cases hx with
    | list hx =>
      exact .bind (finds_resolveShape hg hx) fun h g1 h1 hh => .newHandle h1.fits (.many hh)
  | .nonempty item, g, x, hg, hx => by
    cases hx with
    | nonempty hx =>
      exact .bind (finds_resolveShape hg hx) fun h g1 h1 hh => .newHandle h1.fits (.many1 hh)
  | .union [a, b], g, x, hg, hx => by
    unfold resolveShape
    cases hx with
    | optionalRight ha hx =>
      rw [ha]
      exact .bind (finds_resolveShape hg hx) fun h g1 h1 hh => .newHandle h1.fits (.opt hh)
    | optionalLeft ha hb hx =>
      rw [ha, hb]
      exact .bind (finds_resolveShape hg hx) fun h g1 h1 hh => .newHandle h1.fits (.opt hh)
  | .union [], g, x, hg, hx => nomatch hx
  | .union [_], g, x, hg, hx => nomatch hx
  | .union (_ :: _ :: _ :: _), g, x, hg, hx => nomatch hx
  | .either left right, g, x, hg, hx => by
    cases hx with
    | eitherShape hl hr' =>
      refine .bind (finds_resolveShape hg hl) fun l g1 h1 hl' => ?_
      refine .bind (finds_resolveShape h1.fits (hr'.mono h1.later)) fun h g2 h2 hh => ?_
      exact .newHandle h2.fits (.either (hl'.mono h2.later) hh)
  | .not body, g, x, hg, hx => by
    cases hx with
    | notShape hx =>
      exact .bind (finds_resolveShape hg hx) fun h g1 h1 hh => .newHandle h1.fits (.not hh)
  | .box body, g, x, hg, hx => by
    cases hx with
    | boxShape hx =>
      exact .bind (.newBox hg (.ofShape hx)) fun b g1 h1 hb => .newHandle h1.fits hb
  | .nothing, g, x, hg, hx => nomatch hx
  | .ellipsis, g, x, hg, hx => nomatch hx
  | .constant _, g, x, hg, hx => nomatch hx
  | .foreign _, g, x, hg, hx => nomatch hx
  | .forward _, g, x, hg, hx => nomatch hx
  | .mapping _ _, g, x, hg, hx => nomatch hx
  | .shared _, g, x, hg, hx => nomatch hx
  | .parameterOnly _, g, x, hg, hx => nomatch hx

theorem finds_resolveShapes : ∀ {as : List Shape} {g : Grammar} {x : Skeleton}, Fits S base g →
    HasSkeleton S base g (.shapes d as) x →
    Finds S base g (resolveShapes r expanding as) fun ps g' => HasSkeleton S base g' (.parsers ps) x
  | [], g, x, hg, hx => by
    cases hx with
    | noShapes => exact .pure hg .noParts
  | a :: as, g, x, hg, hx => by
    cases hx with
    | shapes hx hxs =>
      refine .bind (finds_resolveShape hg hx) fun h g1 h1 hh => ?_
      refine .bind (finds_resolveShapes h1.fits (hxs.mono h1.later)) fun ps g2 h2 hps => ?_
      exact .pure h2.fits (.parts (hh.mono h2.later) hps)

end

end Shapes

theorem finds_parserFor {r : Resolver} {a : Shape} (hr : r.Expands S base d) (hg : Fits S base g)
    (hx : HasSkeleton S base g (.shape d a) x) :
    Finds S base g (parserFor r a) fun h g' => HasSkeleton S base g' (.parser h.body) x :=
  finds_resolveShape hr .nil hg hx

/-! ## Written shapes and parsers -/

theorem finds_made {body : Parser} (hg : Fits S base g)
    (hx : HasSkeleton S base g (.parser body) x) :
    Finds S base g (made body) fun b g' =>
      ∃ h, b = .parser h ∧ HasSkeleton S base g' (.parser h.body) x :=
  .map (.imp (.newHandle hg hx) fun h _ _ hh => ⟨h, rfl, hh⟩)

theorem finds_evaluateShape_of_means {r : Resolver} {e : ShapeExpr} {a : Shape} (hg : Fits S base g)
    (he : base.Means e a) {P : Shape → Grammar → Prop} (ha : P a g) :
    Finds S base g (evaluateShape r false e) P :=
  .of_ok (he.evaluates hg.declared) hg ha

theorem HasSkeleton.parts_append {p : Parser} {y : Skeleton}
    (hy : HasSkeleton S base g (.parser p) y) : ∀ {ps : List Parser} {x : Skeleton},
    HasSkeleton S base g (.parsers ps) x →
      HasSkeleton S base g (.parsers (ps ++ [p])) (Skeleton.followedBy.append x y)
  | [], x, hx => by
    cases hx with
    | noParts => exact .parts hy .noParts
  | q :: qs, x, hx => by
    cases hx with
    | parts hq hqs => exact .parts hq (parts_append hy hqs)

/-- A sequence grows by one part. -/
theorem HasSkeleton.followedBy {p q : Parser} {y : Skeleton}
    (hx : HasSkeleton S base g (.parser p) x) (hy : HasSkeleton S base g (.parser q) y) :
    HasSkeleton S base g (.parser (p.followedBy q)) (x.followedBy y) := by
  have hp := hx
  cases hx with
  | seq hx => exact .seq (parts_append hy hx)
  | _ => exact .seq (.parts hp (.parts hy .noParts))

/-- Beside a shape without notes, notes can be put. -/
theorem annotatedOf_of_isBare {a : Shape} (h : a.isBare = true) (notes : List Shape) :
    Shape.annotatedOf a notes = .ok (.annotated a.asType notes) := by
  cases a with
  | annotated | ellipsis | constant | foreign => cases h
  | _ => rfl

/-- The union of a shape and the absent value. -/
theorem unionOf_nothing {a : Shape} (hkey : a.hasKey = true) (hmembers : a.members = [a])
    (hx : HasSkeleton S base g (.shape d a) x) :
    Shape.unionOf [.nothing, a] = .ok (.union [.cls (.builtin .nothing), a]) ∧
      Shape.unionOf [a, .nothing] = .ok (.union [a, .cls (.builtin .nothing)]) := by
  have hsame : Shape.same a (.cls (.builtin .nothing)) = false := by
    cases a with
    | cls c =>
      cases hx <;> rfl
    | _ => rfl
  have hsame' : Shape.same (.cls (.builtin .nothing)) a = false := by
    cases a with
    | cls c =>
      cases hx <;> rfl
    | _ => rfl
  have hmembers' : a.asType.members = [a] := by rw [hx.asType_eq, hmembers]
  have hleft : [Shape.nothing, a].flatMap (fun a => a.asType.members) =
      [.cls (.builtin .nothing), a] := by
    rw [List.flatMap_cons, List.flatMap_cons, hmembers']
    rfl
  have hright : [a, Shape.nothing].flatMap (fun a => a.asType.members) =
      [a, .cls (.builtin .nothing)] := by
    rw [List.flatMap_cons, hmembers']
    rfl
  constructor
  · unfold Shape.unionOf
    simp [hleft, Shape.allHaveKey, Shape.hasKey, hkey, Shape.distinct, hsame]
  · unfold Shape.unionOf
    simp [hright, Shape.allHaveKey, Shape.hasKey, hkey, Shape.distinct, hsame']

/-- A shape that may be absent is written as a union with the absent value. -/
theorem evaluateShape_optional {r : Resolver} {e : ShapeExpr} {a : Shape} {g'' : Grammar}
    (hm : base.Member e) (hsame : base.SameDeclarations g)
    (he : evaluateShape r false e g = .ok a g') (hx : HasSkeleton S base g'' (.shape d a) x) :
    evaluateShape r false (.union [.nothing, e]) g =
        .ok (.union [.cls (.builtin .nothing), a]) g' ∧
      evaluateShape r false (.union [e, .nothing]) g =
        .ok (.union [a, .cls (.builtin .nothing)]) g' := by
  obtain ⟨hkey, hmembers⟩ := hm hsame he
  obtain ⟨hleft, hright⟩ := unionOf_nothing hkey hmembers hx
  have hlast : evaluateShapes r false [e] g = .ok [a] g' := bind_of_ok he
  have hboth : evaluateShapes r false [.nothing, e] g = .ok [.nothing, a] g' := bind_of_ok hlast
  have hboth' : evaluateShapes r false [e, .nothing] g = .ok [a, .nothing] g' := bind_of_ok he
  constructor
  · refine (bind_of_ok hboth).trans ?_
    rw [hleft]
    rfl
  · refine (bind_of_ok hboth').trans ?_
    rw [hright]
    rfl

/-- The absent value is not meant where there is a skeleton. -/
theorem HasSkeleton.not_isNothing {a : Shape} (hx : HasSkeleton S base g (.shape d a) x) :
    a.isNothing = false := by
  cases a with
  | cls c =>
    cases hx <;> rfl
  | _ => rfl

/-- Texts are noted as they are. -/
theorem evaluateNotes_of_texts {r : Resolver} : ∀ {ns : List NoteExpr}, parsersNoted ns = [] →
    ∃ as, evaluateNotes r ns g = .ok as g ∧ Shape.notedParser? as = none ∧ (as = [] → ns = [])
  | [], _ => ⟨[], rfl, rfl, fun _ => rfl⟩
  | .text s :: ns, h => by
    obtain ⟨as, has, hnone, -⟩ := evaluateNotes_of_texts (show parsersNoted ns = [] from h)
    exact ⟨_, bind_of_ok has, hnone, nofun⟩

section Expressions

-- the later ones of the mutual lemmas use the assumption through the first one
set_option linter.unusedSectionVars false

variable {r : Resolver} {d : Nat} (hr : ∀ e ≤ d, r.Expands S base e)
include hr

mutual

/-- **A written shape that has a skeleton means a shape of this skeleton.** -/
theorem finds_evaluateShape : ∀ {t : ShapeExpr} {e : Nat} {g : Grammar} {x : Skeleton}, e ≤ d →
    Fits S base g → HasSkeleton S base g (.shapeExpr e t) x →
    Finds S base g (evaluateShape r false t) fun a g' => HasSkeleton S base g' (.shape e a) x
  | .list t, e, g, x, he, hg, hx => by
    cases hx with
    | plainExpr hm hx => exact finds_evaluateShape_of_means hg hm hx
    | listExpr _ hx =>
      exact .bind (finds_evaluateShape he hg hx) fun a g1 h1 ha => .pure h1.fits (.list ha)
  | .nonempty t, e, g, x, he, hg, hx => by
    cases hx with
    | plainExpr hm hx => exact finds_evaluateShape_of_means hg hm hx
    | nonemptyExpr _ hx =>
      exact .bind (finds_evaluateShape he hg hx) fun a g1 h1 ha => .pure h1.fits (.nonempty ha)
  | .not t, e, g, x, he, hg, hx => by
    cases hx with
    | plainExpr hm hx => exact finds_evaluateShape_of_means hg hm hx
    | notExpr _ hx =>
      refine .bind (finds_evaluateShape he hg hx) fun a g1 h1 ha => .pure h1.fits ?_
      rw [ha.asType_eq]
      exact .notShape ha
  | .box t, e, g, x, he, hg, hx => by
    cases hx with
    | plainExpr hm hx => exact finds_evaluateShape_of_means hg hm hx
    | boxExpr _ hx =>
      have hle := Nat.le_trans (Nat.min_le_left e S.depth) he
      refine .bind (finds_evaluateShape hle hg hx) fun a g1 h1 ha => .pure h1.fits ?_
      rw [ha.asType_eq]
      exact .boxShape (ha.shape_le (Nat.min_le_right e S.depth))
  | .either t u, e, g, x, he, hg, hx => by
    cases hx with
    | plainExpr hm hx => exact finds_evaluateShape_of_means hg hm hx
    | eitherExpr _ ht hu =>
      refine .bind (finds_evaluateShape he hg ht) fun a g1 h1 ha => ?_
      refine .bind (finds_evaluateShape he h1.fits (hu.mono h1.later)) fun b g2 h2 hb => ?_
      refine .pure h2.fits ?_
      rw [ha.asType_eq, hb.asType_eq]
      exact .eitherShape (ha.mono h2.later) hb
  | .tuple ts, e, g, x, he, hg, hx => by
    cases hx with
    | plainExpr hm hx => exact finds_evaluateShape_of_means hg hm hx
    | tupleExpr _ hx =>
      exact .bind (finds_evaluateShapes he hg hx) fun as g1 h1 has =>
        .pure h1.fits (.tuple has.not_openEnded has)
  | .union ts, e, g, x, he, hg, hx => by
    cases hx with
    | plainExpr hm hx => exact finds_evaluateShape_of_means hg hm hx
    | nothingOr _ hm hx =>
      obtain ⟨a, g1, ha, h1, hx⟩ := finds_evaluateShape he hg hx
      exact ⟨_, g1, (evaluateShape_optional hm hg.declared ha hx).1, h1, .optionalRight rfl hx⟩
    | orNothing _ hm hx =>
      obtain ⟨a, g1, ha, h1, hx⟩ := finds_evaluateShape he hg hx
      exact ⟨_, g1, (evaluateShape_optional hm hg.declared ha hx).2, h1,
        .optionalLeft hx.not_isNothing rfl hx⟩
  | .annotated t notes, e, g, x, he, hg, hx => by
    cases hx with
    | plainExpr hm hx => exact finds_evaluateShape_of_means hg hm hx
    | textNoted _ hu hne ht hx =>
      obtain ⟨a, g1, ha, h1, hx⟩ := finds_evaluateShape he hg hx
      obtain ⟨as, has, hnone, hnil⟩ := evaluateNotes_of_texts (r := r) (g := g1) ht
      have hne' : as ≠ [] := fun has => hne (hnil has)
      refine ⟨_, g1, (bind_of_ok ha).trans ((bind_of_ok has).trans ?_), h1, .unnoted hnone hx⟩
      rw [if_neg (by simpa using hne'), annotatedOf_of_isBare (hu hg.declared ha), hx.asType_eq]
      rfl
    | notedExpr _ hm ha hp hx =>
      refine .bind (finds_evaluateShape_of_means hg hm (P := fun a' _ => a' = _) rfl)
        fun a' g1 h1 ha' => ?_
      subst ha'
      refine .bind (finds_evaluateNotes he h1.fits hp (hx.mono h1.later)) fun as g2 h2 has => ?_
      obtain ⟨hne, h, hh, hx⟩ := has
      rw [if_neg (by simpa using hne), annotatedOf_of_isBare ha]
      exact .pure h2.fits (.noted hh hx)
  | .parser p, e, g, x, he, hg, hx => by
    cases hx with
    | plainExpr hm hx => exact finds_evaluateShape_of_means hg hm hx
    | parserIn _ hx =>
      refine .bind (finds_buildParser he hg hx) fun b g1 h1 hb => ?_
      obtain ⟨h, rfl, hh⟩ := hb
      exact .pure h1.fits (.parserShape hh)
  | .character _, e, g, x, he, hg, hx => by
    cases hx with
    | plainExpr hm hx => exact finds_evaluateShape_of_means hg hm hx
  | .ref _, e, g, x, he, hg, hx => by
    cases hx with
    | plainExpr hm hx => exact finds_evaluateShape_of_means hg hm hx
  | .nothing, e, g, x, he, hg, hx => by
    cases hx with
    | plainExpr hm hx => exact finds_evaluateShape_of_means hg hm hx
  | .ellipsis, e, g, x, he, hg, hx => by
    cases hx with
    | plainExpr hm hx => exact finds_evaluateShape_of_means hg hm hx
  | .builtin _, e, g, x, he, hg, hx => by
    cases hx with
    | plainExpr hm hx => exact finds_evaluateShape_of_means hg hm hx
  | .mapping _ _, e, g, x, he, hg, hx => by
    cases hx with
    | plainExpr hm hx => exact finds_evaluateShape_of_means hg hm hx

theorem finds_evaluateShapes : ∀ {ts : List ShapeExpr} {e : Nat} {g : Grammar} {x : Skeleton},
    e ≤ d → Fits S base g → HasSkeleton S base g (.shapeExprs e ts) x →
    Finds S base g (evaluateShapes r false ts) fun as g' => HasSkeleton S base g' (.shapes e as) x
  | [], e, g, x, he, hg, hx => by
    cases hx with
    | noShapeExprs => exact .pure hg .noShapes
  | t :: ts, e, g, x, he, hg, hx => by
    cases hx with
    | shapeExprs hx hxs =>
      refine .bind (finds_evaluateShape he hg hx) fun a g1 h1 ha => ?_
      refine .bind (finds_evaluateShapes he h1.fits (hxs.mono h1.later)) fun as g2 h2 has => ?_
      exact .pure h2.fits (.shapes (ha.mono h2.later) has)

theorem finds_evaluateNotes : ∀ {ns : List NoteExpr} {p : ParserExpr} {e : Nat} {g : Grammar}
    {x : Skeleton}, e ≤ d → Fits S base g → parsersNoted ns = [p] →
    HasSkeleton S base g (.parserExpr e p) x →
    Finds S base g (evaluateNotes r ns) fun as g' => as ≠ [] ∧
      ∃ h, Shape.notedParser? as = some h ∧ HasSkeleton S base g' (.parser h.body) x
  | [], p, e, g, x, he, hg, hp, hx => nomatch hp
  | .text s :: ns, p, e, g, x, he, hg, hp, hx =>
    .bind (finds_evaluateNotes he hg (show parsersNoted ns = [p] from hp) hx) fun as g1 h1 has =>
      .pure h1.fits ⟨List.cons_ne_nil _ _, has.2⟩
  | .parser q :: ns, p, e, g, x, he, hg, hp, hx => by
    obtain ⟨rfl, hnone⟩ := List.cons.inj hp
    refine .bind (finds_buildParser he hg hx) fun b g1 h1 hb => ?_
    obtain ⟨h, rfl, hh⟩ := hb
    obtain ⟨as, has, -⟩ := evaluateNotes_of_texts (r := r) (g := g1) hnone
    exact .of_ok (bind_of_ok has) h1.fits ⟨List.cons_ne_nil _ _, h, rfl, hh⟩

/-- **A written parser that has a skeleton is built.** -/
theorem finds_buildParser : ∀ {t : ParserExpr} {e : Nat} {g : Grammar} {x : Skeleton}, e ≤ d →
    Fits S base g → HasSkeleton S base g (.parserExpr e t) x →
    Finds S base g (buildParser r t) fun b g' =>
      ∃ h, b = .parser h ∧ HasSkeleton S base g' (.parser h.body) x
  | .element v, e, g, x, he, hg, hx => by
    cases hx with
    | elementExpr => exact finds_made hg .element
  | .any, e, g, x, he, hg, hx => by
    cases hx with
    | anyExpr => exact finds_made hg .any
  | .satisfy test description, e, g, x, he, hg, hx => by
    cases hx with
    | satisfyExpr => exact finds_made hg .satisfy
  | .seq ts, e, g, x, he, hg, hx => by
    cases hx with
    | seqExpr hx =>
      exact .bind (finds_buildParsers he hg hx) fun ps g1 h1 hps => finds_made h1.fits (.seq hps)
  | .opt t, e, g, x, he, hg, hx => by
    cases hx with
    | optExpr hx =>
      refine .bind (finds_buildParser he hg hx) fun b g1 h1 hb => ?_
      obtain ⟨h, rfl, hh⟩ := hb
      exact finds_made h1.fits (.opt hh)
  | .not t, e, g, x, he, hg, hx => by
    cases hx with
    | notParser hx =>
      refine .bind (finds_buildParser he hg hx) fun b g1 h1 hb => ?_
      obtain ⟨h, rfl, hh⟩ := hb
      exact finds_made h1.fits (.not hh)
  | .recorded name t, e, g, x, he, hg, hx => by
    cases hx with
    | recordedExpr hx =>
      refine .bind (finds_buildParser he hg hx) fun b g1 h1 hb => ?_
      obtain ⟨h, rfl, hh⟩ := hb
      exact finds_made h1.fits (.recorded hh)
  | .many checked t, e, g, x, he, hg, hx => by
    cases hx with
    | manyExpr hx =>
      refine .bind (finds_buildParser he hg hx) fun b g1 h1 hb => ?_
      obtain ⟨h, rfl, hh⟩ := hb
      exact finds_made h1.fits (.many hh)
  | .many1 checked t, e, g, x, he, hg, hx => by
    cases hx with
    | many1Expr hx =>
      refine .bind (finds_buildParser he hg hx) fun b g1 h1 hb => ?_
      obtain ⟨h, rfl, hh⟩ := hb
      exact finds_made h1.fits (.many1 hh)
  | .either t u, e, g, x, he, hg, hx => by
    cases hx with
    | eitherParsers ht hu =>
      refine .bind (finds_buildParser he hg ht) fun a g1 h1 ha => ?_
      refine .bind (finds_buildParser he h1.fits (hu.mono h1.later)) fun b g2 h2 hb => ?_
      obtain ⟨l, rfl, hl⟩ := ha
      obtain ⟨h, rfl, hh⟩ := hb
      exact finds_made h2.fits (.either (hl.mono h2.later) hh)
  | .choice t u, e, g, x, he, hg, hx => by
    cases hx with
    | choiceExpr ht hu =>
      refine .bind (finds_buildParser he hg ht) fun a g1 h1 ha => ?_
      refine .bind (finds_buildParser he h1.fits (hu.mono h1.later)) fun b g2 h2 hb => ?_
      obtain ⟨l, rfl, hl⟩ := ha
      obtain ⟨h, rfl, hh⟩ := hb
      exact finds_made h2.fits (.either (hl.mono h2.later) hh)
  | .sum t u, e, g, x, he, hg, hx => by
    cases hx with
    | sumExpr ht hu =>
      refine .bind (finds_buildParser he hg ht) fun a g1 h1 ha => ?_
      refine .bind (finds_buildParser he h1.fits (hu.mono h1.later)) fun b g2 h2 hb => ?_
      obtain ⟨l, rfl, hl⟩ := ha
      obtain ⟨h, rfl, hh⟩ := hb
      exact finds_made h2.fits ((hl.mono h2.later).followedBy hh)
  | .box t, e, g, x, he, hg, hx => by
    cases hx with
    | boxParser hx =>
      refine .bind (finds_buildParser he hg hx) fun b g1 h1 hb => ?_
      obtain ⟨h, rfl, hh⟩ := hb
      exact .bind (.newBox h1.fits (.ofParser hh)) fun b g2 h2 hb => finds_made h2.fits hb
  | .delayed t, e, g, x, he, hg, hx => by
    cases hx with
    | delayedExpr hx =>
      exact .bind (.newBox hg (.ofExpression hx)) fun b g1 h1 hb => finds_made h1.fits hb
  | .map change t, e, g, x, he, hg, hx => by
    cases hx with
    | mapExpr hraises hx =>
      refine .bind (finds_buildParser he hg hx) fun b g1 h1 hb => ?_
      obtain ⟨h, rfl, hh⟩ := hb
      exact finds_made h1.fits (.map hraises hh)
  | .name path, e, g, x, he, hg, hx => by
    cases hx with
    | nameExpr hlookup hx =>
      refine .get ?_
      rw [hg.declared.lookup_eq, hlookup]
      exact .pure hg ⟨_, rfl, hx⟩
  | .shape t, e, g, x, he, hg, hx => by
    cases hx with
    | shapeOf hx =>
      refine .bind (finds_evaluateShape he hg hx) fun a g1 h1 ha => ?_
      exact .map (.imp (finds_parserFor (hr e he) h1.fits ha) fun h _ _ hh => ⟨h, rfl, hh⟩)
  | .compiled _, e, g, x, he, hg, hx => nomatch hx
  | .generated _, e, g, x, he, hg, hx => nomatch hx
  | .generatedSchema _, e, g, x, he, hg, hx => nomatch hx
  | .loaded _ _, e, g, x, he, hg, hx => nomatch hx
  | .misser accepted, e, g, x, he, hg, hx => by
    cases hx with
    | misserExpr => exact finds_made hg .misser
  | .unimplemented, e, g, x, he, hg, hx => nomatch hx

theorem finds_buildParsers : ∀ {ts : List ParserExpr} {e : Nat} {g : Grammar} {x : Skeleton},
    e ≤ d → Fits S base g → HasSkeleton S base g (.parserExprs e ts) x →
    Finds S base g (buildParsers r ts) fun ps g' => HasSkeleton S base g' (.parsers ps) x
  | [], e, g, x, he, hg, hx => by
    cases hx with
    | noParserExprs => exact .pure hg .noParts
  | t :: ts, e, g, x, he, hg, hx => by
    cases hx with
    | parserExprs hx hxs =>
      refine .bind (finds_buildParser he hg hx) fun b g1 h1 hb => ?_
      refine .bind (finds_buildParsers he h1.fits (hxs.mono h1.later)) fun ps g2 h2 hps => ?_
      obtain ⟨h, rfl, hh⟩ := hb
      exact .pure h2.fits (.parts (hh.mono h2.later) hps)

end

end Expressions

/-! ## Aliases -/

/-- Where it is known that an alias has a skeleton, what it is found to be has this one. -/
theorem Finding.fits_handle {a : AliasId} {h : Handle}
    (hx : HasSkeleton S base g (.shape d (.alias a)) x)
    (hh : HasSkeleton S base g (.parser h.body) x) : (Finding.handle a).Fits S base g h := by
  intro g' e y hlater hy
  have hxy : x = y :=
    ((hx.mono hlater).shape_le (Nat.le_max_left d e)).unique (hy.shape_le (Nat.le_max_right d e))
  exact hxy ▸ hh.mono hlater

theorem Finding.fits_value {a : AliasId} {v : Shape}
    (hleast : ∀ y, ¬ HasSkeleton S base base (.shape d (.alias a)) y)
    (hx : HasSkeleton S base g (.shape (d + 1) (.alias a)) x)
    (hv : HasSkeleton S base g (.shape d v) x) : (Finding.value a).Fits S base g v := by
  intro g' e y _ hlater hleast' hy
  have hde : d = e := by
    refine Nat.le_antisymm (Nat.le_of_not_lt fun hlt => ?_) (Nat.le_of_not_lt fun hlt => ?_)
    · exact hleast y (hy.alias_of_alias.shape_le hlt)
    · exact hleast' x (hx.alias_of_alias.shape_le hlt)
  subst hde
  rw [← (hx.mono hlater).unique hy]
  exact hv.mono hlater

/-- The value of an alias, where it has no skeleton if aliases are nested less. -/
theorem finds_aliasValue {r : Resolver} {a : AliasId} (hr : ∀ e ≤ d, r.Expands S base e)
    (hg : Fits S base g) (hnone : (base.aliasInfo a).parser = none)
    (hleast : ∀ y, ¬ HasSkeleton S base base (.shape d (.alias a)) y)
    (hx : HasSkeleton S base g (.shape (d + 1) (.alias a)) x) :
    Finds S base g (aliasValue r a) fun v g' => HasSkeleton S base g' (.shape d v) x := by
  refine .imp (.remember hg fun hunknown => .get ?_) fun v g1 h1 hv =>
    hv g1 d x hnone (.refl g1) hleast (hx.mono h1.later)
  rw [hg.later.expression a]
  have hx' := hx
  cases hx with
  | aliasFound hh => cases hnone.symm.trans hh
  | aliasKnown _ hv =>
    have hknown : (Finding.value a).known? base = some _ := hv
    cases hunknown.symm.trans (hg.known hknown)
  | aliasOpen _ _ he =>
    exact .imp (finds_evaluateShape hr (Nat.le_refl d) hg (he.mono hg.later)) fun v g1 h1 hv =>
      Finding.fits_value hleast (hx'.mono h1.later) hv

/-- One question more expands aliases that are nested one further. -/
theorem finds_expandAlias {r : Resolver} {n : Nat} (hr : ∀ e < n, r.Expands S base e) :
    ∀ {d : Nat} {g : Grammar} {expanding : List AliasId} {a : AliasId} {x : Skeleton}, d ≤ n →
      Fits S base g → Unsettled S base d expanding →
      HasSkeleton S base g (.shape d (.alias a)) x →
      Finds S base g (expandAlias r expanding a) fun h g' =>
        HasSkeleton S base g' (.parser h.body) x
  | d, g, expanding, a, x, hd, hg, hexp, hx => by
    cases hknown : (Finding.handle a).known? g with
    | some h =>
      exact .of_ok (remember_of_known hknown _) hg (hg.fits hknown g d x (.refl g) hx)
    | none =>
      have hnone : (base.aliasInfo a).parser = none := by
        cases hbase : (Finding.handle a).known? base with
        | none => exact hbase
        | some h => cases hknown.symm.trans (hg.known hbase)
      cases d with
      | zero =>
        cases hx with
        | aliasFound hh => cases hnone.symm.trans hh
      | succ d =>
        by_cases hless : ∃ y, HasSkeleton S base base (.shape d (.alias a)) y
        · -- the same where aliases are nested less
          obtain ⟨y, hy⟩ := hless
          cases (hy.mono hg.later |>.shape_le (Nat.le_succ d)).unique hx
          exact finds_expandAlias hr (Nat.le_of_succ_le hd) hg (hexp.of_le (Nat.le_succ d))
            (hy.mono hg.later)
        · have hleast : ∀ y, ¬ HasSkeleton S base base (.shape d (.alias a)) y :=
            fun y hy => hless ⟨y, hy⟩
          have hnew : a ∉ expanding := fun ha => hexp a ha x hx.alias_of_alias
          have hexp' : Unsettled S base d (expanding ++ [a]) := by
            intro b hb
            rcases List.mem_append.mp hb with hb | hb
            · exact hexp.of_le (Nat.le_succ d) b hb
            · rw [List.mem_singleton.mp hb]
              exact hleast
          refine .imp (.remember hg fun _ => .get ?_) fun h g1 h1 hh =>
            hh g1 (d + 1) x (.refl g1) (hx.mono h1.later)
          rw [if_neg (by simpa using hnew)]
          have hr' : ∀ e ≤ d, r.Expands S base e :=
            fun e he => hr e (Nat.lt_of_le_of_lt he hd)
          refine .bind (finds_aliasValue hr' hg hnone hleast hx) fun v g1 h1 hv => ?_
          exact .imp (finds_resolveShape (hr' d (Nat.le_refl d)) hexp' h1.fits hv)
            fun h g2 h2 hh => Finding.fits_handle ((hx.mono h1.later).mono h2.later) hh

/-- **Aliases are expanded** that are nested less far than questions are followed. -/
theorem resolver_expands : ∀ {n d : Nat}, d < n → (resolver n).Expands S base d
  | _ + 1, _, hd => fun hg hexp hx =>
    finds_expandAlias (fun _ he => resolver_expands he) (Nat.le_of_lt_succ hd) hg hexp hx

/-! ## Delayed parsers and fields -/

section Questions

variable {n : Nat} (hn : S.depth < n)
include hn

theorem finds_delayedBody {body : Delayed} (hg : Fits S base g)
    (hx : HasSkeleton S base g (.delayed body) x) :
    Finds S base g (delayedBody (resolver n) body) fun p g' =>
      HasSkeleton S base g' (.parser p) x := by
  cases hx with
  | ofShape hx =>
    exact .bind (finds_parserFor (resolver_expands hn) hg hx) fun h g1 h1 hh => .pure h1.fits hh
  | ofExpression hx =>
    have hr : ∀ e ≤ S.depth, (resolver n).Expands S base e :=
      fun e he => resolver_expands (Nat.lt_of_le_of_lt he hn)
    refine .bind (finds_buildParser hr (Nat.le_refl _) hg hx) fun b g1 h1 hb => ?_
    obtain ⟨h, rfl, hh⟩ := hb
    exact .pure h1.fits hh
  | ofParser hx => exact .pure hg hx

/-- **A delayed parser that has a skeleton is opened.** -/
theorem finds_openBox {b : BoxId} (hg : Fits S base g)
    (hx : HasSkeleton S base g (.parser (.box b)) (.within x)) :
    Finds S base g (openBox (resolver n) b) fun p g' => HasSkeleton S base g' (.parser p) x := by
  refine .imp (.remember hg fun hunknown => .get ?_) fun p g1 h1 hp =>
    hp g1 x (.refl g1) (hx.mono h1.later)
  have hx' := hx
  cases hx with
  | boxFound hp =>
    have hknown : (Finding.box b).known? base = some _ := hp
    cases hunknown.symm.trans (hg.known hknown)
  | boxOpen _ _ hb hx =>
    rw [if_neg (Nat.not_le_of_lt hb)]
    refine .imp (finds_delayedBody hn hg hx) fun p g1 h1 hp g2 y hlater hy => ?_
    cases ((hx'.mono h1.later).mono hlater).unique hy
    exact hp.mono hlater

/-- **The fields of a class have parsers**, one each. -/
theorem finds_fieldParsers (owner : ClassRef) : ∀ {fs : List SchemaField} {g : Grammar}
    {x : Skeleton}, Fits S base g → HasSkeleton S base g (.fields fs) x →
    Finds S base g (fieldParsers (resolver n) owner fs) fun ps g' =>
      ps.length = fs.length ∧ HasSkeleton S base g' (.parsers ps) x
  | [], g, x, hg, hx => by
    cases hx with
    | noFields => exact .pure hg ⟨rfl, .noParts⟩
  | f :: fs, g, x, hg, hx => by
    cases hx with
    | field hx hxs =>
      refine .bind (.mapSchemaFault (finds_parserFor (resolver_expands hn) hg hx))
        fun h g1 h1 hh => ?_
      refine .bind (finds_fieldParsers owner h1.fits (hxs.mono h1.later)) fun ps g2 h2 hps => ?_
      exact .pure h2.fits ⟨congrArg Nat.succ hps.1, .parts (hh.mono h2.later) hps.2⟩

end Questions

end ShapeGrammar
