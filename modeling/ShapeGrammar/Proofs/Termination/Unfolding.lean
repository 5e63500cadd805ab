import ShapeGrammar.Proofs.Resolution.Extends
import ShapeGrammar.Proofs.Termination.Skeleton

/-!
# Skeletons of parsers

Which skeleton a parser has, or the shape, class or expression that it comes from. What a grammar
has found out counts as it was found; everything else is unfolded as it was declared: a delayed
parser to what it comes to, an alias to its value, a class to the attempts that planning its schema
gives. So a skeleton says in particular that all names on the way stand for something, that aliases
and delayed parsers are not nested without end, that every repetition is checked, and that the
constructors of the classes take as many arguments as there are fields.

The judgment is about a grammar `base`, in which nothing more is declared from then on, and the
delayed parsers of a later state `g` of it.

There is no rule for written parsers that plan a class while they are built: the one that is
compiled, and those that are generated or loaded. Planning may lead through them to the class
itself although no left call does, as `planned_letters_leftRecursive` shows. What they build has a
rule.

Headlines: `Grammar.Accepts`, `Subject`, `HasSkeleton`, `HasSkeleton.unique`, `HasSkeleton.mono`,
`HasSkeleton.ordered`.
-/

namespace ShapeGrammar

/-- The class can be constructed from so many arguments. -/
def Grammar.Accepts (g : Grammar) (target : ClassRef) (n : Nat) : Prop :=
  ∀ vs : List Value, vs.length = n → ∃ v, g.construct target vs = .ok v

/-! ## Plain expressions -/

mutual

/-- Whether a written shape builds no parser, so that to evaluate it is to look names up. -/
def ShapeExpr.isPlain : ShapeExpr → Bool
  | .list a => a.isPlain
  | .nonempty a => a.isPlain
  | .not a => a.isPlain
  | .box a => a.isPlain
  | .either a b => a.isPlain && b.isPlain
  | .tuple as => arePlain as
  | .union as => arePlain as
  | .mapping a b => a.isPlain && b.isPlain
  | .annotated a notes => a.isPlain && notesArePlain notes
  | .parser (.name _) => true
  | .parser _ => false
  | _ => true

/-- Whether no shape among these builds a parser. -/
def arePlain : List ShapeExpr → Bool
  | [] => true
  | a :: as => a.isPlain && arePlain as

/-- Whether no note among these builds a parser. -/
def notesArePlain : List NoteExpr → Bool
  | [] => true
  | .text _ :: ns => notesArePlain ns
  | .parser (.name _) :: ns => notesArePlain ns
  | .parser _ :: _ => false

end

/-- The written parsers among some notes. -/
def parsersNoted : List NoteExpr → List ParserExpr
  | [] => []
  | .text _ :: ns => parsersNoted ns
  | .parser p :: ns => p :: parsersNoted ns

/-- Whether notes can be put beside a shape, and are the first ones there. -/
def Shape.isBare : Shape → Bool
  | .annotated _ _ => false
  | .ellipsis => false
  | .constant _ => false
  | .foreign _ => false
  | _ => true

/-- The value of a plain shape in a grammar. -/
def Grammar.Means (g : Grammar) (e : ShapeExpr) (a : Shape) : Prop :=
  e.isPlain = true ∧ evaluateShape .exhausted false e g = .ok a g

/-- Whatever a written shape is evaluated to, a union may have it as a member of its own. -/
def Grammar.Member (g : Grammar) (e : ShapeExpr) : Prop :=
  ∀ {r : Resolver} {g' : Grammar} {a : Shape} {g'' : Grammar}, g.SameDeclarations g' →
    evaluateShape r false e g' = .ok a g'' → a.hasKey = true ∧ a.members = [a]

/-- Whatever a written shape is evaluated to has no notes yet, and may have some. -/
def Grammar.Unnoted (g : Grammar) (e : ShapeExpr) : Prop :=
  ∀ {r : Resolver} {g' : Grammar} {a : Shape} {g'' : Grammar}, g.SameDeclarations g' →
    evaluateShape r false e g' = .ok a g'' → a.isBare = true

/-! ## The judgment -/

/-- What a skeleton is ascribed to. `depth` bounds how aliases are nested. -/
inductive Subject
  | parser (p : Parser)
  | parsers (ps : List Parser)
  | attempts (ts : List (Attempt Parser))
  | plan (c : ClassId)
  | fields (fs : List SchemaField)
  | variants (vs : List Variant)
  | delayed (d : Delayed)
  | shape (depth : Nat) (a : Shape)
  | shapes (depth : Nat) (as : List Shape)
  | shapeExpr (depth : Nat) (e : ShapeExpr)
  | shapeExprs (depth : Nat) (es : List ShapeExpr)
  | parserExpr (depth : Nat) (e : ParserExpr)
  | parserExprs (depth : Nat) (es : List ParserExpr)

/-- What has which skeleton. -/
inductive HasSkeleton (S : Skeletons) (base : Grammar) : Grammar → Subject → Skeleton → Prop
  -- parsers
  | element {g v} : HasSkeleton S base g (.parser (.element v)) .leaf
  | any {g} : HasSkeleton S base g (.parser .any) .leaf
  | satisfy {g test description} : HasSkeleton S base g (.parser (.satisfy test description)) .leaf
  | misser {g accepts} : HasSkeleton S base g (.parser (.misser accepts)) .leaf
  | seq {g ps x} : HasSkeleton S base g (.parsers ps) x →
      HasSkeleton S base g (.parser (.seq ps)) (.row x)
  | opt {g p x} : HasSkeleton S base g (.parser p) x →
      HasSkeleton S base g (.parser (.opt p)) (.optional x)
  | many {g p x} : HasSkeleton S base g (.parser p) x →
      HasSkeleton S base g (.parser (.many true p)) (.optional x)
  | many1 {g p x} : HasSkeleton S base g (.parser p) x →
      HasSkeleton S base g (.parser (.many1 true p)) (.within x)
  | either {g p q x y} : HasSkeleton S base g (.parser p) x → HasSkeleton S base g (.parser q) y →
      HasSkeleton S base g (.parser (.either p q)) (.choice x y)
  | not {g p x} : HasSkeleton S base g (.parser p) x →
      HasSkeleton S base g (.parser (.not p)) (.optional x)
  | map {g change p x} : (∀ v f, change v = .error f → S.raises f) →
      HasSkeleton S base g (.parser p) x →
      HasSkeleton S base g (.parser (.map change p)) (.within x)
  | recorded {g name p x} : HasSkeleton S base g (.parser p) x →
      HasSkeleton S base g (.parser (.recorded name p)) (.within x)
  | derived {g c} : (S.ofClass c).isSome → HasSkeleton S base g (.parser (.derived c)) (.cls c)
  | planned {g plan x} : (plan.errorKind = none → S.Nullable x) →
      HasSkeleton S base g (.attempts plan.attempts) x →
      HasSkeleton S base g (.parser (.planned plan)) (.within x)
  | generated {g plan x} : (plan.errorKind = none → S.Nullable x) →
      HasSkeleton S base g (.attempts plan.attempts) x →
      HasSkeleton S base g (.parser (.generated plan plan.code)) (.within x)
  | boxFound {g b p x} : (base.boxInfo b).parser = some p →
      ((base.boxInfo b).errorKind = some none → S.Nullable x) →
      HasSkeleton S base g (.parser p) x → HasSkeleton S base g (.parser (.box b)) (.within x)
  | boxOpen {g b x} : (base.boxInfo b).parser = none →
      ((base.boxInfo b).errorKind = some none → S.Nullable x) → b < g.boxes.size →
      HasSkeleton S base g (.delayed (g.boxInfo b).body) x →
      HasSkeleton S base g (.parser (.box b)) (.within x)
  | noParts {g} : HasSkeleton S base g (.parsers []) .nil
  | parts {g p ps x y} : HasSkeleton S base g (.parser p) x → HasSkeleton S base g (.parsers ps) y →
      HasSkeleton S base g (.parsers (p :: ps)) (.cons x y)
  -- plans
  | lastAttempt {g t x} : t.snapshot = false → base.Accepts t.target t.parsers.length →
      HasSkeleton S base g (.parsers t.parsers) x → HasSkeleton S base g (.attempts [t]) x
  | nextAttempt {g t u ts x y} : t.isUnit = false → t.snapshot = true →
      base.Accepts t.target t.parsers.length → HasSkeleton S base g (.parsers t.parsers) x →
      HasSkeleton S base g (.attempts (u :: ts)) y →
      HasSkeleton S base g (.attempts (t :: u :: ts)) (.choice x y)
  | planFound {g c plan x} : c < base.classes.size → (base.classInfo c).plan = some plan →
      (plan.errorKind = none → S.Nullable x) →
      HasSkeleton S base g (.attempts plan.attempts) x → HasSkeleton S base g (.plan c) x
  | product {g c target fs x} : c < base.classes.size → (base.classInfo c).plan = none →
      base.schemaOf (.declared c) = .ok (.product target fs) → base.Accepts target fs.length →
      HasSkeleton S base g (.fields fs) x → HasSkeleton S base g (.plan c) x
  | sum {g c target vs x} : c < base.classes.size → (base.classInfo c).plan = none →
      base.schemaOf (.declared c) = .ok (.sum target vs) →
      HasSkeleton S base g (.variants (reachable vs).1) x → HasSkeleton S base g (.plan c) x
  | noFields {g} : HasSkeleton S base g (.fields []) .nil
  | field {g f fs x y} : HasSkeleton S base g (.shape S.depth f.shape) x →
      HasSkeleton S base g (.fields fs) y → HasSkeleton S base g (.fields (f :: fs)) (.cons x y)
  | lastVariant {g v x} : base.Accepts v.target v.fields.length →
      HasSkeleton S base g (.fields v.fields) x → HasSkeleton S base g (.variants [v]) x
  | nextVariant {g v w vs x y} : base.Accepts v.target v.fields.length →
      HasSkeleton S base g (.fields v.fields) x → HasSkeleton S base g (.variants (w :: vs)) y →
      HasSkeleton S base g (.variants (v :: w :: vs)) (.choice x y)
  -- delayed parsers
  | ofShape {g a x} : HasSkeleton S base g (.shape S.depth a) x →
      HasSkeleton S base g (.delayed (.shape a)) x
  | ofExpression {g e x} : HasSkeleton S base g (.parserExpr S.depth e) x →
      HasSkeleton S base g (.delayed (.expression e)) x
  | ofParser {g p x} : HasSkeleton S base g (.parser p) x →
      HasSkeleton S base g (.delayed (.known p)) x
  -- shapes
  | declaredClass {g d c} : (base.classInfo c).derivedAt.isSome → (S.ofClass c).isSome →
      HasSkeleton S base g (.shape d (.cls (.declared c))) (.cls c)
  | characterClass {g d c} : HasSkeleton S base g (.shape d (.cls (.character c))) (.within .leaf)
  | text {g d} : HasSkeleton S base g (.shape d (.cls (.builtin .text))) .leaf
  | parserShape {g d h x} : HasSkeleton S base g (.parser h.body) x →
      HasSkeleton S base g (.shape d (.parser h)) x
  | aliasFound {g d a h x} : (base.aliasInfo a).parser = some h →
      HasSkeleton S base base (.parser h.body) x → HasSkeleton S base g (.shape d (.alias a)) x
  | aliasKnown {g d a v x} : (base.aliasInfo a).parser = none → (base.aliasInfo a).value = some v →
      HasSkeleton S base base (.shape d v) x → HasSkeleton S base g (.shape (d + 1) (.alias a)) x
  | aliasOpen {g d a x} : (base.aliasInfo a).parser = none → (base.aliasInfo a).value = none →
      HasSkeleton S base base (.shapeExpr d (base.aliasInfo a).expression) x →
      HasSkeleton S base g (.shape (d + 1) (.alias a)) x
  | noted {g d a notes h x} : Shape.notedParser? notes = some h →
      HasSkeleton S base g (.parser h.body) x →
        HasSkeleton S base g (.shape d (.annotated a notes)) x
  | unnoted {g d a notes x} : Shape.notedParser? notes = none →
      HasSkeleton S base g (.shape d a) x → HasSkeleton S base g (.shape d (.annotated a notes)) x
  | tuple {g d as x} : openEnded as = false → HasSkeleton S base g (.shapes d as) x →
      HasSkeleton S base g (.shape d (.tuple as)) (.row x)
  | list {g d a x} : HasSkeleton S base g (.shape d a) x →
      HasSkeleton S base g (.shape d (.list a)) (.optional x)
  | nonempty {g d a x} : HasSkeleton S base g (.shape d a) x →
      HasSkeleton S base g (.shape d (.nonempty a)) (.within x)
  | optionalRight {g d a b x} : a.isNothing = true → HasSkeleton S base g (.shape d b) x →
      HasSkeleton S base g (.shape d (.union [a, b])) (.optional x)
  | optionalLeft {g d a b x} : a.isNothing = false → b.isNothing = true →
      HasSkeleton S base g (.shape d a) x →
      HasSkeleton S base g (.shape d (.union [a, b])) (.optional x)
  | eitherShape {g d a b x y} : HasSkeleton S base g (.shape d a) x →
      HasSkeleton S base g (.shape d b) y →
      HasSkeleton S base g (.shape d (.either a b)) (.choice x y)
  | notShape {g d a x} : HasSkeleton S base g (.shape d a) x →
      HasSkeleton S base g (.shape d (.not a)) (.optional x)
  | boxShape {g d a x} : HasSkeleton S base g (.shape S.depth a) x →
      HasSkeleton S base g (.shape d (.box a)) (.within x)
  | noShapes {g d} : HasSkeleton S base g (.shapes d []) .nil
  | shapes {g d a as x y} : HasSkeleton S base g (.shape d a) x →
      HasSkeleton S base g (.shapes d as) y → HasSkeleton S base g (.shapes d (a :: as)) (.cons x y)
  -- written shapes
  | plainExpr {g d e a x} : base.Means e a → HasSkeleton S base g (.shape d a) x →
      HasSkeleton S base g (.shapeExpr d e) x
  | listExpr {g d e x} : e.isPlain = false → HasSkeleton S base g (.shapeExpr d e) x →
      HasSkeleton S base g (.shapeExpr d (.list e)) (.optional x)
  | nonemptyExpr {g d e x} : e.isPlain = false → HasSkeleton S base g (.shapeExpr d e) x →
      HasSkeleton S base g (.shapeExpr d (.nonempty e)) (.within x)
  | notExpr {g d e x} : e.isPlain = false → HasSkeleton S base g (.shapeExpr d e) x →
      HasSkeleton S base g (.shapeExpr d (.not e)) (.optional x)
  | boxExpr {g d e x} : e.isPlain = false → HasSkeleton S base g (.shapeExpr (min d S.depth) e) x →
      HasSkeleton S base g (.shapeExpr d (.box e)) (.within x)
  | eitherExpr {g d e f x y} : (e.isPlain && f.isPlain) = false →
      HasSkeleton S base g (.shapeExpr d e) x → HasSkeleton S base g (.shapeExpr d f) y →
      HasSkeleton S base g (.shapeExpr d (.either e f)) (.choice x y)
  | tupleExpr {g d es x} : arePlain es = false → HasSkeleton S base g (.shapeExprs d es) x →
      HasSkeleton S base g (.shapeExpr d (.tuple es)) (.row x)
  | parserIn {g d e x} : (ShapeExpr.parser e).isPlain = false →
      HasSkeleton S base g (.parserExpr d e) x → HasSkeleton S base g (.shapeExpr d (.parser e)) x
  | nothingOr {g d e x} : e.isPlain = false → base.Member e →
      HasSkeleton S base g (.shapeExpr d e) x →
      HasSkeleton S base g (.shapeExpr d (.union [.nothing, e])) (.optional x)
  | orNothing {g d e x} : e.isPlain = false → base.Member e →
      HasSkeleton S base g (.shapeExpr d e) x →
      HasSkeleton S base g (.shapeExpr d (.union [e, .nothing])) (.optional x)
  | textNoted {g d e notes x} : e.isPlain = false → base.Unnoted e → notes ≠ [] →
      parsersNoted notes = [] → HasSkeleton S base g (.shapeExpr d e) x →
      HasSkeleton S base g (.shapeExpr d (.annotated e notes)) x
  | notedExpr {g d e a notes p x} : (ShapeExpr.annotated e notes).isPlain = false →
      base.Means e a → a.isBare = true → parsersNoted notes = [p] →
      HasSkeleton S base g (.parserExpr d p) x →
      HasSkeleton S base g (.shapeExpr d (.annotated e notes)) x
  | noShapeExprs {g d} : HasSkeleton S base g (.shapeExprs d []) .nil
  | shapeExprs {g d e es x y} : HasSkeleton S base g (.shapeExpr d e) x →
      HasSkeleton S base g (.shapeExprs d es) y →
      HasSkeleton S base g (.shapeExprs d (e :: es)) (.cons x y)
  -- written parsers
  | elementExpr {g d v} : HasSkeleton S base g (.parserExpr d (.element v)) .leaf
  | anyExpr {g d} : HasSkeleton S base g (.parserExpr d .any) .leaf
  | satisfyExpr {g d test description} :
      HasSkeleton S base g (.parserExpr d (.satisfy test description)) .leaf
  | misserExpr {g d accepted} : HasSkeleton S base g (.parserExpr d (.misser accepted)) .leaf
  | seqExpr {g d es x} : HasSkeleton S base g (.parserExprs d es) x →
      HasSkeleton S base g (.parserExpr d (.seq es)) (.row x)
  | optExpr {g d e x} : HasSkeleton S base g (.parserExpr d e) x →
      HasSkeleton S base g (.parserExpr d (.opt e)) (.optional x)
  | manyExpr {g d e x} : HasSkeleton S base g (.parserExpr d e) x →
      HasSkeleton S base g (.parserExpr d (.many true e)) (.optional x)
  | many1Expr {g d e x} : HasSkeleton S base g (.parserExpr d e) x →
      HasSkeleton S base g (.parserExpr d (.many1 true e)) (.within x)
  | eitherParsers {g d e f x y} : HasSkeleton S base g (.parserExpr d e) x →
      HasSkeleton S base g (.parserExpr d f) y →
      HasSkeleton S base g (.parserExpr d (.either e f)) (.choice x y)
  | choiceExpr {g d e f x y} : HasSkeleton S base g (.parserExpr d e) x →
      HasSkeleton S base g (.parserExpr d f) y →
      HasSkeleton S base g (.parserExpr d (.choice e f)) (.choice x y)
  | notParser {g d e x} : HasSkeleton S base g (.parserExpr d e) x →
      HasSkeleton S base g (.parserExpr d (.not e)) (.optional x)
  | boxParser {g d e x} : HasSkeleton S base g (.parserExpr d e) x →
      HasSkeleton S base g (.parserExpr d (.box e)) (.within x)
  | delayedExpr {g d e x} : HasSkeleton S base g (.parserExpr S.depth e) x →
      HasSkeleton S base g (.parserExpr d (.delayed e)) (.within x)
  | mapExpr {g d change e x} : (∀ v f, Transform.apply change v = .error f → S.raises f) →
      HasSkeleton S base g (.parserExpr d e) x →
      HasSkeleton S base g (.parserExpr d (.map change e)) (.within x)
  | sumExpr {g d e f x y} : HasSkeleton S base g (.parserExpr d e) x →
      HasSkeleton S base g (.parserExpr d f) y →
      HasSkeleton S base g (.parserExpr d (.sum e f)) (x.followedBy y)
  | nameExpr {g d path h x} : base.lookup path = .ok (.parser h) →
      HasSkeleton S base g (.parser h.body) x → HasSkeleton S base g (.parserExpr d (.name path)) x
  | shapeOf {g d e x} : HasSkeleton S base g (.shapeExpr d e) x →
      HasSkeleton S base g (.parserExpr d (.shape e)) x
  | recordedExpr {g d name e x} : HasSkeleton S base g (.parserExpr d e) x →
      HasSkeleton S base g (.parserExpr d (.recorded name e)) (.within x)
  | noParserExprs {g d} : HasSkeleton S base g (.parserExprs d []) .nil
  | parserExprs {g d e es x y} : HasSkeleton S base g (.parserExpr d e) x →
      HasSkeleton S base g (.parserExprs d es) y →
      HasSkeleton S base g (.parserExprs d (e :: es)) (.cons x y)

/-! ## Later states and deeper nesting -/

/-- The same with aliases nested further. -/
def Subject.deepen (k : Nat) : Subject → Subject
  | .shape d a => .shape (d + k) a
  | .shapes d as => .shapes (d + k) as
  | .shapeExpr d e => .shapeExpr (d + k) e
  | .shapeExprs d es => .shapeExprs (d + k) es
  | .parserExpr d e => .parserExpr (d + k) e
  | .parserExprs d es => .parserExprs (d + k) es
  | i => i

namespace HasSkeleton

variable {S : Skeletons} {base g g' : Grammar} {i : Subject} {x y : Skeleton}

/-- A skeleton stays the same when more delayed parsers come into being. -/
theorem mono (h : g.Extends g') (hx : HasSkeleton S base g i x) : HasSkeleton S base g' i x := by
  induction hx with
  | boxOpen unknown hkind hb _ ih =>
    exact .boxOpen unknown hkind (Nat.lt_of_lt_of_le hb h.boxCount) (h.body hb ▸ ih h)
  | noted hn _ ih => exact .noted hn (ih h)
  | unnoted hn _ ih => exact .unnoted hn (ih h)
  | aliasFound hh hx _ => exact .aliasFound hh hx
  | aliasKnown hh hv hx _ => exact .aliasKnown hh hv hx
  | aliasOpen hh hv hx _ => exact .aliasOpen hh hv hx
  | optionalRight ha _ ih => exact .optionalRight ha (ih h)
  | optionalLeft ha hb _ ih => exact .optionalLeft ha hb (ih h)
  | boxFound hp hkind _ ih => exact .boxFound hp hkind (ih h)
  | planFound hc hp hkind _ ih => exact .planFound hc hp hkind (ih h)
  | product hc hp hs ha _ ih => exact .product hc hp hs ha (ih h)
  | sum hc hp hs _ ih => exact .sum hc hp hs (ih h)
  | plainExpr he _ ih => exact .plainExpr he (ih h)
  | listExpr he _ ih => exact .listExpr he (ih h)
  | nonemptyExpr he _ ih => exact .nonemptyExpr he (ih h)
  | notExpr he _ ih => exact .notExpr he (ih h)
  | boxExpr he _ ih => exact .boxExpr he (ih h)
  | eitherExpr he _ _ ih ih' => exact .eitherExpr he (ih h) (ih' h)
  | tupleExpr he _ ih => exact .tupleExpr he (ih h)
  | parserIn he _ ih => exact .parserIn he (ih h)
  | nothingOr he hm _ ih => exact .nothingOr he hm (ih h)
  | orNothing he hm _ ih => exact .orNothing he hm (ih h)
  | textNoted he hu hn ht _ ih => exact .textNoted he hu hn ht (ih h)
  | notedExpr hn he ha hp _ ih => exact .notedExpr hn he ha hp (ih h)
  | nextAttempt hu hs ha _ _ ih ih' => exact .nextAttempt hu hs ha (ih h) (ih' h)
  | lastAttempt hs ha _ ih => exact .lastAttempt hs ha (ih h)
  | _ => constructor <;> first | assumption | solve_by_elim

/-- A skeleton stays the same where aliases may be nested further. -/
theorem deepen (k : Nat) (hx : HasSkeleton S base g i x) :
    HasSkeleton S base g (i.deepen k) x := by
  induction hx generalizing k with
  | aliasKnown hh hv _ ih =>
    show HasSkeleton S base _ (.shape (_ + 1 + k) _) _
    rw [Nat.add_right_comm]
    exact .aliasKnown hh hv (ih k)
  | aliasOpen hh hv _ ih =>
    show HasSkeleton S base _ (.shape (_ + 1 + k) _) _
    rw [Nat.add_right_comm]
    exact .aliasOpen hh hv (ih k)
  | noted hn _ ih => exact .noted hn (ih k)
  | unnoted hn _ ih => exact .unnoted hn (ih k)
  | aliasFound hh _ ih => exact .aliasFound hh (ih k)
  | optionalRight ha _ ih => exact .optionalRight ha (ih k)
  | optionalLeft ha hb _ ih => exact .optionalLeft ha hb (ih k)
  | boxFound hp hkind _ ih => exact .boxFound hp hkind (ih k)
  | boxOpen hp hkind hb _ ih => exact .boxOpen hp hkind hb (ih k)
  | planFound hc hp hkind _ ih => exact .planFound hc hp hkind (ih k)
  | product hc hp hs ha _ ih => exact .product hc hp hs ha (ih k)
  | sum hc hp hs _ ih => exact .sum hc hp hs (ih k)
  | field h _ _ ih => exact .field h (ih k)
  | ofShape h _ => exact .ofShape h
  | ofExpression h _ => exact .ofExpression h
  | boxShape h _ => exact .boxShape h
  | delayedExpr h _ => exact .delayedExpr h
  | plainExpr he _ ih => exact .plainExpr he (ih k)
  | listExpr he _ ih => exact .listExpr he (ih k)
  | nonemptyExpr he _ ih => exact .nonemptyExpr he (ih k)
  | notExpr he _ ih => exact .notExpr he (ih k)
  | @boxExpr _ d e x he _ ih =>
    obtain ⟨l, hl⟩ : ∃ l, min (d + k) S.depth = min d S.depth + l :=
      Nat.exists_eq_add_of_le (by omega)
    exact .boxExpr he (hl ▸ ih l)
  | eitherExpr he _ _ ih ih' => exact .eitherExpr he (ih k) (ih' k)
  | tupleExpr he _ ih => exact .tupleExpr he (ih k)
  | parserIn he _ ih => exact .parserIn he (ih k)
  | nothingOr he hm _ ih => exact .nothingOr he hm (ih k)
  | orNothing he hm _ ih => exact .orNothing he hm (ih k)
  | textNoted he hu hn ht _ ih => exact .textNoted he hu hn ht (ih k)
  | notedExpr hn he ha hp _ ih => exact .notedExpr hn he ha hp (ih k)
  | nextAttempt hu hs ha _ _ ih ih' => exact .nextAttempt hu hs ha (ih k) (ih' k)
  | lastAttempt hs ha _ ih => exact .lastAttempt hs ha (ih k)
  | sumExpr _ _ ih ih' => exact .sumExpr (ih k) (ih' k)
  | _ => constructor <;> first | assumption | solve_by_elim

theorem shape_le {d e : Nat} (hde : d ≤ e) {a : Shape} (h : HasSkeleton S base g (.shape d a) x) :
    HasSkeleton S base g (.shape e a) x := by
  obtain ⟨k, rfl⟩ := Nat.exists_eq_add_of_le hde
  exact h.deepen k

/-- **There is one skeleton at most.** -/
theorem unique (hx : HasSkeleton S base g i x) (hy : HasSkeleton S base g i y) : x = y := by
  induction hx generalizing y with
  | sumExpr _ _ ih ih' =>
    cases hy with
    | sumExpr h h' => rw [ih h, ih' h']
  | _ => cases hy <;> grind [Grammar.Means, ShapeExpr.isPlain, arePlain]

/-- Attempts that have a skeleton are made in order. -/
theorem ordered : ∀ {ts : List (Attempt Parser)} {x : Skeleton},
    HasSkeleton S base g (.attempts ts) x → OrderedAttempts ts
  | [_], _, .lastAttempt hsnap _ _ => hsnap
  | _ :: _ :: _, _, .nextAttempt hunit hsnap _ _ hrest => ⟨hunit, hsnap, ordered hrest⟩

end HasSkeleton

end ShapeGrammar
