import ShapeGrammar.Proofs.Peg.Leads

/-!
# What looking things up stops at

Only a repetition that is run refuses a match for consuming nothing, and only what is found out
under a mark is refused for depending on itself. Nothing that is looked up in a grammar, evaluated,
constructed or described stops for one of these reasons, whatever else may be wrong.

Headlines: `Fault.Plain`, `StopsAt`, `Grammar.schemaOf_stopsAt`, `Grammar.describe_stopsAt`.
-/

namespace ShapeGrammar

/-- A fault that has nothing to do with repetitions. -/
def Fault.Ordinary : Fault → Prop
  | .zeroWidth _ _ => False
  | _ => True

/-- A stop that no repetition has decided on. -/
def Stop.Ordinary : Stop → Prop
  | .fault f => f.Ordinary
  | .outOfFuel => True

/-- Something depends on itself, as the fault says of it or of a field. -/
def SchemaFault.LeftRecursive : SchemaFault → Prop
  | .leftRecursive _ _ _ => True
  | .leftRecursiveBox => True
  | .inField _ _ _ cause => cause.LeftRecursive
  | _ => False

/-- What stops is that something depends on itself. -/
def Fault.LeftRecursive : Fault → Prop
  | .schema cause => cause.LeftRecursive
  | _ => False

/-- A fault of neither kind: what can be wrong with a single thing that is looked up. -/
def Fault.Plain : Fault → Prop
  | .zeroWidth _ _ => False
  | .schema (.leftRecursive _ _ _) => False
  | .schema .leftRecursiveBox => False
  | .schema (.inField _ _ _ _) => False
  | _ => True

theorem Fault.Plain.ordinary {f : Fault} (h : f.Plain) : f.Ordinary := by
  cases f with
  | zeroWidth _ _ => exact h
  | _ => trivial

theorem Fault.Plain.not_leftRecursive {f : Fault} (h : f.Plain) : ¬ f.LeftRecursive := by
  cases f with
  | schema cause =>
    cases cause with
    | leftRecursive _ _ _ => exact fun _ => h
    | leftRecursiveBox => exact fun _ => h
    | inField _ _ _ _ => exact fun _ => h
    | _ => exact id
  | _ => exact id

/-- A stop at a fault of neither kind, or for lack of fuel. -/
def Stop.Plain : Stop → Prop
  | .fault f => f.Plain
  | .outOfFuel => True

theorem Stop.Plain.ordinary {e : Stop} (h : e.Plain) : e.Ordinary := by
  cases e with
  | fault f => exact Fault.Plain.ordinary h
  | outOfFuel => trivial

/-- If something stops, it is at what has a property. -/
def StopsAt {ε α : Type} (P : ε → Prop) (x : Except ε α) : Prop :=
  ∀ e, x = .error e → P e

section StopsAt

variable {ε α β : Type} {P : ε → Prop}

theorem stopsAt_ok (a : α) : StopsAt P (.ok a) :=
  fun _ h => by cases h

theorem stopsAt_error {e : ε} (he : P e) : StopsAt P (.error e : Except ε α) :=
  fun _ h => by cases h; exact he

theorem StopsAt.bind {x : Except ε α} {f : α → Except ε β} (hx : StopsAt P x)
    (hf : ∀ a, StopsAt P (f a)) : StopsAt P (x >>= f) := by
  cases x with
  | ok a => exact hf a
  | error e => exact stopsAt_error (hx _ rfl)

theorem StopsAt.mono {Q : ε → Prop} {x : Except ε α} (hx : StopsAt P x) (h : ∀ {e}, P e → Q e) :
    StopsAt Q x :=
  fun e he => h (hx e he)

theorem StopsAt.map {x : Except ε α} (hx : StopsAt P x) (f : α → β) : StopsAt P (f <$> x) := by
  cases x with
  | ok a => exact stopsAt_ok (f a)
  | error e => exact stopsAt_error (hx _ rfl)

theorem stopsAt_foldlM {f : β → α → Except ε β} (hf : ∀ b a, StopsAt P (f b a)) :
    ∀ (as : List α) (b : β), StopsAt P (as.foldlM f b)
  | [], b => stopsAt_ok b
  | a :: as, b => (hf b a).bind fun b => stopsAt_foldlM hf as b

theorem stopsAt_mapM {f : α → Except ε β} (hf : ∀ a, StopsAt P (f a)) (as : List α) :
    StopsAt P (as.mapM f) := by
  induction as with
  | nil => exact stopsAt_ok []
  | cons a as ih =>
    rw [List.mapM_cons]
    exact (hf a).bind fun b => ih.bind fun bs => stopsAt_ok (b :: bs)

end StopsAt

/-! ## Shapes -/

theorem Shape.unionOf_stopsAt (as : List Shape) : StopsAt Fault.Plain (unionOf as) := by
  unfold unionOf
  dsimp only
  split
  · exact stopsAt_error trivial
  · split
    · exact stopsAt_error trivial
    · exact stopsAt_ok _
    · exact stopsAt_ok _

theorem Shape.annotatedOf_stopsAt (a : Shape) (notes : List Shape) :
    StopsAt Fault.Plain (annotatedOf a notes) := by
  unfold annotatedOf
  split
  · exact stopsAt_ok _
  · exact stopsAt_error trivial
  · exact stopsAt_error trivial
  · exact stopsAt_error trivial
  · exact stopsAt_ok _

section Evaluation

variable {lookup : Path → Except Fault Shape}
  (hlookup : ∀ path, StopsAt Fault.Plain (lookup path))
include hlookup

-- the two halves of a mutual block use different ones of the shared assumptions
set_option linter.unusedSectionVars false

mutual

theorem Shape.evaluate_stopsAt : ∀ a : Shape, StopsAt Fault.Plain (a.evaluate lookup)
  | .forward path => (hlookup path).map _
  | .list a => (evaluate_stopsAt a).map _
  | .nonempty a => (evaluate_stopsAt a).map _
  | .not a => (evaluate_stopsAt a).map _
  | .box a => (evaluate_stopsAt a).map _
  | .either a b =>
    (evaluate_stopsAt a).bind fun _ => (evaluate_stopsAt b).bind fun _ => stopsAt_ok _
  | .tuple as => (evaluateAll_stopsAt as).map _
  | .union as => (evaluateAll_stopsAt as).bind fun _ => unionOf_stopsAt _
  | .mapping a b =>
    (evaluate_stopsAt a).bind fun _ => (evaluate_stopsAt b).bind fun _ => stopsAt_ok _
  | .annotated a notes => (evaluate_stopsAt a).bind fun _ => annotatedOf_stopsAt _ notes
  | .shared a => (evaluate_stopsAt a).map _
  | .parser _ => stopsAt_ok _
  | .cls _ => stopsAt_ok _
  | .alias _ => stopsAt_ok _
  | .nothing => stopsAt_ok _
  | .ellipsis => stopsAt_ok _
  | .constant _ => stopsAt_ok _
  | .foreign _ => stopsAt_ok _
  | .parameterOnly _ => stopsAt_ok _

theorem Shape.evaluateAll_stopsAt :
    ∀ as : List Shape, StopsAt Fault.Plain (Shape.evaluateAll lookup as)
  | [] => stopsAt_ok _
  | a :: as =>
    (evaluate_stopsAt a).bind fun _ => (evaluateAll_stopsAt as).bind fun _ => stopsAt_ok _

end

end Evaluation

/-! ## Names and classes -/

theorem Binding.join_stopsAt (a b : Binding) : StopsAt Fault.Plain (a.join b) := by
  unfold join
  split
  · split
    · exact stopsAt_error trivial
    · exact stopsAt_ok _
    · exact stopsAt_ok _
  · exact stopsAt_error trivial

theorem characterClass_stopsAt (v : Value) : StopsAt Fault.Plain (characterClass v) := by
  unfold characterClass
  split
  · split
    · exact stopsAt_ok _
    · exact stopsAt_error trivial
  · exact stopsAt_error trivial
  · exact stopsAt_error trivial

/-! ## Texts of factories -/

theorem functionIn_stopsAt (functions : Table Code) (name : String) :
    StopsAt Fault.Plain (functionIn functions name) := by
  unfold functionIn
  split
  · exact stopsAt_ok _
  · exact stopsAt_error trivial

theorem Listed.ofLine_stopsAt (functions : Table Code) (line : Line) :
    StopsAt Fault.Plain (Listed.ofLine functions line) := by
  unfold Listed.ofLine
  split
  · exact (functionIn_stopsAt functions _).bind fun _ => stopsAt_ok _
  · exact stopsAt_error trivial

namespace Library

theorem define_stopsAt (l : Library) (name : String) (code : Option Code) :
    StopsAt Fault.Plain (l.define name code) := by
  cases code with
  | none => exact stopsAt_error trivial
  | some code => exact stopsAt_ok _

theorem close_stopsAt (l : Library) : StopsAt Fault.Plain l.close := by
  unfold close
  split
  · exact stopsAt_ok _
  · exact stopsAt_error trivial

theorem step_stopsAt (l : Library) (b : Block) : StopsAt Fault.Plain (l.step b) := by
  unfold step
  split
  · exact l.define_stopsAt _ _
  · exact (stopsAt_mapM (Listed.ofLine_stopsAt l.functions) _).bind fun _ => stopsAt_ok _
  · exact l.close_stopsAt
  · exact stopsAt_ok _

theorem ofText_stopsAt (failures : Bool) (text : String) :
    StopsAt Fault.Plain (Library.ofText failures text) := by
  unfold ofText
  split
  · exact stopsAt_error trivial
  · split
    · exact stopsAt_foldlM step_stopsAt _ _
    · exact stopsAt_error trivial

end Library

theorem factoriesIn_stopsAt (text : String) : StopsAt Fault.Plain (factoriesIn text) := by
  unfold factoriesIn
  refine (Library.ofText_stopsAt false _).bind fun library => ?_
  split
  · exact stopsAt_ok _
  · exact stopsAt_error trivial
  · exact stopsAt_ok _

theorem unpackInto_stopsAt {α : Type} : ∀ (names : List String) (vs : List α),
    StopsAt Fault.Plain (unpackInto names vs)
  | [], [] => stopsAt_ok _
  | _ :: ns, _ :: vs => (unpackInto_stopsAt ns vs).bind fun _ => stopsAt_ok _
  | [], _ :: _ => stopsAt_error trivial
  | _ :: _, [] => stopsAt_error trivial

theorem attemptIn_stopsAt (items : Table Item) (name : String) :
    StopsAt Fault.Plain (attemptIn items name) := by
  unfold attemptIn
  split
  · exact stopsAt_ok _
  · exact stopsAt_error trivial
  · exact stopsAt_error trivial

namespace Code

theorem ofText_stopsAt (name text : String) : StopsAt Fault.Plain (Code.ofText name text) :=
  (Library.ofText_stopsAt true text).bind fun _ => functionIn_stopsAt _ name

theorem run_stopsAt (targets : List ClassRef) (parsers : List (List Parser)) :
    ∀ (items : Table Item) (code : Code), StopsAt Fault.Plain (run targets parsers items code)
  | _, [] => stopsAt_error trivial
  | items, .targets names :: rest =>
    (unpackInto_stopsAt names _).bind fun row => run_stopsAt targets parsers (items.putAll row) rest
  | items, .parsers _ names :: rest =>
    (unpackInto_stopsAt names _).bind fun row => run_stopsAt targets parsers (items.putAll row) rest
  | items, .procedure p :: rest => run_stopsAt targets parsers (items.put p.name (.attempt p)) rest
  | items, .returnEntries total fallible :: _ =>
    (attemptIn_stopsAt items total).bind fun _ =>
      (attemptIn_stopsAt items fallible).bind fun _ => stopsAt_ok _
  | _, .returnNothing :: _ => stopsAt_error trivial

theorem bind_stopsAt (code : Code) (plan : Plan Parser) : StopsAt Fault.Plain (code.bind plan) :=
  run_stopsAt _ _ [] code

end Code

namespace Grammar

variable (g : Grammar)

theorem members?_stopsAt : ∀ (b : Binding) (names : List String),
    StopsAt Fault.Plain (g.members? b names)
  | b, [] => by
    unfold members?
    exact stopsAt_ok b
  | .cls c, name :: rest => by
    unfold members?
    split
    · exact members?_stopsAt _ rest
    · exact stopsAt_error trivial
  | .parser _, _ :: _ => stopsAt_error trivial
  | .alias _, _ :: _ => stopsAt_error trivial
  | .union _, _ :: _ => stopsAt_error trivial
  | .constant _, _ :: _ => stopsAt_error trivial
  | .ellipsis, _ :: _ => stopsAt_error trivial
  | .foreign _, _ :: _ => stopsAt_error trivial

theorem lookup_stopsAt (path : Path) : StopsAt Fault.Plain (g.lookup path) := by
  unfold lookup
  split
  · exact g.members?_stopsAt _ _
  · exact stopsAt_error trivial

theorem lookupInside_stopsAt (c : ClassId) (path : Path) :
    StopsAt Fault.Plain (g.lookupInside c path) := by
  unfold lookupInside
  dsimp only
  split
  · exact g.members?_stopsAt _ _
  · exact stopsAt_error trivial

theorem follow_stopsAt (c : ClassId) : ∀ (n : Nat) (met : List Path) (path : Path),
    StopsAt Fault.Plain (g.follow c n met path)
  | 0, _, _ => stopsAt_ok _
  | n + 1, met, path => by
    unfold follow
    split
    · exact stopsAt_ok _
    · refine (g.lookupInside_stopsAt c path).bind fun b => ?_
      split
      · exact follow_stopsAt c n _ _
      · exact stopsAt_ok _

theorem ownShapes_stopsAt (found : Table Shape) (c : ClassId) :
    StopsAt Fault.Plain (g.ownShapes found c) :=
  stopsAt_foldlM (fun _ _ =>
    (Shape.evaluate_stopsAt (g.follow_stopsAt c _ []) _).bind fun _ => stopsAt_ok _) _ _

theorem shapesOf_stopsAt (c : ClassRef) : StopsAt Fault.Plain (g.shapesOf c) := by
  refine stopsAt_foldlM (fun found a => ?_) _ _
  split
  · exact g.ownShapes_stopsAt found _
  · exact stopsAt_ok _

theorem schemaFields_stopsAt (name location : String) (shapes : Table Shape) :
    ∀ fields : Table FieldId, StopsAt (fun cause => Fault.Plain (.schema cause))
      (g.schemaFields name location shapes fields)
  | [] => stopsAt_ok _
  | (field, f) :: rest => by
    unfold schemaFields
    dsimp only
    split
    · exact schemaFields_stopsAt name location shapes rest
    · split
      · exact stopsAt_error trivial
      · exact (schemaFields_stopsAt name location shapes rest).bind fun _ => stopsAt_ok _

theorem fieldsOf_stopsAt (c : ClassRef) (location : String) :
    StopsAt Fault.Plain (g.fieldsOf c location) := by
  unfold fieldsOf
  dsimp only
  split
  · split
    · exact stopsAt_ok _
    · exact stopsAt_error trivial
  · split
    · exact stopsAt_error trivial
    · rename_i f hshapes
      exact stopsAt_error (g.shapesOf_stopsAt c _ hshapes)
    · split
      · rename_i f hfields
        exact stopsAt_error (g.schemaFields_stopsAt _ _ _ _ _ hfields)
      · split
        · exact stopsAt_ok _
        · exact stopsAt_error trivial

theorem schemaOf_stopsAt (c : ClassRef) : StopsAt Fault.Plain (g.schemaOf c) := by
  unfold schemaOf
  dsimp only
  split
  · refine StopsAt.bind (stopsAt_mapM (fun v => ?_) _) fun variants => ?_
    · exact (g.fieldsOf_stopsAt v.2 _).bind fun _ => stopsAt_ok _
    · split
      · exact stopsAt_error trivial
      · exact stopsAt_ok _
  · exact (g.fieldsOf_stopsAt c _).bind fun _ => stopsAt_ok _

theorem factoriesOf_stopsAt (file : String) : StopsAt Fault.Plain (factoriesOf g file) := by
  unfold factoriesOf
  split
  · exact stopsAt_error trivial
  · split
    · exact stopsAt_error trivial
    · refine (factoriesIn_stopsAt _).bind fun found => ?_
      split
      · exact stopsAt_error trivial
      · exact stopsAt_ok _

theorem boundFactory_stopsAt (file : String) (listed : List Listed) (plan : Plan Parser) :
    StopsAt Fault.Plain (boundFactory g file listed plan) := by
  unfold boundFactory
  dsimp only
  split
  · exact stopsAt_error trivial
  · split
    · exact stopsAt_error trivial
    · exact (Code.bind_stopsAt _ plan).bind fun _ => stopsAt_ok _

/-! ## Instances -/

theorem bindParameters_stopsAt : ∀ (t : Table Parameter) (vs : List Value),
    StopsAt Fault.Plain (bindParameters t vs)
  | [], [] => stopsAt_ok _
  | [], _ :: _ => stopsAt_error trivial
  | (_, _) :: rest, _ :: vs => by
    unfold bindParameters
    exact (bindParameters_stopsAt rest vs).bind fun _ => stopsAt_ok _
  | (_, _) :: rest, [] => by
    unfold bindParameters
    split
    · exact (bindParameters_stopsAt rest []).bind fun _ => stopsAt_ok _
    · exact bindParameters_stopsAt rest []
    · exact stopsAt_error trivial

theorem construct_stopsAt (target : ClassRef) (vs : List Value) :
    StopsAt Fault.Plain (g.construct target vs) := by
  cases target with
  | declared c =>
    unfold construct
    dsimp only
    cases g.constructor? (.declared c) with
    | some k =>
      exact (bindParameters_stopsAt _ _).bind fun _ =>
        (bindParameters_stopsAt _ _).bind fun _ => stopsAt_ok _
    | none =>
      dsimp only
      split
      · exact stopsAt_ok _
      · exact stopsAt_error trivial
  | character c =>
    cases vs with
    | nil => exact stopsAt_ok _
    | cons v vs => exact stopsAt_error trivial
  | builtin b =>
    cases vs with
    | nil => cases b <;> first | exact stopsAt_ok _ | exact stopsAt_error trivial
    | cons v vs => cases b <;> exact stopsAt_error trivial

/-! ## Descriptions -/

section Describing

variable {P : Stop → Prop} {box : BoxId → Except Stop String}

mutual

/-- Only what is no parser has no description, and a delayed parser that has none. -/
theorem describeWith_stopsAt : ∀ p : Parser, (g.Leads p .inert → P (.fault (.attribute .parser))) →
    (∀ b, g.Leads p (.box b) → StopsAt P (box b)) → StopsAt P (p.describeWith g box)
  | .element _, _, _ => stopsAt_ok _
  | .any, _, _ => stopsAt_ok _
  | .satisfy _ _, _, _ => stopsAt_ok _
  | .seq [], _, _ => stopsAt_ok _
  | .seq (p :: ps), hinert, hbox =>
    (describeParts_stopsAt (p :: ps) (fun _ hq h => hinert (.step hq h))
      fun _ hq b h => hbox b (.step hq h)).map _
  | .opt body, hinert, hbox => (describeBody body List.mem_cons_self hinert hbox).map _
  | .many _ body, hinert, hbox => (describeBody body List.mem_cons_self hinert hbox).map _
  | .many1 _ body, hinert, hbox => (describeBody body List.mem_cons_self hinert hbox).map _
  | .either left right, hinert, hbox =>
    (describeBody left List.mem_cons_self hinert hbox).bind fun _ =>
      (describeBody right (List.mem_cons_of_mem left List.mem_cons_self) hinert hbox).bind
        fun _ => stopsAt_ok _
  | .not body, hinert, hbox => (describeBody body List.mem_cons_self hinert hbox).map _
  | .box b, _, hbox => hbox b (.refl _)
  | .map _ body, hinert, hbox => describeBody body List.mem_cons_self hinert hbox
  | .derived _, _, _ => stopsAt_ok _
  | .planned _, _, _ => stopsAt_ok _
  | .generated _ _, _, _ => stopsAt_ok _
  | .recorded _ _, _, _ => stopsAt_ok _
  | .misser _, _, _ => stopsAt_ok _
  | .unimplemented, _, _ => stopsAt_ok _
  | .inert, hinert, _ => stopsAt_error (hinert (.refl _))

theorem describeBody {p : Parser} (body : Parser) (hpart : body ∈ p.parts g)
    (hinert : g.Leads p .inert → P (.fault (.attribute .parser)))
    (hbox : ∀ b, g.Leads p (.box b) → StopsAt P (box b)) :
    StopsAt P (body.describeWith g box) :=
  describeWith_stopsAt body (fun h => hinert (.step hpart h)) fun b h => hbox b (.step hpart h)

theorem describeParts_stopsAt : ∀ ps : List Parser,
    (∀ p ∈ ps, g.Leads p .inert → P (.fault (.attribute .parser))) →
    (∀ p ∈ ps, ∀ b, g.Leads p (.box b) → StopsAt P (box b)) → StopsAt P (describeParts g box ps)
  | [], _, _ => stopsAt_ok _
  | p :: ps, hinert, hbox =>
    (describeWith_stopsAt p (hinert p List.mem_cons_self) (hbox p List.mem_cons_self)).bind fun _ =>
      (describeParts_stopsAt ps (fun q hq => hinert q (List.mem_cons_of_mem p hq))
        fun q hq => hbox q (List.mem_cons_of_mem p hq)).bind fun _ => stopsAt_ok _

end

end Describing

/-- Where a description stops at a fault, something stands in the place of a parser. -/
theorem describeBox_stopsAt {P : Stop → Prop} (hfuel : P .outOfFuel) : ∀ (depth : Nat) (b : BoxId),
    (g.Leads (.box b) .inert → P (.fault (.attribute .parser))) →
      StopsAt P (g.describeBox depth b)
  | 0, _, _ => stopsAt_error hfuel
  | depth + 1, b, hinert => by
    unfold describeBox
    split
    · exact stopsAt_ok _
    · rename_i p hp
      have hpart : p ∈ (Parser.box b).parts g := Option.mem_toList.mpr hp
      exact g.describeWith_stopsAt p (fun h => hinert (.step hpart h)) fun b' hb' =>
        describeBox_stopsAt hfuel depth b' fun h => hinert (.step hpart (hb'.trans h))

theorem describe_stopsAt {P : Stop → Prop} (hfuel : P .outOfFuel) (p : Parser)
    (hinert : g.Leads p .inert → P (.fault (.attribute .parser))) : StopsAt P (g.describe p) :=
  g.describeWith_stopsAt p hinert fun b hb =>
    g.describeBox_stopsAt hfuel _ b fun h => hinert (hb.trans h)

theorem describe_plain (p : Parser) : StopsAt Stop.Plain (g.describe p) :=
  g.describe_stopsAt trivial p fun _ => trivial

mutual

theorem showWith_stopsAt {describe : Parser → Except Stop String} {P : Stop → Prop}
    (hdescribe : ∀ p, StopsAt P (describe p)) : ∀ a : Shape, StopsAt P (a.showWith describe)
  | .parser h => (hdescribe h.body).bind fun _ => stopsAt_ok _
  | .list a => showWith_stopsAt hdescribe a
  | .nonempty a => showWith_stopsAt hdescribe a
  | .not a => showWith_stopsAt hdescribe a
  | .box a => showWith_stopsAt hdescribe a
  | .either a b => (showWith_stopsAt hdescribe a).bind fun _ => showWith_stopsAt hdescribe b
  | .tuple as => showShapesWith_stopsAt hdescribe as
  | .union as => showShapesWith_stopsAt hdescribe as
  | .mapping a b => (showWith_stopsAt hdescribe a).bind fun _ => showWith_stopsAt hdescribe b
  | .annotated a notes =>
    (showWith_stopsAt hdescribe a).bind fun _ => showShapesWith_stopsAt hdescribe notes
  | .shared a => showWith_stopsAt hdescribe a
  | .parameterOnly a => showWith_stopsAt hdescribe a
  | .cls _ => stopsAt_ok _
  | .alias _ => stopsAt_ok _
  | .nothing => stopsAt_ok _
  | .ellipsis => stopsAt_ok _
  | .constant _ => stopsAt_ok _
  | .foreign _ => stopsAt_ok _
  | .forward _ => stopsAt_ok _

theorem showShapesWith_stopsAt {describe : Parser → Except Stop String} {P : Stop → Prop}
    (hdescribe : ∀ p, StopsAt P (describe p)) :
    ∀ as : List Shape, StopsAt P (showShapesWith describe as)
  | [] => stopsAt_ok _
  | a :: as =>
    (showWith_stopsAt hdescribe a).bind fun _ => showShapesWith_stopsAt hdescribe as

end

theorem showShape_plain (a : Shape) : StopsAt Stop.Plain (g.showShape a) :=
  showWith_stopsAt g.describe_plain a

/-! ## A description without an end -/

/-- A delayed parser inside itself: a letter with the parser behind it, or nothing. -/
def knot : Parser :=
  .opt (.seq [.element (.text "a"), .box 0])

/-- The grammar of that parser, which has been opened before. -/
def knotted (threshold : Option LogLevel) : Grammar :=
  { Grammar.empty threshold with
    boxes := #[⟨.expression (.opt (.seq [.element (.text "a"), .name ⟨"B", []⟩])), some knot, none⟩]
    names := [("B", .parser ⟨.made 0, .box 0⟩)]
    made := 1 }

/-- Its description has no end. -/
theorem describeBox_knot {g : Grammar} (hknot : (g.boxInfo 0).parser = some knot) (depth : Nat) :
    g.describeBox depth 0 = .error .outOfFuel := by
  induction depth with
  | zero => rfl
  | succ depth ih =>
    unfold describeBox
    rw [hknot]
    -- the letter is described, and then the parser itself
    simp only [knot, Parser.describeWith, describeParts, ih]
    rfl

end Grammar

end ShapeGrammar
