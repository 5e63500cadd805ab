import ShapeGrammar.Proofs.Walk.Inquiry
import ShapeGrammar.Proofs.Resolution.Growth

/-!
# What a walk comes upon is raised

Resolution catches nothing. Where something that is looked into stops, everything stops that led to
it, and nothing else happens but that marks are taken off and that the fault is passed on with the
name of the field it arose in. So a walk that comes upon something that stops ends there.

Headlines: `Resolution.Raises`, `Passes`, `Inquiry.Leads.raises`, `ComesUpon.raises`.
-/

namespace ShapeGrammar

open Resolution

/-- What is said of a stop and of the state it leaves behind stays true on the way out. -/
structure Passes (P : Stop → Grammar → Prop) : Prop where
  inField {cause g} (field : String) (owner location : String) : P (.fault (.schema cause)) g →
    P (.fault (.schema (.inField field owner location cause))) g
  unmarked {e} {g : Grammar} : P e g → P e { g with pending := g.pending.tail }

namespace Resolution

variable {P : Stop → Grammar → Prop} {α β : Type} {x : Resolution α} {g g' : Grammar} {e : Stop}

/-! ## Where something stops -/

/-- What is remembered stops only where it is found out. -/
theorem error_of_remember {f : Finding α} (h : remember f x g = .error e g') :
    f.known? g = none ∧ x g = .error e g' := by
  cases hf : f.known? g with
  | some a =>
    rw [remember_of_known hf] at h
    cases h
  | none =>
    rw [remember_of_unknown hf] at h
    rcases bind_eq_error h with hx | ⟨a, g1, -, hkept⟩
    · exact ⟨rfl, hx⟩
    · cases hkept

/-- The computation stops as described. -/
def Raises (P : Stop → Grammar → Prop) (x : Resolution α) (g : Grammar) : Prop :=
  ∃ e g', x g = .error e g' ∧ P e g'

theorem Raises.bind {f : α → Resolution β} (h : Raises P x g) : Raises P (x >>= f) g := by
  obtain ⟨e, g', hx, he⟩ := h
  exact ⟨e, g', bind_of_error hx, he⟩

theorem Raises.after {f : α → Resolution β} {a : α} (hx : x g = .ok a g')
    (h : Raises P (f a) g') : Raises P (x >>= f) g := by
  unfold Raises
  rw [bind_of_ok hx]
  exact h

theorem Raises.map (h : Raises P x g) (f : α → β) : Raises P (f <$> x) g := by
  obtain ⟨e, g', hx, he⟩ := h
  exact ⟨e, g', map_of_error hx, he⟩

theorem Raises.of_map {f : α → β} (h : Raises P (f <$> x) g) : Raises P x g := by
  obtain ⟨e, g', hx, he⟩ := h
  exact ⟨e, g', map_eq_error hx, he⟩

theorem Raises.of_bind {f : α → Resolution β} (h : Raises P (x >>= f) g) :
    Raises P x g ∨ ∃ a g1, x g = .ok a g1 ∧ Raises P (f a) g1 := by
  obtain ⟨e, g', hx, he⟩ := h
  rcases bind_eq_error hx with hx | ⟨a, g1, ha, hf⟩
  · exact .inl ⟨e, g', hx, he⟩
  · exact .inr ⟨a, g1, ha, e, g', hf, he⟩

theorem Raises.mapSchemaFault (hP : Passes P) (h : Raises P x g) {field : String}
    {owner : ClassRef} : Raises P (mapSchemaFault
      (fun g cause => .inField field (g.className owner) (g.location owner) cause) x) g := by
  obtain ⟨e, g', hx, he⟩ := h
  unfold Raises Resolution.mapSchemaFault
  rw [hx]
  cases e with
  | outOfFuel => exact ⟨_, g', rfl, he⟩
  | fault f =>
    cases f with
    | schema cause => exact ⟨_, g', rfl, hP.inField _ _ _ he⟩
    | _ => exact ⟨_, g', rfl, he⟩

theorem Raises.guarded (hP : Passes P) {key : Pending} {fault : List Pending → Fault}
    (hkey : key ∉ g.pending) (h : Raises P x { g with pending := key :: g.pending }) :
    Raises P (guarded key fault x) g := by
  obtain ⟨e, g', hx, he⟩ := h
  refine ⟨e, { g' with pending := g'.pending.tail }, ?_, hP.unmarked he⟩
  unfold Resolution.guarded
  simp only [List.contains_iff_mem, hkey, if_false, hx]

theorem Raises.remember {f : Finding α} (hf : f.known? g = none) (h : Raises P x g) :
    Raises P (remember f x) g := by
  unfold Raises
  rw [remember_of_unknown hf]
  exact h.bind

end Resolution

namespace Inquiry

variable {P : Stop → Grammar → Prop} {r : Resolver} {g g' : Grammar} {α : Type}

/-- What was found out without the answer has an answer. -/
theorem ok_of_run {x : Resolution α} (h : ((fun _ => ()) <$> x) g = .ok () g') :
    ∃ a, x g = .ok a g' := by
  obtain ⟨a, ha, -⟩ := map_eq_ok_iff.mp h
  exact ⟨a, ha⟩

theorem run_of_ok {x : Resolution α} {a : α} (h : x g = .ok a g') :
    ((fun _ => ()) <$> x) g = .ok () g' :=
  map_eq_ok_iff.mpr ⟨a, h, rfl⟩

theorem raises_cons {x : Inquiry} {xs : List Inquiry} (h : Raises P (runAll r (x :: xs)) g) :
    Raises P (x.run r) g ∨ ∃ g1, x.run r g = .ok () g1 ∧ Raises P (runAll r xs) g1 := by
  refine h.of_bind.imp_right ?_
  rintro ⟨⟨⟩, g1, hx, hxs⟩
  exact ⟨g1, hx, hxs⟩

theorem raises_single {x : Inquiry} (h : Raises P (runAll r [x]) g) : Raises P (x.run r) g := by
  rcases raises_cons h with hx | ⟨g1, -, hnil⟩
  · exact hx
  · obtain ⟨e, g2, heq, -⟩ := hnil
    cases heq

theorem not_raises_nil : ¬ Raises P (runAll r []) g := by
  rintro ⟨e, g', heq, -⟩
  cases heq

/-! ## Lists -/

theorem raises_resolveShapes {expanding : List AliasId} : ∀ {as : List Shape} {g : Grammar},
    Raises P (runAll r (as.map (.shape expanding))) g → Raises P (resolveShapes r expanding as) g
  | [], _, h => absurd h not_raises_nil
  | a :: as, g, h => by
    unfold resolveShapes
    rcases raises_cons h with ha | ⟨g1, ha, has⟩
    · exact (Raises.of_map ha).bind
    · obtain ⟨k, hk⟩ := ok_of_run ha
      exact .after hk (raises_resolveShapes has).bind

theorem raises_evaluateShapes : ∀ {es : List ShapeExpr} {g : Grammar},
    Raises P (runAll r (es.map .writtenShape)) g → Raises P (evaluateShapes r false es) g
  | [], _, h => absurd h not_raises_nil
  | e :: es, g, h => by
    unfold evaluateShapes
    rcases raises_cons h with he | ⟨g1, he, hes⟩
    · exact (Raises.of_map he).bind
    · obtain ⟨a, ha⟩ := ok_of_run he
      exact .after ha (raises_evaluateShapes hes).bind

theorem raises_evaluateNotes : ∀ {ns : List NoteExpr} {g : Grammar},
    Raises P (runAll r (noted ns)) g → Raises P (evaluateNotes r ns) g
  | [], _, h => absurd h not_raises_nil
  | .text _ :: ns, g, h => by
    unfold evaluateNotes
    have hns : Raises P (evaluateNotes r ns) g := raises_evaluateNotes h
    exact hns.bind
  | .parser p :: ns, g, h => by
    unfold evaluateNotes
    rcases raises_cons h with hp | ⟨g1, hp, hns⟩
    · exact (Raises.of_map hp).bind
    · obtain ⟨b, hb⟩ := ok_of_run hp
      exact .after hb (raises_evaluateNotes hns).bind

theorem raises_buildParsers : ∀ {es : List ParserExpr} {g : Grammar},
    Raises P (runAll r (es.map .writtenParser)) g → Raises P (buildParsers r es) g
  | [], _, h => absurd h not_raises_nil
  | e :: es, g, h => by
    unfold buildParsers
    rcases raises_cons h with he | ⟨g1, he, hes⟩
    · exact (Raises.of_map he).bind
    · obtain ⟨b, hb⟩ := ok_of_run he
      exact .after hb (raises_buildParsers hes).bind

/-- A computation that is reworded where it stops answers as it does. -/
theorem mapSchemaFault_of_ok {f : Grammar → SchemaFault → SchemaFault} {x : Resolution α} {a : α}
    (h : x g = .ok a g') : mapSchemaFault f x g = .ok a g' := by
  unfold mapSchemaFault
  rw [h]

/-- Of fields and what comes after them, the fields stop, or what comes after them. -/
theorem raises_fieldParsers (hP : Passes P) (owner : ClassRef) {xs : List Inquiry} :
    ∀ {fs : List SchemaField} {g : Grammar}, Raises P (runAll r (shapesOf fs ++ xs)) g →
      Raises P (fieldParsers r owner fs) g ∨
        ∃ ps g1, fieldParsers r owner fs g = .ok ps g1 ∧ Raises P (runAll r xs) g1
  | [], g, h => .inr ⟨[], g, rfl, h⟩
  | f :: fs, g, h => by
    unfold fieldParsers
    rcases raises_cons h with hf | ⟨g1, hf, hfs⟩
    · exact .inl ((Raises.of_map hf).mapSchemaFault hP).bind
    · obtain ⟨k, hrun⟩ := ok_of_run hf
      have hk : mapSchemaFault
          (fun g cause => .inField f.name (g.className owner) (g.location owner) cause)
          (parserFor r f.shape) g = .ok k g1 := mapSchemaFault_of_ok hrun
      refine (raises_fieldParsers hP owner hfs).imp (fun hrest => .after hk hrest.bind) ?_
      rintro ⟨ps, g2, hps, hxs⟩
      refine ⟨k.body :: ps, g2, ?_, hxs⟩
      rw [bind_of_ok hk, bind_of_ok hps]
      rfl

theorem raises_planVariants (hP : Passes P) : ∀ {vs : List Variant} {g : Grammar},
    Raises P (runAll r (shapesOf (vs.flatMap (·.fields)))) g → Raises P (planVariants r vs) g
  | [], _, h => absurd h not_raises_nil
  | v :: vs, g, h => by
    unfold planVariants
    have happend : shapesOf ((v :: vs).flatMap (·.fields)) =
        shapesOf v.fields ++ shapesOf (vs.flatMap (·.fields)) := by
      unfold shapesOf
      rw [List.flatMap_cons, List.map_append]
    rw [happend] at h
    rcases raises_fieldParsers hP v.target h with hfields | ⟨ps, g1, hps, hrest⟩
    · exact hfields.bind
    · exact .after hps (raises_planVariants hP hrest).bind

/-! ## Parts -/

/-- Of two parts the first one stops, or the second one from where the first one has come. -/
theorem raises_pair {x y : Resolution α} {β : Type} {f : α → α → Resolution β} {X Y : Inquiry}
    (hX : X.run r = (fun _ => ()) <$> x) (hY : Y.run r = (fun _ => ()) <$> y)
    (h : Raises P (runAll r [X, Y]) g) :
    Raises P (do let a ← x; let b ← y; f a b) g := by
  rcases raises_cons h with hx | ⟨g1, hx, hy⟩
  · rw [hX] at hx
    exact (Raises.of_map hx).bind
  · rw [hX] at hx
    obtain ⟨a, ha⟩ := ok_of_run hx
    have hy' := raises_single hy
    rw [hY] at hy'
    exact .after ha (Raises.of_map hy').bind

/-- Where a part is all there is, and stops. -/
theorem raises_part {x : Resolution α} {X : Inquiry} (hX : X.run r = (fun _ => ()) <$> x)
    (h : Raises P (runAll r [X]) g) : Raises P x g := by
  have hx := raises_single h
  rw [hX] at hx
  exact .of_map hx

theorem raises_kind {p : Parser} (h : Raises P (runAll r (parts (.kind p))) g) :
    Raises P (errorKindOf r p) g := by
  cases p with
  | seq ps => exact raises_part (X := .kinds ps) rfl h
  | many1 checked body => exact raises_part (X := .kind body) rfl h
  | either left right => exact raises_part (X := .kind right) rfl h
  | map change body => exact raises_part (X := .kind body) rfl h
  | recorded name body => exact raises_part (X := .kind body) rfl h
  | derived c => exact (raises_part (x := r.planOf c) (X := .plan c) rfl h).bind
  | _ => exact absurd h not_raises_nil

theorem raises_shape {expanding : List AliasId} {a : Shape}
    (h : Raises P (runAll r (parts (.shape expanding a))) g) :
    Raises P (resolveShape r expanding a) g := by
  have part {b : Shape} {f : Handle → Resolution Handle}
      (hb : Raises P (runAll r [.shape expanding b]) g) :
      Raises P (resolveShape r expanding b >>= f) g :=
    (raises_part (X := .shape expanding b) rfl hb).bind
  unfold resolveShape
  unfold parts at h
  split
  · exact absurd h not_raises_nil
  · exact absurd h not_raises_nil
  · rename_i a
    exact raises_part (X := .expansion expanding a) rfl h
  · rename_i body notes
    cases hnoted : Shape.notedParser? notes with
    | some k =>
      simp only [hnoted] at h
      exact absurd h not_raises_nil
    | none =>
      simp only [hnoted] at h
      exact raises_part (X := .shape expanding body) rfl h
  · rename_i items
    cases hopen : openEnded items with
    | true =>
      simp only [hopen, if_true] at h
      exact absurd h not_raises_nil
    | false =>
      simp only [hopen, Bool.false_eq_true, if_false] at h
      exact (raises_resolveShapes h).bind
  · exact part h
  · exact part h
  · rename_i a b
    cases ha : a.isNothing with
    | true =>
      simp only [ha, if_true] at h
      exact part h
    | false =>
      cases hb : b.isNothing with
      | true =>
        simp only [ha, hb, if_true, Bool.false_eq_true, if_false] at h
        exact part h
      | false =>
        simp only [ha, hb, Bool.false_eq_true, if_false] at h
        exact absurd h not_raises_nil
  · split at h
    all_goals first
      | exact absurd h not_raises_nil
      | simp_all
  · rename_i left right
    exact raises_pair (X := .shape expanding left) (Y := .shape expanding right) rfl rfl h
  · exact part h
  · exact absurd h not_raises_nil
  · split at h
    all_goals first
      | exact absurd h not_raises_nil
      | simp_all

theorem raises_writtenShape {e : ShapeExpr}
    (h : Raises P (runAll r (parts (.writtenShape e))) g) :
    Raises P (evaluateShape r false e) g := by
  have part {b : ShapeExpr} {f : Shape → Resolution Shape}
      (hb : Raises P (runAll r [.writtenShape b]) g) : Raises P (evaluateShape r false b >>= f) g :=
    (raises_part (X := .writtenShape b) rfl hb).bind
  cases e with
  | list a => exact part h
  | nonempty a => exact part h
  | not a => exact part h
  | box a => exact part h
  | either a b => exact raises_pair (X := .writtenShape a) (Y := .writtenShape b) rfl rfl h
  | tuple as => exact (raises_evaluateShapes h).bind
  | union as => exact (raises_evaluateShapes h).bind
  | mapping a b => exact raises_pair (X := .writtenShape a) (Y := .writtenShape b) rfl rfl h
  | annotated a notes =>
    unfold evaluateShape
    rcases raises_cons h with ha | ⟨g1, ha, hnotes⟩
    · exact (Raises.of_map ha).bind
    · obtain ⟨b, hb⟩ := ok_of_run ha
      exact .after hb (raises_evaluateNotes hnotes).bind
  | parser p => exact (raises_part (x := buildParser r p) (X := .writtenParser p) rfl h).bind
  | _ => exact absurd h not_raises_nil

theorem raises_writtenParser {e : ParserExpr}
    (h : Raises P (runAll r (parts (.writtenParser e))) g) : Raises P (buildParser r e) g := by
  have part {b : ParserExpr} {f : Binding → Resolution Binding}
      (hb : Raises P (runAll r [.writtenParser b]) g) : Raises P (buildParser r b >>= f) g :=
    (raises_part (X := .writtenParser b) rfl hb).bind
  have shown {a : ShapeExpr} {f : Shape → Resolution Binding}
      (ha : Raises P (runAll r [.writtenShape a]) g) :
      Raises P (evaluateShape r false a >>= f) g :=
    (raises_part (X := .writtenShape a) rfl ha).bind
  cases e with
  | seq ps => exact (raises_buildParsers h).bind
  | opt body => exact part h
  | many checked body => exact part h
  | many1 checked body => exact part h
  | either left right =>
    exact raises_pair (X := .writtenParser left) (Y := .writtenParser right) rfl rfl h
  | choice first second =>
    exact raises_pair (X := .writtenParser first) (Y := .writtenParser second) rfl rfl h
  | not body => exact part h
  | box body => exact part h
  | map change body => exact part h
  | sum first second =>
    exact raises_pair (X := .writtenParser first) (Y := .writtenParser second) rfl rfl h
  | shape a => exact shown h
  | compiled a => exact shown h
  | generated a => exact shown h
  | generatedSchema a => exact shown h
  | loaded file a => exact shown h
  | recorded name body => exact part h
  | _ => exact absurd h not_raises_nil

/-- Where one of the parts of something stops, the whole does. -/
theorem raises_of_parts (hP : Passes P) {x : Inquiry} (h : Raises P (runAll r x.parts) g) :
    Raises P (x.run r) g := by
  cases x with
  | kind p => exact (raises_kind h).map _
  | kinds ps =>
    cases ps with
    | nil => exact absurd h not_raises_nil
    | cons p ps => exact ((raises_part (x := errorKindOf r p) (X := .kind p) rfl h).bind).map _
  | schema s =>
    cases s with
    | product target fields =>
      rw [← List.append_nil (parts _)] at h
      rcases raises_fieldParsers hP target h with hfields | ⟨ps, g1, -, hnil⟩
      · exact hfields.bind.map _
      · exact absurd hnil not_raises_nil
    | sum target variants => exact absurd h not_raises_nil
  | derived a => exact ((raises_part (x := parserFor r a) (X := .shape [] a) rfl h).bind).map _
  | shape expanding a => exact (raises_shape h).map _
  | writtenShape e => exact (raises_writtenShape h).map _
  | writtenParser e => exact (raises_writtenParser h).map _
  | plan c => exact absurd h not_raises_nil
  | opening b => exact absurd h not_raises_nil
  | expansion expanding a => exact absurd h not_raises_nil
  | value a => exact absurd h not_raises_nil

/-! ## Steps of a walk -/

/-- What opens a delayed parser that nobody has opened. -/
theorem raises_openBox {b : BoxId} (hunknown : (g.boxInfo b).parser = none) (hb : b < g.boxes.size)
    (h : Raises P (delayedBody r (g.boxInfo b).body) g) : Raises P (openBox r b) g := by
  refine Raises.remember (f := .box b) hunknown ?_
  have hrun : resolveBox r b g = delayedBody r (g.boxInfo b).body g := by
    unfold resolveBox
    rw [bind_of_ok (get_ok g), if_neg (Nat.not_le_of_lt hb)]
  unfold Raises
  rw [hrun]
  exact h

/-- What plans a class that nobody has planned. -/
theorem raises_findPlan (hP : Passes P) {c : ClassId} {s : Schema}
    (hunknown : (g.classInfo c).plan = none) (hsize : c < g.classes.size)
    (hfree : .cls c ∉ g.pending) (hschema : g.schemaOf (.declared c) = .ok s)
    (h : Raises P (planSchema r s) { g with pending := .cls c :: g.pending }) :
    Raises P (findPlan r c) g := by
  have hmarked : ({ g with pending := .cls c :: g.pending } : Grammar).schemaOf (.declared c) =
      .ok s := by
    rw [(g.sameDeclarations_marked _).schemaOf_eq, hschema]
  refine Raises.remember (f := .plan c) hunknown (.after (get_ok g) ?_)
  rw [if_neg (Nat.not_le_of_lt hsize)]
  refine (Raises.guarded hP hfree (.after (get_ok _) ?_)).bind
  rw [hmarked]
  exact .after rfl h

/-- What finds the error kind of a delayed parser that nobody knows. -/
theorem raises_findBoxErrorKind (hP : Passes P) {b : BoxId}
    (hunknown : (g.boxInfo b).errorKind = none) (hfree : .box b ∉ g.pending)
    (h : Raises P (do let p ← openBox r b; errorKindOf r p)
      { g with pending := .box b :: g.pending }) : Raises P (findBoxErrorKind r b) g :=
  Raises.remember (f := .kind b) hunknown (h.guarded hP hfree)

/-- What expands an alias that nobody has expanded. -/
theorem raises_expandAlias {expanding : List AliasId} {a : AliasId}
    (hunknown : (g.aliasInfo a).parser = none) (hnew : a ∉ expanding)
    (h : Raises P (do let v ← aliasValue r a; resolveShape r (expanding ++ [a]) v) g) :
    Raises P (expandAlias r expanding a) g := by
  refine Raises.remember (f := .handle a) hunknown (.after (get_ok g) ?_)
  have hcontains : ¬ expanding.contains a = true := fun hmem =>
    hnew (List.contains_iff_mem.mp hmem)
  rw [if_neg hcontains]
  exact h

/-- **What an inquiry leads to is raised by the inquiry.** -/
theorem Leads.raises (hP : Passes P) {n m : Nat} {x : Inquiry} {ys : List Inquiry}
    (h : x.Leads n g m ys g') (hys : Raises P (runAll (resolver m) ys) g') :
    Raises P (x.run (resolver n)) g := by
  cases h with
  | parts => exact raises_of_parts hP hys
  | later hp => exact (Raises.after hp (raises_part (X := .kinds _) rfl hys)).map _
  | product hps => exact (Raises.after hps (raises_part (X := .kinds _) rfl hys).bind).map _
  | variants hhidden => exact (Raises.after hhidden (raises_planVariants hP hys).bind).map _
  | last hhidden has hunit hlast =>
    refine (Raises.after hhidden (.after has (Raises.bind ?_))).map _
    unfold sumErrorKind
    simp only [hunit, Bool.false_eq_true, if_false, hlast]
    exact raises_part (X := .kinds _) rfl hys
  | planned hparser hderived =>
    refine (Raises.after hparser ?_).map _
    simp only [hderived]
    exact raises_part (X := .plan _) rfl hys
  | shaped he =>
    exact (Raises.after he
      ((raises_part (x := parserFor _ _) (X := .shape [] _) rfl hys).map _)).map _
  | compiled he hs =>
    exact (Raises.after he (.after hs (raises_part (X := .schema _) rfl hys).bind)).map _
  | generatedSchema he hs =>
    exact (Raises.after he (.after hs (raises_part (X := .schema _) rfl hys).bind)).map _
  | generated he =>
    exact (Raises.after he (raises_part (X := .derived _) rfl hys).bind).map _
  | loaded he hlisted =>
    refine (Raises.after he ?_).map _
    refine Raises.after (get_ok g') ?_
    rw [hlisted]
    refine Raises.after rfl (Raises.bind ?_)
    unfold loadFactories
    exact (raises_part (X := .derived _) rfl hys).bind
  | cls hunknown hsize hfree hschema =>
    exact (raises_findPlan hP hunknown hsize hfree hschema
      (raises_part (X := .schema _) rfl hys)).map _
  | opened hunknown hfree =>
    exact (raises_findBoxErrorKind hP hunknown hfree
      (raises_part (x := openBox _ _) (X := .opening _) rfl hys).bind).map _
  | box hunknown hfree hopen =>
    exact (raises_findBoxErrorKind hP hunknown hfree
      (.after hopen (raises_part (X := .kind _) rfl hys))).map _
  | delayedShape hunknown hb hbody =>
    refine (raises_openBox hunknown hb ?_).map _
    rw [hbody]
    exact (raises_part (x := parserFor _ _) (X := .shape [] _) rfl hys).bind
  | delayedParser hunknown hb hbody =>
    refine (raises_openBox hunknown hb ?_).map _
    rw [hbody]
    exact (raises_part (x := buildParser _ _) (X := .writtenParser _) rfl hys).bind
  | value hunknown hnew =>
    exact (raises_expandAlias hunknown hnew
      (raises_part (x := aliasValue _ _) (X := .value _) rfl hys).bind).map _
  | expanded hunknown hnew hvalue =>
    exact (raises_expandAlias hunknown hnew
      (.after hvalue (raises_part (X := .shape _ _) rfl hys))).map _
  | @written _ a _ hunknown =>
    refine (Raises.remember (f := .value a) hunknown ?_).map _
    exact .after (get_ok g)
      (raises_part (x := evaluateShape _ false (g.aliasInfo a).expression)
        (X := .writtenShape _) rfl hys)

end Inquiry

/-- **What a walk comes upon is raised**, if it stops there. -/
theorem ComesUpon.raises {P : Stop → Grammar → Prop} (hP : Passes P)
    {goal : Nat → Inquiry → Grammar → Prop}
    (hgoal : ∀ {n x g}, goal n x g → Raises P (x.run (resolver n)) g) {n : Nat} {xs : List Inquiry}
    {g : Grammar} (h : ComesUpon goal n xs g) : Raises P (Inquiry.runAll (resolver n) xs) g := by
  induction h with
  | here hx => exact (hgoal hx).bind
  | past hx _ ih => exact .after hx ih
  | into hstep _ ih => exact (hstep.raises hP ih).bind

end ShapeGrammar
