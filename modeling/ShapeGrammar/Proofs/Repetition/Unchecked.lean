import ShapeGrammar.Proofs.Factory.Faithful
import ShapeGrammar.Proofs.Machine.Unfolding
import ShapeGrammar.Proofs.Resolution.Law

/-!
# Repetitions that do not look at places

A parser and the one that it becomes if every repetition in it is to accept matches that consume
nothing: the same tree with the flags off, in the parts, in the plans, and in whatever delayed
parsers and classes turn out to be. Such a parser describes itself by the same words. One call of it
is a call of the parser itself in which repetitions do not look at places, and which makes calls of
unchecked parsers inside.

Headlines: `Parser.unchecked`, `Resolver.unchecked`, `looseWith`, `runWith_unchecked`.
-/

namespace ShapeGrammar

/-! ## The flags off -/

mutual

/-- The parser with the checks of all repetitions off. -/
def Parser.unchecked : Parser → Parser
  | .seq parts => .seq (uncheckedParts parts)
  | .opt body => .opt body.unchecked
  | .many _ body => .many false body.unchecked
  | .many1 _ body => .many1 false body.unchecked
  | .either left right => .either left.unchecked right.unchecked
  | .not body => .not body.unchecked
  | .map change body => .map change body.unchecked
  | .planned plan => .planned plan.unchecked
  | .generated plan code => .generated plan.unchecked code
  | .recorded name body => .recorded name body.unchecked
  | p => p

/-- The plan with the checks off in all fields. -/
def Plan.unchecked : Plan Parser → Plan Parser
  | ⟨target, kind, attempts, errorKind⟩ => ⟨target, kind, uncheckedAttempts attempts, errorKind⟩

/-- The attempts with the checks off in all fields. -/
def uncheckedAttempts : List (Attempt Parser) → List (Attempt Parser)
  | [] => []
  | a :: as => a.unchecked :: uncheckedAttempts as

/-- The attempt with the checks off in all fields. -/
def Attempt.unchecked : Attempt Parser → Attempt Parser
  | ⟨name, target, parsers, snapshot⟩ => ⟨name, target, uncheckedParts parsers, snapshot⟩

/-- The parts with the checks off. -/
def uncheckedParts : List Parser → List Parser
  | [] => []
  | p :: ps => p.unchecked :: uncheckedParts ps

end

/-- What is found out, with the checks off. -/
def Resolver.unchecked (r : Resolver) : Resolver where
  planOf c := Plan.unchecked <$> r.planOf c
  aliasParser := r.aliasParser
  boxParser b := Parser.unchecked <$> r.boxParser b
  boxErrorKind := r.boxErrorKind

/-- What the single steps of a resolution have, answers have as well if the checks are taken off. -/
theorem Resolver.Obeys.unchecked {P : {α : Type} → Resolution α → Prop} {r : Resolver}
    (hr : r.Obeys P) (L : StepLaw P) : r.unchecked.Obeys P where
  planOf c := L.map _ (hr.planOf c)
  aliasParser := hr.aliasParser
  boxErrorKind := hr.boxErrorKind
  boxParser b := L.map _ (hr.boxParser b)

theorem uncheckedParts_eq_map (ps : List Parser) : uncheckedParts ps = ps.map Parser.unchecked := by
  induction ps with
  | nil => rfl
  | cons p ps ih => rw [uncheckedParts, List.map_cons, ih]

theorem uncheckedAttempts_eq_map (as : List (Attempt Parser)) :
    uncheckedAttempts as = as.map Attempt.unchecked := by
  induction as with
  | nil => rfl
  | cons a as ih => rw [uncheckedAttempts, List.map_cons, ih]

theorem Plan.unchecked_eq (plan : Plan Parser) :
    plan.unchecked = { plan with attempts := plan.attempts.map Attempt.unchecked } := by
  cases plan
  rw [Plan.unchecked, uncheckedAttempts_eq_map]

theorem Attempt.unchecked_eq (a : Attempt Parser) :
    a.unchecked = { a with parsers := a.parsers.map Parser.unchecked } := by
  cases a
  rw [Attempt.unchecked, uncheckedParts_eq_map]

theorem Attempt.outline_unchecked (a : Attempt Parser) : a.outline = a.unchecked.outline := by
  rw [a.unchecked_eq]
  simp [outline]

theorem Plan.outlines_unchecked (plan : Plan Parser) :
    List.Forall₂ (fun a b => a.outline = b.outline) plan.attempts plan.unchecked.attempts := by
  rw [plan.unchecked_eq]
  exact List.forall₂_map_right_iff.mpr (List.forall₂_same.mpr fun a _ => a.outline_unchecked)

theorem Plan.Ordered.unchecked {plan : Plan Parser} (h : plan.Ordered) : plan.unchecked.Ordered :=
  OrderedAttempts.of_outline plan.outlines_unchecked h

theorem Plan.code_unchecked (plan : Plan Parser) : plan.unchecked.code = plan.code :=
  (code_of_outline plan.outlines_unchecked).symm

/-! ## Descriptions -/

section Descriptions

variable (g : Grammar) (box : BoxId → Except Stop String)

mutual

theorem describeWith_unchecked : ∀ p : Parser,
    p.unchecked.describeWith g box = p.describeWith g box
  | .element _ => rfl
  | .any => rfl
  | .satisfy _ _ => rfl
  | .seq [] => rfl
  | .seq (p :: ps) => by
    show (" ".intercalate <$> describeParts g box (uncheckedParts (p :: ps)) : Except Stop String) =
      _
    rw [describeParts_unchecked (p :: ps)]
    rfl
  | .opt body => congrArg (Functor.map _) (describeWith_unchecked body)
  | .many _ body => congrArg (Functor.map _) (describeWith_unchecked body)
  | .many1 _ body => congrArg (Functor.map _) (describeWith_unchecked body)
  | .either left right => by
    show Parser.describeWith g box (.either left.unchecked right.unchecked) = _
    simp only [Parser.describeWith]
    rw [describeWith_unchecked left, describeWith_unchecked right]
  | .not body => congrArg (Functor.map _) (describeWith_unchecked body)
  | .box _ => rfl
  | .map _ body => describeWith_unchecked body
  | .derived _ => rfl
  | .planned plan => by
    show Except.ok (g.className plan.unchecked.target) = _
    rw [plan.unchecked_eq]
    rfl
  | .generated plan _ => by
    show Except.ok (g.className plan.unchecked.target) = _
    rw [plan.unchecked_eq]
    rfl
  | .recorded _ _ => rfl
  | .misser _ => rfl
  | .unimplemented => rfl
  | .inert => rfl

theorem describeParts_unchecked : ∀ ps : List Parser,
    describeParts g box (uncheckedParts ps) = describeParts g box ps
  | [] => rfl
  | p :: ps => by
    unfold uncheckedParts describeParts
    rw [describeWith_unchecked p, describeParts_unchecked ps]

end

end Descriptions

/-- The flags are no part of a description. -/
theorem Act.describe_unchecked (p : Parser) : Act.describe p.unchecked = Act.describe p := by
  funext m
  show Act.liftStop (m.grammar.describe p.unchecked) m = Act.liftStop (m.grammar.describe p) m
  unfold Grammar.describe
  rw [describeWith_unchecked]

theorem reportArm_unchecked (left right : Parser) (c : CursorId) :
    reportArm left.unchecked right.unchecked c = reportArm left right c := by
  unfold reportArm
  rw [Act.describe_unchecked, Act.describe_unchecked]

/-! ## Other parsers in the places of parts -/

section Changed

variable (call : Entry → Parser → CursorId → Act Outcome) (f : Parser → Parser)

/-- To call other parsers is to make other calls. -/
theorem gather_map (entry : Entry) : ∀ (ps : List Parser) (c : CursorId),
    gather call entry (ps.map f) c = gather (fun entry p => call entry (f p)) entry ps c
  | [], _ => rfl
  | p :: ps, c => by
    unfold gather
    refine congrArg (_ >>= ·) (funext fun o => ?_)
    cases o with
    | matched d v =>
      dsimp only
      rw [gather_map entry ps d]
    | missed => rfl
    | failed e => rfl

/-- A body of which no place is asked for is only called. -/
theorem collect_map (body : Parser) : ∀ (n : Nat) (c : CursorId),
    collect call false (f body) n c =
      collect (fun entry p => call entry (f p)) false body n c
  | 0, _ => rfl
  | n + 1, c => by
    unfold collect
    refine congrArg (_ >>= ·) (funext fun s => congrArg (_ >>= ·) (funext fun o => ?_))
    cases o with
    | matched d v =>
      show (collect call false (f body) n d >>= fun r => pure (r.1, v :: r.2)) =
        collect (fun entry p => call entry (f p)) false body n d >>= fun r => pure (r.1, v :: r.2)
      rw [collect_map body n d]
    | missed => rfl
    | failed e => rfl

theorem collectFirst_map (body : Parser) (n : Nat) (entry : Entry) (c : CursorId) :
    collectFirst call false (f body) n entry c =
      collectFirst (fun entry p => call entry (f p)) false body n entry c := by
  rw [collectFirst_eq, collectFirst_eq]
  show (call entry (f body) c >>= afterFirst call false (f body) n none) =
    call entry (f body) c >>= afterFirst (fun entry p => call entry (f p)) false body n none
  refine congrArg (_ >>= ·) (funext fun o => ?_)
  cases o with
  | matched d v =>
    show (collect call false (f body) n d >>= _) = collect _ false body n d >>= _
    rw [collect_map call f body n d]
  | missed => rfl
  | failed e => rfl

end Changed

section Calls

variable (call : Entry → Parser → CursorId → Act Outcome)

theorem runAttempt_unchecked (entry : Entry) (a : Attempt Parser) (c : CursorId) :
    runAttempt call entry a.unchecked c =
      runAttempt (fun entry p => call entry p.unchecked) entry a c := by
  rw [a.unchecked_eq]
  unfold runAttempt
  rw [gather_map]

theorem runAttempts_unchecked (report : String → CursorId → Act Unit) (entry : Entry) :
    ∀ (as : List (Attempt Parser)) (c : CursorId),
      runAttempts call report entry (as.map Attempt.unchecked) c =
        runAttempts (fun entry p => call entry p.unchecked) report entry as c
  | [], _ => rfl
  | a :: as, c => by
    have hunit : a.unchecked.isUnit = a.isUnit := (isUnit_of_outline a.outline_unchecked).symm
    have hsame : a.unchecked.target = a.target ∧ a.unchecked.snapshot = a.snapshot ∧
        a.unchecked.name = a.name := by
      rw [a.unchecked_eq]
      exact ⟨rfl, rfl, rfl⟩
    have hrest := runAttempts_unchecked report entry as c
    unfold List.map runAttempts
    rw [hunit, hsame.1, hsame.2.1, hsame.2.2]
    simp only [runAttempt_unchecked, hrest]

end Calls

/-! ## One call -/

/-- What a call does where no repetition looks at places. -/
def looseWith (r : Resolver) (n : Nat) (call : Entry → Parser → CursorId → Act Outcome)
    (entry : Entry) (p : Parser) (c : CursorId) : Act Outcome :=
  match p with
  | .many _ body => carryWith r n call entry (.many false body) c
  | .many1 _ body => carryWith r n call entry (.many1 false body) c
  | p => carryWith r n call entry p c

/-- To find something out and change it is to find it out first. -/
theorem Act.resolve_map {α β : Type} (f : α → β) (x : Resolution α) :
    Act.resolve (f <$> x) = f <$> Act.resolve x := by
  funext m
  show Act.resolve (EStateM.map f x) m = EStateM.map f (Act.resolve x) m
  unfold Act.resolve EStateM.map
  dsimp only
  cases x m.grammar <;> rfl

/-- **A call of an unchecked parser is a call of the parser itself** in which no repetition looks at
places, and which calls unchecked parsers. -/
theorem runWith_unchecked {r : Resolver} {n : Nat}
    {call : Entry → Parser → CursorId → Act Outcome} {p : Parser} (hp : p.Authentic) (entry : Entry)
    (c : CursorId) :
    runWith r.unchecked n call entry p.unchecked c =
      looseWith r n (fun entry p => call entry p.unchecked) entry p c := by
  cases p with
  | seq parts =>
    show (gather call entry (uncheckedParts parts) c >>= _) = _
    rw [uncheckedParts_eq_map, gather_map]
    rfl
  | many checked body =>
    show (collect call false body.unchecked n c >>= _) = _
    rw [collect_map call Parser.unchecked body n c]
    rfl
  | many1 checked body => exact collectFirst_map call Parser.unchecked body n entry c
  | either left right =>
    show runWith r.unchecked n call entry (.either left.unchecked right.unchecked) c = _
    conv_lhs => simp only [runWith, reportArm_unchecked]
    rfl
  | not body =>
    show runWith r.unchecked n call entry (.not body.unchecked) c = _
    conv_lhs => simp only [runWith, Act.describe_unchecked]
    rfl
  | box b =>
    show (Act.resolve (Parser.unchecked <$> r.boxParser b) >>= fun q => call entry q c) = _
    rw [Act.resolve_map, ← bind_pure_comp, bind_assoc]
    rfl
  | derived target =>
    show (Act.resolve (Plan.unchecked <$> r.planOf target) >>= fun plan =>
      call entry (.planned plan) c) = _
    rw [Act.resolve_map, ← bind_pure_comp, bind_assoc]
    rfl
  | planned plan =>
    show runAttempts call (reportAttempt plan.unchecked.target) entry plan.unchecked.attempts c = _
    rw [plan.unchecked_eq]
    exact runAttempts_unchecked call (reportAttempt plan.target) entry plan.attempts c
  | generated plan code =>
    obtain ⟨hordered, rfl⟩ := hp
    show plan.code.invoke call plan.unchecked entry c = _
    rw [← plan.code_unchecked, hordered.unchecked.invoke_eq, plan.unchecked_eq]
    exact runAttempts_unchecked call (fun _ _ => pure ()) entry plan.attempts c
  | _ => rfl

end ShapeGrammar
