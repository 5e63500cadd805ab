import ShapeGrammar.Proofs.Factory.Reading
import ShapeGrammar.Proofs.Factory.Simulation
import ShapeGrammar.Proofs.Machine.Lender

/-!
# Factories are faithful

A plan is written out, the text is read, and the factory in it is bound to the plan: the parser that
runs it and one that carries the plan out are the same parser, as long as nobody listens to what the
latter reports. They end in the same way and leave the same machine behind, with the same cursors,
the same elements read and the same calls recorded. The field parsers may be any others than those
that the plan was made with, so each of them may be recorded.

Only the name of the shape gets into the text unchecked: it stands in a comment, and a line end in
it ends the comment.

Headlines: `Attempt.outline`, `Plan.watched`, `runAttempts_quiet`, `factory_faithful`.
-/

namespace ShapeGrammar

open Machine

/-! ## What a factory shows of a plan -/

/-- What a factory shows of an attempt: how many fields it has, and whether it can fall back. -/
def Attempt.outline {P : Type} (a : Attempt P) : Nat × Bool :=
  (a.parsers.length, a.snapshot)

section Outlines

variable {P Q : Type}

theorem isUnit_of_outline {a : Attempt P} {b : Attempt Q} (h : a.outline = b.outline) :
    a.isUnit = b.isUnit := by
  rw [isUnit_eq_decide, isUnit_eq_decide, (Prod.mk.inj h).1]

/-- Attempts with the same outlines are in order together. -/
theorem OrderedAttempts.of_outline : ∀ {as : List (Attempt P)} {bs : List (Attempt Q)},
    List.Forall₂ (fun a b => a.outline = b.outline) as bs → OrderedAttempts as → OrderedAttempts bs
  | [], [], .nil, hord => hord.elim
  | [_], [_], .cons hab .nil, hord => (Prod.mk.inj hab).2.symm.trans hord
  | _ :: _ :: _, _ :: _ :: _, .cons hab hrest, hord =>
    ⟨(isUnit_of_outline hab).symm.trans hord.1, (Prod.mk.inj hab).2.symm.trans hord.2.1,
      OrderedAttempts.of_outline hrest hord.2.2⟩

theorem statements_of_outline {a : Attempt P} {b : Attempt Q} (h : a.outline = b.outline)
    (entry : Entry) (i : Nat) : a.statements entry i = b.statements entry i := by
  unfold Attempt.statements
  rw [isUnit_of_outline h, (Prod.mk.inj h).1, (Prod.mk.inj h).2]

theorem zipIdx_of_outline : ∀ {as : List (Attempt P)} {bs : List (Attempt Q)} (k : Nat),
    List.Forall₂ (fun a b => a.outline = b.outline) as bs →
      List.Forall₂ (fun a b => a.1.outline = b.1.outline ∧ a.2 = b.2) (as.zipIdx k) (bs.zipIdx k)
  | [], [], _, .nil => .nil
  | a :: as, b :: bs, k, .cons hab hrest => by
    rw [List.zipIdx_cons, List.zipIdx_cons]
    exact .cons ⟨hab, rfl⟩ (zipIdx_of_outline (k + 1) hrest)

theorem map_eq_of_forall₂ {α β γ : Type} {R : α → β → Prop} {f : α → γ} {f' : β → γ} {l : List α}
    {l' : List β} (hl : List.Forall₂ R l l') (hf : ∀ {a b}, R a b → f a = f' b) :
    l.map f = l'.map f' := by
  induction hl with
  | nil => rfl
  | cons hab _ ih => rw [List.map_cons, List.map_cons, hf hab, ih]

/-- The body of a factory shows the outlines of the attempts, and nothing else of a plan. -/
theorem code_of_outline {plan : Plan P} {plan' : Plan Q}
    (h : List.Forall₂ (fun a b => a.outline = b.outline) plan.attempts plan'.attempts) :
    plan.code = plan'.code := by
  have hpieces := zipIdx_of_outline 0 h
  have hplaced : List.Forall₂ (fun a b => a.1.outline = b.1.outline ∧ a.2 = b.2)
      (plan.attempts.zipIdx.filter fun a => !a.1.isUnit)
      (plan'.attempts.zipIdx.filter fun a => !a.1.isUnit) := by
    refine List.rel_filter (fun a b hab => ?_) hpieces
    simp only [isUnit_of_outline hab.1]
  have hentry : ∀ entry, plan.entryProcedure entry = plan'.entryProcedure entry := by
    intro entry
    unfold Plan.entryProcedure
    rw [List.flatMap_def, List.flatMap_def, map_eq_of_forall₂ hpieces]
    rintro ⟨a, i⟩ ⟨b, j⟩ ⟨hab, rfl⟩
    exact statements_of_outline hab entry i
  have hrows : plan.unpackings = plan'.unpackings := by
    refine map_eq_of_forall₂ hplaced ?_
    rintro ⟨a, i⟩ ⟨b, j⟩ ⟨hab, rfl⟩
    simp only [(Prod.mk.inj hab).1]
  have hattempts : plan.attemptProcedures = plan'.attemptProcedures := by
    refine map_eq_of_forall₂ hplaced ?_
    rintro ⟨a, i⟩ ⟨b, j⟩ ⟨hab, rfl⟩
    simp only [(Prod.mk.inj hab).1]
  unfold Plan.code Plan.procedures
  rw [h.length_eq, hrows, hattempts, hentry, hentry]

end Outlines

/-! ## Other field parsers -/

/-- The plan with other field parsers: `watch i j` changes that of field `j` of attempt `i`. -/
def Plan.watched (watch : Nat → Nat → Parser → Parser) (plan : Plan Parser) : Plan Parser :=
  { plan with
    attempts := plan.attempts.mapIdx fun i a => { a with parsers := a.parsers.mapIdx (watch i) } }

theorem watched_outline (watch : Nat → Nat → Parser → Parser) (plan : Plan Parser) :
    List.Forall₂ (fun a b => a.outline = b.outline) plan.attempts
      (plan.watched watch).attempts := by
  unfold Plan.watched
  refine List.forall₂_iff_get.mpr ⟨by simp, fun i hi hi' => ?_⟩
  simp [Attempt.outline]

theorem Plan.Ordered.watched {plan : Plan Parser} (h : plan.Ordered)
    (watch : Nat → Nat → Parser → Parser) : (plan.watched watch).Ordered :=
  OrderedAttempts.of_outline (watched_outline watch plan) h

theorem code_watched (watch : Nat → Nat → Parser → Parser) (plan : Plan Parser) :
    (plan.watched watch).code = plan.code :=
  (code_of_outline (watched_outline watch plan)).symm

/-! ## Reports that nobody hears -/

section Quiet

variable {call : Entry → Parser → CursorId → Act Outcome} {c d : CursorId} {m m1 : Machine}

/-- Nobody listens to what is reported at the level of backtracking. -/
def Machine.Quiet (m : Machine) : Prop :=
  LogLevel.debug.heardFrom m.grammar.threshold = false

theorem Machine.Quiet.lent (hquiet : m.Quiet) (h : Lent c m m1) : m1.Quiet := by
  unfold Machine.Quiet
  rw [h.grammar.threshold]
  exact hquiet

theorem listens_of_quiet (hquiet : m.Quiet) : Act.listens .debug m = .ok false m := by
  show EStateM.Result.ok _ m = _
  rw [hquiet]

theorem reportAttempt_of_quiet (hquiet : m.Quiet) (target : ClassRef) (name : String)
    (c : CursorId) : reportAttempt target name c m = .ok () m := by
  unfold reportAttempt
  rw [bind_of_ok (listens_of_quiet hquiet)]
  rfl

/-- Where nobody listens, attempts are made as if nothing was reported. -/
theorem runAttempts_quiet (hcall : Lender call) (hquiet : m.Quiet) (target : ClassRef)
    (entry : Entry) : ∀ {as : List (Attempt Parser)} {m1 : Machine}, Lent c m m1 → Held c m m1 d →
      runAttempts call (reportAttempt target) entry as d m1 =
        runAttempts call (fun _ _ => pure ()) entry as d m1
  | [], _, _, _ => rfl
  | a :: rest, m1, h, hd => by
    unfold runAttempts
    split
    · rfl
    · split
      · rfl
      · refine bind_congr_at fun {s m2} hs => bind_congr_at fun {o m3} ho => ?_
        obtain ⟨h2, hsize2, hs⟩ := (lends_snapshot_held h hd).of_ok hs
        obtain ⟨h3, hsize3, -⟩ := (lends_runAttempt hcall .fallible a h2 hs).of_ok ho
        have hd3 : Held c m m3 d := hd.mono (Nat.le_trans hsize2 hsize3)
        have hnext : (reportAttempt target a.name d >>= fun _ =>
            runAttempts call (reportAttempt target) entry rest d) m3 =
              (pure () >>= fun _ => runAttempts call (fun _ _ => pure ()) entry rest d) m3 := by
          rw [bind_of_ok (reportAttempt_of_quiet (hquiet.lent h3) target a.name d), pure_bind]
          exact runAttempts_quiet hcall hquiet target entry h3 hd3
        cases o with
        | matched e v => rfl
        | missed => exact hnext
        | failed e => exact hnext

end Quiet

/-! ## The theorem -/

/-- A plan whose shape has a name on one line is turned into a parser that runs its factory. -/
theorem generatedParser_eq_ok {plan : Plan Parser} (hordered : plan.Ordered) {h : Grammar}
    (htitle : OneLine (h.fullName plan.target)) :
    generatedParser plan h = .ok (.generated plan plan.code) h := by
  have hread := hordered.ofText_generate htitle isName_factoryName
  unfold generatedParser
  show (Resolution.lift (Code.ofText _ _) >>= fun code => Resolution.lift (code.bind plan) >>=
    fun _ => pure (Parser.generated plan code)) h = _
  rw [hread]
  show (Resolution.lift (plan.code.bind plan) >>= _) h = _
  rw [plan.bind_code]
  rfl

/-- **A factory is faithful to its plan.** If the name of the shape stands on one line, the text of
the factory is read as a factory in which the names are in order, which is what the parser runs that
is generated for the plan. It can be bound to the classes and any field parsers of the plan, and
either entry point then runs as the plan is carried out. -/
theorem factory_faithful {r : Resolver} {schema : Schema} {plan : Plan Parser} {g g' : Grammar}
    (hplan : planSchema r schema g = .ok plan g') {title : String} (htitle : OneLine title)
    (watch : Nat → Nat → Parser → Parser) :
    ∃ code, Code.ofText factoryName (plan.generate title factoryName) = .ok code ∧
      code.WellNamed ∧
      (∀ h : Grammar, h.fullName plan.target = title →
        generatedParser plan h = .ok (.generated plan code) h) ∧
      (∃ bound, code.bind (plan.watched watch) = .ok bound) ∧
      ∀ (k n : Nat) (entry : Entry) (c : CursorId) (m : Machine), c < m.cursors.size → m.Quiet →
        run (resolver k) n entry (.generated (plan.watched watch) code) c m =
          run (resolver k) n entry (.planned (plan.watched watch)) c m := by
  have hordered : plan.Ordered := planSchema_ordered hplan
  have hwatched := hordered.watched watch
  have hbind := (plan.watched watch).bind_code
  rw [code_watched watch plan] at hbind
  refine ⟨plan.code, hordered.ofText_generate htitle isName_factoryName, hordered.wellNamed,
    fun h hname => generatedParser_eq_ok hordered (hname ▸ htitle), ⟨_, hbind⟩,
    fun k n entry c m hc hquiet => ?_⟩
  cases n with
  | zero => rfl
  | succ n =>
    show plan.code.invoke (run (resolver k) n) (plan.watched watch) entry c m =
      runAttempts (run (resolver k) n) (reportAttempt plan.target) entry
        (plan.watched watch).attempts c m
    rw [← code_watched watch plan, hwatched.invoke_eq,
      runAttempts_quiet (run_lender (resolver_grows k) n) hquiet plan.target entry (.refl hc)
        (.refl hc)]

/-- Records every field parser under the name that it has in the factory. -/
def recordFields (i j : Nat) (p : Parser) : Parser :=
  .recorded (parserName i j) p

/-- A choice between two letters and one. -/
def letterSchema : Schema :=
  .sum (.declared 0)
    [⟨"Pair", .declared 1, [⟨"left", .cls (.character 'a')⟩, ⟨"right", .cls (.character 'b')⟩]⟩,
      ⟨"Single", .declared 2, [⟨"only", .cls (.character 'b')⟩]⟩]

/-- The plan of `letterSchema`. -/
def letterPlan : Plan Parser where
  target := .declared 0
  kind := .sum
  attempts :=
    [⟨"Pair", .declared 1, [.character 'a', .character 'b'], true⟩,
      ⟨"Single", .declared 2, [.character 'b'], false⟩]
  errorKind := some .element

theorem factory_faithful_letters :
    planSchema (resolver 0) letterSchema (.empty none) = .ok letterPlan (.empty none) ∧
      OneLine "grammar.Letters" ∧ 0 < (reading (.empty none) "ac").cursors.size ∧
      (reading (.empty none) "ac").Quiet ∧
      ∃ code, Code.ofText factoryName (letterPlan.generate "grammar.Letters" factoryName) =
          .ok code ∧
        run (resolver 0) 5 .total (.generated (letterPlan.watched recordFields) code) 0
            (reading (.empty none) "ac") =
          run (resolver 0) 5 .total (.planned (letterPlan.watched recordFields)) 0
            (reading (.empty none) "ac") := by
  have hplan : planSchema (resolver 0) letterSchema (.empty none) =
      .ok letterPlan (.empty none) := rfl
  have htitle : OneLine "grammar.Letters" := by decide
  have hc : 0 < (reading (.empty none) "ac").cursors.size := by decide
  have hquiet : (reading (.empty none) "ac").Quiet := rfl
  obtain ⟨code, hread, -, -, -, hruns⟩ := factory_faithful hplan htitle recordFields
  exact ⟨hplan, htitle, hc, hquiet, code, hread, hruns 0 5 .total 0 _ hc hquiet⟩

end ShapeGrammar
