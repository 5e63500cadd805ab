import ShapeGrammar.Proofs.Machine.Handles

/-!
# Pairs of runs

Two runs that make the same calls on cursors of the same numbers, and differ in how much fuel they
have, in the state they begin in, in where in an input they are, or in who makes the calls inside
them. Cursors that stand for each other are equal here, and so are related outcomes; everything is
taken over from there.

Headlines: `PairLaw`, `PairLaw.handles`, `PairLaw.runAttempts`, `PairLaw.runWith`, `PairLaw.run`.
-/

namespace ShapeGrammar

/-- A relation between computations, given one between their answers, that the primitives respect
where they are asked for at related places. -/
structure PairLaw (R : {α β : Type} → (α → β → Prop) → Act α → Act β → Prop)
    (places : Nat → Nat → Prop) (entries : Entry → Prop) : Prop
    extends AnswerLaw R places entries where
  next : ∀ c, R Eq (Act.next c) (Act.next c)
  snapshot : ∀ c, R Eq (Act.snapshot c) (Act.snapshot c)
  position : ∀ c, R places (Act.position c) (Act.position c)

/-- Calls that are related, of some parsers at some entry points. -/
def CallsPair (R : {α β : Type} → (α → β → Prop) → Act α → Act β → Prop) (entries : Entry → Prop)
    (P : Parser → Prop) (call call' : Entry → Parser → CursorId → Act Outcome) : Prop :=
  ∀ entry p c, entries entry → P p → R Eq (call entry p c) (call' entry p c)

theorem slots_along_eq (slots : Table Slot) : SlotsAlong Eq slots slots := by
  intro name
  cases slots.get? name with
  | none => exact .none
  | some s =>
    cases s with
    | cursor c => exact .some (.cursor rfl)
    | value v => exact .some (.value v)
    | outcome o => exact .some (.outcome (Outcome.along_eq_iff.mpr rfl))

namespace PairLaw

variable {R : {α β : Type} → (α → β → Prop) → Act α → Act β → Prop} {places : Nat → Nat → Prop}
  {entries : Entry → Prop} (L : PairLaw R places entries)
include L

/-- Cursors that stand for each other are equal. -/
theorem handles : HandleLaw R Eq places entries where
  toAnswerLaw := L.toAnswerLaw
  next h := h ▸ L.next _
  snapshot h := h ▸ L.snapshot _
  position h := h ▸ L.position _

theorem along {x y : Act Outcome} (h : R Eq x y) : R (Outcome.Along Eq) x y :=
  L.mono h Outcome.along_eq_iff.mpr

theorem of_along {x y : Act Outcome} (h : R (Outcome.Along Eq) x y) : R Eq x y :=
  L.mono h Outcome.along_eq_iff.mp

/-! ## Reports and marks -/

theorem reportArm (left right : Parser) (c : CursorId) :
    R Eq (reportArm left right c) (reportArm left right c) :=
  L.handles.reportArm rfl left right

theorem reportAttempt (target : ClassRef) (name : String) (c : CursorId) :
    R Eq (reportAttempt target name c) (reportAttempt target name c) :=
  L.handles.reportAttempt rfl target name

theorem readElement (accept : Value → Bool) (expected : Value) (c : CursorId) :
    R Eq (readElement accept expected c) (readElement accept expected c) :=
  L.of_along (L.handles.readElement rfl accept expected)

/-- Marks are compared with places only, and that comes out alike. -/
theorem checkMark (body : Parser) {start start' : Option Nat} (h : Marks places start start')
    (c : CursorId) : R Eq (checkMark body start c) (checkMark body start' c) :=
  L.handles.checkMark rfl body h

/-! ## Parts, repetition and attempts -/

section Calls

variable {call call' : Entry → Parser → CursorId → Act Outcome} {P : Parser → Prop}
  (hcall : CallsPair R entries P call call')
include hcall

theorem callsAlong : CallsAlong R Eq entries P call call' :=
  fun entry p _ _ he hp hc => hc ▸ L.along (hcall entry p _ he hp)

theorem gather {entry : Entry} (he : entries entry) {ps : List Parser} (c : CursorId)
    (hps : ∀ p ∈ ps, P p) : R Eq (gather call entry ps c) (gather call' entry ps c) :=
  L.mono (L.handles.gather (L.callsAlong hcall) he rfl hps) gathered_along_eq_iff.mp

theorem collect (checked : Bool) {body : Parser} (hbody : P body) {n n' : Nat} (c : CursorId)
    (h : Spans R n n') : R Eq (collect call checked body n c) (collect call' checked body n' c) :=
  L.mono (L.handles.collect (L.callsAlong hcall) checked hbody rfl h) fun hr => Prod.ext hr.1 hr.2

theorem runAttempt {entry : Entry} (he : entries entry) (a : Attempt Parser) (c : CursorId)
    (ha : ∀ p ∈ a.parsers, P p) :
    R Eq (runAttempt call entry a c) (runAttempt call' entry a c) :=
  L.of_along (L.handles.runAttempt (L.callsAlong hcall) he a rfl ha)

theorem runAttempts {report report' : String → CursorId → Act Unit}
    (hreport : ∀ name c, R Eq (report name c) (report' name c)) {entry : Entry}
    (he : entries entry) {as : List (Attempt Parser)} (c : CursorId)
    (has : ∀ a ∈ as, ∀ p ∈ a.parsers, P p) :
    R Eq (runAttempts call report entry as c) (runAttempts call' report' entry as c) :=
  L.of_along (L.handles.runAttempts (L.callsAlong hcall)
    (fun name _ _ hc => hc ▸ hreport name _) he rfl has)

/-- **A call respects the law if the calls inside it do.** What delayed parsers, classes and
factories do is up to them. -/
theorem runWith {r r' : Resolver} {g : Grammar}
    (hparts : ∀ {p q}, P p → q ∈ p.parts g → P q) {n n' : Nat} (hn : Spans R n n')
    {entry : Entry} (he : entries entry) {p : Parser} (hp : P p) (c : CursorId)
    (hbox : ∀ {b}, p = .box b → R Eq (Act.resolve (r.boxParser b) >>= fun q => call entry q c)
      (Act.resolve (r'.boxParser b) >>= fun q => call' entry q c))
    (hplan : ∀ {target}, p = .derived target →
      R Eq (Act.resolve (r.planOf target) >>= fun plan => call entry (.planned plan) c)
        (Act.resolve (r'.planOf target) >>= fun plan => call' entry (.planned plan) c))
    (hfactory : ∀ {plan code}, p = .generated plan code →
      R Eq (code.invoke call plan entry c) (code.invoke call' plan entry c)) :
    R Eq (runWith r n call entry p c) (runWith r' n' call' entry p c) :=
  L.of_along (L.handles.runWith (L.callsAlong hcall) hparts hn he hp rfl
    (fun h => L.along (hbox h)) (fun h => L.along (hplan h)) fun h => L.along (hfactory h))

end Calls

/-! ## Factories -/

section Statements

variable {call call' : Entry → Parser → CursorId → Act Outcome}
  {attempt attempt' : Procedure → CursorId → Act Outcome}
  (hcall : ∀ entry p c, R Eq (call entry p c) (call' entry p c))
include hcall

theorem runStatements (hattempt : ∀ p c, R Eq (attempt p c) (attempt' p c)) (items : Table Item)
    (slots : Table Slot) (body : List Statement) :
    R Eq (runStatements call attempt items slots body)
      (runStatements call' attempt' items slots body) :=
  L.of_along (L.handles.runStatements (fun entry p _ _ hc => hc ▸ L.along (hcall entry p _))
    (fun p _ _ hc => hc ▸ L.along (hattempt p _)) items body (slots_along_eq slots))

theorem procedure (items : Table Item) (depth : Nat) (p : Procedure) (c : CursorId) :
    R Eq (Procedure.run call items depth p c) (Procedure.run call' items depth p c) :=
  L.of_along (L.handles.procedure (fun entry p _ _ hc => hc ▸ L.along (hcall entry p _)) items
    depth p rfl)

end Statements

/-! ## Runs -/

section Runs

variable {r r' : Resolver} (hentries : ∀ entry, entries entry)
  (hbox : ∀ b, R Eq (Act.resolve (r.boxParser b)) (Act.resolve (r'.boxParser b)))
  (hplan : ∀ c, R Eq (Act.resolve (r.planOf c)) (Act.resolve (r'.planOf c)))
include hentries hbox hplan

/-- A call of any parser respects the law, if all calls inside it do and it asks related
questions. -/
theorem runWithAny {call call' : Entry → Parser → CursorId → Act Outcome}
    (hcall : ∀ entry p c, R Eq (call entry p c) (call' entry p c)) {n n' : Nat} (hn : Spans R n n')
    (entry : Entry) (p : Parser) (c : CursorId) :
    R Eq (ShapeGrammar.runWith r n call entry p c) (ShapeGrammar.runWith r' n' call' entry p c) :=
  L.of_along (L.handles.runWithAny hentries hbox hplan
    (fun entry p _ _ hc => hc ▸ L.along (hcall entry p _)) hn entry p rfl)

/-- **Runs respect every law of the primitives**, if they ask related questions. -/
theorem run {n n' : Nat} (entry : Entry) (p : Parser) (c : CursorId) (h : Spans R n n') :
    R Eq (run r n entry p c) (run r' n' entry p c) :=
  L.of_along (L.handles.run hentries hbox hplan entry p rfl h)

end Runs

end PairLaw

end ShapeGrammar
