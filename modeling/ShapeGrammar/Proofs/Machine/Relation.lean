import ShapeGrammar.Proofs.Machine.Pairing

/-!
# Relations that runs respect

Two runs that differ in how much fuel they have, or in the state they begin in, do the same thing
step by step. What "the same" is varies: it may leave out the trace, or the reports, or the case
that fuel runs out. Whatever relation between computations holds of the primitives and is kept by
doing one after the other holds of what is composed of related calls, and so of whole runs.

Such a relation speaks of computations that answer the same. It gives one of computations whose
answers are related: whatever the two are followed by, if it is related for related answers, is
related for the whole. That one is a law of pairs of runs, from which everything is taken over.

Headlines: `RunLaw`, `RunLaw.pair`, `RunLaw.runAttempts`, `RunLaw.run`.
-/

namespace ShapeGrammar

/-- A relation between computations that the primitives respect. -/
structure RunLaw (R : {α : Type} → Act α → Act α → Prop) : Prop where
  pure : ∀ {α : Type} (a : α), R (pure a) (pure a)
  stop : ∀ {α : Type} (e : Stop), R (throw e : Act α) (throw e)
  bind : ∀ {α β : Type} {x y : Act α} {f g : α → Act β}, R x y → (∀ a, R (f a) (g a)) →
    R (x >>= f) (y >>= g)
  next : ∀ c, R (Act.next c) (Act.next c)
  snapshot : ∀ c, R (Act.snapshot c) (Act.snapshot c)
  position : ∀ c, R (Act.position c) (Act.position c)
  describe : ∀ p, R (Act.describe p) (Act.describe p)
  className : ∀ target, R (Act.className target) (Act.className target)
  listens : ∀ level, R (Act.listens level) (Act.listens level)
  report : ∀ r, R (Act.report r) (Act.report r)
  note : ∀ e, R (Act.note e) (Act.note e)
  construct : ∀ target vs, R (Act.construct target vs) (Act.construct target vs)

/-- So much fuel is covered by so much: it is as much, or running out is related to everything. -/
def Covers (R : {α : Type} → Act α → Act α → Prop) (n n' : Nat) : Prop :=
  n = n' ∨ n ≤ n' ∧ ∀ {α : Type} (y : Act α), R (throw .outOfFuel : Act α) y

/-- Two computations are related by all that they may be followed by. -/
def Continued (R : {α : Type} → Act α → Act α → Prop) {α β : Type} (A : α → β → Prop) (x : Act α)
    (y : Act β) : Prop :=
  ∀ (γ : Type) (f : α → Act γ) (g : β → Act γ), (∀ a b, A a b → R (f a) (g b)) →
    R (x >>= f) (y >>= g)

theorem Covers.spans {R : {α : Type} → Act α → Act α → Prop} {n n' : Nat} (h : Covers R n n') :
    Spans (Continued R) n n' :=
  h.imp id fun ⟨hle, hany⟩ => ⟨hle, fun _ _ _ _ _ _ => hany _⟩

namespace RunLaw

variable {R : {α : Type} → Act α → Act α → Prop} (L : RunLaw R) {α : Type} {x y : Act α}
include L

theorem continued (h : R x y) : Continued R Eq x y :=
  fun _ _ _ hf => L.bind h fun a => hf a a rfl

theorem of_continued (h : Continued R Eq x y) : R x y := by
  have hpure := h α Pure.pure Pure.pure fun a _ hab => hab ▸ L.pure a
  rwa [bind_pure, bind_pure] at hpure

/-- **What runs respect, pairs of runs respect as well**, at any entry points. -/
theorem pair {entries : Entry → Prop} (hfallible : entries .fallible) :
    PairLaw (Continued R) Eq entries where
  fallible := hfallible
  order h h' := by rw [h, h']
  pure hab _ _ _ hf := by
    rw [pure_bind, pure_bind]
    exact hf _ _ hab
  stop e _ _ _ _ := L.stop e
  bind hx hf γ _ _ hg := by
    rw [bind_assoc, bind_assoc]
    exact hx γ _ _ fun _ _ hab => hf hab γ _ _ hg
  next c := L.continued (L.next c)
  snapshot c := L.continued (L.snapshot c)
  position c := L.continued (L.position c)
  describe p := L.continued (L.describe p)
  className target := L.continued (L.className target)
  listens level := L.continued (L.listens level)
  armMissed h := by
    subst h
    exact L.continued (L.report _)
  attemptMissed h := by
    subst h
    exact L.continued (L.report _)
  note _ h := by
    subst h
    exact L.continued (L.note _)
  zeroWidth h := by
    subst h
    exact fun _ _ _ _ => L.stop _
  construct target vs := L.continued (L.construct target vs)

theorem pairAll : PairLaw (Continued R) Eq fun _ => True :=
  L.pair trivial

theorem lift {α : Type} (x : Except Fault α) : R (Act.lift x) (Act.lift x) :=
  L.of_continued (L.pairAll.lift x)

/-! ## Reports and marks -/

theorem reportArm (left right : Parser) (c : CursorId) :
    R (reportArm left right c) (reportArm left right c) :=
  L.of_continued (L.pairAll.reportArm left right c)

theorem reportAttempt (target : ClassRef) (name : String) (c : CursorId) :
    R (reportAttempt target name c) (reportAttempt target name c) :=
  L.of_continued (L.pairAll.reportAttempt target name c)

theorem mark (checked : Bool) (c : CursorId) : R (mark checked c) (mark checked c) := by
  cases checked with
  | false => exact L.pure none
  | true => exact L.of_continued (L.pairAll.mapEq (L.continued (L.position c)) some)

theorem checkMark (body : Parser) (start : Option Nat) (c : CursorId) :
    R (checkMark body start c) (checkMark body start c) :=
  L.of_continued (L.pairAll.checkMark body (.refl start) c)

/-! ## Parts, repetition and attempts -/

section Calls

variable {call call' : Entry → Parser → CursorId → Act Outcome}
  (hcall : ∀ entry p c, R (call entry p c) (call' entry p c))
include hcall

theorem callsPair : CallsPair (Continued R) (fun _ => True) (fun _ => True) call call' :=
  fun entry p c _ _ => L.continued (hcall entry p c)

theorem gather (entry : Entry) (ps : List Parser) (c : CursorId) :
    R (gather call entry ps c) (gather call' entry ps c) :=
  L.of_continued (L.pairAll.gather (L.callsPair hcall) trivial c fun _ _ => trivial)

theorem collect (checked : Bool) (body : Parser) {n n' : Nat} (c : CursorId) (h : Covers R n n') :
    R (collect call checked body n c) (collect call' checked body n' c) :=
  L.of_continued (L.pairAll.collect (L.callsPair hcall) checked trivial c h.spans)

theorem runAttempt (entry : Entry) (a : Attempt Parser) (c : CursorId) :
    R (runAttempt call entry a c) (runAttempt call' entry a c) :=
  L.of_continued (L.pairAll.runAttempt (L.callsPair hcall) trivial a c fun _ _ => trivial)

theorem runAttempts {report report' : String → CursorId → Act Unit}
    (hreport : ∀ name c, R (report name c) (report' name c)) (entry : Entry)
    (as : List (Attempt Parser)) (c : CursorId) :
    R (runAttempts call report entry as c) (runAttempts call' report' entry as c) :=
  L.of_continued (L.pairAll.runAttempts (L.callsPair hcall)
    (fun name c => L.continued (hreport name c)) trivial c fun _ _ _ _ => trivial)

theorem runStatements {attempt attempt' : Procedure → CursorId → Act Outcome}
    (hattempt : ∀ p c, R (attempt p c) (attempt' p c)) (items : Table Item) (slots : Table Slot)
    (body : List Statement) :
    R (runStatements call attempt items slots body)
      (runStatements call' attempt' items slots body) :=
  L.of_continued (L.pairAll.runStatements (fun entry p c => L.continued (hcall entry p c))
    (fun p c => L.continued (hattempt p c)) items slots body)

theorem procedure (items : Table Item) (depth : Nat) (p : Procedure) (c : CursorId) :
    R (Procedure.run call items depth p c) (Procedure.run call' items depth p c) :=
  L.of_continued
    (L.pairAll.procedure (fun entry p c => L.continued (hcall entry p c)) items depth p c)

end Calls

/-! ## Runs -/

section Runs

variable {r r' : Resolver}
  (hbox : ∀ b, R (Act.resolve (r.boxParser b)) (Act.resolve (r'.boxParser b)))
  (hplan : ∀ c, R (Act.resolve (r.planOf c)) (Act.resolve (r'.planOf c)))
include hbox hplan

/-- A call respects every law of the primitives, if the calls inside it do. -/
theorem runWith {call call' : Entry → Parser → CursorId → Act Outcome}
    (hcall : ∀ entry p c, R (call entry p c) (call' entry p c)) {n n' : Nat} (entry : Entry)
    (p : Parser) (c : CursorId) (h : Covers R n n') :
    R (runWith r n call entry p c) (runWith r' n' call' entry p c) :=
  L.of_continued (L.pairAll.runWithAny (fun _ => trivial) (fun b => L.continued (hbox b))
    (fun c => L.continued (hplan c)) (fun entry p c => L.continued (hcall entry p c)) h.spans
    entry p c)

/-- **Runs respect every law of the primitives**, if they ask related questions. -/
theorem run {n n' : Nat} (entry : Entry) (p : Parser) (c : CursorId) (h : Covers R n n') :
    R (run r n entry p c) (run r' n' entry p c) :=
  L.of_continued (L.pairAll.run (fun _ => trivial) (fun b => L.continued (hbox b))
    (fun c => L.continued (hplan c)) entry p c h.spans)

end Runs

end RunLaw

end ShapeGrammar
