import ShapeGrammar.Proofs.Computation
import ShapeGrammar.Proofs.Machine.Unfolding
import ShapeGrammar.Proofs.Peg.Leads

/-!
# Runs on cursors that stand for each other

Two runs that do the same thing step by step may still differ: in how much fuel they have, in the
state they begin in, in where in an input they are, in which numbers their cursors have, or in who
makes the calls inside them. What they have in common is a relation between computations whose
answers are related. Places and numbers of cursors are the only answers of the primitives that may
differ. All that is ever done with places is to compare them and to report them, and all that is
done with the number of a cursor is to hand it on. Whatever relation the primitives respect, and
sequences keep, is respected by everything composed of related calls, and so by whole runs.

The calls may be related for some parsers and for some entry points only, if those parsers contain
their parts, and the fallible entry point is among those.

Headlines: `AnswerLaw`, `HandleLaw`, `Outcome.Along`, `HandleLaw.runAttempts`, `HandleLaw.runWith`,
`HandleLaw.invoke`, `HandleLaw.run`.
-/

namespace ShapeGrammar

/-- A relation between computations, given one between their answers, that the primitives which
touch no cursor respect where they are asked for at related places. -/
structure AnswerLaw (R : {α β : Type} → (α → β → Prop) → Act α → Act β → Prop)
    (places : Nat → Nat → Prop) (entries : Entry → Prop) : Prop where
  fallible : entries .fallible
  order : ∀ {i i' j j'}, places i i' → places j j' → (i ≤ j ↔ i' ≤ j')
  pure : ∀ {α β : Type} {A : α → β → Prop} {a b}, A a b → R A (pure a) (pure b)
  stop : ∀ {α β : Type} {A : α → β → Prop} (e : Stop), R A (throw e : Act α) (throw e : Act β)
  bind : ∀ {α β γ δ : Type} {A : α → β → Prop} {B : γ → δ → Prop} {x : Act α} {y : Act β}
    {f : α → Act γ} {g : β → Act δ}, R A x y → (∀ {a b}, A a b → R B (f a) (g b)) →
    R B (x >>= f) (y >>= g)
  describe : ∀ p, R Eq (Act.describe p) (Act.describe p)
  className : ∀ target, R Eq (Act.className target) (Act.className target)
  listens : ∀ level, R Eq (Act.listens level) (Act.listens level)
  armMissed : ∀ {l r k k'}, places k k' →
    R Eq (Act.report (.armMissed l k r)) (Act.report (.armMissed l k' r))
  attemptMissed : ∀ {name attempt k k'}, places k k' →
    R Eq (Act.report (.attemptMissed name attempt k)) (Act.report (.attemptMissed name attempt k'))
  note : ∀ {name entry k k'}, entries entry → places k k' →
    R Eq (Act.note ⟨name, entry, k⟩) (Act.note ⟨name, entry, k'⟩)
  zeroWidth : ∀ {α β : Type} {A : α → β → Prop} {d k k'}, places k k' →
    R A (Act.fail (.zeroWidth d k) : Act α) (Act.fail (.zeroWidth d k') : Act β)
  construct : ∀ target vs, R Eq (Act.construct target vs) (Act.construct target vs)

/-- A relation that all primitives respect, on cursors that stand for each other. -/
structure HandleLaw (R : {α β : Type} → (α → β → Prop) → Act α → Act β → Prop)
    (handles : CursorId → CursorId → Prop) (places : Nat → Nat → Prop) (entries : Entry → Prop) :
    Prop extends AnswerLaw R places entries where
  next : ∀ {c c'}, handles c c' → R Eq (Act.next c) (Act.next c')
  snapshot : ∀ {c c'}, handles c c' → R handles (Act.snapshot c) (Act.snapshot c')
  position : ∀ {c c'}, handles c c' → R places (Act.position c) (Act.position c')

/-- So much fuel spans so much: it is as much, or running out is related to everything. -/
def Spans (R : {α β : Type} → (α → β → Prop) → Act α → Act β → Prop) (n n' : Nat) : Prop :=
  n = n' ∨ n ≤ n' ∧
    ∀ {α β : Type} (A : α → β → Prop) (y : Act β), R A (throw .outOfFuel : Act α) y

theorem Spans.succ {R : {α β : Type} → (α → β → Prop) → Act α → Act β → Prop} {n n' : Nat}
    (h : Spans R (n + 1) n') : ∃ k, n' = k + 1 ∧ Spans R n k := by
  rcases h with rfl | ⟨hle, hany⟩
  · exact ⟨n, rfl, .inl rfl⟩
  · exact ⟨n' - 1, by omega, .inr ⟨by omega, hany⟩⟩

/-- A place to get beyond, or none, on both sides. -/
inductive Marks (places : Nat → Nat → Prop) : Option Nat → Option Nat → Prop
  | none : Marks places none none
  | some {k k' : Nat} (h : places k k') : Marks places (some k) (some k')

/-- One place to get beyond, for both sides. -/
theorem Marks.refl (start : Option Nat) : Marks Eq start start := by
  cases start with
  | none => exact .none
  | some k => exact .some rfl

/-! ## What is answered alike -/

section Alike

variable (handles : CursorId → CursorId → Prop)

/-- The same outcome, but for the number of the cursor behind a match. -/
inductive Outcome.Along : Outcome → Outcome → Prop
  | matched {d d'} (handle : handles d d') (v : Value) : Along (.matched d v) (.matched d' v)
  | missed : Along .missed .missed
  | failed (e : Failure) : Along (.failed e) (.failed e)

/-- The same parts, but for the number of the cursor behind them. -/
inductive Gathered.Along : Gathered → Gathered → Prop
  | all {d d'} (handle : handles d d') (vs : List Value) : Along (.all d vs) (.all d' vs)
  | stopped {o o'} (outcome : o.Along handles o') : Along (.stopped o) (.stopped o')

/-- The same matches of a repetition, but for the number of the cursor behind them. -/
def CollectedAlong (r r' : CursorId × List Value) : Prop :=
  handles r.1 r'.1 ∧ r.2 = r'.2

/-- The same content of a variable, but for numbers of cursors. -/
inductive Slot.Along : Slot → Slot → Prop
  | cursor {c c'} (handle : handles c c') : Along (.cursor c) (.cursor c')
  | value (v : Value) : Along (.value v) (.value v)
  | outcome {o o'} (outcome : o.Along handles o') : Along (.outcome o) (.outcome o')

/-- The same contents of all variables, but for numbers of cursors. -/
def SlotsAlong (slots slots' : Table Slot) : Prop :=
  ∀ name, Option.Rel (Slot.Along handles) (slots.get? name) (slots'.get? name)

/-- A procedure has come as far, but for numbers of cursors. -/
inductive Progress.Along : Progress → Progress → Prop
  | running {slots slots'} (h : SlotsAlong handles slots slots') :
    Along (.running slots) (.running slots')
  | returned {o o'} (outcome : o.Along handles o') : Along (.returned o) (.returned o')

end Alike

namespace Outcome

variable {handles : CursorId → CursorId → Prop} {o o' : Outcome}

theorem Along.mapValue (h : o.Along handles o') (f : Value → Value) :
    (o.mapValue f).Along handles (o'.mapValue f) := by
  cases h with
  | matched handle v => exact .matched handle (f v)
  | missed => exact .missed
  | failed e => exact .failed e

theorem Along.seenBy (h : o.Along handles o') (entry : Entry) :
    (o.seenBy entry).Along handles (o'.seenBy entry) := by
  cases entry with
  | total => exact h
  | fallible =>
    cases h with
    | matched handle v => exact .matched handle v
    | missed => exact .missed
    | failed e => exact .missed

/-- With the same numbers, it is the same outcome. -/
theorem along_eq_iff : o.Along Eq o' ↔ o = o' := by
  constructor
  · rintro (⟨rfl, v⟩ | _ | e) <;> rfl
  · rintro rfl
    cases o with
    | matched d v => exact .matched rfl v
    | missed => exact .missed
    | failed e => exact .failed e

end Outcome

theorem gathered_along_eq_iff {r r' : Gathered} : r.Along Eq r' ↔ r = r' := by
  constructor
  · rintro (⟨rfl, vs⟩ | h)
    · rfl
    · rw [Outcome.along_eq_iff.mp h]
  · rintro rfl
    cases r with
    | all d vs => exact .all rfl vs
    | stopped o => exact .stopped (Outcome.along_eq_iff.mpr rfl)

section Variables

variable {handles : CursorId → CursorId → Prop} {slots slots' : Table Slot}

theorem SlotsAlong.put (h : SlotsAlong handles slots slots') (name : String) {s s' : Slot}
    (hs : s.Along handles s') : SlotsAlong handles (slots.put name s) (slots'.put name s') := by
  intro other
  by_cases hname : name = other
  · rw [← hname, Table.get?_put_self, Table.get?_put_self]
    exact .some hs
  · rw [Table.get?_put_of_ne _ _ hname, Table.get?_put_of_ne _ _ hname]
    exact h other

/-- Related answers, or the same fault. -/
inductive LookedUp {α β : Type} (A : α → β → Prop) : Except Fault α → Except Fault β → Prop
  | ok {a b} (h : A a b) : LookedUp A (.ok a) (.ok b)
  | error (e : Fault) : LookedUp A (.error e) (.error e)

theorem cursorIn_along (h : SlotsAlong handles slots slots') (name : String) :
    LookedUp handles (cursorIn slots name) (cursorIn slots' name) := by
  have hname := h name
  unfold cursorIn
  generalize slots.get? name = s at hname ⊢
  generalize slots'.get? name = s' at hname ⊢
  rcases hname with ⟨⟨handle⟩ | v | o⟩ | _
  · exact .ok handle
  · exact .error _
  · exact .error _
  · exact .error _

theorem outcomeIn_along (h : SlotsAlong handles slots slots') (name : String) :
    LookedUp (Outcome.Along handles) (outcomeIn slots name) (outcomeIn slots' name) := by
  have hname := h name
  unfold outcomeIn
  generalize slots.get? name = s at hname ⊢
  generalize slots'.get? name = s' at hname ⊢
  rcases hname with ⟨c | v | ⟨outcome⟩⟩ | _
  · exact .error _
  · exact .error _
  · exact .ok outcome
  · exact .error _

theorem valuesIn_along (h : SlotsAlong handles slots slots') (names : List String) :
    valuesIn slots names = valuesIn slots' names := by
  unfold valuesIn
  congr 1
  funext name
  have hname := h name
  generalize slots.get? name = s at hname ⊢
  generalize slots'.get? name = s' at hname ⊢
  rcases hname with ⟨c | v | o⟩ | _ <;> rfl

end Variables

/-- Calls that are related, of some parsers at some entry points, on cursors that stand for each
other. -/
def CallsAlong (R : {α β : Type} → (α → β → Prop) → Act α → Act β → Prop)
    (handles : CursorId → CursorId → Prop) (entries : Entry → Prop) (P : Parser → Prop)
    (call call' : Entry → Parser → CursorId → Act Outcome) : Prop :=
  ∀ entry p {c c'}, entries entry → P p → handles c c' →
    R (Outcome.Along handles) (call entry p c) (call' entry p c')

namespace AnswerLaw

variable {R : {α β : Type} → (α → β → Prop) → Act α → Act β → Prop} {places : Nat → Nat → Prop}
  {entries : Entry → Prop} (L : AnswerLaw R places entries)
include L

/-- What is answered alike is gone on with alike. -/
theorem bindEq {α γ δ : Type} {B : γ → δ → Prop} {x y : Act α} {f : α → Act γ} {g : α → Act δ}
    (h : R Eq x y) (hf : ∀ a, R B (f a) (g a)) : R B (x >>= f) (y >>= g) :=
  L.bind h fun {a _} hab => hab ▸ hf a

theorem map {α β γ δ : Type} {A : α → β → Prop} {B : γ → δ → Prop} {x : Act α} {y : Act β}
    {f : α → γ} {g : β → δ} (h : R A x y) (hf : ∀ {a b}, A a b → B (f a) (g b)) :
    R B (f <$> x) (g <$> y) := by
  rw [← bind_pure_comp, ← bind_pure_comp]
  exact L.bind h fun hab => L.pure (hf hab)

theorem mapEq {α β : Type} {x y : Act α} (h : R Eq x y) (f : α → β) :
    R Eq (f <$> x) (f <$> y) :=
  L.map h fun hab => congrArg f hab

/-- Related answers are related in any wider sense. -/
theorem mono {α β : Type} {A B : α → β → Prop} {x : Act α} {y : Act β} (h : R A x y)
    (hAB : ∀ {a b}, A a b → B a b) : R B x y := by
  have hpure := L.bind (f := Pure.pure) (g := Pure.pure) h fun hab => L.pure (hAB hab)
  rwa [bind_pure, bind_pure] at hpure

theorem lookedUp {α β : Type} {A : α → β → Prop} {x : Except Fault α} {y : Except Fault β}
    (h : LookedUp A x y) : R A (Act.lift x) (Act.lift y) := by
  cases h with
  | ok h => exact L.pure h
  | error e => exact L.stop (.fault e)

theorem lift {α : Type} (x : Except Fault α) : R Eq (Act.lift x) (Act.lift x) := by
  cases x with
  | ok a => exact L.pure rfl
  | error e => exact L.stop (.fault e)

theorem outOfFuel {α β : Type} {A : α → β → Prop} {n' : Nat} {y : Act β} (h : Spans R 0 n')
    (hy : n' = 0 → y = throw .outOfFuel) : R A (throw .outOfFuel : Act α) y := by
  rcases h with rfl | ⟨-, hany⟩
  · rw [hy rfl]
    exact L.stop .outOfFuel
  · exact hany A y

theorem noMatch (p : Parser) (entry : Entry) {A : Outcome → Outcome → Prop}
    (hmissed : A .missed .missed)
    (hfailed : ∀ e, A (.failed e) (.failed e)) : R A (noMatch p entry) (noMatch p entry) := by
  cases entry with
  | fallible => exact L.pure hmissed
  | total => exact L.bindEq (L.describe p) fun d => L.pure (hfailed _)

end AnswerLaw

namespace HandleLaw

variable {R : {α β : Type} → (α → β → Prop) → Act α → Act β → Prop}
  {handles : CursorId → CursorId → Prop} {places : Nat → Nat → Prop}
  {entries : Entry → Prop} (L : HandleLaw R handles places entries)
include L

/-! ## Reports and marks -/

section Cursors

variable {c c' : CursorId} (hc : handles c c')
include hc

theorem reportArm (left right : Parser) :
    R Eq (reportArm left right c) (reportArm left right c') := by
  refine L.bindEq (L.listens .debug) fun listens => ?_
  cases listens with
  | false => exact L.pure rfl
  | true =>
    exact L.bindEq (L.describe left) fun l => L.bind (L.position hc) fun hk =>
      L.bindEq (L.describe right) fun r => L.armMissed hk

theorem reportAttempt (target : ClassRef) (name : String) :
    R Eq (reportAttempt target name c) (reportAttempt target name c') := by
  refine L.bindEq (L.listens .debug) fun listens => ?_
  cases listens with
  | false => exact L.pure rfl
  | true =>
    exact L.bind (L.position hc) fun hk => L.bindEq (L.className target) fun n =>
      L.attemptMissed hk

theorem readElement (accept : Value → Bool) (expected : Value) :
    R (Outcome.Along handles) (readElement accept expected c) (readElement accept expected c') := by
  refine L.bindEq (L.next hc) fun v => ?_
  cases v with
  | none => exact L.pure (.failed _)
  | some v =>
    dsimp only
    split
    · exact L.pure (.matched hc v)
    · exact L.pure (.failed _)

theorem mark (checked : Bool) : R (Marks places) (mark checked c) (mark checked c') := by
  cases checked with
  | false => exact L.pure .none
  | true => exact L.map (L.position hc) .some

/-- Marks are compared with places only, and that comes out alike. -/
theorem checkMark (body : Parser) {start start' : Option Nat} (h : Marks places start start') :
    R Eq (checkMark body start c) (checkMark body start' c') := by
  cases h with
  | none => exact L.pure rfl
  | some hstart =>
    refine L.bind (L.position hc) fun {stop stop'} hstop => ?_
    have hle := L.order hstop hstart
    split
    · rename_i hshort
      rw [if_pos (hle.mp hshort)]
      exact L.bindEq (L.describe body) fun d => L.zeroWidth hstart
    · rename_i hlong
      rw [if_neg fun hshort => hlong (hle.mpr hshort)]
      exact L.pure rfl

end Cursors

/-! ## Parts, repetition and attempts -/

section Calls

variable {call call' : Entry → Parser → CursorId → Act Outcome} {P : Parser → Prop}
  (hcall : CallsAlong R handles entries P call call')
include hcall

theorem gather {entry : Entry} (he : entries entry) : ∀ {ps : List Parser} {c c' : CursorId},
    handles c c' → (∀ p ∈ ps, P p) →
      R (Gathered.Along handles) (gather call entry ps c) (gather call' entry ps c')
  | [], _, _, hc, _ => L.pure (.all hc [])
  | p :: ps, c, c', hc, hps => by
    unfold ShapeGrammar.gather
    refine L.bind (hcall entry p he (hps p List.mem_cons_self) hc) fun {o o'} ho => ?_
    cases ho with
    | matched hd v =>
      have hrest := gather he hd fun q hq => hps q (List.mem_cons_of_mem p hq)
      refine L.bind hrest fun {r r'} hr => ?_
      cases hr with
      | all hd vs => exact L.pure (.all hd (v :: vs))
      | stopped ho => exact L.pure (.stopped ho)
    | missed =>
      dsimp only
      split
      · exact L.pure (.stopped .missed)
      · exact L.stop _
    | failed e =>
      dsimp only
      split
      · exact L.pure (.stopped (.failed e))
      · exact L.stop _

theorem collect (checked : Bool) {body : Parser} (hbody : P body) :
    ∀ {n n' : Nat} {c c' : CursorId}, handles c c' → Spans R n n' →
      R (CollectedAlong handles) (collect call checked body n c) (collect call' checked body n' c')
  | 0, _, _, _, _, h => L.outOfFuel h fun hn => by rw [hn]; rfl
  | n + 1, n', c, c', hc, h => by
    obtain ⟨k, rfl, hk⟩ := h.succ
    unfold ShapeGrammar.collect
    refine L.bind (L.snapshot hc) fun {s s'} hs =>
      L.bind (hcall .fallible body L.fallible hbody hs) fun {o o'} ho => ?_
    cases ho with
    | matched hd v =>
      refine L.bind (L.mark hc checked) fun hstart =>
        L.bindEq (L.checkMark hd body hstart) fun _ => ?_
      refine L.bind (collect checked hbody hd hk) fun {r r'} hr => L.pure ⟨hr.1, ?_⟩
      exact congrArg (v :: ·) hr.2
    | missed => exact L.pure ⟨hc, rfl⟩
    | failed e => exact L.pure ⟨hc, rfl⟩

theorem collectFirst (checked : Bool) {body : Parser} (hbody : P body) {n n' : Nat}
    (h : Spans R n n') {entry : Entry} (he : entries entry) {c c' : CursorId} (hc : handles c c') :
    R (Outcome.Along handles) (collectFirst call checked body n entry c)
      (collectFirst call' checked body n' entry c') := by
  unfold ShapeGrammar.collectFirst
  refine L.bind (L.mark hc checked) fun hstart =>
    L.bind (hcall entry body he hbody hc) fun {o o'} ho => ?_
  cases ho with
  | matched hd v =>
    refine L.bindEq (L.checkMark hd body hstart) fun _ => ?_
    refine L.bind (L.collect hcall checked hbody hd h) fun {r r'} hr => L.pure ?_
    obtain ⟨e, vs⟩ := r
    obtain ⟨e', vs'⟩ := r'
    obtain ⟨he, rfl⟩ := hr
    exact .matched he _
  | missed => exact L.pure .missed
  | failed e => exact L.pure (.failed e)

theorem runAttempt {entry : Entry} (he : entries entry) (a : Attempt Parser) {c c' : CursorId}
    (hc : handles c c') (ha : ∀ p ∈ a.parsers, P p) :
    R (Outcome.Along handles) (runAttempt call entry a c) (runAttempt call' entry a c') := by
  unfold ShapeGrammar.runAttempt
  refine L.bind (L.gather hcall he hc ha) fun {r r'} hr => ?_
  cases hr with
  | all hd vs => exact L.bindEq (L.construct a.target vs) fun v => L.pure (.matched hd v)
  | stopped ho => exact L.pure ho

theorem runAttempts {report report' : String → CursorId → Act Unit}
    (hreport : ∀ name {c c'}, handles c c' → R Eq (report name c) (report' name c')) {entry : Entry}
    (he : entries entry) : ∀ {as : List (Attempt Parser)} {c c' : CursorId}, handles c c' →
      (∀ a ∈ as, ∀ p ∈ a.parsers, P p) →
      R (Outcome.Along handles) (runAttempts call report entry as c)
        (runAttempts call' report' entry as c')
  | [], _, _, _, _ => L.stop _
  | a :: rest, c, c', hc, has => by
    unfold ShapeGrammar.runAttempts
    split
    · exact L.bindEq (L.construct a.target []) fun v => L.pure (.matched hc v)
    · have ha := has a List.mem_cons_self
      split
      · exact L.runAttempt hcall he a hc ha
      · refine L.bind (L.snapshot hc) fun {s s'} hs =>
          L.bind (L.runAttempt hcall L.fallible a hs ha) fun {o o'} ho => ?_
        have hrest := runAttempts hreport he hc fun b hb => has b (List.mem_cons_of_mem a hb)
        cases ho with
        | matched hd v => exact L.pure (.matched hd v)
        | missed => exact L.bindEq (hreport a.name hc) fun _ => hrest
        | failed e => exact L.bindEq (hreport a.name hc) fun _ => hrest

/-! ## One call -/

/-- **A call respects the law if the calls inside it do.** What delayed parsers, classes and
factories do is up to them. -/
theorem runWith {r r' : Resolver} {g : Grammar}
    (hparts : ∀ {p q}, P p → q ∈ p.parts g → P q) {n n' : Nat} (hn : Spans R n n')
    {entry : Entry} (he : entries entry) {p : Parser} (hp : P p) {c c' : CursorId}
    (hc : handles c c')
    (hbox : ∀ {b}, p = .box b → R (Outcome.Along handles)
      (Act.resolve (r.boxParser b) >>= fun q => call entry q c)
      (Act.resolve (r'.boxParser b) >>= fun q => call' entry q c'))
    (hplan : ∀ {target}, p = .derived target → R (Outcome.Along handles)
      (Act.resolve (r.planOf target) >>= fun plan => call entry (.planned plan) c)
      (Act.resolve (r'.planOf target) >>= fun plan => call' entry (.planned plan) c'))
    (hfactory : ∀ {plan code}, p = .generated plan code → R (Outcome.Along handles)
      (code.invoke call plan entry c) (code.invoke call' plan entry c')) :
    R (Outcome.Along handles) (runWith r n call entry p c) (runWith r' n' call' entry p c') := by
  unfold ShapeGrammar.runWith
  cases p with
  | element v => exact L.map (L.readElement hc _ _) fun ho => ho.seenBy entry
  | any => exact L.map (L.readElement hc _ _) fun ho => ho.seenBy entry
  | satisfy test description => exact L.map (L.readElement hc _ _) fun ho => ho.seenBy entry
  | seq parts =>
    refine L.bind (L.gather hcall he hc fun q hq => hparts hp hq) fun {r r'} hr => ?_
    cases hr with
    | all hd vs => exact L.pure (.matched hd _)
    | stopped ho => exact L.pure ho
  | opt body =>
    have hbody : P body := hparts hp List.mem_cons_self
    refine L.bind (L.snapshot hc) fun {s s'} hs =>
      L.bind (hcall .fallible body L.fallible hbody hs) fun {o o'} ho => ?_
    cases ho with
    | matched hd v => exact L.pure (.matched hd v)
    | missed => exact L.pure (.matched hc _)
    | failed e => exact L.pure (.matched hc _)
  | many checked body =>
    have hbody : P body := hparts hp List.mem_cons_self
    refine L.bind (L.collect hcall checked hbody hc hn) fun {r r'} hr => L.pure ?_
    obtain ⟨e, vs⟩ := r
    obtain ⟨e', vs'⟩ := r'
    obtain ⟨he, rfl⟩ := hr
    exact .matched he _
  | many1 checked body =>
    exact L.collectFirst hcall checked (hparts hp List.mem_cons_self) hn he hc
  | either left right =>
    have hleft : P left := hparts hp List.mem_cons_self
    have hright : P right := hparts hp (List.mem_cons_of_mem left List.mem_cons_self)
    have hfallback := L.map (hcall entry right he hright hc) fun ho => ho.mapValue .right
    refine L.bind (L.snapshot hc) fun {s s'} hs =>
      L.bind (hcall .fallible left L.fallible hleft hs) fun {o o'} ho => ?_
    cases ho with
    | matched hd v => exact L.pure (.matched hd _)
    | missed => exact L.bindEq (L.reportArm hc left right) fun _ => hfallback
    | failed e => exact L.bindEq (L.reportArm hc left right) fun _ => hfallback
  | not body =>
    have hbody : P body := hparts hp List.mem_cons_self
    refine L.bind (L.snapshot hc) fun {s s'} hs =>
      L.bind (hcall .fallible body L.fallible hbody hs) fun {o o'} ho => ?_
    cases ho with
    | matched hd v =>
      cases entry with
      | fallible => exact L.pure .missed
      | total => exact L.bindEq (L.describe body) fun d => L.pure (.failed _)
    | missed => exact L.pure (.matched hc _)
    | failed e => exact L.pure (.matched hc _)
  | box b => exact hbox rfl
  | map change body =>
    refine L.bind (hcall entry body he (hparts hp List.mem_cons_self) hc) fun {o o'} ho => ?_
    cases ho with
    | matched hd v => exact L.bindEq (L.lift _) fun w => L.pure (.matched hd w)
    | missed => exact L.pure .missed
    | failed e => exact L.pure (.failed e)
  | derived target => exact hplan rfl
  | planned plan =>
    exact L.runAttempts hcall (fun name _ _ hc => L.reportAttempt hc plan.target name) he hc
      fun a ha q hq => hparts hp (List.mem_flatMap.mpr ⟨a, ha, hq⟩)
  | generated plan code => exact hfactory rfl
  | recorded name body =>
    exact L.bind (L.position hc) fun hk => L.bindEq (L.note he hk) fun _ =>
      hcall entry body he (hparts hp List.mem_cons_self) hc
  | misser accepts =>
    refine L.bindEq (L.next hc) fun v => ?_
    cases v with
    | none => exact L.noMatch _ entry .missed .failed
    | some v =>
      dsimp only
      split
      · exact L.pure (.matched hc v)
      · exact L.noMatch _ entry .missed .failed
  | unimplemented => exact L.stop _
  | inert => exact L.stop _

end Calls

/-! ## Factories -/

section Statements

variable {call call' : Entry → Parser → CursorId → Act Outcome}
  {attempt attempt' : Procedure → CursorId → Act Outcome}
  (hcall : ∀ entry p {c c'}, handles c c' →
    R (Outcome.Along handles) (call entry p c) (call' entry p c'))
include hcall

theorem step (hattempt : ∀ p {c c'}, handles c c' →
      R (Outcome.Along handles) (attempt p c) (attempt' p c'))
    (items : Table Item) {slots slots' : Table Slot} (hslots : SlotsAlong handles slots slots')
    (s : Statement) :
    R (Progress.Along handles) (s.step call attempt items slots)
      (s.step call' attempt' items slots') := by
  cases s with
  | call result parser entry cursor =>
    exact L.bindEq (L.lift _) fun p => L.bind (L.lookedUp (cursorIn_along hslots cursor)) fun hc =>
      L.bind (hcall entry p hc) fun ho => L.pure (.running (hslots.put result (.outcome ho)))
  | returnMiss result =>
    refine L.bind (L.lookedUp (outcomeIn_along hslots result)) fun ho => ?_
    cases ho with
    | matched hd v => exact L.pure (.running hslots)
    | missed => exact L.pure (.returned .missed)
    | failed e => exact L.pure (.running hslots)
  | returnError result =>
    refine L.bind (L.lookedUp (outcomeIn_along hslots result)) fun ho => ?_
    cases ho with
    | matched hd v => exact L.pure (.running hslots)
    | missed => exact L.pure (.running hslots)
    | failed e => exact L.pure (.returned (.failed e))
  | unpack cursor value result =>
    refine L.bind (L.lookedUp (outcomeIn_along hslots result)) fun ho => ?_
    cases ho with
    | matched hd v =>
      exact L.pure (.running ((hslots.put cursor (.cursor hd)).put value (.value v)))
    | missed => exact L.stop _
    | failed e => exact L.stop _
  | tryAttempt found name cursor =>
    exact L.bindEq (L.lift _) fun p => L.bind (L.lookedUp (cursorIn_along hslots cursor)) fun hc =>
      L.bind (L.snapshot hc) fun hs => L.bind (hattempt p hs) fun ho =>
        L.pure (.running (hslots.put found (.outcome ho)))
  | returnFound found =>
    refine L.bind (L.lookedUp (outcomeIn_along hslots found)) fun ho => ?_
    cases ho with
    | matched hd v => exact L.pure (.returned (.matched hd v))
    | missed => exact L.pure (.running hslots)
    | failed e => exact L.pure (.returned (.failed e))
  | returnAttempt name cursor =>
    exact L.bindEq (L.lift _) fun p => L.bind (L.lookedUp (cursorIn_along hslots cursor)) fun hc =>
      L.bind (hattempt p hc) fun ho => L.pure (.returned ho)
  | returnBuilt cursor target arguments =>
    refine L.bind (L.lookedUp (cursorIn_along hslots cursor)) fun hc =>
      L.bindEq (L.lift _) fun t => ?_
    rw [valuesIn_along hslots arguments]
    exact L.bindEq (L.lift _) fun vs => L.bindEq (L.construct t vs) fun v =>
      L.pure (.returned (.matched hc v))
  | returnNothing => exact L.pure (.returned .missed)

theorem runStatements (hattempt : ∀ p {c c'}, handles c c' →
      R (Outcome.Along handles) (attempt p c) (attempt' p c')) (items : Table Item) :
    ∀ {slots slots' : Table Slot} (body : List Statement), SlotsAlong handles slots slots' →
      R (Outcome.Along handles) (runStatements call attempt items slots body)
        (runStatements call' attempt' items slots' body)
  | _, _, [], _ => L.pure .missed
  | slots, slots', s :: rest, hslots => by
    unfold ShapeGrammar.runStatements
    refine L.bind (L.step hcall hattempt items hslots s) fun {p p'} hp => ?_
    cases hp with
    | running hslots => exact runStatements hattempt items rest hslots
    | returned ho => exact L.pure ho

theorem procedure (items : Table Item) : ∀ (depth : Nat) (p : Procedure) {c c' : CursorId},
    handles c c' → R (Outcome.Along handles) (Procedure.run call items depth p c)
      (Procedure.run call' items depth p c')
  | 0, _, _, _, _ => L.stop _
  | depth + 1, p, c, c', hc => by
    refine L.runStatements hcall (procedure items depth) items p.body fun name => ?_
    unfold Table.get?
    split
    · exact .some (.cursor hc)
    · exact .none

theorem invoke (code : Code) (plan : Plan Parser) (entry : Entry) {c c' : CursorId}
    (hc : handles c c') :
    R (Outcome.Along handles) (code.invoke call plan entry c) (code.invoke call' plan entry c') :=
  L.bindEq (L.lift _) fun bound => L.procedure hcall bound.items 2 _ hc

end Statements

/-! ## Runs -/

section Runs

variable {r r' : Resolver} (hentries : ∀ entry, entries entry)
  (hbox : ∀ b, R Eq (Act.resolve (r.boxParser b)) (Act.resolve (r'.boxParser b)))
  (hplan : ∀ c, R Eq (Act.resolve (r.planOf c)) (Act.resolve (r'.planOf c)))
include hentries hbox hplan

/-- A call of any parser respects the law, if all calls inside it do and it asks related
questions. -/
theorem runWithAny {call call' : Entry → Parser → CursorId → Act Outcome}
    (hcall : ∀ entry p {c c'}, handles c c' →
      R (Outcome.Along handles) (call entry p c) (call' entry p c')) {n n' : Nat}
    (hn : Spans R n n') (entry : Entry) (p : Parser) {c c' : CursorId} (hc : handles c c') :
    R (Outcome.Along handles) (ShapeGrammar.runWith r n call entry p c)
      (ShapeGrammar.runWith r' n' call' entry p c') :=
  L.runWith (P := fun _ => True) (g := .empty none) (fun entry p _ _ _ _ hc => hcall entry p hc)
    (fun _ _ => trivial) hn (hentries entry) trivial hc
    (fun _ => L.bindEq (hbox _) fun q => hcall entry q hc)
    (fun _ => L.bindEq (hplan _) fun plan => hcall entry (.planned plan) hc)
    (fun _ => L.invoke hcall _ _ entry hc)

/-- **Runs respect every law of the primitives**, if they ask related questions. -/
theorem run : ∀ {n n' : Nat} (entry : Entry) (p : Parser) {c c' : CursorId}, handles c c' →
    Spans R n n' → R (Outcome.Along handles) (run r n entry p c) (run r' n' entry p c')
  | 0, _, _, _, _, _, _, h => L.outOfFuel h fun hn => by rw [hn]; rfl
  | n + 1, n', entry, p, c, c', hc, h => by
    obtain ⟨k, rfl, hk⟩ := h.succ
    rw [run_succ, run_succ]
    exact L.runWithAny hentries hbox hplan (fun entry p _ _ hc => run entry p hc hk) hk entry p hc

end Runs

end HandleLaw

end ShapeGrammar
