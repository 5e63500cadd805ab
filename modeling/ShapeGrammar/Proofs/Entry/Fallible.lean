import ShapeGrammar.Proofs.Machine.Carried
import ShapeGrammar.Proofs.Machine.Resting

/-!
# Where only fallible forms are called

The fallible form of a parser calls the fallible forms of its parts. So do an optional part, a
repetition after its first match, a negation, and all but the last alternative of a choice,
whichever form of them is called: where there is something left to fall back to, no total form is
called. The trace tells, since it has the form that was called of every recorded parser.

Factories that are not written from their plans could call what they like. So this is about parsers
that are genuine in the state of the grammar in which all is done, and what a computation calls is
followed only up to a last state of the grammar.

Headlines: `Machine.Fallibly`, `fallible_law`, `run_fallibly`, `lookahead_fallibly`,
`many1_fallibly_or`, `choice_fallibly_or`.
-/

namespace ShapeGrammar

open Machine

/-- Only fallible forms of recorded parsers were called from one state of a parse to another. -/
def Machine.Fallibly (m m' : Machine) : Prop :=
  ∃ es : List Event, m'.events.toList = m.events.toList ++ es ∧ ∀ e ∈ es, e.entry = .fallible

namespace Machine.Fallibly

variable {m m1 m2 : Machine}

theorem of_events_eq (h : m1.events = m.events) : m.Fallibly m1 :=
  ⟨[], by rw [h, List.append_nil], fun _ he => (List.not_mem_nil he).elim⟩

theorem refl (m : Machine) : m.Fallibly m := .of_events_eq rfl

theorem trans (h : m.Fallibly m1) (h' : m1.Fallibly m2) : m.Fallibly m2 := by
  obtain ⟨es, hes, hfallible⟩ := h
  obtain ⟨es', hes', hfallible'⟩ := h'
  refine ⟨es ++ es', by rw [hes', hes, List.append_assoc], fun e he => ?_⟩
  exact (List.mem_append.mp he).elim (hfallible e) (hfallible' e)

/-- A fallible form is called. -/
theorem note {e : Event} (h : e.entry = .fallible) :
    m.Fallibly { m with events := m.events.push e } :=
  ⟨[e], Array.toList_push, fun _ he => List.mem_singleton.mp he ▸ h⟩

theorem resolve {α : Type} (x : Resolution α) (m : Machine) :
    m.Fallibly (stateAfter (Act.resolve x) m) := by
  refine .of_events_eq ?_
  unfold stateAfter Act.resolve
  cases x m.grammar <;> rfl

end Machine.Fallibly

/-- What a computation calls up to a last state of the grammar are fallible forms; what it answers
is related to something. -/
structure CallsFallibly (last : Grammar) {α β : Type} (A : α → β → Prop) (x : Act α) (_ : Act β) :
    Prop where
  grows : x.Grows
  calls : ∀ {m}, (stateAfter x m).grammar.Precedes last → m.Fallibly (stateAfter x m)
  answers : ∀ {m a t}, x m = .ok a t → ∃ b, A a b

namespace CallsFallibly

variable {last : Grammar} {α : Type} {x : Act α}

theorem of_forall (hx : x.Grows) (h : ∀ m : Machine, m.Fallibly (stateAfter x m)) :
    CallsFallibly last Eq x x where
  grows := hx
  calls {m} _ := h m
  answers {_ a _} _ := ⟨a, rfl⟩

/-- What reads the state of a parse and leaves it as it is calls nothing. -/
theorem of_stateAfter (h : ∀ m, stateAfter x m = m) : CallsFallibly last Eq x x :=
  of_forall (fun _ m hm => (h m).symm ▸ hm) fun m => .of_events_eq (congrArg events (h m))

end CallsFallibly

/-- What is done next calls fallible forms, from where it begins. -/
theorem fallibly_bind {last : Grammar} {α β : Type} {x : Act α} {f : α → Act β} {m : Machine}
    (hgrows : ∀ {a t}, x m = .ok a t → (f a).Grows)
    (hx : (stateAfter x m).grammar.Precedes last → m.Fallibly (stateAfter x m))
    (hf : ∀ {a t}, x m = .ok a t → t.grammar.Precedes last →
      (stateAfter (f a) t).grammar.Precedes last → t.Fallibly (stateAfter (f a) t))
    (hlast : (stateAfter (x >>= f) m).grammar.Precedes last) :
    m.Fallibly (stateAfter (x >>= f) m) := by
  cases hxm : x m with
  | error e t =>
    rw [stateAfter_of_error hxm] at hx
    rw [stateAfter_of_error (bind_of_error hxm)] at hlast ⊢
    exact hx hlast
  | ok a t =>
    rw [stateAfter_of_ok hxm] at hx
    rw [stateAfter_bind_of_ok hxm] at hlast ⊢
    have ht := ((hgrows hxm).after t).trans hlast
    exact (hx ht).trans (hf hxm ht hlast)

theorem CallsFallibly.bind {last : Grammar} {α β γ δ : Type} {A : α → β → Prop}
    {B : γ → δ → Prop} {x : Act α} {y : Act β} {f : α → Act γ} {g : β → Act δ}
    (hx : CallsFallibly last A x y)
    (hf : ∀ {a b}, A a b → CallsFallibly last B (f a) (g b)) :
    CallsFallibly last B (x >>= f) (y >>= g) := by
  have hthen : ∀ {m a t}, x m = .ok a t → ∃ b, CallsFallibly last B (f a) (g b) :=
    fun h => (hx.answers h).imp fun _ hab => hf hab
  constructor
  · intro g m hm
    exact stateAfter_bind_rel (R := fun m m' : Machine =>
      g.Precedes m.grammar → g.Precedes m'.grammar) (fun h h' hm => h' (h hm)) (hx.grows g m)
      (fun a t h => (hthen h).elim fun _ hfa => hfa.grows g t) hm
  · intro m hlast
    exact fallibly_bind (fun h => (hthen h).elim fun _ hfa => hfa.grows) hx.calls
      (fun h _ => (hthen h).elim fun _ hfa => hfa.calls) hlast
  · intro m c t h
    obtain ⟨a, t', hxm, hfa⟩ := bind_eq_ok_iff.mp h
    obtain ⟨b, hrel⟩ := hthen hxm
    exact hrel.answers hfa

theorem stateAfter_position (c : CursorId) (m : Machine) : stateAfter (Act.position c) m = m := by
  unfold Act.position
  rw [stateAfter_get_bind]
  dsimp only
  split <;> rfl

theorem stateAfter_mark (checked : Bool) (c : CursorId) (m : Machine) :
    stateAfter (mark checked c) m = m := by
  cases checked with
  | false => rfl
  | true => exact (stateAfter_map some (Act.position c) m).trans (stateAfter_position c m)

theorem fallible_law (last : Grammar) : PairLaw (CallsFallibly last) Eq (· = .fallible) where
  fallible := rfl
  order h h' := by rw [h, h']
  pure hab := ⟨(Act.still_pure _).grows, fun _ => .refl _, fun h => by cases h; exact ⟨_, hab⟩⟩
  stop e := ⟨(Act.still_throw e).grows, fun _ => .refl _, fun h => by cases h⟩
  bind := .bind
  next c := .of_forall (fun g => (growth_law g).next c) fun m => .of_events_eq (by
    cases h : (m.cursor c).next? with
    | none => rw [stateAfter_of_ok (next_of_end h)]
    | some r => rw [stateAfter_of_ok (next_of_some h)])
  snapshot c := .of_forall (fun g => (growth_law g).snapshot c) fun _ => .of_events_eq rfl
  position c := .of_stateAfter (stateAfter_position c)
  describe p := .of_stateAfter fun m => by
    unfold Act.describe
    rw [stateAfter_get_bind]
    cases m.grammar.describe p <;> rfl
  className _ := .of_stateAfter fun _ => rfl
  listens _ := .of_stateAfter fun _ => rfl
  armMissed h := by
    subst h
    exact .of_forall (Act.still_report _).grows fun _ => .of_events_eq rfl
  attemptMissed h := by
    subst h
    exact .of_forall (Act.still_report _).grows fun _ => .of_events_eq rfl
  note he h := by
    subst h
    exact .of_forall (Act.still_note _).grows fun _ => .note he
  zeroWidth _ := ⟨(Act.still_fail _).grows, fun _ => .refl _, fun h => by cases h⟩
  construct target vs := .of_stateAfter fun m => stateAfter_construct target vs m

theorem fallible_foresees (last : Grammar) : Foresees (CallsFallibly last) last :=
  fun {_ _ x _ _} hx hf _ hfg =>
    { grows := (Act.still_resolve hx).grows.bind hf
      calls := fallibly_bind (fun {a _} _ => hf a) (fun _ => .resolve x _)
        fun h hlast => (hfg h hlast).calls
      answers := fun {_ b _} _ => ⟨b, rfl⟩ }

/-! ## Runs -/

section Runs

variable {k n : Nat} {last : Grammar} {entry : Entry} {p : Parser} {c : CursorId} {m : Machine}

/-- The fallible form of a genuine parser calls fallible forms. -/
theorem run_callsFallibly (k : Nat) {last : Grammar} : ∀ (n : Nat),
    CallsPair (CallsFallibly last) (· = .fallible) last.Genuine (run (resolver k) n)
      (carryOut (resolver k) n)
  | 0 => fun _ _ _ _ _ => (fallible_law last).stop .outOfFuel
  | n + 1 => fun entry p c he hp => by
    have hr := resolver_grows k
    rw [run_succ, carryOut_succ]
    exact pair_carryWith (fallible_foresees last) (run_grows hr n) (grows_carryOut hr n)
      (run_callsFallibly k n) (fallible_law last) he hp c

/-- **The fallible form of a genuine parser calls only fallible forms**, whichever way it ends. -/
theorem run_fallibly (hp : (stateAfter (run (resolver k) n .fallible p c) m).grammar.Genuine p) :
    m.Fallibly (stateAfter (run (resolver k) n .fallible p c) m) :=
  (run_callsFallibly k n .fallible p c rfl hp).calls (.refl _)

/-- Whichever form of a negation is called, its body is tried. -/
theorem not_callsFallibly (entry : Entry) {body : Parser} (hbody : last.Genuine body)
    (c : CursorId) : CallsFallibly last Eq (run (resolver k) n entry (.not body) c)
      (carryOut (resolver k) n entry (.not body) c) := by
  have L := fallible_law last
  cases n with
  | zero => exact L.stop .outOfFuel
  | succ n =>
    rw [run_succ, carryOut_succ]
    refine L.bindEq (L.snapshot c) fun s =>
      L.bindEq (run_callsFallibly k n .fallible body s rfl hbody) fun o => ?_
    cases o with
    | matched d v =>
      cases entry with
      | fallible => exact L.pure rfl
      | total => exact L.bindEq (L.describe body) fun d => L.pure rfl
    | missed => exact L.pure rfl
    | failed e => exact L.pure rfl

/-- **What looks ahead calls only fallible forms**, whichever form of it is called. -/
theorem lookahead_fallibly (hlooks : p.LooksAhead)
    (hp : (stateAfter (run (resolver k) n entry p c) m).grammar.Genuine p) :
    m.Fallibly (stateAfter (run (resolver k) n entry p c) m) := by
  cases p with
  | opt body =>
    have hsame : run (resolver k) n entry (.opt body) =
        run (resolver k) n .fallible (.opt body) := by
      cases n <;> rfl
    rw [hsame] at hp ⊢
    exact run_fallibly hp
  | many checked body =>
    have hsame : run (resolver k) n entry (.many checked body) =
        run (resolver k) n .fallible (.many checked body) := by
      cases n <;> rfl
    rw [hsame] at hp ⊢
    exact run_fallibly hp
  | not body => exact (not_callsFallibly entry (hp.part List.mem_cons_self) c).calls (.refl _)
  | _ => exact hlooks.elim

/-- What a repetition goes on with after its first match. -/
theorem furtherMatches_callsFallibly {checked : Bool} {body : Parser} (hbody : last.Genuine body)
    (start : Option Nat) (d : CursorId) (v : Value) :
    CallsFallibly last Eq
      (do
        checkMark body start d
        let (e, vs) ← collect (run (resolver k) n) checked body n d
        pure (Outcome.matched e (.nonempty v vs)))
      (do
        checkMark body start d
        let (e, vs) ← collect (carryOut (resolver k) n) checked body n d
        pure (Outcome.matched e (.nonempty v vs))) := by
  have L := fallible_law last
  have hcall : CallsPair (CallsFallibly last) _ last.Genuine _ _ := run_callsFallibly k n
  exact L.bindEq (L.checkMark body (.refl start) d) fun _ =>
    L.bindEq (L.collect hcall checked hbody d (.inl rfl)) fun r => L.pure rfl

/-- **After its first match a repetition calls only fallible forms.** If it cannot tell where it
begins, it does nothing. -/
theorem many1_fallibly_or {checked : Bool} {body : Parser}
    (hp : (stateAfter (run (resolver k) (n + 1) entry (.many1 checked body) c) m).grammar.Genuine
      (.many1 checked body)) :
    stateAfter (run (resolver k) (n + 1) entry (.many1 checked body) c) m = m ∨
      (stateAfter (run (resolver k) n entry body c) m).Fallibly
        (stateAfter (run (resolver k) (n + 1) entry (.many1 checked body) c) m) := by
  have hbody := hp.part List.mem_cons_self
  generalize hwhole : run (resolver k) (n + 1) entry (.many1 checked body) c = whole at hbody ⊢
  change collectFirst (run (resolver k) n) checked body n entry c = whole at hwhole
  unfold collectFirst at hwhole
  subst hwhole
  have hmarked := stateAfter_mark checked c m
  cases hmark : mark checked c m with
  | error e m1 =>
    rw [stateAfter_of_error hmark] at hmarked
    rw [stateAfter_of_error (bind_of_error hmark)]
    exact .inl hmarked
  | ok start m1 =>
    rw [stateAfter_of_ok hmark] at hmarked
    subst hmarked
    rw [stateAfter_bind_of_ok hmark] at hbody ⊢
    right
    cases ho : run (resolver k) n entry body c m1 with
    | error e m2 =>
      rw [stateAfter_of_error ho, stateAfter_of_error (bind_of_error ho)]
      exact .refl m2
    | ok o m2 =>
      rw [stateAfter_bind_of_ok ho] at hbody ⊢
      rw [stateAfter_of_ok ho]
      cases o with
      | matched d v => exact (furtherMatches_callsFallibly hbody start d v).calls (.refl _)
      | missed => exact .refl m2
      | failed e => exact .refl m2

/-- That only fallible forms were called stays true where parsers are tried. -/
theorem fallibly_tolerates (k : Nat) (last : Grammar) (c : CursorId) (m : Machine) :
    Tolerates (fun m' => m'.grammar.Precedes last → m.Fallibly m') (resolver k) last c := by
  have L := fallible_law last
  have hcall : ∀ n, CallsPair (CallsFallibly last) _ last.Genuine _ _ := run_callsFallibly k
  have hkeeps : ∀ {α β : Type} {A : α → β → Prop} {x : Act α} {y : Act β} {m1},
      CallsFallibly last A x y → (m1.grammar.Precedes last → m.Fallibly m1) →
        (stateAfter x m1).grammar.Precedes last → m.Fallibly (stateAfter x m1) :=
    fun {_ _ _ _ _ m1} hx hm hlast => (hm ((hx.grows.after m1).trans hlast)).trans (hx.calls hlast)
  exact {
    resolve := fun {_ x _} hx => hkeeps (.of_forall (Act.still_resolve hx).grows (.resolve x))
    reportArm := hkeeps (L.reportArm _ _ c)
    reportAttempt := hkeeps (L.reportAttempt _ _ c)
    call := fun {n p _} hp => hkeeps (L.bindEq (L.snapshot c) fun s => hcall n .fallible p s rfl hp)
    attempt := fun {n a _} ha =>
      hkeeps (L.bindEq (L.snapshot c) fun s => L.runAttempt (hcall n) rfl a s ha) }

/-- **All but the last alternative of a choice are tried**: only fallible forms are called, unless
the last alternative is run, and then only fallible forms before that. -/
theorem choice_fallibly_or (hchoice : p.Chooses)
    (hp : (stateAfter (run (resolver k) n entry p c) m).grammar.Genuine p) :
    m.Fallibly (stateAfter (run (resolver k) n entry p c) m) ∨
      ∃ x m1, LastAlternative (resolver k) (stateAfter (run (resolver k) n entry p c) m).grammar
        entry c n p x ∧ m.Fallibly m1 ∧ run (resolver k) n entry p c m = x m1 := by
  have hT := fallibly_tolerates k (stateAfter (run (resolver k) n entry p c) m).grammar c m
  rcases choice_or hT hchoice hp (.refl _) fun _ => .refl m with hkept | ⟨x, m1, halt, hm1, hrun⟩
  · exact .inl (hkept (.refl _))
  · refine .inr ⟨x, m1, halt, hm1 ?_, hrun⟩
    have hgrow := (halt.grows (resolver_grows k)).after m1
    unfold stateAfter at hgrow ⊢
    rwa [hrun]

end Runs

end ShapeGrammar
