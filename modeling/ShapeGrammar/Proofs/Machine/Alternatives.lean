import ShapeGrammar.Proofs.Entry.Alike
import ShapeGrammar.Proofs.Machine.Lender
import ShapeGrammar.Proofs.Peg.Refinement

/-!
# The alternatives before the last one

A choice tries what it can fall back from on snapshots, one alternative after the other, and then
commits to the last one. So whatever the attempts before the last one keep, each from the state in
which it is begun, holds of the state in which all is done, unless the last alternative is run:
then it holds of the state in which that is begun, and the rest is what the last alternative does.

Headlines: `fallback_or`, `runAttempts_or`, `LastAlternative`, `Tolerates`, `choice_or`.
-/

namespace ShapeGrammar

variable {call : Entry → Parser → CursorId → Act Outcome} {T : Machine → Prop}

theorem stateAfter_lift {α : Type} (x : Except Fault α) (m : Machine) :
    stateAfter (Act.lift x) m = m := by
  cases x <;> rfl

theorem stateAfter_construct (target : ClassRef) (vs : List Value) (m : Machine) :
    stateAfter (Act.construct target vs) m = m :=
  stateAfter_lift _ m

/-- An alternative on a snapshot, and what is done where it does not match. -/
theorem fallback_or {c : CursorId} {x : CursorId → Act Outcome} (f : Value → Value)
    (report : Act Unit) (last : Act Outcome) {m : Machine}
    (htry : T (stateAfter (Act.snapshot c >>= x) m))
    (hreport : ∀ {m1}, T m1 → T (stateAfter report m1)) :
    let whole := Act.snapshot c >>= fun s => x s >>= fun
      | .matched d v => pure (.matched d (f v))
      | _ => report >>= fun _ => last
    T (stateAfter whole m) ∨ ∃ m1, T m1 ∧ whole m = last m1 := by
  intro whole
  obtain ⟨s, m1, hs⟩ : ∃ s m1, Act.snapshot c m = .ok s m1 := ⟨_, _, rfl⟩
  rw [stateAfter_bind_of_ok hs] at htry
  have hwhole : whole m = (x s >>= fun
      | .matched d v => pure (.matched d (f v))
      | _ => report >>= fun _ => last) m1 := bind_of_ok hs
  have hafter : stateAfter whole m = stateAfter (x s >>= fun
      | .matched d v => pure (.matched d (f v))
      | _ => report >>= fun _ => last) m1 := stateAfter_bind_of_ok hs
  cases ho : x s m1 with
  | error e m2 =>
    rw [stateAfter_of_error ho] at htry
    rw [hafter, stateAfter_of_error (bind_of_error ho)]
    exact .inl htry
  | ok o m2 =>
    rw [stateAfter_of_ok ho] at htry
    rw [bind_of_ok ho] at hwhole
    rw [stateAfter_bind_of_ok ho] at hafter
    have hrest : ∀ {y : Act Outcome}, y = (report >>= fun _ => last) →
        whole m = y m2 → stateAfter whole m = stateAfter y m2 →
        T (stateAfter whole m) ∨ ∃ m1, T m1 ∧ whole m = last m1 := by
      rintro _ rfl hwhole hafter
      have hreported := hreport htry
      cases hr : report m2 with
      | error e m3 =>
        rw [stateAfter_of_error hr] at hreported
        rw [hafter, stateAfter_of_error (bind_of_error hr)]
        exact .inl hreported
      | ok u m3 =>
        rw [stateAfter_of_ok hr] at hreported
        exact .inr ⟨m3, hreported, hwhole.trans (bind_of_ok hr)⟩
    cases o with
    | matched d v =>
      rw [hafter]
      exact .inl htry
    | missed => exact hrest rfl hwhole hafter
    | failed e => exact hrest rfl hwhole hafter

/-- **Of attempts in order, all but the last leave what each of them leaves.** -/
theorem runAttempts_or {report : String → CursorId → Act Unit} (entry : Entry) {c : CursorId} :
    ∀ {as : List (Attempt Parser)} {m : Machine}, OrderedAttempts as →
      (∀ a ∈ as, ∀ {m1}, T m1 →
        T (stateAfter (Act.snapshot c >>= fun s => runAttempt call .fallible a s) m1)) →
      (∀ name {m1}, T m1 → T (stateAfter (report name c) m1)) → T m →
      ∃ last ∈ as.getLast?, T (stateAfter (runAttempts call report entry as c) m) ∨
        ∃ m1, T m1 ∧ runAttempts call report entry as c m = runAttempt call entry last c m1
  | [], _, hord, _, _, _ => hord.elim
  | [a], m, hord, _, _, hm => by
    refine ⟨a, rfl, ?_⟩
    have hclosing : a.snapshot = false := hord
    unfold runAttempts
    cases a.isUnit with
    | true =>
      refine .inl ?_
      simp only [if_true, bind_pure_comp]
      rw [stateAfter_map, stateAfter_construct]
      exact hm
    | false =>
      rw [hclosing]
      exact .inr ⟨m, hm, rfl⟩
  | a :: b :: rest, m, hord, htry, hreport, hm => by
    obtain ⟨hfields, hsnapshot, hrest⟩ := hord
    have hlast : (a :: b :: rest).getLast? = (b :: rest).getLast? := List.getLast?_cons_cons
    rw [hlast]
    unfold runAttempts
    rw [hfields, hsnapshot]
    have hfirst := fallback_or id (report a.name c) (runAttempts call report entry (b :: rest) c)
      (htry a List.mem_cons_self hm) fun {m1} => hreport a.name
    have hnext : ∀ {m1}, T m1 → _ := fun {m1} hm1 => runAttempts_or entry hrest
      (fun a' ha' => htry a' (List.mem_cons_of_mem a ha')) hreport hm1
    rcases hfirst with hkept | ⟨m1, hm1, hfell⟩
    · obtain ⟨last, hmem, -⟩ := hnext hm
      exact ⟨last, hmem, .inl hkept⟩
    · obtain ⟨last, hmem, hthen⟩ := hnext hm1
      refine ⟨last, hmem, ?_⟩
      rcases hthen with hkept | ⟨m2, hm2, hlast⟩
      · refine .inl ?_
        have hstate : stateAfter (runAttempts call report entry (b :: rest) c) m1 =
            stateAfter (Act.snapshot c >>= fun s => runAttempt call .fallible a s >>= fun
              | .matched d v => pure (.matched d (id v))
              | _ => report a.name c >>= fun _ =>
                runAttempts call report entry (b :: rest) c) m := by
          unfold stateAfter
          rw [hfell]
        exact hstate ▸ hkept
      · exact .inr ⟨m2, hm2, hfell.trans hlast⟩

/-! ## Choices -/

/-- Parsers that try alternatives one after the other. -/
def Parser.Chooses : Parser → Prop
  | .either _ _ => True
  | .derived _ => True
  | .planned _ => True
  | .generated _ _ => True
  | _ => False

/-- What the last alternative of a parser does on the cursor that the parser was handed. -/
inductive LastAlternative (r : Resolver) (g : Grammar) (entry : Entry) (c : CursorId) :
    Nat → Parser → Act Outcome → Prop
  | either {n left right} : LastAlternative r g entry c (n + 1) (.either left right)
      ((·.mapValue .right) <$> run r n entry right c)
  | planned {n plan last} (mem : last ∈ plan.attempts.getLast?) :
      LastAlternative r g entry c (n + 1) (.planned plan) (runAttempt (run r n) entry last c)
  | generated {n plan code last} (mem : last ∈ plan.attempts.getLast?) :
      LastAlternative r g entry c (n + 1) (.generated plan code)
        (runAttempt (run r n) entry last c)
  | derived {n target plan x} (known : (g.classInfo target).plan = some plan)
      (last : LastAlternative r g entry c n (.planned plan) x) :
      LastAlternative r g entry c (n + 1) (.derived target) x

theorem LastAlternative.grows {r : Resolver} (hr : r.Obeys Resolution.Grows) {g : Grammar}
    {entry : Entry} {c : CursorId} {n : Nat} {p : Parser} {x : Act Outcome}
    (h : LastAlternative r g entry c n p x) : x.Grows := by
  induction h with
  | @either n left right =>
    intro g
    rw [← bind_pure_comp]
    exact (run_grows hr n entry right c g).bind fun o => Act.keeps_pure _
  | @planned n plan last mem => exact grows_runAttempt (run_grows hr n) entry last c
  | @generated n plan code last mem => exact grows_runAttempt (run_grows hr n) entry last c
  | derived known last ih => exact ih

/-- What is true of the state of a parse stays true where something is found out or reported, and
where parts of a grammar are tried on snapshots of a cursor. -/
structure Tolerates (T : Machine → Prop) (r : Resolver) (last : Grammar) (c : CursorId) :
    Prop where
  resolve : ∀ {α : Type} {x : Resolution α} {m}, x.Grows → T m → T (stateAfter (Act.resolve x) m)
  reportArm : ∀ {left right m}, T m → T (stateAfter (reportArm left right c) m)
  reportAttempt : ∀ {target name m}, T m → T (stateAfter (reportAttempt target name c) m)
  call : ∀ {n p m}, last.Genuine p → T m →
    T (stateAfter (Act.snapshot c >>= fun s => run r n .fallible p s) m)
  attempt : ∀ {n a m}, (∀ p ∈ a.parsers, last.Genuine p) → T m →
    T (stateAfter (Act.snapshot c >>= fun s => runAttempt (run r n) .fallible a s) m)

section Choices

variable {k : Nat} {last : Grammar} {entry : Entry} {c : CursorId}

/-- Attempts in order, as a plan has them. -/
theorem Tolerates.attempts_or {r : Resolver} (hT : Tolerates T r last c) {n : Nat} (entry : Entry)
    {plan : Plan Parser} (hordered : plan.Ordered)
    (hparts : ∀ a ∈ plan.attempts, ∀ q ∈ a.parsers, last.Genuine q)
    (report : String → CursorId → Act Unit)
    (hreport : ∀ name {m1}, T m1 → T (stateAfter (report name c) m1)) {m : Machine} (hm : T m) :
    ∃ a ∈ plan.attempts.getLast?,
      T (stateAfter (runAttempts (run r n) report entry plan.attempts c) m) ∨
        ∃ m1, T m1 ∧ runAttempts (run r n) report entry plan.attempts c m =
          runAttempt (run r n) entry a c m1 :=
  runAttempts_or entry hordered (fun a ha {_} => hT.attempt (hparts a ha)) hreport hm

/-- **All but the last alternative of a choice leave what tries leave**: that is true when all is
done, or when the last alternative begins. -/
theorem choice_or (hT : Tolerates T (resolver k) last c) : ∀ {n : Nat} {p : Parser} {m : Machine},
    p.Chooses → last.Genuine p →
    (stateAfter (run (resolver k) n entry p c) m).grammar.Precedes last → T m →
    T (stateAfter (run (resolver k) n entry p c) m) ∨
      ∃ x m1, LastAlternative (resolver k) last entry c n p x ∧ T m1 ∧
        run (resolver k) n entry p c m = x m1
  | 0, _, _, _, _, _, hm => .inl hm
  | n + 1, p, m, hchoice, hp, hlast, hm => by
    have hr := resolver_grows k
    cases p with
    | either left right =>
      have hfell := fallback_or .left (reportArm left right c)
        ((·.mapValue .right) <$> run (resolver k) n entry right c)
        (hT.call (n := n) (hp.part List.mem_cons_self) hm)
        hT.reportArm
      rcases hfell with hkept | ⟨m1, hm1, hrun⟩
      · exact .inl hkept
      · exact .inr ⟨_, m1, .either, hm1, hrun⟩
    | planned plan =>
      obtain ⟨a, hmem, hfell⟩ := hT.attempts_or (n := n) entry hp.authentic
        (fun a ha q hq => hp.part (List.mem_flatMap.mpr ⟨a, ha, hq⟩))
        (reportAttempt plan.target) (fun _ {_} => hT.reportAttempt) hm
      rcases hfell with hkept | ⟨m1, hm1, hrun⟩
      · exact .inl hkept
      · exact .inr ⟨_, m1, .planned hmem, hm1, hrun⟩
    | generated plan code =>
      obtain ⟨hordered, rfl⟩ := hp.authentic
      have hrun : run (resolver k) (n + 1) entry (.generated plan plan.code) c =
          runAttempts (run (resolver k) n) (fun _ _ => pure ()) entry plan.attempts c :=
        hordered.invoke_eq (run (resolver k) n) entry c
      obtain ⟨a, hmem, hfell⟩ := hT.attempts_or (n := n) entry hordered
        (fun a ha q hq => hp.part (List.mem_flatMap.mpr ⟨a, ha, hq⟩))
        (fun _ _ => pure ()) (fun _ {_} hm => hm) hm
      rw [hrun]
      rcases hfell with hkept | ⟨m1, hm1, hran⟩
      · exact .inl hkept
      · exact .inr ⟨_, m1, .generated hmem, hm1, hran⟩
    | derived target =>
      have hbegun := hT.resolve (hr.planOf target) hm
      cases hplan : Act.resolve ((resolver k).planOf target) m with
      | error e m1 =>
        have hrun : run (resolver k) (n + 1) entry (.derived target) c m = .error e m1 :=
          bind_of_error hplan
        rw [stateAfter_of_error hplan] at hbegun
        rw [stateAfter_of_error hrun]
        exact .inl hbegun
      | ok plan m1 =>
        have hrun : run (resolver k) (n + 1) entry (.derived target) c m =
            run (resolver k) n entry (.planned plan) c m1 := bind_of_ok hplan
        have hafter : stateAfter (run (resolver k) (n + 1) entry (.derived target) c) m =
            stateAfter (run (resolver k) n entry (.planned plan) c) m1 :=
          stateAfter_bind_of_ok hplan
        rw [stateAfter_of_ok hplan] at hbegun
        rw [hafter] at hlast ⊢
        rw [hrun]
        have hgrow := (run_grows hr n entry (.planned plan) c).after m1
        have hknown := (hgrow.trans hlast).known (f := .plan target)
          (planOf_known (resolve_eq_ok hplan).1)
        have hpart := Grammar.part_of_derived hknown
        have hfell := choice_or hT (n := n) (p := .planned plan) trivial (hp.part hpart) hlast
          hbegun
        rcases hfell with hkept | ⟨x, m2, halt, hm2, hsame⟩
        · exact .inl hkept
        · exact .inr ⟨x, m2, .derived hknown halt, hm2, hsame⟩
    | _ => exact hchoice.elim

end Choices

end ShapeGrammar
