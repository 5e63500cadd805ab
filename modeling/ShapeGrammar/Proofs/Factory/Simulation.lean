import Mathlib.Data.List.Forall2
import ShapeGrammar.Run
import ShapeGrammar.Proofs.Factory.Scoping

/-!
# Factories do what their plans say

A factory bound to the classes and the field parsers of its plan runs, statement by statement, as
the plan is carried out attempt by attempt. This holds whatever a call of a field parser does, so
the two make the same calls in the same states, one after the other.

Headlines: `Plan.binds_factory`, `runStatements_fields`, `Plan.Ordered.invoke_eq`.
-/

namespace ShapeGrammar

/-! ## Tables that are filled -/

namespace Table

variable {α : Type}

theorem get?_putAll_of_notMem {name : String} : ∀ {u : Table α} (t : Table α),
    name ∉ names u → get? (putAll t u) name = get? t name
  | [], _, _ => rfl
  | e :: u, t, h => by
    have hne : e.1 ≠ name := fun he => h (he ▸ List.mem_cons_self)
    have hu : name ∉ names u := fun hm => h (List.mem_cons_of_mem _ hm)
    exact (get?_putAll_of_notMem (put t e.1 e.2) hu).trans (get?_put_of_ne t e.2 hne)

/-- Of entries without repetition, every one can be looked up once all are put. -/
theorem get?_putAll_of_mem {name : String} {v : α} : ∀ {u : Table α} (t : Table α),
    (names u).Nodup → (name, v) ∈ u → get? (putAll t u) name = some v
  | e :: u, t, hnodup, hmem => by
    obtain ⟨hfresh, hu⟩ := List.nodup_cons.mp hnodup
    rcases List.mem_cons.mp hmem with rfl | hmem
    · exact (get?_putAll_of_notMem (put t name v) hfresh).trans (get?_put_self t name v)
    · exact get?_putAll_of_mem (put t e.1 e.2) hu hmem

theorem putAll_append (t u w : Table α) : putAll t (u ++ w) = putAll (putAll t u) w :=
  List.foldl_append

end Table

/-! ## Binding -/

theorem unpackInto_eq_zip {α : Type} : ∀ {names : List String} {vs : List α},
    names.length = vs.length → unpackInto names vs = .ok (names.zip vs)
  | [], [], _ => rfl
  | n :: ns, v :: vs, h => by
    have hrest : unpackInto ns vs = .ok (ns.zip vs) := unpackInto_eq_zip (by simpa using h)
    unfold unpackInto
    rw [hrest]
    rfl

namespace Code

variable {targets : List ClassRef} {parsers : List (List Parser)}

/-- Defining procedures puts them into the table, one after the other. -/
theorem run_procedures (rest : Code) : ∀ (ps : List Procedure) (items : Table Item),
    run targets parsers items (ps.map .procedure ++ rest) =
      run targets parsers (items.putAll (ps.map fun p => (p.name, .attempt p))) rest
  | [], _ => rfl
  | _ :: ps, _ => run_procedures rest ps _

/-- Rows of variables as long as what they unpack are put into the table, one after the other. -/
theorem run_unpackings (rest : Code) : ∀ (rows : List (Nat × List String)) (items : Table Item),
    (∀ row ∈ rows, row.2.length = (parsers.getD row.1 []).length) →
      run targets parsers items (rows.map (fun row => .parsers row.1 row.2) ++ rest) =
        run targets parsers (items.putAll
          (rows.flatMap fun row => row.2.zip ((parsers.getD row.1 []).map .parser))) rest
  | [], _, _ => rfl
  | row :: rows, items, h => by
    have hrow : row.2.length = ((parsers.getD row.1 []).map Item.parser).length := by
      rw [List.length_map, h row List.mem_cons_self]
    have hrest := run_unpackings rest rows
      (items.putAll (row.2.zip ((parsers.getD row.1 []).map .parser)))
      fun row hrow => h row (List.mem_cons_of_mem _ hrow)
    rw [List.map_cons, List.cons_append, run, unpackInto_eq_zip hrow, List.flatMap_cons,
      Table.putAll_append, ← hrest]
    rfl

end Code

/-- What the variables of a factory hold: the classes, the field parsers and the procedures of the
attempts of a plan, each where its name says. -/
structure Binds (items : Table Item) (plan : Plan Parser) : Prop where
  target : ∀ {i a}, plan.attempts[i]? = some a →
    items.get? (targetName i) = some (.target a.target)
  parser : ∀ {i a j p}, plan.attempts[i]? = some a → a.parsers[j]? = some p →
    items.get? (parserName i j) = some (.parser p)
  attempt : ∀ {i a}, plan.attempts[i]? = some a → a.isUnit = false →
    items.get? (attemptName i) = some (.attempt
      ⟨attemptName i, "input", attemptStatements .fallible i a.parsers.length⟩)

namespace Plan

/-- The entries of the variables of a factory, in the order in which it binds them. -/
def bindings (plan : Plan Parser) : Table Item :=
  ((List.range plan.attempts.length).map targetName).zip
    (plan.attempts.map fun a => .target a.target)
    ++ plan.placed.flatMap (fun a =>
      ((List.range a.1.parsers.length).map (parserName a.2)).zip (a.1.parsers.map .parser))
    ++ plan.procedures.map fun p => (p.name, .attempt p)

theorem names_bindings (plan : Plan Parser) : plan.bindings.names = plan.code.names := by
  have hrow : ∀ a : Attempt Parser × Nat,
      Table.names (((List.range a.1.parsers.length).map (parserName a.2)).zip
        (a.1.parsers.map Item.parser)) = (List.range a.1.parsers.length).map (parserName a.2) :=
    fun a => List.map_fst_zip (by simp)
  have htargets : Table.names (((List.range plan.attempts.length).map targetName).zip
      (plan.attempts.map fun a => Item.target a.target)) =
        (List.range plan.attempts.length).map targetName :=
    List.map_fst_zip (by simp)
  have hprocedures : plan.procedures.map (·.name) = plan.placed.map (fun a => attemptName a.2) ++
      [Entry.fallible.name, Entry.total.name] := by
    rw [procedures, List.map_append, attemptProcedures, List.map_map]
    rfl
  rw [names_code]
  unfold bindings
  simp only [Table.names, List.map_append, List.map_flatMap, List.map_map, Function.comp_def]
    at hrow htargets ⊢
  simp only [hrow, htargets, hprocedures, List.append_assoc]

theorem bindings_nodup (plan : Plan Parser) : plan.bindings.names.Nodup := by
  rw [names_bindings]
  exact names_nodup plan

/-- What binding the factory of a plan gives. -/
def bound (plan : Plan Parser) : Bound :=
  ⟨Table.putAll [] plan.bindings, plan.entryProcedure .total, plan.entryProcedure .fallible⟩

theorem get?_procedure {plan : Plan Parser} {p : Procedure} (hp : p ∈ plan.procedures) :
    (Table.putAll [] plan.bindings).get? p.name = some (.attempt p) :=
  Table.get?_putAll_of_mem [] plan.bindings_nodup
    (List.mem_append_right _ (List.mem_map.mpr ⟨p, hp, rfl⟩))

/-- The variables of the field parsers of each attempt, with its place. -/
def rows (plan : Plan Parser) : List (Nat × List String) :=
  plan.placed.map fun a => (a.2, (List.range a.1.parsers.length).map (parserName a.2))

theorem unpackings_eq (plan : Plan Parser) :
    plan.unpackings = plan.rows.map fun row => .parsers row.1 row.2 := by
  rw [rows, List.map_map]
  rfl

theorem length_of_mem_rows {plan : Plan Parser} {row : Nat × List String} (h : row ∈ plan.rows) :
    row.2.length = ((plan.attempts.map (·.parsers)).getD row.1 []).length := by
  obtain ⟨a, ha, rfl⟩ := List.mem_map.mp h
  simp [List.getD_eq_getElem?_getD, attempt_of_mem_placed ha]

/-- **The factory of a plan can be bound to it**, for the two entry points. -/
theorem bind_code (plan : Plan Parser) : plan.code.bind plan = .ok plan.bound := by
  have hcount : ((List.range plan.attempts.length).map targetName).length =
      ((plan.attempts.map (·.target)).map Item.target).length := by
    simp
  have hparsers : (plan.rows.flatMap fun row =>
        row.2.zip (((plan.attempts.map (·.parsers)).getD row.1 []).map Item.parser)) =
      plan.placed.flatMap fun a =>
        ((List.range a.1.parsers.length).map (parserName a.2)).zip (a.1.parsers.map .parser) := by
    rw [rows, List.flatMap_map]
    refine List.flatMap_congr fun a ha => ?_
    rw [List.getD_eq_getElem?_getD, List.getElem?_map, attempt_of_mem_placed ha]
    rfl
  have hitems : ((Table.putAll [] (((List.range plan.attempts.length).map targetName).zip
      ((plan.attempts.map (·.target)).map Item.target))).putAll
        (plan.placed.flatMap fun a =>
          ((List.range a.1.parsers.length).map (parserName a.2)).zip
            (a.1.parsers.map .parser))).putAll
              (plan.procedures.map fun p => (p.name, .attempt p)) =
      Table.putAll [] plan.bindings := by
    rw [bindings, Table.putAll_append, Table.putAll_append, List.map_map]
    rfl
  have htotal := get?_procedure (p := plan.entryProcedure .total)
    (List.mem_append_right _ (.tail _ (.head _)))
  have hfallible := get?_procedure (p := plan.entryProcedure .fallible)
    (List.mem_append_right _ (.head _))
  unfold Code.bind Plan.code
  rw [List.cons_append, List.cons_append, List.append_assoc, Code.run, unpackInto_eq_zip hcount]
  show Code.run _ _ _ _ = _
  rw [unpackings_eq, Code.run_unpackings _ _ _ fun _ => length_of_mem_rows, hparsers,
    Code.run_procedures, hitems]
  unfold Code.run attemptIn
  rw [show Entry.total.name = (plan.entryProcedure .total).name from rfl,
    show Entry.fallible.name = (plan.entryProcedure .fallible).name from rfl, htotal, hfallible]
  rfl

/-- **The variables of a factory hold what their names say.** -/
theorem binds_factory (plan : Plan Parser) : Binds (Table.putAll [] plan.bindings) plan where
  target {i a} ha := by
    refine Table.get?_putAll_of_mem [] plan.bindings_nodup ?_
    obtain ⟨hi, rfl⟩ := List.getElem?_eq_some_iff.mp ha
    refine List.mem_append_left _ (List.mem_append_left _ (List.mem_iff_getElem?.mpr ⟨i, ?_⟩))
    simp [hi]
  parser {i a j p} ha hp := by
    refine Table.get?_putAll_of_mem [] plan.bindings_nodup ?_
    obtain ⟨hj, rfl⟩ := List.getElem?_eq_some_iff.mp hp
    have hfields : a.isUnit = false := by
      rw [isUnit_eq_decide]
      exact decide_eq_false (by omega)
    refine List.mem_append_left _ (List.mem_append_right _ ?_)
    refine List.mem_flatMap.mpr ⟨(a, i), mem_placed ha hfields, List.mem_iff_getElem?.mpr ⟨j, ?_⟩⟩
    simp [hj]
  attempt {i a} ha hfields := by
    have hmem : (⟨attemptName i, "input", attemptStatements .fallible i a.parsers.length⟩ :
        Procedure) ∈ plan.attemptProcedures :=
      List.mem_map.mpr ⟨(a, i), mem_placed ha hfields, rfl⟩
    exact get?_procedure (List.mem_append_left _ hmem)

end Plan

/-! ## Fields -/

section Fields

variable {call : Entry → Parser → CursorId → Act Outcome}
  {attempt : Procedure → CursorId → Act Outcome} {items : Table Item} {slots : Table Slot}
  {entry : Entry} {c : CursorId}

/-- The variables of a procedure hold a cursor and the values of the first fields. -/
structure Holds (slots : Table Slot) (c : CursorId) (vs : List Value) : Prop where
  input : slots.get? "input" = some (.cursor c)
  field : ∀ {j v}, vs[j]? = some v → slots.get? (fieldName j) = some (.value v)

theorem Holds.valuesIn {vs : List Value} (h : Holds slots c vs) :
    valuesIn slots ((List.range vs.length).map fieldName) = .ok vs := by
  have lookup : ∀ {names : List String} {vs : List Value},
      List.Forall₂ (fun name v => slots.get? name = some (.value v)) names vs →
        ShapeGrammar.valuesIn slots names = .ok vs := by
    intro names vs hall
    induction hall with
    | nil => rfl
    | cons hv _ ih =>
      unfold ShapeGrammar.valuesIn at ih ⊢
      rw [List.mapM_cons, hv, ih]
      rfl
  refine lookup (List.forall₂_iff_get.mpr ⟨by simp, fun j hj hj' => ?_⟩)
  rw [List.get_eq_getElem, List.getElem_map, List.getElem_range]
  exact h.field (List.getElem?_eq_getElem hj')

/-- Taking a match apart moves the cursor on and keeps one more value. -/
theorem Holds.unpack {vs : List Value} (h : Holds slots c vs) (d : CursorId) (v : Value) :
    Holds ((slots.put "input" (.cursor d)).put (fieldName vs.length) (.value v)) d
      (vs ++ [v]) where
  input := by
    rw [Table.get?_put_of_ne _ _ (ne_of_nameKind (by simp))]
    exact Table.get?_put_self ..
  field {j w} hw := by
    rcases Nat.lt_trichotomy j vs.length with hj | rfl | hj
    · rw [List.getElem?_append_left hj] at hw
      have hne : fieldName vs.length ≠ fieldName j := fun hf => by
        have := fieldName_injective hf
        omega
      rw [Table.get?_put_of_ne _ _ hne, Table.get?_put_of_ne _ _ (ne_of_nameKind (by simp))]
      exact h.field hw
    · rw [List.getElem?_concat_length] at hw
      cases hw
      exact Table.get?_put_self ..
    · rw [List.getElem?_eq_none (by simp; omega)] at hw
      cases hw

theorem Holds.answer {vs : List Value} (h : Holds slots c vs) {name : String}
    (hname : nameKind name = .result ∨ nameKind name = .found) (slot : Slot) :
    Holds (slots.put name slot) c vs where
  input := by
    rw [Table.get?_put_of_ne _ _ (ne_of_nameKind (by rcases hname with h | h <;> simp [h]))]
    exact h.input
  field hv := by
    rw [Table.get?_put_of_ne _ _ (ne_of_nameKind (by rcases hname with h | h <;> simp [h]))]
    exact h.field hv

/-! ## Statements -/

theorem Act.fail_bind {α β : Type} (f : Fault) (k : α → Act β) :
    (Act.fail f >>= k) = Act.fail f := rfl

theorem Act.lift_ok_bind {α β : Type} (a : α) (k : α → Act β) :
    (Act.lift (.ok a) >>= k) = k a := rfl

theorem parserIn_of_get? {name : String} {p : Parser} (h : items.get? name = some (.parser p)) :
    parserIn items name = .ok p := by
  unfold parserIn
  rw [h]

theorem targetIn_of_get? {name : String} {t : ClassRef} (h : items.get? name = some (.target t)) :
    targetIn items name = .ok t := by
  unfold targetIn
  rw [h]

theorem attemptIn_of_get? {name : String} {p : Procedure}
    (h : items.get? name = some (.attempt p)) : attemptIn items name = .ok p := by
  unfold attemptIn
  rw [h]

theorem cursorIn_of_get? {name : String} (h : slots.get? name = some (.cursor c)) :
    cursorIn slots name = .ok c := by
  unfold cursorIn
  rw [h]

theorem outcomeIn_put (slots : Table Slot) (name : String) (o : Outcome) :
    outcomeIn (slots.put name (.outcome o)) name = .ok o := by
  unfold outcomeIn
  rw [Table.get?_put_self]

theorem runStatements_cons (s : Statement) (rest : List Statement) :
    runStatements call attempt items slots (s :: rest) =
      s.step call attempt items slots >>= fun
        | .running slots => runStatements call attempt items slots rest
        | .returned o => pure o := rfl

/-- One field: a match is taken apart, and everything else ends the procedure. -/
theorem runStatements_field {vs : List Value} {i : Nat} {p : Parser} {rest : List Statement}
    (h : Holds slots c vs) (hp : items.get? (parserName i vs.length) = some (.parser p)) :
    runStatements call attempt items slots (fieldStatements entry i vs.length ++ rest) =
      call entry p c >>= fun
        | .matched d v =>
          runStatements call attempt items
            (((slots.put "result" (.outcome (.matched d v))).put "input" (.cursor d)).put
              (fieldName vs.length) (.value v)) rest
        | o =>
          if o.endsAt entry then pure o
          else Act.fail (.type (.other "only a match is taken apart")) := by
  have hcall : (Statement.call "result" (parserName i vs.length) entry "input").step call attempt
      items slots = call entry p c >>= fun o =>
        pure (.running (slots.put "result" (.outcome o))) := by
    simp only [Statement.step, parserIn_of_get? hp, cursorIn_of_get? h.input, Act.lift_ok_bind]
  unfold fieldStatements
  rw [List.cons_append, runStatements_cons, hcall, bind_assoc]
  congr 1
  funext o
  rw [pure_bind]
  show runStatements call attempt items _ (leaveUnmatched entry :: _) = _
  rw [runStatements_cons]
  cases entry <;> cases o <;>
    simp [leaveUnmatched, Statement.step, outcomeIn_put, Act.lift, runStatements_cons,
      Outcome.endsAt, Act.fail_bind]

/-- **The statements of an attempt do what the attempt does.** `vs` are the values of the fields
that were parsed already, `ps` the parsers of those that are left. -/
theorem runStatements_fields {i : Nat} {target : ClassRef}
    (htarget : items.get? (targetName i) = some (.target target)) :
    ∀ {ps : List Parser} {slots : Table Slot} {c : CursorId} {vs : List Value},
      Holds slots c vs →
      (∀ {j p}, ps[j]? = some p → items.get? (parserName i (vs.length + j)) = some (.parser p)) →
      runStatements call attempt items slots
          ((List.range' vs.length ps.length).flatMap (fieldStatements entry i) ++
            [.returnBuilt "input" (targetName i)
              ((List.range (vs.length + ps.length)).map fieldName)]) =
        gather call entry ps c >>= fun
          | .all d ws => do
            let v ← Act.construct target (vs ++ ws)
            pure (.matched d v)
          | .stopped o => pure o
  | [], slots, c, vs, h, _ => by
    have hstep : (Statement.returnBuilt "input" (targetName i)
        ((List.range vs.length).map fieldName)).step call attempt items slots =
          Act.construct target vs >>= fun v => pure (.returned (.matched c v)) := by
      simp only [Statement.step, cursorIn_of_get? h.input, targetIn_of_get? htarget, h.valuesIn,
        Act.lift_ok_bind]
    show runStatements call attempt items slots [_] = _
    rw [runStatements_cons, List.length_nil, Nat.add_zero, hstep, bind_assoc]
    unfold gather
    simp only [pure_bind, List.append_nil]
  | p :: ps, slots, c, vs, h, hparsers => by
    rw [List.length_cons, List.range'_succ, List.flatMap_cons, List.append_assoc,
      runStatements_field h (hparsers (j := 0) rfl)]
    unfold gather
    rw [bind_assoc]
    congr 1
    funext o
    cases o with
    | matched d v =>
      have hlen : (vs ++ [v]).length = vs.length + 1 := by simp
      have hmoved := (h.answer (.inl nameKind_result) (.outcome (.matched d v))).unpack d v
      have hnext := runStatements_fields htarget hmoved fun {j q} (hq : ps[j]? = some q) => by
        rw [hlen, Nat.add_assoc, Nat.add_comm 1 j]
        exact hparsers (j := j + 1) hq
      rw [hlen, Nat.add_assoc, Nat.add_comm 1] at hnext
      simp only [hnext, bind_assoc]
      congr 1
      funext r
      cases r with
      | all e ws => simp only [pure_bind, List.append_assoc, List.singleton_append]
      | stopped o => simp only [pure_bind]
    | missed =>
      dsimp only
      split <;> rfl
    | failed e =>
      dsimp only
      split <;> rfl

end Fields

/-! ## Attempts -/

section Attempts

variable {call : Entry → Parser → CursorId → Act Outcome} {entry : Entry}

/-- What stops a sequence of parts is how the entry point says that nothing matched. -/
theorem gather_stopped : ∀ {ps : List Parser} {c : CursorId} {o : Outcome} {m m' : Machine},
    gather call entry ps c m = .ok (.stopped o) m' → o.endsAt entry = true
  | [], _, _, _, _, h => by cases h
  | p :: ps, c, o, m, m', h => by
    unfold gather at h
    obtain ⟨first, m1, -, h⟩ := bind_eq_ok_iff.mp h
    cases first with
    | matched d v =>
      obtain ⟨rest, m2, hrest, h⟩ := bind_eq_ok_iff.mp h
      cases rest with
      | all e vs => cases h
      | stopped o' =>
        cases h
        exact gather_stopped hrest
    | missed =>
      dsimp only at h
      split at h
      · rename_i hends
        cases h
        exact hends
      · cases h
    | failed e =>
      dsimp only at h
      split at h
      · rename_i hends
        cases h
        exact hends
      · cases h

/-- An attempt in the fallible form matches or misses. -/
theorem runAttempt_ne_failed {a : Attempt Parser} {c : CursorId} {o : Outcome} {m m' : Machine}
    (h : runAttempt call .fallible a c m = .ok o m') (e : Failure) : o ≠ .failed e := by
  unfold runAttempt at h
  obtain ⟨r, m1, hr, h⟩ := bind_eq_ok_iff.mp h
  rintro rfl
  cases r with
  | all d vs =>
    obtain ⟨v, m2, -, h⟩ := bind_eq_ok_iff.mp h
    cases h
  | stopped o =>
    cases h
    cases gather_stopped hr

variable {items : Table Item} {plan : Plan Parser}

/-- The procedure of an attempt makes the attempt. -/
theorem attempt_run (hitems : Binds items plan) {i : Nat} {a : Attempt Parser}
    (ha : plan.attempts[i]? = some a) (attempt : Procedure → CursorId → Act Outcome)
    {slots : Table Slot} {c : CursorId} (hslots : Holds slots c []) :
    runStatements call attempt items slots (attemptStatements entry i a.parsers.length) =
      runAttempt call entry a c := by
  have hparsers : ∀ {j p}, a.parsers[j]? = some p →
      items.get? (parserName i (0 + j)) = some (.parser p) := fun {j p} hp => by
    rw [Nat.zero_add]
    exact hitems.parser ha hp
  have hfields := @runStatements_fields call attempt items entry i a.target (hitems.target ha)
    a.parsers slots c [] hslots hparsers
  unfold attemptStatements runAttempt
  simp only [List.length_nil, Nat.zero_add, List.nil_append, ← List.range_eq_range'] at hfields
  exact hfields

/-- An attempt with something to fall back to: a match is returned, and a miss goes on. -/
theorem fallback_run (hitems : Binds items plan) {i : Nat} {a : Attempt Parser}
    (ha : plan.attempts[i]? = some a) (hfields : a.isUnit = false) {slots : Table Slot}
    {c : CursorId} (hslots : Holds slots c []) (rest : List Statement) :
    runStatements call (Procedure.run call items 1) items slots (fallbackStatements i ++ rest) =
      Act.snapshot c >>= fun s => runAttempt call .fallible a s >>= fun
        | .matched d v => pure (.matched d v)
        | o => runStatements call (Procedure.run call items 1) items
            (slots.put "found" (.outcome o)) rest := by
  have htry : (Statement.tryAttempt "found" (attemptName i) "input").step call
      (Procedure.run call items 1) items slots =
        Act.snapshot c >>= fun s => runAttempt call .fallible a s >>= fun o =>
          pure (.running (slots.put "found" (.outcome o))) := by
    simp only [Statement.step, attemptIn_of_get? (hitems.attempt ha hfields),
      cursorIn_of_get? hslots.input, Act.lift_ok_bind]
    congr 1
    funext s
    have hs : Holds [("input", .cursor s)] s [] := ⟨rfl, fun hv => by cases hv⟩
    show runStatements call (Procedure.run call items 0) items _ _ >>= _ = _
    rw [attempt_run hitems ha _ hs]
  unfold fallbackStatements
  rw [List.cons_append, runStatements_cons, htry]
  simp only [bind_assoc, pure_bind]
  congr 1
  funext s
  refine bind_congr_of_ok fun {o m m'} ho => ?_
  show runStatements call _ items _ (Statement.returnFound "found" :: rest) = _
  rw [runStatements_cons]
  cases o with
  | matched d v => simp [Statement.step, outcomeIn_put, Act.lift]
  | missed => simp [Statement.step, outcomeIn_put, Act.lift]
  | failed e => exact absurd rfl (runAttempt_ne_failed ho e)

/-- **The statements of an entry point make the attempts of the plan.** -/
theorem attempts_run (hitems : Binds items plan) : ∀ {as : List (Attempt Parser)} {k : Nat}
    {slots : Table Slot} {c : CursorId}, OrderedAttempts as →
      (∀ {i a}, as[i]? = some a → plan.attempts[k + i]? = some a) → Holds slots c [] →
      runStatements call (Procedure.run call items 1) items slots
          ((as.zipIdx k).flatMap fun a => a.1.statements entry a.2) =
        runAttempts call (fun _ _ => pure ()) entry as c
  | [], _, _, _, h, _, _ => h.elim
  | [a], k, slots, c, h, has, hslots => by
    have ha : plan.attempts[k]? = some a := has (i := 0) rfl
    have hclosing : a.snapshot = false := h
    rw [List.zipIdx_singleton, List.flatMap_cons, List.flatMap_nil, List.append_nil,
      statements_of_closing hclosing]
    by_cases hcount : a.parsers.length = 0
    · have hunit : a.isUnit = true := by
        rw [isUnit_eq_decide]
        exact decide_eq_true hcount
      have hstep : (Statement.returnBuilt "input" (targetName k) []).step call
          (Procedure.run call items 1) items slots =
            Act.construct a.target [] >>= fun v => pure (.returned (.matched c v)) := by
        simp only [Statement.step, cursorIn_of_get? hslots.input,
          targetIn_of_get? (hitems.target ha), valuesIn, List.mapM_nil]
        rfl
      unfold runAttempts closingStatements
      rw [if_pos hcount, hunit, runStatements_cons, hstep]
      simp only [bind_assoc, pure_bind, if_true]
    · have hfields : a.isUnit = false := by
        rw [isUnit_eq_decide]
        exact decide_eq_false hcount
      unfold runAttempts closingStatements
      rw [if_neg hcount, hfields, hclosing]
      cases entry with
      | fallible =>
        have hinput : Holds [("input", .cursor c)] c [] := ⟨rfl, fun hv => by cases hv⟩
        have hstep : (Statement.returnAttempt (attemptName k) "input").step call
            (Procedure.run call items 1) items slots =
              runAttempt call .fallible a c >>= fun o => pure (.returned o) := by
          simp only [Statement.step, attemptIn_of_get? (hitems.attempt ha hfields),
            cursorIn_of_get? hslots.input, Act.lift_ok_bind]
          rw [← attempt_run hitems ha (Procedure.run call items 0) hinput]
          rfl
        rw [runStatements_cons, hstep]
        simp only [bind_assoc, pure_bind, bind_pure]
        rfl
      | total => exact attempt_run hitems ha _ hslots
  | a :: b :: rest, k, slots, c, h, has, hslots => by
    have ha : plan.attempts[k]? = some a := has (i := 0) rfl
    have hrest : ∀ {i a'}, (b :: rest)[i]? = some a' → plan.attempts[k + 1 + i]? = some a' :=
      fun {i a'} hi => by
        rw [Nat.add_assoc, Nat.add_comm 1 i]
        exact has (i := i + 1) hi
    rw [List.zipIdx_cons, List.flatMap_cons, statements_of_fallback h.1 h.2.1,
      fallback_run hitems ha h.1 hslots]
    unfold runAttempts
    rw [h.1, h.2.1]
    simp only [Bool.not_true, Bool.false_eq_true, if_false, pure_bind]
    congr 1
    funext s
    congr 1
    funext o
    have hnext := attempts_run hitems h.2.2 hrest (hslots.answer (.inr nameKind_found) (.outcome o))
    cases o with
    | matched d v => rfl
    | missed => exact hnext
    | failed e => exact hnext

end Attempts

/-- **A factory does what its plan says**, whatever a call of a field parser does. -/
theorem Plan.Ordered.invoke_eq {plan : Plan Parser} (h : plan.Ordered)
    (call : Entry → Parser → CursorId → Act Outcome) (entry : Entry) (c : CursorId) :
    plan.code.invoke call plan entry c =
      runAttempts call (fun _ _ => pure ()) entry plan.attempts c := by
  have hplan : ∀ {i a}, plan.attempts[i]? = some a → plan.attempts[0 + i]? = some a :=
    fun {i a} ha => by rwa [Nat.zero_add]
  have hinput : Holds [("input", .cursor c)] c [] := ⟨rfl, fun hv => by cases hv⟩
  have hrun := @attempts_run call entry _ plan plan.binds_factory plan.attempts 0 _ c h hplan hinput
  unfold Code.invoke
  rw [plan.bind_code, Act.lift_ok_bind, ← hrun]
  cases entry <;> rfl

end ShapeGrammar
