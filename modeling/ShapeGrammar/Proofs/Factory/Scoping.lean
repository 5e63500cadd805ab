import ShapeGrammar.Proofs.Factory.Names
import ShapeGrammar.Proofs.Planning

/-!
# Every name of a factory is bound

Every name that a statement of a factory reads was bound before, by the factory or by an earlier
statement of the same procedure. No two things in a factory have one name, no variable of a
procedure hides a name of the factory, and every procedure ends with a statement that returns.

Headlines: `Scoped`, `Procedure.WellNamed`, `Code.WellNamed`, `Plan.Ordered.wellNamed`.
-/

namespace ShapeGrammar

namespace Statement

/-- The names that a statement reads. -/
def reads : Statement → List String
  | .call _ parser _ cursor => [parser, cursor]
  | .returnMiss result => [result]
  | .returnError result => [result]
  | .unpack _ _ result => [result]
  | .tryAttempt _ attempt cursor => [attempt, cursor]
  | .returnFound found => [found]
  | .returnAttempt attempt cursor => [attempt, cursor]
  | .returnBuilt cursor target arguments => cursor :: target :: arguments
  | .returnNothing => []

/-- The variables that hold cursors and answers after a statement. -/
def moves : Statement → List String
  | .call result _ _ _ => [result]
  | .unpack cursor _ _ => [cursor]
  | .tryAttempt found _ _ => [found]
  | _ => []

/-- The variables that hold values after a statement. -/
def keeps : Statement → List String
  | .unpack _ value _ => [value]
  | _ => []

/-- The names that a statement binds. -/
def binds (s : Statement) : List String :=
  s.moves ++ s.keeps

/-- Whether a statement returns an answer, whatever it finds. -/
def leaves : Statement → Bool
  | .returnAttempt _ _ => true
  | .returnBuilt _ _ _ => true
  | .returnNothing => true
  | _ => false

end Statement

/-- Every name that the statements read is known, or one that an earlier statement binds. -/
def Scoped : List String → List Statement → Prop
  | _, [] => True
  | known, s :: rest => (∀ name ∈ s.reads, name ∈ known) ∧ Scoped (known ++ s.binds) rest

/-- The names in a procedure are in order, where those of the factory are known. -/
structure Procedure.WellNamed (outer : List String) (p : Procedure) : Prop where
  inScope : Scoped (outer ++ [p.parameter]) p.body
  /-- No variable hides a name of the factory. -/
  apart : ∀ name ∈ p.parameter :: p.body.flatMap Statement.binds, name ∉ outer
  /-- Every value has a variable of its own. -/
  kept : (p.body.flatMap Statement.keeps).Nodup
  /-- No value has the variable of a cursor or of an answer. -/
  moved : ∀ name ∈ p.body.flatMap Statement.keeps,
    name ∉ p.parameter :: p.body.flatMap Statement.moves
  /-- The last statement returns. -/
  ends : ∃ front s, p.body = front ++ [s] ∧ s.leaves = true

/-- The names that a step of a factory binds. -/
def Clause.names : Clause → List String
  | .targets names => names
  | .parsers _ names => names
  | .procedure p => [p.name]
  | _ => []

/-- The procedure that a step of a factory defines. -/
def Clause.procedure? : Clause → Option Procedure
  | .procedure p => some p
  | _ => none

/-- Whether a step of a factory returns two procedures that are defined. -/
def Clause.Returns (known : List String) : Clause → Prop
  | .returnEntries total fallible => total ∈ known ∧ fallible ∈ known
  | _ => False

namespace Code

/-- The names that a factory binds. -/
def names (code : Code) : List String :=
  code.flatMap Clause.names

/-- The procedures of a factory. -/
def procedures (code : Code) : List Procedure :=
  code.filterMap Clause.procedure?

/-- The names in a factory are in order. -/
structure WellNamed (code : Code) : Prop where
  /-- No two things have one name. -/
  distinct : code.names.Nodup
  procedures : ∀ p ∈ code.procedures, p.WellNamed code.names
  /-- The last step returns two of the procedures. -/
  ends : ∃ front last, code = front ++ [last] ∧ last.Returns (code.procedures.map (·.name))

end Code

/-! ## Scopes -/

theorem Scoped.mono {known known' : List String} (hsub : ∀ name ∈ known, name ∈ known') :
    ∀ {body : List Statement}, Scoped known body → Scoped known' body
  | [], _ => trivial
  | s :: rest, h => by
    refine ⟨fun name hname => hsub name (h.1 name hname), h.2.mono fun name hname => ?_⟩
    rcases List.mem_append.mp hname with hk | hb
    · exact List.mem_append_left _ (hsub name hk)
    · exact List.mem_append_right _ hb

theorem Scoped.append {known : List String} :
    ∀ {front back : List Statement}, Scoped known front →
      Scoped (known ++ front.flatMap Statement.binds) back → Scoped known (front ++ back)
  | [], _, _, hback => by simpa using hback
  | s :: front, back, hfront, hback => by
    refine ⟨hfront.1, hfront.2.append ?_⟩
    simpa only [List.flatMap_cons, List.append_assoc] using hback

/-- Pieces that need no name of one another can stand in any number. -/
theorem Scoped.flatMap {ι : Type} {known : List String} {piece : ι → List Statement} :
    ∀ {l : List ι}, (∀ i ∈ l, Scoped known (piece i)) → Scoped known (l.flatMap piece)
  | [], _ => trivial
  | i :: l, h => by
    rw [List.flatMap_cons]
    have hl : Scoped known (l.flatMap piece) :=
      Scoped.flatMap fun j hj => h j (List.mem_cons_of_mem i hj)
    exact (h i List.mem_cons_self).append (hl.mono fun name => List.mem_append_left _)

/-! ## The parts of an attempt -/

section Parts

variable {known : List String} {entry : Entry} {i : Nat}

theorem fieldStatements_scoped {j : Nat} (hinput : "input" ∈ known)
    (hparser : parserName i j ∈ known) : Scoped known (fieldStatements entry i j) := by
  unfold fieldStatements
  cases entry <;>
    simp [leaveUnmatched, Scoped, Statement.reads, Statement.binds, Statement.moves,
      Statement.keeps, hinput, hparser]

theorem fieldStatements_keeps (j : Nat) :
    (fieldStatements entry i j).flatMap Statement.keeps = [fieldName j] := by
  cases entry <;> rfl

theorem fieldStatements_moves (j : Nat) :
    (fieldStatements entry i j).flatMap Statement.moves = ["result", "input"] := by
  cases entry <;> rfl

theorem attemptStatements_keeps (count : Nat) :
    (attemptStatements entry i count).flatMap Statement.keeps =
      (List.range count).map fieldName := by
  unfold attemptStatements
  rw [List.flatMap_append, List.flatMap_assoc]
  simp only [fieldStatements_keeps]
  simp [Statement.keeps, List.map_eq_flatMap]

theorem attemptStatements_moves {count : Nat} {name : String}
    (h : name ∈ (attemptStatements entry i count).flatMap Statement.moves) :
    nameKind name = .result ∨ nameKind name = .input := by
  unfold attemptStatements at h
  rw [List.flatMap_append, List.flatMap_assoc] at h
  simp only [fieldStatements_moves] at h
  simp only [Statement.moves, List.flatMap_cons, List.flatMap_nil, List.append_nil,
    List.mem_flatMap] at h
  obtain ⟨-, -, h⟩ := h
  rcases List.mem_cons.mp h with rfl | h
  · exact .inl rfl
  · exact .inr (by rw [List.mem_singleton.mp h]; rfl)

theorem attemptStatements_scoped {count : Nat} (hinput : "input" ∈ known)
    (htarget : targetName i ∈ known) (hparsers : ∀ j < count, parserName i j ∈ known) :
    Scoped known (attemptStatements entry i count) := by
  refine Scoped.append (Scoped.flatMap fun j hj => ?_) ?_
  · exact fieldStatements_scoped hinput (hparsers j (List.mem_range.mp hj))
  · refine ⟨fun name hname => ?_, trivial⟩
    simp only [Statement.reads, List.mem_cons, List.mem_map, List.mem_range] at hname
    rcases hname with rfl | rfl | ⟨j, hj, rfl⟩
    · exact List.mem_append_left _ hinput
    · exact List.mem_append_left _ htarget
    · -- the statements of field `j` bind its variable
      refine List.mem_append_right _ (List.mem_flatMap.mpr
        ⟨.unpack "input" (fieldName j) "result", ?_, ?_⟩)
      · exact List.mem_flatMap.mpr ⟨j, List.mem_range.mpr hj, by simp [fieldStatements]⟩
      · simp [Statement.binds, Statement.moves, Statement.keeps]

end Parts

/-! ## The entry points -/

section EntryPoints

variable {P : Type}

/-- The statements of an attempt with something to fall back to. -/
def fallbackStatements (i : Nat) : List Statement :=
  [.tryAttempt "found" (attemptName i) "input", .returnFound "found"]

/-- The statements of an attempt with nothing to fall back to. -/
def closingStatements (entry : Entry) (i count : Nat) : List Statement :=
  if count = 0 then [.returnBuilt "input" (targetName i) []]
  else
    match entry with
    | .fallible => [.returnAttempt (attemptName i) "input"]
    | .total => attemptStatements .total i count

theorem isUnit_eq_decide (a : Attempt P) : a.isUnit = decide (a.parsers.length = 0) := by
  unfold Attempt.isUnit
  cases a.parsers <;> simp

theorem statements_of_fallback {a : Attempt P} (hfields : a.isUnit = false)
    (hsnapshot : a.snapshot = true) (entry : Entry) (i : Nat) :
    a.statements entry i = fallbackStatements i := by
  unfold Attempt.statements
  rw [hfields, hsnapshot]
  rfl

theorem statements_of_closing {a : Attempt P} (hsnapshot : a.snapshot = false) (entry : Entry)
    (i : Nat) : a.statements entry i = closingStatements entry i a.parsers.length := by
  unfold Attempt.statements closingStatements
  cases entry <;>
    simp only [hsnapshot, isUnit_eq_decide, decide_eq_true_eq, Bool.false_eq_true, if_false]

/-- Attempts in order are some with a fallback and one without. -/
theorem OrderedAttempts.split : ∀ {as : List (Attempt P)}, OrderedAttempts as →
    ∃ init last, as = init ++ [last] ∧ last.snapshot = false ∧
      ∀ a ∈ init, a.isUnit = false ∧ a.snapshot = true
  | [], h => h.elim
  | [a], h => ⟨[], a, rfl, h, fun _ hb => by cases hb⟩
  | a :: b :: rest, h => by
    obtain ⟨init, last, heq, hlast, hinit⟩ := OrderedAttempts.split h.2.2
    refine ⟨a :: init, last, by rw [heq]; rfl, hlast, fun x hx => ?_⟩
    rcases List.mem_cons.mp hx with rfl | hx
    · exact ⟨h.1, h.2.1⟩
    · exact hinit x hx

theorem entryProcedure_body {plan : Plan P} {init : List (Attempt P)} {last : Attempt P}
    (hattempts : plan.attempts = init ++ [last]) (hlast : last.snapshot = false)
    (hinit : ∀ a ∈ init, a.isUnit = false ∧ a.snapshot = true) (entry : Entry) :
    (plan.entryProcedure entry).body = (List.range init.length).flatMap fallbackStatements ++
      closingStatements entry init.length last.parsers.length := by
  have hpieces : ∀ a ∈ init.zipIdx, a.1.statements entry a.2 = fallbackStatements a.2 := by
    intro a ha
    obtain ⟨hfields, hsnapshot⟩ := hinit a.1 (List.fst_mem_of_mem_zipIdx ha)
    exact statements_of_fallback hfields hsnapshot entry a.2
  unfold Plan.entryProcedure
  simp only [hattempts, List.zipIdx_append, List.flatMap_append, List.zipIdx_singleton,
    List.flatMap_cons, List.flatMap_nil, List.append_nil, Nat.zero_add,
    statements_of_closing hlast]
  rw [List.flatMap_congr hpieces, List.range_eq_range', ← List.zipIdx_map_snd 0 init,
    List.flatMap_map]

theorem closingStatements_keeps (entry : Entry) (i count : Nat) :
    (closingStatements entry i count).flatMap Statement.keeps = [] ∨
      (closingStatements entry i count).flatMap Statement.keeps =
        (List.range count).map fieldName := by
  unfold closingStatements
  split
  · exact .inl rfl
  · cases entry with
    | fallible => exact .inl rfl
    | total => exact .inr (attemptStatements_keeps count)

theorem closingStatements_ends (entry : Entry) (i count : Nat) :
    ∃ front s, closingStatements entry i count = front ++ [s] ∧ s.leaves = true := by
  unfold closingStatements
  split
  · exact ⟨[], _, rfl, rfl⟩
  · cases entry with
    | fallible => exact ⟨[], _, rfl, rfl⟩
    | total => exact ⟨_, _, rfl, rfl⟩

theorem closingStatements_moves {entry : Entry} {i count : Nat} {name : String}
    (h : name ∈ (closingStatements entry i count).flatMap Statement.moves) :
    nameKind name = .result ∨ nameKind name = .input := by
  unfold closingStatements at h
  split at h
  · simp [Statement.moves] at h
  · cases entry with
    | fallible => simp [Statement.moves] at h
    | total => exact attemptStatements_moves h

end EntryPoints

/-! ## Factories of plans -/

section Plans

variable {P : Type} (plan : Plan P)

/-- The attempts with fields, with their places. -/
def Plan.placed : List (Attempt P × Nat) :=
  plan.attempts.zipIdx.filter fun a => !a.1.isUnit

theorem mem_placed {plan : Plan P} {i : Nat} {a : Attempt P} (ha : plan.attempts[i]? = some a)
    (hfields : a.isUnit = false) : (a, i) ∈ plan.placed :=
  List.mem_filter.mpr ⟨List.mk_mem_zipIdx_iff_getElem?.mpr ha, by simp [hfields]⟩

theorem attempt_of_mem_placed {plan : Plan P} {a : Attempt P × Nat} (h : a ∈ plan.placed) :
    plan.attempts[a.2]? = some a.1 :=
  List.mk_mem_zipIdx_iff_getElem?.mp (List.mem_filter.mp h).1

theorem placed_pairwise : plan.placed.Pairwise fun a b => a.2 ≠ b.2 := by
  have hplaces : (plan.attempts.zipIdx.map Prod.snd).Nodup := by
    rw [List.zipIdx_map_snd]
    exact List.nodup_range'
  exact (List.pairwise_map.mp hplaces).filter _

variable {plan} {i : Nat} {a : Attempt P}

theorem procedures_code (plan : Plan P) : plan.code.procedures = plan.procedures := by
  have hunpackings : plan.unpackings.filterMap Clause.procedure? = [] := by
    simp [Plan.unpackings, Clause.procedure?]
  have hprocedures : (plan.procedures.map Clause.procedure).filterMap Clause.procedure? =
      plan.procedures := by
    rw [List.filterMap_map]
    exact List.filterMap_some
  unfold Code.procedures Plan.code
  simp only [List.cons_append, List.filterMap_cons, List.filterMap_append, hunpackings,
    hprocedures, List.filterMap_nil, List.nil_append, Clause.procedure?, List.append_nil]

theorem names_code (plan : Plan P) :
    plan.code.names =
      (List.range plan.attempts.length).map targetName ++
        plan.placed.flatMap (fun a => (List.range a.1.parsers.length).map (parserName a.2)) ++
        plan.placed.map (fun a => attemptName a.2) ++ [Entry.fallible.name, Entry.total.name] := by
  have hattempts : plan.attemptProcedures.map (·.name) = plan.placed.map fun a => attemptName a.2 :=
    List.map_map
  have hprocedures : (plan.procedures.map Clause.procedure).flatMap Clause.names =
      plan.attemptProcedures.map (·.name) ++ [Entry.fallible.name, Entry.total.name] := by
    rw [List.flatMap_map, show (fun p => Clause.names (.procedure p)) = fun p => [p.name] from rfl,
      ← List.map_eq_flatMap, Plan.procedures, List.map_append]
    rfl
  have hrows : plan.unpackings.flatMap Clause.names =
      plan.placed.flatMap fun a => (List.range a.1.parsers.length).map (parserName a.2) :=
    List.flatMap_map _ _ _
  unfold Code.names Plan.code
  simp only [List.cons_append, List.flatMap_cons, List.flatMap_append, List.flatMap_nil, hrows,
    hprocedures, hattempts, Clause.names, List.append_nil, List.append_assoc]

theorem targetName_mem_names (ha : plan.attempts[i]? = some a) :
    targetName i ∈ plan.code.names := by
  rw [names_code]
  have hi : i < plan.attempts.length := (List.getElem?_eq_some_iff.mp ha).1
  simp only [List.mem_append, List.mem_map, List.mem_range]
  exact .inl (.inl (.inl ⟨i, hi, rfl⟩))

theorem parserName_mem_names (ha : plan.attempts[i]? = some a) {j : Nat}
    (hj : j < a.parsers.length) : parserName i j ∈ plan.code.names := by
  have hfields : a.isUnit = false := by
    rw [isUnit_eq_decide]
    exact decide_eq_false (by omega)
  rw [names_code]
  simp only [List.mem_append, List.mem_flatMap, List.mem_map, List.mem_range]
  exact .inl (.inl (.inr ⟨(a, i), mem_placed ha hfields, j, hj, rfl⟩))

theorem attemptName_mem_names (ha : plan.attempts[i]? = some a) (hfields : a.isUnit = false) :
    attemptName i ∈ plan.code.names := by
  rw [names_code]
  simp only [List.mem_append, List.mem_map]
  exact .inl (.inr ⟨(a, i), mem_placed ha hfields, rfl⟩)

theorem nameKind_of_mem_names {x : String} (h : x ∈ plan.code.names) :
    nameKind x = .target ∨ nameKind x = .parser ∨ nameKind x = .attempt ∨ nameKind x = .entry := by
  rw [names_code] at h
  simp only [List.mem_append, List.mem_flatMap, List.mem_map] at h
  rcases h with ((⟨i, -, rfl⟩ | ⟨b, -, j, -, rfl⟩) | ⟨b, -, rfl⟩) | h
  · exact .inl (nameKind_targetName i)
  · exact .inr (.inl (nameKind_parserName b.2 j))
  · exact .inr (.inr (.inl (nameKind_attemptName b.2)))
  · simp only [List.mem_cons, List.not_mem_nil, or_false] at h
    rcases h with rfl | rfl
    · exact .inr (.inr (.inr (nameKind_entry .total)))
    · exact .inr (.inr (.inr (nameKind_entry .fallible)))

/-- A name of another kind than those of the factory is none of them. -/
theorem notMem_names {x : String}
    (h : nameKind x = .field ∨ nameKind x = .input ∨ nameKind x = .result ∨ nameKind x = .found) :
    x ∉ plan.code.names := by
  intro hx
  rcases nameKind_of_mem_names hx with hk | hk | hk | hk <;> simp [hk] at h

/-- Lists without repetition whose names differ in kind make a list without repetition. -/
theorem nodup_append_of_nameKind {xs ys : List String} (hxs : xs.Nodup) (hys : ys.Nodup)
    (hkinds : ∀ x ∈ xs, ∀ y ∈ ys, nameKind x ≠ nameKind y) : (xs ++ ys).Nodup :=
  List.nodup_append'.mpr ⟨hxs, hys, fun x hx hy => hkinds x hx x hy rfl⟩

theorem names_nodup (plan : Plan P) : plan.code.names.Nodup := by
  rw [names_code]
  have htargets : ((List.range plan.attempts.length).map targetName).Nodup :=
    List.Nodup.map (fun _ _ => targetName_injective) List.nodup_range
  have hparsers : (plan.placed.flatMap
      fun a => (List.range a.1.parsers.length).map (parserName a.2)).Nodup := by
    refine List.nodup_flatMap.mpr ⟨fun a _ => ?_, (placed_pairwise plan).imp fun {a b} hab => ?_⟩
    · exact List.Nodup.map (fun _ _ h => (parserName_injective h).2) List.nodup_range
    · intro x hxa hxb
      obtain ⟨j, -, rfl⟩ := List.mem_map.mp hxa
      obtain ⟨j', -, heq⟩ := List.mem_map.mp hxb
      exact hab (parserName_injective heq).1.symm
  have hattempts : (plan.placed.map fun a => attemptName a.2).Nodup :=
    List.pairwise_map.mpr ((placed_pairwise plan).imp fun hab h => hab (attemptName_injective h))
  have hentries : [Entry.fallible.name, Entry.total.name].Nodup := by decide
  refine nodup_append_of_nameKind (nodup_append_of_nameKind
    (nodup_append_of_nameKind htargets hparsers ?_) hattempts ?_) hentries ?_
  · intro x hx y hy
    obtain ⟨i, -, rfl⟩ := List.mem_map.mp hx
    obtain ⟨b, -, hy⟩ := List.mem_flatMap.mp hy
    obtain ⟨j, -, rfl⟩ := List.mem_map.mp hy
    simp
  · intro x hx y hy
    obtain ⟨b, -, rfl⟩ := List.mem_map.mp hy
    rcases List.mem_append.mp hx with hx | hx
    · obtain ⟨i, -, rfl⟩ := List.mem_map.mp hx
      simp
    · obtain ⟨b, -, hx⟩ := List.mem_flatMap.mp hx
      obtain ⟨j, -, rfl⟩ := List.mem_map.mp hx
      simp
  · intro x hx y hy
    have hkind : nameKind y = .entry := by
      simp only [List.mem_cons, List.not_mem_nil, or_false] at hy
      rcases hy with rfl | rfl <;> simp
    rw [hkind]
    rcases List.mem_append.mp hx with hx | hx
    · rcases List.mem_append.mp hx with hx | hx
      · obtain ⟨i, -, rfl⟩ := List.mem_map.mp hx
        simp
      · obtain ⟨b, -, hx⟩ := List.mem_flatMap.mp hx
        obtain ⟨j, -, rfl⟩ := List.mem_map.mp hx
        simp
    · obtain ⟨b, -, rfl⟩ := List.mem_map.mp hx
      simp

/-- A procedure of a factory whose body needs only names of the factory and its parameter. -/
theorem wellNamed_of_body {p : Procedure} (hparameter : p.parameter = "input")
    (hscope : Scoped (plan.code.names ++ ["input"]) p.body)
    (hkeeps : ∃ count, p.body.flatMap Statement.keeps = (List.range count).map fieldName)
    (hmoves : ∀ x ∈ p.body.flatMap Statement.moves,
      nameKind x = .result ∨ nameKind x = .input ∨ nameKind x = .found)
    (hends : ∃ front s, p.body = front ++ [s] ∧ s.leaves = true) :
    p.WellNamed plan.code.names := by
  obtain ⟨count, hkeeps⟩ := hkeeps
  have hkept : ∀ x ∈ p.body.flatMap Statement.keeps, nameKind x = .field := by
    intro x hx
    rw [hkeeps] at hx
    obtain ⟨j, -, rfl⟩ := List.mem_map.mp hx
    exact nameKind_fieldName j
  refine
    { inScope := by rwa [hparameter]
      apart := fun x hx => notMem_names ?_
      kept := by
        rw [hkeeps]
        exact List.Nodup.map (fun _ _ => fieldName_injective) List.nodup_range
      moved := fun x hx hx' => ?_
      ends := hends }
  · rcases List.mem_cons.mp hx with rfl | hx
    · rw [hparameter]
      exact .inr (.inl rfl)
    · obtain ⟨s, hs, hx⟩ := List.mem_flatMap.mp hx
      rcases List.mem_append.mp hx with hx | hx
      · rcases hmoves x (List.mem_flatMap.mpr ⟨s, hs, hx⟩) with h | h | h
        · exact .inr (.inr (.inl h))
        · exact .inr (.inl h)
        · exact .inr (.inr (.inr h))
      · exact .inl (hkept x (List.mem_flatMap.mpr ⟨s, hs, hx⟩))
  · have hfield := hkept x hx
    rcases List.mem_cons.mp hx' with rfl | hx'
    · rw [hparameter] at hfield
      cases hfield
    · rcases hmoves x hx' with h | h | h <;> simp [h] at hfield

theorem attempt_wellNamed (ha : plan.attempts[i]? = some a) :
    Procedure.WellNamed plan.code.names
      ⟨attemptName i, "input", attemptStatements .fallible i a.parsers.length⟩ := by
  refine wellNamed_of_body rfl ?_ ⟨a.parsers.length, attemptStatements_keeps _⟩ ?_ ⟨_, _, rfl, rfl⟩
  · refine attemptStatements_scoped (List.mem_append_right _ List.mem_cons_self)
      (List.mem_append_left _ (targetName_mem_names ha)) fun j hj => ?_
    exact List.mem_append_left _ (parserName_mem_names ha hj)
  · intro x hx
    exact (attemptStatements_moves hx).imp_right .inl

theorem Plan.Ordered.entry_wellNamed (h : plan.Ordered) (entry : Entry) :
    (plan.entryProcedure entry).WellNamed plan.code.names := by
  obtain ⟨init, last, hattempts, hlast, hinit⟩ := h.split
  have hbody := entryProcedure_body hattempts hlast hinit entry
  have hlastAt : plan.attempts[init.length]? = some last := by
    rw [hattempts]
    exact List.getElem?_concat_length
  refine wellNamed_of_body rfl ?_ ?_ ?_ ?_
  · rw [hbody]
    have hinput : "input" ∈ plan.code.names ++ ["input"] :=
      List.mem_append_right _ List.mem_cons_self
    have hfallbacks : Scoped (plan.code.names ++ ["input"])
        ((List.range init.length).flatMap fallbackStatements) := by
      refine Scoped.flatMap fun i hi => ?_
      obtain ⟨a, ha⟩ : ∃ a, init[i]? = some a :=
        ⟨_, List.getElem?_eq_getElem (List.mem_range.mp hi)⟩
      have hat : plan.attempts[i]? = some a := by
        rw [hattempts, List.getElem?_append_left (List.mem_range.mp hi)]
        exact ha
      have hname : attemptName i ∈ plan.code.names :=
        attemptName_mem_names hat (hinit a (List.mem_of_getElem? ha)).1
      simp [fallbackStatements, Scoped, Statement.reads, Statement.binds, Statement.moves, hname]
    refine hfallbacks.append (Scoped.mono (fun _ => List.mem_append_left _) ?_)
    unfold closingStatements
    split
    · simp [Scoped, Statement.reads, targetName_mem_names hlastAt]
    · rename_i hcount
      cases entry with
      | fallible =>
        have hname : attemptName init.length ∈ plan.code.names :=
          attemptName_mem_names hlastAt (by rw [isUnit_eq_decide]; exact decide_eq_false hcount)
        simp [Scoped, Statement.reads, hname]
      | total =>
        refine attemptStatements_scoped hinput
          (List.mem_append_left _ (targetName_mem_names hlastAt)) fun j hj => ?_
        exact List.mem_append_left _ (parserName_mem_names hlastAt hj)
  · rw [hbody, List.flatMap_append, List.flatMap_assoc]
    have hnone : ((List.range init.length).flatMap
        fun i => (fallbackStatements i).flatMap Statement.keeps) = [] := by
      simp [fallbackStatements, Statement.keeps]
    rw [hnone, List.nil_append]
    rcases closingStatements_keeps entry init.length last.parsers.length with hk | hk
    · exact ⟨0, hk⟩
    · exact ⟨_, hk⟩
  · intro x hx
    rw [hbody, List.flatMap_append, List.flatMap_assoc] at hx
    rcases List.mem_append.mp hx with hx | hx
    · obtain ⟨i, -, hx⟩ := List.mem_flatMap.mp hx
      simp only [fallbackStatements, Statement.moves, List.flatMap_cons, List.flatMap_nil,
        List.append_nil, List.mem_singleton] at hx
      exact .inr (.inr (by rw [hx]; rfl))
    · exact (closingStatements_moves hx).imp_right .inl
  · obtain ⟨front, s, hends, hs⟩ :=
      closingStatements_ends entry init.length last.parsers.length
    exact ⟨_, s, by rw [hbody, hends, ← List.append_assoc], hs⟩

/-- **The names of a factory are in order.** Every name that is read is bound, none means two
things, no procedure runs past its last statement, and the factory returns its entry points. -/
theorem Plan.Ordered.wellNamed (h : plan.Ordered) : plan.code.WellNamed where
  distinct := names_nodup plan
  procedures p hp := by
    rw [procedures_code] at hp
    rcases List.mem_append.mp hp with hp | hp
    · obtain ⟨a, ha, rfl⟩ := List.mem_map.mp hp
      exact attempt_wellNamed (attempt_of_mem_placed ha)
    · simp only [List.mem_cons, List.not_mem_nil, or_false] at hp
      rcases hp with rfl | rfl
      · exact h.entry_wellNamed .fallible
      · exact h.entry_wellNamed .total
  ends := by
    refine ⟨_, _, rfl, ?_⟩
    rw [procedures_code]
    unfold Plan.procedures
    simp [Clause.Returns, Plan.entryProcedure]

end Plans

end ShapeGrammar
