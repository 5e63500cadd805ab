import ShapeGrammar.Proofs.Session.Cursors

/-!
# Cursors are moved by who is handed them

A call moves the cursor that it is handed forward, at most to the end of its input, whether it
matches, misses, fails or stops; it moves no other cursor that was there. A match names that cursor
or a new one, which stands at the end of the match. So between the steps of a session every cursor
stands within its input, and it moves only by the steps that are handed that cursor.

Headlines: `Session.InOrder`, `Session.step_inOrder`, `Session.run_kept`, `cursors_disciplined`.
-/

namespace ShapeGrammar

open Machine

namespace Session

/-- Every cursor of a session is placed, and every name stands for a cursor that is there. -/
structure InOrder (s : Session) : Prop where
  placed : s.machine.Placed
  named : ∀ {name c}, s.cursors.get? name = some c → c < s.machine.cursors.size

variable {k : Limits} {s : Session}

theorem start_inOrder (threshold : Option LogLevel) : (Session.start threshold).InOrder where
  placed hd := absurd hd (Nat.not_lt_zero _)
  named h := by cases h

/-- The step that follows moves the cursor that it is handed. -/
theorem InOrder.drives (hs : s.InOrder) (x : Step) :
    s.machine.Drives (x.handed? s.cursors = some ·) (s.step k x).2.machine := by
  have hrefreshed : s.machine.Drives (x.handed? s.cursors = some ·) (refreshed s.machine) :=
    .of_cursors_eq rfl
  rw [machine_step]
  exact hrefreshed.trans (drives_perform (m := refreshed s.machine) hs.named x) fun _ => id

/-- The names after a step that answers. -/
theorem step_of_ok {x : Step} {answer : Answer} {named : Option (String × CursorId)} {m : Machine}
    (h : perform k s.cursors (if x.isDeclaration then s.declarations + 1 else s.declarations) x
      (refreshed s.machine) = .ok (answer, named) m) :
    (s.step k x).1.answer = answer ∧ (s.step k x).2.machine = m ∧
      (s.step k x).2.cursors = named.elim s.cursors fun e => s.cursors.put e.1 e.2 := by
  unfold step
  dsimp only
  rw [h]
  cases named <;> exact ⟨rfl, rfl, rfl⟩

/-- A step that stops gives no names. -/
theorem step_of_error {x : Step} {e : Stop} {m : Machine}
    (h : perform k s.cursors (if x.isDeclaration then s.declarations + 1 else s.declarations) x
      (refreshed s.machine) = .error e m) : (s.step k x).2.cursors = s.cursors := by
  unfold step
  dsimp only
  rw [h]

theorem InOrder.named_step (hs : s.InOrder) (x : Step) {name : String} {c : CursorId}
    (h : (s.step k x).2.cursors.get? name = some c) : c < (s.step k x).2.machine.cursors.size := by
  have hold : s.cursors.get? name = some c → c < (s.step k x).2.machine.cursors.size :=
    fun hget => Nat.lt_of_lt_of_le (hs.named hget) (hs.drives (k := k) x).size
  cases hx : perform k s.cursors (if x.isDeclaration then s.declarations + 1 else s.declarations) x
      (refreshed s.machine) with
  | error e m =>
    rw [step_of_error hx] at h
    exact hold h
  | ok r m =>
    obtain ⟨answer, named⟩ := r
    obtain ⟨-, hmachine, hcursors⟩ := step_of_ok hx
    rw [hcursors] at h
    cases named with
    | none => exact hold h
    | some named =>
      obtain ⟨other, d⟩ := named
      by_cases hname : other = name
      · subst hname
        rw [Option.elim_some, Table.get?_put_self] at h
        cases h
        rw [hmachine]
        exact perform_named (m := refreshed s.machine) hs.named hx
      · rw [Option.elim_some, Table.get?_put_of_ne _ _ hname] at h
        exact hold h

/-- **A step leaves a session in order.** -/
theorem step_inOrder (hs : s.InOrder) (x : Step) : (s.step k x).2.InOrder :=
  ⟨(hs.drives x).placed hs.placed, hs.named_step x⟩

/-- **So does any number of steps.** -/
theorem run_inOrder (xs : List Step) : ∀ {s : Session}, s.InOrder → (s.run k xs).2.InOrder := by
  induction xs with
  | nil => exact fun hs => hs
  | cons x xs ih => exact fun hs => ih (step_inOrder hs x)

/-- **A cursor that no step is handed stays where it is.** -/
theorem run_kept {d : CursorId} (xs : List Step) : ∀ {s : Session}, s.InOrder →
    d < s.machine.cursors.size →
    (∀ before x after, xs = before ++ x :: after →
      x.handed? (s.run k before).2.cursors ≠ some d) →
    (s.run k xs).2.machine.cursor d = s.machine.cursor d := by
  induction xs with
  | nil => exact fun _ _ _ => rfl
  | cons x xs ih =>
    intro s hs hd hnot
    have hstep := (hs.drives (k := k) x).kept hd (hnot [] x xs rfl)
    have hlt := Nat.lt_of_lt_of_le hd (hs.drives (k := k) x).size
    have hrest := ih (step_inOrder (k := k) hs x) hlt fun before y after heq =>
      hnot (x :: before) y after (by rw [heq, List.cons_append])
    exact hrest.trans hstep

/-- To read at a cursor answers the element at its position. -/
theorem next_answer {name : String} {c : CursorId} (h : s.cursors.get? name = some c) :
    (s.step k (.next name)).1.answer =
      match (s.machine.cursor c).peek? with
      | some v => .item v
      | none => .endOfInput := by
  have hnamed : namedCursor s.cursors name (refreshed s.machine) =
      .ok c (refreshed s.machine) := by
    unfold namedCursor
    rw [h]
    rfl
  have hpeek : (s.machine.cursor c).peek? = ((refreshed s.machine).cursor c).peek? := rfl
  rw [hpeek]
  cases hnext : ((refreshed s.machine).cursor c).next? with
  | none =>
    rw [Option.map_eq_none_iff.mp hnext]
    exact (step_of_ok ((bind_of_ok hnamed).trans (bind_of_ok (next_of_end hnext)))).1
  | some r =>
    obtain ⟨v, moved⟩ := r
    have hv : ((refreshed s.machine).cursor c).peek? = some v := (Cursor.next?_eq_some hnext).1
    rw [hv]
    exact (step_of_ok ((bind_of_ok hnamed).trans (bind_of_ok (next_of_some hnext)))).1

end Session

/-- A cursor within its input stays within it. -/
theorem Cursor.Onward.within {a b : Cursor} (h : a.Onward b) (ha : a.position ≤ a.source.size) :
    ∃ i, a.position ≤ i ∧ i ≤ a.source.size ∧ b = { a with position := i } := by
  obtain ⟨i, hi, hend, rfl⟩ := h
  refine ⟨i, hi, ?_, rfl⟩
  rcases hend with hend | rfl
  · exact hend
  · exact ha

/-- **The discipline of cursors.** A call moves only the cursor that it is handed, forward and
within its input, whichever way it ends; what it matches ends ahead of that, at the cursor itself or
at a new one. What looks ahead moves no cursor, and a choice moves the one that it is handed only by
its last alternative. So after any steps of a session, every cursor stands within its input, reading
answers the element where it stands, and only steps that are handed a cursor move it. -/
theorem cursors_disciplined (k : Limits) :
    (∀ {n : Nat} {entry : Entry} {p : Parser} {c : CursorId} {m m' : Machine},
      c < m.cursors.size → (m.cursor c).position ≤ (m.cursor c).source.size →
      m' = stateAfter (run k.answers n entry p c) m →
      (∀ d, d ≠ c → d < m.cursors.size → m'.cursor d = m.cursor d) ∧
      (∃ i, (m.cursor c).position ≤ i ∧ i ≤ (m.cursor c).source.size ∧
        m'.cursor c = { m.cursor c with position := i } ∧
        ∀ d v, run k.answers n entry p c m = .ok (.matched d v) m' →
          (d = c ∨ m.cursors.size ≤ d) ∧ d < m'.cursors.size ∧
          ∃ j, j ≤ (m.cursor c).source.size ∧ m'.cursor d = { m.cursor c with position := j } ∧
            (m'.grammar.Genuine p → i ≤ j)) ∧
      (p.LooksAhead → m.Rests m') ∧
      (p.Chooses → m'.grammar.Genuine p → m.Rests m' ∨
        ∃ x m1, LastAlternative k.answers m'.grammar entry c n p x ∧ m.Rests m1 ∧
          run k.answers n entry p c m = x m1)) ∧
    (∀ (threshold : Option LogLevel) (steps : List Session.Step) {s : Session},
      s = ((Session.start threshold).run k steps).2 →
      s.machine.Placed ∧
      (∀ name d, s.cursors.get? name = some d → d < s.machine.cursors.size ∧
        (s.step k (.next name)).1.answer =
          match (s.machine.cursor d).source.get? (s.machine.cursor d).position with
          | some v => .item v
          | none => .endOfInput) ∧
      (∀ x d, d < s.machine.cursors.size →
        (s.machine.cursor d).Onward ((s.step k x).2.machine.cursor d) ∧
        (x.handed? s.cursors ≠ some d →
          (s.step k x).2.machine.cursor d = s.machine.cursor d)) ∧
      (∀ more d, d < s.machine.cursors.size →
        (∀ before x after, more = before ++ x :: after →
          x.handed? (s.run k before).2.cursors ≠ some d) →
        (s.run k more).2.machine.cursor d = s.machine.cursor d)) := by
  have hr : k.answers.Obeys Resolution.Grows := resolver_grows k.questions
  constructor
  · rintro n entry p c m _ hc hin rfl
    have hlends := run_lender hr n entry p hc
    refine ⟨fun d hne hd => hlends.lent.others hne hd, ?_, fun hp => lookahead_rests hr hp c m,
      choice_rests_or⟩
    have hown := hlends.lent.own (.inl rfl) (Nat.lt_of_lt_of_le hc hlends.size)
    obtain ⟨i, hi, hend, hplace⟩ := hown.within hin
    refine ⟨i, hi, hend, hplace, fun d v h => ?_⟩
    have hheld := hlends.answer h d v rfl
    have honward := hlends.lent.own hheld.own hheld.lt
    obtain ⟨j, -, hj, hmatched⟩ := honward.within hin
    refine ⟨hheld.own, hheld.lt, j, hj, hmatched, fun hp => ?_⟩
    have hahead := run_ahead hc h hp
    unfold Behind at hahead
    rw [hplace, hmatched] at hahead
    exact hahead
  · rintro threshold steps _ rfl
    have hs := Session.run_inOrder (k := k) steps (Session.start_inOrder threshold)
    refine ⟨hs.placed, fun name d hget => ⟨hs.named hget, Session.next_answer hget⟩,
      fun x d hd => ?_, fun more d hd hnot => Session.run_kept more hs hd hnot⟩
    have hdrives := hs.drives (k := k) x
    exact ⟨hdrives.onward hd, fun hnot => hdrives.kept hd hnot⟩

/-- The end, or else any one element. -/
def endOrAny : Parser :=
  .either (.not .any) .any

/-- A session with two cursors over one text. -/
def twoCursors : List Session.Step :=
  [.openCursor "c" (.text "ab") 1 true, .snapshot "c" "d"]

/-- On `"ac"`, the choice reads one letter by its right arm, which begins where the choice was
handed the cursor. Of two cursors over one text, reading at the second one leaves the first one. -/
theorem cursors_disciplined_endOrAny :
    0 < (reading (.empty none) "ac").cursors.size ∧
      ((reading (.empty none) "ac").cursor 0).position ≤
        ((reading (.empty none) "ac").cursor 0).source.size ∧
      endOrAny.Chooses ∧
      (stateAfter (run Limits.standard.answers 3 .total endOrAny 0)
        (reading (.empty none) "ac")).grammar.Genuine endOrAny ∧
      (∃ x m1, LastAlternative Limits.standard.answers
        (stateAfter (run Limits.standard.answers 3 .total endOrAny 0)
          (reading (.empty none) "ac")).grammar .total 0 3 endOrAny x ∧
        (reading (.empty none) "ac").Rests m1 ∧
        run Limits.standard.answers 3 .total endOrAny 0 (reading (.empty none) "ac") = x m1) ∧
      (Session.Step.next "d").handed? ((Session.start none).run .standard twoCursors).2.cursors ≠
        some 0 ∧
      ((((Session.start none).run .standard twoCursors).2.step .standard
        (.next "d")).2.machine.cursor
        0) = ((Session.start none).run .standard twoCursors).2.machine.cursor 0 := by
  have hc : 0 < (reading (.empty none) "ac").cursors.size := by decide
  have hin : ((reading (.empty none) "ac").cursor 0).position ≤
      ((reading (.empty none) "ac").cursor 0).source.size := by decide
  have hgenuine : ∀ g : Grammar, g.Genuine endOrAny := by
    intro g
    refine Grammar.genuine_of_closed
      (P := fun q => q = endOrAny ∨ q = .not .any ∨ q = .any) ?_ ?_ (.inl rfl)
    · rintro q s (rfl | rfl | rfl) hs
      · rcases List.mem_cons.mp hs with rfl | hs
        · exact .inr (.inl rfl)
        · exact .inr (.inr (List.mem_singleton.mp hs))
      · exact .inr (.inr (List.mem_singleton.mp hs))
      · cases hs
    · rintro q (rfl | rfl | rfl) <;> trivial
  obtain ⟨hcall, hsession⟩ := cursors_disciplined .standard
  have hmoved : ¬ (reading (.empty none) "ac").Rests
      (stateAfter (run Limits.standard.answers 3 .total endOrAny 0)
        (reading (.empty none) "ac")) := by
    intro hrests
    have hplace := congrArg Cursor.position (hrests.kept hc)
    cases hplace
  have hhanded : (Session.Step.next "d").handed?
      ((Session.start none).run .standard twoCursors).2.cursors ≠ some 0 := by decide
  have hchoice : endOrAny.Chooses := trivial
  refine ⟨hc, hin, hchoice, hgenuine _, ?_, hhanded, ?_⟩
  · exact ((hcall hc hin rfl).2.2.2 hchoice (hgenuine _)).resolve_left hmoved
  · exact ((hsession none twoCursors rfl).2.2.1 (.next "d") 0 (by decide)).2 hhanded

end ShapeGrammar
