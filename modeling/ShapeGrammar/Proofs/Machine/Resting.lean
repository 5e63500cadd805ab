import ShapeGrammar.Proofs.Machine.Alternatives

/-!
# Parsers that leave every cursor where it stands

What begins with a snapshot and keeps to that moves no cursor that was there before, however it
ends. So an optional part, a repetition and a negation never move the cursor that they are handed,
and a choice or a plan moves it only by its last alternative.

Headlines: `Machine.Rests`, `rests_of_snapshot`, `Parser.LooksAhead`, `lookahead_rests`,
`choice_rests_or`.
-/

namespace ShapeGrammar

open Machine

/-- Every cursor that was there still stands where it stood. -/
structure Machine.Rests (m m' : Machine) : Prop where
  size : m.cursors.size ≤ m'.cursors.size
  kept : ∀ {d}, d < m.cursors.size → m'.cursor d = m.cursor d

namespace Machine.Rests

variable {c s : CursorId} {m m1 m2 : Machine}

theorem refl (m : Machine) : m.Rests m := ⟨Nat.le_refl _, fun _ => rfl⟩

theorem trans (h : m.Rests m1) (h' : m1.Rests m2) : m.Rests m2 :=
  ⟨Nat.le_trans h.size h'.size, fun hd =>
    (h'.kept (Nat.lt_of_lt_of_le hd h.size)).trans (h.kept hd)⟩

theorem of_cursors_eq (h : m1.cursors = m.cursors) : m.Rests m1 where
  size := Nat.le_of_eq (congrArg Array.size h.symm)
  kept _ := by
    unfold cursor
    rw [h]

/-- What is done with a newer cursor moves none of those that were there. -/
theorem lent (h : m.Rests m1) (hs : m.cursors.size ≤ s) (hlent : Lent s m1 m2) : m.Rests m2 where
  size := Nat.le_trans h.size hlent.size
  kept hd := by
    have hne := Nat.ne_of_lt (Nat.lt_of_lt_of_le hd hs)
    rw [hlent.others hne (Nat.lt_of_lt_of_le hd h.size)]
    exact h.kept hd

end Machine.Rests

section Parts

variable {call : Entry → Parser → CursorId → Act Outcome} {c : CursorId} {m : Machine}

/-- **What keeps to a snapshot moves no cursor that was there.** -/
theorem rests_of_snapshot {α : Type} {x : CursorId → Act α}
    (hx : ∀ {s m1}, s < m1.cursors.size → Lends s m1 (x s) m1 fun _ _ => True) :
    m.Rests (stateAfter (Act.snapshot c >>= x) m) := by
  obtain ⟨s, m1, hs⟩ : ∃ s m1, Act.snapshot c m = .ok s m1 := ⟨_, _, rfl⟩
  rw [stateAfter_bind_of_ok hs]
  cases hs
  have hpushed : m.Rests { m with
      cursors := m.cursors.push (m.cursor c), snapshots := m.snapshots + 1 } :=
    ⟨by simp, fun hd => cursor_of_push_of_lt rfl hd⟩
  exact hpushed.lent (Nat.le_refl _) (hx (by simp)).lent

/-- A call that keeps to the cursor that it is handed, on a snapshot. -/
theorem Lender.rests (hlend : Lender call) (entry : Entry) (p : Parser) :
    m.Rests (stateAfter (Act.snapshot c >>= fun s => call entry p s) m) :=
  rests_of_snapshot fun hs => (hlend entry p hs).mono fun _ _ _ => trivial

theorem Act.Still.rests {α : Type} {x : Act α} (hx : x.Still) (m : Machine) :
    m.Rests (stateAfter x m) :=
  .of_cursors_eq (hx m).2

/-- Every round of a repetition begins with a snapshot, and goes on with that. -/
theorem rests_collect (hlend : Lender call) (checked : Bool) (body : Parser) (n : Nat) :
    m.Rests (stateAfter (collect call checked body n c) m) := by
  cases n with
  | zero => exact .refl m
  | succ n =>
    unfold collect
    refine rests_of_snapshot fun {s m1} hs => ?_
    refine (hlend.lends (.refl hs) (.refl hs) .fallible body).bind fun {o m2} h2 hsize2 ho => ?_
    have hs2 : Held s m1 m2 s := (Held.refl hs).mono hsize2
    cases o with
    | matched e v =>
      refine (h2.still hs2 (still_mark checked c)).bind fun {start m3} h3 hsize3 _ => ?_
      refine (h3.still (hs2.mono hsize3) (still_checkMark body start e)).bind
        fun {_ m4} h4 hsize4 _ => ?_
      have he : Held s m1 m4 e := (ho _ _ rfl).mono (Nat.le_trans hsize3 hsize4)
      exact (lends_collect hlend checked body h4 he).bind fun h5 _ _ => .pure h5 trivial
    | missed => exact .pure h2 trivial
    | failed e => exact .pure h2 trivial

end Parts

/-! ## Runs -/

section Runs

variable {r : Resolver} (hr : r.Obeys Resolution.Grows) {n : Nat} {entry : Entry} {c : CursorId}
  {m : Machine}
include hr

theorem opt_rests (body : Parser) : m.Rests (stateAfter (run r n entry (.opt body) c) m) := by
  cases n with
  | zero => exact .refl m
  | succ n =>
    refine rests_of_snapshot fun {s m1} hs => ?_
    refine ((run_lender hr n).lends (.refl hs) (.refl hs) .fallible body).bind
      fun {o m2} h2 _ _ => ?_
    cases o <;> exact .pure h2 trivial

theorem many_rests (checked : Bool) (body : Parser) :
    m.Rests (stateAfter (run r n entry (.many checked body) c) m) := by
  cases n with
  | zero => exact .refl m
  | succ n =>
    exact stateAfter_bind_rel .trans (rests_collect (run_lender hr n) checked body n)
      fun _ m1 _ => .refl m1

theorem not_rests (body : Parser) : m.Rests (stateAfter (run r n entry (.not body) c) m) := by
  cases n with
  | zero => exact .refl m
  | succ n =>
    refine rests_of_snapshot fun {s m1} hs => ?_
    refine ((run_lender hr n).lends (.refl hs) (.refl hs) .fallible body).bind
      fun {o m2} h2 hsize2 _ => ?_
    cases o with
    | matched d v =>
      cases entry with
      | fallible => exact .pure h2 trivial
      | total =>
        exact (h2.still ((Held.refl hs).mono hsize2) (Act.still_describe body)).bind
          fun h3 _ _ => .pure h3 trivial
    | missed => exact .pure h2 trivial
    | failed e => exact .pure h2 trivial

end Runs

/-- Parsers that only ever look ahead on snapshots, and go on from those. -/
def Parser.LooksAhead : Parser → Prop
  | .opt _ => True
  | .many _ _ => True
  | .not _ => True
  | _ => False

theorem lookahead_rests {r : Resolver} (hr : r.Obeys Resolution.Grows) {n : Nat} {entry : Entry}
    {p : Parser} (hp : p.LooksAhead) (c : CursorId) (m : Machine) :
    m.Rests (stateAfter (run r n entry p c) m) := by
  cases p with
  | opt body => exact opt_rests hr body
  | many checked body => exact many_rests hr checked body
  | not body => exact not_rests hr body
  | _ => exact hp.elim

/-- That every cursor still stands where it stood stays true where parsers are tried on
snapshots. -/
theorem rests_tolerates (k : Nat) (last : Grammar) (c : CursorId) (m : Machine) :
    Tolerates m.Rests (resolver k) last c where
  resolve hx h := h.trans ((Act.still_resolve hx).rests _)
  reportArm h := h.trans ((still_reportArm _ _ c).rests _)
  reportAttempt h := h.trans ((still_reportAttempt _ _ c).rests _)
  call {n p _} _ h := h.trans ((run_lender (resolver_grows k) n).rests .fallible p)
  attempt {n a _} _ h := h.trans (rests_of_snapshot fun hs =>
    (lends_runAttempt (run_lender (resolver_grows k) n) .fallible a (.refl hs) (.refl hs)).mono
      fun _ _ _ => trivial)

/-- **A choice moves cursors only by its last alternative**, which begins with every cursor where it
stood. -/
theorem choice_rests_or {k n : Nat} {entry : Entry} {p : Parser} {c : CursorId} {m : Machine}
    (hchoice : p.Chooses)
    (hp : (stateAfter (run (resolver k) n entry p c) m).grammar.Genuine p) :
    m.Rests (stateAfter (run (resolver k) n entry p c) m) ∨
      ∃ x m1, LastAlternative (resolver k) (stateAfter (run (resolver k) n entry p c) m).grammar
        entry c n p x ∧ m.Rests m1 ∧ run (resolver k) n entry p c m = x m1 :=
  choice_or (rests_tolerates k _ c m) hchoice hp (.refl _) (.refl m)

end ShapeGrammar
