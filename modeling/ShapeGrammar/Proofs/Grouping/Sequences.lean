import ShapeGrammar.Proofs.Factory.Simulation
import ShapeGrammar.Proofs.Grouping.Regrouped

/-!
# Sequences, grouped or flat

Some parts of a sequence may be a sequence of their own. They are parsed one after the other all the
same, from where the parts before have left the cursor, and the first one that does not match ends
the whole. No snapshot is taken in between. Only a level of nesting is in the value, and in what it
takes to get to the parts.

Headlines: `Value.Spliced`, `gather_append`, `sequences_regrouped`, `sequenceErrorKind_append`.
-/

namespace ShapeGrammar

open Machine

/-- The values of the parts of a sequence, where so many parts in the middle are a sequence of their
own, and where they are not. -/
inductive Value.Spliced (before within : Nat) : Value → Value → Prop
  | intro (vs ws us : List Value) (hvs : vs.length = before) (hws : ws.length = within) :
    Spliced before within (.tuple (vs ++ .tuple ws :: us)) (.tuple (vs ++ ws ++ us))

/-! ## Parts after parts -/

namespace Gathered

/-- The outcome of a sequence. -/
def outcome : Gathered → Outcome
  | .all d vs => .matched d (.tuple vs)
  | .stopped o => o

/-- The values of the parts, after those of other ones. -/
def after (vs : List Value) : Gathered → Gathered
  | .all d us => .all d (vs ++ us)
  | .stopped o => .stopped o

/-- The values of the parts that were gathered, where so many in the middle are a sequence of their
own, and where they are not. -/
inductive Spliced (handles : CursorId → CursorId → Prop) (before within : Nat) :
    Gathered → Gathered → Prop
  | all {d d'} (handle : handles d d') (vs ws us : List Value) (hvs : vs.length = before)
    (hws : ws.length = within) :
    Spliced handles before within (.all d (vs ++ .tuple ws :: us)) (.all d' (vs ++ ws ++ us))
  | missed : Spliced handles before within (.stopped .missed) (.stopped .missed)
  | failed (e : Failure) :
    Spliced handles before within (.stopped (.failed e)) (.stopped (.failed e))

@[simp]
theorem after_all (vs us : List Value) (d : CursorId) :
    (all d us).after vs = .all d (vs ++ us) :=
  rfl

theorem after_nil (r : Gathered) : r.after [] = r := by
  cases r <;> rfl

theorem after_after (vs us : List Value) (r : Gathered) :
    (r.after us).after vs = r.after (vs ++ us) := by
  cases r with
  | all d ws => rw [after_all, after_all, after_all, List.append_assoc]
  | stopped o => rfl

theorem Spliced.after {handles : CursorId → CursorId → Prop} {within : Nat} {r r' : Gathered}
    (h : r.Spliced handles 0 within r') (vs : List Value) :
    (r.after vs).Spliced handles vs.length within (r'.after vs) := by
  cases h with
  | all handle none ws us hnone hws =>
    cases List.eq_nil_of_length_eq_zero hnone
    rw [after_all, after_all, List.nil_append, List.nil_append, ← List.append_assoc]
    exact .all handle vs ws us rfl hws
  | missed => exact .missed
  | failed e => exact .failed e

/-- What parts stop with is a miss or an error. -/
theorem Spliced.of_stopped {handles : CursorId → CursorId → Prop} {before within : Nat}
    {entry : Entry} {o o' : Outcome} (ho : o.Along handles o') (hends : o.endsAt entry = true) :
    (stopped o).Spliced handles before within (.stopped o') := by
  cases ho with
  | matched handle v => cases hends
  | missed => exact .missed
  | failed e => exact .failed e

end Gathered

section Gather

variable {call : Entry → Parser → CursorId → Act Outcome} {entry : Entry}

/-- Goes on to further parts after one part. -/
def gatherNext (call : Entry → Parser → CursorId → Act Outcome) (entry : Entry)
    (rest : List Parser) : Outcome → Act Gathered
  | .matched d v => Gathered.after [v] <$> gather call entry rest d
  | o =>
    if o.endsAt entry then pure (.stopped o)
    else Act.fail (.type (.other "only a match is taken apart"))

/-- Goes on to further parts after parts that were gathered. -/
def gatherRest (call : Entry → Parser → CursorId → Act Outcome) (entry : Entry)
    (rest : List Parser) : Gathered → Act Gathered
  | .all d vs => Gathered.after vs <$> gather call entry rest d
  | .stopped o => pure (.stopped o)

theorem gather_cons (p : Parser) (ps : List Parser) (c : CursorId) :
    gather call entry (p :: ps) c = call entry p c >>= gatherNext call entry ps := by
  conv_lhs => unfold gather
  congr 1
  funext o
  cases o with
  | matched d v =>
    show gather call entry ps d >>= _ = Gathered.after [v] <$> gather call entry ps d
    rw [← bind_pure_comp]
    congr 1
    funext r
    cases r <;> rfl
  | missed => rfl
  | failed e => rfl

/-- Parts are gathered after other parts. -/
theorem gather_append (rest : List Parser) : ∀ (ps : List Parser) (c : CursorId),
    gather call entry (ps ++ rest) c = gather call entry ps c >>= gatherRest call entry rest
  | [], c => by
    show gather call entry rest c = Gathered.after [] <$> gather call entry rest c
    rw [show Gathered.after [] = id from funext Gathered.after_nil, id_map]
  | p :: ps, c => by
    rw [List.cons_append, gather_cons, gather_cons, bind_assoc]
    congr 1
    funext o
    cases o with
    | matched d v =>
      show Gathered.after [v] <$> gather call entry (ps ++ rest) d =
        (Gathered.after [v] <$> gather call entry ps d) >>= gatherRest call entry rest
      rw [gather_append rest ps d, map_bind, bind_map_left]
      congr 1
      funext r
      cases r with
      | all e vs =>
        show Gathered.after [v] <$> Gathered.after vs <$> gather call entry rest e =
          Gathered.after ([v] ++ vs) <$> gather call entry rest e
        rw [Functor.map_map]
        congr 1
        funext r
        exact r.after_after [v] vs
      | stopped o => rfl
    | missed =>
      unfold gatherNext
      dsimp only
      split <;> rfl
    | failed e =>
      unfold gatherNext
      dsimp only
      split <;> rfl

theorem gather_length : ∀ {ps : List Parser} {c d : CursorId} {vs : List Value} {m m' : Machine},
    gather call entry ps c m = .ok (.all d vs) m' → vs.length = ps.length
  | [], _, _, _, _, _, h => by
    cases h
    rfl
  | p :: ps, c, d, vs, m, m', h => by
    unfold gather at h
    obtain ⟨o, m1, -, h⟩ := bind_eq_ok_iff.mp h
    cases o with
    | matched e v =>
      obtain ⟨r, m2, hr, h⟩ := bind_eq_ok_iff.mp h
      cases r with
      | all e' vs' =>
        cases h
        rw [List.length_cons, List.length_cons, gather_length hr]
      | stopped o => cases h
    | missed =>
      dsimp only at h
      split at h <;> cases h
    | failed e =>
      dsimp only at h
      split at h <;> cases h

end Gather

section Nested

variable (R : Resolver) (n : Nat) (entry : Entry)

/-- A sequence gathers its parts. -/
theorem runWith_seq (call : Entry → Parser → CursorId → Act Outcome) (parts : List Parser)
    (c : CursorId) :
    runWith R n call entry (.seq parts) c = Gathered.outcome <$> gather call entry parts c := by
  rw [← bind_pure_comp]
  show gather call entry parts c >>= _ = _
  congr 1
  funext r
  cases r <;> rfl

theorem run_seq (parts : List Parser) (c : CursorId) :
    run R (n + 1) entry (.seq parts) c = Gathered.outcome <$> gather (run R n) entry parts c := by
  rw [run_succ, runWith_seq]

/-- Goes on to further parts after parts that are a sequence of their own. -/
def gatherNested (call : Entry → Parser → CursorId → Act Outcome) (entry : Entry)
    (rest : List Parser) : Gathered → Act Gathered
  | .all d ws => Gathered.after [.tuple ws] <$> gather call entry rest d
  | .stopped o => pure (.stopped o)

/-- Of a part that is a sequence, the parts are gathered. -/
theorem gather_nested (qs rest : List Parser) (c : CursorId) :
    gather (run R (n + 1)) entry (.seq qs :: rest) c =
      gather (run R n) entry qs c >>= gatherNested (run R (n + 1)) entry rest := by
  rw [gather_cons, run_seq, bind_map_left]
  funext m
  cases hr : gather (run R n) entry qs c m with
  | error e m1 => rw [bind_of_error hr, bind_of_error hr]
  | ok r m1 =>
    rw [bind_of_ok hr, bind_of_ok hr]
    cases r with
    | all d ws => rfl
    | stopped o =>
      -- what the nested sequence has stopped with can stop the whole
      have hends := gather_stopped hr
      cases o with
      | matched d v => cases hends
      | missed => exact congrFun (if_pos hends) m1
      | failed e => exact congrFun (if_pos hends) m1

end Nested

/-! ## Parts in the middle -/

section Sequences

variable {short short' : Prop} {c c' : CursorId} {m m' : Machine} {N : Renumbering}

/-- Parts are gathered alike by two runs. -/
theorem gathers_renumbered (k n n' : Nat) (entry : Entry) (ps : List Parser) (hc : N.Same c c')
    (hshort : n < n' → short) (hshort' : n' < n → short') :
    Renumbers N short short' (Gathered.Along N.Same) (gather (run (resolver k) n) entry ps c)
      (gather (run (resolver k) n') entry ps c') :=
  renumbered_law.gather (P := fun _ => True)
    (fun entry p _ _ _ _ hc m m' h =>
      (run_renumbered k n n' entry p hc m m' h).imp id hshort hshort' id id)
    trivial hc fun _ _ => trivial

/-- Parts that are a sequence of their own come first, or are not one. -/
theorem first_regrouped (k n n' : Nat) (entry : Entry) (qs rs : List Parser) (hc : N.Same c c')
    (hshort : n < n' → short) (hshort' : n' ≤ n + 1 → short') (h : Renumbered N m m') :
    Meets (Renumbered N) short short' (fun _ => False)
      (fun r r' m1 m1' => r.Spliced N.Same 0 qs.length r' ∧ Renumbered N m1 m1')
      (gather (run (resolver k) (n + 1)) entry (.seq qs :: rs) c m)
      (gather (run (resolver k) n') entry (qs ++ rs) c' m') := by
  rw [gather_nested, gather_append]
  have hqs := gathers_renumbered k n n' entry qs hc hshort (fun hlt => hshort' (by omega)) m m' h
  refine hqs.bind ?_
  rintro r r' m1 m1' hr - ⟨hgathered, h1⟩
  cases hgathered with
  | stopped ho => exact .answered ⟨.of_stopped ho (gather_stopped hr), h1⟩
  | all hd ws =>
    refine (gathers_renumbered k (n + 1) n' entry rs hd (fun hlt => hshort (by omega))
      (fun hlt => hshort' (by omega)) m1 m1' h1).map ?_
    rintro r r' m2 m2' hrest - ⟨hgathered, h2⟩
    cases hgathered with
    | all hd us => exact ⟨.all hd [] ws us rfl (gather_length hr), h2⟩
    | stopped ho => exact ⟨.of_stopped ho (gather_stopped hrest), h2⟩

/-- The parts before them are the same ones. -/
theorem gather_regrouped (k n n' : Nat) (entry : Entry) (ps qs rs : List Parser) (hc : N.Same c c')
    (hshort : n < n' → short) (hshort' : n' ≤ n + 1 → short') (h : Renumbered N m m') :
    Meets (Renumbered N) short short' (fun _ => False)
      (fun r r' m1 m1' => r.Spliced N.Same ps.length qs.length r' ∧ Renumbered N m1 m1')
      (gather (run (resolver k) (n + 1)) entry (ps ++ .seq qs :: rs) c m)
      (gather (run (resolver k) n') entry (ps ++ (qs ++ rs)) c' m') := by
  rw [gather_append, gather_append]
  refine (gathers_renumbered k (n + 1) n' entry ps hc (fun hlt => hshort (by omega))
    (fun hlt => hshort' (by omega)) m m' h).bind ?_
  rintro r r' m1 m1' hr - ⟨hgathered, h1⟩
  cases hgathered with
  | stopped ho => exact .answered ⟨.of_stopped ho (gather_stopped hr), h1⟩
  | all hd vs =>
    refine (first_regrouped k n n' entry qs rs hd hshort hshort' h1).map ?_
    rintro r r' m2 m2' - - ⟨hrest, h2⟩
    rw [← gather_length hr]
    exact ⟨hrest.after vs, h2⟩

/-- Without fuel, no part is called. -/
theorem gather_outOfFuel (R : Resolver) (entry : Entry) (p : Parser) (ps qs : List Parser)
    (c : CursorId) (m : Machine) :
    gather (run R 0) entry (ps ++ p :: qs) c m = .error .outOfFuel m := by
  cases ps with
  | nil => rfl
  | cons q ps => rfl

/-- **A sequence in a sequence is the flat one**, but for a level of nesting in the value. -/
theorem sequences_regrouped (k n n' : Nat) (entry : Entry) (ps qs rs : List Parser)
    (hc : c < m.cursors.size) :
    Meets m.Agrees (n ≤ n') (n' ≤ n) (fun _ => False)
      (Outcome.Regrouped (Value.Spliced ps.length qs.length) c m)
      (run (resolver k) n entry (.seq (ps ++ .seq qs :: rs)) c m)
      (run (resolver k) n' entry (.seq (ps ++ (qs ++ rs))) c m) := by
  match n, n' with
  | 0, n' => exact .starved (Nat.zero_le _) _ _
  | n + 1, 0 => exact .starved' (Nat.zero_le _) _ _
  | 1, n' + 1 =>
    rw [run_seq, ← bind_pure_comp, bind_of_error (gather_outOfFuel _ _ _ _ _ _ _)]
    exact .starved (by omega) _ _
  | n + 2, n' + 1 =>
    have hcalls := (Agrees.refl m).renumbered hc hc rfl
    have hparts : Meets _ (n + 2 ≤ n' + 1) (n' + 1 ≤ n + 2) _ _ _ _ :=
      gather_regrouped k n n' entry ps qs rs .own (by omega) (by omega) hcalls
    have hruns : Meets (Renumbered (.ofCalls hc hc)) (n + 2 ≤ n' + 1) (n' + 1 ≤ n + 2)
        (fun _ => False)
        (fun o o' m1 m1' => ∃ r r' : Gathered, o = r.outcome ∧ o' = r'.outcome ∧
          r.Spliced (Renumbering.ofCalls hc hc).Same ps.length qs.length r' ∧
          Renumbered (.ofCalls hc hc) m1 m1')
        (run (resolver k) (n + 2) entry (.seq (ps ++ .seq qs :: rs)) c m)
        (run (resolver k) (n' + 1) entry (.seq (ps ++ (qs ++ rs))) c m) := by
      rw [run_seq, run_seq]
      exact hparts.map fun _ _ ⟨hr, h⟩ => ⟨_, _, rfl, rfl, hr, h⟩
    have hlent := (run_lender (resolver_grows k) (n + 2) entry (.seq (ps ++ .seq qs :: rs)) hc).lent
    have hlent' := (run_lender (resolver_grows k) (n' + 1) entry (.seq (ps ++ (qs ++ rs))) hc).lent
    refine (hruns.after hlent hlent').imp
      (fun ⟨hrun, hlent, hlent'⟩ => (Agrees.refl m).called hc hc (.inl rfl) hrun hlent hlent')
      id id id ?_
    rintro _ _ m1 m1' ⟨⟨r, r', rfl, rfl, hr, hrun⟩, hlent, hlent'⟩
    have hagrees := (Agrees.refl m).called hc hc (.inl rfl) hrun hlent hlent'
    cases hr with
    | all hd vs ws us hvs hws =>
      exact .matched (.intro vs ws us hvs hws) (hrun.cursor hd) (hd.eq_iff .own) hagrees
    | missed => exact .missed hagrees
    | failed e => exact .failed e hagrees

end Sequences

end ShapeGrammar
