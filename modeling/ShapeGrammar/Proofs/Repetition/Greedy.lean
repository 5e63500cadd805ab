import ShapeGrammar.Proofs.Peg.Refinement

/-!
# Greedy repetition

A checked repetition follows the chain of matches that its body makes, each tried on a snapshot of
the cursor behind the last one, for as long as every match gets onward. Where the body does not
match any more, the repetition matches up to there with the values of the chain; where a match ends
where it began, the repetition stops. As every link of the chain takes up some of the source, one of
the two happens. A repetition that must match once calls the body on its own cursor first, in the
form in which it is called itself, and goes on behind that match.

The premise is that the calls of the body that the chain asks for return. A repetition that stops
says so with the description of its body, and a body need not have one: what the repetition then
stops with is what describing the body stops with.

Headlines: `Chain`, `Returns`, `Grammar.refusal`, `collect_of_ends`, `collect_of_stalls`,
`repetition_decides`, `repetition_undescribed`.
-/

namespace ShapeGrammar

open Machine

/-- How many elements are left behind a cursor. -/
def Cursor.left (c : Cursor) : Nat :=
  c.source.size - c.position

/-- What a repetition stops with where a match of its body ends where it began: that nothing was
consumed there, with the description of the body. Where the body has none, it is what describing the
body stops with. -/
def Grammar.refusal (g : Grammar) (body : Parser) (place : Nat) : Stop :=
  match g.describe body with
  | .ok text => .fault (.zeroWidth text place)
  | .error stop => stop

section Chains

variable (call : Entry → Parser → CursorId → Act Outcome) (body : Parser)

/-- Tries the body on a snapshot of a cursor. -/
def tryOnce (c : CursorId) : Act Outcome :=
  Act.snapshot c >>= call .fallible body

/-- Matches of the body that get onward, each tried behind the one before, with their values. -/
inductive Chain : CursorId → Machine → List Value → CursorId → Machine → Prop
  | done {c : CursorId} {m : Machine} : Chain c m [] c m
  | link {c d e : CursorId} {m m1 m2 : Machine} {v : Value} {vs : List Value}
    (matched : tryOnce call body c m = .ok (.matched d v) m1)
    (onward : (m.cursor c).position < (m1.cursor d).position)
    (rest : Chain d m1 vs e m2) : Chain c m (v :: vs) e m2

/-- A chain of matches, behind which the body does not match. -/
def ChainEnds (c : CursorId) (m : Machine) (vs : List Value) (d : CursorId) (m' : Machine) : Prop :=
  ∃ m1 o, Chain call body c m vs d m1 ∧ tryOnce call body d m1 = .ok o m' ∧
    ∀ e v, o ≠ .matched e v

/-- A chain of matches, behind which a match ends at the place where it began. -/
def ChainStalls (c : CursorId) (m : Machine) (vs : List Value) (place : Nat) (m' : Machine) :
    Prop :=
  ∃ d m1 e v, Chain call body c m vs d m1 ∧ tryOnce call body d m1 = .ok (.matched e v) m' ∧
    (m1.cursor d).position = place ∧ (m'.cursor e).position = place

/-- What a repetition comes to is what the chain from a cursor comes to: after at most as many links
as there are elements left, the chain ends or stalls; the repetition matches behind the chain, with
the values of the chain wrapped up, iff it ends, and it is refused iff it stalls. -/
structure FollowsChain (c : CursorId) (m : Machine) (wrap : List Value → Value)
    (result : EStateM.Result Stop Machine Outcome) : Prop where
  decides : ∃ vs m', vs.length ≤ (m.cursor c).left ∧
    ((∃ d, ChainEnds call body c m vs d m') ∨ ∃ place, ChainStalls call body c m vs place m')
  answers : ∀ {o m'}, result = .ok o m' ↔
    ∃ vs d, ChainEnds call body c m vs d m' ∧ o = .matched d (wrap vs)
  stops : ∀ {e m'}, result = .error e m' ↔
    ∃ vs place, ChainStalls call body c m vs place m' ∧ e = m'.grammar.refusal body place

/-- The calls that repeating the body from a cursor on asks for return: every trial behind a chain
of matches does. -/
def Returns (c : CursorId) (m : Machine) : Prop :=
  ∀ {vs d m1}, Chain call body c m vs d m1 → ∃ o m', tryOnce call body d m1 = .ok o m'

end Chains

section Repetition

variable {call : Entry → Parser → CursorId → Act Outcome} {body : Parser} {c d : CursorId}
  {m m1 m2 : Machine} {vs : List Value}

/-! ## Where a chain leads -/

/-- A trial leaves the cursor where it was, and a match is not behind it. -/
theorem tryOnce_eq_ok (hlend : Lender call) (hc : c < m.cursors.size) {o : Outcome}
    (h : tryOnce call body c m = .ok o m1) :
    m1.cursor c = m.cursor c ∧
      ∀ e v, o = .matched e v → e < m1.cursors.size ∧ (m.cursor c).Onward (m1.cursor e) := by
  obtain ⟨s, m2, hs, ho⟩ := bind_eq_ok_iff.mp h
  obtain ⟨hscursor, hslt, -, -, -⟩ := snapshot_eq hs
  obtain ⟨hlent, -, hheld⟩ := (hlend .fallible body hslt).of_ok ho
  refine ⟨(snapshot_call (fun {_ _} => hlend .fallible body) hc hs ho).1, fun e v heq => ?_⟩
  have he := hheld e v heq
  have honward := hlent.own he.own he.lt
  rw [hscursor] at honward
  exact ⟨he.lt, honward⟩

/-- A chain leads onward, by one element at least for each link. -/
theorem Chain.onward (hlend : Lender call) (hc : c < m.cursors.size)
    (h : Chain call body c m vs d m1) :
    d < m1.cursors.size ∧ (m.cursor c).Onward (m1.cursor d) ∧
      (m.cursor c).position + vs.length ≤ (m1.cursor d).position := by
  induction h with
  | done => exact ⟨hc, .refl _, Nat.le_refl _⟩
  | link hmatched honward _ ih =>
    obtain ⟨-, hnext⟩ := tryOnce_eq_ok hlend hc hmatched
    obtain ⟨hd, hcd⟩ := hnext _ _ rfl
    obtain ⟨he, hde, hlength⟩ := ih hd
    refine ⟨he, hcd.trans hde, ?_⟩
    rw [List.length_cons]
    omega

/-- A chain has no more links than there are elements left. -/
theorem Chain.length_le (hlend : Lender call) (hc : c < m.cursors.size)
    (h : Chain call body c m vs d m1) :
    vs.length ≤ (m.cursor c).left := by
  obtain ⟨-, ⟨k, -, hk, hd⟩, hlength⟩ := h.onward hlend hc
  rw [hd] at hlength
  simp only at hlength
  unfold Cursor.left
  omega

/-! ## What a repetition does along a chain -/

theorem mark_of_positioned (hpositioned : (m.cursor c).positioned = true) :
    mark true c m = .ok (some (m.cursor c).position) m :=
  map_eq_ok_iff.mpr ⟨_, position_of_positioned hpositioned, rfl⟩

/-- A match that gets onward passes the check. -/
theorem checkMark_of_onward {start : Nat} (hpositioned : (m.cursor d).positioned = true)
    (h : start < (m.cursor d).position) : checkMark body (some start) d m = .ok () m := by
  show (Act.position d >>= fun stop => if stop ≤ start then _ else pure ()) m = _
  rw [bind_of_ok (position_of_positioned hpositioned), if_neg (Nat.not_le.mpr h)]
  rfl

/-- A match that does not get onward is refused. -/
theorem checkMark_of_stall {start : Nat} (hpositioned : (m.cursor d).positioned = true)
    (h : (m.cursor d).position ≤ start) :
    checkMark body (some start) d m = .error (m.grammar.refusal body start) m := by
  show (Act.position d >>= fun stop => if stop ≤ start then _ else pure ()) m = _
  rw [bind_of_ok (position_of_positioned hpositioned), if_pos h]
  unfold Grammar.refusal
  cases hdescribe : m.grammar.describe body with
  | ok text =>
    rw [bind_of_ok (describe_of_ok hdescribe)]
    rfl
  | error stop => exact bind_of_error (describe_of_error hdescribe)

/-- What a trial does first in every round. -/
theorem collect_succ (n : Nat) : collect call true body (n + 1) c =
    tryOnce call body c >>= fun o =>
      match o with
      | .matched d v => do
        let start ← mark true c
        checkMark body start d
        let (e, vs) ← collect call true body n d
        pure (e, v :: vs)
      | _ => pure (c, []) := by
  unfold tryOnce
  exact (bind_assoc (Act.snapshot c) (call .fallible body) _).symm

theorem collect_of_miss {n : Nat} {o : Outcome} (h : tryOnce call body c m = .ok o m1)
    (hmiss : ∀ d v, o ≠ .matched d v) : collect call true body (n + 1) c m = .ok (c, []) m1 := by
  rw [collect_succ, bind_of_ok h]
  cases o with
  | matched d v => exact absurd rfl (hmiss d v)
  | missed => rfl
  | failed e => rfl

variable (hlend : Lender call) (hc : c < m.cursors.size)
  (hpositioned : (m.cursor c).positioned = true)
include hlend hc hpositioned

theorem collect_of_onward {n : Nat} {v : Value} (h : tryOnce call body c m = .ok (.matched d v) m1)
    (honward : (m.cursor c).position < (m1.cursor d).position) :
    collect call true body (n + 1) c m =
      ((fun r => (r.1, v :: r.2)) <$> collect call true body n d) m1 := by
  obtain ⟨hkept, hnext⟩ := tryOnce_eq_ok hlend hc h
  obtain ⟨-, k, -, -, hd⟩ := hnext _ _ rfl
  have hmark : mark true c m1 = .ok (some (m.cursor c).position) m1 := by
    rw [mark_of_positioned (by rw [hkept]; exact hpositioned), hkept]
  have hcheck : checkMark body (some (m.cursor c).position) d m1 = .ok () m1 :=
    checkMark_of_onward (by rw [hd]; exact hpositioned) honward
  rw [collect_succ, bind_of_ok h]
  dsimp only
  rw [bind_of_ok hmark, bind_of_ok hcheck]
  rfl

theorem collect_of_stall {n : Nat} {v : Value} (h : tryOnce call body c m = .ok (.matched d v) m1)
    (hstall : (m1.cursor d).position ≤ (m.cursor c).position) :
    collect call true body (n + 1) c m =
      .error (m1.grammar.refusal body (m.cursor c).position) m1 := by
  obtain ⟨hkept, hnext⟩ := tryOnce_eq_ok hlend hc h
  obtain ⟨-, k, -, -, hd⟩ := hnext _ _ rfl
  have hmark : mark true c m1 = .ok (some (m.cursor c).position) m1 := by
    rw [mark_of_positioned (by rw [hkept]; exact hpositioned), hkept]
  have hcheck : checkMark body (some (m.cursor c).position) d m1 = _ :=
    checkMark_of_stall (by rw [hd]; exact hpositioned) hstall
  rw [collect_succ, bind_of_ok h]
  dsimp only
  rw [bind_of_ok hmark, bind_of_error hcheck]

omit hc hpositioned in
/-- A chain is followed to where it leads, with a round for each of its links. -/
theorem collect_of_chain (h : Chain call body c m vs d m1) (hc : c < m.cursors.size)
    (hpositioned : (m.cursor c).positioned = true) (n : Nat) :
    collect call true body (n + vs.length) c m =
      ((fun r => (r.1, vs ++ r.2)) <$> collect call true body n d) m1 := by
  induction h with
  | done => exact congrFun (id_map' _).symm _
  | @link c d e m m1 m2 v vs hmatched honward _ ih =>
    obtain ⟨-, hnext⟩ := tryOnce_eq_ok hlend hc hmatched
    obtain ⟨hd, k, -, -, hk⟩ := hnext _ _ rfl
    have hrest := ih hd (by rw [hk]; exact hpositioned)
    show collect call true body (n + vs.length + 1) c m = _
    rw [collect_of_onward hlend hc hpositioned hmatched honward, map_congr_at _ hrest, ← comp_map]
    rfl

/-- Where the body does not match behind a chain, the values of the chain are collected. -/
theorem collect_of_ends {n : Nat} (h : ChainEnds call body c m vs d m1) (hn : vs.length < n) :
    collect call true body n c m = .ok (d, vs) m1 := by
  obtain ⟨m2, o, hchain, hlast, hmiss⟩ := h
  obtain ⟨k, rfl⟩ : ∃ k, n = k + 1 + vs.length := ⟨n - 1 - vs.length, by omega⟩
  rw [collect_of_chain hlend hchain hc hpositioned]
  exact map_eq_ok_iff.mpr ⟨_, collect_of_miss hlast hmiss, by simp⟩

/-- Where a match behind a chain ends where it began, collecting stops. -/
theorem collect_of_stalls {n place : Nat} (h : ChainStalls call body c m vs place m1)
    (hn : vs.length < n) :
    collect call true body n c m = .error (m1.grammar.refusal body place) m1 := by
  obtain ⟨d, m2, e, v, hchain, hlast, hplace, hsame⟩ := h
  obtain ⟨k, rfl⟩ : ∃ k, n = k + 1 + vs.length := ⟨n - 1 - vs.length, by omega⟩
  obtain ⟨hd, ⟨j, -, -, hj⟩, -⟩ := hchain.onward hlend hc
  have hstall := collect_of_stall (n := k) hlend hd (by rw [hj]; exact hpositioned) hlast
    (Nat.le_of_eq (hsame.trans hplace.symm))
  rw [hplace] at hstall
  rw [collect_of_chain hlend hchain hc hpositioned]
  exact map_of_error hstall

/-! ## One of the two happens -/

omit hlend hc hpositioned in
theorem ChainEnds.cons {e : CursorId} {v : Value}
    (hmatched : tryOnce call body c m = .ok (.matched d v) m1)
    (honward : (m.cursor c).position < (m1.cursor d).position)
    (h : ChainEnds call body d m1 vs e m2) : ChainEnds call body c m (v :: vs) e m2 := by
  obtain ⟨m3, o, hchain, hlast⟩ := h
  exact ⟨m3, o, .link hmatched honward hchain, hlast⟩

omit hlend hc hpositioned in
theorem ChainStalls.cons {place : Nat} {v : Value}
    (hmatched : tryOnce call body c m = .ok (.matched d v) m1)
    (honward : (m.cursor c).position < (m1.cursor d).position)
    (h : ChainStalls call body d m1 vs place m2) :
    ChainStalls call body c m (v :: vs) place m2 := by
  obtain ⟨e, m3, f, w, hchain, hlast⟩ := h
  exact ⟨e, m3, f, w, .link hmatched honward hchain, hlast⟩

omit hlend hc hpositioned in
theorem Returns.next (h : Returns call body c m) {v : Value}
    (hmatched : tryOnce call body c m = .ok (.matched d v) m1)
    (honward : (m.cursor c).position < (m1.cursor d).position) : Returns call body d m1 :=
  fun hchain => h (.link hmatched honward hchain)

omit hpositioned in
theorem ChainEnds.length_le (h : ChainEnds call body c m vs d m1) :
    vs.length ≤ (m.cursor c).left := by
  obtain ⟨m2, o, hchain, -⟩ := h
  exact hchain.length_le hlend hc

omit hpositioned in
theorem ChainStalls.length_le {place : Nat} (h : ChainStalls call body c m vs place m1) :
    vs.length ≤ (m.cursor c).left := by
  obtain ⟨e, m2, f, w, hchain, -⟩ := h
  exact hchain.length_le hlend hc

omit hlend hc hpositioned in
/-- Every chain comes to an end, since its links take up what is left of the source. -/
theorem ends_or_stalls (hlend : Lender call) {c : CursorId} {m : Machine}
    (hc : c < m.cursors.size) (hreturns : Returns call body c m) : ∃ vs m',
      (∃ d, ChainEnds call body c m vs d m') ∨ ∃ place, ChainStalls call body c m vs place m' := by
  -- by what is left of the source behind the cursor
  generalize hleft : (m.cursor c).left = left
  induction left using Nat.strongRecOn generalizing c m with
  | _ left ih =>
    obtain ⟨o, m1, ho⟩ := hreturns .done
    by_cases hmiss : ∀ d v, o ≠ .matched d v
    · exact ⟨[], m1, .inl ⟨c, m, o, .done, ho, hmiss⟩⟩
    · push Not at hmiss
      obtain ⟨d, v, rfl⟩ := hmiss
      obtain ⟨hd, j, hij, hj, hcursor⟩ := (tryOnce_eq_ok hlend hc ho).2 d v rfl
      have hplace : (m1.cursor d).position = j := congrArg Cursor.position hcursor
      have hsource : (m1.cursor d).source = (m.cursor c).source := by rw [hcursor]
      rcases Nat.lt_or_ge (m.cursor c).position j with honward | hstall
      · have hlt : (m.cursor c).position < (m1.cursor d).position := hplace ▸ honward
        have hless : (m1.cursor d).left < left := by
          unfold Cursor.left at hleft ⊢
          rw [hsource, hplace]
          omega
        obtain ⟨vs, m', ⟨e, hends⟩ | ⟨place, hstalls⟩⟩ :=
          ih _ hless hd (hreturns.next ho hlt) rfl
        · exact ⟨v :: vs, m', .inl ⟨e, hends.cons ho hlt⟩⟩
        · exact ⟨v :: vs, m', .inr ⟨place, hstalls.cons ho hlt⟩⟩
      · have hsame : (m1.cursor d).position = (m.cursor c).position :=
          hplace.trans (Nat.le_antisymm hstall hij)
        exact ⟨[], m1, .inr ⟨_, c, m, d, v, .done, ho, rfl, hsame⟩⟩

omit hlend hc hpositioned in
/-- What is collected from a cursor on is what its chain comes to. -/
theorem followsChain_collect (hlend : Lender call) (hc : c < m.cursors.size)
    (hpositioned : (m.cursor c).positioned = true) (hreturns : Returns call body c m) {n : Nat}
    (hn : (m.cursor c).left < n) (wrap : List Value → Value) :
    FollowsChain call body c m wrap
      (((fun r => Outcome.matched r.1 (wrap r.2)) <$> collect call true body n c) m) := by
  have hends : ∀ {vs d m'}, ChainEnds call body c m vs d m' →
      collect call true body n c m = .ok (d, vs) m' := fun h =>
    collect_of_ends hlend hc hpositioned h (Nat.lt_of_le_of_lt (h.length_le hlend hc) hn)
  have hstalls : ∀ {vs place m'}, ChainStalls call body c m vs place m' →
      collect call true body n c m = .error (m'.grammar.refusal body place) m' := fun h =>
    collect_of_stalls hlend hc hpositioned h (Nat.lt_of_le_of_lt (h.length_le hlend hc) hn)
  obtain ⟨vs, m', hdecides⟩ := ends_or_stalls hlend hc hreturns
  refine ⟨⟨vs, m', ?_, hdecides⟩, fun {o m''} => ⟨fun h => ?_, ?_⟩,
    fun {e m''} => ⟨fun h => ?_, ?_⟩⟩
  · rcases hdecides with ⟨d, h⟩ | ⟨place, h⟩
    · exact h.length_le hlend hc
    · exact h.length_le hlend hc
  · obtain ⟨r, hr, rfl⟩ := map_eq_ok_iff.mp h
    rcases hdecides with ⟨d, h'⟩ | ⟨place, h'⟩
    · cases (hends h').symm.trans hr
      exact ⟨vs, d, h', rfl⟩
    · cases (hstalls h').symm.trans hr
  · rintro ⟨vs, d, h, rfl⟩
    exact map_eq_ok_iff.mpr ⟨_, hends h, rfl⟩
  · rcases hdecides with ⟨d, h'⟩ | ⟨place, h'⟩
    · cases (map_eq_ok_iff.mpr ⟨_, hends h', rfl⟩).symm.trans h
    · cases (map_of_error (hstalls h')).symm.trans h
      exact ⟨vs, place, h', rfl⟩
  · rintro ⟨vs, place, h, rfl⟩
    exact map_of_error (hstalls h)

end Repetition

/-! ## The theorem -/

section Theorem

variable {k n : Nat} {body : Parser} {c d : CursorId} {m m1 : Machine} {entry : Entry}

/-- A repetition that must match once, when its body has matched. -/
theorem run_many1_of_match {v : Value} (hpositioned : (m.cursor c).positioned = true)
    (h : run (resolver k) n entry body c m = .ok (.matched d v) m1) :
    run (resolver k) (n + 1) entry (.many1 true body) c m =
      (checkMark body (some (m.cursor c).position) d >>= fun _ =>
        (fun r => Outcome.matched r.1 (.nonempty v r.2)) <$>
          collect (run (resolver k) n) true body n d) m1 := by
  show collectFirst (run (resolver k) n) true body n entry c m = _
  rw [collectFirst, bind_of_ok (mark_of_positioned hpositioned), bind_of_ok h]
  rfl

/-- A repetition that must match once, when its body has not matched. -/
theorem run_many1_of_miss {o : Outcome} (hpositioned : (m.cursor c).positioned = true)
    (h : run (resolver k) n entry body c m = .ok o m1) (hmiss : ∀ d v, o ≠ .matched d v) :
    run (resolver k) (n + 1) entry (.many1 true body) c m = .ok o m1 := by
  show collectFirst (run (resolver k) n) true body n entry c m = _
  rw [collectFirst, bind_of_ok (mark_of_positioned hpositioned), bind_of_ok h]
  cases o with
  | matched d v => exact absurd rfl (hmiss d v)
  | missed => rfl
  | failed e => rfl

/-- **A checked repetition follows the greedy chain, and always decides.** More than `n` elements
are not left behind the cursor, and the calls of the body that are asked for return.

Zero or more: after at most one call more than there are elements left, either the body does not
match, and the repetition matches up to there with the values of the chain, or a match ends where it
began, and the repetition is refused. Nothing else happens.

One or more: the first call is made on the cursor itself, in the form of the whole. The repetition
does not match iff it does not, and then it answers the same; it is refused if the first match does
not get onward; and if it does, the repetition follows the chain from there, where fewer elements
are left, and its values come behind the first one.

A refusal says that nothing was consumed if the body has a description, and is what describing the
body stops with if it has none. -/
theorem repetition_decides (hc : c < m.cursors.size)
    (hpositioned : (m.cursor c).positioned = true) (hn : (m.cursor c).left < n) :
    (Returns (run (resolver k) n) body c m →
      FollowsChain (run (resolver k) n) body c m .list
        (run (resolver k) (n + 1) entry (.many true body) c m)) ∧
    ∀ first m1, run (resolver k) n entry body c m = .ok first m1 →
      (∀ o m', (∀ d v, o ≠ .matched d v) →
        (run (resolver k) (n + 1) entry (.many1 true body) c m = .ok o m' ↔
          first = o ∧ m1 = m')) ∧
      ∀ d v, first = .matched d v →
        ((m1.cursor d).position = (m.cursor c).position →
          run (resolver k) (n + 1) entry (.many1 true body) c m =
            .error (m1.grammar.refusal body (m.cursor c).position) m1) ∧
        ((m1.cursor d).position ≠ (m.cursor c).position →
          Returns (run (resolver k) n) body d m1 →
            (m1.cursor d).left < (m.cursor c).left ∧
              FollowsChain (run (resolver k) n) body d m1 (.nonempty v)
                (run (resolver k) (n + 1) entry (.many1 true body) c m)) := by
  have hlend := run_lender (resolver_grows k) n
  refine ⟨fun hreturns => ?_, fun first m1 hfirst => ⟨fun o m' hmiss => ⟨fun h => ?_, ?_⟩, ?_⟩⟩
  · exact followsChain_collect hlend hc hpositioned hreturns hn .list
  · cases first with
    | matched d v =>
      rw [run_many1_of_match hpositioned hfirst] at h
      obtain ⟨_, _, -, h⟩ := bind_eq_ok_iff.mp h
      obtain ⟨r, -, rfl⟩ := map_eq_ok_iff.mp h
      exact absurd rfl (hmiss _ _)
    | missed =>
      cases (run_many1_of_miss hpositioned hfirst fun _ _ h => by cases h).symm.trans h
      exact ⟨rfl, rfl⟩
    | failed e =>
      cases (run_many1_of_miss hpositioned hfirst fun _ _ h => by cases h).symm.trans h
      exact ⟨rfl, rfl⟩
  · rintro ⟨rfl, rfl⟩
    exact run_many1_of_miss hpositioned hfirst hmiss
  · rintro d v rfl
    obtain ⟨hlent, -, hheld⟩ := (hlend entry body hc).of_ok hfirst
    have hd := hheld d v rfl
    obtain ⟨j, hij, hj, hcursor⟩ := hlent.own hd.own hd.lt
    have hplace : (m1.cursor d).position = j := congrArg Cursor.position hcursor
    have hsource : (m1.cursor d).source = (m.cursor c).source := by rw [hcursor]
    have hpositioned' : (m1.cursor d).positioned = true := by rw [hcursor]; exact hpositioned
    rw [run_many1_of_match hpositioned hfirst]
    constructor
    · intro hstall
      exact bind_of_error (checkMark_of_stall hpositioned' (Nat.le_of_eq hstall))
    · intro honward hreturns
      have hlt : (m.cursor c).position < (m1.cursor d).position := by omega
      have hless : (m1.cursor d).left < (m.cursor c).left := by
        unfold Cursor.left
        rw [hsource]
        omega
      rw [bind_of_ok (checkMark_of_onward hpositioned' hlt)]
      exact ⟨hless, followsChain_collect hlend hd.lt hpositioned' hreturns (by omega) _⟩

end Theorem

/-! ## An optional letter, repeated -/

/-- A computation that always answers. -/
def Act.Answers {α : Type} (x : Act α) : Prop :=
  ∀ m, ∃ a m', x m = .ok a m'

theorem Act.Answers.bind {α β : Type} {x : Act α} {f : α → Act β} (hx : x.Answers)
    (hf : ∀ a, (f a).Answers) : (x >>= f).Answers := fun m => by
  obtain ⟨a, m', h⟩ := hx m
  obtain ⟨b, m'', h'⟩ := hf a m'
  exact ⟨b, m'', bind_eq_ok_iff.mpr ⟨a, m', h, h'⟩⟩

theorem answers_pure {α : Type} (a : α) : Act.Answers (pure a : Act α) :=
  fun m => ⟨a, m, rfl⟩

theorem answers_snapshot (c : CursorId) : (Act.snapshot c).Answers :=
  fun _ => ⟨_, _, rfl⟩

theorem answers_readElement (accept : Value → Bool) (expected : Value) (c : CursorId) :
    (readElement accept expected c).Answers := by
  have hnext : (Act.next c).Answers := fun m => by
    cases h : (m.cursor c).next? with
    | none => exact ⟨_, _, next_of_end h⟩
    | some r => exact ⟨_, _, next_of_some h⟩
  refine hnext.bind fun v => ?_
  cases v with
  | none => exact answers_pure _
  | some v =>
    dsimp only
    split
    · exact answers_pure _
    · exact answers_pure _

/-- Reading a letter always answers. -/
theorem answers_element (k n : Nat) (entry : Entry) (v : Value) (c : CursorId) :
    (run (resolver k) (n + 1) entry (.element v) c).Answers := fun m => by
  obtain ⟨o, m', h⟩ := answers_readElement (v.same ·) v c m
  exact ⟨_, m', map_eq_ok_iff.mpr ⟨o, h, rfl⟩⟩

/-- So does an optional letter. -/
theorem answers_opt (k n : Nat) (entry : Entry) (v : Value) (c : CursorId) :
    (run (resolver k) (n + 2) entry (.opt (.element v)) c).Answers := by
  refine (answers_snapshot c).bind fun s => (answers_element k n .fallible v s).bind fun o => ?_
  cases o <;> exact answers_pure _

theorem returns_opt (k n : Nat) (v : Value) (c : CursorId) (m : Machine) :
    Returns (run (resolver k) (n + 2)) (.opt (.element v)) c m :=
  fun {_ d m1} _ => (answers_snapshot d).bind (fun s => answers_opt k n .fallible v s) m1

/-- The letter, or nothing. -/
def optionalA : Parser :=
  .opt (.element (.text "a"))

/-- A trial of the optional letter. -/
def tryA (c : CursorId) : Act Outcome :=
  tryOnce (run (resolver 0) 4) optionalA c

/-- Before `aab`, an optional letter matches twice; its third match ends where it begins, so to
repeat it zero times or more stops there. -/
theorem repetition_decides_optional :
    0 < (reading (.empty none) "aab").cursors.size ∧
      ((reading (.empty none) "aab").cursor 0).positioned = true ∧
      ((reading (.empty none) "aab").cursor 0).left < 4 ∧
      Returns (run (resolver 0) 4) optionalA 0 (reading (.empty none) "aab") ∧
      ∃ text m, run (resolver 0) 5 .total (.many true optionalA) 0 (reading (.empty none) "aab") =
        .error (.fault (.zeroWidth text 2)) m := by
  have hreturns : Returns (run (resolver 0) 4) optionalA 0 (reading (.empty none) "aab") :=
    returns_opt 0 2 _ 0 _
  have hfollows := (@repetition_decides 0 4 optionalA 0 (reading (.empty none) "aab") .total
    (by decide) rfl (by decide)).1 hreturns
  obtain ⟨m1, h1⟩ : ∃ m1, m1 = stateAfter (tryA 0) (reading (.empty none) "aab") := ⟨_, rfl⟩
  obtain ⟨m2, h2⟩ : ∃ m2, m2 = stateAfter (tryA 2) m1 := ⟨_, rfl⟩
  have hfirst : tryA 0 (reading (.empty none) "aab") = .ok (.matched 2 (.text "a")) m1 := by
    subst h1
    rfl
  have hsecond : tryA 2 m1 = .ok (.matched 4 (.text "a")) m2 := by
    subst h2 h1
    rfl
  have hthird : tryA 4 m2 = .ok (.matched 5 .nothing) (stateAfter (tryA 4) m2) := by
    subst h2 h1
    rfl
  have hstalls : ChainStalls (run (resolver 0) 4) optionalA 0 (reading (.empty none) "aab")
      [.text "a", .text "a"] 2 (stateAfter (tryA 4) m2) := by
    refine ⟨4, m2, 5, .nothing, .link hfirst ?_ (.link hsecond ?_ .done), hthird, ?_, ?_⟩
    all_goals subst h2 h1; decide
  exact ⟨by decide, rfl, by decide, hreturns, _, _, hfollows.stops.mpr ⟨_, 2, hstalls, rfl⟩⟩

/-- **A match without progress need not be refused as such.** A delayed parser inside itself matches
before nothing, where it begins, so its calls return and the chain stalls. To repeat it there does
not come to an end, with any amount of fuel: its description has none. -/
theorem repetition_undescribed :
    (∀ k n, Returns (run (resolver (k + 1)) (n + 5)) (.box 0) 0 (reading (.knotted none) "") ∧
      ∃ m, ChainStalls (run (resolver (k + 1)) (n + 5)) (.box 0) 0 (reading (.knotted none) "")
          [] 0 m ∧ ∀ depth, m.grammar.describeBox depth 0 = .error .outOfFuel) ∧
    ∀ k n entry, ∃ m, run (resolver (k + 1)) (n + 6) entry (.many true (.box 0)) 0
      (reading (.knotted none) "") = .error .outOfFuel m := by
  have hfirst (k n : Nat) : ∃ m, tryOnce (run (resolver (k + 1)) (n + 5)) (.box 0) 0
      (reading (.knotted none) "") = .ok (.matched 1 .nothing) m ∧
        (m.cursor 1).position = 0 ∧ (m.grammar.boxInfo 0).parser = some Grammar.knot :=
    ⟨_, rfl, rfl, rfl⟩
  refine ⟨fun k n => ⟨fun hchain => ?_, ?_⟩, fun k n entry => ⟨_, rfl⟩⟩
  · -- nothing is left of the text, so the chain has no links
    have hlength := hchain.length_le (run_lender (resolver_grows (k + 1)) (n + 5)) (by decide)
    cases hchain with
    | done =>
      obtain ⟨m, h, -⟩ := hfirst k n
      exact ⟨_, m, h⟩
    | link _ _ _ => exact absurd hlength (Nat.not_succ_le_zero _)
  · obtain ⟨m, h, hplace, hknot⟩ := hfirst k n
    exact ⟨m, ⟨0, _, 1, .nothing, .done, h, rfl, hplace⟩, Grammar.describeBox_knot hknot⟩

end ShapeGrammar
