import ShapeGrammar.Proofs.Factory.Simulation
import ShapeGrammar.Proofs.Machine.Lender
import ShapeGrammar.Proofs.Peg.Derivation
import ShapeGrammar.Proofs.Peg.Leads

/-!
# Runs on cursors refine the meaning of parsers

A run that answers says what the parser means at the place of the cursor: a match names a cursor at
the end that the meaning gives, over the same source, and a miss says that the parser fails. So
nothing that a failed attempt consumed is ever seen. In the total form, the failure that is reported
is the one that the structure of the parser prescribes.

The induction is on the number of nested calls. A snapshot is what carries it: a call moves no older
cursor but its own, so the cursor that a snapshot was taken of still stands where it stood.

Headlines: `Outcome.Means`, `gather_means`, `runAttempts_means`, `run_means`, `run_refines`.
-/

namespace ShapeGrammar

open Machine

/-- What an outcome says about the meaning of a parser that was called at cursor `k`. -/
def Outcome.Means (entry : Entry) (p : Parser) (k : Cursor) (m : Machine) : Outcome → Prop
  | .matched d v => ∃ j, m.cursor d = { k with position := j } ∧
    Derives m.grammar k.source p k.position (.ok j v)
  | .missed => entry = .fallible ∧ Derives m.grammar k.source p k.position .fail
  | .failed e => entry = .total ∧ Blames m.grammar k.source p k.position e

/-- Calls whose answers say what parsers mean. -/
structure Refines (call : Entry → Parser → CursorId → Act Outcome) : Prop where
  means : ∀ {entry p c m o m'}, c < m.cursors.size → call entry p c m = .ok o m' →
    m'.grammar.Genuine p → o.Means entry p (m.cursor c) m'

theorem Outcome.Means.fails {entry : Entry} {p : Parser} {k : Cursor} {m : Machine} {o : Outcome}
    (h : o.Means entry p k m) (ho : ∀ d v, o ≠ .matched d v) :
    Derives m.grammar k.source p k.position .fail := by
  cases o with
  | matched d v => exact absurd rfl (ho d v)
  | missed => exact h.2
  | failed e => exact h.2.fails

/-- What one parser means on the word of another, its outcomes say as well. -/
theorem Outcome.Means.imp {entry : Entry} {p q : Parser} {k : Cursor} {m : Machine} {o : Outcome}
    (h : o.Means entry p k m)
    (hderives : ∀ {r}, Derives m.grammar k.source p k.position r →
      Derives m.grammar k.source q k.position r)
    (hblames : ∀ {e}, Blames m.grammar k.source p k.position e →
      Blames m.grammar k.source q k.position e) : o.Means entry q k m := by
  cases o with
  | matched d v =>
    obtain ⟨j, hj, hp⟩ := h
    exact ⟨j, hj, hderives hp⟩
  | missed => exact ⟨h.1, hderives h.2⟩
  | failed e => exact ⟨h.1, hblames h.2⟩

theorem cursor_congr {m m' : Machine} (h : m'.cursors = m.cursors) (c : CursorId) :
    m'.cursor c = m.cursor c := by
  unfold Machine.cursor
  rw [h]

section Parts

variable {call : Entry → Parser → CursorId → Act Outcome} {entry : Entry}

/-- Parts in a row mean what a sequence does. -/
theorem gather_means (hlend : Lender call) (hcall : Refines call) :
    ∀ {ps : List Parser} {c : CursorId} {m m' : Machine} {r : Gathered}, c < m.cursors.size →
      gather call entry ps c m = .ok r m' → (∀ p ∈ ps, m'.grammar.Genuine p) →
      match r with
      | .all d vs => ∃ j, m'.cursor d = { m.cursor c with position := j } ∧
        Derives m'.grammar (m.cursor c).source (.seq ps) (m.cursor c).position (.ok j (.tuple vs))
      | .stopped o => o.Means entry (.seq ps) (m.cursor c) m'
  | [], c, m, m', r, _, h, _ => by
    cases h
    exact ⟨(m.cursor c).position, rfl, .seqNil⟩
  | p :: ps, c, m, m', r, hc, h, hps => by
    unfold gather at h
    obtain ⟨o, m1, ho, h⟩ := bind_eq_ok_iff.mp h
    obtain ⟨-, -, hheld⟩ := (hlend entry p hc).of_ok ho
    have hp := hps p List.mem_cons_self
    have hrestGenuine : ∀ q ∈ ps, m'.grammar.Genuine q :=
      fun q hq => hps q (List.mem_cons_of_mem p hq)
    have hstop : ∀ o : Outcome, call entry p c m = .ok o m1 → (∀ d v, o ≠ .matched d v) →
        (if o.endsAt entry then pure (Gathered.stopped o)
          else Act.fail (.type (.other "only a match is taken apart"))) m1 = .ok r m' →
        ∃ o', r = .stopped o' ∧ o'.Means entry (.seq (p :: ps)) (m.cursor c) m' := by
      intro o ho hne h
      split at h
      · cases h
        refine ⟨o, rfl, ?_⟩
        have hmeans := hcall.means hc ho hp
        cases o with
        | matched d v => exact absurd rfl (hne d v)
        | missed => exact ⟨hmeans.1, .seqFirst hmeans.2⟩
        | failed e => exact ⟨hmeans.1, .seqFirst hmeans.2⟩
      · cases h
    cases o with
    | matched d v =>
      obtain ⟨rest, m2, hrest, h⟩ := bind_eq_ok_iff.mp h
      have hd := (hheld _ _ rfl).lt
      have hgrow := ((lends_gather hlend entry (.refl hd) (.refl hd)).of_ok hrest).1.grammar
      have hm : m' = m2 := by cases rest <;> cases h <;> rfl
      subst hm
      obtain ⟨j, hj, hfirst⟩ := hcall.means hc ho (hp.mono hgrow)
      have hmeans := gather_means hlend hcall hd hrest hrestGenuine
      have hfirst' := hfirst.mono hgrow
      rw [hj] at hmeans
      cases rest with
      | all e vs =>
        cases h
        obtain ⟨k, hk, hderives⟩ := hmeans
        exact ⟨k, hk, .seqCons hfirst' hderives⟩
      | stopped o =>
        cases h
        cases o with
        | matched e w => cases gather_stopped hrest
        | missed => exact ⟨hmeans.1, .seqRest hfirst' hmeans.2⟩
        | failed e => exact ⟨hmeans.1, .seqRest hfirst' hmeans.2⟩
    | missed =>
      obtain ⟨o', rfl, hmeans⟩ := hstop .missed ho (fun _ _ h => by cases h) h
      exact hmeans
    | failed e =>
      obtain ⟨o', rfl, hmeans⟩ := hstop (.failed e) ho (fun _ _ h => by cases h) h
      exact hmeans

/-- A snapshot stands where its cursor stands. -/
theorem snapshot_eq {c s : CursorId} {m m' : Machine} (h : Act.snapshot c m = .ok s m') :
    m'.cursor s = m.cursor c ∧ s < m'.cursors.size ∧ m.cursors.size ≤ s ∧
      m'.grammar = m.grammar ∧ ∀ {d}, d < m.cursors.size → m'.cursor d = m.cursor d := by
  cases h
  exact ⟨cursor_of_push_self rfl, by simp, Nat.le_refl _, rfl, cursor_of_push_of_lt rfl⟩

/-- What a call on a snapshot leaves alone, and what it says. -/
theorem snapshot_call {c s : CursorId} {m m1 m2 : Machine} {o : Outcome}
    {x : CursorId → Act Outcome}
    (hx : ∀ {d m}, d < m.cursors.size → Lends d m (x d) m fun o m' => o.HeldBy d m m')
    (hc : c < m.cursors.size) (hs : Act.snapshot c m = .ok s m1) (ho : x s m1 = .ok o m2) :
    m2.cursor c = m.cursor c ∧ c < m2.cursors.size := by
  obtain ⟨-, hslt, hsnew, -, hold⟩ := snapshot_eq hs
  obtain ⟨hlent, hsize, -⟩ := (hx hslt).of_ok ho
  have hc1 : c < m1.cursors.size := by
    cases hs
    exact Nat.lt_of_lt_of_le hc (by simp)
  have hne : c ≠ s := fun heq => Nat.not_lt.mpr hsnew (heq ▸ hc)
  exact ⟨(hlent.others hne hc1).trans (hold hc), Nat.lt_of_lt_of_le hc1 hsize⟩

/-- Repetition means what it should. -/
theorem collect_means (hlend : Lender call) (hcall : Refines call) {checked : Bool}
    {body : Parser} : ∀ {n : Nat} {c : CursorId} {m m' : Machine} {d : CursorId}
      {vs : List Value}, c < m.cursors.size → collect call checked body n c m = .ok (d, vs) m' →
      m'.grammar.Genuine body →
      ∃ j, m'.cursor d = { m.cursor c with position := j } ∧
        Derives m'.grammar (m.cursor c).source (.many checked body) (m.cursor c).position
          (.ok j (.list vs))
  | 0, _, _, _, _, _, _, h, _ => by cases h
  | n + 1, c, m, m', d, vs, hc, h, hbody => by
    unfold collect at h
    obtain ⟨s, m1, hs, h⟩ := bind_eq_ok_iff.mp h
    obtain ⟨o, m2, ho, h⟩ := bind_eq_ok_iff.mp h
    obtain ⟨hscursor, hslt, -, -, -⟩ := snapshot_eq hs
    have hkept := snapshot_call (fun {_ _} => hlend .fallible body) hc hs ho
    have hheld := ((hlend .fallible body hslt).of_ok ho).2.2
    have hstop : (∀ d v, o ≠ .matched d v) → (pure (c, []) : Act (CursorId × List Value)) m2 =
        .ok (d, vs) m' → ∃ j, m'.cursor d = { m.cursor c with position := j } ∧
          Derives m'.grammar (m.cursor c).source (.many checked body) (m.cursor c).position
            (.ok j (.list vs)) := by
      intro hne h
      cases h
      have hmeans := (hcall.means hslt ho hbody).fails hne
      rw [hscursor] at hmeans
      exact ⟨(m.cursor c).position, hkept.1, .manyStop hmeans⟩
    cases o with
    | matched e v =>
      obtain ⟨start, m3, hmark, h⟩ := bind_eq_ok_iff.mp h
      obtain ⟨⟨⟩, m4, hcheck, h⟩ := bind_eq_ok_iff.mp h
      obtain ⟨⟨f, ws⟩, m5, hrest, h⟩ := bind_eq_ok_iff.mp h
      cases h
      obtain ⟨hgrow3, hcursors3⟩ := (still_mark checked c).of_ok hmark
      obtain ⟨hgrow4, hcursors4⟩ := (still_checkMark body start e).of_ok hcheck
      have hcursors : m4.cursors = m2.cursors := hcursors4.trans hcursors3
      have he : e < m4.cursors.size := hcursors ▸ (hheld _ _ rfl).lt
      have hgrow5 :=
        ((lends_collect hlend checked body (.refl he) (.refl he)).of_ok hrest).1.grammar
      have hgrow := hgrow3.trans (hgrow4.trans hgrow5)
      obtain ⟨j, hj, honce⟩ := hcall.means hslt ho (hbody.mono hgrow)
      obtain ⟨k, hk, hmany⟩ := collect_means hlend hcall he hrest hbody
      rw [cursor_congr hcursors, hj, hscursor] at hk hmany
      rw [hscursor] at honce
      exact ⟨k, hk, .manyStep (honce.mono hgrow) hmany⟩
    | missed => exact hstop (fun _ _ h => by cases h) h
    | failed e => exact hstop (fun _ _ h => by cases h) h

theorem collectFirst_means (hlend : Lender call) (hcall : Refines call) {checked : Bool}
    {body : Parser} {n : Nat} {c : CursorId} {m m' : Machine} {o : Outcome}
    (hc : c < m.cursors.size) (h : collectFirst call checked body n entry c m = .ok o m')
    (hbody : m'.grammar.Genuine body) : o.Means entry (.many1 checked body) (m.cursor c) m' := by
  unfold collectFirst at h
  obtain ⟨start, m1, hmark, h⟩ := bind_eq_ok_iff.mp h
  obtain ⟨first, m2, hfirst, h⟩ := bind_eq_ok_iff.mp h
  obtain ⟨-, hcursors1⟩ := (still_mark checked c).of_ok hmark
  have hc1 : c < m1.cursors.size := hcursors1 ▸ hc
  have hheld := ((hlend entry body hc1).of_ok hfirst).2.2
  cases first with
  | matched e v =>
    obtain ⟨⟨⟩, m3, hcheck, h⟩ := bind_eq_ok_iff.mp h
    obtain ⟨⟨f, ws⟩, m4, hrest, h⟩ := bind_eq_ok_iff.mp h
    cases h
    obtain ⟨hgrow3, hcursors3⟩ := (still_checkMark body start e).of_ok hcheck
    have he : e < m3.cursors.size := hcursors3 ▸ (hheld _ _ rfl).lt
    have hgrow4 := ((lends_collect hlend checked body (.refl he) (.refl he)).of_ok hrest).1.grammar
    have hgrow := hgrow3.trans hgrow4
    obtain ⟨j, hj, honce⟩ := hcall.means hc1 hfirst (hbody.mono hgrow)
    obtain ⟨k, hk, hmany⟩ := collect_means hlend hcall he hrest hbody
    rw [cursor_congr hcursors3, hj, cursor_congr hcursors1] at hk hmany
    rw [cursor_congr hcursors1] at honce
    exact ⟨k, hk, .many1Some (honce.mono hgrow) hmany⟩
  | missed =>
    cases h
    have hmeans := hcall.means hc1 hfirst hbody
    rw [cursor_congr hcursors1] at hmeans
    exact ⟨hmeans.1, .many1None hmeans.2⟩
  | failed e =>
    cases h
    have hmeans := hcall.means hc1 hfirst hbody
    rw [cursor_congr hcursors1] at hmeans
    exact ⟨hmeans.1, .many1 hmeans.2⟩

/-! ## Attempts -/

theorem runAttempt_means (hlend : Lender call) (hcall : Refines call) {a : Attempt Parser}
    {c : CursorId} {m m' : Machine} {o : Outcome} (hc : c < m.cursors.size)
    (h : runAttempt call entry a c m = .ok o m') (ha : ∀ p ∈ a.parsers, m'.grammar.Genuine p) :
    match o with
    | .matched d v => ∃ j vs, m'.cursor d = { m.cursor c with position := j } ∧
      Derives m'.grammar (m.cursor c).source (.seq a.parsers) (m.cursor c).position
        (.ok j (.tuple vs)) ∧ m'.grammar.construct a.target vs = .ok v
    | o => o.Means entry (.seq a.parsers) (m.cursor c) m' := by
  unfold runAttempt at h
  obtain ⟨r, m1, hr, h⟩ := bind_eq_ok_iff.mp h
  cases r with
  | all d vs =>
    obtain ⟨v, m2, hv, h⟩ := bind_eq_ok_iff.mp h
    cases h
    obtain ⟨hbuilt, rfl⟩ := construct_eq_ok hv
    obtain ⟨j, hj, hfields⟩ := gather_means hlend hcall hc hr ha
    exact ⟨j, vs, hj, hfields, hbuilt⟩
  | stopped o =>
    cases h
    have hmeans := gather_means hlend hcall hc hr ha
    cases o with
    | matched d v => cases gather_stopped hr
    | missed => exact hmeans
    | failed e => exact hmeans

/-- A plan that fails at its first attempt means what its other attempts do. -/
theorem Outcome.Means.planNext {plan : Plan Parser} {a b : Attempt Parser}
    {rest : List (Attempt Parser)} {k : Cursor} {m : Machine} {o : Outcome}
    (hattempts : plan.attempts = a :: b :: rest)
    (hfields : Derives m.grammar k.source (.seq a.parsers) k.position .fail)
    (h : o.Means entry (.planned { plan with attempts := b :: rest }) k m) :
    o.Means entry (.planned plan) k m :=
  h.imp (.planNext hattempts hfields) (.planNext hattempts hfields)

/-- An attempt without fields matches nothing where it is made. -/
theorem unit_means {plan : Plan Parser} {a : Attempt Parser} {rest : List (Attempt Parser)}
    {c : CursorId} {m m' : Machine} {o : Outcome} (hattempts : plan.attempts = a :: rest)
    (hunit : a.isUnit = true)
    (h : (Act.construct a.target [] >>= fun v => pure (.matched c v)) m = .ok o m') :
    o.Means entry (.planned plan) (m.cursor c) m' := by
  have hnil : a.parsers = [] := List.isEmpty_iff.mp hunit
  obtain ⟨v, m1, hv, h⟩ := bind_eq_ok_iff.mp h
  cases h
  obtain ⟨hbuilt, rfl⟩ := construct_eq_ok hv
  have hfields : Derives m'.grammar (m'.cursor c).source (.seq a.parsers)
      (m'.cursor c).position (.ok (m'.cursor c).position (.tuple [])) := by
    rw [hnil]
    exact .seqNil
  exact ⟨(m'.cursor c).position, rfl, .planFirst hattempts hfields hbuilt⟩

/-- The last attempt is made at the entry point of the whole. -/
theorem lastAttempt_means (hlend : Lender call) (hcall : Refines call) {plan : Plan Parser}
    {a : Attempt Parser} {c : CursorId} {m m' : Machine} {o : Outcome}
    (hattempts : plan.attempts = [a]) (hc : c < m.cursors.size)
    (h : runAttempt call entry a c m = .ok o m') (ha : ∀ p ∈ a.parsers, m'.grammar.Genuine p) :
    o.Means entry (.planned plan) (m.cursor c) m' := by
  have hmeans := runAttempt_means hlend hcall hc h ha
  cases o with
  | matched d v =>
    obtain ⟨j, vs, hj, hfields, hbuilt⟩ := hmeans
    exact ⟨j, hj, .planFirst hattempts hfields hbuilt⟩
  | missed => exact ⟨hmeans.1, .planNext hattempts hmeans.2 (.planNone rfl)⟩
  | failed e => exact ⟨hmeans.1, .planLast hattempts hmeans.2⟩

/-- **Attempts made in order mean what their plan does.** -/
theorem runAttempts_means (hlend : Lender call) (hcall : Refines call)
    {report : String → CursorId → Act Unit} (hreport : ∀ name c, (report name c).Still)
    {c : CursorId} : ∀ {as : List (Attempt Parser)} {plan : Plan Parser} {m m' : Machine}
      {o : Outcome}, c < m.cursors.size → runAttempts call report entry as c m = .ok o m' →
      plan.attempts = as → OrderedAttempts as →
      (∀ a ∈ as, ∀ p ∈ a.parsers, m'.grammar.Genuine p) →
      o.Means entry (.planned plan) (m.cursor c) m'
  | [], _, _, _, _, _, _, _, hord, _ => hord.elim
  | a :: rest, plan, m, m', o, hc, h, hattempts, hord, hgenuine => by
    have ha := hgenuine a List.mem_cons_self
    unfold runAttempts at h
    split at h
    · rename_i hunit
      exact unit_means hattempts hunit h
    · split at h
      · rename_i hclosing
        have hrest : rest = [] := by
          cases rest with
          | nil => rfl
          | cons b rest => simp [hord.2.1] at hclosing
        subst hrest
        exact lastAttempt_means hlend hcall hattempts hc h ha
      · rename_i hsnapshot
        obtain ⟨s, m1, hs, h⟩ := bind_eq_ok_iff.mp h
        obtain ⟨first, m2, hfirst, h⟩ := bind_eq_ok_iff.mp h
        obtain ⟨hscursor, hslt, -, -, -⟩ := snapshot_eq hs
        obtain ⟨hcursor, hc2⟩ := snapshot_call
          (fun hd => lends_runAttempt hlend .fallible a (.refl hd) (.refl hd)) hc hs hfirst
        have hnext : (∀ d v, first ≠ .matched d v) →
            (report a.name c >>= fun _ => runAttempts call report entry rest c) m2 = .ok o m' →
              o.Means entry (.planned plan) (m.cursor c) m' := by
          intro hne h
          obtain ⟨⟨⟩, m3, hreported, h⟩ := bind_eq_ok_iff.mp h
          obtain ⟨hgrow3, hcursors3⟩ := (hreport a.name c).of_ok hreported
          have hc3 : c < m3.cursors.size := hcursors3 ▸ hc2
          have hgrow := hgrow3.trans ((lends_runAttempts hlend hreport entry (.refl hc3)
            (.refl hc3)).of_ok h).1.grammar
          have hfields := runAttempt_means hlend hcall hslt hfirst
            fun p hp => (ha p hp).mono hgrow
          have hfail : Derives m'.grammar (m.cursor c).source (.seq a.parsers)
              (m.cursor c).position .fail := by
            cases first with
            | matched d v => exact absurd rfl (hne d v)
            | missed => exact hscursor ▸ hfields.2.mono hgrow
            | failed e => exact absurd rfl (runAttempt_ne_failed hfirst e)
          cases rest with
          | nil =>
            have hclosing : a.snapshot = false := hord
            simp [hclosing] at hsnapshot
          | cons b rest =>
            have hothers : ({ plan with attempts := b :: rest } : Plan Parser).attempts =
                b :: rest := rfl
            have hmeans := runAttempts_means hlend hcall hreport hc3 h hothers hord.2.2
              fun a' ha' => hgenuine a' (List.mem_cons_of_mem a ha')
            rw [cursor_congr hcursors3, hcursor] at hmeans
            exact hmeans.planNext hattempts hfail
        cases first with
        | matched d v =>
          cases h
          obtain ⟨j, vs, hj, hfields, hbuilt⟩ := runAttempt_means hlend hcall hslt hfirst ha
          rw [hscursor] at hj hfields
          exact ⟨j, hj, .planFirst hattempts hfields hbuilt⟩
        | missed => exact hnext (fun _ _ h => by cases h) h
        | failed e => exact hnext (fun _ _ h => by cases h) h

/-! ## Elements -/

theorem readElement_means {accept : Value → Bool} {expected : Value} {c : CursorId}
    {m m' : Machine} {o : Outcome} (hc : c < m.cursors.size)
    (h : readElement accept expected c m = .ok o m') :
    match o with
    | .matched d v => m'.cursor d = { m.cursor c with position := (m.cursor c).position + 1 } ∧
      (m.cursor c).source.read accept (m.cursor c).position = .ok ((m.cursor c).position + 1) v
    | .missed => False
    | .failed e =>
      (m.cursor c).source.blame accept expected (m.cursor c).position = some e := by
  unfold readElement at h
  obtain ⟨v, m1, hv, h⟩ := bind_eq_ok_iff.mp h
  cases hnext : (m.cursor c).next? with
  | none =>
    rw [next_of_end hnext] at hv
    cases hv
    cases h
    have hend : (m.cursor c).source.get? (m.cursor c).position = none :=
      Option.map_eq_none_iff.mp hnext
    unfold Source.blame
    rw [hend]
  | some r =>
    obtain ⟨w, moved⟩ := r
    rw [next_of_some hnext] at hv
    cases hv
    obtain ⟨hget, rfl⟩ := Cursor.next?_eq_some hnext
    dsimp only at h
    split at h
    · rename_i haccept
      cases h
      refine ⟨cursor_of_set_self rfl hc, ?_⟩
      unfold Source.read
      simp only [hget, haccept, if_true]
    · rename_i haccept
      cases h
      unfold Source.blame
      simp only [hget, haccept]
      rfl

/-- A leaf means that one element is read. -/
theorem leaf_means {accept : Value → Bool} {expected : Value} {p : Parser} {c : CursorId}
    {m m' : Machine} {o : Outcome} (hc : c < m.cursors.size)
    (h : ((·.seenBy entry) <$> readElement accept expected c) m = .ok o m')
    (hderives : ∀ {g : Grammar} {i r}, r = (m.cursor c).source.read accept i →
      Derives g (m.cursor c).source p i r)
    (hblames : ∀ {g : Grammar} {i e}, (m.cursor c).source.blame accept expected i = some e →
      Blames g (m.cursor c).source p i e) : o.Means entry p (m.cursor c) m' := by
  obtain ⟨o', ho, rfl⟩ := map_eq_ok_iff.mp h
  have hread := readElement_means hc ho
  cases o' with
  | matched d v =>
    have hmatched : (Outcome.matched d v).seenBy entry = .matched d v := by cases entry <;> rfl
    rw [hmatched]
    exact ⟨_, hread.1, hderives hread.2.symm⟩
  | missed => exact hread.elim
  | failed e =>
    cases entry with
    | total => exact ⟨rfl, hblames hread⟩
    | fallible => exact ⟨rfl, (hblames hread).fails⟩

end Parts

/-! ## Runs -/

theorem boxParser_known {k : Nat} {b : BoxId} {p : Parser} {g g' : Grammar}
    (h : (resolver k).boxParser b g = .ok p g') : (g'.boxInfo b).parser = some p := by
  cases k with
  | zero => cases h
  | succ k => exact openBox_known h

theorem planOf_known {k : Nat} {c : ClassId} {plan : Plan Parser} {g g' : Grammar}
    (h : (resolver k).planOf c g = .ok plan g') : (g'.classInfo c).plan = some plan := by
  cases k with
  | zero => cases h
  | succ k => exact findPlan_known h

/-- What a delayed parser is found to be is one of its parts from then on. -/
theorem part_of_boxParser {k : Nat} {b : BoxId} {p : Parser} {m m' : Machine} {last : Grammar}
    (h : Act.resolve ((resolver k).boxParser b) m = .ok p m') (hlast : m'.grammar.Precedes last) :
    p ∈ (Parser.box b).parts last :=
  Grammar.part_of_box (hlast.known (f := .box b) (boxParser_known (resolve_eq_ok h).1))

/-- The plan that is found for a class is one of its parts from then on. -/
theorem part_of_planOf {k : Nat} {c : ClassId} {plan : Plan Parser} {m m' : Machine}
    {last : Grammar} (h : Act.resolve ((resolver k).planOf c) m = .ok plan m')
    (hlast : m'.grammar.Precedes last) : .planned plan ∈ (Parser.derived c).parts last :=
  Grammar.part_of_derived (hlast.known (f := .plan c) (planOf_known (resolve_eq_ok h).1))

section Operators

variable {r : Resolver} {n : Nat} {entry : Entry} {c : CursorId} {m m' : Machine} {o : Outcome}

theorem opt_means {body : Parser} (hlend : Lender (run r n)) (hcall : Refines (run r n))
    (hc : c < m.cursors.size) (h : run r (n + 1) entry (.opt body) c m = .ok o m')
    (hbody : m'.grammar.Genuine body) : o.Means entry (.opt body) (m.cursor c) m' := by
  rw [run_succ] at h
  obtain ⟨s, m1, hs, h⟩ := bind_eq_ok_iff.mp h
  obtain ⟨first, m2, hfirst, h⟩ := bind_eq_ok_iff.mp h
  obtain ⟨hscursor, hslt, -, -, -⟩ := snapshot_eq hs
  obtain ⟨hcursor, -⟩ := snapshot_call (fun {_ _} => hlend .fallible body) hc hs hfirst
  cases first with
  | matched d v =>
    cases h
    obtain ⟨j, hj, honce⟩ := hcall.means hslt hfirst hbody
    rw [hscursor] at hj honce
    exact ⟨j, hj, .optSome honce⟩
  | missed =>
    cases h
    have hfail := (hcall.means hslt hfirst hbody).2
    rw [hscursor] at hfail
    exact ⟨_, hcursor, .optNone hfail⟩
  | failed e =>
    cases h
    cases (hcall.means hslt hfirst hbody).1

/-- The right arm is called on the cursor itself, which still stands where the left arm began. -/
theorem rightArm_means {left right : Parser} {first : Outcome} {s : CursorId} {m1 m2 : Machine}
    (hlend : Lender (run r n)) (hcall : Refines (run r n)) (hc : c < m.cursors.size)
    (hs : Act.snapshot c m = .ok s m1) (hfirst : run r n .fallible left s m1 = .ok first m2)
    (hne : ∀ d v, first ≠ .matched d v)
    (h : (reportArm left right c >>= fun _ => (·.mapValue .right) <$> run r n entry right c) m2 =
      .ok o m') (hleft : m'.grammar.Genuine left) (hright : m'.grammar.Genuine right) :
    o.Means entry (.either left right) (m.cursor c) m' := by
  obtain ⟨hscursor, hslt, -, -, -⟩ := snapshot_eq hs
  obtain ⟨hcursor, hc2⟩ := snapshot_call (fun {_ _} => hlend .fallible left) hc hs hfirst
  obtain ⟨⟨⟩, m3, hreported, h⟩ := bind_eq_ok_iff.mp h
  obtain ⟨second, hsecond, rfl⟩ := map_eq_ok_iff.mp h
  obtain ⟨hgrow3, hcursors3⟩ := (still_reportArm left right c).of_ok hreported
  have hc3 : c < m3.cursors.size := hcursors3 ▸ hc2
  have hgrow := hgrow3.trans ((hlend entry right hc3).of_ok hsecond).1.grammar
  have hfail := (hcall.means hslt hfirst (hleft.mono hgrow)).fails hne
  rw [hscursor] at hfail
  have hmeans := hcall.means hc3 hsecond hright
  rw [cursor_congr hcursors3, hcursor] at hmeans
  cases second with
  | matched d v =>
    obtain ⟨j, hj, hsecond⟩ := hmeans
    exact ⟨j, hj, .right (hfail.mono hgrow) hsecond⟩
  | missed => exact ⟨hmeans.1, .neither (hfail.mono hgrow) hmeans.2⟩
  | failed e => exact ⟨hmeans.1, .either (hfail.mono hgrow) hmeans.2⟩

theorem either_means {left right : Parser} (hlend : Lender (run r n)) (hcall : Refines (run r n))
    (hc : c < m.cursors.size) (h : run r (n + 1) entry (.either left right) c m = .ok o m')
    (hleft : m'.grammar.Genuine left) (hright : m'.grammar.Genuine right) :
    o.Means entry (.either left right) (m.cursor c) m' := by
  rw [run_succ] at h
  obtain ⟨s, m1, hs, h⟩ := bind_eq_ok_iff.mp h
  obtain ⟨first, m2, hfirst, h⟩ := bind_eq_ok_iff.mp h
  cases first with
  | matched d v =>
    cases h
    obtain ⟨hscursor, hslt, -, -, -⟩ := snapshot_eq hs
    obtain ⟨j, hj, honce⟩ := hcall.means hslt hfirst hleft
    rw [hscursor] at hj honce
    exact ⟨j, hj, .left honce⟩
  | missed =>
    exact rightArm_means hlend hcall hc hs hfirst (fun _ _ h => by cases h) h hleft hright
  | failed e =>
    exact rightArm_means hlend hcall hc hs hfirst (fun _ _ h => by cases h) h hleft hright

theorem not_means {body : Parser} (hlend : Lender (run r n)) (hcall : Refines (run r n))
    (hc : c < m.cursors.size) (h : run r (n + 1) entry (.not body) c m = .ok o m')
    (hbody : m'.grammar.Genuine body) : o.Means entry (.not body) (m.cursor c) m' := by
  rw [run_succ] at h
  obtain ⟨s, m1, hs, h⟩ := bind_eq_ok_iff.mp h
  obtain ⟨first, m2, hfirst, h⟩ := bind_eq_ok_iff.mp h
  obtain ⟨hscursor, hslt, -, -, -⟩ := snapshot_eq hs
  obtain ⟨hcursor, -⟩ := snapshot_call (fun {_ _} => hlend .fallible body) hc hs hfirst
  cases first with
  | matched d v =>
    cases entry with
    | fallible =>
      cases h
      obtain ⟨j, -, honce⟩ := hcall.means hslt hfirst hbody
      rw [hscursor] at honce
      exact ⟨rfl, .notFail honce⟩
    | total =>
      obtain ⟨text, m3, htext, h⟩ := bind_eq_ok_iff.mp h
      cases h
      obtain ⟨hsaid, rfl⟩ := describe_eq_ok htext
      obtain ⟨j, -, honce⟩ := hcall.means hslt hfirst hbody
      rw [hscursor] at honce
      exact ⟨rfl, .not honce hsaid⟩
  | missed =>
    cases h
    have hfail := (hcall.means hslt hfirst hbody).2
    rw [hscursor] at hfail
    exact ⟨_, hcursor, .notOk hfail⟩
  | failed e =>
    cases h
    cases (hcall.means hslt hfirst hbody).1

theorem map_means {change : Value → Except Fault Value} {body : Parser}
    (hcall : Refines (run r n)) (hc : c < m.cursors.size)
    (h : run r (n + 1) entry (.map change body) c m = .ok o m')
    (hbody : m'.grammar.Genuine body) : o.Means entry (.map change body) (m.cursor c) m' := by
  rw [run_succ] at h
  obtain ⟨first, m1, hfirst, h⟩ := bind_eq_ok_iff.mp h
  cases first with
  | matched d v =>
    obtain ⟨w, m2, hw, h⟩ := bind_eq_ok_iff.mp h
    cases h
    obtain ⟨hchange, rfl⟩ := lift_eq_ok hw
    obtain ⟨j, hj, honce⟩ := hcall.means hc hfirst hbody
    exact ⟨j, hj, .mapOk honce hchange⟩
  | missed =>
    cases h
    have hmeans := hcall.means hc hfirst hbody
    exact ⟨hmeans.1, .mapFail hmeans.2⟩
  | failed e =>
    cases h
    have hmeans := hcall.means hc hfirst hbody
    exact ⟨hmeans.1, .map hmeans.2⟩

theorem recorded_means {name : String} {body : Parser} (hcall : Refines (run r n))
    (hc : c < m.cursors.size) (h : run r (n + 1) entry (.recorded name body) c m = .ok o m')
    (hbody : m'.grammar.Genuine body) : o.Means entry (.recorded name body) (m.cursor c) m' := by
  rw [run_succ] at h
  obtain ⟨position, m1, hposition, h⟩ := bind_eq_ok_iff.mp h
  obtain ⟨⟨⟩, m2, hnote, h⟩ := bind_eq_ok_iff.mp h
  obtain ⟨-, hcursors1⟩ := (Act.still_position c).of_ok hposition
  obtain ⟨-, hcursors2⟩ := (Act.still_note _).of_ok hnote
  have hcursors : m2.cursors = m.cursors := hcursors2.trans hcursors1
  have hc2 : c < m2.cursors.size := hcursors ▸ hc
  have hmeans := hcall.means hc2 h hbody
  rw [cursor_congr hcursors] at hmeans
  exact hmeans.imp .recorded .recorded

theorem noMatch_means {accepts : Value → Bool} {k : Cursor}
    (hread : k.source.read accepts k.position = .fail)
    (h : noMatch (.misser accepts) entry m = .ok o m') :
    o.Means entry (.misser accepts) k m' := by
  cases entry with
  | fallible =>
    cases h
    exact ⟨rfl, .misser hread.symm⟩
  | total =>
    obtain ⟨text, m2, htext, h⟩ := bind_eq_ok_iff.mp h
    cases h
    obtain ⟨hsaid, rfl⟩ := describe_eq_ok htext
    exact ⟨rfl, .misser hread hsaid⟩

theorem misser_means {accepts : Value → Bool} (hc : c < m.cursors.size)
    (h : run r (n + 1) entry (.misser accepts) c m = .ok o m') :
    o.Means entry (.misser accepts) (m.cursor c) m' := by
  rw [run_succ] at h
  obtain ⟨v, m1, hv, h⟩ := bind_eq_ok_iff.mp h
  cases hnext : (m.cursor c).next? with
  | none =>
    rw [next_of_end hnext] at hv
    cases hv
    have hend : (m.cursor c).source.get? (m.cursor c).position = none :=
      Option.map_eq_none_iff.mp hnext
    refine noMatch_means ?_ h
    unfold Source.read
    rw [hend]
  | some r =>
    obtain ⟨w, moved⟩ := r
    rw [next_of_some hnext] at hv
    cases hv
    obtain ⟨hget, rfl⟩ := Cursor.next?_eq_some hnext
    dsimp only at h
    split at h
    · rename_i haccept
      cases h
      refine ⟨_, cursor_of_set_self rfl hc, .misser ?_⟩
      unfold Source.read
      simp only [hget, haccept, if_true]
    · rename_i haccept
      refine noMatch_means ?_ h
      unfold Source.read
      simp only [hget, haccept]
      rfl

end Operators

section Delays

variable {k n : Nat} {entry : Entry} {c : CursorId} {m m' : Machine} {o : Outcome}

/-- What a box was found to be stays known. -/
theorem box_means {b : BoxId} (hlend : Lender (run (resolver k) n))
    (hcall : Refines (run (resolver k) n)) (hc : c < m.cursors.size)
    (h : run (resolver k) (n + 1) entry (.box b) c m = .ok o m')
    (hp : m'.grammar.Genuine (.box b)) : o.Means entry (.box b) (m.cursor c) m' := by
  rw [run_succ] at h
  obtain ⟨q, m1, hq, h⟩ := bind_eq_ok_iff.mp h
  obtain ⟨hbox, hcursors⟩ := resolve_eq_ok hq
  have hc1 : c < m1.cursors.size := hcursors ▸ hc
  have hgrow := ((hlend entry q hc1).of_ok h).1.grammar
  have hfound := hgrow.known (f := .box b) (boxParser_known hbox)
  have hmeans := hcall.means hc1 h (hp.part (Grammar.part_of_box hfound))
  rw [cursor_congr hcursors] at hmeans
  exact hmeans.imp (.box hfound) (.box hfound)

/-- The plan that was found for a class stays known. -/
theorem derived_means {target : ClassId} (hlend : Lender (run (resolver k) n))
    (hcall : Refines (run (resolver k) n)) (hc : c < m.cursors.size)
    (h : run (resolver k) (n + 1) entry (.derived target) c m = .ok o m')
    (hp : m'.grammar.Genuine (.derived target)) :
    o.Means entry (.derived target) (m.cursor c) m' := by
  rw [run_succ] at h
  obtain ⟨plan, m1, hplan, h⟩ := bind_eq_ok_iff.mp h
  obtain ⟨hknown, hcursors⟩ := resolve_eq_ok hplan
  have hc1 : c < m1.cursors.size := hcursors ▸ hc
  have hgrow := ((hlend entry (.planned plan) hc1).of_ok h).1.grammar
  have hfound := hgrow.known (f := .plan target) (planOf_known hknown)
  have hmeans := hcall.means hc1 h (hp.part (Grammar.part_of_derived hfound))
  rw [cursor_congr hcursors] at hmeans
  exact hmeans.imp (.derived hfound) (.derived hfound)

/-- A generated parser does what its plan says. -/
theorem generated_means {plan : Plan Parser} {code : Code}
    (hlend : Lender (run (resolver k) n)) (hcall : Refines (run (resolver k) n))
    (hc : c < m.cursors.size) (h : run (resolver k) (n + 1) entry (.generated plan code) c m =
      .ok o m') (hp : m'.grammar.Genuine (.generated plan code)) :
    o.Means entry (.generated plan code) (m.cursor c) m' := by
  obtain ⟨hordered, rfl⟩ := hp.authentic
  have hinvoke : plan.code.invoke (run (resolver k) n) plan entry c m =
      .ok o m' := h
  rw [hordered.invoke_eq] at hinvoke
  have hattempts : plan.attempts = plan.attempts := rfl
  have hmeans := runAttempts_means hlend hcall (fun _ _ => Act.still_pure ()) hc hinvoke
    hattempts hordered fun a ha q hq => hp.part (List.mem_flatMap.mpr ⟨a, ha, hq⟩)
  exact hmeans.imp .generated .generated

end Delays

/-- **What runs answer is what parsers mean.** -/
theorem run_means (k : Nat) : ∀ n, Refines (run (resolver k) n)
  | 0 => ⟨fun _ h _ => by cases h⟩
  | n + 1 => by
    refine ⟨fun {entry p c m o m'} hc h hp => ?_⟩
    have ih := run_means k n
    have hlend := run_lender (resolver_grows k) n
    cases p with
    | element v => exact leaf_means hc h .element .element
    | any => exact leaf_means hc h .any .any
    | satisfy test description => exact leaf_means hc h .satisfy .satisfy
    | seq parts =>
      rw [run_succ] at h
      obtain ⟨r, m1, hr, h⟩ := bind_eq_ok_iff.mp h
      have hmeans := gather_means hlend ih hc hr fun q hq => ?_
      · cases r with
        | all d vs =>
          cases h
          exact hmeans
        | stopped o =>
          cases h
          exact hmeans
      · have hm : m' = m1 := by cases r <;> cases h <;> rfl
        exact hm ▸ hp.part hq
    | opt body => exact opt_means hlend ih hc h (hp.part List.mem_cons_self)
    | many checked body =>
      rw [run_succ] at h
      obtain ⟨⟨d, vs⟩, m1, hcollect, h⟩ := bind_eq_ok_iff.mp h
      cases h
      exact collect_means hlend ih hc hcollect (hp.part List.mem_cons_self)
    | many1 checked body => exact collectFirst_means hlend ih hc h (hp.part List.mem_cons_self)
    | either left right =>
      exact either_means hlend ih hc h (hp.part List.mem_cons_self)
        (hp.part (List.mem_cons_of_mem left List.mem_cons_self))
    | not body => exact not_means hlend ih hc h (hp.part List.mem_cons_self)
    | box b => exact box_means hlend ih hc h hp
    | map change body => exact map_means ih hc h (hp.part List.mem_cons_self)
    | derived target => exact derived_means hlend ih hc h hp
    | planned plan =>
      refine runAttempts_means hlend ih (still_reportAttempt plan.target) hc h rfl hp.authentic ?_
      exact fun a ha q hq => hp.part (List.mem_flatMap.mpr ⟨a, ha, hq⟩)
    | generated plan code => exact generated_means hlend ih hc h hp
    | recorded name body => exact recorded_means ih hc h (hp.part List.mem_cons_self)
    | misser accepts => exact misser_means hc h
    | unimplemented => cases h
    | inert => cases h

/-- **A run refines the meaning of its parser.** Where the fallible form returns, it names a cursor
at `j` over the same source, with value `v`, exactly if the parser means a match up to `j` with that
value, and it misses exactly if the parser means failure. -/
theorem run_refines {k n : Nat} {p : Parser} {c : CursorId} {m m' : Machine} {o : Outcome}
    (hc : c < m.cursors.size) (hp : m'.grammar.Genuine p)
    (h : run (resolver k) n .fallible p c m = .ok o m') :
    (∀ j v, (∃ d, o = .matched d v ∧ m'.cursor d = { m.cursor c with position := j }) ↔
      Derives m'.grammar (m.cursor c).source p (m.cursor c).position (.ok j v)) ∧
    (o = .missed ↔ Derives m'.grammar (m.cursor c).source p (m.cursor c).position .fail) := by
  have hmeans := (run_means k n).means hc h hp
  refine ⟨fun j v => ⟨?_, fun hderives => ?_⟩, ?_, fun hfail => ?_⟩
  · rintro ⟨d, rfl, hd⟩
    obtain ⟨j', hj', hderives⟩ := hmeans
    cases congrArg Cursor.position (hj'.symm.trans hd)
    exact hderives
  · cases o with
    | matched d w =>
      obtain ⟨j', hj', hderives'⟩ := hmeans
      cases hderives.deterministic hderives'
      exact ⟨d, rfl, hj'⟩
    | missed => exact absurd hderives (not_ok_of_fail hmeans.2)
    | failed e => cases hmeans.1
  · rintro rfl
    exact hmeans.2
  · cases o with
    | matched d w =>
      obtain ⟨j', -, hderives'⟩ := hmeans
      exact absurd hderives' (not_ok_of_fail hfail)
    | missed => rfl
    | failed e => cases hmeans.1

/-- Two letters of which the second is `b`, or else one. -/
def lettersOrOne : Parser :=
  .either (.seq [.any, .element (.text "b")]) .any

/-- On `"ac"`, the first arm reads both letters and fails; nothing of that is seen. -/
theorem run_refines_lettersOrOne :
    0 < (reading (.empty none) "ac").cursors.size ∧
      Grammar.Genuine (stateAfter (run (resolver 0) 3 .fallible lettersOrOne 0)
        (reading (.empty none) "ac")).grammar lettersOrOne ∧
      Derives (stateAfter (run (resolver 0) 3 .fallible lettersOrOne 0)
        (reading (.empty none) "ac")).grammar (.ofText "ac") lettersOrOne 0
          (.ok 1 (.right (.text "a"))) := by
  have hc : 0 < (reading (.empty none) "ac").cursors.size := by decide
  have hgenuine : ∀ g : Grammar, g.Genuine lettersOrOne := by
    intro g
    refine Grammar.genuine_of_closed (P := fun q => q = lettersOrOne ∨
      q = .seq [.any, .element (.text "b")] ∨ q = .any ∨ q = .element (.text "b")) ?_ ?_ (.inl rfl)
    · rintro q s (rfl | rfl | rfl | rfl) hs <;>
        simp only [lettersOrOne, Parser.parts, List.mem_cons, List.not_mem_nil, or_false] at hs
      · rcases hs with rfl | rfl
        · exact .inr (.inl rfl)
        · exact .inr (.inr (.inl rfl))
      · exact .inr (.inr hs)
    · rintro q (rfl | rfl | rfl | rfl) <;> trivial
  have hrun : run (resolver 0) 3 .fallible lettersOrOne 0 (reading (.empty none) "ac") =
      .ok (.matched 0 (.right (.text "a")))
        (stateAfter (run (resolver 0) 3 .fallible lettersOrOne 0)
        (reading (.empty none) "ac")) := rfl
  exact ⟨hc, hgenuine _, ((run_refines hc (hgenuine _) hrun).1 1 _).mp ⟨0, rfl, rfl⟩⟩

end ShapeGrammar
