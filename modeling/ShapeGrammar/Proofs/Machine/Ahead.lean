import ShapeGrammar.Proofs.Machine.Carried

/-!
# The cursor behind a match is ahead of the one that was handed over

A match names a cursor; it stands where the match ends, and the cursor that was handed over has not
been moved beyond that. The two are the same cursor, or the second one was left behind when a
snapshot was taken of it, and what is done with a snapshot does not move it.

Factories that are not written from their plans could do otherwise: they can name a cursor that they
took and left. So the statement about runs is about genuine parsers.

Headlines: `Machine.Behind`, `Forward`, `carryOut_forward`, `run_ahead`.
-/

namespace ShapeGrammar

open Machine

/-- The first cursor does not stand beyond the second one. -/
def Machine.Behind (m : Machine) (c d : CursorId) : Prop :=
  (m.cursor c).position ≤ (m.cursor d).position

/-- Calls whose matches end ahead of the cursor that they are handed. -/
def Forward (call : Entry → Parser → CursorId → Act Outcome) : Prop :=
  ∀ entry p c m d v m', c < m.cursors.size → call entry p c m = .ok (.matched d v) m' →
    m'.Behind c d

/-- Where a call ends. -/
theorem Forward.behind {call : Entry → Parser → CursorId → Act Outcome} (hcall : Forward call)
    {entry : Entry} {p : Parser} {c d : CursorId} {v : Value} {m m' : Machine}
    (hc : c < m.cursors.size) (h : call entry p c m = .ok (.matched d v) m') : m'.Behind c d :=
  hcall entry p c m d v m' hc h

theorem Cursor.Onward.le {a b : Cursor} (h : a.Onward b) : a.position ≤ b.position := by
  obtain ⟨k, hk, -, rfl⟩ := h
  exact hk

namespace Machine.Behind

variable {c d e s : CursorId} {m m1 m2 : Machine}

theorem refl (m : Machine) (c : CursorId) : m.Behind c c := Nat.le_refl _

/-- What is done with a cursor that is ahead leaves those behind it behind. -/
theorem trans (h : m1.Behind c d) (hc : c < m1.cursors.size) (hd : d < m1.cursors.size)
    (hlent : Lent d m1 m2) (h' : m2.Behind d e) : m2.Behind c e := by
  by_cases hcd : c = d
  · rw [hcd]
    exact h'
  · have hkept := hlent.others hcd hc
    have honward := hlent.own (.inl rfl) (Nat.lt_of_lt_of_le hd hlent.size)
    unfold Behind at h h' ⊢
    rw [hkept]
    exact Nat.le_trans h (Nat.le_trans honward.le h')

/-- A computation that touches no cursor leaves cursors behind others. -/
theorem still {α : Type} {x : Act α} (hx : x.Still) {a : α} (hok : x m1 = .ok a m2)
    (h : m1.Behind c d) : m2.Behind c d := by
  have hcursors := (hx.of_ok hok).2
  unfold Behind at h ⊢
  rwa [cursor_congr hcursors, cursor_congr hcursors]

/-- What ends ahead of a snapshot ends ahead of the cursor that it was taken of. -/
theorem of_snapshot {x : CursorId → Act Outcome} {v : Value}
    (hx : ∀ {d m}, d < m.cursors.size → Lends d m (x d) m fun o m' => o.HeldBy d m m')
    (hc : c < m.cursors.size) (hs : Act.snapshot c m = .ok s m1)
    (ho : x s m1 = .ok (.matched d v) m2) (h : m2.Behind s d) : m2.Behind c d := by
  obtain ⟨hplace, hslt, -, -, -⟩ := snapshot_eq hs
  have hkept := (snapshot_call hx hc hs ho).1
  have hlent := ((hx hslt).of_ok ho).1
  have honward := hlent.own (.inl rfl) (Nat.lt_of_lt_of_le hslt hlent.size)
  have hbegun := honward.le
  rw [hplace, ← hkept] at hbegun
  exact Nat.le_trans hbegun h

end Machine.Behind

section Parts

variable {call : Entry → Parser → CursorId → Act Outcome} (hlend : Lender call)
  (hcall : Forward call)
include hlend hcall

theorem gather_forward {entry : Entry} : ∀ {ps : List Parser} {c d : CursorId} {vs : List Value}
    {m m' : Machine}, c < m.cursors.size → gather call entry ps c m = .ok (.all d vs) m' →
      m'.Behind c d
  | [], c, _, _, m, _, _, h => by
    cases h
    exact .refl m c
  | p :: ps, c, d, vs, m, m', hc, h => by
    unfold gather at h
    obtain ⟨o, m1, ho, h⟩ := bind_eq_ok_iff.mp h
    obtain ⟨-, hsize, hheld⟩ := (hlend entry p hc).of_ok ho
    cases o with
    | matched e v =>
      obtain ⟨r, m2, hr, h⟩ := bind_eq_ok_iff.mp h
      cases r with
      | all f ws =>
        cases h
        have he := (hheld _ _ rfl).lt
        have hlent := ((lends_gather hlend entry (.refl he) (.refl he)).of_ok hr).1
        exact (hcall.behind hc ho).trans (Nat.lt_of_lt_of_le hc hsize) he hlent
          (gather_forward he hr)
      | stopped o => cases h
    | missed =>
      dsimp only at h
      split at h <;> cases h
    | failed e =>
      dsimp only at h
      split at h <;> cases h

theorem collect_forward {checked : Bool} {body : Parser} : ∀ {n : Nat} {c d : CursorId}
    {vs : List Value} {m m' : Machine}, c < m.cursors.size →
      collect call checked body n c m = .ok (d, vs) m' → m'.Behind c d
  | 0, _, _, _, _, _, _, h => by cases h
  | n + 1, c, d, vs, m, m', hc, h => by
    unfold collect at h
    obtain ⟨s, m1, hs, h⟩ := bind_eq_ok_iff.mp h
    obtain ⟨o, m2, ho, h⟩ := bind_eq_ok_iff.mp h
    obtain ⟨-, hslt, -, -, -⟩ := snapshot_eq hs
    obtain ⟨-, -, hheld⟩ := (hlend .fallible body hslt).of_ok ho
    cases o with
    | matched e v =>
      obtain ⟨start, m3, hmark, h⟩ := bind_eq_ok_iff.mp h
      obtain ⟨⟨⟩, m4, hcheck, h⟩ := bind_eq_ok_iff.mp h
      obtain ⟨⟨f, ws⟩, m5, hrest, h⟩ := bind_eq_ok_iff.mp h
      cases h
      have hcursors : m4.cursors = m2.cursors :=
        ((still_checkMark body start e).of_ok hcheck).2.trans ((still_mark checked c).of_ok hmark).2
      have hc2 := (snapshot_call (fun {_ _} => hlend .fallible body) hc hs ho).2
      have hfirst : m2.Behind c e :=
        .of_snapshot (fun {_ _} => hlend .fallible body) hc hs ho (hcall.behind hslt ho)
      have hbegun : m4.Behind c e :=
        (hfirst.still (still_mark checked c) hmark).still (still_checkMark body start e) hcheck
      have he : e < m4.cursors.size := hcursors ▸ (hheld _ _ rfl).lt
      have hlent := ((lends_collect hlend checked body (.refl he) (.refl he)).of_ok hrest).1
      exact hbegun.trans (hcursors ▸ hc2) he hlent (collect_forward he hrest)
    | missed =>
      cases h
      exact .refl _ _
    | failed e =>
      cases h
      exact .refl _ _

theorem collectFirst_forward {checked : Bool} {body : Parser} {n : Nat} {entry : Entry}
    {c d : CursorId} {v : Value} {m m' : Machine} (hc : c < m.cursors.size)
    (h : collectFirst call checked body n entry c m = .ok (.matched d v) m') : m'.Behind c d := by
  unfold collectFirst at h
  obtain ⟨start, m1, hmark, h⟩ := bind_eq_ok_iff.mp h
  obtain ⟨o, m2, ho, h⟩ := bind_eq_ok_iff.mp h
  have hc1 : c < m1.cursors.size := ((still_mark checked c).of_ok hmark).2 ▸ hc
  obtain ⟨-, hsize, hheld⟩ := (hlend entry body hc1).of_ok ho
  cases o with
  | matched e w =>
    obtain ⟨⟨⟩, m3, hcheck, h⟩ := bind_eq_ok_iff.mp h
    obtain ⟨⟨f, ws⟩, m4, hrest, h⟩ := bind_eq_ok_iff.mp h
    cases h
    have hcursors := ((still_checkMark body start e).of_ok hcheck).2
    have hbegun : m3.Behind c e := (hcall.behind hc1 ho).still (still_checkMark body start e) hcheck
    have he : e < m3.cursors.size := hcursors ▸ (hheld _ _ rfl).lt
    have hlent := ((lends_collect hlend checked body (.refl he) (.refl he)).of_ok hrest).1
    exact hbegun.trans (hcursors ▸ Nat.lt_of_lt_of_le hc1 hsize) he hlent
      (collect_forward hlend hcall he hrest)
  | missed => cases h
  | failed e => cases h

theorem runAttempt_forward {entry : Entry} {a : Attempt Parser} {c d : CursorId} {v : Value}
    {m m' : Machine} (hc : c < m.cursors.size)
    (h : runAttempt call entry a c m = .ok (.matched d v) m') : m'.Behind c d := by
  unfold runAttempt at h
  obtain ⟨r, m1, hr, h⟩ := bind_eq_ok_iff.mp h
  cases r with
  | all e vs =>
    obtain ⟨w, m2, hw, h⟩ := bind_eq_ok_iff.mp h
    cases h
    exact (gather_forward hlend hcall hc hr).still (Act.still_construct a.target vs) hw
  | stopped o =>
    cases h
    cases gather_stopped hr

theorem runAttempts_forward {report : String → CursorId → Act Unit}
    (hreport : ∀ name c, (report name c).Still) {entry : Entry} :
    ∀ {as : List (Attempt Parser)} {c d : CursorId} {v : Value} {m m' : Machine},
      c < m.cursors.size → runAttempts call report entry as c m = .ok (.matched d v) m' →
      m'.Behind c d
  | [], _, _, _, _, _, _, h => by cases h
  | a :: rest, c, d, v, m, m', hc, h => by
    unfold runAttempts at h
    split at h
    · obtain ⟨w, m1, -, h⟩ := bind_eq_ok_iff.mp h
      cases h
      exact .refl _ _
    · split at h
      · exact runAttempt_forward hlend hcall hc h
      · obtain ⟨s, m1, hs, h⟩ := bind_eq_ok_iff.mp h
        obtain ⟨o, m2, ho, h⟩ := bind_eq_ok_iff.mp h
        obtain ⟨-, hslt, -, -, -⟩ := snapshot_eq hs
        have htried : ∀ {s m}, s < m.cursors.size →
            Lends s m (runAttempt call .fallible a s) m fun o m' => o.HeldBy s m m' :=
          fun hs => lends_runAttempt hlend .fallible a (.refl hs) (.refl hs)
        have hrest : (report a.name c >>= fun _ => runAttempts call report entry rest c) m2 =
            .ok (.matched d v) m' → m'.Behind c d := by
          intro h
          obtain ⟨⟨⟩, m3, hreported, h⟩ := bind_eq_ok_iff.mp h
          have hc2 := (snapshot_call htried hc hs ho).2
          have hc3 : c < m3.cursors.size := ((hreport a.name c).of_ok hreported).2 ▸ hc2
          exact runAttempts_forward hreport hc3 h
        cases o with
        | matched e w =>
          cases h
          exact .of_snapshot htried hc hs ho (runAttempt_forward hlend hcall hslt ho)
        | missed => exact hrest h
        | failed e => exact hrest h

end Parts

/-! ## Runs -/

theorem readElement_matched {accept : Value → Bool} {expected v : Value} {c d : CursorId}
    {m m' : Machine} (h : readElement accept expected c m = .ok (.matched d v) m') : d = c := by
  unfold readElement at h
  obtain ⟨w, m1, -, h⟩ := bind_eq_ok_iff.mp h
  cases w with
  | none => cases h
  | some w =>
    dsimp only at h
    split at h <;> cases h
    rfl

theorem leaf_matched {accept : Value → Bool} {expected v : Value} {entry : Entry}
    {c d : CursorId} {m m' : Machine}
    (h : ((·.seenBy entry) <$> readElement accept expected c) m = .ok (.matched d v) m') :
    d = c := by
  obtain ⟨o, ho, hseen⟩ := map_eq_ok_iff.mp h
  have hmatched : o = .matched d v := by
    cases entry with
    | total => exact hseen
    | fallible =>
      cases o with
      | matched e w => exact hseen
      | missed => cases hseen
      | failed e => cases hseen
  subst hmatched
  exact readElement_matched ho

theorem misser_matched {r : Resolver} {n : Nat} {call : Entry → Parser → CursorId → Act Outcome}
    {entry : Entry} {accepts : Value → Bool} {v : Value} {c d : CursorId} {m m' : Machine}
    (h : runWith r n call entry (.misser accepts) c m = .ok (.matched d v) m') : d = c := by
  have hmiss : ∀ {m}, noMatch (.misser accepts) entry m ≠ .ok (.matched d v) m' := by
    intro m hmiss
    cases entry with
    | fallible => cases hmiss
    | total =>
      obtain ⟨text, m1, -, hmiss⟩ := bind_eq_ok_iff.mp hmiss
      cases hmiss
  unfold runWith at h
  obtain ⟨w, m1, -, h⟩ := bind_eq_ok_iff.mp h
  cases w with
  | none => exact absurd h hmiss
  | some w =>
    dsimp only at h
    split at h
    · cases h
      rfl
    · exact absurd h hmiss

/-- A call ends ahead of the cursor that it is handed if the calls inside it do. -/
theorem runWith_forward {r : Resolver} {n : Nat}
    {call : Entry → Parser → CursorId → Act Outcome} (hlend : Lender call) (hcall : Forward call)
    {entry : Entry} {p : Parser} (hplain : ∀ plan code, p ≠ .generated plan code)
    {c d : CursorId} {v : Value} {m m' : Machine} (hc : c < m.cursors.size)
    (h : runWith r n call entry p c m = .ok (.matched d v) m') : m'.Behind c d := by
  cases p with
  | element w => exact leaf_matched h ▸ .refl _ _
  | any => exact leaf_matched h ▸ .refl _ _
  | satisfy test description => exact leaf_matched h ▸ .refl _ _
  | seq parts =>
    unfold runWith at h
    obtain ⟨r, m1, hr, h⟩ := bind_eq_ok_iff.mp h
    cases r with
    | all e vs =>
      cases h
      exact gather_forward hlend hcall hc hr
    | stopped o =>
      cases h
      cases gather_stopped hr
  | opt body =>
    unfold runWith at h
    obtain ⟨s, m1, hs, h⟩ := bind_eq_ok_iff.mp h
    obtain ⟨o, m2, ho, h⟩ := bind_eq_ok_iff.mp h
    obtain ⟨-, hslt, -, -, -⟩ := snapshot_eq hs
    cases o with
    | matched e w =>
      cases h
      exact .of_snapshot (fun {_ _} => hlend .fallible body) hc hs ho (hcall.behind hslt ho)
    | missed =>
      cases h
      exact .refl _ _
    | failed e =>
      cases h
      exact .refl _ _
  | many checked body =>
    unfold runWith at h
    obtain ⟨⟨e, vs⟩, m1, hcollect, h⟩ := bind_eq_ok_iff.mp h
    cases h
    exact collect_forward hlend hcall hc hcollect
  | many1 checked body => exact collectFirst_forward hlend hcall hc h
  | either left right =>
    unfold runWith at h
    obtain ⟨s, m1, hs, h⟩ := bind_eq_ok_iff.mp h
    obtain ⟨o, m2, ho, h⟩ := bind_eq_ok_iff.mp h
    obtain ⟨-, hslt, -, -, -⟩ := snapshot_eq hs
    have hright : (reportArm left right c >>= fun _ =>
        (·.mapValue .right) <$> call entry right c) m2 = .ok (.matched d v) m' →
        m'.Behind c d := by
      intro h
      obtain ⟨⟨⟩, m3, hreported, h⟩ := bind_eq_ok_iff.mp h
      obtain ⟨second, hsecond, hvalue⟩ := map_eq_ok_iff.mp h
      have hc2 := (snapshot_call (fun {_ _} => hlend .fallible left) hc hs ho).2
      have hc3 : c < m3.cursors.size := ((still_reportArm left right c).of_ok hreported).2 ▸ hc2
      cases second with
      | matched e w =>
        cases hvalue
        exact hcall.behind hc3 hsecond
      | missed => cases hvalue
      | failed e => cases hvalue
    cases o with
    | matched e w =>
      cases h
      exact .of_snapshot (fun {_ _} => hlend .fallible left) hc hs ho (hcall.behind hslt ho)
    | missed => exact hright h
    | failed e => exact hright h
  | not body =>
    unfold runWith at h
    obtain ⟨s, m1, hs, h⟩ := bind_eq_ok_iff.mp h
    obtain ⟨o, m2, ho, h⟩ := bind_eq_ok_iff.mp h
    cases o with
    | matched e w =>
      cases entry with
      | fallible => cases h
      | total =>
        obtain ⟨text, m3, -, h⟩ := bind_eq_ok_iff.mp h
        cases h
    | missed =>
      cases h
      exact .refl _ _
    | failed e =>
      cases h
      exact .refl _ _
  | box b =>
    unfold runWith at h
    obtain ⟨q, m1, hq, h⟩ := bind_eq_ok_iff.mp h
    exact hcall.behind ((resolve_eq_ok hq).2 ▸ hc) h
  | map change body =>
    unfold runWith at h
    obtain ⟨o, m1, ho, h⟩ := bind_eq_ok_iff.mp h
    cases o with
    | matched e w =>
      obtain ⟨u, m2, hu, h⟩ := bind_eq_ok_iff.mp h
      cases h
      exact (hcall.behind hc ho).still (Act.still_lift (change w)) hu
    | missed => cases h
    | failed e => cases h
  | derived target =>
    unfold runWith at h
    obtain ⟨plan, m1, hplan, h⟩ := bind_eq_ok_iff.mp h
    exact hcall.behind ((resolve_eq_ok hplan).2 ▸ hc) h
  | planned plan => exact runAttempts_forward hlend hcall (still_reportAttempt plan.target) hc h
  | generated plan code => exact absurd rfl (hplain plan code)
  | recorded name body =>
    unfold runWith at h
    obtain ⟨position, m1, hposition, h⟩ := bind_eq_ok_iff.mp h
    obtain ⟨⟨⟩, m2, hnote, h⟩ := bind_eq_ok_iff.mp h
    have hcursors : m2.cursors = m.cursors :=
      ((Act.still_note _).of_ok hnote).2.trans ((Act.still_position c).of_ok hposition).2
    exact hcall.behind (hcursors ▸ hc) h
  | misser accepts => exact misser_matched h ▸ .refl _ _
  | unimplemented => cases h
  | inert => cases h

/-- **Where plans are carried out, matches end ahead of the cursor that was handed over.** -/
theorem carryOut_forward {r : Resolver} (hr : r.Obeys Resolution.Grows) :
    ∀ n, Forward (carryOut r n)
  | 0 => fun _ _ _ _ _ _ _ _ h => by cases h
  | n + 1 => fun entry p c m d v m' hc h => by
    have hlend := carryOut_lender hr n
    have ih := carryOut_forward hr n
    rw [carryOut_succ] at h
    unfold carryWith at h
    split at h
    · exact runAttempts_forward hlend ih (fun _ _ => Act.still_pure ()) hc h
    · rename_i hplain
      exact runWith_forward hlend ih hplain hc h

/-- **A match of a genuine parser ends ahead of the cursor that was handed over.** -/
theorem run_ahead {k n : Nat} {entry : Entry} {p : Parser} {c d : CursorId} {v : Value}
    {m m' : Machine} (hc : c < m.cursors.size)
    (h : run (resolver k) n entry p c m = .ok (.matched d v) m') (hp : m'.grammar.Genuine p) :
    m'.Behind c d := by
  have hcarried := run_eq_carryOut ((stateAfter_of_ok h).symm ▸ hp)
  exact (carryOut_forward (resolver_grows k) n).behind hc (hcarried.symm.trans h)

end ShapeGrammar
