import ShapeGrammar.Proofs.ErrorKinds.Candid
import ShapeGrammar.Proofs.Walk.Raised

/-!
# Nothing is kept of what stopped

A class or a delayed parser that is being found out stays open until it is found. So if it is not
found, because its planning stops or its error kind is not found out, then it has neither a plan nor
an error kind; and as nothing catches what stops, that is still so when all has stopped.

Headlines: `Pending.Uncached`, `Pending.Stops`, `ComesUpon.uncached`.
-/

namespace ShapeGrammar

open Resolution

namespace Pending

/-- What is looked into while this counts as being found out. -/
def asked : Pending → Inquiry
  | .cls c => .plan c
  | .box b => .kind (.box b)

/-- The class has no plan, the delayed parser no error kind. -/
def Uncached (g : Grammar) : Pending → Prop
  | .cls c => (g.classInfo c).plan = none
  | .box b => (g.boxInfo b).errorKind = none

/-- It is asked for, and the question stops. -/
def Stops (key : Pending) : Nat → Inquiry → Grammar → Prop
  | 0, _, _ => False
  | n + 1, x, g => x = key.asked ∧ ∃ e g', x.run (resolver (n + 1)) g = .error e g'

theorem Undecided.uncached {g : Grammar} {key : Pending} (h : key.Undecided g) :
    key.Uncached g := by
  cases key with
  | cls c => exact h
  | box b => exact h.2

/-- What was found out about it is not changed by taking marks off. -/
theorem Uncached.unmarked {g : Grammar} {key : Pending} (h : key.Uncached g)
    (marks : List Pending) :
    key.Uncached { g with pending := marks } := by
  cases key <;> exact h

end Pending

variable {n : Nat} {g g' : Grammar} {e : Stop} {α : Type}

/-- Where a computation stops under a mark, what the mark stands for is still open. -/
theorem Resolution.Leaves.uncached {key : Pending} {x : Resolution α} (hx : Leaves key x)
    (hmark : key ∈ g.pending) (hopen : key.Undecided g) (h : x g = .error e g') :
    key.Uncached g' := by
  have hsame := hx.same hmark hopen
  have hlater := hx.grows g
  rw [stateAfter_of_error h] at hsame hlater
  exact (hopen.untouched hsame hlater).uncached

namespace Resolution

/-- What stops under a mark stops because the mark was set already, or so that it is taken off. -/
theorem uncached_of_guarded {key : Pending} {fault : List Pending → Fault} {x : Resolution α}
    (hopen : key.Uncached g)
    (hx : ∀ {g1}, x { g with pending := key :: g.pending } = .error e g1 → key.Uncached g1)
    (h : guarded key fault x g = .error e g') : key.Uncached g' := by
  unfold guarded at h
  split at h
  · cases h
    exact hopen
  · split at h
    · cases h
    · rename_i hxg
      cases h
      exact (hx hxg).unmarked _

end Resolution

/-! ## Classes -/

/-- What plans a class leaves alone what is being found out. -/
theorem leaves_planned (key : Pending) (c : ClassId) : Leaves key (do
    let schema ← lift ((← get).schemaOf (.declared c))
    planSchema (resolver n) schema) := by
  have hsteps := marks_steps key
  refine hsteps.read (fun g => ?_) fun g rs => ?_
  · exact hsteps.bind (hsteps.lift (g.schemaOf_stopsAt _)) fun s =>
      hsteps.planSchema ((marks_law key).answers n) s
  · rw [g.schemaOf_withReports rs]

/-- A class whose planning stops has no plan. -/
theorem findPlan_uncached {c : ClassId} (h : findPlan (resolver n) c g = .error e g') :
    (Pending.cls c).Uncached g' := by
  obtain ⟨hunknown, hplan⟩ := error_of_remember h
  unfold makePlan at hplan
  rcases bind_eq_error hplan with hget | ⟨_, _, hget, hplan⟩
  · cases hget
  cases hget
  split at hplan
  · cases hplan
    exact hunknown
  rcases bind_eq_error hplan with hguarded | ⟨plan, g1, -, hreport⟩
  · exact uncached_of_guarded hunknown (fun hstop => (leaves_planned (.cls c) c).uncached
      (g := { g with pending := .cls c :: g.pending }) List.mem_cons_self hunknown hstop) hguarded
  · cases hreport

/-! ## Delayed parsers -/

/-- While the error kind of a delayed parser is found out, it is not known. -/
theorem kind_uncached {b : BoxId} (hmark : .box b ∈ g.pending)
    (hunknown : (g.boxInfo b).errorKind = none)
    (h : (do let p ← openBox (resolver n) b; errorKindOf (resolver n) p) g = .error e g') :
    (Pending.box b).Uncached g' := by
  have hsteps := marks_steps (.box b)
  have hanswers := (marks_law (.box b)).answers n
  rcases bind_eq_error h with hopen | ⟨p, g1, hopen, hkind⟩
  · obtain ⟨-, hbox⟩ := error_of_remember hopen
    by_cases hb : b < g.boxes.size
    · exact (hsteps.resolveBox hanswers b).uncached hmark ⟨hb, hunknown⟩ hbox
    · unfold resolveBox at hbox
      replace hbox : (if g.boxes.size ≤ b then _ else _ : Resolution Parser) g = _ := hbox
      rw [if_pos (Nat.le_of_not_lt hb)] at hbox
      cases hbox
      exact hunknown
  · have hstill := openBox_open hmark hunknown hopen
    have hlater := ok_precedes (grows_law.openBox (resolver_grows n).toAnswers b) hopen
    have hb : b < g1.boxes.size := by
      refine Nat.lt_of_not_le fun hle => ?_
      have hknown := openBox_known hopen
      rw [g1.boxInfo_of_size_le hle] at hknown
      cases hknown
    exact (hsteps.errorKindOf hanswers p).uncached (hlater.pending ▸ hmark) ⟨hb, hstill⟩ hkind

/-- A delayed parser whose error kind is not found has none. -/
theorem findBoxErrorKind_uncached {b : BoxId}
    (h : findBoxErrorKind (resolver n) b g = .error e g') : (Pending.box b).Uncached g' := by
  obtain ⟨hunknown, hkind⟩ := error_of_remember h
  exact uncached_of_guarded hunknown (fun hstop => kind_uncached
    (g := { g with pending := .box b :: g.pending }) List.mem_cons_self hunknown hstop) hkind

/-! ## Walks -/

theorem Pending.Stops.raises {key : Pending} {x : Inquiry} (h : key.Stops n x g) :
    Raises (fun _ g => key.Uncached g) (x.run (resolver n)) g := by
  cases n with
  | zero => exact h.elim
  | succ n =>
    obtain ⟨rfl, e, g', hstop⟩ := h
    refine ⟨e, g', hstop, ?_⟩
    cases key with
    | cls c => exact findPlan_uncached (map_eq_error hstop)
    | box b => exact findBoxErrorKind_uncached (map_eq_error hstop)

/-- **What stopped is still open when all has stopped.** -/
theorem ComesUpon.uncached {key : Pending} {x : Inquiry} (h : ComesUpon key.Stops n [x] g) :
    key.Uncached (stateAfter (x.run (resolver n)) g) := by
  have hpasses : Passes fun _ g => key.Uncached g := ⟨fun _ _ _ h => h, fun h => h.unmarked _⟩
  obtain ⟨e, g', hstop, hopen⟩ := Inquiry.raises_single (h.raises hpasses fun h => h.raises)
  rwa [stateAfter_of_error hstop]

end ShapeGrammar
