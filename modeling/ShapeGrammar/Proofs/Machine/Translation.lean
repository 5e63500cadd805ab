import ShapeGrammar.Proofs.Machine.Muted

/-!
# Runs further on in longer inputs

Where a parse begins does not matter: if as many elements are put in front of an input as the cursor
is moved on, a run does the same, and everything that it does is done that much later. Places are
really asked for, by repetitions and in reports, but they are only ever compared with each other and
shown.

Two states of parses correspond if every cursor of the second one stands later by a given distance,
in an input with as many elements in front. The grammar is the same, but for what was reported,
since reports show places.

Headlines: `Cursor.Translated`, `Machine.Translates`, `translated_law`, `parsing_translates`.
-/

namespace ShapeGrammar

open Machine

/-! ## Places -/

/-- The cursor that stands later by a distance, in an input with as many elements in front. Numbers
that name no cursor go on doing so. -/
inductive Cursor.Translated (distance : Nat) : Cursor → Cursor → Prop
  | mk (a : Cursor) (front : Array Value) (size : front.size = distance) :
    Translated distance a
      ⟨⟨a.source.isText, front ++ a.source.elements⟩, distance + a.position, a.positioned⟩
  | nowhere : Translated distance default default

/-- A call noted at a later place. -/
def Event.later (distance : Nat) (e : Event) : Event :=
  { e with position := distance + e.position }

/-- The same reason to stop; if it tells a place, that may be later. -/
inductive Stop.Translated (distance : Nat) : Stop → Stop → Prop
  | same (e : Stop) : Translated distance e e
  | zeroWidth (description : String) (k : Nat) :
    Translated distance (.fault (.zeroWidth description k))
      (.fault (.zeroWidth description (distance + k)))

namespace Cursor.Translated

variable {distance : Nat} {a b : Cursor}

/-- The same is left to read. -/
theorem peek?_eq (h : a.Translated distance b) : b.peek? = a.peek? := by
  cases h with
  | mk _ front size =>
    show (front ++ a.source.elements)[distance + a.position]? = a.source.elements[a.position]?
    rw [Array.getElem?_append_right (by omega)]
    congr 1
    omega
  | nowhere => rfl

/-- At the end of the one, the other one is at the end as well. -/
theorem next?_none (h : a.Translated distance b) (hend : a.next? = none) : b.next? = none := by
  unfold next? at hend ⊢
  rw [h.peek?_eq]
  exact Option.map_eq_none_iff.mpr (Option.map_eq_none_iff.mp hend)

/-- Reading the same element moves both on. -/
theorem next?_some (h : a.Translated distance b) {v : Value} {moved : Cursor}
    (hread : a.next? = some (v, moved)) :
    ∃ moved', b.next? = some (v, moved') ∧ moved.Translated distance moved' ∧
      b.position = distance + a.position := by
  unfold next? at hread ⊢
  rw [h.peek?_eq]
  obtain ⟨w, hpeek, hmoved⟩ := Option.map_eq_some_iff.mp hread
  cases hmoved
  cases h with
  | mk _ front size =>
    exact ⟨_, by rw [hpeek]; rfl, .mk { a with position := a.position + 1 } front size, rfl⟩
  | nowhere => cases hpeek

end Cursor.Translated

/-! ## States of parses -/

/-- The same state of the grammar but for reports, and cursors that stand later by a distance. -/
structure Machine.Translates (distance : Nat) (m m' : Machine) : Prop where
  grammar : ∃ reports, m'.grammar = m.grammar.withReports reports
  size : m'.cursors.size = m.cursors.size
  cursors : ∀ c, (m.cursor c).Translated distance (m'.cursor c)

/-- What was done in two parses since they began was the same, later by a distance. -/
structure Machine.TranslatesSince (distance : Nat) (began began' m m' : Machine) : Prop
    extends m.Translates distance m' where
  reads : ∃ read, m.reads.toList = began.reads.toList ++ read ∧
    m'.reads.toList = began'.reads.toList ++ read.map (distance + ·)
  snapshots : ∃ taken, m.snapshots = began.snapshots + taken ∧
    m'.snapshots = began'.snapshots + taken
  events : ∃ noted, m.events.toList = began.events.toList ++ noted ∧
    m'.events.toList = began'.events.toList ++ noted.map (Event.later distance)

namespace Machine.Translates

variable {distance : Nat} {m m' m1 m1' : Machine}

theorem since (h : m.Translates distance m') : TranslatesSince distance m m' m m' where
  toTranslates := h
  reads := ⟨[], by simp⟩
  snapshots := ⟨0, by simp⟩
  events := ⟨[], by simp⟩

/-- Cursors stay as they are, and of the grammars only the reports can differ. -/
theorem grammars (h : m.Translates distance m')
    (hgrammar : ∃ reports, m1'.grammar = m1.grammar.withReports reports)
    (hcursors : m1.cursors = m.cursors) (hcursors' : m1'.cursors = m'.cursors) :
    m1.Translates distance m1' where
  grammar := hgrammar
  size := by rw [hcursors, hcursors', h.size]
  cursors c := by
    unfold cursor
    rw [hcursors, hcursors']
    exact h.cursors c

/-- A cursor was moved on both sides. -/
theorem set (h : m.Translates distance m') {c : CursorId} {moved moved' : Cursor}
    (hmoved : moved.Translated distance moved') (hgrammar : m1.grammar = m.grammar)
    (hgrammar' : m1'.grammar = m'.grammar) (hcursors : m1.cursors = m.cursors.set! c moved)
    (hcursors' : m1'.cursors = m'.cursors.set! c moved') : m1.Translates distance m1' where
  grammar := by
    rw [hgrammar, hgrammar']
    exact h.grammar
  size := by simp [hcursors, hcursors', h.size]
  cursors d := by
    by_cases hcd : c = d
    · subst hcd
      by_cases hlt : c < m.cursors.size
      · rw [cursor_of_set_self hcursors hlt, cursor_of_set_self hcursors' (h.size ▸ hlt)]
        exact hmoved
      · rw [cursor_of_size_le (by simpa [hcursors] using hlt),
          cursor_of_size_le (by simpa [hcursors', h.size] using hlt)]
        exact .nowhere
    · rw [cursor_of_set_of_ne hcursors hcd, cursor_of_set_of_ne hcursors' hcd]
      exact h.cursors d

/-- A cursor was added on both sides. -/
theorem push (h : m.Translates distance m') {a a' : Cursor} (ha : a.Translated distance a')
    (hgrammar : m1.grammar = m.grammar) (hgrammar' : m1'.grammar = m'.grammar)
    (hcursors : m1.cursors = m.cursors.push a) (hcursors' : m1'.cursors = m'.cursors.push a') :
    m1.Translates distance m1' where
  grammar := by
    rw [hgrammar, hgrammar']
    exact h.grammar
  size := by simp [hcursors, hcursors', h.size]
  cursors d := by
    rcases Nat.lt_trichotomy d m.cursors.size with hlt | rfl | hgt
    · rw [cursor_of_push_of_lt hcursors hlt, cursor_of_push_of_lt hcursors' (h.size ▸ hlt)]
      exact h.cursors d
    · rw [cursor_of_push_self hcursors, ← h.size, cursor_of_push_self hcursors']
      exact ha
    · rw [cursor_of_size_le (by rw [hcursors, Array.size_push]; exact hgt),
        cursor_of_size_le (by rw [hcursors', Array.size_push, h.size]; exact hgt)]
      exact .nowhere

end Machine.Translates

/-- Two computations have come to corresponding ends. -/
inductive EndsTranslated (distance : Nat) (began began' : Machine) {α β : Type}
    (A : α → β → Prop) : EStateM.Result Stop Machine α → EStateM.Result Stop Machine β → Prop
  | ok {a b m m'} (answers : A a b) (states : TranslatesSince distance began began' m m') :
    EndsTranslated distance began began' A (.ok a m) (.ok b m')
  | stopped {e e' m m'} (stops : e.Translated distance e')
    (states : TranslatesSince distance began began' m m') :
    EndsTranslated distance began began' A (.error e m) (.error e' m')

/-- From corresponding states, two computations come to corresponding ends. -/
def RunsTranslated (distance : Nat) (began began' : Machine) {α β : Type} (A : α → β → Prop)
    (x : Act α) (y : Act β) : Prop :=
  ∀ m m', TranslatesSince distance began began' m m' →
    EndsTranslated distance began began' A (x m) (y m')

section Primitives

variable {distance : Nat} {began began' : Machine}

/-- What reads the grammar and leaves the state of the parse as it is. -/
theorem runsTranslated_of_eq {α : Type} {x : Act α} {f : Grammar → Except Stop α}
    (hx : ∀ m, x m = Act.liftStop (f m.grammar) m)
    (hf : ∀ g reports, f (g.withReports reports) = f g) :
    RunsTranslated distance began began' Eq x x := fun m m' h => by
  obtain ⟨reports, hreports⟩ := h.grammar
  rw [hx, hx, hreports, hf]
  cases f m.grammar with
  | ok a => exact .ok rfl h
  | error e => exact .stopped (.same e) h

theorem RunsTranslated.bind {α β γ δ : Type} {A : α → β → Prop} {B : γ → δ → Prop} {x : Act α}
    {y : Act β} {f : α → Act γ} {g : β → Act δ} (hx : RunsTranslated distance began began' A x y)
    (hf : ∀ {a b}, A a b → RunsTranslated distance began began' B (f a) (g b)) :
    RunsTranslated distance began began' B (x >>= f) (y >>= g) := fun m m' h => by
  have hends := hx m m' h
  generalize hxm : x m = r at hends
  generalize hym : y m' = r' at hends
  cases hends with
  | ok answers states =>
    rw [bind_of_ok hxm, bind_of_ok hym]
    exact hf answers _ _ states
  | stopped stops states =>
    rw [bind_of_error hxm, bind_of_error hym]
    exact .stopped stops states

theorem runsTranslated_next (c : CursorId) :
    RunsTranslated distance began began' Eq (Act.next c) (Act.next c) := fun m m' h => by
  cases hread : (m.cursor c).next? with
  | none =>
    rw [next_of_end hread, next_of_end ((h.cursors c).next?_none hread)]
    exact .ok rfl h
  | some r =>
    obtain ⟨v, moved⟩ := r
    obtain ⟨moved', hread', hmoved, hposition⟩ := (h.cursors c).next?_some hread
    rw [next_of_some hread, next_of_some hread']
    obtain ⟨read, hreads, hreads'⟩ := h.reads
    refine .ok rfl { h with
      toTranslates := h.set hmoved rfl rfl rfl rfl
      reads := ⟨read ++ [(m.cursor c).position], ?_, ?_⟩ }
    · rw [Array.toList_push, hreads, List.append_assoc]
    · rw [Array.toList_push, hreads', List.map_append, List.append_assoc, hposition]
      rfl

theorem runsTranslated_snapshot (c : CursorId) :
    RunsTranslated distance began began' Eq (Act.snapshot c) (Act.snapshot c) := fun m m' h => by
  obtain ⟨taken, htaken, htaken'⟩ := h.snapshots
  refine .ok h.size.symm { h with
    toTranslates := h.push (h.cursors c) rfl rfl rfl rfl
    snapshots := ⟨taken + 1, ?_, ?_⟩ }
  · exact congrArg (· + 1) htaken
  · exact congrArg (· + 1) htaken'

theorem runsTranslated_position (c : CursorId) :
    RunsTranslated distance began began' (fun i i' => i' = distance + i) (Act.position c)
      (Act.position c) := fun m m' h => by
  show EndsTranslated distance began began' _
    ((if (m.cursor c).positioned then pure (m.cursor c).position
      else Act.fail (.attribute .position) : Act Nat) m)
    ((if (m'.cursor c).positioned then pure (m'.cursor c).position
      else Act.fail (.attribute .position) : Act Nat) m')
  have hcursor := h.cursors c
  generalize m.cursor c = a at hcursor ⊢
  generalize m'.cursor c = b at hcursor ⊢
  cases hcursor with
  | mk _ front size =>
    dsimp only
    split
    · exact .ok rfl h
    · exact .stopped (.same _) h
  | nowhere => exact .stopped (.same _) h

/-- Reports show places, and nothing else depends on them. -/
theorem runsTranslated_report (r r' : Report) :
    RunsTranslated distance began began' Eq (Act.report r) (Act.report r') := fun m m' h => by
  obtain ⟨reports, hreports⟩ := h.grammar
  obtain ⟨first, hfirst⟩ := m.grammar.report_eq_withReports r
  obtain ⟨second, hsecond⟩ := m'.grammar.report_eq_withReports r'
  refine .ok rfl { h with
    toTranslates := h.grammars ⟨second, ?_⟩ rfl rfl }
  show m'.grammar.report r' = (m.grammar.report r).withReports second
  rw [hfirst, hsecond, hreports]
  rfl

theorem runsTranslated_note (name : String) (entry : Entry) (k : Nat) :
    RunsTranslated distance began began' Eq (Act.note ⟨name, entry, k⟩)
      (Act.note ⟨name, entry, distance + k⟩) := fun m m' h => by
  obtain ⟨noted, hnoted, hnoted'⟩ := h.events
  refine .ok rfl { h with
    toTranslates := h.grammars h.grammar rfl rfl
    events := ⟨noted ++ [⟨name, entry, k⟩], ?_, ?_⟩ }
  · rw [Array.toList_push, hnoted, List.append_assoc]
  · rw [Array.toList_push, hnoted', List.map_append, List.append_assoc]
    rfl

/-- A question about the grammar has the same answer. -/
theorem runsTranslated_resolve {α : Type} {x : Resolution α} (hx : x.Deaf) :
    RunsTranslated distance began began' Eq (Act.resolve x) (Act.resolve x) := fun m m' h => by
  obtain ⟨reports, hreports⟩ := h.grammar
  have hends := hx m.grammar reports
  rw [← hreports] at hends
  unfold Act.resolve
  generalize x m.grammar = r at hends ⊢
  generalize x m'.grammar = r' at hends ⊢
  cases hends with
  | ok a g rs => exact .ok rfl { h with toTranslates := h.grammars ⟨rs, rfl⟩ rfl rfl }
  | error e g rs => exact .stopped (.same e) { h with toTranslates := h.grammars ⟨rs, rfl⟩ rfl rfl }

/-- **Everything that a run does respects a translation.** -/
theorem translated_law : PairLaw (RunsTranslated distance began began')
    (fun i i' => i' = distance + i) fun _ => True where
  fallible := trivial
  order h h' := by omega
  pure hab _ _ h := .ok hab h
  stop e _ _ h := .stopped (.same e) h
  bind := .bind
  next := runsTranslated_next
  snapshot := runsTranslated_snapshot
  position := runsTranslated_position
  describe p := runsTranslated_of_eq (f := fun g => g.describe p) (fun _ => rfl)
    fun g reports => g.describe_withReports reports p
  className target := runsTranslated_of_eq (f := fun g => .ok (g.className target)) (fun _ => rfl)
    fun _ _ => rfl
  listens level := runsTranslated_of_eq (f := fun g => .ok (level.heardFrom g.threshold))
    (fun _ => rfl) fun _ _ => rfl
  armMissed _ := runsTranslated_report _ _
  attemptMissed _ := runsTranslated_report _ _
  note _ h := by
    subst h
    exact runsTranslated_note _ _ _
  zeroWidth h := by
    subst h
    exact fun _ _ h => .stopped (.zeroWidth _ _) h
  construct target vs := fun m m' h => by
    obtain ⟨reports, hreports⟩ := h.grammar
    show EndsTranslated distance began began' Eq (Act.lift (m.grammar.construct target vs) m)
      (Act.lift (m'.grammar.construct target vs) m')
    rw [hreports]
    show EndsTranslated distance began began' Eq (Act.lift (m.grammar.construct target vs) m)
      (Act.lift (m.grammar.construct target vs) m')
    cases m.grammar.construct target vs with
    | ok v => exact .ok rfl h
    | error f => exact .stopped (.same _) h

end Primitives

/-! ## Runs -/

/-- A run does the same further on in a longer input. -/
theorem run_translated {k n distance : Nat} {entry : Entry} {p : Parser} {c : CursorId}
    {m m' : Machine} (h : m.Translates distance m') :
    EndsTranslated distance m m' Eq (run (resolver k) n entry p c m)
      (run (resolver k) n entry p c m') :=
  translated_law.run (fun _ => trivial)
    (fun b => runsTranslated_resolve ((resolver_deaf k).boxParser b))
    (fun d => runsTranslated_resolve ((resolver_deaf k).planOf d)) entry p c (.inl rfl) m m'
    h.since

/-- What a run answers is answered further on as well, and nothing else is. -/
theorem run_translated_iff {k n distance : Nat} {entry : Entry} {p : Parser} {c : CursorId}
    {m m' : Machine} (h : m.Translates distance m') (o : Outcome) :
    (∃ t, run (resolver k) n entry p c m = .ok o t) ↔
      ∃ t, run (resolver k) n entry p c m' = .ok o t := by
  have hends : EndsTranslated distance m m' Eq (run (resolver k) n entry p c m)
      (run (resolver k) n entry p c m') := run_translated h
  generalize run (resolver k) n entry p c m = r at hends
  generalize run (resolver k) n entry p c m' = r' at hends
  cases hends with
  | @ok a b t t' answers states =>
    subst answers
    constructor <;> rintro ⟨_, hok⟩ <;> cases hok <;> exact ⟨_, rfl⟩
  | stopped stops states => constructor <;> rintro ⟨_, hok⟩ <;> cases hok

/-- **Parsing does not depend on where it begins.** If cursors stand later by a distance, in inputs
with as many elements in front, a run comes to the same end: it matches, misses or fails in the same
way, or stops for the same reason, and the places where it leaves the cursors, of the elements that
it read and of the calls that it noted are later by the same distance. So what stands in front of
the place where a parse begins has no influence. -/
theorem parsing_translates {k n distance : Nat} {entry : Entry} {p : Parser} {c : CursorId}
    {m m' : Machine} (h : m.Translates distance m') :
    EndsTranslated distance m m' Eq (run (resolver k) n entry p c m)
        (run (resolver k) n entry p c m') ∧
      ∀ {m''}, m.Translates distance m'' → ∀ o,
        (∃ t, run (resolver k) n entry p c m' = .ok o t) ↔
          ∃ t, run (resolver k) n entry p c m'' = .ok o t :=
  ⟨run_translated h, fun h'' o => (run_translated_iff h o).symm.trans (run_translated_iff h'' o)⟩

theorem Machine.Translates.ofGrammar (distance : Nat) (g : Grammar) :
    (ofGrammar g).Translates distance (ofGrammar g) where
  grammar := ⟨g.reports, rfl⟩
  size := rfl
  cursors _ := .nowhere

/-- One cursor over an input, and one over the input with more elements in front. -/
theorem Machine.Translates.behind (g : Grammar) (a : Cursor) (front : Array Value) :
    ((Machine.ofGrammar g).addCursor a).Translates front.size
      ((Machine.ofGrammar g).addCursor
        ⟨⟨a.source.isText, front ++ a.source.elements⟩, front.size + a.position, a.positioned⟩) :=
  (Translates.ofGrammar front.size g).push (.mk a front rfl) rfl rfl rfl rfl

/-- One or more recorded letters. -/
def letters : Parser :=
  .many1 true (.recorded "letter" .any)

/-- From the second letter of `"ab"`, and of `"xab"` and `"yab"` from the third, the same is
parsed. -/
theorem parsing_translates_letters :
    let m := (ofGrammar (.empty none)).addCursor ⟨.ofText "ab", 1, true⟩
    let m' := (ofGrammar (.empty none)).addCursor ⟨.ofText "xab", 2, true⟩
    let m'' := (ofGrammar (.empty none)).addCursor ⟨.ofText "yab", 2, true⟩
    m.Translates 1 m' ∧ m.Translates 1 m'' ∧
      EndsTranslated 1 m m' Eq (run (resolver 0) 4 .total letters 0 m)
        (run (resolver 0) 4 .total letters 0 m') ∧
      ∃ t, run (resolver 0) 4 .total letters 0 m'' =
        .ok (.matched 0 (.nonempty (.text "b") [])) t := by
  intro m m' m''
  have h' : m.Translates 1 m' :=
    .behind (.empty none) ⟨.ofText "ab", 1, true⟩ #[.text "x"]
  have h'' : m.Translates 1 m'' :=
    .behind (.empty none) ⟨.ofText "ab", 1, true⟩ #[.text "y"]
  obtain ⟨hends, hfront⟩ := parsing_translates h'
  exact ⟨h', h'', hends, (hfront h'' _).mp ⟨_, rfl⟩⟩

end ShapeGrammar
