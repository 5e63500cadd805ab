import ShapeGrammar.Factory.Store
import ShapeGrammar.Proofs.Factory.Lexing
import ShapeGrammar.Proofs.Resolution.Declared

/-!
# Writing files of factories

A call to write names a file and what its factories are to be made for: plans, schemas or derived
shapes. It looks at the file that is there, then plans everything, and writes last. Whatever stops
it on the way leaves the directory as it was, because planning touches no file. What it writes opens
with the header that the next call looks for, so that files move in one direction only: from absent
to generated. A file that somebody wrote by hand is never touched, however many calls are made.

Headlines: `WriteCall.perform`, `WriteCall.Atomic`, `writes_all_or_nothing`.
-/

namespace ShapeGrammar

open Resolution

/-! ## Calls -/

/-- What factories are made for. -/
inductive Plannable
  | plan (plan : Plan Parser)
  | schema (schema : Schema)
  | shape (shape : Shape)

/-- The plan of what a factory is made for. -/
def Plannable.planned (r : Resolver) : Plannable → Resolution (Plan Parser)
  | .plan p => pure p
  | .schema s => planSchema r s
  | .shape a => derivedPlan r a

/-- The plans of several, in order. -/
def plannedAll (r : Resolver) : List Plannable → Resolution (List (Plan Parser))
  | [] => pure []
  | x :: xs => do
    let plan ← x.planned r
    let plans ← plannedAll r xs
    pure (plan :: plans)

/-- The file of factories of several. -/
def renderPlanned (r : Resolver) (items : List Plannable) : Resolution FactoryFile := do
  let plans ← plannedAll r items
  pure (factoryFile (← get) plans)

/-- A call to write the factories of some items to a file. -/
structure WriteCall where
  file : String
  items : List Plannable

/-- Writes the factories to a file that is new or was generated. -/
def WriteCall.perform (r : Resolver) (w : WriteCall) : Resolution FactoryFile := do
  match (← get).files.get? w.file with
  | some text =>
    if !isGenerated text then fail (.value (.notGenerated w.file))
  | none => pure ()
  let rendered ← renderPlanned r w.items
  putFile w.file rendered.text
  pure rendered

/-- What some calls leave behind. A call that stops is over, and the next one is made. -/
def afterCalls (r : Resolver) (calls : List WriteCall) (g : Grammar) : Grammar :=
  calls.foldl (fun g w => stateAfter (w.perform r) g) g

/-- The file can be written as far as the directory is concerned. -/
def WriteCall.Permitted (w : WriteCall) (g : Grammar) : Prop :=
  inMissingDirectory w.file = false ∧
    ∀ {text}, g.files.get? w.file = some text → isGenerated text = true

theorem plannedAll_shapes (r : Resolver) (shapes : List Shape) :
    plannedAll r (shapes.map .shape) = derivedPlans r shapes := by
  induction shapes with
  | nil => rfl
  | cons a as ih =>
    rw [List.map_cons, plannedAll, derivedPlans, ih]
    rfl

/-- Derived shapes are written as `writeFactories` writes them. -/
theorem perform_shapes (r : Resolver) (file : String) (shapes : List Shape) :
    (WriteCall.mk file (shapes.map .shape)).perform r = writeFactories r file shapes := by
  have hrender : renderPlanned r (shapes.map .shape) = renderFactories r shapes := by
    unfold renderPlanned renderFactories
    rw [plannedAll_shapes]
  unfold WriteCall.perform writeFactories
  rewrite [hrender]
  rfl

/-! ## Planning touches no file -/

section Planning

variable {r : Resolver} (hr : r.Obeys Grows)
include hr

theorem planned_grows (x : Plannable) : Grows (x.planned r) := by
  cases x with
  | plan plan => exact grows_law.pure plan
  | schema schema => exact grows_law.planSchema hr.toAnswers schema
  | shape a => exact grows_law.derivedPlan hr.toAnswers a

theorem plannedAll_grows (items : List Plannable) : Grows (plannedAll r items) := by
  induction items with
  | nil => exact grows_law.pure _
  | cons x xs ih =>
    exact grows_law.bind (planned_grows hr x) fun _ =>
      grows_law.bind ih fun _ => grows_law.pure _

theorem renderPlanned_grows (items : List Plannable) : Grows (renderPlanned r items) :=
  grows_law.bind (plannedAll_grows hr items) fun _ g => .refl g

end Planning

/-- An item without a plan stops the planning of all, at whichever place it is reached. -/
theorem plannedAll_of_error {r : Resolver} {x : Plannable} {after : List Plannable} {stop : Stop}
    {g1 g2 : Grammar} (hx : x.planned r g1 = .error stop g2) :
    ∀ {before : List Plannable} {plans : List (Plan Parser)} {g : Grammar},
      plannedAll r before g = .ok plans g1 →
        plannedAll r (before ++ x :: after) g = .error stop g2
  | [], _, _, h => by
    cases h
    exact bind_of_error hx
  | y :: before, _, _, h => by
    obtain ⟨plan, g3, hplan, h⟩ := bind_eq_ok_iff.mp h
    obtain ⟨plans, g4, hplans, h⟩ := bind_eq_ok_iff.mp h
    cases h
    rw [List.cons_append, plannedAll, bind_of_ok hplan]
    exact bind_of_error (plannedAll_of_error hx hplans)

theorem renderPlanned_eq_ok_iff {r : Resolver} {items : List Plannable} {rendered : FactoryFile}
    {g g' : Grammar} : renderPlanned r items g = .ok rendered g' ↔
      ∃ plans, plannedAll r items g = .ok plans g' ∧ factoryFile g' plans = rendered := by
  unfold renderPlanned
  rw [bind_eq_ok_iff]
  constructor
  · rintro ⟨plans, g1, hplans, h⟩
    cases h
    exact ⟨plans, hplans, rfl⟩
  · rintro ⟨plans, hplans, rfl⟩
    exact ⟨plans, g', hplans, rfl⟩

/-- A shape whose parser is not derived has no plan. -/
theorem planned_underived {r : Resolver} {a : Shape} {handle : Handle} {g g1 : Grammar}
    (h : parserFor r a g = .ok handle g1) (hbody : ∀ c, handle.body ≠ .derived c) :
    ∃ stop, (Plannable.shape a).planned r g = .error stop g1 := by
  show ∃ stop, derivedPlan r a g = .error stop g1
  have hshow : ∃ stop,
      failShowing (α := Plan Parser) a (.type .notDerived) g1 = .error stop g1 := by
    unfold failShowing
    rw [bind_of_ok (get_ok g1)]
    cases g1.showShape a with
    | ok shown => exact ⟨_, rfl⟩
    | error stop => exact ⟨stop, rfl⟩
  unfold derivedPlan
  rw [bind_of_ok h]
  generalize handle.body = body at hbody
  cases body with
  | derived c => exact absurd rfl (hbody c)
  | _ => exact hshow

/-! ## The header -/

/-- **A file of factories opens with the header.** -/
theorem firstLine_text (f : FactoryFile) : firstLine f.text = fileHeader := by
  have hlines : ∃ rest, f.lines = fileHeader :: rest := ⟨_, rfl⟩
  obtain ⟨rest, hrest⟩ := hlines
  have htext : f.text.toList = fileHeader.toList ++ '\n' :: writtenLines rest := by
    unfold FactoryFile.text
    rw [hrest, toList_written (List.cons_ne_nil _ _), writtenLines_cons]
  have hplain : ∀ c ∈ fileHeader.toList, (!isLineEnd c) = true := by
    simp [fileHeader, isLineEnd]
  unfold firstLine
  rw [htext, List.takeWhile_append_of_pos hplain]
  simp [isLineEnd]

theorem isGenerated_text (f : FactoryFile) : isGenerated f.text = true :=
  beq_iff_eq.mpr (firstLine_text f)

/-! ## One call -/

namespace WriteCall

variable {r : Resolver} {w : WriteCall} {g g' : Grammar}

/-- A file that was not generated is refused, before anything is planned. -/
theorem perform_refused {text : String} (htext : g.files.get? w.file = some text)
    (hforeign : isGenerated text = false) :
    w.perform r g = .error (.fault (.value (.notGenerated w.file))) g := by
  unfold perform
  rw [bind_of_ok (get_ok g), htext]
  dsimp only
  rw [hforeign]
  rfl

/-- Every other file is written once its factories are there. -/
theorem perform_open (hopen : ∀ {text}, g.files.get? w.file = some text →
      isGenerated text = true) :
    w.perform r g = (do
      let rendered ← renderPlanned r w.items
      putFile w.file rendered.text
      pure rendered : Resolution FactoryFile) g := by
  unfold perform
  rw [bind_of_ok (get_ok g)]
  cases htext : g.files.get? w.file with
  | none => rfl
  | some text =>
    dsimp only
    rw [hopen htext]
    rfl

/-- A file is refused, or it is open to be written. -/
theorem refused_or_open (w : WriteCall) (g : Grammar) :
    (∃ text, g.files.get? w.file = some text ∧ isGenerated text = false) ∨
      ∀ {text}, g.files.get? w.file = some text → isGenerated text = true := by
  cases htext : g.files.get? w.file with
  | none => exact .inr fun h => nomatch h
  | some text =>
    cases hgenerated : isGenerated text with
    | false => exact .inl ⟨text, rfl, hgenerated⟩
    | true =>
      right
      rintro _ ⟨⟩
      exact hgenerated

/-- A call that answers was permitted, and puts its factories into its file. -/
theorem perform_eq_ok {rendered : FactoryFile} (h : w.perform r g = .ok rendered g') :
    w.Permitted g ∧ ∃ g1, renderPlanned r w.items g = .ok rendered g1 ∧
      g' = { g1 with files := g1.files.put w.file rendered.text } := by
  rcases w.refused_or_open g with ⟨text, htext, hforeign⟩ | hopen
  · rw [perform_refused htext hforeign] at h
    cases h
  · rw [perform_open hopen] at h
    obtain ⟨rendered', g1, hrendered, h⟩ := bind_eq_ok_iff.mp h
    obtain ⟨⟨⟩, g2, hput, h⟩ := bind_eq_ok_iff.mp h
    cases h
    unfold putFile at hput
    split at hput
    · obtain ⟨_, _, hfail, -⟩ := bind_eq_ok_iff.mp hput
      cases hfail
    · rename_i hplace
      cases hput
      exact ⟨⟨by simpa using hplace, hopen⟩, g1, hrendered, rfl⟩

/-- A permitted call answers as soon as all its items have plans. -/
theorem perform_of_permitted (hpermitted : w.Permitted g) {plans : List (Plan Parser)}
    {g1 : Grammar} (hplans : plannedAll r w.items g = .ok plans g1) :
    w.perform r g = .ok (factoryFile g1 plans)
      { g1 with files := g1.files.put w.file (factoryFile g1 plans).text } := by
  rw [perform_open hpermitted.2, bind_of_ok (renderPlanned_eq_ok_iff.mpr ⟨plans, hplans, rfl⟩)]
  unfold putFile
  rw [hpermitted.1]
  rfl

/-- **A call that stops leaves every file as it was.** -/
theorem perform_stopped (hr : r.Obeys Grows) {stop : Stop} (h : w.perform r g = .error stop g') :
    g'.files = g.files := by
  rcases w.refused_or_open g with ⟨text, htext, hforeign⟩ | hopen
  · rw [perform_refused htext hforeign] at h
    cases h
    rfl
  · have hrender := renderPlanned_grows hr w.items g
    rw [perform_open hopen] at h
    rcases bind_eq_error h with hstopped | ⟨rendered, g1, hrendered, h⟩
    · rw [stateAfter_of_error hstopped] at hrender
      exact hrender.files
    · rw [stateAfter_of_ok hrendered] at hrender
      have hput : g' = g1 := by
        unfold putFile at h
        split at h
        · rcases bind_eq_error h with h | ⟨_, _, hfail, -⟩
          · rcases bind_eq_error h with h | ⟨_, _, hfail, -⟩
            · cases h
              rfl
            · cases hfail
          · obtain ⟨_, _, hfail, -⟩ := bind_eq_ok_iff.mp hfail
            cases hfail
        · cases h
      rw [hput]
      exact hrender.files

/-- How a call goes in a state. -/
structure Atomic (r : Resolver) (w : WriteCall) (g : Grammar) : Prop where
  /-- A file that was not generated is refused at once. -/
  refused {text : String} : g.files.get? w.file = some text →
    isGenerated text = false →
      w.perform r g = .error (.fault (.value (.notGenerated w.file))) g
  /-- An item without a plan stops the call, at any place of the list. -/
  unplanned {before after : List Plannable} {x : Plannable} {plans : List (Plan Parser)}
    {stop : Stop} {g1 g2 : Grammar} : w.items = before ++ x :: after →
    plannedAll r before g = .ok plans g1 → x.planned r g1 = .error stop g2 →
      ∃ stop' g', w.perform r g = .error stop' g'
  /-- So does a shape whose parser is not derived. -/
  underived {before after : List Plannable} {a : Shape} {plans : List (Plan Parser)}
    {handle : Handle} {g1 g2 : Grammar} : w.items = before ++ .shape a :: after →
    plannedAll r before g = .ok plans g1 → parserFor r a g1 = .ok handle g2 →
    (∀ c, handle.body ≠ .derived c) → ∃ stop g', w.perform r g = .error stop g'
  /-- Nothing else stops it, but a file that has no directory. -/
  answers : (∃ rendered g', w.perform r g = .ok rendered g') ↔
    w.Permitted g ∧ ∃ plans g1, plannedAll r w.items g = .ok plans g1
  /-- If it stops, every file is as it was. -/
  stopped {stop : Stop} {g' : Grammar} : w.perform r g = .error stop g' → g'.files = g.files
  /-- If it answers, its own file holds the factories of its items, under the header, and every
  other file is as it was. -/
  written {rendered : FactoryFile} {g' : Grammar} : w.perform r g = .ok rendered g' →
    (∃ g1, renderPlanned r w.items g = .ok rendered g1) ∧
    g'.files.get? w.file = some rendered.text ∧
    firstLine rendered.text = fileHeader ∧
    ∀ {other}, other ≠ w.file → g'.files.get? other = g.files.get? other

/-- A call that does not answer stops. -/
theorem perform_stops {w : WriteCall} {g : Grammar}
    (h : ¬ ∃ rendered g', w.perform r g = .ok rendered g') :
    ∃ stop g', w.perform r g = .error stop g' := by
  cases hperform : w.perform r g with
  | ok rendered g' => exact absurd ⟨rendered, g', hperform⟩ h
  | error stop g' => exact ⟨stop, g', rfl⟩

theorem answers_iff (r : Resolver) (w : WriteCall) (g : Grammar) :
    (∃ rendered g', w.perform r g = .ok rendered g') ↔
      w.Permitted g ∧ ∃ plans g1, plannedAll r w.items g = .ok plans g1 := by
  constructor
  · rintro ⟨rendered, g', h⟩
    obtain ⟨hpermitted, g1, hrendered, -⟩ := perform_eq_ok h
    obtain ⟨plans, hplans, -⟩ := renderPlanned_eq_ok_iff.mp hrendered
    exact ⟨hpermitted, plans, g1, hplans⟩
  · rintro ⟨hpermitted, plans, g1, hplans⟩
    exact ⟨_, _, perform_of_permitted hpermitted hplans⟩

theorem perform_unplanned {before after : List Plannable} {x : Plannable}
    {plans : List (Plan Parser)} {stop : Stop} {g1 g2 : Grammar}
    (hitems : w.items = before ++ x :: after) (hbefore : plannedAll r before g = .ok plans g1)
    (hx : x.planned r g1 = .error stop g2) : ∃ stop' g', w.perform r g = .error stop' g' := by
  refine perform_stops fun hanswers => ?_
  obtain ⟨-, plans', g', hplans⟩ := (answers_iff r w g).mp hanswers
  rw [hitems, plannedAll_of_error hx hbefore] at hplans
  cases hplans

theorem perform_written (hr : r.Obeys Grows) {rendered : FactoryFile}
    (h : w.perform r g = .ok rendered g') :
    g'.files = g.files.put w.file rendered.text := by
  obtain ⟨-, g1, hrendered, rfl⟩ := perform_eq_ok h
  have hfiles := (ok_precedes (renderPlanned_grows hr w.items) hrendered).files
  show g1.files.put w.file rendered.text = _
  rw [hfiles]

/-- **Every call is all or nothing.** -/
theorem atomic (hr : r.Obeys Grows) (w : WriteCall) (g : Grammar) : w.Atomic r g where
  refused := perform_refused
  unplanned := perform_unplanned
  underived hitems hbefore hparser hbody := by
    obtain ⟨stop, hx⟩ := planned_underived hparser hbody
    exact perform_unplanned hitems hbefore hx
  answers := answers_iff r w g
  stopped := perform_stopped hr
  written {rendered g'} h := by
    obtain ⟨-, g1, hrendered, -⟩ := perform_eq_ok h
    rw [perform_written hr h]
    exact ⟨⟨g1, hrendered⟩, Table.get?_put_self _ _ _, firstLine_text rendered,
      fun hother => Table.get?_put_of_ne _ _ hother.symm⟩

end WriteCall

/-! ## Runs of calls -/

section Runs

variable {r : Resolver} (hr : r.Obeys Grows)
include hr

/-- What one call does to a file: nothing, unless it is its own, which is generated afterwards and
was not written by hand before. -/
theorem file_after_call (w : WriteCall) (g : Grammar) (file : String) :
    (stateAfter (w.perform r) g).files.get? file = g.files.get? file ∨
      w.Permitted g ∧ w.file = file ∧
        ∃ rendered : FactoryFile, (stateAfter (w.perform r) g).files.get? file =
          some rendered.text := by
  cases h : w.perform r g with
  | error stop g' =>
    rw [stateAfter_of_error h, w.perform_stopped hr h]
    exact .inl rfl
  | ok rendered g' =>
    rw [stateAfter_of_ok h, WriteCall.perform_written hr h]
    by_cases hfile : w.file = file
    · subst hfile
      exact .inr ⟨(WriteCall.perform_eq_ok h).1, rfl, rendered, Table.get?_put_self _ _ _⟩
    · exact .inl (Table.get?_put_of_ne _ _ hfile)

/-- **A file that was not generated outlasts all calls.** -/
theorem file_after_calls {file : String} {text : String}
    (hforeign : isGenerated text = false) : ∀ (calls : List WriteCall) {g : Grammar},
      g.files.get? file = some text → (afterCalls r calls g).files.get? file = some text
  | [], _, h => h
  | w :: calls, g, h => by
    refine file_after_calls hforeign calls ?_
    rcases file_after_call hr w g file with hsame | ⟨hpermitted, rfl, -⟩
    · rw [hsame]
      exact h
    · rw [hpermitted.2 h] at hforeign
      cases hforeign

/-- A file that was generated stays so. -/
theorem generated_after_calls {file : String} : ∀ (calls : List WriteCall) {g : Grammar},
    (∃ f, g.files.get? file = some (FactoryFile.text f)) →
      ∃ f, (afterCalls r calls g).files.get? file = some (FactoryFile.text f)
  | [], _, h => h
  | w :: calls, g, h => by
    refine generated_after_calls calls ?_
    rcases file_after_call hr w g file with hsame | ⟨-, -, f, hf⟩
    · rw [hsame]
      exact h
    · exact ⟨f, hf⟩

/-- A file that was written can be written again, whatever was done in between. -/
theorem permitted_after_calls {w : WriteCall} {rendered : FactoryFile} {g g' : Grammar}
    (h : w.perform r g = .ok rendered g') (calls : List WriteCall) (items : List Plannable) :
    (WriteCall.mk w.file items).Permitted (afterCalls r calls g') := by
  have hwritten : ∃ f, g'.files.get? w.file = some (FactoryFile.text f) := by
    rw [WriteCall.perform_written hr h]
    exact ⟨rendered, Table.get?_put_self _ _ _⟩
  obtain ⟨f, hf⟩ := generated_after_calls hr calls hwritten
  refine ⟨(WriteCall.perform_eq_ok h).1.1, fun htext => ?_⟩
  cases hf.symm.trans htext
  exact isGenerated_text f

end Runs

/-- **To write is all or nothing, and protects what was written by hand.** Each call of a sequence
either stops, with every file as it was, or changes its own file alone, to the factories of its
items under the header. A file that was written so can be written again after any further calls. A
file without the header stays as it is, through all calls. -/
theorem writes_all_or_nothing (k : Nat) (g : Grammar) (calls : List WriteCall) :
    (∀ w : WriteCall, w.Atomic (resolver k) (afterCalls (resolver k) calls g)) ∧
    (∀ {file text}, g.files.get? file = some text →
      firstLine text ≠ fileHeader →
        (afterCalls (resolver k) calls g).files.get? file = some text) ∧
    (∀ {w : WriteCall} {rendered g'}, w.perform (resolver k) g = .ok rendered g' →
      ∀ {items plans g1},
        plannedAll (resolver k) items (afterCalls (resolver k) calls g') = .ok plans g1 →
          ∃ rewritten g2, (WriteCall.mk w.file items).perform (resolver k)
            (afterCalls (resolver k) calls g') = .ok rewritten g2) ∧
    ∀ file shapes, (WriteCall.mk file (shapes.map .shape)).perform (resolver k) =
      writeFactories (resolver k) file shapes := by
  have hr := resolver_grows k
  refine ⟨fun w => WriteCall.atomic hr w _, fun htext hheader => ?_,
    fun {w rendered g'} h items plans g1 hplans => ?_, perform_shapes (resolver k)⟩
  · exact file_after_calls hr (by simpa [isGenerated] using hheader) calls htext
  · exact ⟨_, _, WriteCall.perform_of_permitted (permitted_after_calls hr h calls items) hplans⟩

/-- Two letters, one after the other. -/
def pairDeclaration (left right : Char) : Declaration :=
  .cls (.mk "Pair" false
    [⟨"left", .character (.text (String.singleton left)), .field, none⟩,
      ⟨"right", .character (.text (String.singleton right)), .field, none⟩] none none false []) true

/-- The grammar in which two letters are a pair. -/
def pairGrammar (left right : Char) : Grammar :=
  stateAfter (declare (resolver 0) 1 (pairDeclaration left right)) (.empty none)

/-- The plan of a pair. -/
def pairPlan (left right : Char) : Plan Parser where
  target := .declared 0
  kind := .product
  attempts := [⟨"Pair", .declared 0, [.character left, .character right], false⟩]
  errorKind := some .element

/-- The pairs of two letters, beside a file that somebody wrote. -/
def notedPairs : Grammar :=
  { pairGrammar 'a' 'b' with files := [("notes.py", "x = 1\n")] }

/-- A call that would overwrite the file, and one with a shape that has no plan behind one that
has. -/
def pairCalls : List WriteCall :=
  [⟨"notes.py", [.shape (.cls (.declared 0))]⟩,
    ⟨"pairs.py", [.shape (.cls (.declared 0)), .shape (.cls (.builtin .text))]⟩]

/-- Neither call touches the file, and what is written before them can be written again. -/
theorem writes_all_or_nothing_pairs :
    (afterCalls (resolver 1) pairCalls notedPairs).files.get? "notes.py" =
      some "x = 1\n" ∧
    ∃ rendered g' rewritten g2,
      (WriteCall.mk "pairs.py" [.shape (.cls (.declared 0))]).perform (resolver 1) notedPairs =
        .ok rendered g' ∧
      (WriteCall.mk "pairs.py" [.plan (pairPlan 'a' 'b')]).perform (resolver 1)
        (afterCalls (resolver 1) pairCalls g') = .ok rewritten g2 := by
  obtain ⟨-, hkept, hagain, -⟩ := writes_all_or_nothing 1 notedPairs pairCalls
  have hnew : (WriteCall.mk "pairs.py" [.shape (.cls (.declared 0))]).Permitted notedPairs :=
    ⟨by simp [inMissingDirectory], fun h => nomatch h⟩
  have hplans : plannedAll (resolver 1) [.shape (.cls (.declared 0))] notedPairs =
      .ok [pairPlan 'a' 'b']
        (stateAfter (plannedAll (resolver 1) [.shape (.cls (.declared 0))]) notedPairs) := rfl
  have hwrite := WriteCall.perform_of_permitted hnew hplans
  have hplanned : ∀ g, plannedAll (resolver 1) [.plan (pairPlan 'a' 'b')] g =
      .ok [pairPlan 'a' 'b'] g := fun _ => rfl
  obtain ⟨rewritten, g2, hrewrite⟩ := hagain hwrite (hplanned _)
  exact ⟨hkept rfl (by decide +kernel), _, _, rewritten, g2, hwrite, hrewrite⟩

end ShapeGrammar
