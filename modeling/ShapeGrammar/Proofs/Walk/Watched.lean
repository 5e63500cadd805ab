import ShapeGrammar.Proofs.Grammar.Faults
import ShapeGrammar.Proofs.Walk.Owed
import ShapeGrammar.Proofs.Walk.Raised

/-!
# Computations that are watched

A watch says what a walk must not come upon, and which stops are bad: where a walk keeps clear of
the one, resolution has to keep clear of the other. A charged watch also keeps an account. A
computation may then spend no more than it was given; what it is about to spend and what the grammar
still owes stay below a limit; and as many questions may be followed as can be nested in one
another. For everything that counts as being found out is one of finitely many things, and so are
the aliases whose values are evaluated, and in between there are no more questions than aliases.

A frame is what stays the same while one question is answered. The rules for the judgment
`Frame.Ends` are those for single steps and for sequences.

Headlines: `Watch`, `Frame`, `Frame.depth`, `Frame.Ends`, `Frame.ends_bind`.
-/

namespace ShapeGrammar

open Resolution

/-- What a walk must not come upon while the values of some aliases are evaluated, and what then
does not happen. -/
structure Watch where
  goal : List AliasId → Nat → Inquiry → Grammar → Prop
  bad : Stop → Grammar → Prop
  /-- Whether an account is kept. -/
  charged : Prop
  plain : ∀ {f g}, f.Plain → ¬ bad (.fault f) g
  outOfFuel : ∀ {g}, bad .outOfFuel g → charged
  shown : ∀ {evaluating n x a e} {g g' : Grammar}, x.Refuses n g a g' → g'.showShape a = .error e →
    bad e g' → goal evaluating n x g
  inField : ∀ {field owner location cause g},
    bad (.fault (.schema (.inField field owner location cause))) g →
    bad (.fault (.schema cause)) g
  unmarked : ∀ {e} {g : Grammar} {marks}, bad e { g with pending := marks } → bad e g
  marked : ∀ {evaluating n x f g}, Inquiry.Marked n x g → bad (.fault f) g → goal evaluating n x g
  /-- An account cannot pay for a value that is being evaluated. -/
  evaluated : ∀ {evaluating n a g}, charged → a ∈ evaluating →
    Inquiry.Evaluates a n (.value a) g → goal evaluating n (.value a) g
  entered : ∀ {evaluating n a} {g : Grammar}, Inquiry.Evaluates a n (.value a) g →
    ComesUpon (goal (a :: evaluating)) n [.writtenShape (g.aliasInfo a).expression] g →
      ComesUpon (goal evaluating) n [.value a] g

namespace Watch

variable (W : Watch) {α β : Type} {g : Grammar}

/-- What is harmless where a computation stops is harmless where it is passed on to. -/
theorem passes : Passes fun e g => ¬ W.bad e g where
  inField _ _ _ h hbad := h (W.inField hbad)
  unmarked h hbad := h (W.unmarked hbad)

/-- If the computation stops, then at nothing bad. -/
def Safe (x : Resolution α) (g : Grammar) : Prop :=
  ∀ e g', x g = .error e g' → ¬ W.bad e g'

variable {W}

theorem Safe.bind {x : Resolution α} {f : α → Resolution β} (hx : W.Safe x g)
    (hf : ∀ {a g'}, x g = .ok a g' → W.Safe (f a) g') : W.Safe (x >>= f) g := by
  intro e g2 h
  rcases bind_eq_error h with hstop | ⟨a, g1, ha, hstop⟩
  · exact hx e g2 hstop
  · exact hf ha e g2 hstop

theorem Safe.guarded {x : Resolution α} {key : Pending} {fault : List Pending → Fault}
    (hkey : key ∉ g.pending) (hx : W.Safe x { g with pending := key :: g.pending }) :
    W.Safe (guarded key fault x) g := by
  intro e g2 h
  unfold Resolution.guarded at h
  simp only [List.contains_iff_mem, hkey, if_false] at h
  split at h
  · cases h
  · rename_i e1 g1 hxg
    cases h
    exact fun hbad => hx _ _ hxg (W.unmarked hbad)

theorem safe_fail {f : Fault} (hf : f.Plain) : W.Safe (fail f : Resolution α) g := by
  intro e g' h
  cases h
  exact W.plain hf

theorem safe_get {f : Grammar → Resolution β} (h : W.Safe (f g) g) : W.Safe (get >>= f) g :=
  h

theorem safe_lift {x : Except Fault α} (hx : StopsAt Fault.Plain x) : W.Safe (lift x) g := by
  cases x with
  | ok a =>
    intro e g' h
    cases h
  | error f => exact safe_fail (hx f rfl)

theorem safe_modify {f : Grammar → Grammar} : W.Safe (modify f : Resolution Unit) g := by
  intro e g' h
  cases h

theorem safe_pure {a : α} : W.Safe (pure a : Resolution α) g := by
  intro e g' h
  cases h

theorem Safe.remember {x : Resolution α} {f : Finding α} (hx : f.known? g = none → W.Safe x g) :
    W.Safe (remember f x) g := by
  intro e g' h
  obtain ⟨hunknown, hstop⟩ := error_of_remember h
  exact hx hunknown e g' hstop

end Watch

/-- What stays the same while a question is answered. -/
structure Frame where
  watch : Watch
  /-- What a name or a schema costs at most. -/
  price : Nat
  /-- What an alias costs at most. -/
  aliasPrice : Nat
  /-- What may be spent altogether. -/
  limit : Nat
  classCount : Nat
  aliasCount : Nat
  /-- How many questions may be followed one inside the other. -/
  fuel : Nat
  /-- The aliases whose values are being evaluated. -/
  evaluating : List AliasId
  /-- The aliases that are being expanded. -/
  expanding : List AliasId
  pending : List Pending

/-- The classes among what is being found out. -/
def markedClasses (marks : List Pending) : List ClassId :=
  marks.filterMap fun
    | .cls c => some c
    | .box _ => none

/-- The delayed parsers among what is being found out. -/
def markedBoxes (marks : List Pending) : List BoxId :=
  marks.filterMap fun
    | .box b => some b
    | .cls _ => none

namespace Frame

variable (F : Frame) {g g' : Grammar}

/-- How many things can still be nested that count as being found out or evaluated. -/
def room : Nat :=
  remaining F.classCount (markedClasses F.pending) + remaining F.limit (markedBoxes F.pending) +
    remaining F.aliasCount F.evaluating

/-- How many questions can be nested in one another from here. -/
def depth : Nat :=
  F.room * (F.aliasCount + 2) + remaining F.aliasCount F.expanding + 1

/-- Where an account is kept, so many questions may be followed. -/
def Deep : Prop :=
  F.watch.charged → F.depth ≤ F.fuel

/-- What the frame says of a grammar. -/
structure Sound (g : Grammar) : Prop where
  priced : g.Priced F.price
  expression : ∀ a, (g.aliasInfo a).expression.cost F.price ≤ F.aliasPrice
  value : F.watch.charged → ∀ {a v}, (g.aliasInfo a).value = some v → v.cost ≤ F.aliasPrice
  classCount : g.classes.size = F.classCount
  aliasCount : g.aliases.size = F.aliasCount
  pending : g.pending = F.pending

/-- What the grammar owes. -/
def owed (g : Grammar) : Nat :=
  g.owed F.price F.aliasPrice F.evaluating F.expanding

/-- So much may be spent. -/
def Affords (g : Grammar) (k : Nat) : Prop :=
  F.watch.charged → F.owed g + k ≤ F.limit

/-- A walk keeps clear of what it must not come upon. -/
def Calm (xs : List Inquiry) (g : Grammar) : Prop :=
  ¬ ComesUpon (F.watch.goal F.evaluating) F.fuel xs g

/-- A computation that is given `k` spends no more than that, what its answer costs included, and
stops at nothing bad. -/
structure Ends {α : Type} (k : Nat) (rest : α → Nat) (x : Resolution α) (g : Grammar) : Prop where
  answer : ∀ {a g'}, x g = .ok a g' → g.Precedes g' ∧ F.Sound g' ∧
    (F.watch.charged → F.owed g' + rest a ≤ F.owed g + k ∧ rest a ≤ k)
  safe : F.watch.Safe x g

variable {F} {k k' : Nat} {α β : Type} {rest : α → Nat} {rest' : β → Nat}

theorem Calm.parts {x : Inquiry} {xs : List Inquiry} (h : F.Calm (x :: xs) g) : F.Calm x.parts g :=
  fun hc => h (.into .parts hc)

theorem Calm.past {x : Inquiry} {xs : List Inquiry} (h : F.Calm (x :: xs) g)
    (hx : x.run (resolver F.fuel) g = .ok () g') : F.Calm xs g' :=
  fun hc => h (.past hx hc)

theorem Calm.leads {x : Inquiry} {xs ys : List Inquiry} (h : F.Calm (x :: xs) g)
    (hx : x.Leads F.fuel g F.fuel ys g') : F.Calm ys g' :=
  fun hc => h (.into hx hc)

/-- What a refusal shows ends, or else in nothing bad. -/
theorem Calm.shown {x : Inquiry} {xs : List Inquiry} {a : Shape} {e : Stop}
    (h : F.Calm (x :: xs) g) (hx : x.Refuses F.fuel g a g') (he : g'.showShape a = .error e) :
    ¬ F.watch.bad e g' :=
  fun hbad => h (.here (F.watch.shown hx he hbad))

theorem Affords.mono (h : F.Affords g k) (hk : k' ≤ k) : F.Affords g k' :=
  fun hcharged => Nat.le_trans (Nat.add_le_add_left hk _) (h hcharged)

/-- To find more out in a way that keeps to the frame. -/
theorem Sound.later (hg : F.Sound g) (hlater : g.Precedes g') (haliases : g'.aliases = g.aliases) :
    F.Sound g' where
  priced := hg.priced.mono hlater.sameDeclarations
  expression a := by
    unfold Grammar.aliasInfo
    rw [haliases]
    exact hg.expression a
  value hcharged {a v} hv := by
    unfold Grammar.aliasInfo at hv
    rw [haliases] at hv
    exact hg.value hcharged hv
  classCount := hlater.classCount.trans hg.classCount
  aliasCount := (congrArg Array.size haliases).trans hg.aliasCount
  pending := hlater.pending.trans hg.pending

/-! ## Single steps -/

theorem Sound.pure (hg : F.Sound g) {a : α} (ha : rest a ≤ k) :
    F.Ends k rest (Pure.pure a : Resolution α) g where
  answer h := by
    cases h
    exact ⟨.refl g, hg, fun _ => ⟨Nat.add_le_add_left ha _, ha⟩⟩
  safe _ _ h := by cases h

/-- To stop at nothing bad. -/
theorem ends_of_error {x : Resolution α} {e : Stop} (h : x g = .error e g')
    (he : ¬ F.watch.bad e g') : F.Ends k rest x g where
  answer hx := by
    rw [h] at hx
    cases hx
  safe _ _ hx := by
    rw [h] at hx
    cases hx
    exact he

theorem ends_fail {f : Fault} (hf : f.Plain) : F.Ends k rest (fail f : Resolution α) g :=
  ends_of_error rfl (F.watch.plain hf)

theorem Sound.lift (hg : F.Sound g) {x : Except Fault α} (hx : StopsAt Fault.Plain x)
    (hok : ∀ {a}, x = .ok a → rest a ≤ k) : F.Ends k rest (lift x) g := by
  cases x with
  | ok a => exact hg.pure (hok rfl)
  | error f => exact ends_fail (hx f rfl)

/-- To stop at nothing bad for certain. -/
theorem ends_of_raises {x : Resolution α} (h : Raises (fun e g => ¬ F.watch.bad e g) x g) :
    F.Ends k rest x g := by
  obtain ⟨e, g', hx, he⟩ := h
  exact ends_of_error hx he

/-- A refusal ends if what it shows does. -/
theorem ends_failShowing {a : Shape} {f : Fault} (hf : f.Plain)
    (hshown : ∀ {e}, g.showShape a = .error e → ¬ F.watch.bad e g) :
    F.Ends k rest (failShowing a f : Resolution α) g := by
  refine ends_of_raises (Raises.after (get_ok g) ?_)
  cases hshow : g.showShape a with
  | ok text => exact ⟨.fault f, g, rfl, F.watch.plain hf⟩
  | error e => exact ⟨e, g, rfl, hshown hshow⟩

theorem Sound.newHandle (hg : F.Sound g) {body : Parser} {rest : Handle → Nat}
    (hrest : ∀ h : Handle, rest h ≤ k) : F.Ends k rest (Resolution.newHandle body) g where
  answer h := by
    cases h
    refine ⟨.made g _, hg.later (.made g _) rfl, fun _ => ⟨?_, hrest _⟩⟩
    exact Nat.add_le_add (Nat.le_of_eq (Grammar.owed_of_eq rfl rfl rfl rfl)) (hrest _)
  safe _ _ h := by cases h

theorem Sound.made (hg : F.Sound g) (body : Parser) : F.Ends k Binding.cost (made body) g where
  answer h := by
    cases h
    exact ⟨.made g _, hg.later (.made g _) rfl, fun _ =>
      ⟨Nat.add_le_add (Nat.le_of_eq (Grammar.owed_of_eq rfl rfl rfl rfl)) (Nat.zero_le _),
        Nat.zero_le _⟩⟩
  safe _ _ h := by cases h

/-- A new delayed parser is paid for with what it costs to open it. -/
theorem Sound.newBox (hg : F.Sound g) (body : Delayed) :
    F.Ends (body.cost F.price + 1) (fun _ => 0) (Resolution.newBox body) g where
  answer h := by
    cases h
    refine ⟨.pushBox g _, hg.later (.pushBox g _) rfl, fun _ => ⟨?_, Nat.zero_le _⟩⟩
    exact Grammar.owed_push_le fun _ => Nat.le_refl _
  safe _ _ h := by cases h

theorem Sound.report (hg : F.Sound g) (x : Grammar → Report) :
    F.Ends k (fun _ => 0) (modify fun g : Grammar => g.report (x g)) g where
  answer {a g1} h := by
    cases h
    show g.Precedes (g.report (x g)) ∧ F.Sound (g.report (x g)) ∧ _
    have hlater : g.Precedes (g.report (x g)) := .report g (x g)
    obtain ⟨reports, hreports⟩ := g.report_eq_withReports (x g)
    have howed : F.owed (g.report (x g)) = F.owed g := by
      rw [hreports]
      exact Grammar.owed_of_eq rfl rfl rfl rfl
    refine ⟨hlater, hg.later hlater (by rw [hreports]; rfl), fun _ => ⟨?_, Nat.zero_le _⟩⟩
    exact Nat.le_trans (Nat.le_of_eq howed) (Nat.le_add_right _ k)
  safe _ _ h := by cases h

/-! ## Sequences -/

/-- What comes after a part may spend as much as the part has left. -/
theorem ends_bind {total : Nat} {x : Resolution α} {f : α → Resolution β} (hx : F.Ends k rest x g)
    (hf : ∀ {a g'}, x g = .ok a g' → F.Sound g' →
      (F.watch.charged → F.owed g' + rest a ≤ F.owed g + k ∧ rest a ≤ k) →
      ∃ left, F.Ends left rest' (f a) g' ∧
        (F.watch.charged → F.owed g' + left ≤ F.owed g + total ∧ left ≤ total)) :
    F.Ends total rest' (x >>= f) g where
  answer {b g2} h := by
    obtain ⟨a, g1, ha, hb⟩ := bind_eq_ok_iff.mp h
    obtain ⟨hlater, hg1, hspent⟩ := hx.answer ha
    obtain ⟨left, hleft, hpaid⟩ := hf ha hg1 hspent
    obtain ⟨hlater', hg2, hspent'⟩ := hleft.answer hb
    refine ⟨hlater.trans hlater', hg2, fun hcharged => ?_⟩
    have := hpaid hcharged
    have := hspent' hcharged
    omega
  safe := hx.safe.bind fun ha => by
    obtain ⟨-, hg1, hspent⟩ := hx.answer ha
    obtain ⟨left, hleft, -⟩ := hf ha hg1 hspent
    exact hleft.safe

/-- What comes after a part may spend what the answer costs and what was kept for it. -/
theorem Ends.bind {x : Resolution α} {f : α → Resolution β} (hx : F.Ends k rest x g)
    (hafford : F.Affords g (k + k'))
    (hf : ∀ {a g'}, x g = .ok a g' → F.Sound g' → F.Affords g' (rest a + k') →
      F.Ends (rest a + k') rest' (f a) g') : F.Ends (k + k') rest' (x >>= f) g := by
  refine ends_bind hx fun {a g'} ha hg' hspent => ⟨rest a + k', hf ha hg' ?_, ?_⟩
  · intro hcharged
    have := hspent hcharged
    have := hafford hcharged
    omega
  · intro hcharged
    have := hspent hcharged
    omega

/-- Where nothing was kept, it may spend what the answer costs. -/
theorem Ends.spending {x : Resolution α} {f : α → Resolution β} (hx : F.Ends k rest x g)
    (hafford : F.Affords g k)
    (hf : ∀ {a g'}, x g = .ok a g' → F.Sound g' → F.Affords g' (rest a) →
      F.Ends (rest a) rest' (f a) g') : F.Ends k rest' (x >>= f) g :=
  show F.Ends (k + 0) rest' (x >>= f) g from hx.bind hafford hf

/-- It may spend what was kept, whatever the answer costs. -/
theorem Ends.after {x : Resolution α} {f : α → Resolution β} (hx : F.Ends k rest x g)
    (hafford : F.Affords g (k + k'))
    (hf : ∀ {a g'}, x g = .ok a g' → F.Sound g' → F.Affords g' k' → F.Ends k' rest' (f a) g') :
    F.Ends (k + k') rest' (x >>= f) g := by
  refine ends_bind hx fun {a g'} ha hg' hspent => ⟨k', hf ha hg' ?_, ?_⟩
  · intro hcharged
    have := hspent hcharged
    have := hafford hcharged
    omega
  · intro hcharged
    have := hspent hcharged
    omega

/-- A part that spends nothing leaves everything. -/
theorem Ends.first {x : Resolution α} {f : α → Resolution β} (hx : F.Ends 0 rest x g)
    (hafford : F.Affords g k)
    (hf : ∀ {a g'}, x g = .ok a g' → F.Sound g' → F.Affords g' k → F.Ends k rest' (f a) g') :
    F.Ends k rest' (x >>= f) g := by
  have h : F.Ends (0 + k) rest' (x >>= f) g :=
    hx.after (hafford.mono (Nat.le_of_eq (Nat.zero_add k))) hf
  rwa [Nat.zero_add] at h

/-- What is left to do costs nothing. -/
theorem Ends.finish {x : Resolution α} {f : α → Resolution β} (hx : F.Ends k rest x g)
    (hf : ∀ {a g'}, x g = .ok a g' → F.Sound g' → F.Ends 0 rest' (f a) g') :
    F.Ends k rest' (x >>= f) g := by
  refine ends_bind hx fun {a g'} ha hg' hspent => ⟨0, hf ha hg', ?_⟩
  intro hcharged
  have := hspent hcharged
  omega

/-- What is made of the answer costs no more than the answer. -/
theorem Ends.thenPure {x : Resolution α} {f : α → β} (hx : F.Ends k rest x g)
    (hf : ∀ a, rest' (f a) ≤ rest a) : F.Ends k rest' (x >>= fun a => Pure.pure (f a)) g :=
  ends_bind hx fun {a _} _ hg' hspent => ⟨rest a, hg'.pure (hf a), hspent⟩

theorem Ends.mono {rest₂ : α → Nat} {x : Resolution α} (hx : F.Ends k rest x g) (hk : k ≤ k')
    (hrest : ∀ a, rest₂ a ≤ rest a) : F.Ends k' rest₂ x g where
  answer {a g'} h := by
    obtain ⟨hlater, hg', hspent⟩ := hx.answer h
    refine ⟨hlater, hg', fun hcharged => ?_⟩
    have := hspent hcharged
    have := hrest a
    omega
  safe := hx.safe

/-- What is kept while something is found out is there afterwards. -/
theorem Ends.keeping {x : Resolution α} (hx : F.Ends k rest x g) (j : Nat) :
    F.Ends (j + k) (fun a => j + rest a) x g where
  answer {a g'} h := by
    obtain ⟨hlater, hg', hspent⟩ := hx.answer h
    refine ⟨hlater, hg', fun hcharged => ?_⟩
    have := hspent hcharged
    omega
  safe := hx.safe

theorem ends_get {f : Grammar → Resolution β} (h : F.Ends k rest' (f g) g) :
    F.Ends k rest' (get >>= f) g where
  answer hx := h.answer (get_bind_eq_ok_iff.mp hx)
  safe _ _ hx := h.safe _ _ hx

theorem Ends.map {x : Resolution α} {f : α → β} (hx : F.Ends k (fun a => rest' (f a)) x g) :
    F.Ends k rest' (f <$> x) g where
  answer h := by
    obtain ⟨a, ha, rfl⟩ := map_eq_ok_iff.mp h
    exact hx.answer ha
  safe _ _ h := hx.safe _ _ (map_eq_error h)

/-- A fault that is passed on with the field it arose in is no worse. -/
theorem Ends.mapSchemaFault {x : Resolution α} (hx : F.Ends k rest x g) {field : String}
    {owner : ClassRef} : F.Ends k rest (Resolution.mapSchemaFault
      (fun g cause => .inField field (g.className owner) (g.location owner) cause) x) g where
  answer h := hx.answer (mapSchemaFault_eq_ok h)
  safe e g' h := by
    unfold Resolution.mapSchemaFault at h
    split at h
    · rename_i cause g1 hxg
      cases h
      exact fun hbad => hx.safe _ _ hxg (F.watch.inField hbad)
    · exact hx.safe _ _ h

end Frame

end ShapeGrammar
