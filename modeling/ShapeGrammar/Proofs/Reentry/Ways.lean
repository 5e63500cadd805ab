import ShapeGrammar.Proofs.Factory.Exhaustion
import ShapeGrammar.Proofs.Reentry.Descent
import ShapeGrammar.Proofs.Walk.Ended

/-!
# Where a walk from one error kind to the next comes back

A walk of resolution that only asks for error kinds goes from a class to its schema, from there to
the parsers of the fields of a product, or of the last variant of a sum, and down from parser to
parser. Every step of it is one that a run may take too, from the same place. So if the walk comes
back to a class or a delayed parser that is being found out, there is a way down from what the class
or the delayed parser comes to, as far as it was found out on the walk, to itself again.

Headlines: `Station.Found`, `Way`, `Inquiry.Leads.turnsBack`, `Inquiry.KindComesBack.turns`.
-/

namespace ShapeGrammar

open Resolution

/-! ## What is found on a walk -/

/-- A walk of resolution: from what it starts, in which state of a grammar, and how many questions
it may follow one inside the other. -/
structure Walk where
  limit : Nat
  start : Inquiry
  grammar : Grammar

namespace Walk

variable {W : Walk} {n m : Nat} {x y : Inquiry} {g g' : Grammar}

/-- The walk sees a state of the grammar, with so many questions left. -/
def Sees (W : Walk) (n : Nat) (g : Grammar) : Prop :=
  ComesUpon (fun k _ h => k = n ∧ h = g) W.limit [W.start] W.grammar

/-- The walk gets to something: it comes upon whatever can be come upon from there. -/
structure At (W : Walk) (n : Nat) (x : Inquiry) (g : Grammar) : Prop where
  goes : ∀ {goal}, ComesUpon goal n [x] g → ComesUpon goal W.limit [W.start] W.grammar
  same : W.grammar.SameDeclarations g

theorem at_start (W : Walk) : W.At W.limit W.start W.grammar :=
  ⟨id, .refl _⟩

theorem At.into (h : W.At n x g) (hstep : x.Leads n g m [y] g') : W.At m y g' :=
  ⟨fun hc => h.goes (.into hstep hc), h.same.trans hstep.sameDeclarations⟩

theorem At.sees (h : W.At n x g) : W.Sees n g :=
  h.goes (.here ⟨rfl, rfl⟩)

end Walk

/-- The attempts at a schema, before it is known what they may fail with. -/
def Schema.attempts (r : Resolver) : Schema → Resolution (List (Attempt Parser))
  | .product target fields => do
    let parsers ← fieldParsers r target fields
    let name := (← get).shortName target
    pure [⟨name, target, parsers, false⟩]
  | .sum target variants => do
    reportHidden target (reachable variants).1 (reachable variants).2
    planVariants r (reachable variants).1

theorem Schema.grows_attempts {r : Resolver} (hr : r.Answers Grows) (s : Schema) :
    Grows (s.attempts r) := by
  cases s with
  | product target fields =>
    exact grows_law.bind (grows_law.fieldParsers hr target fields) fun _ g => .refl g
  | sum target variants =>
    exact grows_law.bind (grows_law.reportHidden target _ _) fun _ => grows_law.planVariants hr _

theorem Schema.attempts_ordered {r : Resolver} {s : Schema} {as : List (Attempt Parser)}
    {g g' : Grammar} (h : s.attempts r g = .ok as g') (hne : as ≠ []) : OrderedAttempts as := by
  cases s with
  | product target fields =>
    obtain ⟨ps, g1, -, h⟩ := bind_eq_ok_iff.mp h
    cases h
    rfl
  | sum target variants =>
    obtain ⟨_, g1, -, h⟩ := bind_eq_ok_iff.mp h
    refine planVariants_ordered ?_ (reachable_unitLast variants) h
    intro hnil
    rw [hnil] at h
    cases h
    exact hne rfl

/-- The plan that makes some attempts at a schema. What they may fail with is left open. -/
def Schema.planWith (s : Schema) (as : List (Attempt Parser)) : Plan Parser :=
  ⟨s.target, s.kind, as, none⟩

/-- In a state that the walk sees, these attempts are decided on. -/
def Schema.Attempted (W : Walk) (s : Schema) (as : List (Attempt Parser)) : Prop :=
  ∃ n g g', W.Sees n g ∧ s.attempts (resolver n) g = .ok as g'

/-- In a state that the walk sees, a class or a delayed parser comes to what is said of it. Of the
plan of a class, which is never finished if the class is refused, this is said of the attempts. -/
def Station.Found (W : Walk) : Station → Prop
  | .cls d plan => ∃ s as, W.grammar.schemaOf (.declared d) = .ok s ∧ s.Attempted W as ∧
    plan = s.planWith as
  | .box b p => ∃ n g g', W.Sees n g ∧ openBox (resolver n) b g = .ok p g'

/-- In a state that the walk sees, a part has no error kind. -/
def Obstacle.Found (W : Walk) : Obstacle → Prop
  | .part p => ∃ n g g', W.Sees n g ∧ errorKindOf (resolver n) p g = .ok none g'
  | _ => True

/-! ## Ways down -/

/-- The parser that is called for what is being found out. -/
def Pending.parser : Pending → Parser
  | .cls d => .derived d
  | .box b => .box b

/-- What a station comes to, as a parser. -/
def Station.body : Station → Parser
  | .cls _ plan => .planned plan
  | .box _ p => p

/-- A way leads down from a parser to what is called for a key, through stations that the walk found
and that are not among some others. -/
structure Way (W : Walk) (key : Pending) (others : List Pending) (ss : List Station)
    (os : List Obstacle) (p : Parser) : Prop where
  descends : Descends key.parser ss os p
  stations : ∀ s ∈ ss, s.Found W
  obstacles : ∀ o ∈ os, o.Found W
  nodup : (ss.map Station.key).Nodup
  fresh : ∀ s ∈ ss, s.key ∉ others

/-- A way leads from what was found for a key down to what is called for it. -/
def Loop (W : Walk) (key : Pending) : Prop :=
  ∃ (s : Station) (ss : List Station) (os : List Obstacle),
    s.key = key ∧ s.Found W ∧ Way W key [key] ss os s.body

/-- A way leads from a parser down to what is called for something that is being found out. -/
def WayBack (W : Walk) (key : Pending) (pending : List Pending) (p : Parser) : Prop :=
  key ∈ pending ∧ ∃ ss os, Way W key pending ss os p

namespace WayBack

variable {W : Walk} {key : Pending} {pending : List Pending} {p q : Parser}

/-- One step more, past obstacles. -/
theorem past (passed : List Obstacle) (h : WayBack W key pending p)
    (hfound : ∀ o ∈ passed, o.Found W)
    (hstep : ∀ {ss os}, Descends key.parser ss os p → Descends key.parser ss (passed ++ os) q) :
    WayBack W key pending q := by
  obtain ⟨hmem, ss, os, h⟩ := h
  exact ⟨hmem, ss, passed ++ os, hstep h.descends, h.stations,
    List.forall_mem_append.mpr ⟨hfound, h.obstacles⟩, h.nodup, h.fresh⟩

/-- One step more, past nothing. -/
theorem step (h : WayBack W key pending p)
    (hstep : ∀ {ss os}, Descends key.parser ss os p → Descends key.parser ss os q) :
    WayBack W key pending q :=
  h.past [] (fun _ ho => nomatch ho) hstep

/-- One step more, into a station. If that is what the way leads to, a loop is closed. -/
theorem station {s : Station} (h : WayBack W key (s.key :: pending) s.body)
    (hfound : s.Found W) (hfree : s.key ∉ pending)
    (hstep : ∀ {ss os}, Descends key.parser ss os s.body → Descends key.parser (s :: ss) os q) :
    Loop W key ∨ WayBack W key pending q := by
  obtain ⟨hmem, ss, os, h⟩ := h
  have hfresh := fun t ht => List.ne_and_not_mem_of_not_mem_cons (h.fresh t ht)
  rcases List.mem_cons.mp hmem with rfl | hmem
  · refine .inl ⟨s, ss, os, rfl, hfound, { h with fresh := fun t ht => ?_ }⟩
    exact List.not_mem_cons_of_ne_of_not_mem (hfresh t ht).1 List.not_mem_nil
  · refine .inr ⟨hmem, s :: ss, os, hstep h.descends, List.forall_mem_cons.mpr ⟨hfound, h.stations⟩,
      h.obstacles, ?_, List.forall_mem_cons.mpr ⟨hfree, fun t ht => (hfresh t ht).2⟩⟩
    rw [List.map_cons, List.nodup_cons]
    refine ⟨fun hs => ?_, h.nodup⟩
    obtain ⟨t, ht, heq⟩ := List.mem_map.mp hs
    exact (hfresh t ht).1 heq

end WayBack

/-! ## From step to step -/

namespace Inquiry

/-- What a run does where resolution looks into something for its error kind. -/
inductive RunsAs (W : Walk) : Inquiry → Parser → Prop
  | kind (p : Parser) : RunsAs W (.kind p) p
  | kinds (ps : List Parser) : RunsAs W (.kinds ps) (.seq ps)
  | plan (d : ClassId) : RunsAs W (.plan d) (.derived d)
  | schema {s as} (attempted : s.Attempted W as) : RunsAs W (.schema s) (.planned (s.planWith as))

/-- From what a run does there, a way leads down to something that is being found out. -/
def TurnsBack (W : Walk) (key : Pending) (x : Inquiry) (pending : List Pending) : Prop :=
  ∃ p, x.RunsAs W p ∧ WayBack W key pending p

/-- It is asked for what is being found out already. -/
def Asks (W : Walk) (key : Pending) (n : Nat) (x : Inquiry) (g : Grammar) : Prop :=
  x.Marked n g ∧ W.grammar.SameDeclarations g ∧
    match key with
    | .cls d => x = .plan d
    | .box b => x = .kind (.box b)

variable {W : Walk} {key : Pending} {n m : Nat} {x y : Inquiry} {g g' : Grammar}

/-- What is looked into first runs at the same place. -/
theorem TurnsBack.parts (hx : x.OfKind) (hy : y.OfKind) (hparts : [y] = x.parts)
    {pending : List Pending} (h : y.TurnsBack W key pending) : x.TurnsBack W key pending := by
  obtain ⟨p, hruns, h⟩ := h
  cases x with
  | kind q =>
    cases q with
    | seq ps =>
      cases hparts
      cases hruns
      exact ⟨_, .kind _, h⟩
    | many1 checked body =>
      cases hparts
      cases hruns
      exact ⟨_, .kind _, h.step .many1⟩
    | either left right =>
      cases hparts
      cases hruns
      exact ⟨_, .kind _, h.past [.arm left p] (by simp [Obstacle.Found]) .right⟩
    | map change body =>
      cases hparts
      cases hruns
      exact ⟨_, .kind _, h.step .map⟩
    | recorded name body =>
      cases hparts
      cases hruns
      exact ⟨_, .kind _, h.step .recorded⟩
    | derived d =>
      cases hparts
      cases hruns
      exact ⟨_, .kind _, h⟩
    | _ => cases hparts
  | kinds ps =>
    cases ps with
    | nil => cases hparts
    | cons q qs =>
      cases hparts
      cases hruns
      exact ⟨_, .kinds _, h.step .first⟩
  | plan d => cases hparts
  | schema s =>
    cases s with
    | product target fields =>
      -- the shapes of the fields are looked into as well, but not for an error kind
      obtain ⟨f, -, rfl⟩ := List.mem_map.mp (hparts ▸ List.mem_singleton_self y)
      exact hy.elim
    | sum target vs => cases hparts
  | _ => exact hx.elim

/-- From a schema it goes on to the fields of the last attempt, past those before. -/
theorem TurnsBack.attempts {s : Schema} {as : List (Attempt Parser)} {a : Attempt Parser}
    (hat : W.At n (.schema s) g) (h : s.attempts (resolver n) g = .ok as g')
    (hlast : as.getLast? = some a) (hback : (Inquiry.kinds a.parsers).TurnsBack W key g'.pending) :
    (Inquiry.schema s).TurnsBack W key g.pending := by
  have hlater := s.grows_attempts (resolver_grows n).toAnswers g
  rw [stateAfter_of_ok h] at hlater
  have hattempted : s.Attempted W as := ⟨n, g, g', hat.sees, h⟩
  have hordered : (s.planWith as).Ordered :=
    Schema.attempts_ordered h (List.ne_nil_of_mem (List.mem_of_getLast? hlast))
  obtain ⟨p, hruns, hback⟩ := hback
  refine ⟨_, .schema hattempted, ?_⟩
  cases hruns
  rw [hlater.pending] at hback
  refine hback.past _ (fun o ho => ?_) (.last hordered hlast)
  obtain ⟨b, -, rfl⟩ := List.mem_map.mp ho
  trivial

/-- **Where a walk leads from one error kind to the next, a run goes down**, unless a loop closes.
-/
theorem Leads.turnsBack (hstep : x.Leads n g m [y] g') (hx : x.OfKind) (hy : y.OfKind)
    (hat : W.At n x g) : W.At m y g' ∧
      ∀ {key}, y.TurnsBack W key g'.pending → Loop W key ∨ x.TurnsBack W key g.pending := by
  have hgrows := resolver_grows n
  refine ⟨hat.into hstep, ?_⟩
  generalize hys : [y] = ys at hstep
  cases hstep with
  | parts => exact fun h => .inr (h.parts hx hy hys)
  | @later _ p ps _ _ hnone =>
    cases hys
    have hlater := grows_law.errorKindOf hgrows.toAnswers p g
    rw [stateAfter_of_ok hnone] at hlater
    rintro _ ⟨q, hruns, h⟩
    refine .inr ⟨_, .kinds _, ?_⟩
    cases hruns
    rw [hlater.pending] at h
    refine h.past [.part p] (fun o ho => ?_) .later
    rw [List.mem_singleton.mp ho]
    exact ⟨n, g, g', hat.sees, hnone⟩
  | product hfields =>
    cases hys
    exact fun h => .inr (TurnsBack.attempts hat (bind_of_ok hfields) rfl h)
  | @variants _ target vs =>
    obtain ⟨f, -, rfl⟩ := List.mem_map.mp (hys ▸ List.mem_singleton_self y)
    exact hy.elim
  | last hhidden has _ hlast =>
    cases hys
    exact fun h => .inr (TurnsBack.attempts hat ((bind_of_ok hhidden).trans has) hlast h)
  | @cls _ d s _ _ _ hfree hschema =>
    cases hys
    rintro _ ⟨q, hruns, h⟩
    cases hruns with
    | @schema _ as hattempted =>
      have hfound : (Station.cls d (s.planWith as)).Found W :=
        ⟨s, as, by rw [← hat.same.schemaOf_eq, hschema], hattempted, rfl⟩
      have hback := WayBack.station (s := .cls d (s.planWith as)) h hfound hfree .cls
      exact hback.imp id fun h => ⟨_, .plan d, h⟩
  | opened =>
    cases hys
    exact hy.elim
  | @box _ b p _ _ hunknown hfree hopen =>
    cases hys
    have hlater := (resolver_grows (m + 1)).boxParser b { g with pending := .box b :: g.pending }
    rw [show (resolver (m + 1)).boxParser b = openBox (resolver m) b from rfl,
      stateAfter_of_ok hopen] at hlater
    rintro _ ⟨q, hruns, h⟩
    cases hruns
    rw [hlater.pending] at h
    -- on the same walk the delayed parser is opened, which sees the state with the mark
    have hopening : W.Sees m { g with pending := .box b :: g.pending } :=
      hat.goes (.into (.opened hunknown hfree) (.here ⟨rfl, rfl⟩))
    have hfound : (Station.box b p).Found W := ⟨m, _, g', hopening, hopen⟩
    have hback := WayBack.station (s := .box b p) h hfound hfree .box
    exact hback.imp id fun h => ⟨_, .kind _, h⟩
  | _ => exact hx.elim

/-- To ask for what is being found out already is no way at all. -/
theorem Asks.turnsBack (h : x.Asks W key n g) : x.TurnsBack W key g.pending := by
  obtain ⟨hmarked, -, hkey⟩ := h
  have arrived {p : Parser} (hruns : x.RunsAs W p) (hp : p = key.parser) (hmem : key ∈ g.pending) :
      x.TurnsBack W key g.pending := by
    refine ⟨p, hruns, hmem, [], [], hp ▸ .arrived, ?_, ?_, .nil, ?_⟩
    all_goals exact fun _ hs => nomatch hs
  cases key with
  | cls d =>
    obtain rfl : x = .plan d := hkey
    cases n with
    | zero => exact hmarked.elim
    | succ n => exact arrived (.plan d) rfl hmarked.2.2
  | box b =>
    obtain rfl : x = .kind (.box b) := hkey
    cases n with
    | zero => exact hmarked.elim
    | succ n => exact arrived (.kind _) rfl hmarked.2

/-- What is being found out already is asked for by its key. -/
theorem Marked.exists_asks (h : x.Marked n g) (hsame : W.grammar.SameDeclarations g) :
    ∃ key, x.Asks W key n g := by
  have hwas := h
  unfold Marked at h
  split at h
  · rename_i d
    exact ⟨.cls d, hwas, hsame, rfl⟩
  · rename_i b
    exact ⟨.box b, hwas, hsame, rfl⟩
  · exact h.elim

/-- **Where a walk from one error kind to the next comes back, a loop closes**, or a way leads down
to what was being found out before. -/
theorem KindComesBack.turns (h : x.KindComesBack n g) (hx : x.OfKind) (hat : W.At n x g) :
    ∃ key, ComesUpon (Asks W key) n [x] g ∧ (Loop W key ∨ x.TurnsBack W key g.pending) := by
  induction h with
  | here hmarked =>
    obtain ⟨key, hasks⟩ := hmarked.exists_asks hat.same
    exact ⟨key, .here hasks, .inr hasks.turnsBack⟩
  | into hstep hy _ ih =>
    obtain ⟨hat, hback⟩ := hstep.turnsBack hx hy hat
    obtain ⟨key, hupon, h⟩ := ih hy hat
    exact ⟨key, .into hstep hupon, h.elim .inl hback⟩

end Inquiry

end ShapeGrammar
