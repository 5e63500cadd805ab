import ShapeGrammar.Proofs.Entry.Alike
import ShapeGrammar.Proofs.Factory.Simulation
import ShapeGrammar.Proofs.Peg.Refinement

/-!
# Runs that carry plans out

Where every factory that a parser leads to is one that its plan was written out as, it makes no
difference whether factories are run or their plans are carried out: the same calls are made in the
same states, and whatever comes of it is the same. What a parser leads to is known when all is done;
so the comparison is up to a last state of the grammar, which every state on the way precedes.

Headlines: `Concurs`, `concurs_law`, `Foresees`, `pair_carryWith`, `run_eq_carryOut`.
-/

namespace ShapeGrammar

/-! ## Growth -/

section Growth

variable {r : Resolver} (hr : r.Obeys Resolution.Grows) {n : Nat}
  {call : Entry → Parser → CursorId → Act Outcome} (hcall : ∀ entry p c, (call entry p c).Grows)
include hr hcall

theorem grows_runWith (entry : Entry) (p : Parser) (c : CursorId) :
    (runWith r n call entry p c).Grows := fun g =>
  @RunLaw.runWith _ (growth_law g) r r (fun b => (Act.still_resolve (hr.boxParser b)).grows g)
    (fun c => (Act.still_resolve (hr.planOf c)).grows g) call call
    (fun entry p c => hcall entry p c g) n n entry p c (.inl rfl)

theorem grows_carryWith (entry : Entry) (p : Parser) (c : CursorId) :
    (carryWith r n call entry p c).Grows := by
  unfold carryWith
  split
  · exact fun g => @RunLaw.runAttempts _ (growth_law g) call call
      (fun entry p c => hcall entry p c g) _ (fun _ _ => pure ()) (fun _ _ => Act.keeps_pure ())
      entry _ c
  · exact grows_runWith hr hcall entry p c

end Growth

theorem grows_watched (one : Nat → (Entry → Parser → CursorId → Act Outcome) → Entry → Parser →
      CursorId → Act Outcome)
    (hone : ∀ {n call}, (∀ entry p c, (call entry p c).Grows) →
      ∀ entry p c, (one n call entry p c).Grows)
    {watch : Entry → Parser → Outcome → Act Outcome} (hwatch : ∀ entry p o, (watch entry p o).Grows)
    (n : Nat) (entry : Entry) (p : Parser) (c : CursorId) :
    (watched one watch n entry p c).Grows := by
  induction n generalizing entry p c with
  | zero => exact (Act.still_throw _).grows
  | succ n ih => exact (hone ih entry p c).bind fun o => hwatch entry p o

/-! ## Doing the same up to a last state -/

/-- Two computations do the same wherever one of them does not lead beyond a state of the
grammar. -/
structure Concurs (last : Grammar) {α : Type} (x y : Act α) : Prop where
  left : x.Grows
  right : y.Grows
  same : ∀ {m}, (stateAfter x m).grammar.Precedes last ∨ (stateAfter y m).grammar.Precedes last →
    x m = y m

theorem Act.Grows.concurs {α : Type} {last : Grammar} {x : Act α} (h : x.Grows) :
    Concurs last x x :=
  ⟨h, h, fun _ => rfl⟩

theorem Concurs.symm {α : Type} {last : Grammar} {x y : Act α} (h : Concurs last x y) :
    Concurs last y x :=
  ⟨h.right, h.left, fun hlast => (h.same hlast.symm).symm⟩

theorem Concurs.trans {α : Type} {last : Grammar} {x y z : Act α} (h : Concurs last x y)
    (h' : Concurs last y z) : Concurs last x z where
  left := h.left
  right := h'.right
  same := fun {m} hlast => by
    have hmiddle : (stateAfter y m).grammar.Precedes last := by
      rcases hlast with hlast | hlast
      · have hsame := h.same (.inl hlast)
        unfold stateAfter at hlast ⊢
        rwa [← hsame]
      · have hsame := h'.same (.inr hlast)
        unfold stateAfter at hlast ⊢
        rwa [hsame]
    exact (h.same (.inr hmiddle)).trans (h'.same (.inl hmiddle))

/-- What is done first does not lead beyond what the whole does not lead beyond. -/
theorem precedes_first {α β : Type} {last : Grammar} {x : Act α} {f : α → Act β} {m : Machine}
    (hf : ∀ a, (f a).Grows) (h : (stateAfter (x >>= f) m).grammar.Precedes last) :
    (stateAfter x m).grammar.Precedes last := by
  cases hx : x m with
  | ok a t =>
    rw [stateAfter_bind_of_ok hx] at h
    rw [stateAfter_of_ok hx]
    exact ((hf a).after t).trans h
  | error e t =>
    rw [stateAfter_of_error (bind_of_error hx)] at h
    rw [stateAfter_of_error hx]
    exact h

/-- What is done next may depend on what is known by then. -/
theorem concurs_after {α β : Type} {last : Grammar} {x : Act α} {f g : α → Act β} (hx : x.Grows)
    (hf : ∀ a, (f a).Grows) (hg : ∀ a, (g a).Grows)
    (hfg : ∀ {a m t}, x m = .ok a t → t.grammar.Precedes last → Concurs last (f a) (g a)) :
    Concurs last (x >>= f) (x >>= g) where
  left := hx.bind hf
  right := hx.bind hg
  same := fun {m} hlast => by
    refine bind_congr_at fun {a t} hxm => ?_
    rw [stateAfter_bind_of_ok hxm, stateAfter_bind_of_ok hxm] at hlast
    have hbegun : t.grammar.Precedes last :=
      hlast.elim ((hf a).after t).trans ((hg a).after t).trans
    exact (hfg hxm hbegun).same hlast

theorem Concurs.bind {α β : Type} {last : Grammar} {x y : Act α} {f g : α → Act β}
    (h : Concurs last x y) (hf : ∀ a, Concurs last (f a) (g a)) :
    Concurs last (x >>= f) (y >>= g) where
  left := h.left.bind fun a => (hf a).left
  right := h.right.bind fun a => (hf a).right
  same := fun {m} hlast => by
    have hxy : x m = y m := h.same (hlast.imp (precedes_first fun a => (hf a).left)
      (precedes_first fun a => (hf a).right))
    cases hx : x m with
    | ok a t =>
      have hy := hxy.symm.trans hx
      rw [stateAfter_bind_of_ok hx, stateAfter_bind_of_ok hy] at hlast
      rw [bind_of_ok hx, bind_of_ok hy]
      exact (hf a).same hlast
    | error e t => rw [bind_of_error hx, bind_of_error (hxy.symm.trans hx)]

theorem concurs_law (last : Grammar) : RunLaw (Concurs last) where
  pure a := (Act.still_pure a).grows.concurs
  stop e := (Act.still_throw e).grows.concurs
  bind := .bind
  next c := Act.Grows.concurs fun g => (growth_law g).next c
  snapshot c := Act.Grows.concurs fun g => (growth_law g).snapshot c
  position c := (Act.still_position c).grows.concurs
  describe p := (Act.still_describe p).grows.concurs
  className target := (Act.still_className target).grows.concurs
  listens level := (Act.still_listens level).grows.concurs
  report r := (Act.still_report r).grows.concurs
  note e := (Act.still_note e).grows.concurs
  construct target vs := (Act.still_construct target vs).grows.concurs

/-! ## One call -/

/-- What is done next may depend on what is known by then: that is known in a last state as well. -/
def Foresees (R : {α β : Type} → (α → β → Prop) → Act α → Act β → Prop) (last : Grammar) : Prop :=
  ∀ {α β : Type} {x : Resolution α} {f g : α → Act β}, x.Grows → (∀ a, (f a).Grows) →
    (∀ a, (g a).Grows) →
    (∀ {a m t}, Act.resolve x m = .ok a t → t.grammar.Precedes last → R Eq (f a) (g a)) →
    R Eq (Act.resolve x >>= f) (Act.resolve x >>= g)

section Calls

variable {R : {α β : Type} → (α → β → Prop) → Act α → Act β → Prop} {places : Nat → Nat → Prop}
  {entries : Entry → Prop} {k n : Nat} {last : Grammar}
  {call call' : Entry → Parser → CursorId → Act Outcome} (hforesees : Foresees R last)
  (hgrows : ∀ entry p c, (call entry p c).Grows) (hgrows' : ∀ entry p c, (call' entry p c).Grows)
  (hcall : CallsPair R entries last.Genuine call call')
include hforesees hgrows hgrows' hcall

/-- A delayed parser was found to be one of its parts. -/
theorem pair_box {b : BoxId} (hp : last.Genuine (.box b)) {entry : Entry} (he : entries entry)
    (c : CursorId) :
    R Eq (Act.resolve ((resolver k).boxParser b) >>= fun q => call entry q c)
      (Act.resolve ((resolver k).boxParser b) >>= fun q => call' entry q c) := by
  refine hforesees ((resolver_grows k).boxParser b) (fun q => hgrows entry q c)
    (fun q => hgrows' entry q c) fun {q m t} hq hfound => ?_
  exact hcall entry q c he (hp.part (part_of_boxParser hq hfound))

/-- The plan that was found for a class is carried out. -/
theorem pair_derived {target : ClassId} (hp : last.Genuine (.derived target)) {entry : Entry}
    (he : entries entry) (c : CursorId) :
    R Eq (Act.resolve ((resolver k).planOf target) >>= fun plan => call entry (.planned plan) c)
      (Act.resolve ((resolver k).planOf target) >>= fun plan =>
        call' entry (.planned plan) c) := by
  refine hforesees ((resolver_grows k).planOf target) (fun plan => hgrows entry (.planned plan) c)
    (fun plan => hgrows' entry (.planned plan) c) fun {plan m t} hplan hfound => ?_
  exact hcall entry (.planned plan) c he (hp.part (part_of_planOf hplan hfound))

/-- **To run a factory is to carry its plan out**, and all else is the same. -/
theorem pair_carryWith (L : PairLaw R places entries) {entry : Entry} (he : entries entry)
    {p : Parser} (hp : last.Genuine p) (c : CursorId) :
    R Eq (runWith (resolver k) n call entry p c) (carryWith (resolver k) n call' entry p c) := by
  unfold carryWith
  split
  · rename_i plan code
    obtain ⟨hordered, rfl⟩ := hp.authentic
    unfold runWith
    dsimp only
    rw [hordered.invoke_eq]
    exact L.runAttempts hcall (fun _ _ => L.pure rfl) he c
      fun a ha q hq => hp.part (List.mem_flatMap.mpr ⟨a, ha, hq⟩)
  · rename_i hplain
    refine L.runWith hcall (fun hq hpart => hq.part hpart) (.inl rfl) he hp c ?_ ?_
      fun {plan code} hp => absurd hp (hplain plan code)
    · rintro b rfl
      exact pair_box hforesees hgrows hgrows' hcall hp he c
    · rintro target rfl
      exact pair_derived hforesees hgrows hgrows' hcall hp he c

end Calls

/-! ## Runs -/

theorem concurs_foresees (last : Grammar) : Foresees (Continued (Concurs last)) last :=
  fun hx hf hg hfg => (concurs_law last).continued (concurs_after (Act.still_resolve hx).grows hf hg
    fun h hlast => (concurs_law last).of_continued (hfg h hlast))

theorem grows_carryOut {r : Resolver} (hr : r.Obeys Resolution.Grows) :
    ∀ (n : Nat) (entry : Entry) (p : Parser) (c : CursorId), (carryOut r n entry p c).Grows :=
  grows_watched (carryWith r) (grows_carryWith hr) fun _ _ o => (Act.still_pure o).grows

/-- Up to a state of the grammar in which a parser is genuine, its run carries plans out. -/
theorem concurs_carryOut (k : Nat) {last : Grammar} : ∀ (n : Nat) (entry : Entry) (p : Parser)
    (c : CursorId), last.Genuine p →
      Concurs last (run (resolver k) n entry p c) (carryOut (resolver k) n entry p c)
  | 0, _, _, _, _ => (Act.still_throw _).grows.concurs
  | n + 1, entry, p, c, hp => by
    have hr := resolver_grows k
    have L := concurs_law last
    rw [run_succ, carryOut_succ]
    exact L.of_continued (pair_carryWith (concurs_foresees last) (run_grows hr n)
      (grows_carryOut hr n) (fun entry p c _ hp => L.continued (concurs_carryOut k n entry p c hp))
      L.pairAll trivial hp c)

/-- **A run of a genuine parser carries plans out**, whichever way it ends. -/
theorem run_eq_carryOut {k n : Nat} {entry : Entry} {p : Parser} {c : CursorId} {m : Machine}
    (hp : (stateAfter (run (resolver k) n entry p c) m).grammar.Genuine p) :
    run (resolver k) n entry p c m = carryOut (resolver k) n entry p c m :=
  (concurs_carryOut k n entry p c hp).same (.inl (.refl _))

end ShapeGrammar
