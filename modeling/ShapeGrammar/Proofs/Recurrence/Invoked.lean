import ShapeGrammar.Proofs.Recurrence.Recurring

/-!
# Factories that are invoked again

A factory keeps cursors, values and answers in variables, and may call a parser on any cursor that
is in one. Whatever its code is, the variables of a second invocation hold at every statement what
stands for what they held in the first, so the statements come again one by one.

Headlines: `SlotsRecur`, `step_recurs`, `runStatements_recurs`, `invoke_recurs`.
-/

namespace ShapeGrammar

open Machine

/-! ## Where entries come from -/

/-- What is looked up after entries were put was there before or is one of them. -/
theorem Table.mem_of_get?_putAll {α : Type} {name : String} {v : α} : ∀ {u t : Table α},
    Table.get? (Table.putAll t u) name = some v →
      Table.get? t name = some v ∨ (name, v) ∈ u
  | [], _, h => .inl h
  | e :: u, t, h => by
    rcases Table.mem_of_get?_putAll (t := Table.put t e.1 e.2) h with h | h
    · by_cases hname : e.1 = name
      · rw [← hname, Table.get?_put_self] at h
        cases h
        exact .inr (hname ▸ List.mem_cons_self)
      · rw [Table.get?_put_of_ne _ _ hname] at h
        exact .inl h
    · exact .inr (List.mem_cons_of_mem e h)

/-- What is unpacked into a variable is one of the values. -/
theorem mem_of_unpackInto {α : Type} {name : String} {v : α} : ∀ {names : List String}
    {vs : List α} {t : Table α}, unpackInto names vs = .ok t → (name, v) ∈ t → v ∈ vs
  | [], [], _, h, hv => by
    cases h
    cases hv
  | n :: ns, w :: vs, t, h, hv => by
    obtain ⟨rest, hrest, h⟩ := except_bind_eq_ok_iff.mp h
    cases h
    rcases List.mem_cons.mp hv with heq | hv
    · cases heq
      exact List.mem_cons_self
    · exact List.mem_cons_of_mem w (mem_of_unpackInto hrest hv)
  | [], _ :: _, _, h, _ => by cases h
  | _ :: _, [], _, h, _ => by cases h

/-- What holds of what a factory is handed, and of every procedure, holds of all its variables. -/
theorem Code.holds_of_run {P : Item → Prop} {targets : List ClassRef}
    {parsers : List (List Parser)} (htargets : ∀ t ∈ targets, P (.target t))
    (hparsers : ∀ row ∈ parsers, ∀ p ∈ row, P (.parser p)) (hattempt : ∀ p, P (.attempt p)) :
    ∀ {code : Code} {items : Table Item} {bound : Bound},
      (∀ {name item}, items.get? name = some item → P item) →
        Code.run targets parsers items code = .ok bound →
          ∀ {name item}, bound.items.get? name = some item → P item
  | [], _, _, _, h => by cases h
  | .targets names :: rest, items, bound, hitems, h => by
    obtain ⟨row, hrow, h⟩ := except_bind_eq_ok_iff.mp h
    refine Code.holds_of_run htargets hparsers hattempt (fun {name item} hitem => ?_) h
    rcases Table.mem_of_get?_putAll hitem with hitem | hitem
    · exact hitems hitem
    · obtain ⟨t, ht, rfl⟩ := List.mem_map.mp (mem_of_unpackInto hrow hitem)
      exact htargets t ht
  | .parsers place names :: rest, items, bound, hitems, h => by
    obtain ⟨row, hrow, h⟩ := except_bind_eq_ok_iff.mp h
    refine Code.holds_of_run htargets hparsers hattempt (fun {name item} hitem => ?_) h
    rcases Table.mem_of_get?_putAll hitem with hitem | hitem
    · exact hitems hitem
    · obtain ⟨p, hp, rfl⟩ := List.mem_map.mp (mem_of_unpackInto hrow hitem)
      rw [List.getD_eq_getElem?_getD] at hp
      cases hplace : parsers[place]? with
      | some ps =>
        rw [hplace] at hp
        exact hparsers ps (List.mem_of_getElem? hplace) p hp
      | none =>
        rw [hplace] at hp
        cases hp
  | .procedure p :: rest, items, bound, hitems, h => by
    have hput : ∀ {name item}, (items.put p.name (.attempt p)).get? name = some item →
        P item := by
      intro name item hitem
      by_cases hname : p.name = name
      · rw [← hname, Table.get?_put_self] at hitem
        cases hitem
        exact hattempt p
      · rw [Table.get?_put_of_ne _ _ hname] at hitem
        exact hitems hitem
    exact Code.holds_of_run htargets hparsers hattempt hput h
  | .returnEntries total fallible :: rest, items, bound, hitems, h => by
    obtain ⟨_, -, h⟩ := except_bind_eq_ok_iff.mp h
    obtain ⟨_, -, h⟩ := except_bind_eq_ok_iff.mp h
    cases h
    exact hitems
  | .returnNothing :: _, _, _, _, h => by cases h

section Parts

variable {R : Rerun} {call call' : Entry → Parser → CursorId → Act Outcome}
  {entry : Entry} {m m1 m' : Machine} {c : Nat}

/-! ## Variables -/

/-- Contents of variables that stand for each other. -/
inductive Slot.Recurs (R : Rerun) : Slot → Slot → Prop
  | cursor {c : Nat} (hc : R.Holds c) : Recurs R (.cursor c) (.cursor (R.image c))
  | value (v : Value) : Recurs R (.value v) (.value v)
  | outcome {o o' : Outcome} (h : o.Recurs R o') : Recurs R (.outcome o) (.outcome o')

/-- Variables whose contents stand for each other. -/
def SlotsRecur (R : Rerun) (slots slots' : Table Slot) : Prop :=
  ∀ name, Option.Rel (Slot.Recurs R) (slots.get? name) (slots'.get? name)

/-- How far a procedure comes again. -/
inductive Progress.Recurs (R : Rerun) : Progress → Progress → Prop
  | running {slots slots' : Table Slot} (h : SlotsRecur R slots slots') :
    Recurs R (.running slots) (.running slots')
  | returned {o o' : Outcome} (h : o.Recurs R o') : Recurs R (.returned o) (.returned o')

/-- What a variable of a factory stands for does what it did. -/
def Item.Lasts (R : Rerun) : Item → Prop
  | .target ref => ∀ vs, R.began.construct ref vs = R.ended.construct ref vs
  | .parser p => R.Lasts p
  | .attempt _ => True

/-- What the variables of a factory stand for does what it did. -/
def ItemsLast (R : Rerun) (items : Table Item) : Prop :=
  ∀ {name item}, items.get? name = some item → Item.Lasts R item

section Variables

variable {slots slots' : Table Slot} {items : Table Item} {name : String}

theorem SlotsRecur.put (h : SlotsRecur R slots slots') (name : String) {s s' : Slot}
    (hs : s.Recurs R s') : SlotsRecur R (slots.put name s) (slots'.put name s') := by
  intro other
  by_cases hname : name = other
  · rw [← hname, Table.get?_put_self, Table.get?_put_self]
    exact .some hs
  · rw [Table.get?_put_of_ne _ _ hname, Table.get?_put_of_ne _ _ hname]
    exact h other

theorem SlotsRecur.get (h : SlotsRecur R slots slots') {s : Slot}
    (hs : slots.get? name = some s) : ∃ s', slots'.get? name = some s' ∧ s.Recurs R s' := by
  have hname := h name
  rw [hs] at hname
  cases hs' : slots'.get? name with
  | none =>
    rw [hs'] at hname
    cases hname
  | some s' =>
    rw [hs'] at hname
    cases hname with
    | some hrel => exact ⟨s', rfl, hrel⟩

theorem cursorIn_again (h : SlotsRecur R slots slots') {d : Nat}
    (hd : cursorIn slots name = .ok d) :
    R.Holds d ∧ cursorIn slots' name = .ok (R.image d) := by
  unfold cursorIn at hd
  split at hd
  · rename_i e hslot
    cases hd
    obtain ⟨s', hslot', hs⟩ := h.get hslot
    cases hs with
    | cursor hd => exact ⟨hd, cursorIn_of_get? hslot'⟩
  · cases hd
  · cases hd

theorem outcomeIn_again (h : SlotsRecur R slots slots') {o : Outcome}
    (ho : outcomeIn slots name = .ok o) :
    ∃ o', outcomeIn slots' name = .ok o' ∧ o.Recurs R o' := by
  unfold outcomeIn at ho ⊢
  split at ho
  · rename_i e hslot
    cases ho
    obtain ⟨s', hslot', hs⟩ := h.get hslot
    cases hs with
    | outcome ho =>
      rw [hslot']
      exact ⟨_, rfl, ho⟩
  · cases ho
  · cases ho

theorem valuesIn_again (h : SlotsRecur R slots slots') : ∀ {names : List String}
    {vs : List Value}, valuesIn slots names = .ok vs → valuesIn slots' names = .ok vs
  | [], _, hvs => hvs
  | name :: names, vs, hvs => by
    unfold valuesIn at hvs ⊢
    rw [List.mapM_cons] at hvs ⊢
    obtain ⟨v, hv, hvs⟩ := except_bind_eq_ok_iff.mp hvs
    obtain ⟨ws, hws, hvs⟩ := except_bind_eq_ok_iff.mp hvs
    refine except_bind_eq_ok_iff.mpr
      ⟨v, ?_, except_bind_eq_ok_iff.mpr ⟨ws, valuesIn_again h hws, hvs⟩⟩
    split at hv
    · rename_i w hslot
      obtain ⟨s', hslot', hs⟩ := h.get hslot
      cases hs
      rw [hslot']
      exact hv
    · cases hv
    · cases hv

theorem ItemsLast.target (h : ItemsLast R items) {target : ClassRef}
    (ht : targetIn items name = .ok target) (vs : List Value) :
    R.began.construct target vs = R.ended.construct target vs := by
  unfold targetIn at ht
  split at ht
  · rename_i t hitem
    cases ht
    exact h hitem vs
  · cases ht
  · cases ht

theorem ItemsLast.parser (h : ItemsLast R items) {p : Parser}
    (hp : parserIn items name = .ok p) : R.Lasts p := by
  unfold parserIn at hp
  split at hp
  · rename_i q hitem
    cases hp
    exact h hitem
  · cases hp
  · cases hp

end Variables

/-- Procedures that come again where they are made again. -/
structure ProceduresRecur (R : Rerun)
    (attempt attempt' : Procedure → CursorId → Act Outcome) : Prop where
  grows : ∀ p c, (attempt p c).Grows
  redone : ∀ {p c m m1 m' o}, Mirrors R m m' → R.Holds c → attempt p c m = .ok o m1 →
    m1.grammar.Precedes R.ended →
      Redone R (attempt' p (R.image c)) m' fun o' m1' => o.Recurs R o' ∧ Mirrors R m1 m1'

section Statements

variable {attempt attempt' : Procedure → CursorId → Act Outcome} {items : Table Item}
  {slots slots' : Table Slot} (hcall : Recurring R call call')
  (hattempt : ProceduresRecur R attempt attempt') (hitems : ItemsLast R items)
include hcall hattempt hitems

/-- A statement comes again. -/
theorem step_recurs (hslots : SlotsRecur R slots slots') (hm : Mirrors R m m')
    {s : Statement} {r : Progress} (h : s.step call attempt items slots m = .ok r m1)
    (hg : m1.grammar.Precedes R.ended) :
    Redone R (s.step call' attempt' items slots') m' fun r' m1' =>
      r.Recurs R r' ∧ Mirrors R m1 m1' := by
  cases s with
  | call result parser entry cursor =>
    obtain ⟨p, hp, h⟩ := lift_bind_eq_ok_iff.mp h
    obtain ⟨d, hd, h⟩ := lift_bind_eq_ok_iff.mp h
    obtain ⟨o, m4, ho, h⟩ := bind_eq_ok_iff.mp h
    cases h
    obtain ⟨hheld, hd'⟩ := cursorIn_again hslots hd
    refine redone_lift_bind hp (redone_lift_bind hd' ?_)
    refine (hcall.redone hm hheld ho hg (hitems.parser hp)).bind ?_
    rintro o' m4' ⟨hr, hm4⟩
    exact redone_of_ok rfl ⟨.running (hslots.put result (.outcome hr)), hm4⟩
  | returnMiss result =>
    obtain ⟨o, ho, h⟩ := lift_bind_eq_ok_iff.mp h
    obtain ⟨o', ho', hr⟩ := outcomeIn_again hslots ho
    refine redone_lift_bind ho' ?_
    cases hr with
    | matched hd v => cases h; exact redone_of_ok rfl ⟨.running hslots, hm⟩
    | missed => cases h; exact redone_of_ok rfl ⟨.returned .missed, hm⟩
    | failed he => cases h; exact redone_of_ok rfl ⟨.running hslots, hm⟩
  | returnError result =>
    obtain ⟨o, ho, h⟩ := lift_bind_eq_ok_iff.mp h
    obtain ⟨o', ho', hr⟩ := outcomeIn_again hslots ho
    refine redone_lift_bind ho' ?_
    cases hr with
    | matched hd v => cases h; exact redone_of_ok rfl ⟨.running hslots, hm⟩
    | missed => cases h; exact redone_of_ok rfl ⟨.running hslots, hm⟩
    | failed he => cases h; exact redone_of_ok rfl ⟨.returned (.failed he), hm⟩
  | unpack cursor value result =>
    obtain ⟨o, ho, h⟩ := lift_bind_eq_ok_iff.mp h
    obtain ⟨o', ho', hr⟩ := outcomeIn_again hslots ho
    refine redone_lift_bind ho' ?_
    cases hr with
    | matched hd v =>
      cases h
      exact redone_of_ok rfl ⟨.running ((hslots.put cursor (.cursor hd)).put value (.value v)), hm⟩
    | missed => cases h
    | failed he => cases h
  | tryAttempt found name cursor =>
    obtain ⟨p, hp, h⟩ := lift_bind_eq_ok_iff.mp h
    obtain ⟨d, hd, h⟩ := lift_bind_eq_ok_iff.mp h
    obtain ⟨s, m4, hs, h⟩ := bind_eq_ok_iff.mp h
    obtain ⟨o, m5, ho, h⟩ := bind_eq_ok_iff.mp h
    cases h
    obtain ⟨hheld, hd'⟩ := cursorIn_again hslots hd
    obtain ⟨m4', hs', hm4, hheld4⟩ := snapshot_again hm hheld hs
    refine redone_lift_bind hp (redone_lift_bind hd' ?_)
    refine redone_bind_of_ok hs' ((hattempt.redone hm4 hheld4 ho hg).bind ?_)
    rintro o' m5' ⟨hr, hm5⟩
    exact redone_of_ok rfl ⟨.running (hslots.put found (.outcome hr)), hm5⟩
  | returnFound found =>
    obtain ⟨o, ho, h⟩ := lift_bind_eq_ok_iff.mp h
    obtain ⟨o', ho', hr⟩ := outcomeIn_again hslots ho
    refine redone_lift_bind ho' ?_
    cases hr with
    | matched hd v => cases h; exact redone_of_ok rfl ⟨.returned (.matched hd v), hm⟩
    | missed => cases h; exact redone_of_ok rfl ⟨.running hslots, hm⟩
    | failed he => cases h; exact redone_of_ok rfl ⟨.returned (.failed he), hm⟩
  | returnAttempt name cursor =>
    obtain ⟨p, hp, h⟩ := lift_bind_eq_ok_iff.mp h
    obtain ⟨d, hd, h⟩ := lift_bind_eq_ok_iff.mp h
    obtain ⟨o, m5, ho, h⟩ := bind_eq_ok_iff.mp h
    cases h
    obtain ⟨hheld, hd'⟩ := cursorIn_again hslots hd
    refine redone_lift_bind hp (redone_lift_bind hd' ?_)
    refine (hattempt.redone hm hheld ho hg).bind ?_
    rintro o' m5' ⟨hr, hm5⟩
    exact redone_of_ok rfl ⟨.returned hr, hm5⟩
  | returnBuilt cursor target arguments =>
    obtain ⟨d, hd, h⟩ := lift_bind_eq_ok_iff.mp h
    obtain ⟨t, ht, h⟩ := lift_bind_eq_ok_iff.mp h
    obtain ⟨vs, hvs, h⟩ := lift_bind_eq_ok_iff.mp h
    obtain ⟨v, m5, hv, h⟩ := bind_eq_ok_iff.mp h
    cases h
    obtain ⟨hheld, hd'⟩ := cursorIn_again hslots hd
    obtain ⟨rfl, hv'⟩ := construct_again (hitems.target ht) hm hv hg
    refine redone_lift_bind hd' (redone_lift_bind ht ?_)
    refine redone_lift_bind (valuesIn_again hslots hvs) (redone_bind_of_ok hv' ?_)
    exact redone_of_ok rfl ⟨.returned (.matched hheld v), hm⟩
  | returnNothing =>
    cases h
    exact redone_of_ok rfl ⟨.returned .missed, hm⟩

theorem runStatements_recurs : ∀ {body : List Statement} {slots slots' : Table Slot}
    {m m1 m' : Machine} {o : Outcome}, SlotsRecur R slots slots' → Mirrors R m m' →
      runStatements call attempt items slots body m = .ok o m1 → m1.grammar.Precedes R.ended →
      Redone R (runStatements call' attempt' items slots' body) m' fun o' m1' =>
        o.Recurs R o' ∧ Mirrors R m1 m1'
  | [], _, _, _, _, _, _, _, hm, h, _ => by
    cases h
    exact redone_of_ok rfl ⟨.missed, hm⟩
  | s :: rest, slots, slots', m, m1, m', o, hslots, hm, h, hg => by
    unfold runStatements at h ⊢
    obtain ⟨r, m2, hr, h⟩ := bind_eq_ok_iff.mp h
    cases r with
    | running slots2 =>
      have hgrow := (@RunLaw.runStatements _ (growth_law m2.grammar) call call
        (fun entry p c => hcall.grows entry p c _) attempt attempt
        (fun p c => hattempt.grows p c _) items slots2 rest).of_ok (.refl _) h
      refine (step_recurs hcall hattempt hitems hslots hm hr (hgrow.trans hg)).bind ?_
      rintro _ m2' ⟨hprogress, hm2⟩
      cases hprogress with
      | running hslots2 => exact runStatements_recurs hslots2 hm2 h hg
    | returned o =>
      cases h
      refine (step_recurs hcall hattempt hitems hslots hm hr hg).bind ?_
      rintro _ m2' ⟨hprogress, hm2⟩
      cases hprogress with
      | returned ho => exact redone_of_ok rfl ⟨ho, hm2⟩

end Statements

/-! ## Procedures -/

theorem procedure_recurs {items : Table Item} (hcall : Recurring R call call')
    (hitems : ItemsLast R items) : ∀ depth, ProceduresRecur R
      (Procedure.run call items depth) (Procedure.run call' items depth)
  | 0 => ⟨fun _ _ => (Act.still_throw _).grows, fun _ _ h _ => by cases h⟩
  | depth + 1 => by
    refine ⟨fun p c => ?_, fun {p c m m1 m' o} hm hc h hg => ?_⟩
    · exact fun g => @RunLaw.procedure _ (growth_law g) call call
        (fun entry p c => hcall.grows entry p c g) items (depth + 1) p c
    · refine runStatements_recurs hcall (procedure_recurs hcall hitems depth) hitems ?_ hm h hg
      intro name
      unfold Table.get? Table.get?
      split
      · exact .some (.cursor hc)
      · exact .none

/-- A factory holds the classes and the field parsers of the plan that it is bound to. -/
theorem itemsLast_of_bind {code : Code} {plan : Plan Parser} {bound : Bound}
    (hplan : ∀ a ∈ plan.attempts, a.Lasts R) (h : code.bind plan = .ok bound) :
    ItemsLast R bound.items := by
  intro name item
  have hnone : ∀ {name item}, Table.get? ([] : Table Item) name = some item →
      Item.Lasts R item := fun h => by cases h
  refine Code.holds_of_run ?_ ?_ (fun _ => trivial) hnone h
  · intro target htarget
    obtain ⟨a, ha, rfl⟩ := List.mem_map.mp htarget
    exact (hplan a ha).1
  · intro row hrow p hp
    obtain ⟨a, ha, rfl⟩ := List.mem_map.mp hrow
    exact (hplan a ha).2 p hp

/-- **An invocation comes again**, whatever the code of the factory. -/
theorem invoke_recurs (hcall : Recurring R call call') {code : Code} {plan : Plan Parser}
    {o : Outcome} (hplan : ∀ a ∈ plan.attempts, a.Lasts R) (hm : Mirrors R m m')
    (hc : R.Holds c) (h : code.invoke call plan entry c m = .ok o m1)
    (hg : m1.grammar.Precedes R.ended) :
    Redone R (code.invoke call' plan entry (R.image c)) m' fun o' m1' =>
      o.Recurs R o' ∧ Mirrors R m1 m1' := by
  obtain ⟨bound, hbound, h⟩ := lift_bind_eq_ok_iff.mp h
  exact redone_lift_bind hbound
    ((procedure_recurs hcall (itemsLast_of_bind hplan hbound) 2).redone hm hc h hg)

end Parts

end ShapeGrammar
