import ShapeGrammar.Proofs.Reentry.Ways

/-!
# What is refused as left-recursive

A class is refused as left-recursive where the walk of resolution comes back to it while its plan is
being found out. If the walk only went from one error kind to the next, there is a way from the plan
of the class, as far as it was found out, down to the class itself. A run of that plan calls the
class again at the place where it began, before its first call has ended, wherever what the way
leads past lets the run through.

It need not be let through anywhere. For the error kind of a choice, resolution goes into the right
arm even if the left one matches whatever comes.

Headlines: `comesBackTo_of_raises`, `Resolver.informed`, `left_recursion_reenters`,
`Scene.calls_elementOrAgain`, `optional_leftRecursive`.
-/

namespace ShapeGrammar

open Resolution Machine

/-! ## The refusal -/

/-- The class that a fault calls left-recursive, by its name. -/
def SchemaFault.leftRecursive? : SchemaFault → Option String
  | .leftRecursive name _ _ => some name
  | .inField _ _ _ cause => cause.leftRecursive?
  | _ => none

/-- The class that is called left-recursive by what stops. -/
def Stop.leftRecursive? : Stop → Option String
  | .fault (.schema cause) => cause.leftRecursive?
  | _ => none

theorem SchemaFault.leftRecursive_of_some {name : String} {f : SchemaFault}
    (h : f.leftRecursive? = some name) : f.LeftRecursive := by
  induction f with
  | leftRecursive _ _ _ => trivial
  | inField _ _ _ _ ih => exact ih h
  | _ => cases h

theorem Stop.leftRecursive_of_some {name : String} {e : Stop} (h : e.leftRecursive? = some name) :
    e.LeftRecursive := by
  cases e with
  | fault f =>
    cases f with
    | schema cause => exact SchemaFault.leftRecursive_of_some h
    | _ => cases h
  | outOfFuel => cases h

/-- The name that a class goes by. A delayed parser has none. -/
def Pending.name? (g : Grammar) : Pending → Option String
  | .cls d => some (g.className (.declared d))
  | .box _ => none

/-- To ask for a class that is being found out already is refused by its name. -/
theorem Inquiry.Asks.raises {W : Walk} {key : Pending} {n : Nat} {x : Inquiry} {g : Grammar}
    (h : x.Asks W key n g) :
    Raises (fun e _ => e.leftRecursive? = key.name? W.grammar) (x.run (resolver n)) g := by
  obtain ⟨hmarked, hsame, hkey⟩ := h
  cases key with
  | cls d =>
    obtain rfl : x = .plan d := hkey
    cases n with
    | zero => exact hmarked.elim
    | succ n =>
      obtain ⟨hunknown, hd, hmem⟩ := hmarked
      refine (Raises.remember (f := .plan d) hunknown (.after (get_ok _) ?_)).map _
      rw [if_neg (Nat.not_le_of_lt hd)]
      exact Raises.bind ⟨_, _, guarded_of_mem hmem _ _, congrArg some (hsame.className_eq _)⟩
  | box b =>
    obtain rfl : x = .kind (.box b) := hkey
    cases n with
    | zero => exact hmarked.elim
    | succ n =>
      obtain ⟨hunknown, hmem⟩ := hmarked
      exact (Raises.remember (f := .kind b) hunknown ⟨_, _, guarded_of_mem hmem _ _, rfl⟩).map _

/-- The name in a refusal is that of what the walk comes back to. -/
theorem name_of_asks {W : Walk} {key : Pending} {name : String}
    (h : ComesUpon (Inquiry.Asks W key) W.limit [W.start] W.grammar)
    (hrefused : Raises (fun e _ => e.leftRecursive? = some name)
      (W.start.run (resolver W.limit)) W.grammar) : key.name? W.grammar = some name := by
  have hraised := h.raises ⟨fun _ _ _ h => h, id⟩ Inquiry.Asks.raises
  obtain ⟨e, g', herror, he⟩ := Inquiry.raises_single hraised
  obtain ⟨e', g'', herror', he'⟩ := hrefused
  cases herror.symm.trans herror'
  exact he.symm.trans he'

/-- The walk comes back to this class or this delayed parser, while its answer is being found out.
-/
def Inquiry.ComesBackTo (key : Pending) (n : Nat) (x : Inquiry) (g : Grammar) : Prop :=
  ComesUpon (Inquiry.Asks ⟨n, x, g⟩ key) n [x] g

/-- **What is called left-recursive is the class that the walk comes back to.** -/
theorem comesBackTo_of_raises {g : Grammar} {n : Nat} {x : Inquiry} (hx : x.IsQuestion)
    {name : String}
    (hrefused : Raises (fun e _ => e.leftRecursive? = some name) (x.run (resolver n)) g) :
    ∃ d, g.className (.declared d) = name ∧ x.ComesBackTo (.cls d) n g := by
  have hback : x.ComesBack n g := by
    obtain ⟨enough, henough⟩ := exists_enough g
    obtain ⟨e, g', herror, he⟩ := hrefused
    by_contra hnot
    exact henough .comingBack n x hx False.elim hnot e g' herror (Stop.leftRecursive_of_some he)
  -- whatever the walk comes back to is asked for by its key, and refused by its name
  have hasked : ComesUpon (fun m y g' => ∃ key, y.Asks ⟨n, x, g⟩ key m g') n [x] g :=
    (hback.since (.refl g)).mono fun ⟨hmarked, hsame⟩ => hmarked.exists_asks hsame
  obtain ⟨key, hupon⟩ := hasked.exists
  have hname := name_of_asks (W := ⟨n, x, g⟩) hupon hrefused
  cases key with
  | cls d => exact ⟨d, Option.some.inj hname, hupon⟩
  | box b => cases hname

/-! ## Answers that were not given -/

/-- Answers what is said of some stations, and the rest as before. -/
def Resolver.informed (r : Resolver) : List Station → Resolver
  | [] => r
  | .cls d plan :: ss =>
    { r.informed ss with planOf := Function.update (r.informed ss).planOf d (pure plan) }
  | .box b p :: ss =>
    { r.informed ss with boxParser := Function.update (r.informed ss).boxParser b (pure p) }

theorem Resolver.informed_knows (r : Resolver) {ss : List Station}
    (hnodup : (ss.map Station.key).Nodup) : (r.informed ss).Knows ss := by
  induction ss with
  | nil => exact ⟨(nomatch ·), (nomatch ·)⟩
  | cons s ss ih =>
    obtain ⟨hs, hnodup⟩ := List.nodup_cons.mp hnodup
    have hothers {t : Station} (ht : t ∈ ss) : t.key ≠ s.key :=
      fun heq => hs (heq ▸ List.mem_map_of_mem ht)
    obtain ⟨hplans, hboxes⟩ := ih hnodup
    cases s with
    | cls d plan =>
      refine ⟨fun {d' plan'} hmem => ?_, fun hmem => hboxes ?_⟩
      · rcases List.mem_cons.mp hmem with heq | hmem
        · cases heq
          exact Function.update_self _ _ _
        · have hne : d' ≠ d := fun h => hothers hmem (h ▸ rfl)
          exact (Function.update_of_ne hne _ _).trans (hplans hmem)
      · exact (List.mem_cons.mp hmem).resolve_left nofun
    | box b p =>
      refine ⟨fun hmem => hplans ?_, fun {b' p'} hmem => ?_⟩
      · exact (List.mem_cons.mp hmem).resolve_left nofun
      · rcases List.mem_cons.mp hmem with heq | hmem
        · cases heq
          exact Function.update_self _ _ _
        · have hne : b' ≠ b := fun h => hothers hmem (h ▸ rfl)
          exact (Function.update_of_ne hne _ _).trans (hboxes hmem)

theorem Resolver.Obeys.informed {r : Resolver} (h : r.Obeys Grows) (ss : List Station) :
    (r.informed ss).Obeys Grows := by
  induction ss with
  | nil => exact h
  | cons s ss ih =>
    cases s with
    | cls d plan =>
      refine { ih with planOf := fun d' => ?_ }
      show Grows (Function.update (r.informed ss).planOf d (pure plan) d')
      rcases eq_or_ne d' d with rfl | hd
      · rw [Function.update_self]
        exact grows_law.pure plan
      · rw [Function.update_of_ne hd]
        exact ih.planOf d'
    | box b p =>
      refine { ih with boxParser := fun b' => ?_ }
      show Grows (Function.update (r.informed ss).boxParser b (pure p) b')
      rcases eq_or_ne b' b with rfl | hb
      · rw [Function.update_self]
        exact grows_law.pure p
      · rw [Function.update_of_ne hb]
        exact ih.boxParser b'

/-! ## What a run would do -/

/-- **What is refused as left-recursive is called again at the place where it is called**, if the
walk came back from one error kind to the next, and wherever what it led past lets a run through. In
any case the walk came back to the class that the refusal names.

The plan is what the class would have been planned as, and whatever resolver answers with such plans
may be asked. That a class is called again before its first call has ended is said by alarms: any
alarm that goes off at such a call ends the run. -/
theorem left_recursion_reenters {g : Grammar} (hrest : g.pending = []) {n : Nat} {x : Inquiry}
    (hx : x.IsQuestion) {name : String}
    (hrefused : Raises (fun e _ => e.leftRecursive? = some name) (x.run (resolver n)) g) :
    (∃ d, g.className (.declared d) = name ∧ x.ComesBackTo (.cls d) n g) ∧ (x.KindComesBack n g →
      ∃ d plan ss os, g.className (.declared d) = name ∧
        (Station.cls d plan).Found ⟨n, x, g⟩ ∧
        Way ⟨n, x, g⟩ (.cls d) [.cls d] ss os (.planned plan) ∧
        (∀ r : Resolver, r.Obeys Grows → (r.informed (.cls d plan :: ss)).Obeys Grows ∧
          (r.informed (.cls d plan :: ss)).Knows (.cls d plan :: ss)) ∧
        ∀ S : Scene, S.resolver.Knows ss → (∀ o ∈ os, S.LetsThrough o) →
          S.Calls d (.planned plan)) := by
  refine ⟨comesBackTo_of_raises hx hrefused, fun hback => ?_⟩
  have hkind : x.OfKind := by
    cases x with
    | plan d => trivial
    | kind p => trivial
    | _ => exact hx.elim
  obtain ⟨key, hupon, hloop⟩ := hback.turns (W := ⟨n, x, g⟩) hkind (Walk.at_start _)
  have hname := name_of_asks (W := ⟨n, x, g⟩) hupon hrefused
  rcases hloop with ⟨s, ss, os, rfl, hfound, hway⟩ | ⟨-, -, hmem, -⟩
  · cases s with
    | box b p => cases hname
    | cls d plan =>
      have hfresh : Pending.cls d ∉ ss.map Station.key := by
        intro hmem
        obtain ⟨t, ht, heq⟩ := List.mem_map.mp hmem
        exact hway.fresh t ht (heq ▸ List.mem_singleton_self _)
      exact ⟨d, plan, ss, os, Option.some.inj hname, hfound, hway,
        fun r hr => ⟨hr.informed _, r.informed_knows (List.nodup_cons.mpr ⟨hfresh, hway.nodup⟩)⟩,
        fun S => hway.descends.calls⟩
  · -- nothing was being found out before
    rw [hrest] at hmem
    cases hmem

/-- A class that chooses between something and itself. -/
def againAfter (left : ShapeExpr) : Grammar :=
  stateAfter (declare (resolver 0) 1 (.cls (.mk "C" false
    [⟨"x", .either left (.ref ⟨"C", []⟩), .field, none⟩] none none false []) true)) (.empty none)

theorem left_recursion_reenters_letter :
    (∃ d, (againAfter (.parser (.element (.text "b")))).className (.declared d) = "C" ∧
      (Inquiry.plan 0).ComesBackTo (.cls d) 4 (againAfter (.parser (.element (.text "b"))))) ∧
    ∃ d plan ss os, (againAfter (.parser (.element (.text "b")))).className (.declared d) = "C" ∧
      (Station.cls d plan).Found ⟨4, .plan 0, againAfter (.parser (.element (.text "b")))⟩ ∧
      Way ⟨4, .plan 0, againAfter (.parser (.element (.text "b")))⟩ (.cls d) [.cls d] ss os
        (.planned plan) ∧
      (∀ r : Resolver, r.Obeys Grows → (r.informed (.cls d plan :: ss)).Obeys Grows ∧
        (r.informed (.cls d plan :: ss)).Knows (.cls d plan :: ss)) ∧
      ∀ S : Scene, S.resolver.Knows ss → (∀ o ∈ os, S.LetsThrough o) →
        S.Calls d (.planned plan) := by
  have hwalk : (Inquiry.plan 0).KindComesBack 4 (againAfter (.parser (.element (.text "b")))) := by
    refine .into (.cls rfl (by decide) (by decide) rfl) trivial ?_
    refine .into (.product rfl) trivial ?_
    refine .into .parts trivial ?_
    refine .into .parts trivial ?_
    refine .into .parts trivial ?_
    exact .here ⟨rfl, by decide, by decide⟩
  exact (left_recursion_reenters rfl (x := .plan 0) trivial ⟨_, _, rfl, rfl⟩).imp_right (· hwalk)

/-! ## Where a run is let through -/

/-- One element misses wherever another one comes, or nothing. -/
theorem Scene.misses_element {S : Scene} {v : Value}
    (hother : ∀ w, S.place.peek? = some w → v.same w = false) : S.Misses (.element v) := by
  refine ⟨1, fun n hn m c hat => ?_⟩
  obtain ⟨n, rfl⟩ := Nat.exists_eq_add_of_le' hn
  suffices hmiss : ∃ e m', readElement (v.same ·) v c m = .ok (.failed e) m' by
    obtain ⟨e, m', hmiss⟩ := hmiss
    exact ⟨.missed, m', map_eq_ok_iff.mpr ⟨_, hmiss, rfl⟩, nofun⟩
  unfold readElement
  cases hnext : (m.cursor c).next? with
  | none =>
    rw [bind_of_ok (next_of_end hnext)]
    exact ⟨_, _, rfl⟩
  | some r =>
    obtain ⟨w, moved⟩ := r
    have hw := hother w (hat.place ▸ (Cursor.next?_eq_some hnext).1)
    rw [bind_of_ok (next_of_some hnext)]
    simp only [hw]
    exact ⟨_, _, rfl⟩

/-- Where nobody hears of it, an arm that misses lets a run through. -/
theorem Scene.letsThrough_arm {S : Scene} {left : Parser} (hmisses : S.Misses left)
    (hquiet : LogLevel.debug.heardFrom S.grammar.threshold = false) (right : Parser) :
    S.LetsThrough (.arm left right) := by
  refine ⟨hmisses, fun {m c} hat => ⟨m, reportArm_of_quiet ?_ left right c⟩⟩
  unfold Machine.Quiet
  rw [hat.later.threshold]
  exact hquiet

/-- A class that chooses between one element and itself is called again wherever the element does
not come. -/
theorem Scene.calls_elementOrAgain {S : Scene} {d : ClassId} {v : Value} {plan : Plan Parser}
    {name : String} {owner : ClassRef}
    (hplan : plan.attempts = [⟨name, owner, [.either (.element v) (.derived d)], false⟩])
    (hother : ∀ w, S.place.peek? = some w → v.same w = false)
    (hquiet : LogLevel.debug.heardFrom S.grammar.threshold = false) :
    S.Calls d (.planned plan) := by
  have hordered : plan.Ordered := by
    unfold Plan.Ordered
    rw [hplan]
    rfl
  have hway := Descends.last hordered (by rw [hplan]; rfl) (.first (.right .arrived))
  refine hway.calls ⟨nofun, nofun⟩ ?_
  rw [hplan]
  simpa using letsThrough_arm (misses_element hother) hquiet _

/-! ## Where no run is let through -/

/-- Runs respect equality. -/
theorem eq_law : RunLaw fun x y => x = y where
  pure _ := rfl
  stop _ := rfl
  bind hx hf := by rw [hx, funext hf]
  next _ := rfl
  snapshot _ := rfl
  position _ := rfl
  describe _ := rfl
  className _ := rfl
  listens _ := rfl
  report _ := rfl
  note _ := rfl
  construct _ _ := rfl

/-- No alarm goes off in a run of the parser, wherever it runs. -/
def Parser.Silent (r : Resolver) (target : ClassId) (place : Nat) (p : Parser) : Prop :=
  ∀ alarm n entry c, alertedRun r target place alarm n entry p c = run r n entry p c

namespace Parser.Silent

variable {r : Resolver} {target : ClassId} {place : Nat} {p : Parser}

/-- A parser that is no class is silent if everything that it calls is. -/
theorem of_calls (hcall : ∀ c m, isCallAt target place p c m = false)
    (h : ∀ alarm n entry c, runWith r n (alertedRun r target place alarm n) entry p c =
      runWith r n (run r n) entry p c) : p.Silent r target place := by
  intro alarm n entry c
  cases n with
  | zero => rfl
  | succ n =>
    funext m
    rw [alertedRun_of_not_call (hcall c m), run_succ, h]

theorem any : Silent r target place .any :=
  .of_calls (fun _ _ => rfl) fun _ _ _ _ => rfl

theorem opt (h : p.Silent r target place) : Silent r target place (.opt p) := by
  refine .of_calls (fun _ _ => rfl) fun alarm n entry c => ?_
  unfold runWith
  simp only [h alarm n]

/-- Whether it misses or not, what is optional matches. -/
theorem run_opt_matched {n : Nat} {entry : Entry} {c : CursorId} {m m' : Machine} {o : Outcome}
    (h : run r n entry (.opt p) c m = .ok o m') : ∃ d v, o = .matched d v := by
  cases n with
  | zero => cases h
  | succ n =>
    obtain ⟨s, m1, -, h⟩ := bind_eq_ok_iff.mp h
    obtain ⟨o', m2, -, h⟩ := bind_eq_ok_iff.mp h
    cases o' <;> cases h <;> exact ⟨_, _, rfl⟩

/-- Behind what is optional, nothing is called. -/
theorem either_opt (h : p.Silent r target place) (right : Parser) :
    Silent r target place (.either (.opt p) right) := by
  refine .of_calls (fun _ _ => rfl) fun alarm n entry c => funext fun m => ?_
  show (Act.snapshot c >>= fun s => alertedRun r target place alarm n .fallible (.opt p) s >>=
    afterLeft (alertedRun r target place alarm n) entry (.opt p) right c) m =
      (Act.snapshot c >>= fun s => run r n .fallible (.opt p) s >>=
        afterLeft (run r n) entry (.opt p) right c) m
  simp only [h.opt alarm n]
  rw [bind_of_ok (snapshot_eq_duplicated m c), bind_of_ok (snapshot_eq_duplicated m c)]
  cases hleft : run r n .fallible (.opt p) m.cursors.size (m.duplicated c) with
  | error e m' => rw [bind_of_error hleft, bind_of_error hleft]
  | ok o m' =>
    obtain ⟨d, v, rfl⟩ := run_opt_matched hleft
    rw [bind_of_ok hleft, bind_of_ok hleft]
    rfl

/-- A plan is silent if the parsers of its attempts are. -/
theorem planned {plan : Plan Parser} (h : ∀ a ∈ plan.attempts, ∀ p ∈ a.parsers,
    Silent r target place p) : Silent r target place (.planned plan) := by
  refine .of_calls (fun _ _ => rfl) fun alarm n entry c => ?_
  have hcalls : CallsPair (Continued fun x y => x = y) (fun _ => True) (Silent r target place)
      (alertedRun r target place alarm n) (run r n) :=
    fun entry p c _ hp => eq_law.continued (hp alarm n entry c)
  exact eq_law.of_continued
    (eq_law.pairAll.runAttempts hcalls (fun _ _ => eq_law.continued rfl) trivial c h)

end Parser.Silent

/-- A class that is refused although no run of its plan ever calls it: the left arm of the choice is
optional, so it matches whatever comes. -/
theorem optional_leftRecursive : ∃ plan : Plan Parser,
    Raises (fun e _ => e.leftRecursive? = some "C") ((Inquiry.plan 0).run (resolver 4))
      (againAfter (.union [.builtin .text, .nothing])) ∧
    (Station.cls 0 plan).Found ⟨4, .plan 0, againAfter (.union [.builtin .text, .nothing])⟩ ∧
    ∀ r place, (Parser.planned plan).Silent r 0 place := by
  have hseen : Walk.Sees ⟨4, .plan 0, againAfter (.union [.builtin .text, .nothing])⟩ 3
      { againAfter (.union [.builtin .text, .nothing]) with pending := [.cls 0] } :=
    .into (.cls rfl (by decide) (by decide) rfl) (.here ⟨rfl, rfl⟩)
  refine ⟨⟨.declared 0, .product,
    [⟨"C", .declared 0, [.either (.opt .any) (.derived 0)], false⟩], none⟩, ⟨_, _, rfl, rfl⟩,
    ⟨_, _, rfl, ⟨_, _, _, hseen, rfl⟩, rfl⟩, fun r place => .planned ?_⟩
  simpa using .either_opt .any _

end ShapeGrammar
