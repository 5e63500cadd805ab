import ShapeGrammar.Proofs.Termination.Resolving

/-!
# Error kinds are found, and classes are planned

The walk that finds the error kind of a parser only follows left calls: it goes on in a sequence
where the part before has no error kind, and what has none is nullable. So where left calls do not
go in a circle, nothing that is being found out is met again, no class is rejected as
left-recursive, and the walk ends. The induction is on the left calls.

Headlines: `Clear`, `KindsFound`, `kindsFound`, `plansFound`.
-/

namespace ShapeGrammar

open Resolution Relation

variable {S : Skeletons} {base g g' : Grammar} {x y : Skeleton}

/-! ## What is being found out -/

/-- The skeleton of something that is being found out. -/
def Pending.HasSkeleton (S : Skeletons) (base g : Grammar) : Pending → Skeleton → Prop
  | .cls c, x => x = .cls c
  | .box b, x => ShapeGrammar.HasSkeleton S base g (.parser (.box b)) x

theorem Pending.HasSkeleton.mono {key : Pending} (h : key.HasSkeleton S base g x)
    (hlater : g.Extends g') : key.HasSkeleton S base g' x := by
  cases key with
  | cls c => exact h
  | box b => exact ShapeGrammar.HasSkeleton.mono hlater h

theorem Pending.HasSkeleton.unique {key : Pending} (hx : key.HasSkeleton S base g x)
    (hy : key.HasSkeleton S base g y) : x = y := by
  cases key with
  | cls c => exact hx.trans hy.symm
  | box b => exact ShapeGrammar.HasSkeleton.unique hx hy

/-- Nothing that is being found out may be called from the left. -/
def Clear (S : Skeletons) (base g : Grammar) (x : Skeleton) : Prop :=
  ∀ key ∈ g.pending, ∃ y, key.HasSkeleton S base g y ∧ ¬ ReflTransGen S.LeftCalls x y

namespace Clear

theorem of_pending_eq_nil (h : g.pending = []) : Clear S base g x := by
  intro key hkey
  rw [h] at hkey
  cases hkey

theorem onward (h : Clear S base g x) (hg : Onward S base g g') : Clear S base g' x := by
  intro key hkey
  rw [hg.pending] at hkey
  obtain ⟨y, hy, hxy⟩ := h key hkey
  exact ⟨y, hy.mono hg.later, hxy⟩

theorem call (h : Clear S base g x) (hxy : S.LeftCalls x y) : Clear S base g y := by
  intro key hkey
  obtain ⟨z, hz, hxz⟩ := h key hkey
  exact ⟨z, hz, fun hyz => hxz (.head hxy hyz)⟩

theorem not_mem {key : Pending} (h : Clear S base g x) (hkey : key.HasSkeleton S base g x) :
    key ∉ g.pending := by
  intro hmem
  obtain ⟨y, hy, hxy⟩ := h key hmem
  exact hxy (hkey.unique hy ▸ .refl)

/-- What is called from the left by what is being found out is another thing. -/
theorem mark {key : Pending} (acyclic : S.Acyclic) (h : Clear S base g x)
    (hkey : key.HasSkeleton S base g x) (hxy : S.LeftCalls x y) :
    Clear S base { g with pending := key :: g.pending } y := by
  have hlater : g.Extends { g with pending := key :: g.pending } := Grammar.extends_of_eq rfl rfl
  intro key' hkey'
  rcases List.mem_cons.mp hkey' with rfl | hkey'
  · exact ⟨x, hkey.mono hlater, fun hyx => acyclic x (.head' hxy hyx)⟩
  · obtain ⟨z, hz, hyz⟩ := h.call hxy key' hkey'
    exact ⟨z, hz.mono hlater, hyz⟩

end Clear

/-- Under a mark that is new, a computation finds what it finds without. -/
theorem Resolution.Finds.guarded {α : Type} {P : α → Grammar → Prop} {key : Pending}
    {fault : List Pending → Fault} {z : Resolution α} (hkey : key ∉ g.pending)
    (hP : ∀ {a g1 g2}, g1.Extends g2 → P a g1 → P a g2)
    (hz : Finds S base { g with pending := key :: g.pending } z P) :
    Finds S base g (guarded key fault z) P := by
  obtain ⟨a, g1, ha, h1, hPa⟩ := hz
  have hlater : ∀ (k : Grammar) (keys : List Pending), k.Extends { k with pending := keys } :=
    fun k keys => Grammar.extends_of_eq rfl rfl
  refine ⟨a, { g1 with pending := g1.pending.tail }, ?_, ⟨?_, ?_, ?_⟩, hP (hlater _ _) hPa⟩
  · unfold Resolution.guarded
    simp only [List.contains_iff_mem, hkey, if_false, ha]
  · exact h1.fits.of_same ⟨fun _ => ⟨_, rfl⟩, rfl, rfl, rfl⟩ (hlater _ _) fun f => by
      cases f <;> rfl
  · exact ((hlater _ _).trans h1.later).trans (hlater _ _)
  · show g1.pending.tail = g.pending
    rw [h1.pending]
    rfl

/-! ## Error kinds -/

/-- Following so many questions finds the error kinds of what has the skeleton; what is found to
have none is nullable. -/
structure KindsFound (S : Skeletons) (base : Grammar) (n : Nat) (x : Skeleton) : Prop where
  parser : ∀ {g : Grammar} {p : Parser}, Fits S base g → Clear S base g x →
    HasSkeleton S base g (.parser p) x →
    Finds S base g (errorKindOf (resolver n) p) fun kind _ => kind = none → S.Nullable x
  parsers : ∀ {g : Grammar} {ps : List Parser}, Fits S base g → Clear S base g x →
    HasSkeleton S base g (.parsers ps) x →
    Finds S base g (sequenceErrorKind (resolver n) ps) fun kind _ => kind = none → S.Nullable x
  /-- The error kind of attempts is that of the last one. -/
  attempts : ∀ {g : Grammar} {ts : List (Attempt Parser)} {t : Attempt Parser}, Fits S base g →
    Clear S base g x → HasSkeleton S base g (.attempts ts) x → ts.getLast? = some t →
    Finds S base g (sequenceErrorKind (resolver n) t.parsers) fun kind _ =>
      kind = none → S.Nullable x

/-! ## Plans -/

/-- A sum with a variant without fields cannot fail. -/
theorem nullable_of_unit : ∀ {vs : List Variant} {x : Skeleton}, vs.any (·.isUnit) = true →
    HasSkeleton S base g (.variants (reachable vs).1) x → S.Nullable x
  | v :: vs, x, hany, hx => by
    unfold reachable at hx
    split at hx
    · rename_i hunit
      cases hx with
      | lastVariant _ hx =>
        rw [List.isEmpty_iff.mp hunit] at hx
        cases hx with
        | noFields => exact .nil
    · rename_i hunit
      rw [List.any_cons, Bool.eq_false_iff.mpr hunit, Bool.false_or] at hany
      cases hrest : (reachable vs).1 with
      | nil =>
        have hne : vs ≠ [] := by
          rintro rfl
          cases hany
        exact absurd hrest (reachable_ne_nil hne)
      | cons w ws =>
        simp only [hrest] at hx
        cases hx with
        | nextVariant _ _ hx => exact .second (nullable_of_unit hany (hrest ▸ hx))

section Plans

variable {m : Nat} (hm : S.depth < m)
include hm

/-- Variants are planned attempt by attempt. -/
theorem finds_planVariants : ∀ {vs : List Variant} {g : Grammar} {x : Skeleton}, UnitLast vs →
    Fits S base g → HasSkeleton S base g (.variants vs) x →
    Finds S base g (planVariants (resolver m) vs) fun ts g' =>
      HasSkeleton S base g' (.attempts ts) x
  | [v], g, x, _, hg, hx => by
    cases hx with
    | lastVariant haccepts hx =>
      refine .bind (finds_fieldParsers hm v.target hg hx) fun ps g1 h1 hps => ?_
      exact .pure h1.fits (.lastAttempt rfl (hps.1 ▸ haccepts) hps.2)
  | v :: w :: vs, g, x, hunit, hg, hx => by
    cases hx with
    | nextVariant haccepts hx hxs =>
      have hv : v.isUnit = false := hunit.1 (List.cons_ne_nil _ _)
      refine .bind (finds_fieldParsers hm v.target hg hx) fun ps g1 h1 hps => ?_
      refine .bind (finds_planVariants hunit.2 h1.fits (hxs.mono h1.later)) fun ts g2 h2 hts => ?_
      refine .pure h2.fits ?_
      have hps' := hps.2.mono h2.later
      have hunit' : ps.isEmpty = false := by
        have hlen := hps.1
        unfold Variant.isUnit at hv
        cases ps <;> cases hf : v.fields <;> simp_all
      cases ts with
      | nil => cases hts
      | cons u us => exact .nextAttempt hunit' (by simp [hv]) (hps.1 ▸ haccepts) hps' hts

omit hm in
theorem finds_reportHidden {target : ClassRef} {shown hidden : List Variant} (hg : Fits S base g) :
    Finds S base g (reportHidden target shown hidden) fun _ _ => True := by
  unfold reportHidden
  split
  · exact .pure hg trivial
  · exact .pure hg trivial
  · exact .report hg

/-- A schema is planned where the error kinds of its parts are found. -/
theorem finds_planSchema {schema : Schema} (hg : Fits S base g) (hclear : Clear S base g x)
    (hkinds : KindsFound S base m x)
    (hx : (∃ target fs, schema = .product target fs ∧ base.Accepts target fs.length ∧
        HasSkeleton S base g (.fields fs) x) ∨
      ∃ target vs, schema = .sum target vs ∧
        HasSkeleton S base g (.variants (reachable vs).1) x) :
    Finds S base g (planSchema (resolver m) schema) fun plan g' =>
      HasSkeleton S base g' (.attempts plan.attempts) x ∧
        (plan.errorKind = none → S.Nullable x) := by
  rcases hx with ⟨target, fs, rfl, haccepts, hx⟩ | ⟨target, vs, rfl, hx⟩
  · refine .bind (finds_fieldParsers hm target hg hx) fun ps g1 h1 hps => ?_
    refine .bind (hkinds.parsers h1.fits (hclear.onward h1) hps.2) fun kind g2 h2 hkind => ?_
    exact .get (.pure h2.fits
      ⟨.lastAttempt rfl (hps.1 ▸ haccepts) (hps.2.mono h2.later), hkind⟩)
  · refine .bind (finds_reportHidden hg) fun _ g1 h1 _ => ?_
    refine .bind (finds_planVariants hm (reachable_unitLast vs) h1.fits (hx.mono h1.later))
      fun ts g2 h2 hts => ?_
    refine .bind (P := fun kind g' => kind = none → S.Nullable x) ?_ fun kind g3 h3 hkind =>
      .pure h3.fits ⟨hts.mono h3.later, hkind⟩
    unfold sumErrorKind
    split
    · rename_i hany
      exact .pure h2.fits fun _ => nullable_of_unit hany hx
    · cases hlast : ts.getLast? with
      | none =>
        rw [List.getLast?_eq_none_iff.mp hlast] at hts
        cases hts
      | some t => exact hkinds.attempts h2.fits ((hclear.onward h1).onward h2) hts hlast

/-- **A class that has a skeleton is planned**, where the error kinds of its parts are found. -/
theorem finds_findPlan {c : ClassId} (acyclic : S.Acyclic) (hg : Fits S base g)
    (hclear : Clear S base g (.cls c)) (hc : S.ofClass c = some x) (hkinds : KindsFound S base m x)
    (hx : HasSkeleton S base base (.plan c) x) :
    Finds S base g (findPlan (resolver m) c) fun plan g' =>
      (Finding.plan c).Fits S base g' plan := by
  refine .remember hg fun hunknown => .get ?_
  have hsize : c < base.classes.size := by cases hx <;> assumption
  rw [if_neg (Nat.not_le_of_lt (hg.declared.classCount ▸ hsize))]
  -- which schema is planned
  obtain ⟨schema, hschema, hparts⟩ : ∃ schema, base.schemaOf (.declared c) = .ok schema ∧
      ((∃ target fs, schema = .product target fs ∧ base.Accepts target fs.length ∧
        HasSkeleton S base base (.fields fs) x) ∨
      ∃ target vs, schema = .sum target vs ∧
        HasSkeleton S base base (.variants (reachable vs).1) x) := by
    cases hx with
    | planFound _ hp =>
      have hknown : (Finding.plan c).known? base = some _ := hp
      cases hunknown.symm.trans (hg.known hknown)
    | product _ _ hschema haccepts hx => exact ⟨_, hschema, .inl ⟨_, _, rfl, haccepts, hx⟩⟩
    | sum _ _ hschema hx => exact ⟨_, hschema, .inr ⟨_, _, rfl, hx⟩⟩
  have hkey : Pending.HasSkeleton S base g (.cls c) (.cls c) := rfl
  have hmarked : Fits S base { g with pending := .cls c :: g.pending } :=
    hg.of_same ⟨fun _ => ⟨_, rfl⟩, rfl, rfl, rfl⟩ (Grammar.extends_of_eq rfl rfl) fun f => by
      cases f <;> rfl
  refine .bind (P := fun (plan : Plan Parser) g' =>
      HasSkeleton S base g' (.attempts plan.attempts) x ∧ (plan.errorKind = none → S.Nullable x))
    (.guarded (hclear.not_mem hkey) (fun hlater h => ⟨HasSkeleton.mono hlater h.1, h.2⟩)
      (.get ?_)) fun plan g1 h1 hplan => ?_
  · rw [hmarked.declared.schemaOf_eq, hschema]
    refine .bind (.pure hmarked (P := fun a _ => a = schema) rfl) fun a g1 h1 ha => ?_
    subst ha
    refine finds_planSchema hm h1.fits ((hclear.mark acyclic hkey (.cls hc)).onward h1) hkinds ?_
    have hlater := hmarked.later.trans h1.later
    exact hparts.imp (fun ⟨target, fs, h, h', hx⟩ => ⟨target, fs, h, h', hx.mono hlater⟩)
      fun ⟨target, vs, h, hx⟩ => ⟨target, vs, h, hx.mono hlater⟩
  · refine .bind (.report h1.fits) fun _ g2 h2 _ => .pure h2.fits fun g3 y hlater hy => ?_
    have hbase : base.Extends g3 := h2.fits.later.trans hlater
    cases (hx.mono hbase).unique hy
    exact ⟨(hplan.1.mono h2.later).mono hlater, hplan.2⟩

end Plans

/-! ## All questions -/

namespace KindsFound

variable {m n : Nat}

/-- What is behind a delayed parser decides its error kind. -/
theorem finds_boxErrorKind (acyclic : S.Acyclic) (hm : S.depth < m) (hkinds : KindsFound S base m x)
    {b : BoxId} (hg : Fits S base g) (hclear : Clear S base g (.within x))
    (hx : HasSkeleton S base g (.parser (.box b)) (.within x)) :
    Finds S base g (findBoxErrorKind (resolver m) b) fun kind _ =>
      kind = none → S.Nullable (.within x) := by
  have hkey : Pending.HasSkeleton S base g (.box b) (.within x) := hx
  have hlater : g.Extends { g with pending := .box b :: g.pending } := Grammar.extends_of_eq rfl rfl
  have hmarked : Fits S base { g with pending := .box b :: g.pending } :=
    hg.of_same ⟨fun _ => ⟨_, rfl⟩, rfl, rfl, rfl⟩ hlater fun f => by cases f <;> rfl
  refine .imp (.remember hg fun _ => .imp (P := fun kind _ => kind = none → S.Nullable x)
    (.guarded (hclear.not_mem hkey) (fun _ h => h) ?_) fun kind g1 h1 hkind g2 y hlater hy => ?_)
    fun kind g1 h1 hkind => hkind g1 _ (.refl g1) (hx.mono h1.later)
  · refine .bind (finds_openBox hm hmarked (hx.mono hlater)) fun p g1 h1 hp => ?_
    exact hkinds.parser h1.fits ((hclear.mark acyclic hkey .within).onward h1) hp
  · rw [← ((hx.mono h1.later).mono hlater).unique hy]
    exact fun hnone => .within (hkind hnone)

/-- What is the skeleton of a parser only. -/
theorem of_single (hparts : ∀ {g ps}, ¬ HasSkeleton S base g (.parsers ps) x)
    (hnext : ∀ {g t u ts}, ¬ HasSkeleton S base g (.attempts (t :: u :: ts)) x)
    (h : ∀ {g : Grammar} {p : Parser}, Fits S base g → Clear S base g x →
      HasSkeleton S base g (.parser p) x →
      Finds S base g (errorKindOf (resolver n) p) fun kind _ => kind = none → S.Nullable x) :
    KindsFound S base n x where
  parser := h
  parsers _ _ hx := absurd hx hparts
  attempts {g ts t} _ _ hx _ := by
    match ts, hx with
    | [u], .lastAttempt _ _ hx => exact absurd hx hparts
    | _ :: _ :: _, hx => exact absurd hx hnext

theorem leaf : KindsFound S base n .leaf := by
  refine .of_single nofun nofun fun hg _ hx => ?_
  cases hx with
  | element | any | satisfy | misser => exact .pure hg nofun

theorem optional : KindsFound S base n (.optional x) := by
  refine .of_single nofun nofun fun hg _ hx => ?_
  cases hx with
  | opt | many => exact .pure hg fun _ => .optional
  | not => exact .pure hg nofun

theorem within (acyclic : S.Acyclic) (hm : S.depth < m) (hbox : KindsFound S base m x)
    (h : KindsFound S base (m + 1) x) : KindsFound S base (m + 1) (.within x) := by
  refine .of_single nofun nofun fun hg hclear hx => ?_
  have hbody := hclear.call .within
  cases hx with
  | many1 hx | map _ hx | recorded hx =>
    have hkinds := h.parser hg hbody hx
    exact .imp hkinds fun _ _ _ hkind hnone => .within (hkind hnone)
  | planned hkind _ | generated hkind _ => exact .pure hg fun hnone => .within (hkind hnone)
  | boxFound hp hkind hx =>
    exact hbox.finds_boxErrorKind acyclic hm hg hclear (.boxFound hp hkind hx)
  | boxOpen hp hkind hb hx =>
    exact hbox.finds_boxErrorKind acyclic hm hg hclear (.boxOpen hp hkind hb hx)

theorem row (h : KindsFound S base n x) : KindsFound S base n (.row x) := by
  refine .of_single nofun nofun fun hg hclear hx => ?_
  cases hx with
  | seq hx =>
    exact .imp (h.parsers hg (hclear.call .row) hx) fun _ _ _ hkind hnone => .row (hkind hnone)

/-- What is the skeleton of parts only. The attempts of a single one have the error kind of its
parts. -/
theorem of_parsers (hparser : ∀ {g p}, ¬ HasSkeleton S base g (.parser p) x)
    (hnext : ∀ {g t u ts}, ¬ HasSkeleton S base g (.attempts (t :: u :: ts)) x)
    (h : ∀ {g : Grammar} {ps : List Parser}, Fits S base g → Clear S base g x →
      HasSkeleton S base g (.parsers ps) x →
      Finds S base g (sequenceErrorKind (resolver n) ps) fun kind _ => kind = none → S.Nullable x) :
    KindsFound S base n x where
  parser _ _ hx := absurd hx hparser
  parsers := h
  attempts {g ts t} hg hclear hx hlast := by
    match ts, hx with
    | [u], .lastAttempt _ _ hx =>
      cases hlast
      exact h hg hclear hx
    | _ :: _ :: _, hx => exact absurd hx hnext

theorem nil : KindsFound S base n .nil := by
  refine .of_parsers nofun nofun fun hg _ hx => ?_
  cases hx with
  | noParts => exact .pure hg fun _ => .nil

/-- A sequence goes on where its first part has no error kind. -/
theorem cons (hx : KindsFound S base n x) (hy : S.Nullable x → KindsFound S base n y) :
    KindsFound S base n (.cons x y) := by
  refine .of_parsers nofun nofun fun hg hclear h => ?_
  cases h with
  | parts hp hps =>
    refine .bind (hx.parser hg (hclear.call .head) hp) fun kind g1 h1 hkind => ?_
    cases kind with
    | some k => exact .pure h1.fits nofun
    | none =>
      have hnull := hkind rfl
      exact .imp ((hy hnull).parsers h1.fits ((hclear.call (.tail hnull)).onward h1)
        (hps.mono h1.later)) fun _ _ _ hrest hnone => .cons hnull (hrest hnone)

/-- The error kind of a choice is that of what is tried last. -/
theorem choice (hy : KindsFound S base n y) : KindsFound S base n (.choice x y) where
  parser hg hclear h := by
    cases h with
    | either _ h =>
      have hkinds := hy.parser hg (hclear.call .second) h
      exact .imp hkinds fun _ _ _ hkind hnone => .second (hkind hnone)
  parsers _ _ hx := nomatch hx
  attempts {g ts t} hg hclear h hlast := by
    match ts, h with
    | [u], .lastAttempt _ _ hx => exact nomatch u.parsers, hx
    | _ :: u :: us, .nextAttempt _ _ _ _ h =>
      rw [List.getLast?_cons_cons] at hlast
      have hkinds := hy.attempts hg (hclear.call .second) h hlast
      exact .imp hkinds fun _ _ _ hkind hnone => .second (hkind hnone)

/-- The error kind of a class is that of its plan. -/
theorem cls {c : ClassId} (acyclic : S.Acyclic) (hm : S.depth < m)
    (h : ∀ {a}, S.ofClass c = some a →
      KindsFound S base m a ∧ HasSkeleton S base base (.plan c) a) :
    KindsFound S base (m + 1) (.cls c) := by
  refine .of_single nofun nofun fun hg hclear hx => ?_
  cases hx with
  | derived hc =>
    obtain ⟨a, ha⟩ := Option.isSome_iff_exists.mp hc
    obtain ⟨hkinds, hplan⟩ := h ha
    refine .bind (finds_findPlan hm acyclic hg hclear ha hkinds hplan) fun plan g1 h1 hfits => ?_
    refine .pure h1.fits fun hnone => .cls ha ?_
    exact (hfits g1 a (.refl g1) (hplan.mono h1.fits.later)).2 hnone

end KindsFound

/-- The skeletons of the classes are those of their plans. -/
def Skeletons.Describes (S : Skeletons) (base : Grammar) : Prop :=
  ∀ {c x}, S.ofClass c = some x → HasSkeleton S base base (.plan c) x

/-- The classes with a skeleton are classes of the grammar. -/
theorem Skeletons.Describes.bounded (h : S.Describes base) : S.Bounded base.classes.size := by
  intro c x hc
  cases h hc <;> assumption

/-- **Where left calls do not go in a circle, all error kinds are found** by following so many
questions, or more. -/
theorem kindsFound (describes : S.Describes base) (acyclic : S.Acyclic) (x : Skeleton) :
    ∃ N, ∀ n, N ≤ n → KindsFound S base n x := by
  induction x using (acyclic.wellFounded describes.bounded).induction with
  | _ x ih =>
    cases x with
    | leaf => exact ⟨0, fun n _ => .leaf⟩
    | optional x => exact ⟨0, fun n _ => .optional⟩
    | nil => exact ⟨0, fun n _ => .nil⟩
    | within x =>
      obtain ⟨N, hN⟩ := ih x .within
      refine ⟨max N (S.depth + 1) + 1, fun n hn => ?_⟩
      obtain ⟨m, rfl⟩ : ∃ m, n = m + 1 := ⟨n - 1, by omega⟩
      exact .within acyclic (by omega) (hN m (by omega)) (hN (m + 1) (by omega))
    | row x =>
      obtain ⟨N, hN⟩ := ih x .row
      exact ⟨N, fun n hn => .row (hN n hn)⟩
    | cons x y =>
      obtain ⟨N, hN⟩ := ih x .head
      by_cases hx : S.Nullable x
      · obtain ⟨M, hM⟩ := ih y (.tail hx)
        exact ⟨max N M, fun n hn => .cons (hN n (by omega)) fun _ => hM n (by omega)⟩
      · exact ⟨N, fun n hn => .cons (hN n hn) fun h => absurd h hx⟩
    | choice x y =>
      obtain ⟨N, hN⟩ := ih y .second
      exact ⟨N, fun n hn => .choice (hN n hn)⟩
    | cls c =>
      cases hc : S.ofClass c with
      | none =>
        refine ⟨S.depth + 2, fun n hn => ?_⟩
        obtain ⟨m, rfl⟩ : ∃ m, n = m + 1 := ⟨n - 1, by omega⟩
        exact .cls acyclic (by omega) fun ha => nomatch hc.symm.trans ha
      | some a =>
        obtain ⟨N, hN⟩ := ih a (.cls hc)
        refine ⟨max N (S.depth + 1) + 1, fun n hn => ?_⟩
        obtain ⟨m, rfl⟩ : ∃ m, n = m + 1 := ⟨n - 1, by omega⟩
        refine .cls acyclic (by omega) fun ha => ?_
        cases hc.symm.trans ha
        exact ⟨hN m (by omega), describes hc⟩

/-- **All classes are planned** by following so many questions, or more. -/
theorem plansFound (describes : S.Describes base) (acyclic : S.Acyclic) :
    ∃ N, ∀ n, N ≤ n → ∀ {g : Grammar} {c : ClassId} {x : Skeleton}, Fits S base g →
      g.pending = [] → S.ofClass c = some x →
      Finds S base g ((resolver n).planOf c) fun plan g' =>
        HasSkeleton S base g' (.attempts plan.attempts) x := by
  -- the classes are finitely many
  have hall : ∀ k, ∃ N, ∀ n, N ≤ n → ∀ {g : Grammar} {c : ClassId} {x : Skeleton}, c < k →
      Fits S base g → g.pending = [] → S.ofClass c = some x →
      Finds S base g ((resolver n).planOf c) fun plan g' =>
        HasSkeleton S base g' (.attempts plan.attempts) x := by
    intro k
    induction k with
    | zero => exact ⟨0, fun n _ _ c _ hc => absurd hc (Nat.not_lt_zero c)⟩
    | succ k ih =>
      obtain ⟨N, hN⟩ := ih
      obtain ⟨M, hM⟩ : ∃ M, ∀ m, M ≤ m → ∀ {x}, S.ofClass k = some x → KindsFound S base m x := by
        cases hk : S.ofClass k with
        | none => exact ⟨0, fun _ _ _ h => nomatch h⟩
        | some a =>
          obtain ⟨M, hM⟩ := kindsFound describes acyclic a
          exact ⟨M, fun m hm _ h => Option.some.inj h ▸ hM m hm⟩
      refine ⟨max N (max M (S.depth + 1) + 1), fun n hn g c x hc hg hpending hx => ?_⟩
      rcases Nat.lt_succ_iff_lt_or_eq.mp hc with hlt | rfl
      · exact hN n (by omega) hlt hg hpending hx
      · obtain ⟨m, rfl⟩ : ∃ m, n = m + 1 := ⟨n - 1, by omega⟩
        refine .imp (finds_findPlan (by omega) acyclic hg (.of_pending_eq_nil hpending) hx
          (hM m (by omega) hx) (describes hx)) fun plan g1 h1 hfits => ?_
        exact (hfits g1 x (.refl g1) ((describes hx).mono h1.fits.later)).1
  obtain ⟨N, hN⟩ := hall base.classes.size
  exact ⟨N, fun n hn _ _ _ hg hpending hx => hN n hn (describes.bounded hx) hg hpending hx⟩

end ShapeGrammar
