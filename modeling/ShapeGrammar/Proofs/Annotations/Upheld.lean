import ShapeGrammar.Proofs.Annotations.Expansion
import ShapeGrammar.Proofs.Inhabitation.Resolved
import ShapeGrammar.Proofs.Termination.Plain

/-!
# What is kept of aliases

The parsers of aliases are kept from one question to the next, and while one alias is expanded
others are found. Whatever is found out, the parser that is kept of an alias has the structure that
the expansion of the alias gives it.

Headlines: `Grammar.Binds`, `Grammar.Upholds`, `Grammar.Upholds.keep`, `Grammar.upholds_steps`.
-/

namespace ShapeGrammar

open Resolution Relation

namespace Grammar

/-- What the aliases of a grammar stand for: the value is there already, or it is written without
building a parser, and all names in it stand for something. -/
def Binds (g : Grammar) (env : Environment) : Prop :=
  ∀ a, (g.aliasInfo a).value = some (env a) ∨
    (g.aliasInfo a).value = none ∧ g.Means (g.aliasInfo a).expression (env a)

/-- A later state of a grammar, in which the parser of an alias has the structure of its expansion.
-/
structure Upholds (env : Environment) (g0 g : Grammar) : Prop extends g0.Persists g where
  aliasCount : g.aliases.size = g0.aliases.size
  name : ∀ a, (g.aliasInfo a).name = (g0.aliasInfo a).name
  binds : g.Binds env
  handle : ∀ {a h}, (g.aliasInfo a).parser = some h →
    ∃ x, g0.Expands env (.alias a) x ∧ g.Builds x h.body

/-- What a refusal stops at: showing the shape may fail. -/
def stopShowing (g : Grammar) (shown : Option Shape) (f : SchemaFault) : Stop :=
  match shown with
  | none => .fault (.schema f)
  | some a =>
    match g.showShape a with
    | .ok _ => .fault (.schema f)
    | .error e => e

variable {env : Environment} {g0 g g' : Grammar}

theorem Builds.mono {x : Expansion} {p : Parser} (h : g.Builds x p) (hg : g.Persists g') :
    g'.Builds x p := by
  induction h with
  | leaf => exact .leaf
  | seq length _ ih => exact .seq length ih
  | opt _ ih => exact .opt ih
  | many _ ih => exact .many ih
  | many1 _ ih => exact .many1 ih
  | either _ _ ihl ihr => exact .either ihl ihr
  | not _ ih => exact .not ih
  | delayed lt is =>
    obtain ⟨lt', hbody⟩ := hg.boxes lt
    exact .delayed lt' (hbody.trans is)

theorem Means.mono {e : ShapeExpr} {a : Shape} (h : g.Means e a) (hg : g.SameDeclarations g') :
    g'.Means e a :=
  ⟨h.1, h.evaluates hg⟩

/-- What is known of aliases later was known before, or is what they stand for. -/
theorem Upholds.extend (h : g0.Upholds env g) (hg : g.Persists g')
    (hcount : g'.aliases.size = g.aliases.size)
    (hname : ∀ a, (g'.aliasInfo a).name = (g.aliasInfo a).name)
    (hvalue : ∀ a, (g'.aliasInfo a).value = (g.aliasInfo a).value ∨
      (g'.aliasInfo a).value = some (env a))
    (hhandle : ∀ {a k}, (g'.aliasInfo a).parser = some k → (g.aliasInfo a).parser = some k ∨
      ∃ x, g0.Expands env (.alias a) x ∧ g'.Builds x k.body) : g0.Upholds env g' where
  toPersists := h.toPersists.trans hg
  aliasCount := hcount.trans h.aliasCount
  name a := (hname a).trans (h.name a)
  binds a := by
    rcases hvalue a with hsame | hknown
    · rw [hsame, hg.aliases a]
      exact (h.binds a).imp_right fun hnone => ⟨hnone.1, hnone.2.mono hg.toSameDeclarations⟩
    · exact .inl hknown
  handle hknown := by
    rcases hhandle hknown with hold | hnew
    · obtain ⟨x, hx, hbuilds⟩ := h.handle hold
      exact ⟨x, hx, hbuilds.mono hg⟩
    · exact hnew

theorem Upholds.of_eq (h : g0.Upholds env g) (hclasses : g'.classes = g.classes)
    (haliases : g'.aliases = g.aliases) (hboxes : g'.boxes = g.boxes)
    (hfields : g'.fields = g.fields) (hnames : g'.names = g.names) : g0.Upholds env g' := by
  have halias : ∀ a, g'.aliasInfo a = g.aliasInfo a := fun a => by
    unfold aliasInfo
    rw [haliases]
  exact h.extend (persists_of_eq hclasses haliases hboxes hfields hnames)
    (congrArg Array.size haliases) (fun a => by rw [halias]) (fun a => .inl (by rw [halias]))
    fun {a _} hknown => .inl (halias a ▸ hknown)

end Grammar

/-- What may be kept of an alias: its value, and a parser of its structure. -/
def Finding.Agrees (env : Environment) (g0 g : Grammar) {α : Type} : Finding α → α → Prop
  | .value a, found => found = env a
  | .handle a, h => ∃ x, g0.Expands env (.alias a) x ∧ g.Builds x h.body
  | _, _ => True

namespace Grammar

variable {env : Environment} {g0 g g' : Grammar}

theorem Upholds.keep (h : g0.Upholds env g) {α : Type} {f : Finding α} {found : α}
    (hfits : f.Agrees env g0 g found) : g0.Upholds env (f.keep g found) := by
  have hg := persists_keep (g := g) f found
  cases f with
  | plan c => exact h.extend hg rfl (fun _ => rfl) (fun _ => .inl rfl) .inl
  | box b => exact h.extend hg rfl (fun _ => rfl) (fun _ => .inl rfl) .inl
  | kind b => exact h.extend hg rfl (fun _ => rfl) (fun _ => .inl rfl) .inl
  | value c =>
    cases hfits
    refine h.extend hg Array.size_modify (fun a => ?_) (fun a => ?_) fun {a k} hk => ?_
    · simp only [Finding.keep, aliasInfo_updateAlias]
      split <;> rfl
    · simp only [Finding.keep, aliasInfo_updateAlias]
      split
      · rename_i hca
        exact .inr (by rw [hca.1])
      · exact .inl rfl
    · simp only [Finding.keep, aliasInfo_updateAlias] at hk
      split at hk <;> exact .inl hk
  | handle c =>
    obtain ⟨x, hx, hbuilds⟩ := hfits
    refine h.extend hg Array.size_modify (fun a => ?_) (fun a => ?_) fun {a k} hk => ?_
    · simp only [Finding.keep, aliasInfo_updateAlias]
      split <;> rfl
    · simp only [Finding.keep, aliasInfo_updateAlias]
      split <;> exact .inl rfl
    · simp only [Finding.keep, aliasInfo_updateAlias] at hk
      split at hk
      · rename_i hca
        cases hk
        exact .inr ⟨x, hca.1 ▸ hx, hbuilds.mono hg⟩
      · exact .inl hk

theorem upholds_steps (env : Environment) (g0 : Grammar) : StepLaw (Keeps (g0.Upholds env)) :=
  keeps_steps (fun _ h => h.of_eq rfl rfl rfl rfl rfl) (fun _ h => h.of_eq rfl rfl rfl rfl rfl)
    (fun _ h => h.of_eq rfl rfl rfl rfl rfl)
    fun _ h => h.extend (persists_pushBox _) rfl (fun _ => rfl) (fun _ => .inl rfl) .inl

end Grammar

end ShapeGrammar
