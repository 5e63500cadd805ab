import ShapeGrammar.Proofs.Resolution.Keeps

/-!
# What delayed parsers and aliases are made of

Resolution adds delayed parsers and finds out what is behind those that exist. How a delayed parser
is to be found out stays as it was when it came into being, and so does the expression of an alias.

Headlines: `Grammar.Extends`, `Grammar.extends_keep`, `Finding.forall_known_keep`.
-/

namespace ShapeGrammar

namespace Grammar

/-- `g'` has the delayed parsers of `g`, and maybe more, and the same aliases. -/
structure Extends (g g' : Grammar) : Prop where
  boxCount : g.boxes.size ≤ g'.boxes.size
  body : ∀ {b}, b < g.boxes.size → (g'.boxInfo b).body = (g.boxInfo b).body
  expression : ∀ a, (g'.aliasInfo a).expression = (g.aliasInfo a).expression

theorem Extends.refl (g : Grammar) : g.Extends g :=
  ⟨Nat.le_refl _, fun _ => rfl, fun _ => rfl⟩

theorem Extends.trans {g g' g'' : Grammar} (h : g.Extends g') (h' : g'.Extends g'') :
    g.Extends g'' where
  boxCount := Nat.le_trans h.boxCount h'.boxCount
  body hb := (h'.body (Nat.lt_of_lt_of_le hb h.boxCount)).trans (h.body hb)
  expression a := (h'.expression a).trans (h.expression a)

/-- Neither delayed parsers nor aliases were touched. -/
theorem extends_of_eq {g g' : Grammar} (hboxes : g'.boxes = g.boxes)
    (haliases : g'.aliases = g.aliases) : g.Extends g' := by
  refine ⟨Nat.le_of_eq (congrArg Array.size hboxes.symm), fun {b} _ => ?_, fun a => ?_⟩
  · exact congrArg (fun bs : Array BoxInfo => (bs.getD b default).body) hboxes
  · exact congrArg (fun as : Array AliasInfo => (as.getD a default).expression) haliases

theorem extends_pushBox (g : Grammar) (info : BoxInfo) :
    g.Extends { g with boxes := g.boxes.push info } :=
  ⟨by simp, fun hb => congrArg BoxInfo.body (boxInfo_push_of_lt g info hb), fun _ => rfl⟩

/-- To keep a finding changes nothing of what it is about. -/
theorem extends_keep {α : Type} (f : Finding α) (g : Grammar) (a : α) :
    g.Extends (f.keep g a) := by
  cases f with
  | plan c => exact extends_of_eq rfl rfl
  | value b =>
    refine ⟨Nat.le_refl _, fun _ => rfl, fun d => ?_⟩
    simp only [Finding.keep, aliasInfo_updateAlias]
    split <;> rfl
  | handle b =>
    refine ⟨Nat.le_refl _, fun _ => rfl, fun d => ?_⟩
    simp only [Finding.keep, aliasInfo_updateAlias]
    split <;> rfl
  | box b =>
    refine ⟨Nat.le_of_eq (by simp [Finding.keep, updateBox]), fun {d} _ => ?_, fun _ => rfl⟩
    simp only [Finding.keep, boxInfo_updateBox]
    split <;> rfl
  | kind b =>
    refine ⟨Nat.le_of_eq (by simp [Finding.keep, updateBox]), fun {d} _ => ?_, fun _ => rfl⟩
    simp only [Finding.keep, boxInfo_updateBox]
    split <;> rfl

end Grammar

/-- What holds of everything that is known, and of what is kept, holds of everything that is known
then. -/
theorem Finding.forall_known_keep {P : {α : Type} → Finding α → α → Prop} {g : Grammar}
    (hold : ∀ {α : Type} {f : Finding α} {a : α}, f.known? g = some a → P f a) {α : Type}
    {f : Finding α} {a : α} (hnew : P f a) {β : Type} {f' : Finding β} {b : β}
    (h : f'.known? (f.keep g a) = some b) : P f' b := by
  cases f <;> cases f' <;>
    simp only [Finding.known?, Finding.keep, Grammar.classInfo_updateClass,
      Grammar.aliasInfo_updateAlias, Grammar.boxInfo_updateBox] at h
  all_goals first
    | exact hold h
    | (split at h
       · first
         | exact hold h
         | (rename_i heq
            obtain ⟨rfl, -⟩ := heq
            cases h
            exact hnew)
       · exact hold h)

end ShapeGrammar
