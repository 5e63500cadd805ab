import ShapeGrammar.Proofs.Grammar.Precedence
import ShapeGrammar.Resolve

/-!
# What was reported decides nothing

A grammar keeps reports for whoever listens, and nothing ever reads them. Here: nothing that is
looked up in a grammar depends on them. What is described depends on the declarations and on the
delayed parsers alone.

Headlines: `Grammar.withReports`, `Grammar.schemaOf_withReports`, `SameDeclarations.showShape_eq`,
`Grammar.describe_withReports`.
-/

namespace ShapeGrammar

namespace Grammar

/-- The grammar with other reports. -/
def withReports (g : Grammar) (rs : Array Report) : Grammar :=
  { g with reports := rs }

variable (g : Grammar) (rs : Array Report)

theorem sameDeclarations_withReports : g.SameDeclarations (g.withReports rs) where
  classes c := ⟨(g.classInfo c).plan, rfl⟩
  classCount := rfl
  fields := rfl
  names := rfl

/-- Other reports are no more than was told in the meantime. -/
theorem Precedes.withReports : g.Precedes (g.withReports rs) :=
  { Precedes.refl g with known := fun {_ f _} hk => by cases f <;> exact hk }

theorem report_eq_withReports (r : Report) : ∃ reports, g.report r = g.withReports reports := by
  unfold report
  split
  · exact ⟨g.reports.push r, rfl⟩
  · exact ⟨g.reports, rfl⟩

theorem lookup_withReports (path : Path) : (g.withReports rs).lookup path = g.lookup path :=
  (g.sameDeclarations_withReports rs).lookup_eq path

theorem schemaOf_withReports (c : ClassRef) : (g.withReports rs).schemaOf c = g.schemaOf c :=
  (g.sameDeclarations_withReports rs).schemaOf_eq c

end Grammar

/-! ## Descriptions -/

section Describing

variable {g g' : Grammar} (h : g.SameDeclarations g')
include h

-- the two halves of a mutual block use different ones of the shared assumptions
set_option linter.unusedSectionVars false

namespace Grammar.SameDeclarations

mutual

theorem describeWith_eq (box : BoxId → Except Stop String) :
    ∀ p : Parser, p.describeWith g' box = p.describeWith g box
  | .element _ => rfl
  | .any => rfl
  | .satisfy _ _ => rfl
  | .seq [] => rfl
  | .seq (p :: ps) => by
    simp only [Parser.describeWith]
    rw [describeParts_eq box (p :: ps)]
  | .opt body => by
    simp only [Parser.describeWith]
    rw [describeWith_eq box body]
  | .many _ body => by
    simp only [Parser.describeWith]
    rw [describeWith_eq box body]
  | .many1 _ body => by
    simp only [Parser.describeWith]
    rw [describeWith_eq box body]
  | .either left right => by
    simp only [Parser.describeWith]
    rw [describeWith_eq box left, describeWith_eq box right]
  | .not body => by
    simp only [Parser.describeWith]
    rw [describeWith_eq box body]
  | .box _ => rfl
  | .map _ body => by
    simp only [Parser.describeWith]
    rw [describeWith_eq box body]
  | .derived c => by
    simp only [Parser.describeWith]
    rw [h.className_eq]
  | .planned plan => by
    simp only [Parser.describeWith]
    rw [h.className_eq]
  | .generated plan _ => by
    simp only [Parser.describeWith]
    rw [h.className_eq]
  | .recorded _ _ => rfl
  | .misser _ => rfl
  | .unimplemented => rfl
  | .inert => rfl

theorem describeParts_eq (box : BoxId → Except Stop String) :
    ∀ ps : List Parser, describeParts g' box ps = describeParts g box ps
  | [] => rfl
  | p :: ps => by
    simp only [describeParts]
    rw [describeWith_eq box p, describeParts_eq box ps]

end

variable (hboxes : g'.boxes = g.boxes)
include hboxes

theorem describeBox_eq (depth : Nat) : g'.describeBox depth = g.describeBox depth := by
  induction depth with
  | zero => rfl
  | succ depth ih =>
    funext b
    have hbox : g'.boxInfo b = g.boxInfo b := by
      unfold boxInfo
      rw [hboxes]
    unfold describeBox
    rw [ih, hbox]
    cases (g.boxInfo b).parser with
    | none => rfl
    | some p => exact h.describeWith_eq _ p

theorem describe_eq (p : Parser) : g'.describe p = g.describe p := by
  unfold describe
  rw [h.describeBox_eq hboxes, hboxes]
  exact h.describeWith_eq _ p

theorem showShape_eq (a : Shape) : g'.showShape a = g.showShape a := by
  have hdescribe : g'.describe = g.describe := funext (h.describe_eq hboxes)
  unfold showShape
  rw [hdescribe]

end Grammar.SameDeclarations

end Describing

namespace Grammar

variable (g : Grammar) (rs : Array Report)

theorem describe_withReports (p : Parser) : (g.withReports rs).describe p = g.describe p :=
  (g.sameDeclarations_withReports rs).describe_eq rfl p

theorem showShape_withReports (a : Shape) : (g.withReports rs).showShape a = g.showShape a :=
  (g.sameDeclarations_withReports rs).showShape_eq rfl a

end Grammar

end ShapeGrammar
