import ShapeGrammar.Resolve

/-!
# Storing factories

Files of factories are written, and written again, for shapes that can be planned. A file that was
not generated is never overwritten, and nothing is written unless every shape has a plan.

Headlines: `factoryFile`, `writeFactories`, `putFile`, `getFile`.
-/

namespace ShapeGrammar

open Resolution

/-- How a shape is turned into a plan. -/
inductive PlanSource
  /-- The plan of a derived shape. -/
  | shape
  /-- The plan of the schema of a class. -/
  | schema
  /-- The plan that the parser of the shape holds. -/
  | parser
  deriving DecidableEq, Repr, Inhabited

/-- The plan that a parser holds or finds. -/
def planHeld (r : Resolver) : Parser → Resolution (Plan Parser)
  | .derived c => r.planOf c
  | p =>
    match p.plan? with
    | some plan => pure plan
    | none => fail (.attribute .plan)

/-- The plan of a shape. -/
def planFrom (r : Resolver) (a : Shape) : PlanSource → Resolution (Plan Parser)
  | .shape => derivedPlan r a
  | .schema => do
    let schema ← schemaFor a
    planSchema r schema
  | .parser => do
    let h ← parserFor r a
    planHeld r h.body

/-- The plans of derived shapes, in order. -/
def derivedPlans (r : Resolver) : List Shape → Resolution (List (Plan Parser))
  | [] => pure []
  | a :: as => do
    let plan ← derivedPlan r a
    let plans ← derivedPlans r as
    pure (plan :: plans)

/-- The entry of a plan at a place of a file. -/
def factoryEntry (g : Grammar) (place : Nat) (plan : Plan Parser) : FactoryEntry :=
  let title := g.fullName plan.target
  ⟨title, plan.factory title (factoryName ++ "_" ++ toString place), plan.fingerprint title⟩

/-- The file of factories of some plans. -/
def factoryFile (g : Grammar) (plans : List (Plan Parser)) : FactoryFile :=
  ⟨plans.zipIdx.map fun p => factoryEntry g p.2 p.1⟩

/-- The file of factories of some derived shapes. -/
def renderFactories (r : Resolver) (shapes : List Shape) : Resolution FactoryFile := do
  let plans ← derivedPlans r shapes
  pure (factoryFile (← get) plans)

/-- Puts a text into a file of the directory. -/
def putFile (file text : String) : Resolution Unit := do
  if inMissingDirectory file then fail (.fileNotFound file)
  modify fun g => { g with files := Table.put g.files file text }

/-- The text of a file. -/
def getFile (file : String) : Resolution String := do
  match (← get).files.get? file with
  | some text => pure text
  | none => fail (.fileNotFound file)

/-- Writes the factories of some derived shapes to a file that is new or was generated. -/
def writeFactories (r : Resolver) (file : String) (shapes : List Shape) :
    Resolution FactoryFile := do
  match (← get).files.get? file with
  | some text =>
    if !isGenerated text then fail (.value (.notGenerated file))
  | none => pure ()
  let rendered ← renderFactories r shapes
  putFile file rendered.text
  pure rendered

end ShapeGrammar
