import ShapeGrammar.Plan

/-!
# Log

What planning and parsing report while they go on: that a class was planned, that a variant hides
those after it, and that an alternative missed. Reports have a level, and a session listens from
one level on; a report below it is not even put together.

Headlines: `Report`, `Report.level`, `Report.message`.
-/

namespace ShapeGrammar

/-- How much a report matters. -/
inductive LogLevel
  | debug
  | info
  | warning
  deriving DecidableEq, Repr, Inhabited

namespace LogLevel

/-- The name of a level. -/
def name : LogLevel → String
  | .debug => "DEBUG"
  | .info => "INFO"
  | .warning => "WARNING"

/-- The rank of a level. -/
def rank : LogLevel → Nat
  | .debug => 0
  | .info => 1
  | .warning => 2

/-- Whether someone who listens from `threshold` on hears this level. -/
def heardFrom (level : LogLevel) : Option LogLevel → Bool
  | none => false
  | some threshold => threshold.rank ≤ level.rank

end LogLevel

/-- A report. -/
inductive Report
  /-- A class was planned. -/
  | planned (kind : PlanKind) (name : String) (attempts : Nat)
      (errorKind : Option FailureKind) (snapshots : Bool)
  /-- A variant always matches, so those after it never do. -/
  | hides (name variant : String) (hidden : List String)
  /-- The left arm of a choice missed. -/
  | armMissed (left : String) (position : Nat) (right : String)
  /-- An attempt that is not the last one missed. -/
  | attemptMissed (name attempt : String) (position : Nat)
  deriving DecidableEq, Repr, Inhabited

namespace Report

/-- The level of a report. -/
def level : Report → LogLevel
  | .planned .. => .info
  | .hides .. => .warning
  | .armMissed .. => .debug
  | .attemptMissed .. => .debug

/-- The name of the log that a report goes to. -/
def logger : Report → String
  | .planned .. => "shapeparse.derive"
  | .hides .. => "shapeparse.derive"
  | .armMissed .. => "shapeparse.backtrack"
  | .attemptMissed .. => "shapeparse.backtrack"

/-- The wording of a report. -/
def message : Report → String
  | .planned kind name attempts errorKind snapshots =>
    "derived " ++ kind.name ++ " " ++ name ++ ": " ++ toString attempts ++
      " attempt(s), error type " ++ (errorKind.map FailureKind.name).getD "none" ++ ", " ++
      (if snapshots then "snapshots" else "no snapshots")
  | .hides name variant hidden =>
    name ++ ": variant " ++ variant ++ " always matches, so " ++ ", ".intercalate hidden ++
      " can never match"
  | .armMissed left position right =>
    left ++ " missed at " ++ toString position ++ "; backtracking to " ++ right
  | .attemptMissed name attempt position =>
    name ++ "." ++ attempt ++ " missed at " ++ toString position ++ "; backtracking"

end Report

end ShapeGrammar
