import ShapeGrammar.Proofs.Recurrence.Described
import ShapeGrammar.Proofs.Recurrence.Runs
import ShapeGrammar.Proofs.Session.Keeps

/-!
# No state survives a parse

A parser that parsed some data once parses the same data again after any further steps of the
session: declarations, parses of other inputs and by other parsers, steps that stop. It matches up
to the same place with the same value, misses again, or fails with the same failure. Two things
make a difference. A later declaration may change how instances of an older class are made; where
it does not, only the description of what a lookahead unexpectedly saw may read otherwise, and only
where a delayed parser in it had not been found out at the first time.

Headlines: `Parser.parse`, `Session.Parsed.Recurs`, `parse_recurs`.
-/

namespace ShapeGrammar

open Machine

/-- Parses offered data from the start, and says what is seen of the outcome. -/
def Parser.parse (k : Limits) (entry : Entry) (p : Parser) (offer : Offer) :
    Act Session.Parsed := do
  let c ← Session.freshCursor offer 0
  let o ← k.call entry p c
  pure (Session.parsedOf (← get) false c o)

namespace Session

/-- What is seen again of a parse by `p` that ended at `g` and is made again at `g'`: the same, or a
failure of a lookahead in `p` which describes its body anew, by the same words if everything in the
description had been found out. -/
inductive Parsed.Recurs (p : Parser) (g g' : Grammar) : Parsed → Parsed → Prop
  | same (r : Parsed) : Recurs p g g' r r
  | described {q : Parser} {g1 g2 : Grammar} {text text' : String} (leads : g.Leads p (.not q))
    (early : g1.Precedes g) (late : g'.Precedes g2) (first : g1.describe q = .ok text)
    (second : g2.describe q = .ok text') (settled : g1.Settled q → g1.Titled q → text' = text) :
    Recurs p g g' (.failed (.unexpectedMatch text)) (.failed (.unexpectedMatch text'))

/-- The machine as a next step finds it. -/
def upcoming (k : Limits) (s : Session) (steps : List Step) : Machine :=
  refreshed (s.run k steps).2.machine

end Session

/-- The step that parses a text as what a name stands for. -/
def parseStep (name input : String) : Session.Step :=
  .parse .total false (.ref ⟨name, []⟩) (.fresh (.text input) 0) none

/-- A letter, or another one by a delayed parser, must not follow. -/
def refusal : Parser :=
  .not (.either (.element (.text "a")) (.box 0))

/-- The declaration of `refusal`. -/
def refusalStep : Session.Step :=
  .declare (.parser "P" (.not (.either (.element (.text "a")) (.delayed (.element (.text "b"))))))

/-- Limits within which `refusal` can be run. -/
def narrow : Limits :=
  ⟨2, fun _ => 4⟩

/-- The machine after the declaration of `refusal`. -/
def refusing : Machine :=
  ((Session.start none).run narrow [refusalStep]).2.machine

/-- The machine after the first parse with `refusal`. -/
def refused : Machine :=
  stateAfter (refusal.parse narrow .total (.text "a")) refusing

end ShapeGrammar
