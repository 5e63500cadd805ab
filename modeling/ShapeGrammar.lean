import ShapeGrammar.Session.Execute
import ShapeGrammar.Arithmetic.Parse
import ShapeGrammar.Proofs.Computation
import ShapeGrammar.Proofs.Planning
import ShapeGrammar.Proofs.Grammar.Precedence
import ShapeGrammar.Proofs.Grammar.Reports
import ShapeGrammar.Proofs.Resolution.Law
import ShapeGrammar.Proofs.Resolution.Growth
import ShapeGrammar.Proofs.Factory.Names
import ShapeGrammar.Proofs.Factory.Scoping
import ShapeGrammar.Proofs.Factory.Simulation
import ShapeGrammar.Proofs.Machine.Lender
import ShapeGrammar.Proofs.Factory.Faithful
import ShapeGrammar.Proofs.Peg.Derivation
import ShapeGrammar.Proofs.Peg.Leads
import ShapeGrammar.Proofs.Peg.Refinement
import ShapeGrammar.Proofs.Machine.Relation
import ShapeGrammar.Proofs.Entry.Agreement
import ShapeGrammar.Proofs.Machine.Muted
import ShapeGrammar.Proofs.Composition.ByHand
import ShapeGrammar.Proofs.Composition.ErrorKind
import ShapeGrammar.Proofs.Composition.Counterpart
import ShapeGrammar.Proofs.Composition.Composed
import ShapeGrammar.Proofs.Resolution.Marks
import ShapeGrammar.Proofs.Resolution.Findings
import ShapeGrammar.Proofs.ErrorKinds.Candid
import ShapeGrammar.Proofs.ErrorKinds.Announced
import ShapeGrammar.Proofs.Resolution.Declared
import ShapeGrammar.Proofs.Factory.Form
import ShapeGrammar.Proofs.Factory.Heard
import ShapeGrammar.Proofs.Factory.Loading
import ShapeGrammar.Proofs.Factory.Writing
import ShapeGrammar.Proofs.Arithmetic.Language
import ShapeGrammar.Proofs.Grammar.Construct
import ShapeGrammar.Proofs.Peg.Certain
import ShapeGrammar.Proofs.Arithmetic.Instances
import ShapeGrammar.Proofs.Arithmetic.Stages
import ShapeGrammar.Proofs.Arithmetic.Longest
import ShapeGrammar.Proofs.Arithmetic.Printing
import ShapeGrammar.Proofs.Inhabitation.Resolved
import ShapeGrammar.Proofs.Inhabitation.Stored
import ShapeGrammar.Proofs.Inhabitation.Inhabited
import ShapeGrammar.Proofs.Inhabitation.Soundness
import ShapeGrammar.Proofs.Inhabitation.Checks
import ShapeGrammar.Proofs.Inhabitation.Records
import ShapeGrammar.Proofs.Conservation.Characters
import ShapeGrammar.Proofs.Conservation.Conserved
import ShapeGrammar.Proofs.Recurrence.Described
import ShapeGrammar.Proofs.Recurrence.Rerun
import ShapeGrammar.Proofs.Recurrence.Recurring
import ShapeGrammar.Proofs.Recurrence.Invoked
import ShapeGrammar.Proofs.Recurrence.Runs
import ShapeGrammar.Proofs.Session.Keeps
import ShapeGrammar.Proofs.Recurrence.Sessions
import ShapeGrammar.Proofs.Resolution.Extends
import ShapeGrammar.Proofs.Termination.Skeleton
import ShapeGrammar.Proofs.Termination.Unfolding
import ShapeGrammar.Proofs.Termination.Plain
import ShapeGrammar.Proofs.Termination.Fitting
import ShapeGrammar.Proofs.Termination.Resolving
import ShapeGrammar.Proofs.Termination.Kinds
import ShapeGrammar.Proofs.Termination.Describing
import ShapeGrammar.Proofs.Termination.Ending
import ShapeGrammar.Proofs.Termination.Running
import ShapeGrammar.Proofs.Termination.Checks
import ShapeGrammar.Proofs.Termination.Terminates
import ShapeGrammar.Proofs.Machine.Unfolding
import ShapeGrammar.Proofs.Machine.Handles
import ShapeGrammar.Proofs.Machine.Pairing
import ShapeGrammar.Proofs.Machine.Carried
import ShapeGrammar.Proofs.Machine.Ahead
import ShapeGrammar.Proofs.Machine.Alternatives
import ShapeGrammar.Proofs.Machine.Resting
import ShapeGrammar.Proofs.Machine.Translation
import ShapeGrammar.Proofs.Entry.Fallible
import ShapeGrammar.Proofs.Entry.Alarm
import ShapeGrammar.Proofs.Session.Cursors
import ShapeGrammar.Proofs.Session.Discipline
import ShapeGrammar.Proofs.ErrorKinds.Made
import ShapeGrammar.Proofs.Resolution.Delayed
import ShapeGrammar.Proofs.Session.Reached
import ShapeGrammar.Proofs.Factory.Interchange
import ShapeGrammar.Proofs.Arithmetic.Precedence
import ShapeGrammar.Proofs.Arithmetic.Exact
import ShapeGrammar.Proofs.Repetition.Greedy
import ShapeGrammar.Proofs.Grammar.Faults
import ShapeGrammar.Proofs.Resolution.Ordinary
import ShapeGrammar.Proofs.Entry.Lowered
import ShapeGrammar.Proofs.Repetition.Endless
import ShapeGrammar.Proofs.Repetition.Unchecked
import ShapeGrammar.Proofs.Repetition.Outlasts
import ShapeGrammar.Proofs.Repetition.Switch
import ShapeGrammar.Proofs.Factory.Exhaustion
import ShapeGrammar.Proofs.Inhabitation.Positional
import ShapeGrammar.Proofs.Annotations.Expansion
import ShapeGrammar.Proofs.Annotations.Upheld
import ShapeGrammar.Proofs.Annotations.Settled
import ShapeGrammar.Proofs.Annotations.Decided
import ShapeGrammar.Proofs.Walk.Ended
import ShapeGrammar.Proofs.Machine.Renumbering
import ShapeGrammar.Proofs.Grouping.Regrouped
import ShapeGrammar.Proofs.Grouping.Alternatives
import ShapeGrammar.Proofs.Grouping.Sequences
import ShapeGrammar.Proofs.Grouping.Operators
import ShapeGrammar.Proofs.Reentry.Alerted
import ShapeGrammar.Proofs.Reentry.Descent
import ShapeGrammar.Proofs.Reentry.Ways
import ShapeGrammar.Proofs.Reentry.LeftRecursion
