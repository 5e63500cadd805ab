import ShapeGrammar.Grammar.Declare
import ShapeGrammar.Factory.Store
import ShapeGrammar.Limits

/-!
# Steps and answers

What a session can be asked to do, and what it answers. Every step answers by itself: a fault is the
answer of the step that met it, and the session goes on.

Headlines: `Step`, `Answer`, `Trace`.
-/

namespace ShapeGrammar.Session

/-- What a parse reads from. -/
inductive Origin
  /-- A fresh cursor over offered data. -/
  | fresh (offer : Offer) (position : Int)
  /-- A cursor of the session, which is moved. -/
  | stored (name : String)
  deriving Inhabited

/-- What can be asked of a parser. -/
inductive Aspect
  | description
  | literal
  | errorKind
  | infallible
  | plan
  | tree
  deriving DecidableEq, Repr, Inhabited

/-- One step of a session. -/
inductive Step
  | declare (declaration : Declaration)
  | openCursor (name : String) (offer : Offer) (position : Int) (positioned : Bool)
  | next (cursor : String)
  | peek (cursor : String)
  | state (cursor : String)
  | showCursor (cursor : String)
  | snapshot (cursor name : String)
  | sameCursor (a b : String)
  | coerce (offer : Offer)
  | parse (entry : Entry) (valueOnly : Bool) (shape : ShapeExpr) (origin : Origin)
      (save : Option String)
  | equal (shapeA : ShapeExpr) (offerA : Offer) (shapeB : ShapeExpr) (offerB : Offer)
  | instances (shape : ShapeExpr) (offer : Offer) (classes : List Path)
  | subclasses (cls : Path) (classes : List Path)
  | inspect (shape : ShapeExpr) (aspects : List Aspect)
  | schema (cls : Path)
  | planSchema (cls : Path)
  | sameParser (a b : ShapeExpr)
  | character (char : Value) (other : Option Value)
  | nonempty (offer : Offer)
  | generate (shape : ShapeExpr) (source : PlanSource) (name : Option String)
  | fingerprint (shape : ShapeExpr)
  | fullName (cls : Path)
  | renderFactories (shapes : List ShapeExpr)
  | writeFactories (file : String) (shapes : List ShapeExpr)
  | loadFactories (file : String) (shapes : List ShapeExpr)
  | putFile (file content : String)
  | getFile (file : String)
  deriving Inhabited

/-- What a parse did to its input. -/
structure Trace where
  /-- Where the cursor that was handed over stands afterwards. -/
  live : Nat
  /-- The positions of the elements read, in order. -/
  reads : List Nat
  /-- How many snapshots were taken. -/
  snapshots : Nat
  deriving DecidableEq, Repr, Inhabited

/-- The result of a parse. -/
inductive Parsed
  /-- A match: where the returned cursor stands, whether it is the one that was handed over, and
  the value. -/
  | matched (position : Option Nat) (sameCursor : Bool) (value : Value)
  | missed
  | failed (failure : Failure)
  /-- A value alone. -/
  | value (value : Value)
  deriving Inhabited

/-- An attempt of a plan as it is shown. -/
structure AttemptView where
  name : String
  target : String
  parsers : List String
  trees : List Tree
  snapshot : Bool
  isUnit : Bool
  errorKind : Option FailureKind
  deriving Inhabited

/-- A plan as it is shown. -/
structure PlanView where
  target : String
  kind : PlanKind
  attempts : List AttemptView
  errorKind : Option FailureKind
  requiresSnapshot : Bool
  deriving Inhabited

/-- A variant as it is shown. -/
structure VariantView where
  name : String
  target : String
  fields : List String
  isUnit : Bool
  deriving DecidableEq, Repr, Inhabited

/-- A schema as it is shown. -/
inductive SchemaView
  | product (target : String) (fields : List String)
  | sum (target : String) (variants : List VariantView)
  deriving DecidableEq, Repr, Inhabited

/-- What an aspect of a parser is. -/
inductive AspectView
  | description (text : String)
  | literal (text : String)
  | errorKind (kind : Option FailureKind)
  | infallible (holds : Bool)
  | plan (view : PlanView)
  | tree (tree : Tree)
  deriving Inhabited

/-- A character class, compared with another one. -/
structure CharacterView where
  name : String
  display : String
  literal : String
  /-- Whether the other class is the same. -/
  same : Option Bool
  deriving DecidableEq, Repr, Inhabited

/-- What a step answers. -/
inductive Answer
  | done
  | declared (name : String)
  | item (value : Value)
  | endOfInput
  | state (position : Nat) (atEnd : Bool) (remaining : Value)
  | shown (text : String)
  | sameCursor (equal samePosition : Bool)
  | coerced (isText : Bool) (position : Nat) (remaining : Value)
  | parsed (result : Parsed) (trace : Option Trace)
  | equal (holds : Bool)
  | instances (holds : List Bool)
  | subclasses (holds : List Bool)
  | inspected (aspects : List AspectView)
  | schema (view : SchemaView)
  | plan (view : PlanView)
  | sameParser (holds : Bool)
  | character (view : CharacterView)
  | value (value : Value)
  | source (text : String)
  | fingerprint (digest : String)
  | name (text : String)
  | written (length : Nat)
  | loaded (parsers : List (String × String × Option FailureKind))
  | content (text : String)
  | stopped (cause : Stop)
  deriving Inhabited

/-- The answer of a step with what was noticed on the way. -/
structure Reply where
  answer : Answer
  events : List Event
  reports : List Report
  deriving Inhabited

end ShapeGrammar.Session
