import ShapeGrammar.Text.Literal

/-!
# Faults

What stops a computation instead of answering it: a declaration that describes no parser, a
repetition that would never end, a file of factories that no longer fits, a name without a meaning,
and uses of values that their kind does not allow. Each fault is its cause; the wording is in one
place.

Headlines: `SchemaFault`, `Fault`, `Fault.message`.
-/

namespace ShapeGrammar

/-- Why no parser can be built from a declaration. -/
inductive SchemaFault
  /-- Planning a class asked for the plan of the class itself. -/
  | leftRecursive (name location : String) (chain : List String)
  /-- The error kind of a delayed parser depends on itself. -/
  | leftRecursiveBox
  /-- A class declares fields but nothing made it a record. -/
  | notRecord (name location : String)
  /-- A shape mentions a name that means nothing. -/
  | unresolvedFields (name location missing : String)
  | keywordOnlyField (field name location : String)
  /-- The constructor takes parameters that are no fields. -/
  | extraParameters (name : String) (parameters : List String) (location : String)
  | noVariants (name location : String)
  /-- An alias expands to itself outside of any delayed parser. -/
  | selfContainingAlias (name : String) (chain : List String)
  | noFixedLength
  | unorderedAlternative
  /-- A class that parses as nothing. -/
  | noParser (name : String)
  | unknownShape
  /-- The fault arose while the field's shape was resolved. -/
  | inField (field owner location : String) (cause : SchemaFault)
  deriving DecidableEq, Repr, Inhabited

/-- The fault as a sentence. A shape is not spelt out. -/
def SchemaFault.message : SchemaFault → String
  | .leftRecursive name location chain =>
    name ++ " (" ++ location ++ ") is left-recursive: " ++ " -> ".intercalate chain ++
      ". It would be parsed again before consuming any input."
  | .leftRecursiveBox =>
    "Left recursion through Box: the error type of a boxed parser " ++
      "depends on itself before any input is consumed"
  | .notRecord name location =>
    name ++ " has fields but is not a dataclass; decorate it with @derive or @dataclass (" ++
      location ++ ")"
  | .unresolvedFields name location missing =>
    "Cannot resolve the fields of " ++ name ++ " (" ++ location ++ "): name '" ++ missing ++
      "' is not defined"
  | .keywordOnlyField field name location =>
    "Field " ++ field ++ " of " ++ name ++ " is keyword-only, but derived " ++
      "types are constructed positionally (" ++ location ++ ")"
  | .extraParameters name parameters location =>
    name ++ " takes " ++ ", ".intercalate parameters ++ " in its constructor, but " ++
      "derived types are constructed from their fields alone (is it an InitVar?) (" ++
      location ++ ")"
  | .noVariants name location => name ++ " is a Sum with no variants (" ++ location ++ ")"
  | .selfContainingAlias name chain =>
    "The type alias " ++ name ++ " contains itself (" ++ " -> ".intercalate chain ++
      "); wrap the recursive reference in Box[...]"
  | .noFixedLength => "<annotation> has no fixed length; use list[...] for repetition"
  | .unorderedAlternative =>
    "<annotation> is not an ordered alternative; " ++
      "use Either[A, B] or a Sum type to choose between parsers"
  | .noParser name =>
    name ++ " has no parser; decorate it with @derive " ++
      "or annotate the field with Annotated[..., parser]"
  | .unknownShape => "Don't know how to parse a field of type <annotation>"
  | .inField field owner location cause =>
    "Field " ++ field ++ " of " ++ owner ++ " (" ++ location ++ "): " ++ cause.message

/-- Why a file of factories does not fit the shapes it is asked for. -/
inductive StaleFault
  | missingFactory (file name : String)
  | differentShape (file name : String)
  deriving DecidableEq, Repr, Inhabited

/-- A value of the right kind with the wrong content. -/
inductive ValueFault
  | positionOutside (position : Int) (length : Nat)
  | emptyNonEmpty
  | transformFailed
  | notInteger (text : String)
  | mutableDefault (field : String)
  | notGenerated (file : String)
  | noFactories (file : String)
  | notLoadable (file : String)
  /-- A text that is to be read as statements. -/
  | nullCharacter
  deriving DecidableEq, Repr, Inhabited

/-- Data that cannot be parsed from. -/
inductive Unparsable
  | nothing
  | bool
  | integer
  | float
  | mapping
  deriving DecidableEq, Repr, Inhabited

/-- The name of a kind of data in messages. -/
def Unparsable.name : Unparsable → String
  | .nothing => "NoneType"
  | .bool => "bool"
  | .integer => "int"
  | .float => "float"
  | .mapping => "dict"

/-- A value of the wrong kind. -/
inductive TypeFault
  | unparsable (data : Unparsable)
  /-- A character class was asked for something else than one character, shown as a literal. -/
  | notOneCharacter (shown : String)
  | notDerived
  /-- The text of the fault is not part of any answer. -/
  | other (reason : String)
  deriving DecidableEq, Repr, Inhabited

/-- Something was asked of a value that it does not have. -/
inductive AttributeFault
  /-- A parser was asked for, and there is something else in its place. -/
  | parser
  | position
  | member (owner name : String)
  | plan
  | unsetField
  deriving DecidableEq, Repr, Inhabited

/-- What stops a computation. -/
inductive Fault
  | schema (cause : SchemaFault)
  /-- The body of a repetition matched at the position without consuming anything. -/
  | zeroWidth (description : String) (position : Nat)
  | stale (cause : StaleFault)
  | value (cause : ValueFault)
  | type (cause : TypeFault)
  | unboundName (name : String)
  | attribute (cause : AttributeFault)
  /-- A parser that defines neither entry point. -/
  | notImplemented (parser : String)
  | fileNotFound (file : String)
  /-- Every attempt of a plan had something to fall back to. -/
  | planExhausted
  deriving DecidableEq, Repr, Inhabited

/-- The wording of a stale file. -/
def StaleFault.message : StaleFault → String
  | .missingFactory file name => file ++ " has no factory for " ++ name ++ "; regenerate it"
  | .differentShape file name =>
    file ++ " was generated from a different shape of " ++ name ++ "; regenerate it"

/-- The wording of a wrong content. -/
def ValueFault.message : ValueFault → String
  | .positionOutside position length =>
    "Position " ++ toString position ++ " is outside of the input (length " ++
      toString length ++ ")"
  | .emptyNonEmpty => "NonEmpty requires at least one element"
  | .transformFailed => "map failed"
  | .notInteger text =>
    "invalid literal for int() with base 10: " ++
      String.ofList ((Text.quoted text).toList.take 200)
  | .mutableDefault field =>
    "mutable default <class 'list'> for field " ++ field ++
      " is not allowed: use default_factory"
  | .notGenerated file =>
    file ++ " is not a module generated by shapeparse; not overwriting it"
  | .noFactories file => file ++ " has no FACTORIES; was it written by write_module?"
  | .notLoadable file => "Cannot load " ++ file ++ " as a Python module"
  | .nullCharacter => "source code string cannot contain null bytes"

/-- The wording of a wrong kind, where it is part of the answer. -/
def TypeFault.message : TypeFault → Option String
  | .unparsable data =>
    some ("Cannot parse from " ++ data.name ++ "; need a str, a sequence or a cursor")
  | .notOneCharacter shown => some ("Character[...] takes exactly one character, not " ++ shown)
  | .notDerived =>
    some "<annotation> is not a derived type; only derived types can be generated"
  | .other _ => none

/-- The sentence that reports a fault, if its wording is part of the answer. -/
def Fault.message : Fault → Option String
  | .schema cause => some cause.message
  | .zeroWidth description position =>
    some (description ++ " matched at position " ++ toString position ++
      " without consuming any input; repeating it would never terminate")
  | .stale cause => some cause.message
  | .value cause => some cause.message
  | .type cause => cause.message
  | .unboundName name => some ("name '" ++ name ++ "' is not defined")
  | .attribute _ => none
  | .notImplemented parser => some (parser ++ " must implement parse or try_parse")
  | .fileNotFound _ => none
  | .planExhausted => some "the last attempt of a plan never takes a snapshot"

end ShapeGrammar
