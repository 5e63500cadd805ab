import ShapeGrammar.Grammar.Basic

/-!
# Names known everywhere

A field may mention names that nobody declared. They mean classes, functions and plain values that
every grammar has; names of the module and members of the class come before them. The classes are
there to be named only: none of them has a parser but that of texts. A few names are reserved for
one value, whatever is declared under them.

Headlines: `reserved?`, `known?`.
-/

namespace ShapeGrammar

/-- Classes of data and of what works on data. -/
def knownClasses : List String :=
  ["bool", "bytearray", "bytes", "classmethod", "complex", "dict", "enumerate", "filter",
    "float", "frozenset", "map", "memoryview", "object", "property", "range", "reversed", "set",
    "slice", "staticmethod", "super", "type", "zip"]

/-- Classes of what is raised when something goes wrong. -/
def knownFaultClasses : List String :=
  ["ArithmeticError", "AssertionError", "AttributeError", "BaseException", "BaseExceptionGroup",
    "BlockingIOError", "BrokenPipeError", "BufferError", "BytesWarning", "ChildProcessError",
    "ConnectionAbortedError", "ConnectionError", "ConnectionRefusedError", "ConnectionResetError",
    "DeprecationWarning", "EOFError", "EncodingWarning", "Exception", "ExceptionGroup",
    "FileExistsError", "FileNotFoundError", "FloatingPointError", "FutureWarning",
    "GeneratorExit", "ImportError", "ImportWarning", "IndentationError", "IndexError",
    "InterruptedError", "IsADirectoryError", "KeyError", "KeyboardInterrupt", "LookupError",
    "MemoryError", "ModuleNotFoundError", "NameError", "NotADirectoryError",
    "NotImplementedError", "OSError", "OverflowError", "PendingDeprecationWarning",
    "PermissionError", "ProcessLookupError", "RecursionError", "ReferenceError",
    "ResourceWarning", "RuntimeError", "RuntimeWarning", "StopAsyncIteration", "StopIteration",
    "SyntaxError", "SyntaxWarning", "SystemError", "SystemExit", "TabError", "TimeoutError",
    "TypeError", "UnboundLocalError", "UnicodeDecodeError", "UnicodeEncodeError", "UnicodeError",
    "UnicodeTranslateError", "UnicodeWarning", "UserWarning", "ValueError", "Warning",
    "ZeroDivisionError"]

/-- Functions. -/
def knownFunctions : List String :=
  ["abs", "aiter", "all", "anext", "any", "ascii", "bin", "breakpoint", "callable", "chr",
    "compile", "copyright", "credits", "delattr", "dir", "divmod", "eval", "exec", "exit",
    "format", "getattr", "globals", "hasattr", "hash", "help", "hex", "id", "input", "isinstance",
    "issubclass", "iter", "len", "license", "locals", "max", "min", "next", "oct", "open", "ord",
    "pow", "print", "quit", "repr", "round", "setattr", "sorted", "sum", "vars"]

/-- The value that a name is reserved for. -/
def reserved? (name : String) : Option Binding :=
  match name with
  | "None" => some (.constant .nothing)
  | "True" => some (.constant (.bool true))
  | "False" => some (.constant (.bool false))
  | _ => none

/-- What a name means that nobody declared. -/
def known? (name : String) : Option Binding :=
  match name with
  | "Ellipsis" => some .ellipsis
  | "NotImplemented" => some (.foreign (.mark name))
  | "str" => some (.cls (.builtin .text))
  | "int" => some (.cls (.builtin .integer))
  | "list" => some (.cls (.builtin .list))
  | "tuple" => some (.cls (.builtin .tuple))
  | "EnvironmentError" => some (.cls (.builtin (.other "OSError")))
  | "IOError" => some (.cls (.builtin (.other "OSError")))
  | name =>
    if knownClasses.contains name || knownFaultClasses.contains name then
      some (.cls (.builtin (.other name)))
    else if knownFunctions.contains name then some (.foreign (.function name))
    else none

end ShapeGrammar
