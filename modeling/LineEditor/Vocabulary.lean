import LineEditor.Words

/-!
# Vocabularies

The word tables against which the names in a line are judged, and the tables for Python, which are
the default.
-/

namespace LineEditor

/-- the kind of name that a word announces for the name behind it -/
inductive Announced
  /-- a type, as behind `class` -/
  | type
  /-- something to call, as behind `def` -/
  | callable
deriving DecidableEq

/-- the word tables of one language -/
structure Vocabulary where
  keywords : WordSet
  builtins : WordSet
  /-- the word by which a method names its own object -/
  selfToken : Text
  /-- the keywords that announce a type -/
  typeIntroducers : WordSet
  /-- the keywords that announce something to call -/
  callableIntroducers : WordSet
deriving DecidableEq

namespace Vocabulary

/-- what `w` announces; a word in both tables announces a type -/
def announces (v : Vocabulary) (w : Text) : Option Announced :=
  if v.typeIntroducers.contains w then some .type
  else if v.callableIntroducers.contains w then some .callable
  else none

/-! ## Python -/

/-- the keywords of Python, with the soft keywords `match` and `case` -/
def pythonKeywords : List String :=
  ["False", "None", "True", "and", "as", "assert", "async", "await", "break", "class",
    "continue", "def", "del", "elif", "else", "except", "finally", "for", "from", "global",
    "if", "import", "in", "is", "lambda", "nonlocal", "not", "or", "pass", "raise", "return",
    "try", "while", "with", "yield", "match", "case"]

/-- the built-in functions and types of Python -/
def pythonBuiltins : List String :=
  ["abs", "all", "any", "bin", "bool", "bytearray", "bytes", "callable", "chr",
    "classmethod", "compile", "complex", "dict", "dir", "divmod", "enumerate", "eval", "exec",
    "filter", "float", "format", "frozenset", "getattr", "globals", "hasattr", "hash", "help",
    "hex", "id", "input", "int", "isinstance", "issubclass", "iter", "len", "list", "locals",
    "map", "max", "memoryview", "min", "next", "object", "oct", "open", "ord", "pow", "print",
    "property", "range", "repr", "reversed", "round", "set", "setattr", "slice", "sorted",
    "staticmethod", "str", "sum", "super", "tuple", "type", "vars", "zip"]

/-- the vocabulary of Python -/
def python : Vocabulary where
  keywords := .ofList (pythonKeywords.map String.toList)
  builtins := .ofList (pythonBuiltins.map String.toList)
  selfToken := "self".toList
  typeIntroducers := .ofList ["class".toList]
  callableIntroducers := .ofList ["def".toList]

end Vocabulary

end LineEditor
