import LineEditor.Text.Basic

/-!
# Operators

The operators of more than one character. An operator of one character is punctuation to this
library.
-/

namespace LineEditor.Token

/-- the operators, the longer ones first -/
def operators : List String :=
  ["**=", "//=", ">>=", "<<=", "...",
    "==", "!=", ">=", "<=", ":=", "**", "//", "->", "<<", ">>", "+=", "-=", "*=",
    "/=", "%=", "&=", "|=", "^="]

/-- the length of the longest operator at the start of `s`; zero says that there is none -/
def operator (s : Text) : Nat :=
  match operators.find? fun o => o.toList.isPrefixOf s with
  | some o => o.toList.length
  | none => 0

end LineEditor.Token
