import LineEditor.Text.Basic

/-!
# Tags

A tag says what a piece of a line is: a keyword, a string, a comment. Which colour a tag has is
left to a theme.
-/

namespace LineEditor

/-- what a piece of a line is -/
inductive Tag
  | keyword
  | builtin
  /-- the word by which a method names its own object -/
  | selfRef
  | string
  | number
  /-- a type, where it is declared or where it is used -/
  | typeName
  /-- the name behind a word that introduces a callable -/
  | functionName
  /-- a name between double underscores -/
  | dunder
  /-- a name behind a dot -/
  | member
  | decorator
  | comment
  /-- plain names, blanks, operators and punctuation -/
  | default
deriving DecidableEq

namespace Tag

/-- every tag -/
def all : List Tag :=
  [keyword, builtin, selfRef, string, number, typeName, functionName, dunder, member,
    decorator, comment, default]

/-- the name of a tag in configuration files -/
def name : Tag → String
  | keyword => "keyword"
  | builtin => "builtin"
  | selfRef => "self_ref"
  | string => "string"
  | number => "number"
  | typeName => "type_name"
  | functionName => "function_name"
  | dunder => "dunder"
  | member => "attribute"
  | decorator => "decorator"
  | comment => "comment"
  | default => "default"

/-- the tag with a given name -/
def ofName? (w : Text) : Option Tag := all.find? fun t => t.name.toList = w

theorem ofName?_name (t : Tag) : ofName? t.name.toList = some t := by cases t <;> rfl

end Tag

end LineEditor
