import LineEditor.Text.Basic

/-!
# The characters of JSON

Space between the parts of a text, escapes in a string, the parts of a number, and what is written
without any space. Of a string, quotes, backslashes and control characters below U+0020 are written
as escapes.
-/

namespace LineEditor.Json

/-- the characters that may stand between the parts of a JSON text -/
def isJsonSpace (c : Char) : Bool := c = ' ' || c = '\n' || c = '\t' || c = '\r'

/-! ## Escapes -/

/-- a hexadecimal digit, in lower case -/
def hexDigit (n : Nat) : Char := Nat.digitChar n

/-- the value of a hexadecimal digit -/
def hexValue? (c : Char) : Option Nat :=
  if c.isDigit then some (c.toNat - '0'.toNat)
  else if 'a' ≤ c ∧ c ≤ 'f' then some (c.toNat - 'a'.toNat + 10)
  else if 'A' ≤ c ∧ c ≤ 'F' then some (c.toNat - 'A'.toNat + 10)
  else none

/-- the character of an escape that is one letter -/
def simpleEscape? : Char → Option Char
  | '"' => some '"'
  | '\\' => some '\\'
  | '/' => some '/'
  | 'b' => some '\x08'
  | 'f' => some '\x0c'
  | 'n' => some '\n'
  | 'r' => some '\r'
  | 't' => some '\t'
  | _ => none

/-- how a character is written inside of quotes -/
def escaped (c : Char) : Text :=
  if c = '"' then ['\\', '"']
  else if c = '\\' then ['\\', '\\']
  else if c = '\x08' then ['\\', 'b']
  else if c = '\x0c' then ['\\', 'f']
  else if c = '\n' then ['\\', 'n']
  else if c = '\r' then ['\\', 'r']
  else if c = '\t' then ['\\', 't']
  else if c.toNat < 0x20 then
    ['\\', 'u', '0', '0', hexDigit (c.toNat / 16), hexDigit (c.toNat % 16)]
  else [c]

/-- a text between quotes -/
def quoted (s : Text) : Text := '"' :: (s.flatMap escaped ++ ['"'])

/-! ## Numbers -/

/-- a number in parts, as it is written: a minus or none, digits, digits behind a point, and the
exponent -/
structure Parts where
  isMinus : Bool
  whole : Text
  fraction : Option Text
  exponent : Option Int

/-! ## Lists and objects -/

/-- texts with commas between them -/
def separated : List Text → Text
  | [] => []
  | [s] => s
  | s :: ss => s ++ ',' :: separated ss

theorem separated_cons_cons (s t : Text) (ss : List Text) :
    separated (s :: t :: ss) = s ++ ',' :: separated (t :: ss) := rfl

/-- a list of written values -/
def listed (values : List Text) : Text := '[' :: (separated values ++ [']'])

/-- a written member -/
def memberOf (name : String) (value : Text) : Text := quoted name.toList ++ ':' :: value

/-- an object of named written values -/
def objectOf (members : List (String × Text)) : Text :=
  '{' :: (separated (members.map fun m => memberOf m.1 m.2) ++ ['}'])

end LineEditor.Json
