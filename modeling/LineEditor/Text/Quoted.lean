import LineEditor.Text.Combining
import LineEditor.Text.Printable

/-!
# Quoted texts

A text as it stands in a message: between double quotes, on one line, with an escape for every
character that would not show as itself.
-/

namespace LineEditor

/-- the code point of a character in hexadecimal digits, as an escape -/
def codeEscape (c : Char) : Text :=
  ['\\', 'u', '{'] ++ Nat.toDigits 16 c.toNat ++ ['}']

/-- how a character stands between quotes -/
def quotedChar (c : Char) : Text :=
  if c = '\x00' then ['\\', '0']
  else if c = '\t' then ['\\', 't']
  else if c = '\r' then ['\\', 'r']
  else if c = '\n' then ['\\', 'n']
  else if c = '"' ∨ c = '\\' then ['\\', c]
  else if isCombining c || !isPrintable c then codeEscape c
  else [c]

/-- a text between quotes -/
def inQuotes (s : Text) : Text := '"' :: (s.flatMap quotedChar ++ ['"'])

end LineEditor
