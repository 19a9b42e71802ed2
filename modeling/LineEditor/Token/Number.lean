import LineEditor.Text.Basic

/-!
# Numeric literals

How many characters of a text belong to a numeric literal at its start; zero says that there is
none. A literal is a number with a base mark (`0x1F`, `0b10`, `0o7`) or a decimal number with an
optional fraction and an optional exponent (`1_000`, `1.`, `.5`, `2e-3`). Behind its first digit, a
run of digits may hold underscores. An exponent counts only when it is complete, and of two
readings the longer one wins.
-/

namespace LineEditor.Token

/-- a decimal digit or a digit separator -/
def isDigitOrBar (c : Char) : Bool := c.isDigit || c = '_'

/-- the length of a run of digits: one digit, then digits and separators -/
def digitRun : Text → Nat
  | [] => 0
  | c :: s => if c.isDigit then 1 + (s.takeWhile isDigitOrBar).length else 0

/-- the digits behind each base mark -/
def radixDigit? (mark : Char) : Option (Char → Bool) :=
  match mark.toLower with
  | 'x' => some fun c => c.isDigit || ('a' ≤ c.toLower && c.toLower ≤ 'f') || c = '_'
  | 'b' => some fun c => c = '0' || c = '1' || c = '_'
  | 'o' => some fun c => ('0' ≤ c && c ≤ '7') || c = '_'
  | _ => none

/-- the length of a number with a base mark -/
def radixNumber : Text → Nat
  | '0' :: mark :: s =>
    match radixDigit? mark with
    | none => 0
    | some digit => if (s.takeWhile digit).isEmpty then 0 else 2 + (s.takeWhile digit).length
  | _ => 0

/-- the length of a decimal number without its exponent: at least one digit, before or behind an
optional point -/
def mantissa (s : Text) : Nat :=
  match s.drop (digitRun s) with
  | '.' :: t => if digitRun s = 0 ∧ digitRun t = 0 then 0 else digitRun s + 1 + digitRun t
  | _ => digitRun s

/-- the length of an optional sign -/
def sign : Text → Nat
  | c :: _ => if c = '+' || c = '-' then 1 else 0
  | [] => 0

/-- the length of a complete exponent: its mark, an optional sign, and digits -/
def exponent : Text → Nat
  | [] => 0
  | e :: s =>
    if e.toLower = 'e' ∧ 0 < digitRun (s.drop (sign s)) then
      1 + sign s + digitRun (s.drop (sign s))
    else 0

/-- the length of a decimal number -/
def decimalNumber (s : Text) : Nat :=
  if mantissa s = 0 then 0 else mantissa s + exponent (s.drop (mantissa s))

/-- the length of the numeric literal at the start of `s` -/
def number (s : Text) : Nat := max (radixNumber s) (decimalNumber s)

end LineEditor.Token
