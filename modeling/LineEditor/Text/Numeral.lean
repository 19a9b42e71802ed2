import LineEditor.Text.Basic

/-!
# Decimal numerals

Whole numbers written and read in decimal digits. A numeral that is read may open with one plus
sign and must not exceed a given limit; every other character refuses it.
-/

namespace LineEditor

/-- the greatest count: counts have 64 bits -/
def maxCount : Nat := Nat.pow 2 64 - 1

/-- the decimal digits of `n`, without leading zeros -/
def numeral (n : Nat) : Text := Nat.toDigits 10 n

/-- the value of a decimal digit -/
def digitValue (c : Char) : Nat := c.toNat - '0'.toNat

/-- the value of a run of decimal digits; the empty run is zero -/
def digitsValue (ds : Text) : Nat := ds.foldl (fun n d => 10 * n + digitValue d) 0

theorem digitsValue_nil : digitsValue [] = 0 := rfl

theorem digitsValue_concat (ds : Text) (d : Char) :
    digitsValue (ds ++ [d]) = 10 * digitsValue ds + digitValue d := by
  simp [digitsValue]

/-- reads one or more digits, after an optional plus sign, as a number up to `limit` -/
def readNumeral? (limit : Nat) (s : Text) : Option Nat :=
  let ds := if s.head? = some '+' then s.tail else s
  if ds ≠ [] ∧ ds.all Char.isDigit ∧ digitsValue ds ≤ limit then some (digitsValue ds) else none

end LineEditor
