import LineEditor.Number.Single
import LineEditor.Text.Numeral

/-!
# Decimal notation

Reading a number of single precision from decimal notation: an optional sign, digits with at most
one point among them, an optional exponent; or the name of an infinity or of the value that is no
number. The nearest number is taken, whatever the length of the notation.
-/

namespace LineEditor

/-- the number `digits · 10 ^ exponent` -/
structure Decimal where
  digits : Nat
  exponent : Int
deriving DecidableEq

namespace Decimal

/-- the numerator of a decimal as a fraction -/
def num (d : Decimal) : Nat := d.digits * Nat.pow 10 d.exponent.toNat

/-- its denominator, a power of ten -/
def den (d : Decimal) : Nat := Nat.pow 10 (-d.exponent).toNat

/-- the number of single precision that is nearest. Outside of 10⁻⁶⁰ to 10⁶⁰ the number of digits
decides, so that no large power is computed. -/
def toSingle (negative : Bool) (d : Decimal) : Single :=
  let places := d.exponent + (numeral d.digits).length
  if d.digits = 0 ∨ places < -60 then .zero negative
  else if 60 < places then .infinite negative
  else .ofUnits negative (d.num * Single.oneUnits) d.den

/-! ## Reading -/

/-- an optional sign, as whether it is a minus, and the rest -/
def readSign : Text → Bool × Text
  | '-' :: s => (true, s)
  | '+' :: s => (false, s)
  | s => (false, s)

/-- one or more digits and nothing else, with an optional sign -/
def readInteger? (s : Text) : Option Int :=
  let ds := (readSign s).2
  if ds ≠ [] ∧ ds.all Char.isDigit then
    some (if (readSign s).1 then -(digitsValue ds : Int) else digitsValue ds)
  else none

/-- an exponent, or nothing -/
def readExponent? : Text → Option Int
  | [] => some 0
  | e :: s => if e.toLower = 'e' then readInteger? s else none

/-- the digits behind a point, and the rest -/
def readFraction : Text → Text × Text
  | '.' :: s => (s.takeWhile Char.isDigit, s.dropWhile Char.isDigit)
  | s => ([], s)

/-- a decimal number without a sign -/
def read? (s : Text) : Option Decimal :=
  let whole := s.takeWhile Char.isDigit
  let (fraction, rest) := readFraction (s.dropWhile Char.isDigit)
  if whole = [] ∧ fraction = [] then none
  else (readExponent? rest).map fun e => ⟨digitsValue (whole ++ fraction), e - fraction.length⟩

end Decimal

namespace Single

/-- a number of single precision in decimal notation or by name -/
def read? (s : Text) : Option Single :=
  let (negative, t) := Decimal.readSign s
  match Decimal.read? t with
  | some d => some (d.toSingle negative)
  | none =>
    let name := t.map Char.toLower
    if name = "nan".toList then some .nan
    else if name = "inf".toList ∨ name = "infinity".toList then some (.infinite negative)
    else none

end Single

end LineEditor
