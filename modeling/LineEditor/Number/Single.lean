import LineEditor.Number.Rounding

/-!
# Single precision

Binary floating-point numbers with 24 significant digits. A finite one is kept as its sign and its
size in units of 2⁻¹⁴⁹, the least positive one, so that arithmetic is exact arithmetic on whole
numbers and one rounding. What reaches 2¹²⁸ is infinite; zeros are signed.
-/

namespace LineEditor

/-- the size of one, in units -/
def Single.oneUnits : Nat := Nat.pow 2 149

/-- the size of 2¹²⁸, in units -/
def Single.limitUnits : Nat := Nat.pow 2 128 * oneUnits

open Number in
/-- a number of single precision -/
inductive Single
  | nan
  | infinite (negative : Bool)
  /-- a size in units of 2⁻¹⁴⁹ -/
  | finite (negative : Bool) (units : Nat)
      (fits : Significant 24 units ∧ units < Single.limitUnits)
deriving DecidableEq

namespace Single

open Number

/-- the size `num / den`, in units, rounded to the nearest number -/
def ofUnits (negative : Bool) (num den : Nat) : Single :=
  if h : roundTo 24 num den < limitUnits then
    .finite negative (roundTo 24 num den) ⟨significant_roundTo (by decide) num den, h⟩
  else .infinite negative

/-- a zero -/
def zero (negative : Bool) : Single := .finite negative 0 ⟨⟨0, 0, by decide, rfl⟩, by decide⟩

/-- a whole number, rounded to the nearest -/
def ofNat (n : Nat) : Single := ofUnits false (n * oneUnits) 1

/-! ## Tests -/

/-- whether a number is positive and finite -/
def isPositive : Single → Bool
  | finite false u _ => 0 < u
  | _ => false

/-! ## Arithmetic -/

/-- the product -/
def mul : Single → Single → Single
  | nan, _ => nan
  | _, nan => nan
  | infinite s, infinite t => infinite (s ^^ t)
  | infinite s, finite t u _ => if u = 0 then nan else infinite (s ^^ t)
  | finite s u _, infinite t => if u = 0 then nan else infinite (s ^^ t)
  | finite s u _, finite t w _ => ofUnits (s ^^ t) (u * w) oneUnits

/-- the quotient -/
def div : Single → Single → Single
  | nan, _ => nan
  | _, nan => nan
  | infinite _, infinite _ => nan
  | infinite s, finite t _ _ => infinite (s ^^ t)
  | finite s _ _, infinite t => zero (s ^^ t)
  | finite s u _, finite t w _ =>
    if w = 0 then (if u = 0 then nan else infinite (s ^^ t))
    else ofUnits (s ^^ t) (u * oneUnits) w

/-- the least whole number that is not below -/
def ceil : Single → Single
  | finite false u _ => ofUnits false ((u + (oneUnits - 1)) / oneUnits * oneUnits) 1
  | finite true u _ => ofUnits true (u / oneUnits * oneUnits) 1
  | x => x

/-- the whole part of a finite number that is at least one -/
def wholeCount? : Single → Option Nat
  | finite false u _ => if oneUnits ≤ u then some (u / oneUnits) else none
  | _ => none

end Single

end LineEditor
