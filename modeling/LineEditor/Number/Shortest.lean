import LineEditor.Number.Decimal

/-!
# Shortest notation

The decimal number with the fewest digits that reads back as a given positive number of single
precision, and of those the nearest to it. The search goes from coarse powers of ten to fine ones:
the interval of numbers that read back is narrower than a factor of ten, so the coarsest power with
a multiple in it needs the fewest digits, and if any multiple is in it then one of the two around
the number is.

Sizes are measured in quarters of a unit, which makes the ends of the interval whole numbers.
-/

namespace LineEditor

/-- which of two decimals at the same distance is taken -/
inductive Tie
  /-- the greater one -/
  | up
  /-- the one with an even last digit -/
  | even
deriving DecidableEq

namespace Number

/-- the distance from a size to the next greater one, in units -/
def spacing (u : Nat) : Nat := Nat.pow 2 (surplus 24 u)

/-- the lower end of the interval that reads back as the size `u`, in quarters. Below a power of two
the numbers stand twice as dense. -/
def lowerEnd (u : Nat) : Nat :=
  if u = Nat.pow 2 23 * spacing u ∧ 1 < spacing u then 4 * u - spacing u else 4 * u - 2 * spacing u

/-- the upper end of that interval, in quarters -/
def upperEnd (u : Nat) : Nat := 4 * u + 2 * spacing u

/-- whether `num / den` quarters read back as the size `u`: ties go to even sizes, so the ends
belong to the interval of an even one -/
def readsBack (u num den : Nat) : Bool :=
  if u / spacing u % 2 = 0 then lowerEnd u * den ≤ num && num ≤ upperEnd u * den
  else lowerEnd u * den < num && num < upperEnd u * den

/-- the power `10 ^ k` in quarters of a unit, as a fraction -/
def powerOfTen : Int → Nat × Nat
  | .ofNat k => (Nat.pow 10 k * Nat.pow 2 151, 1)
  | .negSucc k => (Nat.pow 2 151, Nat.pow 10 (k + 1))

/-- the multiple of `10 ^ k` that reads back as the size `u` and is nearest to it -/
def multiple? (tie : Tie) (u : Nat) (k : Int) : Option Nat :=
  let (step, den) := powerOfTen k
  let below := 4 * u * den / step
  let past := 4 * u * den % step
  match readsBack u (below * step) den, readsBack u ((below + 1) * step) den with
  | false, false => none
  | true, false => some below
  | false, true => some (below + 1)
  | true, true =>
    if 2 * past < step then some below
    else if step < 2 * past then some (below + 1)
    else
      match tie with
      | .up => some (below + 1)
      | .even => some (if below % 2 = 0 then below else below + 1)

/-- the exponents of the powers of ten to try: from the greatest below 2¹²⁸ to the greatest below
the unit, which always has a multiple that reads back -/
def exponents : List Int := (List.range 84).map fun i : Nat => 38 - (i : Int)

/-- the shortest decimal of the size `u` -/
def shortest (tie : Tie) (u : Nat) : Decimal :=
  (exponents.findSome? fun k => (multiple? tie u k).map fun c => ⟨c, k⟩).getD ⟨0, 0⟩

end Number

end LineEditor
