import LineEditor.Json.Reader
import LineEditor.Number.Notation

/-!
# Numbers in JSON

A number is read in parts, and the parts are converted. A whole number that fits in 64 bits is kept
as it is. Any other number is taken in double precision: as many leading digits as fit in 64 bits
are the significand, which is then multiplied or divided by a power of ten, each step rounded. A
number beyond the range of double precision is no JSON here. The double that is nearest to the
number is another conversion, which differs from this one in the last digit of some numbers.

Sizes in double precision are counted in units of 2⁻¹⁰⁷⁴, the least positive one.
-/

namespace LineEditor.Json

/-! ## Double precision -/

/-- the size of one in double precision, in units -/
def doubleOne : Nat := Nat.pow 2 1074

/-- the size of 2¹⁰²⁴, from which on a size is infinite, in units -/
def doubleLimit : Nat := Nat.pow 2 1024 * doubleOne

/-- the size `num / den`, in units, rounded to 53 binary digits -/
def toDouble (num den : Nat) : Nat := Number.roundTo 53 num den

/-- the size of `10 ^ k` -/
def doublePower (k : Nat) : Nat := toDouble (Nat.pow 10 k * doubleOne) 1

/-- the size `u` divided by `10 ^ k`, by `10 ^ 308` at a time -/
def scaleDown (u k : Nat) : Nat :=
  if u = 0 then 0
  else if k ≤ 308 then toDouble (u * doubleOne) (doublePower k)
  else scaleDown (toDouble (u * doubleOne) (doublePower 308)) (k - 308)
termination_by k

/-- the size `u` multiplied by `10 ^ k`, unless that is out of range -/
def scaleUp? (u k : Nat) : Option Nat :=
  if u = 0 then some 0
  else if 308 < k then none
  else
    let v := toDouble (u * doublePower k) doubleOne
    if v < doubleLimit then some v else none

/-- the size of `significand · 10 ^ exponent`, unless that is out of range -/
def scale? (significand : Nat) : Int → Option Nat
  | .ofNat k => scaleUp? (toDouble (significand * doubleOne) 1) k
  | .negSucc k => some (scaleDown (toDouble (significand * doubleOne) 1) (k + 1))

/-! ## Values -/

/-- a number as it is read -/
inductive Number
  /-- a whole number up to the greatest count -/
  | natural (n : Nat)
  /-- the negative of a whole number from 1 to 2⁶³ -/
  | negative (n : Nat)
  /-- any other number, by its sign and its size in double precision -/
  | real (negative : Bool) (units : Nat)
deriving DecidableEq

/-- a number in single precision -/
def Number.toSingle : Number → Single
  | natural n => .ofNat n
  | negative n => .ofUnits true (n * Single.oneUnits) 1
  | real s u => .ofUnits s (u * Single.oneUnits) doubleOne

/-! ## Notation -/

/-- takes digits up to the greatest count; the significand and the number of digits left over -/
def significand : Nat → Text → Nat × Nat
  | n, [] => (n, 0)
  | n, d :: ds =>
    if 10 * n + digitValue d ≤ maxCount then significand (10 * n + digitValue d) ds
    else (n, ds.length + 1)

/-- a run of digits and the text behind it; none, if the text starts with no digit -/
def readDigits? (s : Text) : Option (Text × Text) :=
  let ds := s.takeWhile Char.isDigit
  if ds.isEmpty then none else some (ds, s.drop ds.length)

/-- the fault where a digit is missing -/
def missingDigit (s : Text) : Fault := if s.isEmpty then .truncated else .malformed

/-- whether a minus stands at the start, and the rest -/
def readMinus : Text → Bool × Text
  | '-' :: s => (true, s)
  | s => (false, s)

/-- an optional sign, as whether it is a minus, and the rest -/
def readExponentSign : Text → Bool × Text
  | '+' :: s => (false, s)
  | '-' :: s => (true, s)
  | s => (false, s)

/-- the exponent of a number, if one follows -/
def readExponent (s : Text) : Step (Option Int) :=
  match s with
  | e :: t =>
    if e.toLower = 'e' then
      let (isMinus, u) := readExponentSign t
      match readDigits? u with
      | none => .error (missingDigit u)
      | some (ds, r) => .ok (some (if isMinus then -(digitsValue ds : Int) else digitsValue ds), r)
    else .ok (none, s)
  | [] => .ok (none, s)

/-- the digits behind the point of a number, if one follows -/
def readFraction (s : Text) : Step (Option Text) :=
  match s with
  | '.' :: t =>
    match readDigits? t with
    | none => .error (missingDigit t)
    | some (ds, r) => .ok (some ds, r)
  | _ => .ok (none, s)

/-- the whole part of a number: a single zero, or digits that start with another one -/
def readWhole (s : Text) : Step Text :=
  match readDigits? s with
  | none => .error (missingDigit s)
  | some (ds, r) => if ds.head? = some '0' ∧ 1 < ds.length then .error .malformed else .ok (ds, r)

/-- the parts of a number that starts with a minus or a digit -/
def readParts (s : Text) : Step Parts :=
  let (isMinus, t) := readMinus s
  match readWhole t with
  | .error e => .error e
  | .ok (whole, u) =>
    match readFraction u with
    | .error e => .error e
    | .ok (fraction, v) =>
      match readExponent v with
      | .error e => .error e
      | .ok (exponent, r) => .ok (⟨isMinus, whole, fraction, exponent⟩, r)

/-! ## Conversion -/

/-- the number with the given parts, unless it is out of range -/
def Parts.number? (p : Parts) : Option Number :=
  let (n, left) := significand 0 p.whole
  match p.fraction, p.exponent with
  | none, none =>
    if left = 0 ∧ !p.isMinus then some (.natural n)
    else if left = 0 ∧ 0 < n ∧ n ≤ Nat.pow 2 63 then some (.negative n)
    else (scale? n left).map (.real p.isMinus)
  | _, _ =>
    let ds := p.fraction.getD []
    let (m, rest) := significand n ds
    (scale? m (left - (ds.length - rest : Nat) + p.exponent.getD 0)).map (.real p.isMinus)

/-- the number in single precision, by way of a significand and a power of ten -/
def Parts.scaled? (p : Parts) : Option Single := p.number?.map Number.toSingle

/-- the number without its sign, exactly -/
def Parts.decimal (p : Parts) : Decimal :=
  let ds := p.fraction.getD []
  ⟨digitsValue (p.whole ++ ds), p.exponent.getD 0 - ds.length⟩

/-- the double that is nearest to a decimal, as its size -/
def nearestDouble (d : Decimal) : Nat := toDouble (d.num * doubleOne) d.den

/-- the number in single precision, by way of the double that is nearest to it -/
def Parts.nearest? (p : Parts) : Option Single :=
  let u := nearestDouble p.decimal
  if u < doubleLimit then some ((Number.real p.isMinus u).toSingle) else none

/-- a number that starts with a minus or a digit, under a conversion of its parts -/
def readNumber {α : Type} (convert : Parts → Option α) (s : Text) : Step α :=
  match readParts s with
  | .error e => .error e
  | .ok (p, r) =>
    match convert p with
    | some x => .ok (x, r)
    | none => .error .malformed

/-! ## Passing over -/

/-- the text behind the number at the start of `s`, of any size; where a digit is missing the text
counts as malformed, even at its end -/
def skipNumber (s : Text) : Except Fault Text :=
  match readWhole (readMinus s).2 with
  | .error _ => .error .malformed
  | .ok (_, u) =>
    match readFraction u with
    | .error _ => .error .malformed
    | .ok (_, v) =>
      match readExponent v with
      | .error _ => .error .malformed
      | .ok (_, r) => .ok r

/-! ## Lengths -/

theorem length_readDigits?_lt {s ds r : Text} (h : readDigits? s = some (ds, r)) :
    r.length < s.length := by
  simp only [readDigits?] at h
  split at h
  · cases h
  · rename_i hd
    cases h
    have hp : 0 < (s.takeWhile Char.isDigit).length :=
      List.length_pos_iff.mpr fun e => hd (by rw [e]; rfl)
    have hl : (s.takeWhile Char.isDigit).length ≤ s.length :=
      (List.takeWhile_sublist Char.isDigit).length_le
    rw [List.length_drop]
    omega

theorem length_readExponentSign_le (s : Text) : (readExponentSign s).2.length ≤ s.length := by
  unfold readExponentSign
  split <;> simp

theorem length_readExponent_le {s r : Text} {e : Option Int} (h : readExponent s = .ok (e, r)) :
    r.length ≤ s.length := by
  unfold readExponent at h
  split at h
  · rename_i c t
    split at h
    · have hs := length_readExponentSign_le t
      simp only at h
      split at h
      · cases h
      · rename_i hd
        have hr := length_readDigits?_lt hd
        cases h
        simp only [List.length_cons]
        omega
    · cases h
      exact Nat.le_refl _
  · cases h
    exact Nat.le_refl _

theorem length_readFraction_le {s r : Text} {f : Option Text} (h : readFraction s = .ok (f, r)) :
    r.length ≤ s.length := by
  unfold readFraction at h
  split at h
  · split at h
    · cases h
    · rename_i hd
      have hr := length_readDigits?_lt hd
      cases h
      simp only [List.length_cons]
      omega
  · cases h
    exact Nat.le_refl _

theorem length_readWhole_lt {s ds r : Text} (h : readWhole s = .ok (ds, r)) :
    r.length < s.length := by
  unfold readWhole at h
  split at h
  · cases h
  · rename_i hd
    split at h
    · cases h
    · cases h
      exact length_readDigits?_lt hd

theorem length_readMinus_le (s : Text) : (readMinus s).2.length ≤ s.length := by
  unfold readMinus
  split <;> simp

theorem length_readParts_lt {s r : Text} {p : Parts} (h : readParts s = .ok (p, r)) :
    r.length < s.length := by
  have hs := length_readMinus_le s
  simp only [readParts] at h
  split at h
  · cases h
  · rename_i hw
    have h₁ := length_readWhole_lt hw
    split at h
    · cases h
    · rename_i hf
      have h₂ := length_readFraction_le hf
      split at h
      · cases h
      · rename_i he
        have h₃ := length_readExponent_le he
        cases h
        omega

theorem length_readNumber_lt {α : Type} {convert : Parts → Option α} {s r : Text} {x : α}
    (h : readNumber convert s = .ok (x, r)) : r.length < s.length := by
  unfold readNumber at h
  split at h
  · cases h
  · rename_i hp
    split at h
    · cases h
      exact length_readParts_lt hp
    · cases h

theorem length_skipNumber_lt {s r : Text} (h : skipNumber s = .ok r) : r.length < s.length := by
  have hs := length_readMinus_le s
  simp only [skipNumber] at h
  split at h
  · cases h
  · rename_i hw
    have h₁ := length_readWhole_lt hw
    split at h
    · cases h
    · rename_i hf
      have h₂ := length_readFraction_le hf
      split at h
      · cases h
      · rename_i he
        have h₃ := length_readExponent_le he
        cases h
        omega

/-! ## Writing -/

/-- a number in single precision: positional from 10⁻⁶ up to below 10¹³, and a tie between two
shortest decimals goes to the even one. What is no finite number has no notation and is written as
null. -/
def printSingle : Single → Text
  | .finite s u _ =>
    Single.minus s ++
      if u = 0 then "0.0".toList
      else
        let d := Number.shortest .even u
        if -6 < d.point ∧ d.point ≤ 13 then d.positional ".0".toList else d.exponential
  | _ => "null".toList

end LineEditor.Json
