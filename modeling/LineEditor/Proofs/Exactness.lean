import LineEditor.Number.Single

/-!
# Exact results

A result that 24 significant digits can write is not changed by rounding.  So one is the unit of the
product, and a positive number divided by itself is one.

* `roundTo_mul`              an exact quotient;
* `Single.one_mul`, `Single.div_self`.
-/

namespace LineEditor

namespace Number

theorem roundDiv_mul {den : Nat} (k : Nat) (h : 0 < den) : roundDiv (k * den) den = k := by
  unfold roundDiv
  rw [Nat.mul_mod_left, Nat.mul_div_cancel k h, if_neg]
  omega

/-- a significant number has no digits in the places that rounding drops -/
theorem Significant.dvd {p n : Nat} (h : Significant p n) : Nat.pow 2 (surplus p n) ∣ n := by
  obtain ⟨m, s, hm, rfl⟩ := h
  by_cases hn : m * Nat.pow 2 s = 0
  · rw [hn]
    exact Nat.dvd_zero _
  · -- `m` has at most `p` digits, so rounding drops no more than the `s` zeros behind it
    have hlt : m * Nat.pow 2 s < Nat.pow 2 (p + s) := by
      refine Nat.lt_of_lt_of_eq ?_ (Nat.pow_add 2 p s).symm
      exact Nat.mul_lt_mul_of_pos_right hm (Nat.two_pow_pos s)
    have hlog : (m * Nat.pow 2 s).log2 < p + s := (Nat.log2_lt hn).mpr hlt
    have hle : surplus p (m * Nat.pow 2 s) ≤ s := by
      unfold surplus
      omega
    exact Nat.dvd_trans (Nat.pow_dvd_pow 2 hle) (Nat.dvd_mul_left _ m)

theorem roundTo_mul {p n den : Nat} (h : Significant p n) (hd : 0 < den) :
    roundTo p (n * den) den = n := by
  obtain ⟨k, hk⟩ := h.dvd
  have hunit : 0 < Nat.pow 2 (surplus p n) := Nat.two_pow_pos _
  have hsplit : n * den = k * (den * Nat.pow 2 (surplus p n)) := by
    calc n * den = Nat.pow 2 (surplus p n) * k * den := by rw [← hk]
      _ = k * (den * Nat.pow 2 (surplus p n)) := by
        rw [Nat.mul_comm (Nat.pow 2 (surplus p n)) k, Nat.mul_assoc,
          Nat.mul_comm (Nat.pow 2 (surplus p n)) den]
  unfold roundTo
  rw [Nat.mul_div_cancel n hd]
  show roundDiv (n * den) (den * Nat.pow 2 (surplus p n)) * Nat.pow 2 (surplus p n) = n
  rw [hsplit, roundDiv_mul k (Nat.mul_pos hd hunit), Nat.mul_comm, ← hk]

end Number

namespace Single

open Number

theorem ofUnits_mul {u den : Nat} (negative : Bool) (fits : Significant 24 u ∧ u < limitUnits)
    (hd : 0 < den) : ofUnits negative (u * den) den = .finite negative u fits := by
  have hround : roundTo 24 (u * den) den = u := roundTo_mul fits.1 hd
  unfold ofUnits
  simp only [hround, fits.2, dite_true]

theorem oneUnits_pos : 0 < oneUnits := Nat.two_pow_pos 149

theorem fits_oneUnits : Significant 24 oneUnits ∧ oneUnits < limitUnits :=
  ⟨⟨1, 149, by decide, (Nat.one_mul _).symm⟩, by decide⟩

theorem ofNat_one : ofNat 1 = .finite false oneUnits fits_oneUnits := by
  unfold ofNat
  rw [Nat.mul_comm]
  exact ofUnits_mul false fits_oneUnits Nat.one_pos

theorem eq_finite_of_isPositive {x : Single} (h : x.isPositive = true) :
    ∃ u fits, x = .finite false u fits ∧ 0 < u := by
  cases x with
  | nan => cases h
  | infinite negative => cases h
  | finite negative u fits =>
    cases negative with
    | true => cases h
    | false => exact ⟨u, fits, rfl, of_decide_eq_true h⟩

theorem one_mul {x : Single} (h : x.isPositive = true) : (ofNat 1).mul x = x := by
  obtain ⟨u, fits, rfl, _⟩ := eq_finite_of_isPositive h
  rw [ofNat_one]
  show ofUnits (false ^^ false) (oneUnits * u) oneUnits = _
  rw [Nat.mul_comm]
  exact ofUnits_mul false fits oneUnits_pos

theorem div_self {x : Single} (h : x.isPositive = true) : x.div x = ofNat 1 := by
  obtain ⟨u, fits, rfl, hpos⟩ := eq_finite_of_isPositive h
  rw [ofNat_one]
  show (if u = 0 then _ else ofUnits (false ^^ false) (u * oneUnits) u) = _
  rw [if_neg (Nat.ne_of_gt hpos), Nat.mul_comm]
  exact ofUnits_mul false fits_oneUnits hpos

theorem ceil_one : (ofNat 1).ceil = ofNat 1 := by
  rw [ofNat_one]
  show ofUnits false ((oneUnits + (oneUnits - 1)) / oneUnits * oneUnits) 1 = _
  have hwhole : (oneUnits + (oneUnits - 1)) / oneUnits * oneUnits = oneUnits * 1 := by decide
  rw [hwhole]
  exact ofUnits_mul false fits_oneUnits Nat.one_pos

theorem wholeCount?_one : (ofNat 1).wholeCount? = some 1 := by
  rw [ofNat_one]
  show (if oneUnits ≤ oneUnits then some (oneUnits / oneUnits) else none) = some 1
  rw [if_pos (Nat.le_refl _), Nat.div_self oneUnits_pos]

end Single

end LineEditor
