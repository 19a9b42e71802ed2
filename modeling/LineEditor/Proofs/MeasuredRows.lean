import LineEditor.Proofs.Rounding
import LineEditor.Rows

/-!
# The rows of a measured height

A height is divided by that of a row, and the quotient is rounded up to whole rows.  Each step keeps
the order, so a greater height never has fewer rows, until the quotient is too great for single
precision: then it is infinite, and what is not finite counts as one row.

* `Single.ceil_finite`              rounding up to a whole number loses nothing;
* `Single.quotient_lt_limit`, `Single.limit_le_quotient`   which quotients are infinite;
* `RowMetrics.rowsOfHeight_finite`  the rows of a height in whole numbers;
* `rowsOfHeight_le_iff`             where a greater height has no fewer rows.
-/

namespace LineEditor

open Number

/-! ## Whole parts -/

namespace Single

/-- the size of a finite number with its sign, in units -/
def units? : Single → Option Int
  | finite false u _ => some u
  | finite true u _ => some (-u)
  | _ => none

section
variable {x : Single}

theorem units?_cases {i : Int} (h : x.units? = some i) :
    (∃ (u : Nat) (fits : _), x = .finite false u fits ∧ i = u) ∨
      ∃ (u : Nat) (fits : _), x = .finite true u fits ∧ i ≤ 0 := by
  cases x with
  | nan => cases h
  | infinite negative => cases h
  | finite negative u fits =>
    cases negative with
    | false => exact .inl ⟨u, fits, rfl, (Option.some.inj h).symm⟩
    | true =>
      have hi : -(u : Int) = i := Option.some.inj h
      exact .inr ⟨u, fits, rfl, by omega⟩

theorem eq_finite_of_units? {r : Nat} (h : x.units? = some (r : Int)) (hpos : 0 < r) :
    ∃ fits, x = .finite false r fits := by
  rcases units?_cases h with ⟨u, fits, hx, hu⟩ | ⟨u, fits, -, hu⟩
  · obtain rfl : r = u := Int.ofNat.inj hu
    exact ⟨fits, hx⟩
  · omega

theorem pos_of_units? {r : Nat} (hx : x.isPositive = true) (h : x.units? = some (r : Int)) :
    0 < r := by
  obtain ⟨u, fits, rfl, hu⟩ := eq_finite_of_isPositive hx
  obtain rfl : u = r := Int.ofNat.inj (Option.some.inj h)
  exact hu

end

/-- the least whole number that is not below a size -/
def ceilCount (u : Nat) : Nat := (u + (oneUnits - 1)) / oneUnits

section
variable {u k : Nat}

theorem oneUnits_eq : oneUnits = Nat.pow 2 149 := rfl

theorem ceilCount_le_iff : ceilCount u ≤ k ↔ u ≤ k * oneUnits := by
  have hone : 0 < oneUnits := oneUnits_pos
  rw [ceilCount, Nat.div_le_iff_le_mul_add_pred hone, Nat.add_le_add_iff_right, Nat.mul_comm]

theorem ceilCount_mono {t : Nat} (h : t ≤ u) : ceilCount t ≤ ceilCount u :=
  Nat.div_le_div_right (Nat.add_le_add_right h _)

theorem ceilCount_mul (k : Nat) : ceilCount (k * oneUnits) = k := by
  refine (ceilCount_le_iff.mpr le_rfl).antisymm ?_
  exact Nat.le_of_mul_le_mul_right (ceilCount_le_iff.mp le_rfl) oneUnits_pos

/-- where the numbers stand no denser than the whole ones, a number is whole -/
theorem oneUnits_dvd (hu : Significant 24 u) (h : Nat.pow 2 24 * oneUnits ≤ u) : oneUnits ∣ u := by
  have hpow : Nat.pow 2 173 ≤ u := (Nat.pow_add 2 24 149).le.trans h
  have hlog : 173 ≤ u.log2 := (Nat.le_log2 ((Nat.two_pow_pos 173).trans_le hpow).ne').mpr hpow
  have hs : 149 ≤ surplus 24 u := by
    unfold surplus
    omega
  exact (Nat.pow_dvd_pow 2 hs).trans hu.dvd

theorem fits_ceilCount (fits : Significant 24 u ∧ u < limitUnits) :
    Significant 24 (ceilCount u * oneUnits) ∧ ceilCount u * oneUnits < limitUnits := by
  rcases Nat.le_total u (Nat.pow 2 24 * oneUnits) with hle | hge
  · have hc : ceilCount u ≤ Nat.pow 2 24 := ceilCount_le_iff.mpr hle
    refine ⟨significant_mul_pow (by decide) hc 149, ?_⟩
    exact (Nat.mul_le_mul_right oneUnits hc).trans_lt (by decide)
  · obtain ⟨k, hk⟩ := oneUnits_dvd fits.1 hge
    have hsame : ceilCount u * oneUnits = u := by
      rw [hk, Nat.mul_comm oneUnits k, ceilCount_mul]
    rwa [hsame]

theorem ceil_finite (fits : Significant 24 u ∧ u < limitUnits) :
    (finite false u fits).ceil = finite false (ceilCount u * oneUnits) (fits_ceilCount fits) := by
  have h := ofUnits_mul false (fits_ceilCount fits) Nat.one_pos
  rwa [Nat.mul_one] at h

theorem wholeCount?_ceil (fits : Significant 24 u ∧ u < limitUnits) :
    (finite false u fits).ceil.wholeCount?
      = if ceilCount u = 0 then none else some (ceilCount u) := by
  have hone : 0 < oneUnits := oneUnits_pos
  rw [ceil_finite]
  show (if oneUnits ≤ ceilCount u * oneUnits then some (ceilCount u * oneUnits / oneUnits)
    else none) = _
  rw [Nat.mul_div_cancel _ hone]
  by_cases hc : ceilCount u = 0
  · rw [if_pos hc, hc, Nat.zero_mul, if_neg (Nat.not_le.mpr hone)]
  · rw [if_neg hc, if_pos (Nat.le_mul_of_pos_left oneUnits (Nat.pos_of_ne_zero hc))]

end

theorem wholeCount?_ofUnits_true (num den : Nat) : (ofUnits true num den).wholeCount? = none := by
  unfold ofUnits
  split
  · rfl
  · rfl

theorem wholeCount?_ceil_ofUnits_true (num den : Nat) :
    (ofUnits true num den).ceil.wholeCount? = none := by
  unfold ofUnits
  split
  · exact wholeCount?_ofUnits_true _ 1
  · rfl

/-! ## Quotients -/

/-- the quotient of two sizes, in units -/
def quotient (p r : Nat) : Nat := roundTo 24 (p * oneUnits) r

/-- from here on a quotient is infinite: half-way between the greatest number and 2¹²⁸ -/
def tooTall : Nat := Nat.pow 2 128 - Nat.pow 2 103

section
variable {p q r : Nat} (hr : 0 < r)
include hr

theorem quotient_mono (h : p ≤ q) : quotient p r ≤ quotient q r :=
  roundTo_mono (by decide) hr (Nat.mul_le_mul_right oneUnits h)

theorem quotient_lt_limit (h : p < tooTall * r) : quotient p r < limitUnits := by
  have hhalf : 2 * (tooTall * oneUnits) = (2 * 16777215 + 1) * Nat.pow 2 253 := by decide
  have hone : p * oneUnits < tooTall * r * oneUnits :=
    Nat.mul_lt_mul_of_pos_right h oneUnits_pos
  have hle : quotient p r ≤ 16777215 * Nat.pow 2 253 := by
    refine roundTo_le_of_lt_half (by decide) hr (by decide) (by decide) ?_
    calc 2 * (p * oneUnits) < 2 * (tooTall * r * oneUnits) := by linarith
      _ = 2 * (tooTall * oneUnits) * r := by ring
      _ = (2 * 16777215 + 1) * (r * Nat.pow 2 253) := by rw [hhalf]; ring
  exact hle.trans_lt (by decide)

theorem limit_le_quotient (h : tooTall * r ≤ p) : limitUnits ≤ quotient p r := by
  have hhalf : 2 * 16777216 * Nat.pow 2 253 = 2 * (tooTall * oneUnits) + Nat.pow 2 253 := by decide
  have hlimit : limitUnits = 16777216 * Nat.pow 2 253 := by decide
  have hone : tooTall * r * oneUnits ≤ p * oneUnits := Nat.mul_le_mul_right oneUnits h
  rw [hlimit]
  refine le_roundTo_of_half (by decide) hr (by decide) (by decide) (by decide) ?_
  calc 2 * 16777216 * (r * Nat.pow 2 253) = (2 * 16777216 * Nat.pow 2 253) * r := by ring
    _ = 2 * (tooTall * r * oneUnits) + r * Nat.pow 2 253 := by rw [hhalf]; ring
    _ ≤ 2 * (p * oneUnits) + r * Nat.pow 2 253 := by linarith

end

end Single

/-! ## Rows -/

open Single

namespace RowMetrics
variable {m : RowMetrics} {r p : Nat}

theorem one_le_rowsOfHeight (m : RowMetrics) (x : Single) : 1 ≤ m.rowsOfHeight x := by
  unfold rowsOfHeight
  split
  · rename_i n hn
    -- what counts as a whole number is at least one
    have hpos : 1 ≤ n := by
      unfold wholeCount? at hn
      split at hn
      · rename_i u _ _
        split at hn
        · rename_i hle
          rw [← Option.some.inj hn]
          exact (Nat.one_le_div_iff oneUnits_pos).mpr hle
        · cases hn
      · cases hn
    exact Nat.le_min.mpr ⟨hpos, by decide⟩
  · exact le_rfl

section
variable {hr : Significant 24 r ∧ r < limitUnits} (hm : m.rowHeight = .finite false r hr)
  (hpos : 0 < r)
include hm hpos

theorem div_rowHeight (negative : Bool) (hp : Significant 24 p ∧ p < limitUnits) :
    (Single.finite negative p hp).div m.rowHeight = ofUnits negative (p * oneUnits) r := by
  rw [hm]
  show (if r = 0 then _ else ofUnits (negative ^^ false) (p * oneUnits) r) = _
  rw [if_neg hpos.ne', Bool.xor_false]

/-- the rows of a height that is not negative, in whole numbers -/
theorem rowsOfHeight_finite (hp : Significant 24 p ∧ p < limitUnits)
    (h : quotient p r < limitUnits) :
    m.rowsOfHeight (.finite false p hp) = min (max 1 (ceilCount (quotient p r))) maxCount := by
  have hquotient : ofUnits false (p * oneUnits) r =
      .finite false (quotient p r) ⟨significant_roundTo (by decide) _ _, h⟩ := dif_pos h
  rw [rowsOfHeight, div_rowHeight hm hpos, hquotient, wholeCount?_ceil]
  by_cases hc : ceilCount (quotient p r) = 0
  · rw [if_pos hc, hc]
    decide
  · rw [if_neg hc, Nat.max_eq_right (Nat.pos_of_ne_zero hc)]

theorem rowsOfHeight_infinite (hp : Significant 24 p ∧ p < limitUnits)
    (h : limitUnits ≤ quotient p r) : m.rowsOfHeight (.finite false p hp) = 1 := by
  have hquotient : ofUnits false (p * oneUnits) r = .infinite false :=
    dif_neg (Nat.not_lt.mpr h)
  rw [rowsOfHeight, div_rowHeight hm hpos, hquotient]
  rfl

theorem rowsOfHeight_negative (hp : Significant 24 p ∧ p < limitUnits) :
    m.rowsOfHeight (.finite true p hp) = 1 := by
  rw [rowsOfHeight, div_rowHeight hm hpos, wholeCount?_ceil_ofUnits_true]

end

/-! ## Greater heights -/

section
variable {a b : Single} {i j : Int} (hr : m.rowHeight.units? = some (r : Int)) (hpos : 0 < r)
include hr hpos

theorem rowsOfHeight_nonpos (ha : a.units? = some i) (hi : i ≤ 0) : m.rowsOfHeight a = 1 := by
  obtain ⟨fits, hm⟩ := eq_finite_of_units? hr hpos
  rcases units?_cases ha with ⟨p, hp, rfl, rfl⟩ | ⟨p, hp, rfl, -⟩
  · obtain rfl : p = 0 := by omega
    have hzero : quotient 0 r ≤ 0 := roundTo_le hpos hp.1 (by rw [Nat.zero_mul, Nat.zero_mul])
    have hcount : ceilCount (quotient 0 r) ≤ 0 := ceilCount_le_iff.mpr (by rwa [Nat.zero_mul])
    rw [rowsOfHeight_finite hm hpos hp (hzero.trans_lt (by decide)), Nat.le_zero.mp hcount]
    decide
  · exact rowsOfHeight_negative hm hpos hp

theorem rowsOfHeight_mono (ha : a.units? = some i) (hb : b.units? = some j) (hle : i ≤ j)
    (hj : j < (tooTall * r : Nat)) : m.rowsOfHeight a ≤ m.rowsOfHeight b := by
  obtain ⟨fits, hm⟩ := eq_finite_of_units? hr hpos
  rcases Int.le_total i 0 with hi | hi
  · rw [rowsOfHeight_nonpos hr hpos ha hi]
    exact m.one_le_rowsOfHeight b
  · rcases units?_cases hb with ⟨q, hq, rfl, rfl⟩ | ⟨q, hq, -, hneg⟩
    · rcases units?_cases ha with ⟨p, hp, rfl, rfl⟩ | ⟨p, hp, rfl, -⟩
      · have hpq : p ≤ q := Int.ofNat_le.mp hle
        have hqr : q < tooTall * r := Int.ofNat_lt.mp hj
        rw [rowsOfHeight_finite hm hpos hp (quotient_lt_limit hpos (hpq.trans_lt hqr)),
          rowsOfHeight_finite hm hpos hq (quotient_lt_limit hpos hqr)]
        exact min_le_min_right _ (max_le_max_left _ (ceilCount_mono (quotient_mono hpos hpq)))
      · rw [rowsOfHeight_negative hm hpos hp]
        exact m.one_le_rowsOfHeight _
    · rw [rowsOfHeight_nonpos hr hpos ha (hle.trans hneg)]
      exact m.one_le_rowsOfHeight b

theorem rowsOfHeight_tooTall (hb : b.units? = some j) (hj : (tooTall * r : Nat) ≤ j) :
    m.rowsOfHeight b = 1 := by
  obtain ⟨fits, hm⟩ := eq_finite_of_units? hr hpos
  rcases units?_cases hb with ⟨q, hq, rfl, rfl⟩ | ⟨q, hq, rfl, -⟩
  · exact rowsOfHeight_infinite hm hpos hq (limit_le_quotient hpos (Int.ofNat_le.mp hj))
  · exact rowsOfHeight_negative hm hpos hq

end

end RowMetrics

/-- **A greater height has no fewer rows, unless it is too great.**  Of two finite heights the
greater one has at least the rows of the other as long as it is below 2¹²⁸ - 2¹⁰³ rows.  From there
on the quotient is infinite and counts as one row, so the greater height has fewer rows than any
other of two rows or more. -/
theorem rowsOfHeight_le_iff {m : RowMetrics} {r : Nat} {a b : Single} {i j : Int}
    (hm : m.rowHeight.isPositive = true) (hr : m.rowHeight.units? = some (r : Int))
    (ha : a.units? = some i) (hb : b.units? = some j) (hle : i ≤ j) :
    (m.rowsOfHeight a ≤ m.rowsOfHeight b ↔ j < (tooTall * r : Nat) ∨ m.rowsOfHeight a = 1) ∧
      ((tooTall * r : Nat) ≤ j → m.rowsOfHeight b = 1) := by
  have hpos : 0 < r := pos_of_units? hm hr
  have hone : 1 ≤ m.rowsOfHeight a := m.one_le_rowsOfHeight a
  have hgreat : (tooTall * r : Nat) ≤ j → m.rowsOfHeight b = 1 :=
    RowMetrics.rowsOfHeight_tooTall hr hpos hb
  refine ⟨⟨fun h => ?_, fun h => ?_⟩, hgreat⟩
  · rcases lt_or_ge j (tooTall * r : Nat) with hj | hj
    · exact .inl hj
    · rw [hgreat hj] at h
      exact .inr (h.antisymm hone)
  · rcases h with hj | hrows
    · exact RowMetrics.rowsOfHeight_mono hr hpos ha hb hle hj
    · rw [hrows]
      exact m.one_le_rowsOfHeight b

/-- rows of half a pixel -/
def RowMetrics.fine : RowMetrics := .ofWidth (.ofUnits false Single.oneUnits 2) 1

/-- two heights of more rows than can be counted -/
theorem rowsOfHeight_le_fine :
    RowMetrics.fine.rowHeight.isPositive = true ∧
      RowMetrics.fine.rowsOfHeight (.ofNat (Nat.pow 2 125))
        ≤ RowMetrics.fine.rowsOfHeight (.ofNat (Nat.pow 2 126)) := by
  have hm : RowMetrics.fine.rowHeight.isPositive = true := by decide
  have hr : RowMetrics.fine.rowHeight.units? = some ((Nat.pow 2 148 : Nat) : Int) := by
    decide
  have ha : (Single.ofNat (Nat.pow 2 125)).units?
      = some ((Nat.pow 2 125 * oneUnits : Nat) : Int) := by decide
  have hb : (Single.ofNat (Nat.pow 2 126)).units?
      = some ((Nat.pow 2 126 * oneUnits : Nat) : Int) := by decide
  have h := rowsOfHeight_le_iff hm hr ha hb (by decide)
  exact ⟨hm, h.1.mpr (.inl (by decide))⟩

/-- twice a height of more rows than can be counted has one row -/
theorem rowsOfHeight_gt_fine :
    RowMetrics.fine.rowHeight.isPositive = true ∧
      (Single.ofNat (Nat.pow 2 126)).units? = some ((Nat.pow 2 126 * oneUnits : Nat) : Int) ∧
      (Single.ofNat (Nat.pow 2 127)).units? = some ((Nat.pow 2 127 * oneUnits : Nat) : Int) ∧
      RowMetrics.fine.rowsOfHeight (.ofNat (Nat.pow 2 126)) = maxCount ∧
      RowMetrics.fine.rowsOfHeight (.ofNat (Nat.pow 2 127)) = 1 := by
  decide

end LineEditor
