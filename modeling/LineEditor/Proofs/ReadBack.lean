import LineEditor.Proofs.MeasuredRows

/-!
# Estimated heights read back

The height estimated for a line is that of a row, times the rows of the line.  The product is
rounded, and so is the quotient when the height is read back; what then is left above a whole number
of rows counts as one row more.  Up to 2²⁴ rows the count is never off by more than one, and it is
right exactly if the product was moved up by less than half a step of single precision at the number
of rows, and not down by half a row.

* `Single.two_mul_product_le`, `Single.le_two_mul_product`   how far the product is moved;
* `Single.ceilCount_quotient_le_iff`                         when no row is added;
* `readsBack_iff_nearRows`                                   when the rows are read back.
-/

namespace LineEditor

open Number

/-- into how many steps single precision divides the way from a whole number to the next -/
def stepsAt (k : Nat) : Nat := Nat.pow 2 (23 - k.log2)

/-- A height of `p` units is near to `k` rows of `r` units: less than half a step of `k` above them,
and no more than half a row below them.  From 2²³ rows on a step is a row; below, no height that was
estimated for `k` rows is half a row too low. -/
structure NearRows (r p k : Nat) : Prop where
  above : 2 * p * stepsAt k < (2 * k * stepsAt k + 1) * r
  below : Nat.pow 2 23 < k → 2 * k * r ≤ 2 * p + r

theorem nearRows_exact {r : Nat} (hr : 0 < r) (k : Nat) : NearRows r (k * r) k where
  above := by
    have heq : 2 * (k * r) * stepsAt k = 2 * k * stepsAt k * r := by ring
    rw [heq, Nat.add_mul, Nat.one_mul]
    exact Nat.lt_add_of_pos_right hr
  below _ := by
    rw [Nat.mul_assoc]
    exact Nat.le_add_right _ r

namespace Single

/-! ## The product -/

/-- `k` times a size, rounded -/
def product (k r : Nat) : Nat := roundTo 24 (k * oneUnits * r) oneUnits

section
variable {k r c : Nat}

theorem significant_product (k r : Nat) : Significant 24 (product k r) :=
  significant_roundTo (by decide) _ _

theorem product_of_significant (h : Significant 24 (k * r)) : product k r = k * r := by
  rw [product, Nat.mul_right_comm]
  exact roundTo_mul h oneUnits_pos

theorem product_top (h : Significant 24 r) :
    product (Nat.pow 2 24) r = Nat.pow 2 24 * r := by
  obtain ⟨m, s, hm, rfl⟩ := h
  refine product_of_significant ⟨m, s + 24, hm, ?_⟩
  have hpow : Nat.pow 2 (s + 24) = Nat.pow 2 s * Nat.pow 2 24 := Nat.pow_add 2 s 24
  rw [hpow, Nat.mul_comm, Nat.mul_assoc]

/-- the product of up to `c * 2²³` rows is rounded to steps of no more than `c` rows -/
theorem unitOf_product_le (hr : 0 < r) (hc : 0 < c) (hk : k ≤ Nat.pow 2 23 * c) :
    unitOf 24 (k * oneUnits * r) oneUnits ≤ c * r := by
  rcases Nat.lt_or_ge 1 (unitOf 24 (k * oneUnits * r) oneUnits) with hunit | hunit
  · have hle := pow_mul_unitOf_le (by decide) hunit
    rw [Nat.mul_right_comm, Nat.mul_div_cancel _ oneUnits_pos, Nat.mul_right_comm] at hle
    have hkr : k * r ≤ Nat.pow 2 23 * (c * r) := by
      rw [← Nat.mul_assoc]
      exact Nat.mul_le_mul_right r hk
    exact Nat.le_of_mul_le_mul_left (hle.trans hkr) (Nat.two_pow_pos 23)
  · exact hunit.trans (Nat.mul_pos hc hr)

theorem le_two_mul_product (hr : 0 < r) (hc : 0 < c) (hk : k ≤ Nat.pow 2 23 * c) :
    2 * (k * r) ≤ 2 * product k r + c * r := by
  have hhalf : 2 * (k * oneUnits * r)
      ≤ (2 * product k r + unitOf 24 (k * oneUnits * r) oneUnits) * oneUnits :=
    le_roundTo_add_half oneUnits_pos
  have hcancel : 2 * (k * r) ≤ 2 * product k r + unitOf 24 (k * oneUnits * r) oneUnits := by
    refine Nat.le_of_mul_le_mul_right ?_ oneUnits_pos
    calc 2 * (k * r) * oneUnits = 2 * (k * oneUnits * r) := by ring
      _ ≤ _ := hhalf
  exact hcancel.trans (Nat.add_le_add_left (unitOf_product_le hr hc hk) _)

theorem two_mul_product_le (hr : 0 < r) (hc : 0 < c) (hk : k ≤ Nat.pow 2 23 * c) :
    2 * product k r ≤ 2 * (k * r) + c * r := by
  have hhalf : 2 * product k r * oneUnits
      ≤ 2 * (k * oneUnits * r) + unitOf 24 (k * oneUnits * r) oneUnits * oneUnits :=
    roundTo_sub_half_le oneUnits_pos
  have hcancel : 2 * product k r ≤ 2 * (k * r) + unitOf 24 (k * oneUnits * r) oneUnits := by
    refine Nat.le_of_mul_le_mul_right ?_ oneUnits_pos
    calc 2 * product k r * oneUnits ≤ _ := hhalf
      _ = (2 * (k * r) + unitOf 24 (k * oneUnits * r) oneUnits) * oneUnits := by ring
  exact hcancel.trans (Nat.add_le_add_left (unitOf_product_le hr hc hk) _)

end

/-! ## The rows of a quotient -/

section
variable {k r p : Nat}

/-- a number of rows below 2²⁴ has 24 digits when it is counted in its steps -/
theorem steps_bounds (h0 : 0 < k) (hk : k < Nat.pow 2 24) :
    Nat.pow 2 23 ≤ k * stepsAt k ∧ k * stepsAt k < Nat.pow 2 24 := by
  have hlog : k.log2 < 24 := (Nat.log2_lt h0.ne').mpr hk
  constructor
  · calc Nat.pow 2 23 = Nat.pow 2 (k.log2 + (23 - k.log2)) := by congr 1; omega
      _ = Nat.pow 2 k.log2 * stepsAt k := Nat.pow_add 2 _ _
      _ ≤ k * stepsAt k := Nat.mul_le_mul_right _ (Nat.log2_self_le h0.ne')
  · calc k * stepsAt k < Nat.pow 2 (k.log2 + 1) * stepsAt k :=
          Nat.mul_lt_mul_of_pos_right Nat.lt_log2_self (Nat.two_pow_pos _)
      _ = Nat.pow 2 (k.log2 + 1 + (23 - k.log2)) := (Nat.pow_add 2 _ _).symm
      _ = Nat.pow 2 24 := by congr 1; omega

theorem oneUnits_eq_steps (h0 : 0 < k) (hk : k < Nat.pow 2 24) :
    oneUnits = stepsAt k * Nat.pow 2 (k.log2 + 126) := by
  have hlog : k.log2 < 24 := (Nat.log2_lt h0.ne').mpr hk
  calc oneUnits = Nat.pow 2 (23 - k.log2 + (k.log2 + 126)) := by
        rw [oneUnits_eq]
        congr 1
        omega
    _ = stepsAt k * Nat.pow 2 (k.log2 + 126) := Nat.pow_add 2 _ _

theorem stepsAt_of_le (h : Nat.pow 2 23 ≤ k) : stepsAt k = 1 := by
  have hlog : 23 ≤ k.log2 := (Nat.le_log2 ((Nat.two_pow_pos 23).trans_le h).ne').mpr h
  rw [stepsAt, Nat.sub_eq_zero_of_le hlog]

/-- a quotient is never half a step above a number of rows, so it is rounded to one side -/
theorem half_step_ne (hr : 0 < r) (h0 : 0 < k) (hk : k < Nat.pow 2 24) (hp : Significant 24 p) :
    2 * p * stepsAt k ≠ (2 * k * stepsAt k + 1) * r := by
  have hbounds := steps_bounds h0 hk
  have hodd : (2 * k * stepsAt k + 1) % 2 = 1 := by
    rw [Nat.mul_assoc]
    omega
  have hgreat : Nat.pow 2 24 < 2 * k * stepsAt k + 1 := by
    have hdouble : Nat.pow 2 24 = 2 * Nat.pow 2 23 := by decide
    rw [Nat.mul_assoc, hdouble]
    omega
  have hne := hp.mul_pow_ne hodd hgreat hr (23 - k.log2 + 1)
  have hpow : p * Nat.pow 2 (23 - k.log2 + 1) = 2 * p * stepsAt k := by
    have hsucc : Nat.pow 2 (23 - k.log2 + 1) = stepsAt k * 2 := Nat.pow_succ 2 _
    rw [hsucc]
    ring
  rwa [hpow] at hne

/-- less than half a step above a number of rows, no row is added -/
theorem ceilCount_quotient_le_iff (hr : 0 < r) (h0 : 0 < k) (hk : k < Nat.pow 2 24)
    (hp : Significant 24 p) :
    ceilCount (quotient p r) ≤ k ↔ 2 * p * stepsAt k < (2 * k * stepsAt k + 1) * r := by
  have hbounds := steps_bounds h0 hk
  have hone := oneUnits_eq_steps h0 hk
  have hunit : 0 < Nat.pow 2 (k.log2 + 126) := Nat.two_pow_pos _
  have hnum : 2 * (p * oneUnits) = 2 * p * stepsAt k * Nat.pow 2 (k.log2 + 126) := by
    rw [hone]
    ring
  rw [ceilCount_le_iff]
  constructor
  · intro hle
    by_contra! hge
    have hlt : (2 * k * stepsAt k + 1) * r < 2 * p * stepsAt k :=
      lt_of_le_of_ne hge (half_step_ne hr h0 hk hp).symm
    have hpast : k * oneUnits < quotient p r := by
      have hsum : (2 * (k * oneUnits) + Nat.pow 2 (k.log2 + 126)) * r
          = (2 * k * stepsAt k + 1) * r * Nat.pow 2 (k.log2 + 126) := by
        rw [hone]
        ring
      refine lt_roundTo (g := k.log2 + 126) (by decide) hr
        (significant_mul_pow (by decide) hk.le 149) ?_ ?_
      · calc k * oneUnits < Nat.pow 2 (k.log2 + 1) * oneUnits :=
              Nat.mul_lt_mul_of_pos_right Nat.lt_log2_self oneUnits_pos
          _ = Nat.pow 2 (k.log2 + 1 + 149) := (Nat.pow_add 2 _ _).symm
          _ = Nat.pow 2 (24 + (k.log2 + 126)) := by congr 1; omega
      · rw [hsum, hnum]
        exact Nat.mul_lt_mul_of_pos_right hlt hunit
    exact absurd hle (Nat.not_le.mpr hpast)
  · intro hlt
    have hsum : (2 * (k * stepsAt k) + 1) * (r * Nat.pow 2 (k.log2 + 126))
        = (2 * k * stepsAt k + 1) * r * Nat.pow 2 (k.log2 + 126) := by ring
    calc quotient p r ≤ k * stepsAt k * Nat.pow 2 (k.log2 + 126) := by
          refine roundTo_le_of_lt_half (by decide) hr hbounds.1 hbounds.2 ?_
          rw [hsum, hnum]
          exact Nat.mul_lt_mul_of_pos_right hlt hunit
      _ = k * oneUnits := by rw [hone, Nat.mul_assoc]

/-- where a step is a row, half a row is not lost -/
theorem le_ceilCount_quotient_iff (hr : 0 < r) (hlow : Nat.pow 2 23 < k) (hk : k ≤ Nat.pow 2 24)
    (hp : Significant 24 p) : k ≤ ceilCount (quotient p r) ↔ 2 * k * r ≤ 2 * p + r := by
  obtain ⟨j, rfl⟩ : ∃ j, k = j + 1 := Nat.exists_eq_add_one_of_ne_zero (by omega)
  have hsteps : stepsAt j = 1 := stepsAt_of_le (Nat.le_of_lt_succ hlow)
  have hiff := ceilCount_quotient_le_iff hr
    ((Nat.two_pow_pos 23).trans_le (Nat.le_of_lt_succ hlow)) hk hp
  rw [hsteps, Nat.mul_one, Nat.mul_one] at hiff
  rw [Nat.add_one_le_iff, ← Nat.not_le, hiff, Nat.not_lt]
  have hexp : 2 * (j + 1) * r = (2 * j + 1) * r + r := by ring
  rw [hexp]
  exact (Nat.add_le_add_iff_right).symm

theorem quotient_mul (hr : 0 < r) (hk : k ≤ Nat.pow 2 24) : quotient (k * r) r = k * oneUnits := by
  rw [quotient, Nat.mul_right_comm]
  exact roundTo_mul (significant_mul_pow (by decide) hk 149) hr

end

/-! ## The rows of the product -/

section
variable {k r : Nat} (hr : 0 < r)
include hr

/-- up to 2²³ rows none is lost -/
theorem le_ceilCount_product (hk : k ≤ Nat.pow 2 23) :
    k ≤ ceilCount (quotient (product k r) r) := by
  cases k with
  | zero => exact Nat.zero_le _
  | succ j =>
    have hnear : 2 * ((j + 1) * r) ≤ 2 * product (j + 1) r + 1 * r :=
      le_two_mul_product hr Nat.one_pos (hk.trans (Nat.mul_one _).ge)
    have htwo : oneUnits = 2 * Nat.pow 2 148 := by decide
    have hpow : 0 < Nat.pow 2 148 := Nat.two_pow_pos 148
    -- half a row less than the product stands for is still a number of single precision
    have hhalf : (2 * j + 1) * Nat.pow 2 148 ≤ quotient (product (j + 1) r) r := by
      have hfew : 2 * j + 1 ≤ Nat.pow 2 24 := by
        have hdouble : Nat.pow 2 24 = 2 * Nat.pow 2 23 := by decide
        omega
      refine le_roundTo (by decide) hr (significant_mul_pow (by decide) hfew 148) ?_
      have hle : (2 * j + 1) * r ≤ 2 * product (j + 1) r := by linarith
      calc (2 * j + 1) * Nat.pow 2 148 * r = (2 * j + 1) * r * Nat.pow 2 148 := by ring
        _ ≤ 2 * product (j + 1) r * Nat.pow 2 148 := Nat.mul_le_mul_right _ hle
        _ = product (j + 1) r * oneUnits := by rw [htwo]; ring
    rw [Nat.add_one_le_iff, ← Nat.not_le, ceilCount_le_iff, Nat.not_le]
    calc j * oneUnits = 2 * j * Nat.pow 2 148 := by rw [htwo]; ring
      _ < (2 * j + 1) * Nat.pow 2 148 := by linarith
      _ ≤ quotient (product (j + 1) r) r := hhalf

/-- up to 2²⁴ rows no more than one is lost -/
theorem le_ceilCount_product_add_one (hk : k ≤ Nat.pow 2 24) :
    k ≤ ceilCount (quotient (product k r) r) + 1 := by
  cases k with
  | zero => exact Nat.zero_le _
  | succ j =>
    have hlow : 2 * ((j + 1) * r) ≤ 2 * product (j + 1) r + 2 * r :=
      le_two_mul_product hr (by decide) hk
    have hj : j * r ≤ product (j + 1) r := by linarith
    have hcount : ceilCount (quotient (j * r) r) ≤ ceilCount (quotient (product (j + 1) r) r) :=
      ceilCount_mono (quotient_mono hr hj)
    rw [quotient_mul hr (Nat.le_of_succ_le hk), ceilCount_mul] at hcount
    exact Nat.succ_le_succ hcount

/-- up to 2²⁴ rows no more than one is added -/
theorem ceilCount_product_le_add_one (hk : k ≤ Nat.pow 2 24) (hsig : Significant 24 r) :
    ceilCount (quotient (product k r) r) ≤ k + 1 := by
  rcases hk.lt_or_eq with hlt | rfl
  · have hhigh : 2 * product k r ≤ 2 * (k * r) + 2 * r := two_mul_product_le hr (by decide) hk
    have hnext : product k r ≤ (k + 1) * r := by linarith
    have hcount : ceilCount (quotient (product k r) r) ≤ ceilCount (quotient ((k + 1) * r) r) :=
      ceilCount_mono (quotient_mono hr hnext)
    rwa [quotient_mul hr hlt, ceilCount_mul] at hcount
  · rw [product_top hsig, quotient_mul hr hk, ceilCount_mul]
    exact Nat.le_succ _

theorem ceilCount_product_eq_iff (h0 : 0 < k) (hk : k ≤ Nat.pow 2 24) (hsig : Significant 24 r) :
    ceilCount (quotient (product k r) r) = k ↔ NearRows r (product k r) k := by
  rcases hk.lt_or_eq with hlt | rfl
  · have habove := ceilCount_quotient_le_iff hr h0 hlt (significant_product k r)
    constructor
    · intro h
      refine ⟨habove.mp h.le, fun hlow => ?_⟩
      exact (le_ceilCount_quotient_iff hr hlow hk (significant_product k r)).mp h.ge
    · intro h
      refine (habove.mpr h.above).antisymm ?_
      rcases Nat.lt_or_ge (Nat.pow 2 23) k with hlow | hfew
      · exact (le_ceilCount_quotient_iff hr hlow hk (significant_product k r)).mpr (h.below hlow)
      · exact le_ceilCount_product hr hfew
  · -- a power of two moves the digits and rounds nothing
    rw [product_top hsig, quotient_mul hr hk, ceilCount_mul]
    exact iff_of_true rfl (nearRows_exact hr _)

end

end Single

/-! ## The rows of an estimate -/

open Single

namespace RowMetrics
variable {m : RowMetrics} {n r p : Nat}

theorem heightOfSize_eq {fits : Significant 24 r ∧ r < limitUnits}
    (hm : m.rowHeight = .finite false r fits) (hk : m.rowsOfSize n ≤ Nat.pow 2 24) :
    m.heightOfSize n = ofUnits false (m.rowsOfSize n * oneUnits * r) oneUnits := by
  have hrows : Significant 24 (m.rowsOfSize n * oneUnits) ∧
      m.rowsOfSize n * oneUnits < limitUnits :=
    ⟨significant_mul_pow (by decide) hk 149,
      (Nat.mul_le_mul_right oneUnits hk).trans_lt (by decide)⟩
  have hnat : Single.ofNat (m.rowsOfSize n) = .finite false (m.rowsOfSize n * oneUnits) hrows := by
    have h := ofUnits_mul false hrows Nat.one_pos
    rwa [Nat.mul_one] at h
  rw [heightOfSize, hnat, hm]
  rfl

/-- a finite estimate is the rounded product -/
theorem heightOfSize_of_units? {fits : Significant 24 r ∧ r < limitUnits}
    (hm : m.rowHeight = .finite false r fits) (hk : m.rowsOfSize n ≤ Nat.pow 2 24)
    (hp : (m.heightOfSize n).units? = some (p : Int)) :
    ∃ hfits, m.heightOfSize n = .finite false (product (m.rowsOfSize n) r) hfits ∧
      p = product (m.rowsOfSize n) r := by
  rw [heightOfSize_eq hm hk] at hp ⊢
  unfold ofUnits at hp ⊢
  split at hp
  · rename_i hlimit
    refine ⟨⟨significant_product _ r, hlimit⟩, dif_pos hlimit, ?_⟩
    exact (Int.ofNat.inj (Option.some.inj hp)).symm
  · cases hp

end RowMetrics

/-- **When an estimate is read back.**  A height that was estimated for up to 2²⁴ rows, and is
finite, is read back as the rows it was made from if and only if it is near to them.  It is never
read back as two rows more or fewer, and up to 2²³ rows never as fewer. -/
theorem readsBack_iff_nearRows {m : RowMetrics} {n r p : Nat}
    (hheight : m.rowHeight.isPositive = true) (hr : m.rowHeight.units? = some (r : Int))
    (hk : m.rowsOfSize n ≤ Nat.pow 2 24) (hp : (m.heightOfSize n).units? = some (p : Int)) :
    (m.rowsOfHeight (m.heightOfSize n) = m.rowsOfSize n ↔ NearRows r p (m.rowsOfSize n)) ∧
      m.rowsOfSize n ≤ m.rowsOfHeight (m.heightOfSize n) + 1 ∧
      m.rowsOfHeight (m.heightOfSize n) ≤ m.rowsOfSize n + 1 ∧
      (m.rowsOfSize n ≤ Nat.pow 2 23 → m.rowsOfSize n ≤ m.rowsOfHeight (m.heightOfSize n)) := by
  have hpos : 0 < r := pos_of_units? hheight hr
  obtain ⟨fits, hm⟩ := eq_finite_of_units? hr hpos
  obtain ⟨hfits, hestimate, rfl⟩ := RowMetrics.heightOfSize_of_units? hm hk hp
  have h0 : 0 < m.rowsOfSize n := m.one_le_rowsOfSize n
  rw [hestimate]
  generalize m.rowsOfSize n = k at *
  have hhigh : ceilCount (quotient (product k r) r) ≤ k + 1 :=
    ceilCount_product_le_add_one hpos hk fits.1
  have hlow : k ≤ ceilCount (quotient (product k r) r) + 1 := le_ceilCount_product_add_one hpos hk
  have hfew : k ≤ Nat.pow 2 23 → k ≤ ceilCount (quotient (product k r) r) :=
    le_ceilCount_product hpos
  have hone : 1 ≤ ceilCount (quotient (product k r) r) := by
    rcases Nat.lt_or_ge (Nat.pow 2 23) k with hmany | hle
    · have hmore : 2 < Nat.pow 2 23 := by decide
      omega
    · exact (Nat.succ_le_of_lt h0).trans (hfew hle)
  have hlimit : quotient (product k r) r < limitUnits := by
    refine (ceilCount_le_iff.mp hhigh).trans_lt ?_
    exact (Nat.mul_le_mul_right oneUnits (Nat.succ_le_succ hk)).trans_lt (by decide)
  have hrows : m.rowsOfHeight (.finite false (product k r) hfits)
      = ceilCount (quotient (product k r) r) := by
    have hcount : ceilCount (quotient (product k r) r) ≤ maxCount :=
      hhigh.trans ((Nat.succ_le_succ hk).trans (by decide))
    rw [RowMetrics.rowsOfHeight_finite hm hpos hfits hlimit, Nat.max_eq_right hone,
      Nat.min_eq_left hcount]
  rw [hrows]
  exact ⟨ceilCount_product_eq_iff hpos h0 hk fits.1, hlow, hhigh, hfew⟩

/-- sixty characters on a row of 27.2 pixels -/
def RowMetrics.tenths : RowMetrics := .ofWidth (.ofUnits false (272 * oneUnits) 10) 60

/-- five rows, estimated a little too low -/
theorem readsBack_iff_nearRows_tenths :
    RowMetrics.tenths.rowsOfSize 300 = 5 ∧
      RowMetrics.tenths.rowsOfHeight (RowMetrics.tenths.heightOfSize 300) = 5 := by
  have hheight : RowMetrics.tenths.rowHeight.isPositive = true := by decide
  have hr : RowMetrics.tenths.rowHeight.units? = some ((14260634 * Nat.pow 2 130 : Nat) : Int) := by
    decide
  have hp : (RowMetrics.tenths.heightOfSize 300).units?
      = some ((8912896 * Nat.pow 2 133 : Nat) : Int) := by decide
  have hrows : RowMetrics.tenths.rowsOfSize 300 = 5 := by decide
  have h := readsBack_iff_nearRows hheight hr (by decide) hp
  rw [hrows] at h
  exact ⟨hrows, h.1.mpr ⟨by decide, by decide⟩⟩

/-- three rows are estimated at 81.600006 pixels, and that height is read back as four -/
theorem readsBack_ne_tenths :
    RowMetrics.tenths.rowHeight.isPositive = true ∧ RowMetrics.tenths.rowsOfSize 180 = 3 ∧
      (RowMetrics.tenths.heightOfSize 180).units?
        = some ((10695476 * Nat.pow 2 132 : Nat) : Int) ∧
      RowMetrics.tenths.rowsOfHeight (RowMetrics.tenths.heightOfSize 180) = 4 := by
  decide

end LineEditor
