import LineEditor.Proofs.DecimalText
import LineEditor.Proofs.DoubleReading

/-!
# Reading by the nearest double

A decimal is rounded once to double precision and once more to single precision.  A shortest decimal
lies off the ends of its interval by more than the first rounding, so that the second one leads back
to the number, with one exception: 7.038531e-26 lies below the upper end of its interval by less
than half a step of double precision, the double nearest to it is that end, and the end is rounded
to the next greater number.

* `RoundsTwice`, `Parts.nearest?_eq_some_iff`   the conversion, without its steps;
* `keeps_truePower`                             the neighbours of each power of ten;
* **`toSingle_nearestDouble_iff`**              what is read back.
-/

open LineEditor.Number

namespace LineEditor.Json

/-! ## The conversion -/

/-- the number that is nearest to the double that is nearest to a decimal, if that is in range -/
def RoundsTwice (negative : Bool) (d : Decimal) (x : Single) : Prop :=
  ∃ v, IsNearest 53 (d.num * doubleOne) d.den v ∧ v < doubleLimit ∧
    Single.Rounds negative (v * Single.oneUnits) doubleOne x

theorem isNearest_nearestDouble (d : Decimal) :
    IsNearest 53 (d.num * doubleOne) d.den (nearestDouble d) :=
  isNearest_roundTo d.den_pos (by decide)

theorem Parts.nearest?_eq_some_iff {p : Parts} {x : Single} :
    p.nearest? = some x ↔ RoundsTwice p.isMinus p.decimal x := by
  have hv := isNearest_nearestDouble p.decimal
  simp only [nearest?, Option.ite_none_right_eq_some, Option.some.injEq]
  constructor
  · rintro ⟨hlimit, hx⟩
    exact ⟨_, hv, hlimit, (Single.rounds_iff doubleOne_pos).mpr hx⟩
  · rintro ⟨v, hv', hlimit, hx⟩
    obtain rfl := hv.unique p.decimal.den_pos (by decide) hv'
    exact ⟨hlimit, (Single.rounds_iff doubleOne_pos).mp hx⟩

/-- decimals of one value are read as one double -/
theorem nearestDouble_congr {d e : Decimal} (h : d.num * e.den = e.num * d.den) :
    nearestDouble d = nearestDouble e := by
  refine roundTo_congr (by decide) d.den_pos e.den_pos ?_
  rw [Nat.mul_right_comm, h, Nat.mul_right_comm]

/-! ## The powers of ten -/

/-- the power `10 ^ k`, in units of double precision -/
def truePower (k : Int) : Ratio := ⟨(powerOfTen k).1 * quarter, (powerOfTen k).2⟩

theorem nearestDouble_eq (d : Decimal) :
    nearestDouble d = readSize (truePower d.exponent) d.digits := by
  rcases hk : powerOfTen d.exponent with ⟨step, den⟩
  obtain ⟨hnum, hden⟩ := decimal_quarters hk
  have hone : d.num * doubleOne = d.digits * (step * quarter) := by
    rw [← Nat.mul_assoc, hnum, doubleOne_eq]
    ring
  simp only [nearestDouble, readSize, truePower, hk, hone, hden]

theorem close_truePower (k : Int) : Close k (truePower k) := by
  have hsame : (powerOfTen k).1 * quarter * (powerOfTen k).2
      = (powerOfTen k).1 * ((powerOfTen k).2 * quarter) := by ring
  simp only [Close, truePower, hsame]
  exact ⟨Nat.mul_le_mul_right _ (Nat.sub_le _ _), Nat.mul_le_mul_right _ (Nat.le_succ _)⟩

theorem simple_or_between_truePower : ∀ k ∈ exponents, k ≠ 32 → k ≠ -32 →
    Ratio.Simple (Nat.pow 2 29) (trueRatio k) (readRatio k (truePower k)) ∨
      Ratio.Between (Nat.pow 2 25) (Nat.pow 2 29) (trueRatio k) (readRatio k (truePower k))
        (Ratio.neighbours (Nat.pow 2 25) (readRatio k (truePower k))) := by
  decide +kernel

/-- the neighbours that are too close to a power of ten; one pair of them is on its side all the
same -/
theorem around_truePower :
    Ratio.Around (Nat.pow 2 25) (Nat.pow 2 29) (trueRatio 32) (readRatio 32 (truePower 32))
        ⟨28154124, 22841339, 18543863, 15044569⟩ ∧
      Ratio.Keeps (Nat.pow 2 29) (trueRatio 32) (readRatio 32 (truePower 32)) 15044569 18543863 ∧
      Ratio.Around (Nat.pow 2 25) (Nat.pow 2 29) (trueRatio (-32))
        (readRatio (-32) (truePower (-32))) ⟨30089138, 18543863, 22841339, 14077062⟩ := by
  decide +kernel

theorem keeps_truePower {k : Int} {n m : Nat} (hk : k ∈ exponents) (hm : m < Nat.pow 2 25)
    (hodd : m % 2 = 1) (hne : ¬ (k = -32 ∧ n = 14077062 ∧ m = 22841339)) :
    Ratio.Keeps (Nat.pow 2 29) (trueRatio k) (readRatio k (truePower k)) n m := by
  by_cases hpos : k = 32
  · rw [hpos]
    by_cases hpair : n = 15044569 ∧ m = 18543863
    · rw [hpair.1, hpair.2]
      exact around_truePower.2.1
    · refine around_truePower.1.keeps hm ?_ hpair
      rintro ⟨-, rfl⟩
      exact absurd hodd (by decide)
  · by_cases hneg : k = -32
    · rw [hneg]
      refine around_truePower.2.2.keeps hm ?_ fun h => hne ⟨hneg, h⟩
      rintro ⟨-, rfl⟩
      exact absurd hodd (by decide)
    · obtain h | h := simple_or_between_truePower k hk hpos hneg
      · exact h.keeps n m
      · exact h.keeps n hm

/-! ## The exception -/

/-- the size of 7.038531e-26, in units -/
def lostUnits : Nat := 11420669 * Nat.pow 2 42

theorem shortest_lostUnits : shortest .even lostUnits = ⟨7038531, -32⟩ := by decide

theorem fits_lostUnits : Significant 24 lostUnits ∧ lostUnits < Single.limitUnits :=
  ⟨⟨11420669, 42, by decide, rfl⟩, by decide⟩

/-- the next greater number is read -/
theorem nearestDouble_lost :
    nearestDouble ⟨7038531, -32⟩ < doubleLimit ∧
      (Number.real false (nearestDouble ⟨7038531, -32⟩)).toSingle = .finite false
        (11420670 * Nat.pow 2 42) ⟨⟨11420670, 42, by decide, rfl⟩, by decide⟩ := by
  decide +kernel

theorem magnitude_neg_32 : magnitude (-32) = 44 := by decide

/-- the multiple in the pair that is too close is a decimal or twice a decimal, as it is no multiple
of four -/
theorem eq_or_half_of_pair {c j : Nat} (hj : j ≤ 44) (h : c * Nat.pow 2 (44 - j) = 14077062) :
    (c = 14077062 ∧ j = 44) ∨ (c = 7038531 ∧ j = 43) := by
  obtain ⟨i, hi⟩ : ∃ i, 44 = j + i := Nat.exists_eq_add_of_le hj
  rw [hi, Nat.add_sub_cancel_left] at h
  match i with
  | 0 =>
    have hone : c * 1 = 14077062 := h
    exact .inl ⟨by omega, by omega⟩
  | 1 =>
    have htwo : c * 2 = 14077062 := h
    exact .inr ⟨by omega, by omega⟩
  | i + 2 =>
    have hfour : c * (Nat.pow 2 i * 2 * 2) = 14077062 := h
    rw [← Nat.mul_assoc, ← Nat.mul_assoc] at hfour
    omega

section
variable {u : Nat} {d : Decimal} (hu : Significant 24 u) (hpos : 0 < u) (h : IsShortest u d)
include hu hpos h

/-- the pair that is too close belongs to the exception only -/
theorem keepsEnds_truePower (hlimit : u < Single.limitUnits) (hne : u ≠ lostUnits) :
    KeepsEnds (truePower d.exponent) u d := by
  intro m j hm hodd hend hj
  refine keeps_truePower (h.mem hu hpos hlimit) hm hodd ?_
  rintro ⟨hk, hn, rfl⟩
  obtain ⟨c, k⟩ := d
  obtain rfl : k = -32 := hk
  rw [magnitude_neg_32] at hj
  simp only [magnitude_neg_32] at hn
  have hpower : powerOfTen (-32) = (Nat.pow 2 151, Nat.pow 10 32) := rfl
  have hback : readsBack u (c * Nat.pow 2 151) (Nat.pow 10 32) = true := h.readsBack hu hpos hpower
  have hlow : lowerEnd u * Nat.pow 10 32 ≤ c * Nat.pow 2 151 := (readsBack_iff.mp hback).1.1
  obtain ⟨rfl, rfl⟩ | ⟨rfl, rfl⟩ := eq_or_half_of_pair hj hn
  · obtain hend | hend := hend
    · rw [← hend] at hlow
      exact absurd hlow (by decide)
    · -- the multiple before it reads back as well, and it is nearer
      have hu44 : u = 11420669 * Nat.pow 2 43 := by
        have hpow : Nat.pow 2 44 = 2 * Nat.pow 2 43 := rfl
        rw [hpow] at hend
        omega
      subst hu44
      have hother : readsBack (11420669 * Nat.pow 2 43) (14077061 * Nat.pow 2 151)
          (Nat.pow 10 32) = true := by decide
      exact absurd (h.dist_le hu hpos hpower hother) (by decide)
  · obtain hend | hend := hend
    · rw [← hend] at hlow
      exact absurd hlow (by decide)
    · refine hne ?_
      have hpow : Nat.pow 2 43 = 2 * Nat.pow 2 42 := rfl
      rw [hpow] at hend
      unfold lostUnits
      omega

/-- any other number is read back -/
theorem readsBack_nearestDouble (hlimit : u < Single.limitUnits) (hne : u ≠ lostUnits) :
    readsBack u (nearestDouble d) quarter = true := by
  have hden : 0 < (truePower d.exponent).den := (powerOfTen_pos rfl).2
  rw [nearestDouble_eq]
  exact readsBack_readSize hu hpos h hden (close_truePower _)
    (keepsEnds_truePower hu hpos h hlimit hne)

end

/-- the exception has one shortest decimal only -/
theorem eq_of_isShortest_lost {d : Decimal} (h : IsShortest lostUnits d) : d = ⟨7038531, -32⟩ := by
  have hu : Significant 24 lostUnits := fits_lostUnits.1
  have hpos : 0 < lostUnits := by decide
  have hfound : IsShortest lostUnits ⟨7038531, -32⟩ := by
    have hend : EndsAt .even lostUnits _ _ := endsAt_shortest hu hpos
    rw [shortest_lostUnits] at hend
    exact hend.isShortest hu hpos (by decide)
  obtain ⟨c, k⟩ := d
  -- neither has the coarser power of ten, and neither is nearer
  obtain rfl : k = -32 := by
    refine Int.le_antisymm ?_ ?_
    · by_contra! hlt
      exact hfound.coarsest _ hlt h.reads
    · by_contra! hlt
      exact h.coarsest _ hlt hfound.reads
  have hpower : powerOfTen (-32) = (Nat.pow 2 151, Nat.pow 10 32) := rfl
  have hnear := h.dist_le hu hpos hpower (hfound.readsBack hu hpos hpower)
  have hbelow : 7038530 * Nat.pow 2 151 + 7038531 * Nat.pow 2 151
      < 2 * (4 * lostUnits * Nat.pow 10 32) := by decide
  have habove : 4 * lostUnits * Nat.pow 10 32 < 7038531 * Nat.pow 2 151 := by decide
  simp only at hnear
  unfold Nat.dist at hnear
  rcases Nat.lt_trichotomy c 7038531 with hlt | rfl | hgt
  · have hmul : c * Nat.pow 2 151 ≤ 7038530 * Nat.pow 2 151 :=
      Nat.mul_le_mul_right _ (Nat.le_of_lt_succ hlt)
    omega
  · rfl
  · have hmul : 7038532 * Nat.pow 2 151 ≤ c * Nat.pow 2 151 := Nat.mul_le_mul_right _ hgt
    omega

/-! ## What is read back -/

/-- **A shortest decimal is read as its number by way of the nearest double, if the number is not
7.038531e-26.**  That one is read as another number. -/
theorem toSingle_nearestDouble_iff {u : Nat} {d : Decimal}
    (fits : Significant 24 u ∧ u < Single.limitUnits) (hpos : 0 < u) (h : IsShortest u d) :
    nearestDouble d < doubleLimit ∧
      ((Number.real false (nearestDouble d)).toSingle = .finite false u fits ↔ u ≠ lostUnits) := by
  by_cases hlost : u = lostUnits
  · subst hlost
    obtain rfl := eq_of_isShortest_lost h
    refine ⟨nearestDouble_lost.1, iff_of_false ?_ (fun hne => hne rfl)⟩
    rw [nearestDouble_lost.2]
    intro heq
    exact absurd (Single.finite.inj heq).2 (by decide)
  · have hback := readsBack_nearestDouble fits.1 hpos h fits.2 hlost
    exact ⟨lt_doubleLimit_of_readsBack fits.1 hpos fits.2 hback,
      iff_of_true (toSingle_of_readsBack fits hback) hlost⟩

end LineEditor.Json
