import LineEditor.Json.Number
import LineEditor.Proofs.Neighbours
import LineEditor.Proofs.ShortestDecimal

/-!
# Reading a decimal through double precision

A number of single precision is written with the fewest digits that read back, and it is read in
steps, each rounded: maybe the power of ten, its product with the digits in double precision, and
the result in single precision.  The steps lead out of the interval of sizes that are rounded to the
number only where the decimal lies close to an end of it.

* Where the power of ten is finer than the distance from the number to the end, the decimal is far
  from the end, because it is the multiple nearest to the number; the steps move it by much less.
* Otherwise the decimal and the end are, up to a power of two, a multiple of the power of ten and a
  whole number of 25 binary digits.  The steps do not lead past the end if the ratio that stands for
  the power of ten in reading keeps the multiple on its side of the whole number.

So what is written is read back whenever the ratio keeps the decimal on its sides of the two ends
(`readsBack_readSize`).
-/

open LineEditor.Number

namespace LineEditor.Json

/-! ## Powers of ten as they are read -/

/-- a quarter of the unit of single precision, in units of double precision -/
def quarter : Nat := Nat.pow 2 923

/-- the size of a significand as it is read, when it is multiplied with the ratio `r` in units of
double precision -/
def readSize (r : Ratio) (c : Nat) : Nat := toDouble (c * r.num) r.den

/-- the greatest power of two up to `10 ^ k` quarters of a unit -/
def magnitude (k : Int) : Nat := ((powerOfTen k).1 / (powerOfTen k).2).log2

/-- the power `10 ^ k`, brought between one and two -/
def trueRatio (k : Int) : Ratio := ⟨(powerOfTen k).1, (powerOfTen k).2 * Nat.pow 2 (magnitude k)⟩

/-- the ratio that stands for it in reading, brought down as far -/
def readRatio (k : Int) (r : Ratio) : Ratio := ⟨r.num, r.den * quarter * Nat.pow 2 (magnitude k)⟩

/-- the two are equal up to a part in 2⁵² -/
def Close (k : Int) (r : Ratio) : Prop :=
  (Nat.pow 2 52 - 1) * ((powerOfTen k).1 * (r.den * quarter)) ≤
      Nat.pow 2 52 * (r.num * (powerOfTen k).2) ∧
    Nat.pow 2 52 * (r.num * (powerOfTen k).2) ≤
      (Nat.pow 2 52 + 1) * ((powerOfTen k).1 * (r.den * quarter))

instance (k : Int) (r : Ratio) : Decidable (Close k r) := inferInstanceAs (Decidable (_ ∧ _))

/-- the ratio keeps the multiple `c` of `10 ^ k` on its side of `m` times `2 ^ j` quarters, by a
part in 2²⁹ -/
def KeepsSide (k : Int) (r : Ratio) (c m j : Nat) : Prop :=
  j ≤ magnitude k →
    Ratio.Keeps (Nat.pow 2 29) (trueRatio k) (readRatio k r) (c * Nat.pow 2 (magnitude k - j)) m

/-- the ratio keeps a decimal on its sides of the ends of the interval of the size `u`.  The upper
end is an odd multiple of its distance from the size. -/
def KeepsEnds (r : Ratio) (u : Nat) (d : Decimal) : Prop :=
  ∀ m j, m < Nat.pow 2 25 → m % 2 = 1 →
    (m * Nat.pow 2 j = lowerEnd u ∨ m * Nat.pow 2 j = 4 * u + Nat.pow 2 j) →
      KeepsSide d.exponent r d.digits m j

/-! ## Sizes in double precision -/

theorem exists_doubleOne : ∃ s, doubleOne = Nat.pow 2 s := ⟨1074, by decide +kernel⟩

theorem exists_quarter : ∃ s, quarter = Nat.pow 2 (s + 28) := ⟨895, by decide +kernel⟩

theorem quarter_pos : 0 < quarter := by
  obtain ⟨s, hs⟩ := exists_quarter
  rw [hs]
  exact Nat.two_pow_pos _

theorem doubleOne_eq : doubleOne = 4 * (quarter * Single.oneUnits) := by decide +kernel

theorem doubleOne_pos : 0 < doubleOne := by
  obtain ⟨s, hs⟩ := exists_doubleOne
  rw [hs]
  exact Nat.two_pow_pos s

/-! ## Margins -/

theorem pow_add_28 (e : Nat) : Nat.pow 2 (e + 28) = 268435456 * Nat.pow 2 e :=
  (Nat.pow_add 2 e 28).trans (Nat.mul_comm _ _)

theorem pow_53_add (e : Nat) : Nat.pow 2 (53 + e) = Nat.pow 2 25 * Nat.pow 2 (e + 28) := by
  rw [show 53 + e = 25 + (e + 28) by omega]
  exact Nat.pow_add 2 25 (e + 28)

section
variable {m num den e : Nat} (hd : 0 < den) (hm : m < Nat.pow 2 25)
include hd hm

/-- A quotient that exceeds a number of 25 digits by more than a part in 2²⁹ of the number's last
digit is not rounded down to it in double precision. -/
theorem lt_roundTo_of_margin
    (h : (Nat.pow 2 29 * m + 1) * (Nat.pow 2 (e + 28) * den) < Nat.pow 2 29 * num) :
    m * Nat.pow 2 (e + 28) < roundTo 53 num den := by
  refine lt_roundTo (g := e) (by decide) hd
    ⟨m, e + 28, hm.trans (by decide), rfl⟩ ?_ ?_
  · rw [pow_53_add]
    exact Nat.mul_lt_mul_of_pos_right hm (Nat.two_pow_pos _)
  · rw [pow_add_28 e] at h ⊢
    have h29 : Nat.pow 2 29 = 536870912 := rfl
    rw [h29] at h
    linarith

theorem roundTo_lt_of_margin
    (h : Nat.pow 2 29 * num + Nat.pow 2 (e + 28) * den <
      Nat.pow 2 29 * (m * (Nat.pow 2 (e + 28) * den))) :
    roundTo 53 num den < m * Nat.pow 2 (e + 28) := by
  refine roundTo_lt (g := e) (by decide) hd
    ⟨m, e + 28, hm.trans (by decide), rfl⟩ ?_ ?_
  · rw [pow_53_add]
    exact Nat.mul_le_mul_right _ hm.le
  · rw [pow_add_28 e] at h ⊢
    have h29 : Nat.pow 2 29 = 536870912 := rfl
    rw [h29] at h
    linarith

end

/-! ## Decimals and the ends of an interval -/

theorem exists_unit (j : Nat) : ∃ e, Nat.pow 2 j * quarter = Nat.pow 2 (e + 28) := by
  obtain ⟨s, hs⟩ := exists_quarter
  refine ⟨j + s, ?_⟩
  rw [hs]
  exact (Nat.pow_add 2 j (s + 28)).symm

/-- what the binary digit `2 ^ j` is worth in the products of significands with the ratio -/
def unitAt (r : Ratio) (j : Nat) : Nat := Nat.pow 2 j * quarter * r.den

/-- the product of `c` with the ratio lies above `m` of these digits, by more than a part in 2²⁹ of
one of them -/
def ReadsAbove (r : Ratio) (c m j : Nat) : Prop :=
  (Nat.pow 2 29 * m + 1) * unitAt r j < Nat.pow 2 29 * (c * r.num)

/-- the product lies below them by as much -/
def ReadsBelow (r : Ratio) (c m j : Nat) : Prop :=
  Nat.pow 2 29 * (c * r.num) + unitAt r j < Nat.pow 2 29 * (m * unitAt r j)

section
variable {c m j step den : Nat} {k : Int} {r : Ratio} (hk : powerOfTen k = (step, den))

theorem unitAt_pos (hr : 0 < r.den) (j : Nat) : 0 < unitAt r j := by
  obtain ⟨e, he⟩ := exists_unit j
  rw [unitAt, he]
  exact Nat.mul_pos (Nat.two_pow_pos _) hr

include hk in
theorem le_magnitude (h : Nat.pow 2 j * den ≤ step) : j ≤ magnitude k := by
  have hd := (powerOfTen_pos hk).2
  have hq : 2 ^ j ≤ step / den := (Nat.le_div_iff_mul_le hd).mpr h
  simp only [magnitude, hk]
  exact (Nat.le_log2 (Nat.pos_of_ne_zero (by have := Nat.two_pow_pos j; omega)).ne').mpr hq

/-! ### Coarse powers of ten -/

section
variable (hkeeps : KeepsSide k r c m j) (hcoarse : Nat.pow 2 j * den ≤ step)
include hk hkeeps hcoarse

theorem keeps_of_coarse :
    Ratio.Keeps (Nat.pow 2 29) ⟨step, Nat.pow 2 j * den⟩ ⟨r.num, unitAt r j⟩ c m := by
  have hj := le_magnitude hk hcoarse
  have hside := hkeeps hj
  obtain ⟨i, hi⟩ := Nat.exists_eq_add_of_le hj
  have hpow : Nat.pow 2 (j + i) = Nat.pow 2 j * Nat.pow 2 i := Nat.pow_add 2 j i
  have htrue : trueRatio k = ⟨step, Nat.pow 2 j * den * Nat.pow 2 i⟩ := by
    have hden : den * (Nat.pow 2 j * Nat.pow 2 i) = Nat.pow 2 j * den * Nat.pow 2 i := by ring
    simp only [trueRatio, hk, hi, hpow, hden]
  have hread : readRatio k r = ⟨r.num, unitAt r j * Nat.pow 2 i⟩ := by
    have hden : r.den * quarter * (Nat.pow 2 j * Nat.pow 2 i)
        = Nat.pow 2 j * quarter * r.den * Nat.pow 2 i := by ring
    simp only [readRatio, unitAt, hi, hpow, hden]
  rw [htrue, hread, hi, Nat.add_sub_cancel_left] at hside
  exact hside.of_scaled (Nat.two_pow_pos i)

theorem readsAbove_of_coarse (h : m * Nat.pow 2 j * den < c * step) : ReadsAbove r c m j := by
  have hlt : 0 < (c * step - m * (Nat.pow 2 j * den : Nat) : Int) := by
    rw [Nat.mul_assoc] at h
    exact Int.sub_pos.mpr (by exact_mod_cast h)
  have hside := (keeps_of_coarse hk hkeeps hcoarse).above hlt
  simp only [Ratio.excess] at hside
  unfold ReadsAbove
  generalize unitAt r j = unit at *
  generalize Nat.pow 2 29 = gap at *
  have hgoal : ((gap * m + 1) * unit : Int) < gap * (c * r.num) := by linarith
  exact_mod_cast hgoal

theorem readsBelow_of_coarse (h : c * step < m * Nat.pow 2 j * den) : ReadsBelow r c m j := by
  have hlt : (c * step - m * (Nat.pow 2 j * den : Nat) : Int) < 0 := by
    rw [Nat.mul_assoc] at h
    exact sub_neg.mpr (by exact_mod_cast h)
  have hside := (keeps_of_coarse hk hkeeps hcoarse).below hlt
  simp only [Ratio.excess] at hside
  unfold ReadsBelow
  generalize unitAt r j = unit at *
  generalize Nat.pow 2 29 = gap at *
  have hgoal : (gap * (c * r.num) + unit : Int) < gap * (m * unit) := by linarith
  exact_mod_cast hgoal

theorem eq_of_coarse (h : c * step = m * Nat.pow 2 j * den) : c * r.num = m * unitAt r j := by
  have heq : (c * step - m * (Nat.pow 2 j * den : Nat) : Int) = 0 := by
    rw [Nat.mul_assoc] at h
    exact Int.sub_eq_zero.mpr (by exact_mod_cast h)
  have hside := (keeps_of_coarse hk hkeeps hcoarse).equal heq
  exact_mod_cast Int.sub_eq_zero.mp hside

end

/-! ### Fine powers of ten -/

section
variable (hclose : Close k r) (hr : 0 < r.den) (hm : m < Nat.pow 2 25)
include hk hclose hr hm

theorem readsAbove_of_far (h : (2 * m + 1) * Nat.pow 2 j * den ≤ 2 * (c * step)) :
    ReadsAbove r c m j := by
  have hclose := hclose.1
  have hd := (powerOfTen_pos hk).2
  have hunit := unitAt_pos hr j
  simp only [hk] at hclose
  have hmul : (Nat.pow 2 52 - 1) * ((2 * m + 1) * unitAt r j) ≤
      Nat.pow 2 53 * (c * r.num) := by
    refine Nat.le_of_mul_le_mul_right (c := den) ?_ hd
    unfold unitAt
    generalize Nat.pow 2 j = t at *
    calc (Nat.pow 2 52 - 1) * ((2 * m + 1) * (t * quarter * r.den)) * den
        = (Nat.pow 2 52 - 1) * (r.den * quarter) * ((2 * m + 1) * t * den) := by ring
      _ ≤ (Nat.pow 2 52 - 1) * (r.den * quarter) * (2 * (c * step)) :=
        Nat.mul_le_mul_left _ h
      _ = 2 * c * ((Nat.pow 2 52 - 1) * (step * (r.den * quarter))) := by ring
      _ ≤ 2 * c * (Nat.pow 2 52 * (r.num * den)) := Nat.mul_le_mul_left _ hclose
      _ = Nat.pow 2 53 * (c * r.num) * den := by
        rw [show Nat.pow 2 53 = 2 * Nat.pow 2 52 from rfl]
        ring
  have hfew : m * unitAt r j ≤ Nat.pow 2 25 * unitAt r j := Nat.mul_le_mul_right _ hm.le
  unfold ReadsAbove
  generalize unitAt r j = unit at *
  have h52 : Nat.pow 2 52 - 1 = 4503599627370495 := rfl
  have h53 : Nat.pow 2 53 = 9007199254740992 := rfl
  have h25 : Nat.pow 2 25 = 33554432 := rfl
  have h29 : Nat.pow 2 29 = 536870912 := rfl
  rw [h52, h53] at hmul
  rw [h25] at hfew
  rw [h29]
  linarith

theorem readsBelow_of_far (h : 2 * (c * step) + Nat.pow 2 j * den ≤ 2 * m * Nat.pow 2 j * den) :
    ReadsBelow r c m j := by
  have hclose := hclose.2
  have hd := (powerOfTen_pos hk).2
  have hunit := unitAt_pos hr j
  simp only [hk] at hclose
  have hmul : Nat.pow 2 53 * (c * r.num) +
      (Nat.pow 2 52 + 1) * unitAt r j ≤ (Nat.pow 2 52 + 1) * (2 * m * unitAt r j) := by
    refine Nat.le_of_mul_le_mul_right (c := den) ?_ hd
    unfold unitAt
    have hscaled := Nat.mul_le_mul_left ((Nat.pow 2 52 + 1) * (r.den * quarter)) h
    have hclose' := Nat.mul_le_mul_left (2 * c) hclose
    rw [show Nat.pow 2 53 = 2 * Nat.pow 2 52 from rfl]
    linarith
  have hfew : m * unitAt r j ≤ Nat.pow 2 25 * unitAt r j := Nat.mul_le_mul_right _ hm.le
  unfold ReadsBelow
  generalize unitAt r j = unit at *
  have h52 : Nat.pow 2 52 + 1 = 4503599627370497 := rfl
  have h53 : Nat.pow 2 53 = 9007199254740992 := rfl
  have h25 : Nat.pow 2 25 = 33554432 := rfl
  have h29 : Nat.pow 2 29 = 536870912 := rfl
  rw [h52, h53] at hmul
  rw [h25] at hfew
  rw [h29]
  linarith

end

/-! ### Both together -/

section
variable (hclose : Close k r) (hr : 0 < r.den) (hm : m < Nat.pow 2 25)
variable (hkeeps : KeepsSide k r c m j)
include hk hr hm hkeeps

theorem readSize_of_coarse (hcoarse : Nat.pow 2 j * den ≤ step)
    (h : c * step = m * Nat.pow 2 j * den) : readSize r c = m * Nat.pow 2 j * quarter := by
  obtain ⟨e, he⟩ := exists_unit j
  have heq := eq_of_coarse hk hkeeps hcoarse h
  have hsig : Significant 53 (m * (Nat.pow 2 j * quarter)) :=
    ⟨m, e + 28, hm.trans (by decide), by rw [he]⟩
  rw [unitAt, ← Nat.mul_assoc] at heq
  unfold readSize toDouble
  rw [heq, roundTo_mul hsig hr, ← Nat.mul_assoc]

include hclose

/-- a decimal above the lower end of an interval is read as a size above it -/
theorem le_readSize (hin : m * Nat.pow 2 j * den ≤ c * step)
    (hway : Nat.pow 2 j * den ≤ step ∨ (2 * m + 1) * Nat.pow 2 j * den ≤ 2 * (c * step)) :
    m * Nat.pow 2 j * quarter ≤ readSize r c ∧
      (m * Nat.pow 2 j * den < c * step → m * Nat.pow 2 j * quarter < readSize r c) := by
  obtain ⟨e, he⟩ := exists_unit j
  have habove : m * Nat.pow 2 j * den < c * step → m * Nat.pow 2 j * quarter < readSize r c := by
    intro h
    have hmargin : ReadsAbove r c m j :=
      hway.elim (fun hcoarse => readsAbove_of_coarse hk hkeeps hcoarse h)
        (readsAbove_of_far hk hclose hr hm)
    rw [ReadsAbove, unitAt, he] at hmargin
    rw [Nat.mul_assoc, he]
    exact lt_roundTo_of_margin hr hm hmargin
  refine ⟨?_, habove⟩
  rcases hin.lt_or_eq with hlt | heq
  · exact (habove hlt).le
  · have hpos : 0 < Nat.pow 2 j * den := Nat.mul_pos (Nat.two_pow_pos j) (powerOfTen_pos hk).2
    have hcoarse := hway.resolve_right (by linarith)
    exact (readSize_of_coarse hk hr hm hkeeps hcoarse heq.symm).ge

/-- a decimal below the upper end is read as a size below it -/
theorem readSize_le (hin : c * step ≤ m * Nat.pow 2 j * den)
    (hway : Nat.pow 2 j * den ≤ step ∨
      2 * (c * step) + Nat.pow 2 j * den ≤ 2 * m * Nat.pow 2 j * den) :
    readSize r c ≤ m * Nat.pow 2 j * quarter ∧
      (c * step < m * Nat.pow 2 j * den → readSize r c < m * Nat.pow 2 j * quarter) := by
  obtain ⟨e, he⟩ := exists_unit j
  have hbelow : c * step < m * Nat.pow 2 j * den → readSize r c < m * Nat.pow 2 j * quarter := by
    intro h
    have hmargin : ReadsBelow r c m j :=
      hway.elim (fun hcoarse => readsBelow_of_coarse hk hkeeps hcoarse h)
        (readsBelow_of_far hk hclose hr hm)
    rw [ReadsBelow, unitAt, he] at hmargin
    rw [Nat.mul_assoc, he]
    exact roundTo_lt_of_margin hr hm hmargin
  refine ⟨?_, hbelow⟩
  rcases hin.lt_or_eq with hlt | heq
  · exact (hbelow hlt).le
  · have hpos : 0 < Nat.pow 2 j * den := Nat.mul_pos (Nat.two_pow_pos j) (powerOfTen_pos hk).2
    have hcoarse := hway.resolve_right (by linarith)
    exact (readSize_of_coarse hk hr hm hkeeps hcoarse heq).le

end

end

/-! ## The interval is kept -/

section
variable {u : Nat} {d : Decimal} {r : Ratio}

/-- **A shortest decimal is read as a size in the interval**, if the ratio keeps it on its sides of
the ends. -/
theorem readsBack_readSize (hu : Significant 24 u) (hpos : 0 < u) (h : IsShortest u d)
    (hr : 0 < r.den) (hclose : Close d.exponent r) (hkeeps : KeepsEnds r u d) :
    readsBack u (readSize r d.digits) quarter = true := by
  rcases hk : powerOfTen d.exponent with ⟨step, den⟩
  obtain ⟨⟨hlow, hhigh⟩, hodd⟩ := readsBack_iff.mp (h.readsBack hu hpos hk)
  have hlower : lowerEnd u * quarter ≤ readSize r d.digits ∧
      (lowerEnd u * den < d.digits * step → lowerEnd u * quarter < readSize r d.digits) := by
    obtain ⟨m, j, hm, hend, hfour⟩ := lowerEnd_eq hu hpos
    have hside := hkeeps m j hm.1 hm.2 (.inl hend.symm)
    rw [hend] at hlow ⊢
    refine le_readSize hk hclose hr hm.1 hside hlow ?_
    rcases Nat.lt_or_ge step (Nat.pow 2 j * den) with hfine | hcoarse
    · refine .inr ?_
      have hfar := h.ge hu hpos hk (by rw [← hfour]; linarith)
      rw [← hfour, hend] at hfar
      linarith
    · exact .inl hcoarse
  have hupper : readSize r d.digits ≤ upperEnd u * quarter ∧
      (d.digits * step < upperEnd u * den → readSize r d.digits < upperEnd u * quarter) := by
    obtain ⟨m, j, hm, hend, hfour⟩ := upperEnd_eq hu
    have hside := hkeeps m j hm.1 hm.2 (.inr (hend.symm.trans hfour.symm))
    have hfar := h.le hu hpos hk
    rw [← hfour] at hfar
    rw [hend] at hfour hhigh ⊢
    refine readSize_le hk hclose hr hm.1 hside hhigh ?_
    rcases Nat.lt_or_ge step (Nat.pow 2 j * den) with hfine | hcoarse
    · refine .inr ?_
      have hfar' := hfar (by linarith)
      have hmul : (4 * u + Nat.pow 2 j) * den = m * Nat.pow 2 j * den := by rw [hfour]
      linarith
    · exact .inl hcoarse
  exact readsBack_iff.mpr ⟨⟨hlower.1, hupper.1⟩,
    fun h1 => ⟨hlower.2 (hodd h1).1, hupper.2 (hodd h1).2⟩⟩

theorem readsBack_mul {num den t : Nat} (ht : 0 < t) :
    readsBack u (num * t) (den * t) = readsBack u num den := by
  rw [Bool.eq_iff_iff, readsBack_iff, readsBack_iff]
  simp only [← Nat.mul_assoc, Nat.mul_le_mul_right_iff ht, Nat.mul_lt_mul_right ht]

/-- a size in the interval of a number is read as that number -/
theorem toSingle_of_readsBack {y : Nat} (fits : Significant 24 u ∧ u < Single.limitUnits)
    (h : readsBack u y quarter = true) :
    (Number.real false y).toSingle = .finite false u fits := by
  have hone : 0 < Single.oneUnits := Single.oneUnits_pos
  have hround : roundTo 24 (y * Single.oneUnits) doubleOne = u := by
    rw [doubleOne_eq]
    exact roundTo_of_readsBack fits.1 (Nat.mul_pos quarter_pos hone) ((readsBack_mul hone).trans h)
  simp only [Number.toSingle, Single.ofUnits, hround, fits.2, dite_true]

theorem lt_doubleLimit_of_readsBack {y : Nat} (hu : Significant 24 u) (hpos : 0 < u)
    (hlimit : u < Single.limitUnits) (h : readsBack u y quarter = true) : y < doubleLimit := by
  have hin := (readsBack_iff.mp h).1.2
  have hs := spacing_le hu hpos
  have hend : upperEnd u ≤ 6 * Single.limitUnits := by
    unfold upperEnd
    omega
  refine (hin.trans (Nat.mul_le_mul_right quarter hend)).trans_lt ?_
  decide +kernel

end

end LineEditor.Json
