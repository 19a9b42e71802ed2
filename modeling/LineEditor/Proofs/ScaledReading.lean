import LineEditor.Proofs.DoubleReading

/-!
# Reading by a scaled significand

The standard library multiplies the significand with a power of ten, or divides it by one, and
rounds the power, the product and the result.  For each power of ten, two neighbouring fractions
show that no multiple of it comes so close to a whole number of 25 binary digits that these steps
could lead past it.  So what is written is in range when it is read, and it is read as the number
(`scale?_of_endsAt`, `scale?_of_endsAt_whole`).
-/

open LineEditor.Number

namespace LineEditor.Json

/-! ## The powers of ten -/

/-- what a significand is multiplied with when a number with the exponent `k` is read, in units of
double precision -/
def readPower : Int → Ratio
  | .ofNat k => ⟨doubleOne * doublePower k, doubleOne⟩
  | .negSucc k => ⟨doubleOne * doubleOne, doublePower (k + 1)⟩

theorem doublePower_pos (k : Nat) : 0 < doublePower k := by
  obtain ⟨s, hs⟩ := exists_doubleOne
  have hone : Significant 53 doubleOne := ⟨1, s, by decide, by rw [hs, Nat.one_mul]⟩
  have hpos := doubleOne_pos
  unfold doublePower toDouble
  generalize doubleOne = one at *
  refine hpos.trans_le (le_roundTo (by decide) Nat.one_pos hone ?_)
  rw [Nat.mul_one]
  exact Nat.le_mul_of_pos_left _ (Nat.pow_pos (by decide))

theorem readPower_den_pos (k : Int) : 0 < (readPower k).den := by
  cases k with
  | ofNat k => simp only [readPower, doubleOne_pos]
  | negSucc k => exact doublePower_pos (k + 1)

theorem close_readPower : ∀ k ∈ exponents, Close k (readPower k) := by decide +kernel

/-- for each power of ten, either nothing is rounded and the ratio is a simple one, or there are
neighbours around it -/
theorem simple_or_between_readPower : ∀ k ∈ exponents,
    Ratio.Simple (Nat.pow 2 29) (trueRatio k) (readRatio k (readPower k)) ∨
      Ratio.Between (Nat.pow 2 25) (Nat.pow 2 29) (trueRatio k) (readRatio k (readPower k))
        (Ratio.neighbours (Nat.pow 2 25) (readRatio k (readPower k))) := by
  decide +kernel

theorem keeps_readPower {k : Int} (hk : k ∈ exponents) (n : Nat) {m : Nat} (hm : m < Nat.pow 2 25) :
    Ratio.Keeps (Nat.pow 2 29) (trueRatio k) (readRatio k (readPower k)) n m := by
  obtain h | h := simple_or_between_readPower k hk
  · exact h.keeps n m
  · exact h.keeps n hm

/-! ## The steps -/

theorem toDouble_natural {n : Nat} (hn : n < Nat.pow 2 53) :
    toDouble (n * doubleOne) 1 = n * doubleOne := by
  obtain ⟨s, hs⟩ := exists_doubleOne
  have h := roundTo_mul (p := 53) (n := n * doubleOne) ⟨n, s, hn, by rw [hs]⟩ Nat.one_pos
  rwa [Nat.mul_one] at h

/-- the first powers of ten are not rounded -/
theorem doublePower_eq {k : Nat} (hk : Nat.pow 10 k < Nat.pow 2 53) :
    doublePower k = Nat.pow 10 k * doubleOne := toDouble_natural hk

theorem scaleUp?_eq {v k : Nat} (hv : v ≠ 0) (hk : k ≤ 308)
    (hfits : toDouble (v * doublePower k) doubleOne < doubleLimit) :
    scaleUp? v k = some (toDouble (v * doublePower k) doubleOne) := by
  unfold scaleUp?
  rw [if_neg hv, if_neg (by omega)]
  exact if_pos hfits

theorem scaleDown_eq {v k : Nat} (hv : v ≠ 0) (hk : k ≤ 308) :
    scaleDown v k = toDouble (v * doubleOne) (doublePower k) := by
  unfold scaleDown
  rw [if_neg hv, if_pos hk]

theorem scale?_eq {c : Nat} {k : Int} (h0 : 0 < c) (hc : c < Nat.pow 2 53) (hk : k ∈ exponents)
    (hfits : readSize (readPower k) c < doubleLimit) :
    scale? c k = some (readSize (readPower k) c) := by
  have hrange := mem_exponents.mp hk
  have hpos : c * doubleOne ≠ 0 := (Nat.mul_pos h0 doubleOne_pos).ne'
  cases k with
  | ofNat k =>
    have hk' : k ≤ 308 := by
      have : ((k : Nat) : Int) ≤ 38 := hrange.2
      omega
    simp only [readSize, readPower, ← Nat.mul_assoc] at hfits ⊢
    simp only [scale?, toDouble_natural hc]
    exact scaleUp?_eq hpos hk' hfits
  | negSucc k =>
    have hk' : k + 1 ≤ 308 := by omega
    simp only [readSize, readPower, ← Nat.mul_assoc]
    simp only [scale?, toDouble_natural hc]
    rw [scaleDown_eq hpos hk']

/-! ## What is read -/

section
variable {tie : Tie} {u c : Nat} {k : Int}

/-- a decimal that the search ends with is in range when it is read, and it is read as the number -/
theorem scale?_of_endsAt (fits : Significant 24 u ∧ u < Single.limitUnits) (hpos : 0 < u)
    (h : EndsAt tie u c k) :
    ∃ y, scale? c k = some y ∧ (Number.real false y).toSingle = .finite false u fits := by
  have hkeeps : KeepsEnds (readPower k) u ⟨c, k⟩ := by
    intro m j hm _ _ _
    exact keeps_readPower h.mem _ hm
  have hback : readsBack u (readSize (readPower k) c) quarter = true :=
    readsBack_readSize (d := ⟨c, k⟩) fits.1 hpos (h.isShortest fits.1 hpos fits.2)
      (readPower_den_pos k) (close_readPower k h.mem) hkeeps
  have hc := (h.lt fits.1 hpos fits.2).trans (by decide : Nat.pow 2 28 < Nat.pow 2 53)
  have hfits := lt_doubleLimit_of_readsBack fits.1 hpos fits.2 hback
  exact ⟨readSize (readPower k) c, scale?_eq (h.pos fits.1 hpos) hc h.mem hfits,
    toSingle_of_readsBack fits hback⟩

/-- a significand that ends in a zero is divided by ten without rounding -/
theorem scale?_tenth {n : Nat} (hn : 0 < n) (hfew : 10 * n < Nat.pow 2 53) :
    scale? (10 * n) (-1) = some (n * doubleOne) := by
  have hten : doublePower 1 = 10 * doubleOne := by rw [doublePower_eq (by decide)]
  have hsig : Significant 53 (n * doubleOne) := by
    obtain ⟨s, hs⟩ := exists_doubleOne
    exact ⟨n, s, by omega, by rw [hs]⟩
  have hpos : 10 * n * doubleOne ≠ 0 := Nat.mul_ne_zero (by omega) doubleOne_pos.ne'
  have hsplit : 10 * n * doubleOne * doubleOne = n * doubleOne * (10 * doubleOne) := by ring
  have hdown : scaleDown (10 * n * doubleOne) 1 = n * doubleOne := by
    rw [scaleDown_eq hpos (by decide), hten, hsplit]
    exact roundTo_mul hsig (Nat.mul_pos (by decide) doubleOne_pos)
  show some (scaleDown (toDouble (10 * n * doubleOne) 1) 1) = _
  rw [toDouble_natural hfew, hdown]

/-- a whole number with a zero behind its point is read as the number, too -/
theorem scale?_of_endsAt_whole {e : Nat} (fits : Significant 24 u ∧ u < Single.limitUnits)
    (hpos : 0 < u) (h : EndsAt tie u c (.ofNat e))
    (hfew : 10 * (c * Nat.pow 10 e) < Nat.pow 2 53) :
    ∃ y, scale? (10 * (c * Nat.pow 10 e)) (-1) = some y ∧
      (Number.real false y).toSingle = .finite false u fits := by
  have hpow : 0 < Nat.pow 10 e := Nat.pow_pos (by decide)
  have hquarters : doubleOne = Nat.pow 2 151 * quarter := by
    have hone : 4 * Single.oneUnits = Nat.pow 2 151 := by decide
    rw [doubleOne_eq, ← hone]
    ring
  refine ⟨_, scale?_tenth (Nat.mul_pos (h.pos fits.1 hpos) hpow) hfew,
    toSingle_of_readsBack fits ?_⟩
  have hin : readsBack u (c * (Nat.pow 10 e * Nat.pow 2 151)) 1 = true :=
    readsBack_of_multiple? rfl h.multiple
  have hunits : c * Nat.pow 10 e * doubleOne = c * (Nat.pow 10 e * Nat.pow 2 151) * quarter := by
    rw [hquarters]
    ring
  have hscaled := (readsBack_mul quarter_pos).trans hin
  rwa [Nat.one_mul, ← hunits] at hscaled

end

end LineEditor.Json
