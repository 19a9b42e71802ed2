import LineEditor.Number.Shortest
import LineEditor.Proofs.Exactness
import Mathlib.Data.Nat.Prime.Basic
import Mathlib.Tactic.Linarith
import Mathlib.Tactic.Ring

/-!
# Laws of rounding

Rounding to a number of significant binary digits keeps the order of a quotient and of a number that
needs no rounding, and it moves a quotient by half a unit at most.  So a quotient that is further
than that away from such a number stays on its side of it.  And what lies in the interval of a size
rounds to that size, which is what the ends of the interval are made for.

* `roundTo_mono`                 the order of quotients is kept;
* `le_roundTo`, `roundTo_le`     that of a quotient and a number, too;
* `lt_roundTo`, `roundTo_lt`     strictly, where half a unit lies between;
* `roundTo_le_of_lt_half`, `le_roundTo_of_half`   up to half a unit a quotient is moved to a number;
* `roundTo_of_readsBack`         the interval of a size.
-/

namespace LineEditor.Number

section
variable {p num den k n m g w : Nat}

/-! ## Whole quotients -/

theorem le_roundDiv_of_mul_le (hd : 0 < den) (h : k * den ≤ num) : k ≤ roundDiv num den :=
  ((Nat.le_div_iff_mul_le hd).mpr h).trans (le_roundDiv num den)

/-- half a unit above a whole number is not rounded up, if the number is even -/
theorem roundDiv_le_of_half (hd : 0 < den) (h : 2 * num ≤ (2 * k + 1) * den)
    (hodd : k % 2 = 1 → 2 * num < (2 * k + 1) * den) : roundDiv num den ≤ k := by
  have hsplit : den * (num / den) + num % den = num := Nat.div_add_mod num den
  have hle : roundDiv num den ≤ num / den + 1 := roundDiv_le num den
  rcases Nat.lt_trichotomy k (num / den) with hk | hk | hk
  · have hmul : (k + 1) * den ≤ num := (Nat.le_div_iff_mul_le hd).mp hk
    linarith
  · have hexp : (2 * k + 1) * den = 2 * (den * (num / den)) + den := by
      rw [hk]
      ring
    rw [hexp] at h hodd
    unfold roundDiv
    split
    · omega
    · exact hk.ge
  · omega

/-- half a unit below a whole number is not rounded down, if the number is even -/
theorem le_roundDiv_of_half (hd : 0 < den) (h : 2 * k * den ≤ 2 * num + den)
    (hodd : k % 2 = 1 → 2 * k * den < 2 * num + den) : k ≤ roundDiv num den := by
  have hsplit : den * (num / den) + num % den = num := Nat.div_add_mod num den
  have hlt : num % den < den := Nat.mod_lt num hd
  have hle : num / den ≤ roundDiv num den := le_roundDiv num den
  rcases Nat.lt_trichotomy k (num / den + 1) with hk | hk | hk
  · omega
  · have hexp : 2 * k * den = 2 * (den * (num / den)) + 2 * den := by
      rw [hk]
      ring
    rw [hexp] at h hodd
    unfold roundDiv
    split
    · exact hk.le
    · omega
  · obtain ⟨j, hj⟩ := Nat.exists_eq_add_of_lt hk
    have hnonneg : 0 ≤ j * den := Nat.zero_le _
    rw [hj] at h
    linarith

theorem roundDiv_mono (h : m ≤ n) : roundDiv m den ≤ roundDiv n den := by
  have hm : den * (m / den) + m % den = m := Nat.div_add_mod m den
  have hn : den * (n / den) + n % den = n := Nat.div_add_mod n den
  have hdiv : m / den ≤ n / den := Nat.div_le_div_right h
  rcases hdiv.lt_or_eq with hlt | heq
  · calc roundDiv m den ≤ m / den + 1 := roundDiv_le m den
      _ ≤ n / den := hlt
      _ ≤ roundDiv n den := le_roundDiv n den
  · -- over the same whole part the greater remainder is rounded up as soon as the smaller one is
    rw [← heq] at hn
    unfold roundDiv
    rw [← heq]
    split
    · split
      · exact le_rfl
      · omega
    · split
      · exact Nat.le_succ _
      · exact le_rfl

theorem roundDiv_le_of_le_mul (hd : 0 < den) (h : num ≤ k * den) : roundDiv num den ≤ k :=
  roundDiv_le_of_half hd (by linarith) fun _ => by linarith

/-- a quotient moves down by half a unit at most -/
theorem le_roundDiv_add_half (hd : 0 < den) : 2 * num ≤ (2 * roundDiv num den + 1) * den := by
  by_contra! h
  have hup : roundDiv num den + 1 ≤ roundDiv num den :=
    le_roundDiv_of_half hd (by linarith) fun _ => by linarith
  omega

/-- a quotient moves up by half a unit at most -/
theorem roundDiv_sub_half_le (hd : 0 < den) : 2 * roundDiv num den * den ≤ 2 * num + den := by
  by_contra! h
  obtain ⟨r, hr⟩ : ∃ r, roundDiv num den = r + 1 :=
    Nat.exists_eq_add_one_of_ne_zero fun h0 => by simp [h0] at h
  have hdown : roundDiv num den ≤ r := by
    rw [hr] at h
    exact roundDiv_le_of_half hd (by linarith) fun _ => by linarith
  omega

/-! ## Surplus digits -/

theorem surplus_mono (h : m ≤ n) : surplus p m ≤ surplus p n := by
  unfold surplus
  rcases Nat.eq_zero_or_pos m with rfl | hm
  · rw [Nat.log2_zero]
    omega
  · have hlog : m.log2 ≤ n.log2 :=
      (Nat.le_log2 (by omega)).mpr ((Nat.log2_self_le hm.ne').trans h)
    omega

/-- a number with surplus digits has `p` others before them -/
theorem pow_le_of_surplus (hp : 0 < p) (h : 0 < surplus p n) :
    Nat.pow 2 (p - 1 + surplus p n) ≤ n := by
  unfold surplus at h ⊢
  have hn : n ≠ 0 := by
    rintro rfl
    rw [Nat.log2_zero] at h
    omega
  have hlog : p - 1 + (n.log2 + 1 - p) = n.log2 := by omega
  rw [hlog]
  exact Nat.log2_self_le hn

theorem surplus_le_of_lt (hp : 0 < p) (h : n < Nat.pow 2 (p + k)) : surplus p n ≤ k := by
  unfold surplus
  rcases Nat.eq_zero_or_pos n with rfl | hn
  · rw [Nat.log2_zero]
    omega
  · have hlog : n.log2 < p + k := (Nat.log2_lt hn.ne').mpr h
    omega

/-- a whole number of `p` digits, the next power of two included, moved to the left -/
theorem significant_mul_pow (hp : 0 < p) (hk : k ≤ Nat.pow 2 p) (g : Nat) :
    Significant p (k * Nat.pow 2 g) := by
  rcases hk.lt_or_eq with hlt | heq
  · exact ⟨k, g, hlt, rfl⟩
  · refine ⟨1, p + g, Nat.one_lt_two_pow hp.ne', ?_⟩
    rw [heq, Nat.one_mul]
    exact (Nat.pow_add 2 p g).symm

/-- an odd factor of more than `p` digits divides no number that `p` digits can write, wherever its
digits stand; so a quotient of such numbers is never half-way between two of them -/
theorem Significant.mul_pow_ne (h : Significant p n) (hodd : k % 2 = 1) (hk : Nat.pow 2 p < k)
    (hm : 0 < m) (g : Nat) : n * Nat.pow 2 g ≠ k * m := by
  obtain ⟨l, s, hl, rfl⟩ := h
  intro heq
  have hcop : Nat.Coprime k (Nat.pow 2 (s + g)) :=
    Nat.Coprime.pow_right _ (Nat.coprime_two_right.mpr (Nat.odd_iff.mpr hodd))
  have heq' : l * Nat.pow 2 (s + g) = k * m := by
    rw [← heq, Nat.mul_assoc]
    exact congrArg (l * ·) (Nat.pow_add 2 s g)
  have hdvd : k ∣ l := hcop.dvd_of_dvd_mul_right ⟨m, heq'⟩
  rcases Nat.eq_zero_or_pos l with rfl | hpos
  · rw [Nat.zero_mul] at heq'
    exact absurd heq'.symm (Nat.mul_pos (by omega) hm).ne'
  · exact absurd (Nat.le_of_dvd hpos hdvd) (by omega)

/-! ## The unit of a rounded quotient -/

/-- the distance of the numbers among which a quotient is rounded -/
def unitOf (p num den : Nat) : Nat := Nat.pow 2 (surplus p (num / den))

theorem unitOf_pos : 0 < unitOf p num den := Nat.two_pow_pos _

theorem roundTo_eq :
    roundTo p num den = roundDiv num (den * unitOf p num den) * unitOf p num den := rfl

/-- a quotient rounded to more than whole numbers has `p` digits in units -/
theorem pow_mul_unitOf_le (hp : 0 < p) (h : 1 < unitOf p num den) :
    Nat.pow 2 (p - 1) * unitOf p num den ≤ num / den := by
  have hs : 0 < surplus p (num / den) := by
    by_contra! h0
    rw [unitOf, Nat.le_zero.mp h0] at h
    exact absurd h (by decide)
  exact (Nat.pow_add 2 (p - 1) _).symm.le.trans (pow_le_of_surplus hp hs)

theorem unitOf_eq (hp : 0 < p) (hd : 0 < den)
    (hlow : Nat.pow 2 (p - 1) * Nat.pow 2 g * den ≤ num)
    (hhigh : num < Nat.pow 2 p * Nat.pow 2 g * den) : unitOf p num den = Nat.pow 2 g := by
  have hle : Nat.pow 2 (p - 1 + g) ≤ num / den :=
    (Nat.pow_add 2 (p - 1) g).le.trans ((Nat.le_div_iff_mul_le hd).mpr hlow)
  have hlt : num / den < Nat.pow 2 (p + g) :=
    ((Nat.div_lt_iff_lt_mul hd).mpr hhigh).trans_eq (Nat.pow_add 2 p g).symm
  have hlog : p - 1 + g ≤ (num / den).log2 :=
    (Nat.le_log2 ((Nat.two_pow_pos _).trans_le hle).ne').mpr hle
  have hmin : g ≤ surplus p (num / den) := by
    unfold surplus
    omega
  rw [unitOf, (surplus_le_of_lt hp hlt).antisymm hmin]

theorem le_roundTo_of_dvd (hd : 0 < den) (hw : unitOf p num den ∣ w) (h : w * den ≤ num) :
    w ≤ roundTo p num den := by
  obtain ⟨k, rfl⟩ := hw
  have hup : k ≤ roundDiv num (den * unitOf p num den) :=
    le_roundDiv_of_mul_le (Nat.mul_pos hd unitOf_pos) (by linarith)
  rw [roundTo_eq, Nat.mul_comm]
  exact Nat.mul_le_mul_right _ hup

theorem roundTo_le_of_dvd (hd : 0 < den) (hw : unitOf p num den ∣ w) (h : num ≤ w * den) :
    roundTo p num den ≤ w := by
  obtain ⟨k, rfl⟩ := hw
  have hdown : roundDiv num (den * unitOf p num den) ≤ k :=
    roundDiv_le_of_le_mul (Nat.mul_pos hd unitOf_pos) (by linarith)
  rw [roundTo_eq, Nat.mul_comm (unitOf p num den)]
  exact Nat.mul_le_mul_right _ hdown

theorem le_roundTo_add_half (hd : 0 < den) :
    2 * num ≤ (2 * roundTo p num den + unitOf p num den) * den := by
  have h : 2 * num ≤ (2 * roundDiv num (den * unitOf p num den) + 1) * (den * unitOf p num den) :=
    le_roundDiv_add_half (Nat.mul_pos hd unitOf_pos)
  rw [roundTo_eq]
  linarith

theorem roundTo_sub_half_le (hd : 0 < den) :
    2 * roundTo p num den * den ≤ 2 * num + unitOf p num den * den := by
  have h : 2 * roundDiv num (den * unitOf p num den) * (den * unitOf p num den) ≤
      2 * num + den * unitOf p num den :=
    roundDiv_sub_half_le (Nat.mul_pos hd unitOf_pos)
  rw [roundTo_eq]
  linarith

/-! ## The order is kept -/

theorem roundTo_le (hd : 0 < den) (hw : Significant p w) (h : num ≤ w * den) :
    roundTo p num den ≤ w := by
  have hq : num / den ≤ w := by
    rw [← Nat.mul_div_cancel w hd]
    exact Nat.div_le_div_right h
  exact roundTo_le_of_dvd hd ((Nat.pow_dvd_pow 2 (surplus_mono hq)).trans hw.dvd) h

/-- a quotient rounded to more than whole numbers stays above the power of two below it -/
theorem pow_mul_unitOf_le_roundTo (hp : 0 < p) (hd : 0 < den) (h : 1 < unitOf p num den) :
    Nat.pow 2 (p - 1) * unitOf p num den ≤ roundTo p num den :=
  le_roundTo_of_dvd hd (Nat.dvd_mul_left _ _)
    ((Nat.le_div_iff_mul_le hd).mp (pow_mul_unitOf_le hp h))

theorem le_roundTo (hp : 0 < p) (hd : 0 < den) (hw : Significant p w) (h : w * den ≤ num) :
    w ≤ roundTo p num den := by
  have hq : w ≤ num / den := (Nat.le_div_iff_mul_le hd).mpr h
  rcases (surplus_mono (p := p) hq).lt_or_eq with hs | hs
  · -- the power of two that starts the numbers with the quotient's surplus lies between
    have hunit : 1 < unitOf p num den := Nat.one_lt_two_pow (by omega)
    calc w ≤ Nat.pow 2 (p + surplus p w) := (lt_pow_surplus p w).le
      _ ≤ Nat.pow 2 (p - 1 + surplus p (num / den)) :=
        Nat.pow_le_pow_right (by decide) (by omega)
      _ = Nat.pow 2 (p - 1) * unitOf p num den := Nat.pow_add 2 _ _
      _ ≤ roundTo p num den := pow_mul_unitOf_le_roundTo hp hd hunit
  · exact le_roundTo_of_dvd hd (by rw [unitOf, ← hs]; exact hw.dvd) h

/-- a unit of more than `2 ^ g` belongs to a quotient beyond `2 ^ (p + g)` -/
theorem pow_le_pow_mul_unitOf (hp : 0 < p) (h : Nat.pow 2 g < unitOf p num den) :
    Nat.pow 2 (p + g) ≤ Nat.pow 2 (p - 1) * unitOf p num den := by
  have hg : g < surplus p (num / den) := (Nat.pow_lt_pow_iff_right (by decide)).mp h
  calc Nat.pow 2 (p + g) ≤ Nat.pow 2 (p - 1 + surplus p (num / den)) :=
        Nat.pow_le_pow_right (by decide) (by omega)
    _ = Nat.pow 2 (p - 1) * unitOf p num den := Nat.pow_add 2 _ _

theorem roundTo_mono (hp : 0 < p) (hd : 0 < den) (h : m ≤ n) :
    roundTo p m den ≤ roundTo p n den := by
  have hq : m / den ≤ n / den := Nat.div_le_div_right h
  rcases (surplus_mono (p := p) hq).lt_or_eq with hs | hs
  · -- the power of two that starts the numbers with the greater surplus lies between
    have hunit : 1 < unitOf p n den := Nat.one_lt_two_pow (by omega)
    have hnum : m ≤ 1 * Nat.pow 2 (p + surplus p (m / den)) * den := by
      have hlt : m / den < Nat.pow 2 (p + surplus p (m / den)) := lt_pow_surplus p _
      rw [Nat.one_mul]
      exact ((Nat.div_lt_iff_lt_mul hd).mp hlt).le
    calc roundTo p m den ≤ 1 * Nat.pow 2 (p + surplus p (m / den)) :=
          roundTo_le hd (significant_mul_pow hp (Nat.one_le_two_pow) _) hnum
      _ ≤ Nat.pow 2 (p - 1 + surplus p (n / den)) := by
        rw [Nat.one_mul]
        exact Nat.pow_le_pow_right (by decide) (by omega)
      _ = Nat.pow 2 (p - 1) * unitOf p n den := Nat.pow_add 2 _ _
      _ ≤ roundTo p n den := pow_mul_unitOf_le_roundTo hp hd hunit
  · have hunit : unitOf p m den = unitOf p n den := by rw [unitOf, hs, unitOf]
    rw [roundTo_eq, roundTo_eq, hunit]
    exact Nat.mul_le_mul_right _ (roundDiv_mono h)

/-- less than half a unit above a number of `p` digits, a quotient is not rounded beyond it -/
theorem roundTo_le_of_lt_half (hp : 0 < p) (hd : 0 < den) (hlow : Nat.pow 2 (p - 1) ≤ k)
    (hk : k < Nat.pow 2 p) (h : 2 * num < (2 * k + 1) * (den * Nat.pow 2 g)) :
    roundTo p num den ≤ k * Nat.pow 2 g := by
  rcases Nat.le_total num (k * Nat.pow 2 g * den) with hle | hge
  · exact roundTo_le hd ⟨k, g, hk, rfl⟩ hle
  · -- between the number and the next one, the unit is that of the number
    have hunit : unitOf p num den = Nat.pow 2 g := by
      refine unitOf_eq hp hd ?_ ?_
      · exact (Nat.mul_le_mul_right _ (Nat.mul_le_mul_right _ hlow)).trans hge
      · have hnext : (k + 1) * Nat.pow 2 g * den ≤ Nat.pow 2 p * Nat.pow 2 g * den :=
          Nat.mul_le_mul_right _ (Nat.mul_le_mul_right _ hk)
        have hnonneg : 0 ≤ den * Nat.pow 2 g := Nat.zero_le _
        linarith
    have hdown : roundDiv num (den * Nat.pow 2 g) ≤ k :=
      roundDiv_le_of_half (Nat.mul_pos hd (Nat.two_pow_pos g)) h.le fun _ => h
    rw [roundTo_eq, hunit]
    exact Nat.mul_le_mul_right _ hdown

/-- half a unit below an even number of `p` digits, or below the power of two behind them, a
quotient is rounded up to it -/
theorem le_roundTo_of_half (hp : 0 < p) (hd : 0 < den) (hlow : Nat.pow 2 (p - 1) < k)
    (hk : k ≤ Nat.pow 2 p) (heven : k % 2 = 0)
    (h : 2 * k * (den * Nat.pow 2 g) ≤ 2 * num + den * Nat.pow 2 g) :
    k * Nat.pow 2 g ≤ roundTo p num den := by
  rcases Nat.lt_or_ge num (k * Nat.pow 2 g * den) with hlt | hge
  · -- between the number before it and the number, the unit is that of the former
    have hunit : unitOf p num den = Nat.pow 2 g := by
      refine unitOf_eq hp hd ?_ ?_
      · have hbefore : (Nat.pow 2 (p - 1) + 1) * Nat.pow 2 g * den ≤ k * Nat.pow 2 g * den :=
          Nat.mul_le_mul_right _ (Nat.mul_le_mul_right _ hlow)
        have hnonneg : 0 ≤ den * Nat.pow 2 g := Nat.zero_le _
        linarith
      · exact hlt.trans_le (Nat.mul_le_mul_right _ (Nat.mul_le_mul_right _ hk))
    have hup : k ≤ roundDiv num (den * Nat.pow 2 g) :=
      le_roundDiv_of_half (Nat.mul_pos hd (Nat.two_pow_pos g)) h fun hodd => by omega
    rw [roundTo_eq, hunit]
    exact Nat.mul_le_mul_right _ hup
  · exact le_roundTo hp hd (significant_mul_pow hp hk g) hge

/-- more than half a unit above a number, a quotient stays above it -/
theorem lt_roundTo (hp : 0 < p) (hd : 0 < den) (hw : Significant p w)
    (hg : w < Nat.pow 2 (p + g)) (h : (2 * w + Nat.pow 2 g) * den < 2 * num) :
    w < roundTo p num den := by
  have hnonneg : 0 ≤ Nat.pow 2 g * den := Nat.zero_le _
  refine lt_of_le_of_ne (le_roundTo hp hd hw (by linarith)) fun heq => ?_
  have hhalf : 2 * num ≤ (2 * roundTo p num den + unitOf p num den) * den :=
    le_roundTo_add_half hd
  rw [← heq] at hhalf
  have hunit : Nat.pow 2 g < unitOf p num den := by
    by_contra! hle
    have hmul := Nat.mul_le_mul_right den hle
    linarith
  have hpow := pow_mul_unitOf_le_roundTo hp hd
    ((Nat.succ_le_of_lt (Nat.two_pow_pos g)).trans_lt hunit)
  have hbig := pow_le_pow_mul_unitOf hp hunit
  omega

/-- more than half a unit below a number, a quotient stays below it -/
theorem roundTo_lt (hp : 0 < p) (hd : 0 < den) (hw : Significant p w)
    (hg : w ≤ Nat.pow 2 (p + g)) (h : 2 * num + Nat.pow 2 g * den < 2 * w * den) :
    roundTo p num den < w := by
  have hnonneg : 0 ≤ Nat.pow 2 g * den := Nat.zero_le _
  refine lt_of_le_of_ne (roundTo_le hd hw (by linarith)) fun heq => ?_
  have hhalf : 2 * roundTo p num den * den ≤ 2 * num + unitOf p num den * den :=
    roundTo_sub_half_le hd
  rw [heq] at hhalf
  have hunit : Nat.pow 2 g < unitOf p num den := by
    by_contra! hle
    have hmul := Nat.mul_le_mul_right den hle
    linarith
  have hpow := pow_mul_unitOf_le hp ((Nat.succ_le_of_lt (Nat.two_pow_pos g)).trans_lt hunit)
  have hbig := pow_le_pow_mul_unitOf hp hunit
  have hq : num / den < w := (Nat.div_lt_iff_lt_mul hd).mpr (by linarith)
  omega

/-! ## The interval of a size -/

section
variable {u : Nat}

theorem spacing_pos (u : Nat) : 0 < spacing u := Nat.two_pow_pos _

theorem readsBack_iff : readsBack u num den = true ↔
    (lowerEnd u * den ≤ num ∧ num ≤ upperEnd u * den) ∧
      (u / spacing u % 2 = 1 → lowerEnd u * den < num ∧ num < upperEnd u * den) := by
  unfold readsBack
  split
  · rename_i heven
    simp [heven]
  · rename_i hodd
    simp only [Nat.mod_two_ne_zero.mp hodd, Bool.and_eq_true, decide_eq_true_eq, true_implies]
    exact ⟨fun h => ⟨⟨h.1.le, h.2.le⟩, h⟩, fun h => h.2⟩

theorem le_lowerEnd (u : Nat) : 4 * u ≤ lowerEnd u + 2 * spacing u := by
  unfold lowerEnd
  split <;> omega

/-- the next greater size has at most one digit more -/
theorem add_spacing_le (hu : Significant 24 u) : u + spacing u ≤ Nat.pow 2 24 * spacing u := by
  obtain ⟨k, hk⟩ : spacing u ∣ u := hu.dvd
  have hlt : u < Nat.pow 2 24 * spacing u :=
    (lt_pow_surplus 24 u).trans_eq (Nat.pow_add 2 _ _)
  have hk24 : k < Nat.pow 2 24 := by
    refine Nat.lt_of_mul_lt_mul_right (a := spacing u) ?_
    rwa [Nat.mul_comm k, ← hk]
  calc u + spacing u = (k + 1) * spacing u := by rw [Nat.add_mul, Nat.mul_comm k, ← hk, one_mul]
    _ ≤ Nat.pow 2 24 * spacing u := Nat.mul_le_mul_right _ hk24

theorem roundTo_le_of_readsBack (hu : Significant 24 u) (hd : 0 < den)
    (h : readsBack u num den = true) : roundTo 24 num (4 * den) ≤ u := by
  have hd4 : 0 < 4 * den := by omega
  have hs := spacing_pos u
  obtain ⟨⟨-, hhi⟩, hodd⟩ := readsBack_iff.mp h
  rcases Nat.le_total num (u * (4 * den)) with hle | hge
  · exact roundTo_le hd4 hu hle
  · -- above the size, the numbers stand as dense as at it
    have hlo : u ≤ num / (4 * den) := (Nat.le_div_iff_mul_le hd4).mpr hge
    have hup : num / (4 * den) < u + spacing u := by
      refine (Nat.div_lt_iff_lt_mul hd4).mpr ?_
      have hgap : 0 < spacing u * den := Nat.mul_pos hs hd
      unfold upperEnd at hhi
      linarith
    have hunit : unitOf 24 num (4 * den) = spacing u := by
      have hmax : surplus 24 (num / (4 * den)) ≤ surplus 24 u :=
        surplus_le_of_lt (by decide)
          ((hup.trans_le (add_spacing_le hu)).trans_eq (Nat.pow_add 2 _ _).symm)
      rw [unitOf, hmax.antisymm (surplus_mono hlo), spacing]
    have hk : u / spacing u * spacing u = u := Nat.div_mul_cancel hu.dvd
    have hdown : roundDiv num (4 * den * spacing u) ≤ u / spacing u := by
      have hexp : (2 * (u / spacing u) + 1) * (4 * den * spacing u) = 2 * (upperEnd u * den) := by
        calc (2 * (u / spacing u) + 1) * (4 * den * spacing u)
            = 2 * ((4 * (u / spacing u * spacing u) + 2 * spacing u) * den) := by ring
          _ = 2 * (upperEnd u * den) := by rw [hk, upperEnd]
      refine roundDiv_le_of_half (Nat.mul_pos hd4 hs) ?_ fun h1 => ?_
      · rw [hexp]
        omega
      · have hlt := (hodd h1).2
        rw [hexp]
        omega
    calc roundTo 24 num (4 * den) = roundDiv num (4 * den * spacing u) * spacing u := by
          rw [roundTo_eq, hunit]
      _ ≤ u / spacing u * spacing u := Nat.mul_le_mul_right _ hdown
      _ = u := hk

/-- where a quotient in the interval of a size is rounded finer than the size, the size is a power
of two and the quotient is in the half as wide lower part of its interval -/
theorem finer_of_readsBack (hu : Significant 24 u) (hd : 0 < den) (h : lowerEnd u * den ≤ num)
    (hs : surplus 24 (num / (4 * den)) < surplus 24 u) :
    spacing u = 2 * unitOf 24 num (4 * den) ∧ u = 16777216 * unitOf 24 num (4 * den) ∧
      lowerEnd u = 4 * u - spacing u := by
  have hd4 : 0 < 4 * den := by omega
  obtain ⟨f, hf⟩ : ∃ f, surplus 24 u = f + 1 := Nat.exists_eq_add_one_of_ne_zero (by omega)
  have hspacing : spacing u = 2 * Nat.pow 2 f := by
    rw [spacing, hf]
    exact (Nat.pow_succ 2 f).trans (Nat.mul_comm _ _)
  have htwo : 0 < Nat.pow 2 f := Nat.two_pow_pos f
  -- the quotient is below the power of two that `u` is not below
  have hpow : 16777216 * Nat.pow 2 f ≤ u := by
    have hsur : 0 < surplus 24 u := by omega
    have hle : Nat.pow 2 (23 + surplus 24 u) ≤ u := pow_le_of_surplus (by decide) hsur
    rw [hf, show 23 + (f + 1) = 24 + f by omega] at hle
    exact (Nat.pow_add 2 24 f).symm.le.trans hle
  have hq : num / (4 * den) < 16777216 * Nat.pow 2 f := by
    refine (lt_pow_surplus 24 _).trans_le ?_
    exact (Nat.pow_le_pow_right (by decide) (by omega)).trans (Nat.pow_add 2 24 f).le
  have hlower : lowerEnd u < 4 * (num / (4 * den) + 1) := by
    have hnext : num < (num / (4 * den) + 1) * (4 * den) :=
      (Nat.div_lt_iff_lt_mul hd4).mp (Nat.lt_succ_self _)
    refine Nat.lt_of_mul_lt_mul_right (a := den) ?_
    linarith
  have hu24 : u = 16777216 * Nat.pow 2 f := by
    obtain ⟨k, hk⟩ : spacing u ∣ u := hu.dvd
    have hlow := le_lowerEnd u
    rw [hspacing] at hk hlow
    have hlt : k < 8388609 := Nat.lt_of_mul_lt_mul_right (a := Nat.pow 2 f) (by linarith)
    have hge : 8388608 ≤ k := Nat.le_of_mul_le_mul_right (by linarith) htwo
    obtain rfl : k = 8388608 := by omega
    omega
  have hlow : lowerEnd u = 4 * u - spacing u := by
    refine if_pos ⟨?_, by omega⟩
    rw [hspacing, hu24]
    show 16777216 * Nat.pow 2 f = 8388608 * (2 * Nat.pow 2 f)
    omega
  -- so it is at least the power of two before it
  have hunit : unitOf 24 num (4 * den) = Nat.pow 2 f := by
    refine unitOf_eq (by decide) hd4 ((Nat.le_div_iff_mul_le hd4).mp ?_)
      ((Nat.div_lt_iff_lt_mul hd4).mp hq)
    show 8388608 * Nat.pow 2 f ≤ num / (4 * den)
    omega
  rw [hunit]
  exact ⟨hspacing, hu24, hlow⟩

theorem le_roundTo_of_readsBack (hu : Significant 24 u) (hd : 0 < den)
    (h : readsBack u num den = true) : u ≤ roundTo 24 num (4 * den) := by
  have hd4 : 0 < 4 * den := by omega
  have hs := spacing_pos u
  obtain ⟨⟨hlo, -⟩, hodd⟩ := readsBack_iff.mp h
  rcases Nat.le_total (u * (4 * den)) num with hle | hge
  · exact le_roundTo (by decide) hd4 hu hle
  · have hq : num / (4 * den) ≤ u := by
      rw [← Nat.mul_div_cancel u hd4]
      exact Nat.div_le_div_right hge
    rcases (surplus_mono (p := 24) hq).lt_or_eq with hsur | hsur
    · obtain ⟨hspacing, hpow, hlow⟩ := finer_of_readsBack hu hd hlo hsur
      have hunit : 0 < unitOf 24 num (4 * den) := unitOf_pos
      rw [roundTo_eq]
      generalize unitOf 24 num (4 * den) = t at *
      have hup : 16777216 ≤ roundDiv num (4 * den * t) := by
        refine le_roundDiv_of_half (Nat.mul_pos hd4 hunit) ?_ (by omega)
        have hend : lowerEnd u + 2 * t = 4 * u := by omega
        have hsum : (lowerEnd u + 2 * t) * den = 4 * (16777216 * t) * den := by rw [hend, hpow]
        linarith
      rw [hpow]
      exact Nat.mul_le_mul_right t hup
    · have hunit : unitOf 24 num (4 * den) = spacing u := by rw [unitOf, hsur, spacing]
      have hk : u / spacing u * spacing u = u := Nat.div_mul_cancel hu.dvd
      have hend : 4 * u * den ≤ lowerEnd u * den + 2 * spacing u * den := by
        rw [← Nat.add_mul]
        exact Nat.mul_le_mul_right den (le_lowerEnd u)
      have hup : u / spacing u ≤ roundDiv num (4 * den * spacing u) := by
        have hexp : 2 * (u / spacing u) * (4 * den * spacing u) = 2 * (4 * u * den) := by
          calc 2 * (u / spacing u) * (4 * den * spacing u)
              = 2 * (4 * (u / spacing u * spacing u) * den) := by ring
            _ = 2 * (4 * u * den) := by rw [hk]
        refine le_roundDiv_of_half (Nat.mul_pos hd4 hs) ?_ fun h1 => ?_
        · rw [hexp]
          linarith
        · have hlt := (hodd h1).1
          rw [hexp]
          linarith
      calc u = u / spacing u * spacing u := hk.symm
        _ ≤ roundDiv num (4 * den * spacing u) * spacing u := Nat.mul_le_mul_right _ hup
        _ = roundTo 24 num (4 * den) := by rw [roundTo_eq, hunit]

/-- what lies in the interval of a size is rounded to that size -/
theorem roundTo_of_readsBack (hu : Significant 24 u) (hd : 0 < den)
    (h : readsBack u num den = true) : roundTo 24 num (4 * den) = u :=
  (roundTo_le_of_readsBack hu hd h).antisymm (le_roundTo_of_readsBack hu hd h)

end

end

end LineEditor.Number
