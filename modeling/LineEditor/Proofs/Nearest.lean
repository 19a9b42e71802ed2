import LineEditor.Proofs.Rounding
import Mathlib.Data.Nat.Dist

/-!
# The nearest number

Rounding said without rounding: of all numbers with `p` binary digits the nearest one to a quotient,
and of two nearest ones the one whose last digit is zero.  There is exactly one such number, and it
is the one to which the quotient is rounded.  And the interval of a size is made of the quotients to
which the size is nearest.

* `IsNearest`              the nearest number;
* `isNearest_iff`          it is the one of `roundTo`;
* `readsBack_iff_roundTo`  the interval of a size.
-/

namespace LineEditor.Number

/-- the last of the first `p` binary digits of `n` -/
def lastDigit (p n : Nat) : Nat := n / Nat.pow 2 (surplus p n) % 2

/-- `u` is the number of `p` binary digits that is nearest to `num / den`; if another one is as
near, then the last digit of `u` is zero -/
structure IsNearest (p num den u : Nat) : Prop where
  significant : Significant p u
  least : ∀ w, Significant p w → Nat.dist (u * den) num ≤ Nat.dist (w * den) num
  even : ∀ w, Significant p w → w ≠ u → Nat.dist (w * den) num = Nat.dist (u * den) num →
    lastDigit p u = 0

section
variable {p num den u v w : Nat}

/-! ## Distances -/

/-- within half a unit of a quotient, a number is at least as near as another one a unit away -/
theorem dist_le_of_half {a b n s : Nat} (hup : 2 * n ≤ 2 * a + s) (hdown : 2 * a ≤ 2 * n + s)
    (h : a + s ≤ b ∨ b + s ≤ a) : Nat.dist a n ≤ Nat.dist b n := by
  unfold Nat.dist
  omega

/-- if both are as near, then the quotient is half a unit away from them -/
theorem half_of_dist_eq {a b n s : Nat} (hup : 2 * n ≤ 2 * a + s) (hdown : 2 * a ≤ 2 * n + s)
    (h : a + s ≤ b ∨ b + s ≤ a) (heq : Nat.dist b n = Nat.dist a n) :
    2 * n = 2 * a + s ∨ 2 * a = 2 * n + s := by
  unfold Nat.dist at heq
  omega

/-- a number that is no multiple of the unit of a quotient has fewer digits than the quotient -/
theorem lt_of_not_dvd (hw : Significant p w) (h : ¬ unitOf p num den ∣ w) :
    1 < unitOf p num den ∧ w < Nat.pow 2 (p - 1) * unitOf p num den := by
  have hs : surplus p w < surplus p (num / den) := by
    by_contra! hle
    exact h ((Nat.pow_dvd_pow 2 hle).trans hw.dvd)
  refine ⟨Nat.one_lt_two_pow (by omega), (lt_pow_surplus p w).trans_le ?_⟩
  show _ ≤ Nat.pow 2 (p - 1) * Nat.pow 2 (surplus p (num / den))
  refine le_trans ?_ (Nat.pow_add 2 (p - 1) _).le
  exact Nat.pow_le_pow_right (by decide) (by omega)

theorem unitOf_dvd_roundTo : unitOf p num den ∣ roundTo p num den :=
  Dvd.intro_left _ roundTo_eq.symm

/-- two multiples of a unit are equal or a unit apart -/
theorem add_le_of_dvd {s : Nat} (hv : s ∣ v) (hw : s ∣ w) (hne : w ≠ v) :
    v * den + s * den ≤ w * den ∨ w * den + s * den ≤ v * den := by
  obtain ⟨k, rfl⟩ := hv
  obtain ⟨l, rfl⟩ := hw
  rcases Nat.lt_or_gt_of_ne fun heq : l = k => hne (heq ▸ rfl) with hlt | hlt
  · right
    calc s * l * den + s * den = s * (l + 1) * den := by ring
      _ ≤ s * k * den := Nat.mul_le_mul_right _ (Nat.mul_le_mul_left _ hlt)
  · left
    calc s * k * den + s * den = s * (k + 1) * den := by ring
      _ ≤ s * l * den := Nat.mul_le_mul_right _ (Nat.mul_le_mul_left _ hlt)

/-! ## Rounding gives the nearest number -/

section
variable (hd : 0 < den)
include hd

theorem dist_roundTo_le_of_dvd (h : unitOf p num den ∣ w) :
    Nat.dist (roundTo p num den * den) num ≤ Nat.dist (w * den) num := by
  by_cases hne : w = roundTo p num den
  · rw [hne]
  · have hup : 2 * num ≤ (2 * roundTo p num den + unitOf p num den) * den := le_roundTo_add_half hd
    have hdown : 2 * roundTo p num den * den ≤ 2 * num + unitOf p num den * den :=
      roundTo_sub_half_le hd
    exact dist_le_of_half (by linarith) (by linarith) (add_le_of_dvd unitOf_dvd_roundTo h hne)

/-- a number with fewer digits than the quotient is farther away -/
theorem dist_roundTo_lt (hp : 0 < p) (hw : Significant p w) (h : ¬ unitOf p num den ∣ w) :
    Nat.dist (roundTo p num den * den) num < Nat.dist (w * den) num := by
  obtain ⟨hunit, hlt⟩ := lt_of_not_dvd hw h
  have hbelow : Nat.pow 2 (p - 1) * unitOf p num den * den ≤ num :=
    (Nat.le_div_iff_mul_le hd).mp (pow_mul_unitOf_le hp hunit)
  have hpower : Nat.dist (roundTo p num den * den) num
      ≤ Nat.dist (Nat.pow 2 (p - 1) * unitOf p num den * den) num :=
    dist_roundTo_le_of_dvd hd (Nat.dvd_mul_left _ _)
  have hmul : w * den < Nat.pow 2 (p - 1) * unitOf p num den * den :=
    Nat.mul_lt_mul_of_pos_right hlt hd
  refine hpower.trans_lt ?_
  unfold Nat.dist
  omega

/-- half-way between two numbers the even one is taken -/
theorem roundDiv_even_of_half (h : 2 * num = (2 * roundDiv num den + 1) * den ∨
    2 * roundDiv num den * den = 2 * num + den) : roundDiv num den % 2 = 0 := by
  by_contra! hodd
  have hone : roundDiv num den % 2 = 1 := Nat.mod_two_ne_zero.mp hodd
  obtain h | h := h
  · have hup : roundDiv num den + 1 ≤ roundDiv num den := by
      refine le_roundDiv_of_half hd (by linarith) fun heven => ?_
      omega
    omega
  · obtain ⟨r, hr⟩ : ∃ r, roundDiv num den = r + 1 :=
      Nat.exists_eq_add_one_of_ne_zero fun h0 => by omega
    have hdown : roundDiv num den ≤ r := by
      rw [hr] at h
      refine roundDiv_le_of_half hd (by linarith) fun heven => ?_
      omega
    omega

omit hd in
theorem roundDiv_le_pow : roundDiv num (den * unitOf p num den) ≤ Nat.pow 2 p := by
  have hq : num / (den * unitOf p num den) < Nat.pow 2 p := by
    rw [← Nat.div_div_eq_div_mul]
    exact div_unit_lt p (num / den)
  exact (roundDiv_le _ _).trans hq

/-- the last digit of a rounded quotient is that of its units, unless it has moved up to the next
power of two, where it is zero -/
theorem lastDigit_roundTo (hp : 1 < p) (heven : roundDiv num (den * unitOf p num den) % 2 = 0) :
    lastDigit p (roundTo p num den) = 0 := by
  have hle : roundDiv num (den * unitOf p num den) ≤ Nat.pow 2 p := roundDiv_le_pow
  have hlow : 1 < unitOf p num den → Nat.pow 2 (p - 1) * unitOf p num den ≤ roundTo p num den :=
    pow_mul_unitOf_le_roundTo (by omega) hd
  rw [roundTo_eq] at hlow ⊢
  generalize roundDiv num (den * unitOf p num den) = r at *
  unfold unitOf at *
  generalize surplus p (num / den) = e at *
  unfold lastDigit
  rcases hle.lt_or_eq with hlt | rfl
  · have hmax : surplus p (r * Nat.pow 2 e) ≤ e := by
      refine surplus_le_of_lt (by omega) ?_
      refine lt_of_lt_of_eq ?_ (Nat.pow_add 2 p e).symm
      exact Nat.mul_lt_mul_of_pos_right hlt (Nat.two_pow_pos e)
    have hmin : e ≤ surplus p (r * Nat.pow 2 e) := by
      rcases Nat.eq_zero_or_pos e with rfl | he
      · exact Nat.zero_le _
      · have hge : Nat.pow 2 (p - 1 + e) ≤ r * Nat.pow 2 e :=
          (Nat.pow_add 2 (p - 1) e).le.trans (hlow (Nat.one_lt_two_pow he.ne'))
        have hpos : 0 < r * Nat.pow 2 e := (Nat.two_pow_pos _).trans_le hge
        have hlog : p - 1 + e ≤ (r * Nat.pow 2 e).log2 := (Nat.le_log2 hpos.ne').mpr hge
        unfold surplus
        omega
    have hpos : 0 < Nat.pow 2 e := Nat.two_pow_pos e
    rw [hmax.antisymm hmin, Nat.mul_div_cancel r hpos, heven]
  · have hpow : Nat.pow 2 p * Nat.pow 2 e = 2 ^ (p + e) := (Nat.pow_add 2 p e).symm
    have hs : surplus p (2 ^ (p + e)) = e + 1 := by
      unfold surplus
      rw [Nat.log2_two_pow]
      omega
    rw [hpow, hs]
    show 2 ^ (p + e) / 2 ^ (e + 1) % 2 = 0
    rw [Nat.pow_div (by omega) (by decide), show p + e - (e + 1) = p - 2 + 1 by omega, Nat.pow_succ]
    exact Nat.mul_mod_left _ 2

theorem isNearest_roundTo (hp : 1 < p) : IsNearest p num den (roundTo p num den) where
  significant := significant_roundTo (by omega) num den
  least w hw := by
    by_cases h : unitOf p num den ∣ w
    · exact dist_roundTo_le_of_dvd hd h
    · exact (dist_roundTo_lt hd (by omega) hw h).le
  even w hw hne heq := by
    have hdvd : unitOf p num den ∣ w := by
      by_contra h
      exact absurd heq (dist_roundTo_lt hd (by omega) hw h).ne'
    have hup : 2 * num ≤ (2 * roundTo p num den + unitOf p num den) * den := le_roundTo_add_half hd
    have hdown : 2 * roundTo p num den * den ≤ 2 * num + unitOf p num den * den :=
      roundTo_sub_half_le hd
    have hhalf := half_of_dist_eq (s := unitOf p num den * den) (by linarith) (by linarith)
      (add_le_of_dvd unitOf_dvd_roundTo hdvd hne) heq
    apply lastDigit_roundTo hd hp
    apply roundDiv_even_of_half (Nat.mul_pos hd unitOf_pos)
    rw [roundTo_eq] at hhalf
    exact hhalf.imp (fun h => by linarith) fun h => by linarith

/-! ## There is only one -/

/-- what lies between two numbers that are equally near is nearer than both -/
theorem IsNearest.not_between (hu : IsNearest p num den u)
    (heq : Nat.dist (v * den) num = Nat.dist (u * den) num) (hw : Significant p w) (h : u < w)
    (h' : w < v) : False := by
  have hle := hu.least w hw
  have hlow : u * den < w * den := Nat.mul_lt_mul_of_pos_right h hd
  have hhigh : w * den < v * den := Nat.mul_lt_mul_of_pos_right h' hd
  unfold Nat.dist at hle heq
  omega

omit hd in
theorem Significant.next (hp : 0 < p) (hu : Significant p u) :
    Significant p (u + Nat.pow 2 (surplus p u)) := by
  have hle : u / Nat.pow 2 (surplus p u) + 1 ≤ Nat.pow 2 p := div_unit_lt p u
  have hsig := significant_mul_pow hp hle (surplus p u)
  rwa [Nat.add_mul, Nat.div_mul_cancel hu.dvd, Nat.one_mul] at hsig

theorem IsNearest.not_lt (hp : 0 < p) (hu : IsNearest p num den u) (hv : IsNearest p num den v) :
    ¬ u < v := by
  intro hlt
  have heq : Nat.dist (v * den) num = Nat.dist (u * den) num :=
    (hv.least u hu.significant).antisymm (hu.least v hv.significant)
  have heven := hu.even v hv.significant hlt.ne' heq
  have heven' := hv.even u hu.significant hlt.ne heq.symm
  -- `v` is the number next to `u`, since nothing lies between
  have hs := surplus_mono (p := p) hlt.le
  have hdvd : Nat.pow 2 (surplus p u) ∣ v := (Nat.pow_dvd_pow 2 hs).trans hv.significant.dvd
  have hpos : 0 < Nat.pow 2 (surplus p u) := Nat.two_pow_pos _
  have hnext : v = u + Nat.pow 2 (surplus p u) := by
    obtain ⟨k, hk⟩ := hu.significant.dvd
    obtain ⟨l, hl⟩ := hdvd
    have hle : v ≤ u + Nat.pow 2 (surplus p u) := by
      by_contra! hbetween
      exact hu.not_between hd heq (hu.significant.next hp) (by omega) hbetween
    have hkl : k < l := by
      refine Nat.lt_of_mul_lt_mul_left (a := Nat.pow 2 (surplus p u)) ?_
      rw [← hk, ← hl]
      exact hlt
    have hge : Nat.pow 2 (surplus p u) * (k + 1) ≤ Nat.pow 2 (surplus p u) * l :=
      Nat.mul_le_mul_left _ hkl
    rw [← hl, Nat.mul_succ, ← hk] at hge
    exact hle.antisymm hge
  -- so their last digits cannot both be zero
  have hdiv : v / Nat.pow 2 (surplus p u) = u / Nat.pow 2 (surplus p u) + 1 := by
    rw [hnext]
    exact Nat.add_div_right u hpos
  unfold lastDigit at heven heven'
  rcases hs.lt_or_eq with hmore | hsame
  · have hdvd' : Nat.pow 2 (surplus p u + 1) ∣ v :=
      (Nat.pow_dvd_pow 2 hmore).trans hv.significant.dvd
    obtain ⟨k, hk⟩ := hdvd'
    have hpow : Nat.pow 2 (surplus p u + 1) = Nat.pow 2 (surplus p u) * 2 := Nat.pow_succ 2 _
    rw [hpow, Nat.mul_assoc] at hk
    rw [hk, Nat.mul_div_cancel_left _ hpos] at hdiv
    omega
  · rw [← hsame, hdiv] at heven'
    omega

theorem IsNearest.unique (hp : 0 < p) (hu : IsNearest p num den u) (hv : IsNearest p num den v) :
    u = v :=
  Nat.le_antisymm (Nat.le_of_not_lt (hv.not_lt hd hp hu)) (Nat.le_of_not_lt (hu.not_lt hd hp hv))

theorem isNearest_iff (hp : 1 < p) : IsNearest p num den u ↔ roundTo p num den = u := by
  constructor
  · exact fun h => (isNearest_roundTo hd hp).unique hd (by omega) h
  · rintro rfl
    exact isNearest_roundTo hd hp

end

/-- a quotient may be given by other numerators and denominators -/
theorem isNearest_mul {t : Nat} (ht : 0 < t) :
    IsNearest p (num * t) (den * t) u ↔ IsNearest p num den u := by
  have hdist (w : Nat) : Nat.dist (w * (den * t)) (num * t) = Nat.dist (w * den) num * t := by
    rw [← Nat.mul_assoc, Nat.dist_mul_right]
  constructor
  · intro h
    refine ⟨h.significant, fun w hw => ?_, fun w hw hne heq => ?_⟩
    · have hle := h.least w hw
      rw [hdist, hdist] at hle
      exact Nat.le_of_mul_le_mul_right hle ht
    · refine h.even w hw hne ?_
      rw [hdist, hdist, heq]
  · intro h
    refine ⟨h.significant, fun w hw => ?_, fun w hw hne heq => ?_⟩
    · rw [hdist, hdist]
      exact Nat.mul_le_mul_right t (h.least w hw)
    · rw [hdist, hdist] at heq
      exact h.even w hw hne (Nat.eq_of_mul_eq_mul_right ht heq)

/-- quotients that are equal are rounded to one number -/
theorem roundTo_congr {num' den' : Nat} (hp : 1 < p) (hd : 0 < den) (hd' : 0 < den')
    (h : num * den' = num' * den) : roundTo p num den = roundTo p num' den' := by
  rw [← isNearest_iff hd hp, ← isNearest_mul hd', h, Nat.mul_comm den, isNearest_mul hd]
  exact isNearest_roundTo hd' hp

/-! ## The interval of a size -/

/-- the lower end of an interval is half-way to the number before the size -/
theorem exists_before (hu : Significant 24 u) (hpos : 0 < u) :
    ∃ v, Significant 24 v ∧ v < u ∧ lowerEnd u = 2 * u + 2 * v := by
  have hs := spacing_pos u
  obtain ⟨k, hk⟩ : spacing u ∣ u := hu.dvd
  have hle : spacing u ≤ u := Nat.le_of_dvd hpos hu.dvd
  by_cases h : u = Nat.pow 2 23 * spacing u ∧ 1 < spacing u
  · have hend : lowerEnd u = 4 * u - spacing u := if_pos h
    obtain ⟨e, he⟩ : ∃ e, surplus 24 u = e + 1 := by
      refine Nat.exists_eq_add_one_of_ne_zero fun h0 => ?_
      rw [spacing, h0] at h
      exact absurd h.2 (by decide)
    have hdouble : spacing u = 2 * Nat.pow 2 e := by
      rw [spacing, he]
      exact (Nat.pow_succ 2 e).trans (Nat.mul_comm _ _)
    have hu23 : u = 8388608 * spacing u := h.1
    refine ⟨16777215 * Nat.pow 2 e, ⟨16777215, e, by decide, rfl⟩, by omega, by omega⟩
  · have hend : lowerEnd u = 4 * u - 2 * spacing u := if_neg h
    have hlt : u < Nat.pow 2 24 * spacing u :=
      (lt_pow_surplus 24 u).trans_eq (Nat.pow_add 2 _ _)
    refine ⟨u - spacing u, ⟨k - 1, surplus 24 u, ?_, ?_⟩, by omega, by omega⟩
    · have hk24 : k < Nat.pow 2 24 := by
        refine Nat.lt_of_mul_lt_mul_right (a := spacing u) ?_
        rwa [Nat.mul_comm k, ← hk]
      omega
    · show u - spacing u = (k - 1) * spacing u
      rw [Nat.sub_mul, Nat.mul_comm k, ← hk, Nat.one_mul]

/-- a quotient to which a size is nearest lies in the interval of the size -/
theorem readsBack_of_isNearest (hpos : 0 < u) (hd : 0 < den) (h : IsNearest 24 num (4 * den) u) :
    readsBack u num den = true := by
  obtain ⟨v, hv, hlt, hlower⟩ := exists_before h.significant hpos
  have hs : 0 < spacing u * den := Nat.mul_pos (spacing_pos u) hd
  have hgap : v * den < u * den := Nat.mul_lt_mul_of_pos_right hlt hd
  have hw : Significant 24 (u + spacing u) := h.significant.next (by decide)
  have hbelow := h.least v hv
  have habove := h.least _ hw
  have hlow : lowerEnd u * den = 2 * (u * den) + 2 * (v * den) := by
    rw [hlower]
    ring
  have hhigh : upperEnd u * den = 4 * (u * den) + 2 * (spacing u * den) := by
    rw [upperEnd]
    ring
  have hexpand : ∀ n : Nat, n * (4 * den) = 4 * (n * den) := fun n => by ring
  rw [readsBack_iff, hlow, hhigh]
  simp only [hexpand, Nat.add_mul] at hbelow habove
  refine ⟨⟨?_, ?_⟩, fun hodd => ⟨?_, ?_⟩⟩
  · unfold Nat.dist at hbelow
    omega
  · unfold Nat.dist at habove
    omega
  · -- at the end the number before is as near, so the last digit would be zero
    have hne : Nat.dist (v * (4 * den)) num ≠ Nat.dist (u * (4 * den)) num := by
      intro heq
      have hzero : u / spacing u % 2 = 0 := h.even v hv hlt.ne heq
      omega
    simp only [hexpand] at hne
    unfold Nat.dist at hbelow hne
    omega
  · have hne : Nat.dist ((u + spacing u) * (4 * den)) num ≠ Nat.dist (u * (4 * den)) num := by
      intro heq
      have hnext : u + spacing u ≠ u := by
        have := spacing_pos u
        omega
      have hzero : u / spacing u % 2 = 0 := h.even _ hw hnext heq
      omega
    simp only [hexpand, Nat.add_mul] at hne
    unfold Nat.dist at habove hne
    omega

/-- the interval of a size is what is rounded to it -/
theorem readsBack_iff_roundTo (hu : Significant 24 u) (hpos : 0 < u) (hd : 0 < den) :
    readsBack u num den = true ↔ roundTo 24 num (4 * den) = u := by
  constructor
  · exact roundTo_of_readsBack hu hd
  · intro h
    exact readsBack_of_isNearest hpos hd ((isNearest_iff (by omega) (by decide)).mpr h)

end

end LineEditor.Number
