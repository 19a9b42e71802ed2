import LineEditor.Proofs.DecimalText
import LineEditor.Proofs.Shortest

/-!
# The shortest decimal, without a search

The decimal that is written for a positive number of single precision reads back as the number, it
is a multiple of the coarsest power of ten that has such a multiple, and of these multiples it is
one that is nearest to the number.  The search finds it, whatever becomes of a tie.

* `Decimal.ReadsAs`         the size that a decimal is read as;
* `IsShortest`              the decimals that may be written;
* `EndsAt.isShortest`       the search ends with one of them;
* `IsShortest.length_le`    they have the fewest digits;
* `IsShortest.mem`, `IsShortest.le`, `IsShortest.ge`   where they lie.
-/

namespace LineEditor

open Number

/-- the decimal is read as the size `u` in single precision -/
def Decimal.ReadsAs (d : Decimal) (u : Nat) : Prop :=
  IsNearest 24 (d.num * Single.oneUnits) d.den u

namespace Number

/-- the decimal reads back as the size `u`, no multiple of a coarser power of ten does, and no other
multiple of the same power that does is nearer -/
structure IsShortest (u : Nat) (d : Decimal) : Prop where
  reads : d.ReadsAs u
  coarsest : ∀ e : Decimal, d.exponent < e.exponent → ¬ e.ReadsAs u
  nearest : ∀ e : Decimal, e.exponent = d.exponent → e.ReadsAs u →
    Nat.dist (d.num * Single.oneUnits) (u * d.den) ≤ Nat.dist (e.num * Single.oneUnits) (u * e.den)

section
variable {u c step den num : Nat} {k : Int} {d : Decimal} (hu : Significant 24 u) (hpos : 0 < u)

/-! ## Intervals -/

/-- what lies between the size and a quotient that reads back reads back as well -/
theorem readsBack_of_le (hd : 0 < den) {n : Nat} (h : readsBack u num den = true) (hle : num ≤ n)
    (hsize : n ≤ 4 * u * den) : readsBack u n den = true := by
  have hhigh : n < upperEnd u * den := by
    refine hsize.trans_lt (Nat.mul_lt_mul_of_pos_right ?_ hd)
    have hs := spacing_pos u
    unfold upperEnd
    omega
  obtain ⟨⟨hlow, -⟩, hodd⟩ := readsBack_iff.mp h
  exact readsBack_iff.mpr ⟨⟨hlow.trans hle, hhigh.le⟩,
    fun h1 => ⟨(hodd h1).1.trans_le hle, hhigh⟩⟩

include hu hpos in
theorem readsBack_of_ge (hd : 0 < den) {n : Nat} (h : readsBack u num den = true) (hle : n ≤ num)
    (hsize : 4 * u * den ≤ n) : readsBack u n den = true := by
  have hlow : lowerEnd u * den < n := by
    refine lt_of_lt_of_le (Nat.mul_lt_mul_of_pos_right ?_ hd) hsize
    have hs := spacing_pos u
    have hend := lowerEnd_add_spacing_le hu hpos
    omega
  obtain ⟨⟨-, hhigh⟩, hodd⟩ := readsBack_iff.mp h
  exact readsBack_iff.mpr ⟨⟨hlow.le, hle.trans hhigh⟩,
    fun h1 => ⟨hlow, hle.trans_lt (hodd h1).2⟩⟩

include hu hpos in
/-- where the search finds no multiple of a power of ten, there is none -/
theorem readsBack_of_multiple?_eq_none {tie : Tie} (hk : powerOfTen k = (step, den))
    (h : multiple? tie u k = none) (c : Nat) : readsBack u (c * step) den = false := by
  obtain ⟨hstep, hd⟩ := powerOfTen_pos hk
  have hsplit := Nat.div_add_mod (4 * u * den) step
  have hmod := Nat.mod_lt (4 * u * den) hstep
  simp only [multiple?, hk] at h
  generalize 4 * u * den / step = below at *
  generalize 4 * u * den % step = past at *
  have hnone : readsBack u (below * step) den = false ∧
      readsBack u ((below + 1) * step) den = false := by
    split at h
    · rename_i hb ha
      exact ⟨hb, ha⟩
    · cases h
    · cases h
    · split at h
      · cases h
      · split at h
        · cases h
        · cases tie <;> cases h
  cases hc : readsBack u (c * step) den with
  | false => rfl
  | true =>
    rcases Nat.lt_or_ge below c with hlt | hge
    · have hin := readsBack_of_ge hu hpos hd hc (Nat.mul_le_mul_right step hlt) (by linarith)
      rw [hnone.2] at hin
      cases hin
    · have hin := readsBack_of_le hd hc (Nat.mul_le_mul_right step hge) (by linarith)
      rw [hnone.1] at hin
      cases hin

/-! ## Decimals in quarters -/

/-- a decimal in quarters of a unit, as a fraction -/
theorem decimal_quarters (hk : powerOfTen d.exponent = (step, den)) :
    d.digits * step = d.num * Single.oneUnits * 4 ∧ den = d.den := by
  obtain ⟨c, k⟩ := d
  cases k with
  | ofNat k =>
    cases hk
    refine ⟨?_, ?_⟩
    · show c * (Nat.pow 10 k * Nat.pow 2 151) = c * Nat.pow 10 k * Nat.pow 2 149 * 4
      rw [show Nat.pow 2 151 = Nat.pow 2 149 * 4 from rfl]
      ring
    · have hzero : (-Int.ofNat k).toNat = 0 := Int.toNat_of_nonpos (by simp)
      show 1 = Nat.pow 10 (-Int.ofNat k).toNat
      rw [hzero]
  | negSucc k =>
    cases hk
    refine ⟨?_, rfl⟩
    show c * Nat.pow 2 151 = c * 1 * Nat.pow 2 149 * 4
    rw [show Nat.pow 2 151 = Nat.pow 2 149 * 4 from rfl]
    ring

include hu hpos in
theorem readsAs_iff (hk : powerOfTen d.exponent = (step, den)) :
    d.ReadsAs u ↔ readsBack u (d.digits * step) den = true := by
  obtain ⟨hnum, hden⟩ := decimal_quarters hk
  have hd := (powerOfTen_pos hk).2
  rw [readsBack_iff_roundTo hu hpos hd, ← isNearest_iff (by omega) (by decide), hnum, hden,
    Nat.mul_comm 4, isNearest_mul (by decide)]
  rfl

/-- the distance of a decimal from the size, in quarters -/
theorem dist_quarters (hk : powerOfTen d.exponent = (step, den)) :
    Nat.dist (d.digits * step) (4 * u * den)
      = Nat.dist (d.num * Single.oneUnits) (u * d.den) * 4 := by
  obtain ⟨hnum, hden⟩ := decimal_quarters hk
  have hsize : 4 * u * den = u * d.den * 4 := by
    rw [hden]
    ring
  rw [hnum, hsize, Nat.dist_mul_right]

/-! ## The search ends with the shortest decimal -/

theorem powerOfTen_add {step' den' : Nat} (n : Nat) (hk : powerOfTen k = (step, den))
    (hk' : powerOfTen (k + n) = (step', den')) : step' * den = Nat.pow 10 n * step * den' := by
  induction n generalizing step' den' with
  | zero =>
    have hzero : k + (0 : Nat) = k := Int.add_zero k
    rw [hzero, hk] at hk'
    cases hk'
    show step * den = 1 * step * den
    rw [Nat.one_mul]
  | succ n ih =>
    rcases hmid : powerOfTen (k + n) with ⟨step'', den''⟩
    have hnext : k + (n + 1 : Nat) = k + n + 1 := by
      push_cast
      ring
    have hpow : Nat.pow 10 (n + 1) = 10 * Nat.pow 10 n :=
      (Nat.pow_succ 10 n).trans (Nat.mul_comm _ _)
    rw [hnext] at hk'
    have hten := powerOfTen_succ hmid hk'
    refine Nat.eq_of_mul_eq_mul_right (powerOfTen_pos hmid).2 ?_
    calc step' * den * den'' = step' * den'' * den := by ring
      _ = 10 * (step'' * den) * den' := by
        rw [hten]
        ring
      _ = Nat.pow 10 (n + 1) * step * den' * den'' := by
        rw [ih hmid, hpow]
        ring

include hu hpos in
/-- a multiple of a power of ten is one of a finer power -/
theorem readsAs_shift (n : Nat) :
    (⟨c, k + n⟩ : Decimal).ReadsAs u ↔ (⟨c * Nat.pow 10 n, k⟩ : Decimal).ReadsAs u := by
  rcases hk : powerOfTen k with ⟨step, den⟩
  rcases hk' : powerOfTen (k + n) with ⟨step', den'⟩
  have hd := (powerOfTen_pos hk).2
  have hd' := (powerOfTen_pos hk').2
  have hsame : c * step' * (4 * den) = c * Nat.pow 10 n * step * (4 * den') := by
    calc c * step' * (4 * den) = c * (step' * den) * 4 := by ring
      _ = c * Nat.pow 10 n * step * (4 * den') := by
        rw [powerOfTen_add n hk hk']
        ring
  rw [readsAs_iff (d := ⟨c, k + n⟩) hu hpos hk',
    readsAs_iff (d := ⟨c * Nat.pow 10 n, k⟩) hu hpos hk,
    readsBack_iff_roundTo hu hpos hd', readsBack_iff_roundTo hu hpos hd,
    roundTo_congr (by decide) (by omega) (by omega) hsame]

include hu hpos in
/-- a power of ten whose multiples do not read back has no coarser one with multiples that do -/
theorem not_readsAs_of_coarser (hk : powerOfTen k = (step, den))
    (h : ∀ c, readsBack u (c * step) den = false) {e : Decimal} (hle : k ≤ e.exponent) :
    ¬ e.ReadsAs u := by
  obtain ⟨c, k'⟩ := e
  obtain ⟨n, rfl⟩ : ∃ n : Nat, k' = k + n := Int.le.dest hle |>.imp fun _ h => h.symm
  rw [readsAs_shift hu hpos, readsAs_iff (d := ⟨c * Nat.pow 10 n, k⟩) hu hpos hk, h]
  exact Bool.false_ne_true

include hu hpos in
theorem readsBack_pos (h : readsBack u (c * step) den = true) (hd : 0 < den) : 0 < c := by
  have hin := (readsBack_iff.mp h).1.1
  have hlow : 0 < lowerEnd u * den := Nat.mul_pos (lowerEnd_pos hu hpos) hd
  by_contra! h0
  rw [Nat.le_zero.mp h0, Nat.zero_mul] at hin
  omega

include hu hpos in
/-- beyond the range of single precision nothing reads back -/
theorem not_readsAs_of_great (hlimit : u < Single.limitUnits) {e : Decimal}
    (h : 38 < e.exponent) : ¬ e.ReadsAs u := by
  refine not_readsAs_of_coarser hu hpos (k := 39) rfl (fun c => ?_) h
  rw [Bool.eq_false_iff]
  intro hin
  have hc := readsBack_pos hu hpos hin Nat.one_pos
  have hhigh := (readsBack_iff.mp hin).1.2
  have hs := spacing_le hu hpos
  have hgreat : Nat.pow 10 39 * Nat.pow 2 151 ≤ c * (Nat.pow 10 39 * Nat.pow 2 151) :=
    Nat.le_mul_of_pos_left _ hc
  have hend : upperEnd u * 1 < 6 * Single.limitUnits := by
    unfold upperEnd
    omega
  exact absurd (hgreat.trans_lt (hhigh.trans_lt hend)) (by decide)

include hu hpos in
/-- **The search ends with a shortest decimal.** -/
theorem EndsAt.isShortest {tie : Tie} (hlimit : u < Single.limitUnits) (h : EndsAt tie u c k) :
    IsShortest u ⟨c, k⟩ := by
  rcases hk : powerOfTen k with ⟨step, den⟩
  have hd := (powerOfTen_pos hk).2
  refine ⟨(readsAs_iff hu hpos hk).mpr (readsBack_of_multiple? hk h.multiple), ?_, ?_⟩
  · intro e he
    rcases (mem_exponents.mp h.mem).2.lt_or_eq with hlt | rfl
    · rcases hk' : powerOfTen (k + 1) with ⟨step', den'⟩
      exact not_readsAs_of_coarser hu hpos hk'
        (readsBack_of_multiple?_eq_none hu hpos hk' (h.coarser hlt)) he
    · exact not_readsAs_of_great hu hpos hlimit he
  · rintro ⟨c', k'⟩ hsame hreads
    obtain rfl : k' = k := hsame
    refine Nat.le_of_mul_le_mul_right (c := 4) ?_ (by decide)
    rw [← dist_quarters (d := ⟨c, k'⟩) hk, ← dist_quarters (d := ⟨c', k'⟩) hk]
    have hback := (readsAs_iff hu hpos hk).mp hreads
    have hexpand (n : Nat) : (n + 1) * step = n * step + step ∧
        (2 * n + 1) * step = 2 * (n * step) + step := ⟨by ring, by ring⟩
    show Nat.dist (c * step) _ ≤ Nat.dist (c' * step) _
    obtain ⟨below, hlow, hhigh, ⟨rfl, -, hnear⟩ | ⟨rfl, -, hnear⟩⟩ :=
      multiple?_eq_some hk h.multiple
    · obtain ⟨hnext, htwice⟩ := hexpand c
      rcases Nat.lt_or_ge c c' with hlt | hge
      · have hstep : (c + 1) * step ≤ c' * step := Nat.mul_le_mul_right step hlt
        have hhalf := hnear (readsBack_of_ge hu hpos hd hback hstep hhigh)
        unfold Nat.dist
        omega
      · have hstep := Nat.mul_le_mul_right step hge
        unfold Nat.dist
        omega
    · obtain ⟨hnext, htwice⟩ := hexpand below
      rcases Nat.lt_or_ge below c' with hlt | hge
      · have hstep : (below + 1) * step ≤ c' * step := Nat.mul_le_mul_right step hlt
        unfold Nat.dist
        omega
      · have hstep := Nat.mul_le_mul_right step hge
        have hhalf := hnear (readsBack_of_le hd hback hstep hlow)
        unfold Nat.dist
        omega

/-! ## Where a shortest decimal lies -/

section
variable (h : IsShortest u d)
include hu hpos h

theorem IsShortest.mem (hlimit : u < Single.limitUnits) : d.exponent ∈ exponents := by
  refine mem_exponents.mpr ⟨?_, ?_⟩
  · by_contra! hfine
    have hfinest : multiple? .even u (-45) ≠ none := multiple?_finest hu hpos
    generalize (-45 : Int) = k at *
    rcases hk : powerOfTen k with ⟨step, den⟩
    obtain ⟨c, hc⟩ := Option.ne_none_iff_exists'.mp hfinest
    refine h.coarsest ⟨c, k⟩ hfine ?_
    exact (readsAs_iff hu hpos hk).mpr (readsBack_of_multiple? hk hc)
  · by_contra! hgreat
    exact not_readsAs_of_great hu hpos hlimit hgreat h.reads

omit h in
/-- what lies between two multiples that read back reads back as well -/
theorem readsAs_of_between {l n m : Nat} (hl : (⟨l, k⟩ : Decimal).ReadsAs u)
    (hm : (⟨m, k⟩ : Decimal).ReadsAs u) (hln : l ≤ n) (hnm : n ≤ m) :
    (⟨n, k⟩ : Decimal).ReadsAs u := by
  rcases hk : powerOfTen k with ⟨step, den⟩
  rw [readsAs_iff (d := ⟨l, k⟩) hu hpos hk, readsBack_iff] at hl
  rw [readsAs_iff (d := ⟨m, k⟩) hu hpos hk, readsBack_iff] at hm
  have hlow := Nat.mul_le_mul_right step hln
  have hhigh := Nat.mul_le_mul_right step hnm
  rw [readsAs_iff (d := ⟨n, k⟩) hu hpos hk, readsBack_iff]
  exact ⟨⟨hl.1.1.trans hlow, hhigh.trans hm.1.2⟩,
    fun hodd => ⟨(hl.2 hodd).1.trans_le hlow, hhigh.trans_lt (hm.2 hodd).2⟩⟩

/-- no decimal that reads back has fewer digits: the power of ten between it and a shortest one
would read back as well -/
theorem IsShortest.length_le {e : Decimal} (he : e.ReadsAs u) :
    (numeral d.digits).length ≤ (numeral e.digits).length := by
  obtain ⟨c, k⟩ := e
  show _ ≤ (numeral c).length
  by_contra! hless
  obtain ⟨i, hi⟩ : ∃ i : Nat, d.exponent = k + i := by
    have hle : k ≤ d.exponent := by
      by_contra! hlt
      exact h.coarsest _ hlt he
    exact Int.le.dest hle |>.imp fun _ h => h.symm
  obtain ⟨n, hn⟩ : ∃ n, (numeral d.digits).length = n + 1 :=
    Nat.exists_eq_add_one_of_ne_zero (by omega)
  have hpositive : 0 < (numeral c).length := List.length_pos_iff.mpr (numeral_ne_nil c)
  have hzero : d.digits ≠ 0 := by
    rcases hk : powerOfTen d.exponent with ⟨step, den⟩
    exact (readsBack_pos hu hpos ((readsAs_iff hu hpos hk).mp h.reads) (powerOfTen_pos hk).2).ne'
  have hbelow : c ≤ Nat.pow 10 n * Nat.pow 10 i := by
    have hc : c < Nat.pow 10 n :=
      (Decimal.lt_pow_length c).trans_le (Nat.pow_le_pow_right (by decide) (by omega))
    exact hc.le.trans (Nat.le_mul_of_pos_right _ (Nat.pow_pos (by decide)))
  have habove : Nat.pow 10 n * Nat.pow 10 i ≤ d.digits * Nat.pow 10 i :=
    Nat.mul_le_mul_right _ (Decimal.pow_length_le hzero (by omega))
  have hd : (⟨d.digits, k + i⟩ : Decimal).ReadsAs u := by
    rw [← hi]
    exact h.reads
  have hbetween := readsAs_of_between hu hpos he ((readsAs_shift hu hpos i).mp hd) hbelow habove
  have hpower : Nat.pow 10 n * Nat.pow 10 i = 1 * Nat.pow 10 (n + i) := by
    rw [Nat.one_mul]
    exact (Nat.pow_add 10 n i).symm
  rw [hpower] at hbetween
  refine h.coarsest ⟨1, k + (n + i : Nat)⟩ ?_ ((readsAs_shift hu hpos _).mpr hbetween)
  show d.exponent < k + (n + i : Nat)
  omega

section
variable (hk : powerOfTen d.exponent = (step, den))
include hk

theorem IsShortest.readsBack : Number.readsBack u (d.digits * step) den = true :=
  (readsAs_iff hu hpos hk).mp h.reads

/-- no other multiple that reads back is nearer -/
theorem IsShortest.dist_le {n : Nat} (hn : Number.readsBack u (n * step) den = true) :
    Nat.dist (d.digits * step) (4 * u * den) ≤ Nat.dist (n * step) (4 * u * den) := by
  have hnear := h.nearest ⟨n, d.exponent⟩ rfl
    ((readsAs_iff (d := ⟨n, d.exponent⟩) hu hpos hk).mpr hn)
  rw [dist_quarters hk, dist_quarters (d := ⟨n, d.exponent⟩) hk]
  exact Nat.mul_le_mul_right 4 hnear

/-- if the power of ten is finer than the upper part of the interval, then the decimal comes no
closer to the upper end than halfway -/
theorem IsShortest.le (hfine : 4 * u * den + step < upperEnd u * den) :
    2 * (d.digits * step) ≤ (4 * u + upperEnd u) * den := by
  obtain ⟨hstep, hd⟩ := powerOfTen_pos hk
  have hback := h.readsBack hu hpos hk
  have hend : upperEnd u * den = 4 * u * den + 2 * (spacing u * den) := by
    unfold upperEnd
    ring
  have hsum : (4 * u + upperEnd u) * den = 4 * u * den + upperEnd u * den := Nat.add_mul ..
  rcases Nat.lt_or_ge (4 * u * den) (d.digits * step) with hlt | hge
  · obtain ⟨n, hn⟩ : ∃ n, d.digits = n + 1 :=
      Nat.exists_eq_add_one_of_ne_zero (readsBack_pos hu hpos hback hd).ne'
    have hnext : d.digits * step = n * step + step := by rw [hn, Nat.succ_mul]
    cases hin : Number.readsBack u (n * step) den with
    | true =>
      have hnear := h.dist_le hu hpos hk hin
      unfold Nat.dist at hnear
      omega
    | false =>
      have hbelow : n * step ≤ 4 * u * den := by
        by_contra! hgt
        rw [readsBack_of_ge hu hpos hd hback (by omega) hgt.le] at hin
        cases hin
      have hout := le_lowerEnd_of_not_readsBack hd hin hbelow
      have hlow := Nat.mul_le_mul_right den (lowerEnd_add_spacing_le hu hpos)
      rw [Nat.add_mul] at hlow
      omega
  · omega

/-- the same below -/
theorem IsShortest.ge (hfine : lowerEnd u * den + step < 4 * u * den) :
    (4 * u + lowerEnd u) * den ≤ 2 * (d.digits * step) := by
  obtain ⟨hstep, hd⟩ := powerOfTen_pos hk
  have hback := h.readsBack hu hpos hk
  have hend : upperEnd u * den = 4 * u * den + 2 * (spacing u * den) := by
    unfold upperEnd
    ring
  have hsum : (4 * u + lowerEnd u) * den = 4 * u * den + lowerEnd u * den := Nat.add_mul ..
  rcases Nat.lt_or_ge (d.digits * step) (4 * u * den) with hlt | hge
  · have hnext : (d.digits + 1) * step = d.digits * step + step := Nat.succ_mul ..
    cases hin : Number.readsBack u ((d.digits + 1) * step) den with
    | true =>
      have hnear := h.dist_le hu hpos hk hin
      unfold Nat.dist at hnear
      omega
    | false =>
      have habove : 4 * u * den ≤ (d.digits + 1) * step := by
        by_contra! hless
        rw [readsBack_of_le hd hback (by omega) hless.le] at hin
        cases hin
      have hout := upperEnd_le_of_not_readsBack hu hpos hd hin habove
      have hlow := Nat.mul_le_mul_right den (le_lowerEnd u)
      rw [Nat.add_mul, Nat.mul_assoc 2] at hlow
      omega
  · omega

end

end

end

end Number

end LineEditor
