import LineEditor.Proofs.Nearest

/-!
# The shortest decimal

The interval of a size is at least three quarters of a unit wide, so a power of ten with no multiple
in it is no finer than that.  Hence the search always ends, and it ends with few digits.

* `multiple?_eq_some`   which multiple is taken;
* `endsAt_shortest`     the search;
* `EndsAt.lt`           the number of digits.
-/

namespace LineEditor.Number

section
variable {tie : Tie} {u c num den : Nat} {k : Int}

/-! ## The ends of an interval -/

theorem spacing_le (hu : Significant 24 u) (hpos : 0 < u) : spacing u ≤ u :=
  Nat.le_of_dvd hpos hu.dvd

theorem lowerEnd_add_spacing_le (hu : Significant 24 u) (hpos : 0 < u) :
    lowerEnd u + spacing u ≤ 4 * u := by
  have hs := spacing_le hu hpos
  unfold lowerEnd
  split <;> omega

theorem lowerEnd_pos (hu : Significant 24 u) (hpos : 0 < u) : 0 < lowerEnd u := by
  have hs := spacing_le hu hpos
  unfold lowerEnd
  split <;> omega

/-- the upper end has at most 25 binary digits, and it is as far from the size as its last digit is
worth -/
theorem upperEnd_eq (hu : Significant 24 u) : ∃ m j, (m < Nat.pow 2 25 ∧ m % 2 = 1) ∧
    upperEnd u = m * Nat.pow 2 j ∧ 4 * u + Nat.pow 2 j = upperEnd u := by
  obtain ⟨k, hk⟩ : spacing u ∣ u := hu.dvd
  have hnext : u + spacing u ≤ 16777216 * spacing u := add_spacing_le hu
  have hpow : Nat.pow 2 (surplus 24 u + 1) = 2 * spacing u :=
    (Nat.pow_succ 2 _).trans (Nat.mul_comm _ _)
  refine ⟨2 * k + 1, surplus 24 u + 1, ⟨?_, by omega⟩, ?_, ?_⟩
  · have hk24 : k + 1 ≤ 16777216 := by
      refine Nat.le_of_mul_le_mul_right (c := spacing u) ?_ (spacing_pos u)
      linarith
    show 2 * k + 1 < 33554432
    omega
  · rw [hpow, upperEnd]
    linarith
  · rw [hpow, upperEnd]

/-- so does the lower end -/
theorem lowerEnd_eq (hu : Significant 24 u) (hpos : 0 < u) :
    ∃ m j, (m < Nat.pow 2 25 ∧ m % 2 = 1) ∧
    lowerEnd u = m * Nat.pow 2 j ∧ lowerEnd u + Nat.pow 2 j = 4 * u := by
  have hs := spacing_le hu hpos
  by_cases h : u = Nat.pow 2 23 * spacing u ∧ 1 < spacing u
  · have hend : lowerEnd u = 4 * u - spacing u := if_pos h
    have hu23 : u = 8388608 * spacing u := h.1
    refine ⟨33554431, surplus 24 u, ⟨by decide, rfl⟩, ?_, ?_⟩
    · show _ = 33554431 * spacing u
      omega
    · show _ + spacing u = _
      omega
  · have hend : lowerEnd u = 4 * u - 2 * spacing u := if_neg h
    obtain ⟨m, j, ⟨hm, hodd⟩, heq, hj⟩ := upperEnd_eq hu
    have hpow : Nat.pow 2 j = 2 * spacing u := by
      unfold upperEnd at hj
      omega
    have hm2 : 2 ≤ m := by
      by_contra! hlt
      have hone : m = 1 := by omega
      rw [hone, Nat.one_mul] at heq
      omega
    refine ⟨m - 2, j, ⟨by omega, by omega⟩, ?_, by omega⟩
    rw [Nat.sub_mul, ← heq, hend, hpow, upperEnd]
    omega

/-! ## Multiples of a power of ten -/

theorem powerOfTen_pos {step : Nat} (hk : powerOfTen k = (step, den)) : 0 < step ∧ 0 < den := by
  cases k with
  | ofNat k =>
    cases hk
    exact ⟨Nat.mul_pos (Nat.pow_pos (by decide)) (Nat.two_pow_pos 151), Nat.one_pos⟩
  | negSucc k =>
    cases hk
    exact ⟨Nat.two_pow_pos 151, Nat.pow_pos (by decide)⟩

theorem le_lowerEnd_of_not_readsBack (hd : 0 < den) (h : readsBack u num den = false)
    (hle : num ≤ 4 * u * den) : num ≤ lowerEnd u * den := by
  by_contra! hlt
  have hup : 4 * u * den < upperEnd u * den :=
    Nat.mul_lt_mul_of_pos_right (Nat.lt_add_of_pos_right (by have := spacing_pos u; omega)) hd
  have hin : readsBack u num den = true :=
    readsBack_iff.mpr ⟨⟨hlt.le, (hle.trans_lt hup).le⟩, fun _ => ⟨hlt, hle.trans_lt hup⟩⟩
  rw [h] at hin
  cases hin

theorem upperEnd_le_of_not_readsBack (hu : Significant 24 u) (hpos : 0 < u) (hd : 0 < den)
    (h : readsBack u num den = false) (hle : 4 * u * den ≤ num) : upperEnd u * den ≤ num := by
  by_contra! hlt
  have hs := spacing_pos u
  have hend := lowerEnd_add_spacing_le hu hpos
  have hlow : lowerEnd u * den < 4 * u * den := Nat.mul_lt_mul_of_pos_right (by omega) hd
  have hin : readsBack u num den = true :=
    readsBack_iff.mpr ⟨⟨(hlow.trans_le hle).le, hlt.le⟩, fun _ => ⟨hlow.trans_le hle, hlt⟩⟩
  rw [h] at hin
  cases hin

section
variable {step : Nat} (hk : powerOfTen k = (step, den))
include hk

/-- one of the two multiples around the size is taken, and not the farther one, unless only that one
reads back -/
theorem multiple?_eq_some (h : multiple? tie u k = some c) :
    ∃ below, below * step ≤ 4 * u * den ∧ 4 * u * den ≤ (below + 1) * step ∧
      ((c = below ∧ readsBack u (below * step) den = true ∧
          (readsBack u ((below + 1) * step) den = true →
            2 * (4 * u * den) ≤ (2 * below + 1) * step)) ∨
        (c = below + 1 ∧ readsBack u ((below + 1) * step) den = true ∧
          (readsBack u (below * step) den = true →
            (2 * below + 1) * step ≤ 2 * (4 * u * den)))) := by
  have hsplit := Nat.div_add_mod (4 * u * den) step
  have hmod := Nat.mod_lt (4 * u * den) (powerOfTen_pos hk).1
  simp only [multiple?, hk] at h
  generalize 4 * u * den / step = below at *
  generalize 4 * u * den % step = past at *
  generalize 4 * u * den = size at *
  refine ⟨below, by linarith, by linarith, ?_⟩
  have hbelow : 2 * past ≤ step → 2 * size ≤ (2 * below + 1) * step := fun h => by linarith
  have habove : step ≤ 2 * past → (2 * below + 1) * step ≤ 2 * size := fun h => by linarith
  split at h
  · cases h
  · rename_i hb ha
    cases h
    exact .inl ⟨rfl, hb, fun h' => by rw [ha] at h'; cases h'⟩
  · rename_i hb ha
    cases h
    exact .inr ⟨rfl, ha, fun h' => by rw [hb] at h'; cases h'⟩
  · rename_i hb ha
    split at h
    · cases h
      exact .inl ⟨rfl, hb, fun _ => hbelow (by omega)⟩
    · split at h
      · cases h
        exact .inr ⟨rfl, ha, fun _ => habove (by omega)⟩
      · -- both multiples are at the same distance
        have htie : 2 * past = step := by omega
        cases tie with
        | up =>
          cases h
          exact .inr ⟨rfl, ha, fun _ => habove htie.ge⟩
        | even =>
          simp only at h
          split at h
          · cases h
            exact .inl ⟨rfl, hb, fun _ => hbelow htie.le⟩
          · cases h
            exact .inr ⟨rfl, ha, fun _ => habove htie.ge⟩

theorem readsBack_of_multiple? (h : multiple? tie u k = some c) :
    readsBack u (c * step) den = true := by
  obtain ⟨below, -, -, ⟨rfl, hin, -⟩ | ⟨rfl, hin, -⟩⟩ := multiple?_eq_some hk h
  · exact hin
  · exact hin

/-- a power of ten with no multiple in the interval is at least as great as the interval is wide -/
theorem le_of_multiple?_eq_none (hu : Significant 24 u) (hpos : 0 < u)
    (h : multiple? tie u k = none) : 3 * spacing u * den ≤ step := by
  obtain ⟨hstep, hd⟩ := powerOfTen_pos hk
  have hsplit := Nat.div_add_mod (4 * u * den) step
  have hmod := Nat.mod_lt (4 * u * den) hstep
  simp only [multiple?, hk] at h
  generalize 4 * u * den / step = below at *
  generalize 4 * u * den % step = past at *
  split at h
  · rename_i hb ha
    have hlow := le_lowerEnd_of_not_readsBack hd hb (by linarith)
    have hhigh := upperEnd_le_of_not_readsBack hu hpos hd ha (by linarith)
    have hend := Nat.mul_le_mul_right den (lowerEnd_add_spacing_le hu hpos)
    unfold upperEnd at hhigh
    linarith
  · cases h
  · cases h
  · split at h
    · cases h
    · split at h
      · cases h
      · cases tie <;> cases h

end

/-! ## The search -/

theorem mem_exponents : k ∈ exponents ↔ -45 ≤ k ∧ k ≤ 38 := by
  simp only [exponents, List.mem_map, List.mem_range]
  constructor
  · rintro ⟨i, hi, rfl⟩
    omega
  · rintro ⟨hlo, hhi⟩
    exact ⟨(38 - k).toNat, by omega, by omega⟩

theorem exponents_decreasing : exponents.Pairwise (· > ·) :=
  List.pairwise_map.mpr (List.pairwise_lt_range.imp fun _ => by omega)

/-- the finest power of ten has a multiple in the interval of every size -/
theorem multiple?_finest (hu : Significant 24 u) (hpos : 0 < u) : multiple? tie u (-45) ≠ none := by
  intro hnone
  have hwide : 3 * spacing u * Nat.pow 10 45 ≤ Nat.pow 2 151 :=
    le_of_multiple?_eq_none rfl hu hpos hnone
  have hs : 3 * Nat.pow 10 45 ≤ 3 * spacing u * Nat.pow 10 45 :=
    Nat.mul_le_mul_right _ (by have := spacing_pos u; omega)
  exact absurd (hs.trans hwide) (by decide)

/-- the decimal `c · 10 ^ k` is one that the search can end with: it is a multiple that reads back,
and the next coarser power of ten has none -/
structure EndsAt (tie : Tie) (u c : Nat) (k : Int) : Prop where
  mem : k ∈ exponents
  multiple : multiple? tie u k = some c
  coarser : k < 38 → multiple? tie u (k + 1) = none

theorem endsAt_shortest (hu : Significant 24 u) (hpos : 0 < u) :
    EndsAt tie u (shortest tie u).digits (shortest tie u).exponent := by
  cases hfind : exponents.findSome? fun k => (multiple? tie u k).map fun c => (⟨c, k⟩ : Decimal) with
  | none =>
    have hnone := List.findSome?_eq_none_iff.mp hfind (-45) (mem_exponents.mpr (by decide))
    exact absurd (Option.map_eq_none_iff.mp hnone) (multiple?_finest hu hpos)
  | some d =>
    obtain ⟨before, k, behind, hsplit, hd, hbefore⟩ := List.findSome?_eq_some_iff.mp hfind
    obtain ⟨c, hc, rfl⟩ := Option.map_eq_some_iff.mp hd
    have hshort : shortest tie u = ⟨c, k⟩ := by
      rw [shortest, hfind]
      rfl
    have hmem : k ∈ exponents := by
      rw [hsplit]
      simp
    rw [hshort]
    refine ⟨hmem, hc, fun (hk : k < 38) => ?_⟩
    -- the next coarser power has been tried before, as the exponents decrease
    have hnext : k + 1 ∈ exponents := mem_exponents.mpr (by have := mem_exponents.mp hmem; omega)
    have hdecr := exponents_decreasing
    rw [hsplit] at hdecr hnext
    have hless := (List.pairwise_cons.mp (List.pairwise_append.mp hdecr).2.1).1
    have hbehind : k + 1 ∉ k :: behind := by
      intro hm
      rcases List.mem_cons.mp hm with heq | hm
      · omega
      · have := hless _ hm
        omega
    have hin : k + 1 ∈ before := (List.mem_append.mp hnext).resolve_right hbehind
    exact Option.map_eq_none_iff.mp (hbefore _ hin)

theorem powerOfTen_succ {step step' den' : Nat} (hk : powerOfTen k = (step, den))
    (hk' : powerOfTen (k + 1) = (step', den')) : step' * den = 10 * step * den' := by
  match k with
  | .ofNat n =>
    cases hk
    cases hk'
    show Nat.pow 10 n * 10 * Nat.pow 2 151 * 1 = 10 * (Nat.pow 10 n * Nat.pow 2 151) * 1
    ring
  | .negSucc 0 =>
    cases hk
    cases hk'
    decide
  | .negSucc (n + 1) =>
    cases hk
    cases hk'
    show Nat.pow 2 151 * (Nat.pow 10 (n + 1) * 10) = 10 * Nat.pow 2 151 * Nat.pow 10 (n + 1)
    ring

theorem upperEnd_le (hu : Significant 24 u) : upperEnd u ≤ 67108864 * spacing u := by
  have hnext : u + spacing u ≤ 16777216 * spacing u := add_spacing_le hu
  unfold upperEnd
  omega

/-- the search ends with a decimal of few digits -/
theorem EndsAt.lt (hu : Significant 24 u) (hpos : 0 < u) (hlimit : u < Single.limitUnits)
    (h : EndsAt tie u c k) : c < Nat.pow 2 28 := by
  rcases hk : powerOfTen k with ⟨step, den⟩
  obtain ⟨hstep, hd⟩ := powerOfTen_pos hk
  have hin : c * step ≤ upperEnd u * den :=
    (readsBack_iff.mp (readsBack_of_multiple? hk h.multiple)).1.2
  rcases (mem_exponents.mp h.mem).2.lt_or_eq with hlt | rfl
  · -- the next coarser power of ten is wider than the interval
    rcases hk' : powerOfTen (k + 1) with ⟨step', den'⟩
    have hd' := (powerOfTen_pos hk').2
    have hwide := le_of_multiple?_eq_none hk' hu hpos (h.coarser hlt)
    have hten := powerOfTen_succ hk hk'
    have hcoarse : 3 * spacing u * den ≤ 10 * step := by
      refine Nat.le_of_mul_le_mul_right (c := den') ?_ hd'
      calc 3 * spacing u * den * den' = 3 * spacing u * den' * den := by ring
        _ ≤ step' * den := Nat.mul_le_mul_right den hwide
        _ = 10 * step * den' := hten
    have hend := Nat.mul_le_mul_right den (upperEnd_le hu)
    show c < 268435456
    refine Nat.lt_of_mul_lt_mul_right (a := step) ?_
    linarith
  · cases hk
    have hs := spacing_le hu hpos
    have hfew : c * (Nat.pow 10 38 * Nat.pow 2 151) < 6 * Single.limitUnits :=
      calc c * (Nat.pow 10 38 * Nat.pow 2 151) ≤ upperEnd u * 1 := hin
        _ = 4 * u + 2 * spacing u := Nat.mul_one _
        _ < 6 * Single.limitUnits := by omega
    refine Nat.lt_of_mul_lt_mul_right (a := Nat.pow 10 38 * Nat.pow 2 151) (hfew.trans ?_)
    decide

theorem EndsAt.pos (hu : Significant 24 u) (hpos : 0 < u) (h : EndsAt tie u c k) : 0 < c := by
  rcases hk : powerOfTen k with ⟨step, den⟩
  have hin := (readsBack_iff.mp (readsBack_of_multiple? hk h.multiple)).1.1
  have hlow : 0 < lowerEnd u * den := Nat.mul_pos (lowerEnd_pos hu hpos) (powerOfTen_pos hk).2
  by_contra! h0
  rw [Nat.le_zero.mp h0, Nat.zero_mul] at hin
  omega

end

end LineEditor.Number
