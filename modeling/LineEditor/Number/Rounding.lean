/-!
# Rounding to a number of binary digits

A quotient of whole numbers is rounded to the nearest number with at most `p` significant binary
digits, and a half goes to the even neighbour. No intermediate result is rounded.
-/

namespace LineEditor.Number

/-- the quotient `num / den` to the nearest whole number, a half to the even one -/
def roundDiv (num den : Nat) : Nat :=
  if den < 2 * (num % den) ∨ (2 * (num % den) = den ∧ num / den % 2 = 1) then num / den + 1
  else num / den

theorem le_roundDiv (num den : Nat) : num / den ≤ roundDiv num den := by
  unfold roundDiv; split <;> omega

theorem roundDiv_le (num den : Nat) : roundDiv num den ≤ num / den + 1 := by
  unfold roundDiv; split <;> omega

/-- the number of binary digits of `n` behind the first `p` -/
def surplus (p n : Nat) : Nat := n.log2 + 1 - p

/-- the quotient `num / den` to the nearest number with at most `p` significant binary digits -/
def roundTo (p num den : Nat) : Nat :=
  let unit := Nat.pow 2 (surplus p (num / den))
  roundDiv num (den * unit) * unit

/-- a number that `p` significant binary digits can write -/
def Significant (p n : Nat) : Prop := ∃ m s, m < Nat.pow 2 p ∧ n = m * Nat.pow 2 s

theorem lt_pow_surplus (p n : Nat) : n < Nat.pow 2 (p + surplus p n) :=
  Nat.lt_of_lt_of_le Nat.lt_log2_self
    (Nat.pow_le_pow_right (by decide) (by unfold surplus; omega))

theorem div_unit_lt (p n : Nat) : n / Nat.pow 2 (surplus p n) < Nat.pow 2 p := by
  refine (Nat.div_lt_iff_lt_mul (Nat.two_pow_pos (surplus p n))).mpr ?_
  exact Nat.lt_of_lt_of_eq (lt_pow_surplus p n) (Nat.pow_add 2 p (surplus p n))

theorem significant_roundTo {p : Nat} (hp : 0 < p) (num den : Nat) :
    Significant p (roundTo p num den) := by
  have hq : num / (den * Nat.pow 2 (surplus p (num / den))) < Nat.pow 2 p := by
    rw [← Nat.div_div_eq_div_mul]
    exact div_unit_lt p (num / den)
  have hr : roundDiv num (den * Nat.pow 2 (surplus p (num / den))) ≤ Nat.pow 2 p :=
    Nat.le_trans (roundDiv_le _ _) hq
  cases Nat.lt_or_eq_of_le hr with
  | inl h => exact ⟨_, _, h, rfl⟩
  | inr h =>
    refine ⟨Nat.pow 2 (p - 1), surplus p (num / den) + 1, ?_, ?_⟩
    · exact Nat.pow_lt_pow_right (by decide) (by omega)
    · show roundDiv num (den * Nat.pow 2 (surplus p (num / den))) *
        Nat.pow 2 (surplus p (num / den)) = _
      rw [h]
      refine (Nat.pow_add 2 p (surplus p (num / den))).symm.trans (Eq.trans ?_ (Nat.pow_add 2 _ _))
      congr 1
      omega

end LineEditor.Number
