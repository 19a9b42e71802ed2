import LineEditor.Number.Notation
import LineEditor.Text.Numeral
import Mathlib.Data.List.Basic
import Mathlib.Data.List.Induction
import Mathlib.Tactic.Ring

/-!
# Runs of digits

What digits are worth behind other digits, and which runs of digits are numerals: every run is a
numeral with zeros in front of it.

* `continued`                  the number that digits make behind others;
* `exists_zeros_numeral`       what a run of digits looks like;
* `readNumeral?_eq_some_iff`   the texts that are read as a number.
-/

namespace LineEditor

/-! ## Digits -/

/-- the number that a run of digits makes behind the digits of `n` -/
def continued (n : Nat) (ds : Text) : Nat := ds.foldl (fun n d => 10 * n + digitValue d) n

theorem continued_cons (n : Nat) (d : Char) (ds : Text) :
    continued n (d :: ds) = continued (10 * n + digitValue d) ds := by
  unfold continued
  rw [List.foldl_cons]

theorem continued_append (n : Nat) (ds es : Text) :
    continued n (ds ++ es) = continued (continued n ds) es := List.foldl_append

theorem le_continued (n : Nat) (ds : Text) : n ≤ continued n ds := by
  induction ds generalizing n with
  | nil => exact Nat.le_refl n
  | cons d ds ih =>
    rw [continued_cons]
    exact Nat.le_trans (by omega) (ih _)

theorem continued_zeros (n e : Nat) : continued n (zeros e) = n * Nat.pow 10 e := by
  induction e generalizing n with
  | zero => exact (Nat.mul_one n).symm
  | succ e ih =>
    have hz : digitValue '0' = 0 := rfl
    have hpow : Nat.pow 10 (e + 1) = Nat.pow 10 e * 10 := rfl
    rw [zeros, List.replicate_succ, continued_cons, ← zeros, ih, hz, hpow]
    ring

theorem continued_zero_cons (ds : Text) : continued 0 ('0' :: ds) = continued 0 ds := by
  rw [continued_cons]
  rfl

theorem continued_numeral (n : Nat) : continued 0 (numeral n) = n := Nat.ofDigitChars_ten_toDigits

/-- only digits -/
def AllDigits (ds : Text) : Prop := ∀ c ∈ ds, c.isDigit = true

instance (ds : Text) : Decidable (AllDigits ds) :=
  decidable_of_iff (ds.all Char.isDigit = true) List.all_eq_true

theorem allDigits_numeral (n : Nat) : AllDigits (numeral n) := fun _ h =>
  Nat.isDigit_of_mem_toDigits (by decide) (by decide) h

theorem allDigits_zeros (n : Nat) : AllDigits (zeros n) := fun c h => by
  rw [List.eq_of_mem_replicate h]
  rfl

theorem AllDigits.append {ds es : Text} (h : AllDigits ds) (h' : AllDigits es) :
    AllDigits (ds ++ es) := fun c hc => (List.mem_append.mp hc).elim (h c) (h' c)

theorem numeral_ne_nil (n : Nat) : numeral n ≠ [] := Nat.toDigits_ne_nil

theorem numeral_of_ge {n : Nat} (h : 10 ≤ n) :
    numeral n = numeral (n / 10) ++ [(n % 10).digitChar] :=
  Nat.toDigits_of_base_le (by decide) h

/-- the numeral of a positive number does not start with a zero -/
theorem head?_numeral {n : Nat} (h : 0 < n) : (numeral n).head? ≠ some '0' := by
  induction n using Nat.strongRecOn with
  | ind n ih =>
    rcases Nat.lt_or_ge n 10 with hlt | hge
    · exact (by decide : ∀ m < 10, 0 < m → (numeral m).head? ≠ some '0') n hlt h
    · rw [numeral_of_ge hge, List.head?_append_of_ne_nil (numeral _) (numeral_ne_nil _)]
      exact ih (n / 10) (by omega) (by omega)

/-! ## Runs of digits -/

theorem digitChar_digitValue {d : Char} (h : d.isDigit = true) :
    digitValue d < 10 ∧ (digitValue d).digitChar = d := by
  have hrange : 48 ≤ d.toNat ∧ d.toNat ≤ 57 := by
    simpa [Char.isDigit, UInt32.le_iff_toNat_le] using h
  have hvalue : digitValue d = d.toNat - 48 := rfl
  have hlt : digitValue d < 10 := by omega
  refine ⟨hlt, Char.toNat_inj.mp ?_⟩
  rw [Nat.toNat_digitChar_of_lt_ten hlt]
  omega

/-- digits without a leading zero are the numeral of their value -/
theorem numeral_digitsValue {ds : Text} (h : AllDigits ds) (hne : ds ≠ [])
    (hzero : ds.head? ≠ some '0') : numeral (digitsValue ds) = ds := by
  induction ds using List.reverseRecOn with
  | nil => exact absurd rfl hne
  | append_singleton ds d ih =>
    obtain ⟨hlt, hchar⟩ := digitChar_digitValue (h d (by simp))
    have hlast : numeral (digitValue d) = [d] := by
      show Nat.toDigits 10 (digitValue d) = [d]
      rw [Nat.toDigits_of_lt_base hlt, hchar]
    rw [digitsValue_concat]
    cases ds with
    | nil =>
      rw [digitsValue_nil, Nat.mul_zero, Nat.zero_add]
      exact hlast
    | cons d' ds' =>
      have hinit := ih (fun c hc => h c (List.mem_append_left [d] hc)) (List.cons_ne_nil d' ds') hzero
      have hpos : 0 < digitsValue (d' :: ds') := by
        refine Nat.pos_of_ne_zero fun hnil => hzero ?_
        rw [List.cons_append, List.head?_cons, ← List.head?_cons, ← hinit, hnil]
        rfl
      show Nat.toDigits 10 (10 * digitsValue (d' :: ds') + digitValue d) = d' :: ds' ++ [d]
      rw [← Nat.toDigits_append_toDigits (by decide) hpos hlt]
      show numeral (digitsValue (d' :: ds')) ++ numeral (digitValue d) = d' :: ds' ++ [d]
      rw [hinit, hlast]

/-- every run of digits is a numeral with zeros in front -/
theorem exists_zeros_numeral {ds : Text} (h : AllDigits ds) (hne : ds ≠ []) :
    ∃ z, ds = zeros z ++ numeral (digitsValue ds) := by
  induction ds with
  | nil => exact absurd rfl hne
  | cons d ds ih =>
    by_cases hd : d = '0'
    · subst hd
      rcases eq_or_ne ds [] with rfl | hds
      · exact ⟨0, rfl⟩
      · obtain ⟨z, hz⟩ := ih (fun c hc => h c (List.mem_cons_of_mem _ hc)) hds
        refine ⟨z + 1, ?_⟩
        show '0' :: ds = '0' :: (zeros z ++ numeral (continued 0 ('0' :: ds)))
        rw [continued_zero_cons]
        exact congrArg _ hz
    · refine ⟨0, (numeral_digitsValue h hne ?_).symm⟩
      rintro heq
      exact hd (Option.some.inj heq)

theorem readNumeral?_eq_some_iff {limit n : Nat} {s : Text} :
    readNumeral? limit s = some n ↔
      n ≤ limit ∧ ∃ ds, (s = ds ∨ s = '+' :: ds) ∧ ds ≠ [] ∧ AllDigits ds ∧ digitsValue ds = n := by
  have hread : ∀ ds : Text,
      (if ds ≠ [] ∧ ds.all Char.isDigit ∧ digitsValue ds ≤ limit then some (digitsValue ds) else none) =
        some n ↔ n ≤ limit ∧ ds ≠ [] ∧ AllDigits ds ∧ digitsValue ds = n := by
    intro ds
    rw [Option.ite_none_right_eq_some, Option.some.injEq]
    constructor
    · rintro ⟨⟨hne, hds, hle⟩, rfl⟩
      exact ⟨hle, hne, List.all_eq_true.mp hds, rfl⟩
    · rintro ⟨hle, hne, hds, rfl⟩
      exact ⟨⟨hne, List.all_eq_true.mpr hds, hle⟩, rfl⟩
  unfold readNumeral?
  split
  · rename_i hplus
    obtain ⟨t, rfl⟩ : ∃ t, s = '+' :: t := by
      cases s with
      | nil => cases hplus
      | cons c t => exact ⟨t, by rw [Option.some.inj hplus]⟩
    rw [List.tail_cons, hread]
    constructor
    · rintro ⟨hle, h⟩
      exact ⟨hle, t, .inr rfl, h⟩
    · rintro ⟨hle, ds, rfl | hds, hne, hall, hval⟩
      · exact absurd (hall '+' (List.mem_cons_self ..)) (by decide)
      · cases hds
        exact ⟨hle, hne, hall, hval⟩
  · rename_i hplus
    rw [hread]
    constructor
    · rintro ⟨hle, h⟩
      exact ⟨hle, s, .inl rfl, h⟩
    · rintro ⟨hle, ds, rfl | rfl, h⟩
      · exact ⟨hle, h⟩
      · exact absurd rfl hplus

end LineEditor
