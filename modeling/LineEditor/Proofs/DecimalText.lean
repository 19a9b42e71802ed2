import LineEditor.Number.Decimal
import LineEditor.Proofs.Digits
import LineEditor.Proofs.Nearest
import Mathlib.Data.List.TakeWhile

/-!
# Numbers in decimal notation

Which texts are read as a number of single precision, and as which: a sign or none, and then digits
with a point among them or none and an exponent or none, or a name in letters of either case.  What
a decimal is worth is the nearest number, found as if there were no greatest exponent; from 2¹²⁸ on
it is infinite.

* `DecimalText`         the notation, and the decimal that it stands for;
* `Single.Rounds`       the number that a decimal is worth;
* `Single.Denotes`      the number that a text is worth;
* `Single.read?_eq_some_iff`.
-/

open LineEditor.Number

namespace LineEditor

/-! ## The notation -/

/-- an exponent as it is written: a mark, a sign or none, and digits -/
structure Power where
  mark : Char
  sign : Text
  digits : Text

/-- the mark is an `e` of either case -/
structure Power.Proper (p : Power) : Prop where
  mark : p.mark = 'e' ∨ p.mark = 'E'
  sign : p.sign = [] ∨ p.sign = ['+'] ∨ p.sign = ['-']
  digits : AllDigits p.digits
  digits_ne_nil : p.digits ≠ []

def Power.value (p : Power) : Int :=
  if p.sign = ['-'] then -(digitsValue p.digits : Int) else digitsValue p.digits

/-- the exponent as it is written -/
def powerText : Option Power → Text
  | none => []
  | some p => p.mark :: (p.sign ++ p.digits)

/-- the point and the digits behind it -/
def fractionText : Option Text → Text
  | none => []
  | some ds => '.' :: ds

/-- a decimal as it is written, without a sign -/
structure DecimalText where
  whole : Text
  fraction : Option Text
  power : Option Power

namespace DecimalText

/-- there is at least one digit, before the point or behind it -/
structure Proper (t : DecimalText) : Prop where
  whole : AllDigits t.whole
  fraction : ∀ ds ∈ t.fraction, AllDigits ds
  digits : t.whole ≠ [] ∨ t.fraction.getD [] ≠ []
  power : ∀ q ∈ t.power, q.Proper

def text (t : DecimalText) : Text := t.whole ++ (fractionText t.fraction ++ powerText t.power)

/-- all digits as one number, and the exponent less one for each digit behind the point -/
def decimal (t : DecimalText) : Decimal :=
  let ds := t.fraction.getD []
  ⟨digitsValue (t.whole ++ ds), (t.power.map Power.value).getD 0 - ds.length⟩

end DecimalText

/-- a sign or none, and whether it is a minus -/
inductive SignText : Bool → Text → Prop
  | none : SignText false []
  | plus : SignText false ['+']
  | minus : SignText true ['-']

namespace Single

/-- the number that is nearest to the size `num / den`, in units, under a sign -/
inductive Rounds (negative : Bool) (num den : Nat) : Single → Prop
  | finite {u : Nat} {fits : Significant 24 u ∧ u < limitUnits} (h : IsNearest 24 num den u) :
      Rounds negative num den (.finite negative u fits)
  | infinite {u : Nat} (h : IsNearest 24 num den u) (hlimit : limitUnits ≤ u) :
      Rounds negative num den (.infinite negative)

/-- the number that is nearest to a decimal under a sign -/
def RoundsDecimal (negative : Bool) (d : Decimal) : Single → Prop :=
  Rounds negative (d.num * oneUnits) d.den

/-- the number that a text stands for -/
inductive Denotes : Text → Single → Prop
  | number {negative : Bool} {sign : Text} {t : DecimalText} {x : Single}
      (hsign : SignText negative sign) (ht : t.Proper) (hx : RoundsDecimal negative t.decimal x) :
      Denotes (sign ++ t.text) x
  | infinite {negative : Bool} {sign name : Text} (hsign : SignText negative sign)
      (hname : name.map Char.toLower = "inf".toList ∨ name.map Char.toLower = "infinity".toList) :
      Denotes (sign ++ name) (.infinite negative)
  | nan {negative : Bool} {sign name : Text} (hsign : SignText negative sign)
      (hname : name.map Char.toLower = "nan".toList) : Denotes (sign ++ name) .nan

end Single

/-! ## The number that a decimal is worth -/

namespace Decimal
variable {d : Decimal}

theorem den_pos (d : Decimal) : 0 < d.den := Nat.pow_pos (by decide)

theorem lt_pow_length (n : Nat) : n < Nat.pow 10 (numeral n).length :=
  (Nat.length_toDigits_le_iff (by decide) Nat.length_toDigits_pos).mp (Nat.le_refl _)

theorem pow_length_le {n k : Nat} (hn : n ≠ 0) (hk : k < (numeral n).length) :
    Nat.pow 10 k ≤ n := by
  by_contra! hlt
  rcases Nat.eq_zero_or_pos k with rfl | hpos
  · have hone : n < 1 := hlt
    omega
  · have hle : (numeral n).length ≤ k := (Nat.length_toDigits_le_iff (by decide) hpos).mpr hlt
    omega

/-- a decimal with less than -60 places is less than half a unit -/
theorem two_mul_lt_of_places (h : d.exponent + (numeral d.digits).length < -60) :
    2 * (d.num * Single.oneUnits) < d.den := by
  have hdigits := lt_pow_length d.digits
  have hnum : d.num = d.digits := by
    have hzero : d.exponent.toNat = 0 := by omega
    rw [num, hzero]
    exact Nat.mul_one _
  have hplaces : (numeral d.digits).length + 61 ≤ (-d.exponent).toNat := by omega
  have hunits : 2 * Single.oneUnits ≤ Nat.pow 10 61 := by decide
  calc 2 * (d.num * Single.oneUnits) = d.digits * (2 * Single.oneUnits) := by
        rw [hnum, Nat.mul_left_comm]
    _ < Nat.pow 10 (numeral d.digits).length * (2 * Single.oneUnits) :=
        Nat.mul_lt_mul_of_pos_right hdigits (by decide)
    _ ≤ Nat.pow 10 (numeral d.digits).length * Nat.pow 10 61 := Nat.mul_le_mul_left _ hunits
    _ = Nat.pow 10 ((numeral d.digits).length + 61) := (Nat.pow_add 10 _ _).symm
    _ ≤ d.den := Nat.pow_le_pow_right (by decide) hplaces

/-- a decimal with more than 60 places is beyond all numbers -/
theorem limit_le_of_places (hd : d.digits ≠ 0)
    (h : 60 < d.exponent + (numeral d.digits).length) :
    Single.limitUnits * d.den ≤ d.num * Single.oneUnits := by
  have hpow : Nat.pow 10 60 * d.den ≤ d.num := by
    rcases Int.lt_or_le d.exponent 0 with hneg | hpos
    · have hden : Nat.pow 10 (60 + (-d.exponent).toNat) ≤ d.digits := pow_length_le hd (by omega)
      calc Nat.pow 10 60 * d.den = Nat.pow 10 (60 + (-d.exponent).toNat) :=
            (Nat.pow_add 10 _ _).symm
        _ ≤ d.digits := hden
        _ ≤ d.num := Nat.le_mul_of_pos_right _ (Nat.pow_pos (by decide))
    · have hden : d.den = 1 := by
        have hzero : (-d.exponent).toNat = 0 := by omega
        rw [den, hzero]
      obtain ⟨m, hm⟩ : ∃ m, (numeral d.digits).length = m + 1 :=
        Nat.exists_eq_add_one_of_ne_zero Nat.length_toDigits_pos.ne'
      have hdigits : Nat.pow 10 m ≤ d.digits := pow_length_le hd (by omega)
      calc Nat.pow 10 60 * d.den = Nat.pow 10 60 := by rw [hden, Nat.mul_one]
        _ ≤ Nat.pow 10 (m + d.exponent.toNat) := Nat.pow_le_pow_right (by decide) (by omega)
        _ = Nat.pow 10 m * Nat.pow 10 d.exponent.toNat := Nat.pow_add 10 _ _
        _ ≤ d.num := Nat.mul_le_mul_right _ hdigits
  have hlimit : Nat.pow 2 128 ≤ Nat.pow 10 60 := by decide
  calc Single.limitUnits * d.den = Nat.pow 2 128 * d.den * Single.oneUnits := by
        rw [Single.limitUnits]
        ring
    _ ≤ Nat.pow 10 60 * d.den * Single.oneUnits :=
        Nat.mul_le_mul_right _ (Nat.mul_le_mul_right _ hlimit)
    _ ≤ d.num * Single.oneUnits := Nat.mul_le_mul_right _ hpow

end Decimal

theorem Number.roundTo_eq_zero {p num den : Nat} (hp : 0 < p) (h : 2 * num < den) :
    roundTo p num den = 0 := by
  have hdiv : num / den = 0 := Nat.div_eq_of_lt (by omega)
  have hunit : unitOf p num den = 1 := by
    have hsurplus : surplus p 0 = 0 := by
      unfold surplus
      rw [Nat.log2_zero]
      omega
    rw [unitOf, hdiv, hsurplus]
  have hmod : num % den = num := Nat.mod_eq_of_lt (by omega)
  have hdown : roundDiv num den = 0 := by
    unfold roundDiv
    rw [if_neg (by omega), hdiv]
  rw [roundTo_eq, hunit, Nat.mul_one, Nat.mul_one, hdown]

namespace Single
variable {negative : Bool} {num den : Nat} {d : Decimal} {x y : Single}

theorem fits_limitUnits : Significant 24 limitUnits := by
  refine ⟨Nat.pow 2 23, 254, by decide, ?_⟩
  decide

theorem Rounds.unique (hd : 0 < den) (hx : Rounds negative num den x)
    (hy : Rounds negative num den y) : x = y := by
  have hsame : ∀ {u v : Nat}, IsNearest 24 num den u → IsNearest 24 num den v → u = v :=
    fun hu hv => hu.unique hd (by decide) hv
  cases hx with
  | @finite u fits hu =>
    cases hy with
    | finite hv =>
      cases hsame hu hv
      rfl
    | infinite hv hlimit =>
      cases hsame hu hv
      exact absurd fits.2 (Nat.not_lt.mpr hlimit)
  | infinite hu hlimit =>
    cases hy with
    | @finite v fits hv =>
      cases hsame hu hv
      exact absurd fits.2 (Nat.not_lt.mpr hlimit)
    | infinite hv => rfl

theorem rounds_ofUnits (negative : Bool) (num : Nat) (hd : 0 < den) :
    Rounds negative num den (ofUnits negative num den) := by
  have hnearest : IsNearest 24 num den (roundTo 24 num den) := isNearest_roundTo hd (by decide)
  unfold ofUnits
  split
  · exact .finite hnearest
  · rename_i hlimit
    exact .infinite hnearest (Nat.le_of_not_lt hlimit)

theorem rounds_iff (hd : 0 < den) : Rounds negative num den x ↔ ofUnits negative num den = x := by
  constructor
  · exact (rounds_ofUnits negative num hd).unique hd
  · rintro rfl
    exact rounds_ofUnits negative num hd

theorem rounds_toSingle (negative : Bool) (d : Decimal) :
    RoundsDecimal negative d (d.toSingle negative) := by
  have hnearest : IsNearest 24 (d.num * oneUnits) d.den (roundTo 24 (d.num * oneUnits) d.den) :=
    isNearest_roundTo d.den_pos (by decide)
  simp only [Decimal.toSingle]
  split
  · rename_i h
    have hsmall : 2 * (d.num * oneUnits) < d.den := by
      obtain hzero | hplaces := h
      · have hden := d.den_pos
        rw [Decimal.num, hzero, Nat.zero_mul, Nat.zero_mul]
        omega
      · exact Decimal.two_mul_lt_of_places hplaces
    rw [roundTo_eq_zero (by decide) hsmall] at hnearest
    exact .finite hnearest
  · rename_i h
    rw [not_or] at h
    split
    · rename_i hplaces
      refine .infinite hnearest (le_roundTo (by decide) d.den_pos fits_limitUnits ?_)
      exact Decimal.limit_le_of_places h.1 hplaces
    · exact rounds_ofUnits negative _ d.den_pos

theorem roundsDecimal_iff : RoundsDecimal negative d x ↔ d.toSingle negative = x := by
  constructor
  · exact (rounds_toSingle negative d).unique d.den_pos
  · rintro rfl
    exact rounds_toSingle negative d

end Single

/-! ## Reading the parts -/

namespace Decimal

theorem toLower_eq_e_iff {c : Char} : c.toLower = 'e' ↔ c = 'e' ∨ c = 'E' := by
  constructor
  · intro h
    unfold Char.toLower at h
    split at h
    · right
      have hcode : c.val + 32 = 'E'.val + 32 := congrArg Char.val h
      exact Char.ext ((UInt32.add_left_inj 32).mp hcode)
    · exact .inl h
  · rintro (rfl | rfl) <;> rfl

theorem signText_readSign (s : Text) :
    ∃ sign, SignText (readSign s).1 sign ∧ s = sign ++ (readSign s).2 := by
  unfold readSign
  split
  · exact ⟨['-'], .minus, rfl⟩
  · exact ⟨['+'], .plus, rfl⟩
  · exact ⟨[], .none, rfl⟩

theorem readSign_append {negative : Bool} {sign t : Text} (h : SignText negative sign)
    (ht : ∀ c ∈ t.head?, c ≠ '-' ∧ c ≠ '+') : readSign (sign ++ t) = (negative, t) := by
  cases h with
  | none =>
    show readSign t = _
    unfold readSign
    split
    · exact absurd rfl (ht '-' rfl).1
    · exact absurd rfl (ht '+' rfl).2
    · rfl
  | plus => rfl
  | minus => rfl

theorem takeWhile_append_of_head {ds r : Text} (hds : AllDigits ds)
    (hr : ∀ c ∈ r.head?, c.isDigit = false) :
    (ds ++ r).takeWhile Char.isDigit = ds ∧ (ds ++ r).dropWhile Char.isDigit = r := by
  rw [List.takeWhile_append_of_pos hds, List.dropWhile_append_of_pos hds]
  cases r with
  | nil => exact ⟨List.append_nil ds, rfl⟩
  | cons c r =>
    have hc : ¬ c.isDigit = true := by
      rw [hr c rfl]
      decide
    rw [List.takeWhile_cons_of_neg hc, List.dropWhile_cons_of_neg hc, List.append_nil]
    exact ⟨rfl, rfl⟩

theorem allDigits_takeWhile (s : Text) : AllDigits (s.takeWhile Char.isDigit) := fun _ h =>
  List.mem_takeWhile_imp h

/-- digits do not begin with a sign -/
theorem not_sign_of_allDigits {ds : Text} (h : AllDigits ds) :
    ∀ c ∈ ds.head?, c ≠ '-' ∧ c ≠ '+' := by
  intro c hc
  have hdigit := h c (List.mem_of_mem_head? hc)
  constructor <;> rintro rfl <;> cases hdigit

/-! ### Exponents -/

theorem readInteger?_power {p : Power} (hp : p.Proper) :
    readInteger? (p.sign ++ p.digits) = some p.value := by
  have hhead := not_sign_of_allDigits hp.digits
  have hdigits : p.digits ≠ [] ∧ p.digits.all Char.isDigit = true :=
    ⟨hp.digits_ne_nil, List.all_eq_true.mpr hp.digits⟩
  obtain ⟨negative, hsign, hvalue⟩ : ∃ negative, SignText negative p.sign ∧
      p.value = if negative then -(digitsValue p.digits : Int) else digitsValue p.digits := by
    unfold Power.value
    obtain h | h | h := hp.sign <;> rw [h]
    · exact ⟨false, .none, rfl⟩
    · exact ⟨false, .plus, rfl⟩
    · exact ⟨true, .minus, rfl⟩
  simp only [readInteger?, readSign_append hsign hhead, if_pos hdigits, hvalue]

theorem exists_power_of_readInteger? {c : Char} {s : Text} {e : Int} (hmark : c = 'e' ∨ c = 'E')
    (h : readInteger? s = some e) :
    ∃ p : Power, p.Proper ∧ c :: s = powerText (some p) ∧ p.value = e := by
  simp only [readInteger?] at h
  split at h
  · rename_i hdigits
    obtain ⟨sign, hsign, hs⟩ := signText_readSign s
    generalize readSign s = r at *
    obtain ⟨negative, ds⟩ := r
    have hform : sign = [] ∨ sign = ['+'] ∨ sign = ['-'] := by
      cases hsign with
      | none => exact .inl rfl
      | plus => exact .inr (.inl rfl)
      | minus => exact .inr (.inr rfl)
    refine ⟨⟨c, sign, ds⟩, ⟨hmark, hform, List.all_eq_true.mp hdigits.2, hdigits.1⟩, ?_, ?_⟩
    · rw [hs]
      rfl
    · rw [← Option.some.inj h]
      show (if sign = ['-'] then _ else _ : Int) = _
      cases hsign <;> rfl
  · cases h

theorem readExponent?_powerText {power : Option Power} (h : ∀ q ∈ power, q.Proper) :
    readExponent? (powerText power) = some ((power.map Power.value).getD 0) := by
  cases power with
  | none => rfl
  | some q =>
    have hq := h q rfl
    show readExponent? (q.mark :: (q.sign ++ q.digits)) = some q.value
    rw [readExponent?, if_pos (toLower_eq_e_iff.mpr hq.mark), readInteger?_power hq]

theorem exists_power_of_readExponent? {s : Text} {e : Int} (h : readExponent? s = some e) :
    ∃ power : Option Power, (∀ q ∈ power, q.Proper) ∧ s = powerText power ∧
      (power.map Power.value).getD 0 = e := by
  cases s with
  | nil => exact ⟨none, (fun _ hq => nomatch hq), rfl, Option.some.inj h⟩
  | cons c s =>
    simp only [readExponent?] at h
    split at h
    · rename_i hmark
      obtain ⟨q, hq, hs, hvalue⟩ := exists_power_of_readInteger? (toLower_eq_e_iff.mp hmark) h
      refine ⟨some q, fun q' hq' => ?_, hs, hvalue⟩
      cases hq'
      exact hq
    · cases h

theorem head?_powerText {power : Option Power} (h : ∀ q ∈ power, q.Proper) :
    ∀ c ∈ (powerText power).head?, c = 'e' ∨ c = 'E' := by
  intro c hc
  cases power with
  | none => cases hc
  | some q =>
    cases hc
    exact (h q rfl).mark

theorem not_isDigit_powerText {power : Option Power} (h : ∀ q ∈ power, q.Proper) :
    ∀ c ∈ (powerText power).head?, c.isDigit = false := by
  intro c hc
  obtain rfl | rfl := head?_powerText h c hc <;> rfl

/-! ### Fractions -/

theorem readFraction_append {fraction : Option Text} {power : Option Power}
    (hdigits : ∀ ds ∈ fraction, AllDigits ds) (hpower : ∀ q ∈ power, q.Proper) :
    readFraction (fractionText fraction ++ powerText power)
      = (fraction.getD [], powerText power) := by
  cases fraction with
  | none =>
    show readFraction (powerText power) = ([], powerText power)
    unfold readFraction
    split
    · rename_i s hs
      exact absurd (head?_powerText hpower '.' (by rw [hs]; rfl)) (by decide)
    · rfl
  | some ds =>
    obtain ⟨htake, hdrop⟩ :=
      takeWhile_append_of_head (hdigits ds rfl) (not_isDigit_powerText hpower)
    show readFraction ('.' :: (ds ++ powerText power)) = (ds, powerText power)
    simp only [readFraction, htake, hdrop]

theorem exists_fraction (s : Text) : ∃ fraction : Option Text,
    (∀ ds ∈ fraction, AllDigits ds) ∧ fraction.getD [] = (readFraction s).1 ∧
      s = fractionText fraction ++ (readFraction s).2 := by
  unfold readFraction
  split
  · rename_i s
    refine ⟨some (s.takeWhile Char.isDigit), fun ds hds => ?_, rfl, ?_⟩
    · cases hds
      exact allDigits_takeWhile s
    · exact congrArg ('.' :: ·) (List.takeWhile_append_dropWhile).symm
  · exact ⟨none, (fun _ hds => nomatch hds), rfl, rfl⟩

/-! ### Decimals -/

theorem read?_text {t : DecimalText} (ht : t.Proper) : read? t.text = some t.decimal := by
  obtain ⟨whole, fraction, power⟩ := t
  have hstop : ∀ c ∈ (fractionText fraction ++ powerText power).head?, c.isDigit = false := by
    cases fraction with
    | none => exact not_isDigit_powerText ht.power
    | some ds =>
      intro c hc
      cases hc
      rfl
  obtain ⟨htake, hdrop⟩ := takeWhile_append_of_head ht.whole hstop
  have hfraction := readFraction_append ht.fraction ht.power
  have hne : ¬ (whole = [] ∧ fraction.getD [] = []) := not_and_or.mpr ht.digits
  show read? (whole ++ (fractionText fraction ++ powerText power)) = _
  simp only [read?, htake, hdrop, hfraction, if_neg hne, readExponent?_powerText ht.power]
  rfl

theorem exists_text_of_read? {s : Text} {d : Decimal} (h : read? s = some d) :
    ∃ t : DecimalText, t.Proper ∧ s = t.text ∧ d = t.decimal := by
  obtain ⟨fraction, hfraction, hdigits, hrest⟩ := exists_fraction (s.dropWhile Char.isDigit)
  simp only [read?] at h
  split at h
  · cases h
  · rename_i hne
    obtain ⟨e, he, rfl⟩ := Option.map_eq_some_iff.mp h
    obtain ⟨power, hpower, htext, rfl⟩ := exists_power_of_readExponent? he
    rw [← hdigits] at hne ⊢
    rw [htext] at hrest
    refine ⟨⟨s.takeWhile Char.isDigit, fraction, power⟩,
      ⟨allDigits_takeWhile s, hfraction, not_and_or.mp hne, hpower⟩, ?_, rfl⟩
    show s = s.takeWhile Char.isDigit ++ (fractionText fraction ++ powerText power)
    rw [← hrest, List.takeWhile_append_dropWhile]

end Decimal

/-! ## Reading a number -/

namespace Single

/-- what may stand first in a decimal -/
theorem head?_decimalText {t : DecimalText} (ht : t.Proper) :
    ∀ c ∈ t.text.head?, c.isDigit = true ∨ c = '.' := by
  intro c hc
  obtain ⟨whole, fraction, power⟩ := t
  cases whole with
  | cons d ds =>
    cases hc
    exact .inl (ht.whole c (List.mem_cons_self ..))
  | nil =>
    cases fraction with
    | none => exact (ht.digits.elim (fun h => h rfl) fun h => h rfl).elim
    | some ds =>
      cases hc
      exact .inr rfl

/-- the first letter of a name is no digit, no point and no sign -/
theorem head?_name {name w : Text} {d : Char} (h : name.map Char.toLower = d :: w)
    (hd : d = 'i' ∨ d = 'n') :
    ∀ c ∈ name.head?, c.isDigit = false ∧ c ≠ '.' ∧ c ≠ '-' ∧ c ≠ '+' := by
  intro c hc
  cases name with
  | nil => cases hc
  | cons c' name =>
    cases hc
    have hlower : c.toLower = d := (List.cons.inj h).1
    have hne (a : Char) (ha : ¬ (a.toLower = 'i' ∨ a.toLower = 'n')) : c ≠ a := by
      rintro rfl
      exact ha (hlower ▸ hd)
    refine ⟨?_, hne '.' (by decide), hne '-' (by decide), hne '+' (by decide)⟩
    by_contra hdigit
    have hsame : c.toLower = c := by
      unfold Char.toLower
      split
      · rename_i hupper
        simp only [Bool.not_eq_false, Char.isDigit, Bool.and_eq_true, decide_eq_true_eq] at hdigit
        exact absurd (UInt32.le_trans hupper.1 hdigit.2) (by decide)
      · rfl
    rw [hsame] at hlower
    rw [hlower] at hdigit
    obtain rfl | rfl := hd <;> exact hdigit rfl

theorem decimal_read?_name {name w : Text} {d : Char} (h : name.map Char.toLower = d :: w)
    (hd : d = 'i' ∨ d = 'n') : Decimal.read? name = none := by
  by_contra hsome
  obtain ⟨e, he⟩ := Option.ne_none_iff_exists'.mp hsome
  obtain ⟨t, ht, rfl, -⟩ := Decimal.exists_text_of_read? he
  cases htext : t.text with
  | nil =>
    rw [htext] at h
    cases h
  | cons c s =>
    have hfirst := head?_decimalText ht c (by rw [htext]; rfl)
    have hname := head?_name h hd c (by rw [htext]; rfl)
    rw [hname.1] at hfirst
    exact hfirst.elim (fun hfalse => nomatch hfalse) hname.2.1

theorem denotes_of_read? {s : Text} {x : Single} (h : read? s = some x) : Denotes s x := by
  obtain ⟨sign, hsign, hs⟩ := Decimal.signText_readSign s
  simp only [read?] at h
  generalize (Decimal.readSign s).1 = negative at *
  generalize (Decimal.readSign s).2 = t at *
  rw [hs]
  split at h
  · rename_i d hd
    obtain ⟨t, ht, rfl, rfl⟩ := Decimal.exists_text_of_read? hd
    exact .number hsign ht (roundsDecimal_iff.mpr (Option.some.inj h))
  · split at h
    · rename_i hnan
      cases h
      exact .nan hsign hnan
    · split at h
      · rename_i hinf
        cases h
        exact .infinite hsign hinf
      · cases h

theorem Denotes.read? {s : Text} {x : Single} (h : Denotes s x) : read? s = some x := by
  cases h with
  | @number negative sign t _ hsign ht hx =>
    have hhead : ∀ c ∈ t.text.head?, c ≠ '-' ∧ c ≠ '+' := by
      intro c hc
      obtain hdigit | rfl := head?_decimalText ht c hc
      · constructor <;> rintro rfl <;> cases hdigit
      · exact ⟨by decide, by decide⟩
    simp only [Single.read?, Decimal.readSign_append hsign hhead, Decimal.read?_text ht,
      roundsDecimal_iff.mp hx]
  | @infinite negative sign name hsign hname =>
    obtain ⟨w, hw⟩ : ∃ w, name.map Char.toLower = 'i' :: w := by
      obtain h | h := hname <;> exact ⟨_, h⟩
    have hhead := head?_name hw (.inl rfl)
    have hnan : name.map Char.toLower ≠ "nan".toList := by
      rw [hw]
      intro heq
      exact absurd (List.cons.inj heq).1 (by decide)
    simp only [Single.read?, Decimal.readSign_append hsign fun c hc => (hhead c hc).2.2,
      decimal_read?_name hw (.inl rfl), if_neg hnan, if_pos hname]
  | @nan negative sign name hsign hname =>
    have hw : name.map Char.toLower = 'n' :: ['a', 'n'] := hname
    have hhead := head?_name hw (.inr rfl)
    simp only [Single.read?, Decimal.readSign_append hsign fun c hc => (hhead c hc).2.2,
      decimal_read?_name hw (.inr rfl), if_pos hname]

/-- **The texts that are read as a number, and the number that is read.** -/
theorem read?_eq_some_iff {s : Text} {x : Single} : read? s = some x ↔ Denotes s x :=
  ⟨denotes_of_read?, Denotes.read?⟩

end Single

end LineEditor
