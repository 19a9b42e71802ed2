import LineEditor.Json.Standard
import LineEditor.Proofs.JsonWriting
import LineEditor.Proofs.NearestReading
import LineEditor.Proofs.ScaledReading

/-!
# Written numbers are read

A number of single precision is written as its shortest decimal: positional or with an exponent, and
a whole number gets a zero behind the point.  The scaled significand of such a text is the number,
and so is the nearest double, with one exception.

* `Numeric.Make`                a text and the decimal that it stands for;
* `printSingle_make`            the text of a number;
* `singleText_scaled`           the standard conversion of the text;
* `Library.WritesShortest`      what is asked of a library that writes numbers;
* `singleText_of_shortest`      the conversion by way of the nearest double.
-/

open LineEditor.Number

namespace LineEditor

/-! ## Decimals as they are written -/

/-- the same number -/
def Decimal.Same (d e : Decimal) : Prop := d.num * e.den = e.num * d.den

/-- an exponent with its sign, as it is written -/
def Power.ofInt (e : Int) : Power := ⟨'e', [if e < 0 then '-' else '+'], numeral e.natAbs⟩

theorem Power.proper_ofInt (e : Int) : (Power.ofInt e).Proper where
  mark := .inl rfl
  sign := by
    unfold ofInt
    split
    · exact .inr (.inr rfl)
    · exact .inr (.inl rfl)
  digits := allDigits_numeral _
  digits_ne_nil := numeral_ne_nil _

theorem Power.value_ofInt (e : Int) : (Power.ofInt e).value = e := by
  have hdigits : digitsValue (numeral e.natAbs) = e.natAbs := continued_numeral _
  unfold value ofInt
  simp only [hdigits]
  by_cases h : e < 0
  · rw [if_pos h, if_pos rfl]
    omega
  · rw [if_neg h, if_neg (by decide)]
    omega

namespace Json

/-- the text stands for the decimal `d`, without a sign, and not for a whole number as such -/
structure Numeric.Make (p : Numeric) (d : Decimal) : Prop where
  proper : p.Proper
  unsigned : p.isMinus = false
  real : p.fraction ≠ none ∨ p.power ≠ none
  decimal : p.parts.decimal = d

section
variable {c : Nat} {k : Int} (hc : 0 < c)

/-- digits on both sides of a point -/
def pointed (whole fraction : Text) : Numeric := ⟨⟨whole, some fraction, none⟩, false⟩

theorem text_pointed (whole fraction : Text) :
    (pointed whole fraction).text = whole ++ '.' :: fraction := by
  show whole ++ ('.' :: fraction ++ []) = _
  rw [List.append_nil]

theorem make_pointed {whole fraction : Text} {d : Decimal} (hp : (pointed whole fraction).Proper)
    (hdigits : digitsValue (whole ++ fraction) = d.digits)
    (hexponent : d.exponent = -fraction.length) : (pointed whole fraction).Make d := by
  refine ⟨hp, rfl, .inl (Option.some_ne_none _), ?_⟩
  show (⟨digitsValue (whole ++ fraction), 0 - fraction.length⟩ : Decimal) = d
  rw [hdigits, Int.zero_sub, ← hexponent]

include hc in
theorem proper_of_numeral {fraction : Option Text} {power : Option Power} {n : Nat} (hn : 0 < n)
    (hf : ∀ ds ∈ fraction, AllDigits ds ∧ ds ≠ []) (hq : ∀ q ∈ power, q.Proper) :
    Numeric.Proper ⟨⟨(numeral c).take n, fraction, power⟩, false⟩ where
  whole := fun d hd => allDigits_numeral c d (List.mem_of_mem_take hd)
  whole_ne_nil h := (List.take_eq_nil_iff.mp h).elim (by omega) (numeral_ne_nil c)
  leading h := by
    have hzero := h.1
    rw [List.head?_take, if_neg hn.ne'] at hzero
    exact head?_numeral hc hzero
  fraction := hf
  power := hq

theorem proper_zero {ds : Text} (hds : AllDigits ds) (hne : ds ≠ []) :
    (pointed ['0'] ds).Proper where
  whole := fun c hc => by
    rw [List.mem_singleton.mp hc]
    rfl
  whole_ne_nil := List.cons_ne_nil _ _
  leading h := absurd h.2 (Nat.lt_irrefl 1)
  fraction := fun _ h => by
    cases h
    exact ⟨hds, hne⟩
  power := fun _ h => nomatch h

include hc in
/-- the exponential notation has one digit before the point -/
theorem exponential_make :
    ∃ p : Numeric, (⟨c, k⟩ : Decimal).exponential = p.text ∧ p.Make ⟨c, k⟩ := by
  have hds := allDigits_numeral c
  have hvalue : digitsValue (numeral c) = c := continued_numeral c
  have hne := numeral_ne_nil c
  have hproper (e : Int) {fraction : Option Text} (hf : ∀ ds ∈ fraction, AllDigits ds ∧ ds ≠ []) :
      Numeric.Proper ⟨⟨(numeral c).take 1, fraction, some (.ofInt e)⟩, false⟩ := by
    refine proper_of_numeral hc Nat.one_pos hf ?_
    rintro q hq
    cases hq
    exact Power.proper_ofInt e
  unfold Decimal.exponential Decimal.point
  simp only
  generalize numeral c = digits at *
  match digits with
  | [] => exact absurd rfl hne
  | [d] =>
    refine ⟨⟨⟨[d], none, some (.ofInt (k + 1 - 1))⟩, false⟩, rfl, hproper _ (fun _ h => nomatch h),
      rfl, .inr (Option.some_ne_none _), ?_⟩
    show (⟨digitsValue [d], (Power.ofInt (k + 1 - 1)).value - 0⟩ : Decimal) = _
    rw [hvalue, Power.value_ofInt]
    congr 1
    omega
  | d :: d' :: ds =>
    have hf : ∀ es ∈ some (d' :: ds), AllDigits es ∧ es ≠ [] := by
      intro es h
      cases h
      exact ⟨fun x hx => hds x (List.mem_cons_of_mem d hx), List.cons_ne_nil _ _⟩
    refine ⟨⟨⟨[d], some (d' :: ds), some (.ofInt (k + (d :: d' :: ds).length - 1))⟩, false⟩, rfl,
      hproper _ hf, rfl, .inl (Option.some_ne_none _), ?_⟩
    show (⟨digitsValue (d :: d' :: ds), (Power.ofInt (k + (d :: d' :: ds).length - 1)).value
      - (d' :: ds).length⟩ : Decimal) = _
    rw [hvalue, Power.value_ofInt]
    simp only [List.length_cons]
    congr 1
    omega

include hc in
/-- the positional notation of what is not whole -/
theorem positional_make {n : Nat} (whole : Text) : ∃ p : Numeric,
    (⟨c, .negSucc n⟩ : Decimal).positional whole = p.text ∧ p.Make ⟨c, .negSucc n⟩ := by
  have hds := allDigits_numeral c
  have hvalue : digitsValue (numeral c) = c := continued_numeral c
  have hne := numeral_ne_nil c
  have hpoint : (⟨c, .negSucc n⟩ : Decimal).point = Int.negSucc n + (numeral c).length := rfl
  have hlen : 0 < (numeral c).length := List.length_pos_iff.mpr hne
  unfold Decimal.positional
  rw [hpoint]
  simp only
  split
  · -- the point stands before the first digit
    rename_i h
    have hplaces : Int.negSucc n + (numeral c).length = 0 := h
    refine ⟨pointed ['0'] (numeral c), (text_pointed ['0'] (numeral c)).symm,
      make_pointed (proper_zero hds hne) ((continued_zero_cons _).trans hvalue) ?_⟩
    show Int.negSucc n = _
    omega
  · -- it stands among the digits
    rename_i m hm h
    have hplaces : Int.negSucc n + (numeral c).length = (m : Int) := h
    have hdrop : (numeral c).drop m ≠ [] := by
      intro hnil
      have hle := List.drop_eq_nil_iff.mp hnil
      omega
    have hproper : (pointed ((numeral c).take m) ((numeral c).drop m)).Proper := by
      refine proper_of_numeral hc (Nat.pos_of_ne_zero hm) ?_ ?_
      · intro ds h
        cases h
        exact ⟨fun d hd => hds d (List.mem_of_mem_drop hd), hdrop⟩
      · intro q h
        cases h
    refine ⟨pointed ((numeral c).take m) ((numeral c).drop m), (text_pointed _ _).symm,
      make_pointed hproper ?_ ?_⟩
    · rw [List.take_append_drop, hvalue]
    · rw [List.length_drop]
      show Int.negSucc n = _
      omega
  · -- zeros stand between it and the first digit
    rename_i m h
    have hplaces : Int.negSucc n + (numeral c).length = Int.negSucc m := h
    have hzeros : zeros (m + 1) ++ numeral c ≠ [] := fun hnil =>
      hne (List.append_eq_nil_iff.mp hnil).2
    have hdigits : digitsValue (['0'] ++ (zeros (m + 1) ++ numeral c)) = c := by
      show continued 0 ('0' :: (zeros (m + 1) ++ numeral c)) = c
      rw [continued_zero_cons, continued_append, continued_zeros, Nat.zero_mul, continued_numeral]
    refine ⟨pointed ['0'] (zeros (m + 1) ++ numeral c), (text_pointed ['0'] _).symm,
      make_pointed (proper_zero ((allDigits_zeros _).append hds) hzeros) hdigits ?_⟩
    rw [List.length_append, zeros, List.length_replicate]
    show Int.negSucc n = _
    omega

/-- a whole number with a zero behind the point -/
def tenths (c e : Nat) : Decimal := ⟨10 * (c * Nat.pow 10 e), -1⟩

theorem same_tenths (c e : Nat) : (tenths c e).Same ⟨c, .ofNat e⟩ := by
  show 10 * (c * Nat.pow 10 e) * 1 * Nat.pow 10 (-Int.ofNat e).toNat = c * Nat.pow 10 e * 10
  rw [Int.toNat_of_nonpos (by simp)]
  show 10 * (c * Nat.pow 10 e) * 1 * 1 = c * Nat.pow 10 e * 10
  ring

include hc in
/-- the positional notation of what is whole -/
theorem positional_make_whole (e : Nat) : ∃ p : Numeric,
    (⟨c, .ofNat e⟩ : Decimal).positional ".0".toList = p.text ∧ p.Make (tenths c e) := by
  have hproper : (pointed (numeral c ++ zeros e) ['0']).Proper := by
    refine ⟨(allDigits_numeral c).append (allDigits_zeros e), ?_, ?_, ?_, ?_⟩
    · exact fun hnil => numeral_ne_nil c (List.append_eq_nil_iff.mp hnil).1
    · rintro ⟨hzero, -⟩
      rw [pointed, List.head?_append_of_ne_nil _ (numeral_ne_nil c)] at hzero
      exact head?_numeral hc hzero
    · intro ds h
      cases h
      exact ⟨by decide, List.cons_ne_nil _ _⟩
    · intro q h
      cases h
  have hdigits : digitsValue (numeral c ++ zeros e ++ ['0']) = 10 * (c * Nat.pow 10 e) := by
    rw [digitsValue_concat]
    show 10 * continued 0 (numeral c ++ zeros e) + 0 = _
    rw [continued_append, continued_zeros, continued_numeral]
    rfl
  exact ⟨pointed (numeral c ++ zeros e) ['0'], (text_pointed _ _).symm,
    make_pointed hproper hdigits rfl⟩

end

/-! ## Numbers of single precision -/

/-- a whole number in positional notation is small -/
theorem lt_of_point_le {c e n : Nat} (h : (⟨c, .ofNat e⟩ : Decimal).point ≤ n) :
    c * Nat.pow 10 e < Nat.pow 10 n := by
  have hlen : e + (numeral c).length ≤ n := by
    have : (e : Int) + (numeral c).length ≤ n := h
    omega
  calc c * Nat.pow 10 e < Nat.pow 10 (numeral c).length * Nat.pow 10 e :=
        Nat.mul_lt_mul_of_pos_right (Decimal.lt_pow_length c) (Nat.pow_pos (by decide))
    _ = Nat.pow 10 ((numeral c).length + e) := (Nat.pow_add 10 _ _).symm
    _ ≤ Nat.pow 10 n := Nat.pow_le_pow_right (by decide) (by omega)

section
variable {u : Nat} (fits : Significant 24 u ∧ u < Single.limitUnits) (hpos : 0 < u)
include hpos

/-- a positive number is written as the decimal that the search ends with, or with a zero more -/
theorem printSingle_make : ∃ p c k, EndsAt .even u c k ∧
    printSingle (.finite false u fits) = Numeric.text p ∧
      (p.Make ⟨c, k⟩ ∨
        ∃ e : Nat, k = e ∧ c * Nat.pow 10 e < Nat.pow 10 13 ∧ p.Make (tenths c e)) := by
  have hend : EndsAt .even u _ _ := endsAt_shortest fits.1 hpos
  rcases hd : shortest .even u with ⟨c, k⟩
  rw [hd] at hend
  simp only at hend
  have hc := hend.pos fits.1 hpos
  have htext : printSingle (.finite false u fits) =
      if -6 < (⟨c, k⟩ : Decimal).point ∧ (⟨c, k⟩ : Decimal).point ≤ 13
        then (⟨c, k⟩ : Decimal).positional ".0".toList else (⟨c, k⟩ : Decimal).exponential := by
    simp only [printSingle, Single.minus, Bool.false_eq_true, if_false, List.nil_append,
      if_neg hpos.ne', hd]
  rw [htext]
  split
  · rename_i hpoint
    cases k with
    | ofNat e =>
      obtain ⟨p, hp, hmake⟩ := positional_make_whole hc e
      exact ⟨p, c, _, hend, hp, .inr ⟨e, rfl, lt_of_point_le (n := 13) hpoint.2, hmake⟩⟩
    | negSucc n =>
      obtain ⟨p, hp, hmake⟩ := positional_make hc ".0".toList
      exact ⟨p, c, _, hend, hp, .inl hmake⟩
  · obtain ⟨p, hp, hmake⟩ := exponential_make hc
    exact ⟨p, c, k, hend, hp, .inl hmake⟩

end

/-! ## The scaled significand -/

/-- a text that is not a whole number as such is scaled -/
theorem number?_of_make {p : Numeric} {d : Decimal} {y : Nat} (hp : p.Make d)
    (hc : d.digits ≤ maxCount) (hy : scale? d.digits d.exponent = some y) :
    p.parts.number? = some (.real false y) := by
  obtain ⟨-, hunsigned, hreal, rfl⟩ := hp
  obtain ⟨⟨whole, fraction, power⟩, isMinus⟩ := p
  obtain rfl : isMinus = false := hunsigned
  have hvalue : digitsValue (whole ++ fraction.getD []) =
      continued (continued 0 whole) (fraction.getD []) := continued_append 0 _ _
  have hexponent (e : Int) : ((0 : Nat) : Int) - ((fraction.getD []).length - 0 : Nat) + e =
      e - (fraction.getD []).length := by omega
  simp only [Numeric.parts, Parts.decimal, hvalue] at hc hy
  have hwhole : continued 0 whole ≤ maxCount := (le_continued _ _).trans hc
  simp only [Numeric.parts, Parts.number?, significand_eq hwhole]
  split
  · rename_i hfraction hpower
    exact absurd hreal (by simp_all)
  · simp only [significand_eq hc, hexponent, hy]
    rfl

section
variable {u : Nat} (fits : Significant 24 u ∧ u < Single.limitUnits) (hpos : 0 < u)
include hpos

/-- what is written for a positive number is converted to the number -/
theorem singleText_scaled :
    SingleText Parts.scaled? (.finite false u fits) (printSingle (.finite false u fits)) := by
  obtain ⟨p, c, k, hend, htext, hmake⟩ := printSingle_make fits hpos
  obtain hmake | ⟨e, rfl, hsmall, hmake⟩ := hmake
  · have hmax : c ≤ maxCount := (hend.lt fits.1 hpos fits.2).le.trans (by decide)
    obtain ⟨y, hy, hx⟩ := scale?_of_endsAt fits hpos hend
    refine ⟨p, hmake.proper, ?_, htext⟩
    rw [Parts.scaled?, number?_of_make hmake hmax hy, ← hx]
    rfl
  · have hfew : 10 * (c * Nat.pow 10 e) < Nat.pow 2 53 := by
      refine (Nat.mul_lt_mul_of_pos_left hsmall (by decide)).trans ?_
      decide
    obtain ⟨y, hy, hx⟩ := scale?_of_endsAt_whole fits hpos hend hfew
    refine ⟨p, hmake.proper, ?_, htext⟩
    rw [Parts.scaled?, number?_of_make hmake (hfew.le.trans (by decide)) hy, ← hx]
    rfl

end

/-! ## The nearest double -/

/-- positive numbers are written as shortest decimals -/
def Library.WritesShortest (L : Library) : Prop :=
  ∀ {u : Nat} (fits : Significant 24 u ∧ u < Single.limitUnits), 0 < u →
    ∃ (p : Numeric) (d : Decimal), p.Proper ∧ p.isMinus = false ∧ IsShortest u d ∧
      p.parts.decimal.Same d ∧ L.printSingle (.finite false u fits) = p.text

theorem writesShortest_converting (convert : Parts → Option Single) :
    (Library.converting convert).WritesShortest := by
  intro u fits hpos
  obtain ⟨p, c, k, hend, htext, hmake⟩ := printSingle_make fits hpos
  have hshortest := hend.isShortest fits.1 hpos fits.2
  refine ⟨p, ⟨c, k⟩, ?_⟩
  obtain hmake | ⟨e, rfl, -, hmake⟩ := hmake
  · exact ⟨hmake.proper, hmake.unsigned, hshortest, by rw [hmake.decimal]; rfl, htext⟩
  · exact ⟨hmake.proper, hmake.unsigned, hshortest, by rw [hmake.decimal]; exact same_tenths c e,
      htext⟩

/-- the one number that is not read back by way of the nearest double, 7.038531e-26 -/
def lostHeight : Single := .finite false lostUnits fits_lostUnits

/-- the next greater number -/
def nextHeight : Single :=
  .finite false (11420670 * Nat.pow 2 42) ⟨⟨11420670, 42, by decide, rfl⟩, by decide⟩

/-- what is written for a positive number is converted to the number by way of the nearest double,
with one exception -/
theorem singleText_of_shortest {L : Library} (hL : L.WritesShortest) {u : Nat}
    (fits : Significant 24 u ∧ u < Single.limitUnits) (hpos : 0 < u) :
    SingleText Parts.nearest?
      (if u = lostUnits then nextHeight else .finite false u fits)
      (L.printSingle (.finite false u fits)) := by
  obtain ⟨p, d, hp, hunsigned, hd, hsame, htext⟩ := hL fits hpos
  refine ⟨p, hp, ?_, htext⟩
  obtain ⟨hrange, hback⟩ := toSingle_nearestDouble_iff fits hpos hd
  have hminus : p.parts.isMinus = false := hunsigned
  simp only [Parts.nearest?, nearestDouble_congr hsame, if_pos hrange, hminus]
  split
  · rename_i hlost
    subst hlost
    rw [eq_of_isShortest_lost hd, nearestDouble_lost.2]
    rfl
  · rename_i hlost
    rw [hback.mpr hlost]

end Json

end LineEditor
