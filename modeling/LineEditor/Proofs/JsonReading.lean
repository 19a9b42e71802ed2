import LineEditor.Json.Skip
import LineEditor.Proofs.JsonLaws

/-!
# The readers of the standard library: single tokens

The functions that take a string or a number from the front of a text take what the notation of JSON
says and give what it means; they pass over a string or a number whatever it means.

* `Spells.readString`, `Escapes.skipString`;
* `Numeric.Proper.readParts`, `Numeric.Proper.skipNumber`.
-/

namespace LineEditor.Json

/-! ## Space -/

theorem skipSpace_cons {c : Char} (h : isJsonSpace c = false) (s : Text) :
    skipSpace (c :: s) = c :: s :=
  List.dropWhile_cons_of_neg (by rw [h]; decide)

theorem skipSpace_append {l : Text} (h : Spaces l) (s : Text) : skipSpace (l ++ s) = skipSpace s :=
  List.dropWhile_append_of_pos h

/-- texts with commas between them are the first one and more -/
theorem separated_cons (t : Text) (ts : List Text) : ∃ s, separated (t :: ts) = t ++ s := by
  cases ts with
  | nil => exact ⟨[], (List.append_nil t).symm⟩
  | cons t' ts => exact ⟨_, rfl⟩

/-! ## Strings -/

theorem readUnit_append {u : Text} {n : Nat} (h : CodeUnit u n) (s : Text) :
    readUnit (u ++ s) = .ok (n, s) := by
  cases h with
  | digits ha hb hc hd =>
    simp only [List.cons_append, List.nil_append, readUnit, ha, hb, hc, hd]

theorem simpleEscape?_ne_u {e c : Char} (h : simpleEscape? e = some c) : e ≠ 'u' := by
  rintro rfl
  cases h

theorem readEscape_letter {e c : Char} (he : simpleEscape? e = some c) (s : Text) :
    readEscape (e :: s) = .ok (c, s) := by
  unfold readEscape
  split
  · rename_i heq
    cases heq
  · rename_i heq
    exact absurd (List.cons.inj heq).1 (simpleEscape?_ne_u he)
  · rename_i heq
    obtain ⟨rfl, rfl⟩ := List.cons.inj heq
    rw [he]

theorem readEscape_unit {u : Text} {n : Nat} (hu : CodeUnit u n) (hn : n < 0xD800 ∨ 0xDFFF < n)
    (s : Text) : readEscape ('u' :: (u ++ s)) = .ok (Char.ofNat n, s) := by
  have hlow : ¬ (0xDC00 ≤ n ∧ n ≤ 0xDFFF) := by omega
  have hhigh : ¬ (0xD800 ≤ n ∧ n ≤ 0xDBFF) := by omega
  simp only [readEscape, readUnit_append hu, if_neg hlow, if_neg hhigh]

theorem readEscape_pair {u v : Text} {m n : Nat} (hu : CodeUnit u m) (hm : 0xD800 ≤ m ∧ m ≤ 0xDBFF)
    (hv : CodeUnit v n) (hn : 0xDC00 ≤ n ∧ n ≤ 0xDFFF) (s : Text) :
    readEscape ('u' :: (u ++ '\\' :: 'u' :: (v ++ s))) =
      .ok (Char.ofNat (0x10000 + (m - 0xD800) * 0x400 + (n - 0xDC00)), s) := by
  have hlow : ¬ (0xDC00 ≤ m ∧ m ≤ 0xDFFF) := by omega
  have hexpect : expect ['\\', 'u'] ('\\' :: 'u' :: (v ++ s)) = .ok (v ++ s) := rfl
  simp only [readEscape, readUnit_append hu, if_neg hlow, if_pos hm, readLowHalf, hexpect,
    readUnit_append hv, if_pos hn]

/-- an escape that is read is followed by the rest of the string -/
theorem readString_escape {e s r ds : Text} {c : Char} (he : readEscape e = .ok (c, s))
    (h : readString s = .ok (ds, r)) : readString ('\\' :: e) = .ok (c :: ds, r) := by
  rw [readString, if_neg (by decide), if_pos rfl]
  split
  · rename_i heq
    rw [he] at heq
    cases heq
  · rename_i heq
    rw [he] at heq
    cases heq
    rw [h]

theorem readString_plain {c : Char} {s r ds : Text} (hquote : c ≠ '"') (hslash : c ≠ '\\')
    (hc : 0x20 ≤ c.toNat) (h : readString s = .ok (ds, r)) :
    readString (c :: s) = .ok (c :: ds, r) := by
  rw [readString, if_neg hquote, if_neg hslash, if_neg hc.not_gt, h]

/-- a string is read as the text that it means -/
theorem Spells.readString {b s : Text} (h : Spells b s) (r : Text) :
    readString (b ++ '"' :: r) = .ok (s, r) := by
  induction h with
  | nil =>
    rw [List.nil_append, Json.readString]
    rfl
  | plain hquote hslash hc _ ih => exact readString_plain hquote hslash hc ih
  | letter he _ ih => exact readString_escape (readEscape_letter he _) ih
  | unit hu hn _ ih =>
    rw [List.cons_append, List.cons_append, List.append_assoc]
    exact readString_escape (readEscape_unit hu hn _) ih
  | pair hu hm hv hn _ ih =>
    simp only [List.cons_append, List.append_assoc]
    exact readString_escape (readEscape_pair hu hm hv hn _) ih

theorem skipString_escape {e s r : Text} (he : skipEscape e = .ok s) (h : skipString s = .ok r) :
    skipString ('\\' :: e) = .ok r := by
  rw [skipString, if_neg (by decide), if_pos rfl]
  split
  · rename_i heq
    rw [he] at heq
    cases heq
  · rename_i heq
    rw [he] at heq
    cases heq
    exact h

theorem skipEscape_letter {e : Char} (he : (simpleEscape? e).isSome) (s : Text) :
    skipEscape (e :: s) = .ok s := by
  obtain ⟨c, hc⟩ := Option.isSome_iff_exists.mp he
  unfold skipEscape
  split
  · rename_i heq
    cases heq
  · rename_i heq
    exact absurd (List.cons.inj heq).1 (simpleEscape?_ne_u hc)
  · rename_i heq
    obtain ⟨rfl, rfl⟩ := List.cons.inj heq
    rw [if_pos he]

/-- a string is passed over up to its closing quote -/
theorem Escapes.skipString {b : Text} (h : Escapes b) (r : Text) :
    skipString (b ++ '"' :: r) = .ok r := by
  induction h with
  | nil =>
    rw [List.nil_append, Json.skipString]
    rfl
  | plain hquote hslash hc _ ih =>
    rw [List.cons_append, Json.skipString, if_neg hquote, if_neg hslash, if_neg hc.not_gt, ih]
  | letter he _ ih => exact skipString_escape (skipEscape_letter he _) ih
  | @unit u b n hu _ ih =>
    have hskip : skipEscape ('u' :: (u ++ (b ++ '"' :: r))) = .ok (b ++ '"' :: r) := by
      simp only [skipEscape, readUnit_append hu]
    rw [List.cons_append, List.cons_append, List.append_assoc]
    exact skipString_escape hskip ih

/-! ## Numbers -/

/-- what may stand behind a number -/
def Stops (r : Text) : Prop := ∀ c ∈ r.head?, c.isDigit = false ∧ c ≠ '.' ∧ c.toLower ≠ 'e'

section
variable {ds r : Text}

theorem readDigits?_append (hds : AllDigits ds) (hne : ds ≠ [])
    (hr : ∀ c ∈ r.head?, c.isDigit = false) : readDigits? (ds ++ r) = some (ds, r) := by
  have hrun := (Decimal.takeWhile_append_of_head hds hr).1
  simp only [readDigits?, hrun, List.isEmpty_iff, if_neg hne, List.drop_left]

theorem readWhole_append (hds : AllDigits ds) (hne : ds ≠ [])
    (hzero : ¬ (ds.head? = some '0' ∧ 1 < ds.length)) (hr : ∀ c ∈ r.head?, c.isDigit = false) :
    readWhole (ds ++ r) = .ok (ds, r) := by
  simp only [readWhole, readDigits?_append hds hne hr, if_neg hzero]

theorem readFraction_append {fraction : Option Text}
    (hf : ∀ ds ∈ fraction, AllDigits ds ∧ ds ≠ [])
    (hr : ∀ c ∈ r.head?, c.isDigit = false ∧ c ≠ '.') :
    readFraction (fractionText fraction ++ r) = .ok (fraction, r) := by
  cases fraction with
  | none =>
    show readFraction r = _
    unfold readFraction
    split
    · exact absurd rfl (hr '.' rfl).2
    · rfl
  | some ds =>
    obtain ⟨hds, hne⟩ := hf ds rfl
    show readFraction ('.' :: (ds ++ r)) = _
    simp only [readFraction, readDigits?_append hds hne fun c hc => (hr c hc).1]

theorem readExponent_none (hr : Stops r) : readExponent r = .ok (none, r) := by
  cases r with
  | nil => rfl
  | cons c r => simp only [readExponent, if_neg (hr c rfl).2.2]

theorem readMinus_append (hds : AllDigits ds) (hne : ds ≠ []) :
    readMinus (ds ++ r) = (false, ds ++ r) := by
  cases ds with
  | nil => exact absurd rfl hne
  | cons d ds =>
    unfold readMinus
    split
    · rename_i heq
      have hd := hds d (List.mem_cons_self ..)
      rw [(List.cons.inj heq).1] at hd
      cases hd
    · rfl

end

theorem readExponent_power {power : Option Power} (hp : ∀ q ∈ power, q.Proper) {r : Text}
    (hr : Stops r) : readExponent (powerText power ++ r) = .ok (power.map Power.value, r) := by
  cases power with
  | none => exact readExponent_none hr
  | some p =>
    have hproper := hp p rfl
    have hdigits := readDigits?_append hproper.digits hproper.digits_ne_nil fun c hc => (hr c hc).1
    have hunsigned : readExponentSign (p.digits ++ r) = (false, p.digits ++ r) := by
      cases hd : p.digits with
      | nil => exact absurd hd hproper.digits_ne_nil
      | cons d ds =>
        have hdigit := hproper.digits d (by rw [hd]; exact List.mem_cons_self ..)
        unfold readExponentSign
        split
        · rename_i heq
          rw [(List.cons.inj heq).1] at hdigit
          cases hdigit
        · rename_i heq
          rw [(List.cons.inj heq).1] at hdigit
          cases hdigit
        · rfl
    have hsign : readExponentSign (p.sign ++ (p.digits ++ r)) =
        (decide (p.sign = ['-']), p.digits ++ r) := by
      obtain h | h | h := hproper.sign <;> rw [h]
      · exact hunsigned
      · rfl
      · rfl
    show readExponent (p.mark :: (p.sign ++ p.digits ++ r)) = _
    have hmark := Decimal.toLower_eq_e_iff.mpr hproper.mark
    simp only [readExponent, if_pos hmark, List.append_assoc, hsign, hdigits, Option.map_some,
      Power.value, decide_eq_true_eq]

theorem readMinus_minus {isMinus : Bool} {ds r : Text} (hds : AllDigits ds) (hne : ds ≠ []) :
    readMinus (Single.minus isMinus ++ (ds ++ r)) = (isMinus, ds ++ r) := by
  cases isMinus with
  | false =>
    show readMinus (ds ++ r) = (false, ds ++ r)
    exact readMinus_append hds hne
  | true => rfl

section
variable {p : Numeric} (hp : p.Proper) {r : Text} (hr : Stops r)

include hp in
theorem Numeric.Proper.starts : ∃ d s, p.text = d :: s ∧ (d = '-' || d.isDigit) = true := by
  unfold Numeric.text DecimalText.text
  cases p.isMinus with
  | true => exact ⟨'-', _, rfl, rfl⟩
  | false =>
    cases hw : p.whole with
    | nil => exact absurd hw hp.whole_ne_nil
    | cons d ds =>
      have hd := hp.whole d (by rw [hw]; exact List.mem_cons_self ..)
      exact ⟨d, _, rfl, by rw [hd, Bool.or_true]⟩

include hp hr in
/-- the parts of a number are found one after the other -/
theorem Numeric.Proper.taken :
    ∃ t u v, readMinus (p.text ++ r) = (p.isMinus, t) ∧ readWhole t = .ok (p.whole, u) ∧
      readFraction u = .ok (p.fraction, v) ∧ readExponent v = .ok (p.power.map Power.value, r) := by
  have hbehind : ∀ c ∈ (powerText p.power ++ r).head?, c.isDigit = false ∧ c ≠ '.' := by
    cases hq : p.power with
    | none => exact fun c hc => ⟨(hr c hc).1, (hr c hc).2.1⟩
    | some q =>
      intro c hc
      cases hc
      obtain h | h := (hp.power q hq).mark <;> rw [h] <;> exact ⟨rfl, by decide⟩
  have hpoint : ∀ c ∈ (fractionText p.fraction ++ (powerText p.power ++ r)).head?,
      c.isDigit = false := by
    cases p.fraction with
    | none => exact fun c hc => (hbehind c hc).1
    | some ds =>
      intro c hc
      cases hc
      rfl
  have htext : p.text ++ r = Single.minus p.isMinus ++
      (p.whole ++ (fractionText p.fraction ++ (powerText p.power ++ r))) := by
    simp only [Numeric.text, DecimalText.text, List.append_assoc]
  rw [htext]
  exact ⟨_, _, _, readMinus_minus hp.whole hp.whole_ne_nil,
    readWhole_append hp.whole hp.whole_ne_nil hp.leading hpoint,
    readFraction_append hp.fraction hbehind, readExponent_power hp.power hr⟩

include hp hr in
theorem Numeric.Proper.readParts : readParts (p.text ++ r) = .ok (p.parts, r) := by
  obtain ⟨t, u, v, hminus, hwhole, hfraction, hexponent⟩ := hp.taken hr
  simp only [Json.readParts, hminus, hwhole, hfraction, hexponent]
  rfl

include hp hr in
theorem Numeric.Proper.readNumber {α : Type} {convert : Parts → Option α} {x : α}
    (hx : convert p.parts = some x) : readNumber convert (p.text ++ r) = .ok (x, r) := by
  simp only [Json.readNumber, hp.readParts hr, hx]

include hp hr in
theorem Numeric.Proper.skipNumber : skipNumber (p.text ++ r) = .ok r := by
  obtain ⟨t, u, v, hminus, hwhole, hfraction, hexponent⟩ := hp.taken hr
  simp only [Json.skipNumber, hminus, hwhole, hfraction, hexponent]

end

theorem not_isJsonSpace_of_number {d : Char} (hd : (d = '-' || d.isDigit) = true) :
    isJsonSpace d = false := by
  cases hs : isJsonSpace d with
  | false => rfl
  | true =>
    simp only [isJsonSpace, Bool.or_eq_true, decide_eq_true_eq] at hs
    obtain ((rfl | rfl) | rfl) | rfl := hs <;> cases hd

theorem stops_of_closes {r : Text} (h : Closes r) : Stops r := by
  intro c hc
  obtain hspace | rfl | rfl | rfl := h c hc
  · simp only [isJsonSpace, Bool.or_eq_true, decide_eq_true_eq] at hspace
    obtain ((rfl | rfl) | rfl) | rfl := hspace <;> exact ⟨rfl, by decide, by decide⟩
  · exact ⟨rfl, by decide, by decide⟩
  · exact ⟨rfl, by decide, by decide⟩
  · exact ⟨rfl, by decide, by decide⟩

end LineEditor.Json
