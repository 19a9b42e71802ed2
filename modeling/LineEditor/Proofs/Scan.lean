import LineEditor.Proofs.Utf8

/-!
# The byte scanners find the lexemes

At a place of a line each scanner of bytes answers with the length that its counterpart on
characters has for the text behind the place (`Finds`), and the index that it answers is a place
again.

* `scanNumber_finds`, `scanOperator_finds`   nothing but ASCII is read;
* `scanBody_restAt`                          a jump over an escape may end inside a character, and
                                             the scan runs on to the end of that character;
* `scanLexeme_eq`                            one lexeme.
-/

namespace LineEditor

/-! ## ASCII classes -/

theorem IsAscii.or {p q : Char → Bool} (hp : IsAscii p) (hq : IsAscii q) :
    IsAscii fun c => p c || q c := by
  intro c h
  rcases Bool.or_eq_true _ _ ▸ h with h | h
  · exact hp c h
  · exact hq c h

theorem isAscii_between {a b : Char} (hb : b.toNat < 128) : IsAscii fun c => a ≤ c && c ≤ b := by
  intro c h
  have hc : c ≤ b := of_decide_eq_true (Bool.and_eq_true _ _ ▸ h).2
  exact Nat.lt_of_le_of_lt (UInt32.le_iff_toNat_le.mp hc) hb

theorem isAscii_isDigit : IsAscii Char.isDigit := isAscii_between (by decide)

theorem isAscii_isAlpha : IsAscii Char.isAlpha := by
  refine IsAscii.or (p := Char.isUpper) (fun c h => ?_) (isAscii_between (by decide))
  have hc : c.val ≤ 'Z'.val := (of_decide_eq_true h).2
  exact Nat.lt_of_le_of_lt (UInt32.le_iff_toNat_le.mp hc) (by decide)

theorem toLower_of_le {c : Char} (h : 128 ≤ c.toNat) : c.toLower = c := by
  unfold Char.toLower
  refine dif_neg fun hc => ?_
  exact absurd (Nat.le_trans h (UInt32.le_iff_toNat_le.mp hc.2)) (by decide)

theorem IsAscii.toLower {p : Char → Bool} (hp : IsAscii p) : IsAscii fun c => p c.toLower := by
  intro c h
  refine Nat.lt_of_not_le fun hc => ?_
  replace h : p c.toLower = true := h
  rw [toLower_of_le hc, hp.eq_false hc] at h
  cases h

/-- whether the members of a class are `cs`, as far as the first 128 characters tell -/
def lists (cs : List Char) (p : Char → Bool) : Bool :=
  ((List.range 128).all fun n => p (Char.ofNat n) == cs.contains (Char.ofNat n)) &&
    cs.all fun c => c.toNat < 128

theorem IsAscii.iff_mem {p : Char → Bool} (hp : IsAscii p) {cs : List Char}
    (h : lists cs p = true) (c : Char) : p c = true ↔ c ∈ cs := by
  obtain ⟨hsame, hcs⟩ := Bool.and_eq_true_iff.mp h
  have hsmall (hc : c.toNat < 128) : p c = cs.contains c := by
    have hn := List.all_eq_true.mp hsame c.toNat (List.mem_range.mpr hc)
    rw [Char.ofNat_toNat] at hn
    exact eq_of_beq hn
  rw [← List.contains_iff_mem]
  constructor
  · intro hc
    rwa [← hsmall (hp c hc)]
  · intro hc
    rwa [hsmall (of_decide_eq_true (List.all_eq_true.mp hcs c (List.contains_iff_mem.mp hc)))]

namespace Token
open Text

theorem isAscii_isDigitOrBar : IsAscii isDigitOrBar :=
  isAscii_isDigit.or (isAscii_eq (by decide))

theorem isAscii_isSpace : IsAscii isSpace :=
  (isAscii_eq (by decide)).or (isAscii_eq (by decide))

theorem isAscii_isQuote : IsAscii isQuote :=
  (isAscii_eq (by decide)).or (isAscii_eq (by decide))

theorem isAscii_isWordStart : IsAscii isWordStart := isAscii_isAlpha.or (isAscii_eq (by decide))

theorem isAscii_isWordChar : IsAscii isWordChar :=
  (isAscii_isAlpha.or isAscii_isDigit).or (isAscii_eq (by decide))

theorem isAscii_isPathChar : IsAscii isPathChar := isAscii_isWordChar.or (isAscii_eq (by decide))

theorem isAscii_radixDigit {mark : Char} {digit : Char → Bool}
    (h : radixDigit? mark = some digit) : IsAscii digit := by
  unfold radixDigit? at h
  split at h
  · cases h
    exact (isAscii_isDigit.or (IsAscii.toLower (isAscii_between (by decide)))).or
      (isAscii_eq (by decide))
  · cases h
    exact ((isAscii_eq (by decide)).or (isAscii_eq (by decide))).or (isAscii_eq (by decide))
  · cases h
    exact (isAscii_between (by decide)).or (isAscii_eq (by decide))
  · cases h

theorem radixDigit?_of_le {mark : Char} (h : 128 ≤ mark.toNat) : radixDigit? mark = none := by
  unfold radixDigit?
  rw [toLower_of_le h]
  split
  · exact absurd h (by decide)
  · exact absurd h (by decide)
  · exact absurd h (by decide)
  · rfl

/-! ## What a scanner answers -/

/-- what a scanner answers at a place with `s` behind it where `n` characters match; zero says that
there is no match -/
def Finds (line s : Text) (n : Nat) : Option Nat → Prop
  | none => n = 0
  | some stop => 0 < n ∧ RestAt line stop (s.drop n)

section
variable {line : Text} {i : Nat} {s : Text}

theorem Finds.max {m n : Nat} {o o' : Option Nat} (h : Finds line s m o) (h' : Finds line s n o') :
    Finds line s (Nat.max m n) (max o o') := by
  cases o with
  | none =>
    have hm : m = 0 := h
    rw [Option.max_none_left, hm]
    show Finds line s (Nat.max 0 n) o'
    rwa [show Nat.max 0 n = n from Nat.zero_max n]
  | some a =>
    cases o' with
    | none =>
      have hn : n = 0 := h'
      rw [Option.max_none_right, hn]
      show Finds line s (Nat.max m 0) (some a)
      rwa [show Nat.max m 0 = m from Nat.max_zero m]
    | some b =>
      obtain ⟨hm, ha⟩ := h
      obtain ⟨hn, hb⟩ := h'
      rw [Option.max_some_some]
      rcases Nat.le_total m n with e | e
      · rw [show Nat.max m n = n from Nat.max_eq_right e, Nat.max_eq_right (ha.le hb e)]
        exact ⟨hn, hb⟩
      · rw [show Nat.max m n = m from Nat.max_eq_left e, Nat.max_eq_left (hb.le ha e)]
        exact ⟨hm, ha⟩

/-! ## Numeric literals -/

theorem digitRun_pos_iff (s : Text) : 0 < digitRun s ↔ s.head?.any Char.isDigit = true := by
  cases s with
  | nil => simp [digitRun]
  | cons c s =>
    rw [digitRun, List.head?_cons, Option.any_some]
    cases c.isDigit with
    | false => exact iff_of_false (Nat.lt_irrefl 0) Bool.false_ne_true
    | true =>
      refine iff_of_true ?_ rfl
      rw [if_pos rfl, Nat.add_comm]
      exact Nat.succ_pos _

theorem scanDigits_restAt (h : RestAt line i s) :
    RestAt line (scanDigits line.encode i) (s.drop (digitRun s)) := by
  unfold scanDigits
  rw [byteIs_eq h isAscii_isDigit]
  cases s with
  | nil => exact h
  | cons c s =>
    rw [List.head?_cons, Option.any_some, digitRun]
    cases hc : c.isDigit with
    | false => exact h
    | true =>
      rw [if_pos rfl, if_pos rfl, Nat.add_comm 1]
      exact restAt_skip (h.next_ascii (isAscii_isDigit c hc)) isAscii_isDigitOrBar

theorem byte_radixDigit? (h : RestAt line i s) :
    (line.encode[i]?.bind fun b => radixDigit? (Char.ofUInt8 b)) = s.head?.bind radixDigit? := by
  cases s with
  | nil =>
    rw [Array.getElem?_eq_none (Nat.le_of_eq h.size_of_nil)]
    rfl
  | cons mark s =>
    obtain ⟨b, bs, e, hb⟩ := first_byte h
    rw [hb, Option.bind_some, List.head?_cons, Option.bind_some]
    by_cases hm : mark.toNat < 128
    · rw [utf8EncodeChar_ascii hm] at e
      cases e
      rw [ofUInt8_ascii hm]
    · have hm' : 128 ≤ mark.toNat := Nat.not_lt.mp hm
      have hb' : 128 ≤ (Char.ofUInt8 b).toNat :=
        le_toNat_of_mem_utf8EncodeChar hm' (e ▸ List.mem_cons_self)
      rw [radixDigit?_of_le hm', radixDigit?_of_le hb']

theorem lt_of_radixDigit? {mark : Char} {digit : Char → Bool} (h : radixDigit? mark = some digit) :
    mark.toNat < 128 := by
  refine Nat.lt_of_not_le fun hm => ?_
  rw [radixDigit?_of_le hm] at h
  cases h

theorem scanRadix_finds (h : RestAt line i s) :
    Finds line s (radixNumber s) (scanRadix line.encode i) := by
  unfold scanRadix
  rw [byteIs_eq h (isAscii_eq (by decide))]
  cases s with
  | nil => rfl
  | cons c s =>
    by_cases hc : c = '0'
    · subst hc
      have h1 : RestAt line (i + 1) s := h.next_ascii (by decide)
      rw [byte_radixDigit? h1, List.head?_cons, Option.any_some, if_pos (by decide)]
      cases s with
      | nil => rfl
      | cons mark s =>
        rw [List.head?_cons, Option.bind_some, radixNumber]
        cases hd : radixDigit? mark with
        | none => rfl
        | some digit =>
          have h2 : RestAt line (i + 2) s := h1.next_ascii (lt_of_radixDigit? hd)
          have hs := restAt_skip h2 (isAscii_radixDigit hd)
          have hl := skip_eq h2 (isAscii_radixDigit hd)
          by_cases hr : s.takeWhile digit = []
          · rw [hr, List.length_nil, Nat.add_zero] at hl
            simp [hl, hr, Finds]
          · have hp : 0 < (s.takeWhile digit).length := List.length_pos_iff.mpr hr
            have hlt : i + 2 < skip digit line.encode (i + 2) := by omega
            simp only [hlt, if_true, List.isEmpty_iff, hr, if_false]
            refine ⟨by omega, ?_⟩
            rw [Nat.add_comm 2]
            exact hs
    · have hr : radixNumber (c :: s) = 0 := by
        unfold radixNumber
        split
        · rename_i e
          exact absurd (List.cons.inj e).1 hc
        · rfl
      rw [List.head?_cons, Option.any_some, if_neg (by simpa using hc), hr]
      rfl

/-- a point at the start of `s`, with `t` behind it -/
theorem scanPoint (h : RestAt line i s) :
    (byteIs (· = '.') line.encode i = true ∧ ∃ t, s = '.' :: t ∧ RestAt line (i + 1) t) ∨
      (byteIs (· = '.') line.encode i = false ∧ ∀ t, s ≠ '.' :: t) := by
  rw [byteIs_eq h (isAscii_eq (by decide))]
  cases s with
  | nil => exact .inr ⟨rfl, fun t e => nomatch e⟩
  | cons c t =>
    by_cases hc : c = '.'
    · subst hc
      exact .inl ⟨rfl, t, rfl, h.next_ascii (by decide)⟩
    · exact .inr ⟨by simpa using hc, fun t e => hc (List.cons.inj e).1⟩

theorem mantissa_point {t : Text} (hs : s.drop (digitRun s) = '.' :: t) :
    mantissa s = if digitRun s = 0 ∧ digitRun t = 0 then 0 else digitRun s + 1 + digitRun t := by
  unfold mantissa
  rw [hs]
  rfl

theorem mantissa_of_ne (hs : ∀ t, s.drop (digitRun s) ≠ '.' :: t) : mantissa s = digitRun s := by
  unfold mantissa
  split
  · rename_i t e
    exact absurd e (hs t)
  · rfl

theorem scanMantissa_finds (h : RestAt line i s) :
    Finds line s (mantissa s) (scanMantissa line.encode i) := by
  have hd : RestAt line (scanDigits line.encode i) (s.drop (digitRun s)) := scanDigits_restAt h
  have hn := digitRun_pos_iff s
  unfold scanMantissa
  rw [byteIs_eq h isAscii_isDigit]
  by_cases hs : s.head?.any Char.isDigit = true
  · have hpos : 0 < digitRun s := hn.mpr hs
    rw [if_pos hs]
    rcases scanPoint hd with ⟨e, t, ht, h1⟩ | ⟨e, ht⟩
    · have h2 := scanDigits_restAt h1
      rw [mantissa_point ht, if_neg (fun hz => Nat.ne_of_gt hpos hz.1)]
      simp only [e, if_true]
      refine ⟨by omega, ?_⟩
      rw [Nat.add_assoc, ← List.drop_drop, ht, Nat.add_comm 1]
      exact h2
    · rw [mantissa_of_ne ht]
      simp only [e, Bool.false_eq_true, if_false]
      exact ⟨hpos, hd⟩
  · have hz : digitRun s = 0 := Nat.eq_zero_of_not_pos (fun hp => hs (hn.mp hp))
    rw [if_neg hs]
    rcases scanPoint h with ⟨e, t, ht, h1⟩ | ⟨e, ht⟩
    · have ht' : s.drop (digitRun s) = '.' :: t := by rw [hz, List.drop_zero, ht]
      have h2 := scanDigits_restAt h1
      have hnt := digitRun_pos_iff t
      rw [mantissa_point ht', hz, e, Bool.true_and, byteIs_eq h1 isAscii_isDigit]
      by_cases htd : t.head?.any Char.isDigit = true
      · have hpos : 0 < digitRun t := hnt.mpr htd
        rw [if_pos htd, if_neg (fun hz => Nat.ne_of_gt hpos hz.2)]
        refine ⟨by omega, ?_⟩
        rw [ht, Nat.zero_add, Nat.add_comm 1]
        exact h2
      · have hzt : digitRun t = 0 := Nat.eq_zero_of_not_pos (fun hp => htd (hnt.mp hp))
        rw [if_neg htd, if_pos ⟨rfl, hzt⟩]
        rfl
    · rw [mantissa_of_ne (by rwa [hz, List.drop_zero]), hz, e]
      rfl

theorem sign_restAt (h : RestAt line i s) :
    RestAt line (if byteIs (fun c => c = '+' || c = '-') line.encode i then i + 1 else i)
      (s.drop (sign s)) := by
  have hp : IsAscii fun c => c = '+' || c = '-' :=
    (isAscii_eq (by decide)).or (isAscii_eq (by decide))
  rw [byteIs_eq h hp]
  cases s with
  | nil => exact h
  | cons c s =>
    rw [List.head?_cons, Option.any_some, sign]
    by_cases hc : (c = '+' || c = '-') = true
    · rw [if_pos hc, if_pos hc]
      exact h.next_ascii (hp c hc)
    · rw [if_neg hc, if_neg hc]
      exact h

theorem scanExponent_restAt (h : RestAt line i s) :
    RestAt line (scanExponent line.encode i) (s.drop (exponent s)) := by
  have hp : IsAscii fun e => e.toLower = 'e' := IsAscii.toLower (isAscii_eq (by decide))
  unfold scanExponent
  rw [byteIs_eq h hp]
  cases s with
  | nil => exact h
  | cons e s =>
    rw [List.head?_cons, Option.any_some]
    by_cases he : e.toLower = 'e'
    · have h1 : RestAt line (i + 1) s := h.next_ascii (hp e (by simpa using he))
      have h2 := sign_restAt h1
      have h3 := scanDigits_restAt h2
      have hn := digitRun_pos_iff (s.drop (sign s))
      rw [if_pos (by simpa using he)]
      simp only [byteIs_eq h2 isAscii_isDigit]
      by_cases hd : (s.drop (sign s)).head?.any Char.isDigit = true
      · have hx : exponent (e :: s) = sign s + digitRun (s.drop (sign s)) + 1 := by
          have hr : e.toLower = 'e' ∧ 0 < digitRun (s.drop (sign s)) := ⟨he, hn.mpr hd⟩
          rw [exponent, if_pos hr, Nat.add_assoc, Nat.add_comm]
        rw [if_pos hd, hx, List.drop_succ_cons, ← List.drop_drop]
        exact h3
      · have hx : exponent (e :: s) = 0 := by
          rw [exponent, if_neg (fun hr => hd (hn.mp hr.2))]
        rw [if_neg hd, hx]
        exact h
    · have hx : exponent (e :: s) = 0 := by
        rw [exponent, if_neg (fun hr => he hr.1)]
      rw [if_neg (by simpa using he), hx]
      exact h

theorem scanNumber_finds (h : RestAt line i s) :
    Finds line s (number s) (scanNumber line.encode i) := by
  refine (scanRadix_finds h).max ?_
  have hm := scanMantissa_finds h
  unfold decimalNumber
  cases e : scanMantissa line.encode i with
  | none =>
    rw [e] at hm
    have hz : mantissa s = 0 := hm
    rw [if_pos hz]
    rfl
  | some j =>
    rw [e] at hm
    obtain ⟨hpos, hj⟩ := hm
    rw [if_neg (Nat.ne_of_gt hpos)]
    refine ⟨by omega, ?_⟩
    rw [← List.drop_drop]
    exact scanExponent_restAt hj

/-! ## Operators -/

theorem operators_ascii : ∀ o ∈ operators, o.toList ≠ [] ∧ ∀ c ∈ o.toList, c.toNat < 128 := by
  intro o ho
  have hall : (operators.all fun o =>
      o.toList ≠ [] && o.toList.all fun c => c.toNat < 128) = true := by decide
  have h := Bool.and_eq_true_iff.mp (List.all_eq_true.mp hall o ho)
  exact ⟨of_decide_eq_true h.1, fun c hc => of_decide_eq_true (List.all_eq_true.mp h.2 c hc)⟩

theorem scanOperator_finds (h : RestAt line i s) :
    Finds line s (operator s) (scanOperator line.encode i) := by
  have hf : (operators.find? fun o => byteStarts line.encode o.toList i)
      = operators.find? fun o => o.toList.isPrefixOf s := by
    rw [← List.head?_filter, ← List.head?_filter]
    refine congrArg List.head? (List.filter_congr fun o ho => ?_)
    rw [Bool.eq_iff_iff, byteStarts_iff h (operators_ascii o ho).2, List.isPrefixOf_iff_prefix]
  unfold scanOperator operator
  rw [hf]
  cases e : operators.find? fun o => o.toList.isPrefixOf s with
  | none => rfl
  | some o =>
    have ho := operators_ascii o (List.mem_of_find?_eq_some e)
    have hp : o.toList <+: s :=
      List.isPrefixOf_iff_prefix.mp (List.find?_some (p := fun o : String => o.toList.isPrefixOf s) e)
    exact ⟨List.length_pos_iff.mpr ho.1, h.drop hp ho.2⟩

/-! ## The opener of a string literal -/

theorem byteStarts_iff_text (bytes : Array UInt8) (w : Text) (i : Nat) :
    byteStarts bytes w i = true ↔ w <+: (bytes.toList.drop i).map Char.ofUInt8 := by
  induction w generalizing i with
  | nil => simp [byteStarts]
  | cons c w ih =>
    rw [byteStarts, Bool.and_eq_true, ih, byteIs]
    by_cases hi : i < bytes.size
    · have hl : i < bytes.toList.length := hi
      rw [List.drop_eq_getElem_cons hl, List.map_cons, List.cons_prefix_cons,
        Array.getElem?_eq_getElem hi, Array.getElem_toList]
      simp [eq_comm]
    · have hn : bytes.size ≤ i := Nat.not_lt.mp hi
      have hl : bytes.toList.drop i = [] := List.drop_eq_nil_of_le hn
      rw [Array.getElem?_eq_none hn, hl]
      simp

theorem byteText_eq_ok_iff (bytes : Array UInt8) (w : Text) (i : Nat) (hi : i ≤ bytes.size) :
    byteText bytes i (i + w.length) = .ok w ↔ byteStarts bytes w i = true := by
  have he : (bytes.extract i (i + w.length)).toList.map Char.ofUInt8
      = ((bytes.toList.drop i).map Char.ofUInt8).take w.length := by
    rw [Array.toList_extract, List.extract_eq_take_drop, Nat.add_sub_cancel_left, List.map_take]
  rw [byteStarts_iff_text, List.prefix_iff_eq_take, byteText, he]
  constructor
  · intro h
    split at h
    · exact (Except.ok.inj h).symm
    · cases h
  · intro h
    have hl := congrArg List.length h
    have hs : bytes.toList.length = bytes.size := Array.length_toList
    rw [List.length_take, List.length_map, List.length_drop, hs] at hl
    rw [if_pos (by omega), ← h]

theorem byteText_eq_iff {w : Text} (h : RestAt line i s) (hw : ∀ c ∈ w, c.toNat < 128) :
    byteText line.encode i (i + w.length) = .ok w ↔ w <+: s := by
  have hi : i ≤ line.encode.size := by
    rw [size_encode, ← h.size]
    exact Nat.le_add_right i _
  rw [byteText_eq_ok_iff line.encode w i hi, byteStarts_iff h hw]

theorem length_of_byteText {bytes : Array UInt8} {w : Text} {n : Nat}
    (h : byteText bytes i (i + n) = .ok w) : w.length = n := by
  unfold byteText at h
  split at h
  · rename_i hi
    cases h
    rw [List.length_map, Array.length_toList, Array.size_extract]
    omega
  · cases h

theorem isAlpha_of_toLower {c : Char} (h : c.toLower.isAlpha = true) : c.isAlpha = true := by
  by_cases hu : c.isUpper = true
  · show (c.isUpper || c.isLower) = true
    rw [hu, Bool.true_or]
  · have e : c.toLower = c := dif_neg fun h' => hu (decide_eq_true h')
    rwa [e] at h

theorem literalPrefixes_alpha :
    ∀ p ∈ literalPrefixes, p.toList.length ≤ 3 ∧ ∀ c ∈ p.toList, c.isAlpha = true := by
  intro p hp
  have hall : (literalPrefixes.all fun p =>
      p.toList.length ≤ 3 && p.toList.all Char.isAlpha) = true := by decide
  have h := Bool.and_eq_true_iff.mp (List.all_eq_true.mp hall p hp)
  exact ⟨of_decide_eq_true h.1, List.all_eq_true.mp h.2⟩

theorem isAlpha_of_isLiteralPrefix {w : Text} (h : isLiteralPrefix w = true) :
    w.length ≤ 3 ∧ ∀ c ∈ w, c.isAlpha = true := by
  obtain ⟨p, hp, e⟩ := List.any_eq_true.mp h
  have e' : p.toList = w.map Char.toLower := of_decide_eq_true e
  have ha := literalPrefixes_alpha p hp
  rw [e'] at ha
  refine ⟨by simpa using ha.1, fun c hc => ?_⟩
  exact isAlpha_of_toLower (ha.2 _ (List.mem_map_of_mem hc))

theorem not_isAlpha_of_isQuote {q : Char} (h : isQuote q = true) : q.isAlpha = false := by
  rcases Bool.or_eq_true _ _ ▸ h with h | h
  · rw [of_decide_eq_true h]
    rfl
  · rw [of_decide_eq_true h]
    rfl

theorem ascii_of_isLiteralPrefix {w : Text} (h : isLiteralPrefix w = true) :
    ∀ c ∈ w, c.toNat < 128 :=
  fun c hc => isAscii_isAlpha c ((isAlpha_of_isLiteralPrefix h).2 c hc)

theorem prefixFits_iff (h : RestAt line i s) (n : Nat) :
    prefixFits line.encode i n = true ↔ ∃ w q t, s = w ++ q :: t ∧ w.length = n ∧
      isLiteralPrefix w = true ∧ isQuote q = true := by
  rw [prefixFits, Bool.and_eq_true]
  constructor
  · rintro ⟨hq, hw⟩
    cases e : byteText line.encode i (i + n) with
    | error f =>
      rw [e] at hw
      cases hw
    | ok w =>
      rw [e] at hw
      have hl : w.length = n := length_of_byteText e
      subst hl
      have hascii := ascii_of_isLiteralPrefix hw
      have hp : w <+: s := (byteText_eq_iff h hascii).mp e
      have hr := h.drop hp hascii
      rw [byteIs_eq hr isAscii_isQuote] at hq
      cases et : s.drop w.length with
      | nil =>
        rw [et] at hq
        cases hq
      | cons q t =>
        rw [et] at hq
        refine ⟨w, q, t, ?_, rfl, hw, hq⟩
        rw [← et]
        exact (List.prefix_iff_eq_append.mp hp).symm
  · rintro ⟨w, q, t, rfl, rfl, hw, hq⟩
    have hascii := ascii_of_isLiteralPrefix hw
    have hp : w <+: w ++ q :: t := List.prefix_append w (q :: t)
    have hr := h.drop hp hascii
    rw [List.drop_left] at hr
    rw [(byteText_eq_iff h hascii).mpr hp, byteIs_eq hr isAscii_isQuote]
    exact ⟨hq, hw⟩

/-! ## The rest of a string literal -/

section
variable {raw : Bool} {closer : Text} {c : Char}

/-- a scan that stands inside of a character runs on to its end -/
theorem scanBody_inside (hne : closer ≠ []) (hclo : ∀ a ∈ closer, a.toNat < 128)
    (h : RestAt line i (c :: s)) (hc : 128 ≤ c.toNat) (k : Nat) (hk : k ≤ c.utf8Size) :
    scanBody raw closer line.encode (i + k) = scanBody raw closer line.encode (i + c.utf8Size) := by
  obtain ⟨d, hd⟩ : ∃ d, c.utf8Size = k + d := Nat.exists_eq_add_of_le hk
  induction d generalizing k with
  | zero => rw [hd, Nat.add_zero]
  | succ d ih =>
    have hlt : k < c.utf8Size := by omega
    have hsize : i + k < line.encode.size := by
      rw [size_encode, ← h.size, utf8Size_cons]
      omega
    obtain ⟨a, as, rfl⟩ := List.exists_cons_of_ne_nil hne
    have ha : a.toNat < 128 := hclo a List.mem_cons_self
    rw [scanBody, if_pos hsize, byteStarts, byteIs_inside h hc (isAscii_eq (by decide)) hlt,
      byteIs_inside h hc (isAscii_eq ha) hlt, Bool.and_false, Bool.false_and]
    simp only [Bool.false_eq_true, if_false]
    exact ih (k + 1) (by omega) (by omega)

theorem scanBody_next (hne : closer ≠ []) (hclo : ∀ a ∈ closer, a.toNat < 128)
    (h : RestAt line i (c :: s)) :
    scanBody raw closer line.encode (i + 1)
      = scanBody raw closer line.encode (i + c.utf8Size) := by
  by_cases hc : c.toNat < 128
  · rw [utf8Size_ascii hc]
  · exact scanBody_inside hne hclo h (Nat.not_lt.mp hc) 1 c.utf8Size_pos

/-- **The rest of a literal.**  Behind a backslash (`escaped`) the scan of bytes is one byte ahead,
which may be inside of the escaped character or behind the end of the line. -/
theorem scanBody_restAt (hne : closer ≠ []) (hclo : ∀ a ∈ closer, a.toNat < 128)
    (h : RestAt line i s) (escaped : Bool) :
    RestAt line
      (min (scanBody raw closer line.encode (if escaped then i + 1 else i)) line.encode.size)
      (s.drop (literalBody raw closer escaped s)) := by
  induction s generalizing i escaped with
  | nil =>
    have hs : line.encode.size = i := h.size_of_nil
    have hb : ∀ j, i ≤ j → scanBody raw closer line.encode j = j := by
      intro j hj
      rw [scanBody, if_neg (by omega)]
    rw [List.drop_nil, hs]
    cases escaped with
    | false =>
      simp only [Bool.false_eq_true, if_false]
      rwa [hb i (Nat.le_refl i), Nat.min_self]
    | true =>
      simp only [if_true]
      rwa [hb (i + 1) (Nat.le_succ i), Nat.min_eq_right (Nat.le_succ i)]
  | cons c s ih =>
    have hstep : RestAt line (min (scanBody raw closer line.encode (i + 1)) line.encode.size)
        ((c :: s).drop (1 + literalBody raw closer false s)) := by
      rw [scanBody_next hne hclo h, Nat.add_comm 1, List.drop_succ_cons]
      exact ih h.next false
    cases escaped with
    | true => exact hstep
    | false =>
      simp only [Bool.false_eq_true, if_false]
      rw [scanBody, if_pos h.lt_size, byteIs_eq h (isAscii_eq (by decide)), List.head?_cons,
        Option.any_some, literalBody]
      by_cases hesc : (!raw && decide (c = '\\')) = true
      · have hc : c = '\\' := of_decide_eq_true (Bool.and_eq_true _ _ ▸ hesc).2
        have h1 : RestAt line (i + 1) s := h.next_ascii (by rw [hc]; decide)
        rw [if_pos hesc, if_pos hesc, Nat.add_comm 1, List.drop_succ_cons]
        exact ih h1 true
      · rw [if_neg hesc, if_neg hesc]
        by_cases hp : closer <+: c :: s
        · have hr := h.drop hp hclo
          have hle : i + closer.length ≤ line.encode.size := by
            rw [size_encode, ← hr.size]
            exact Nat.le_add_right _ _
          rw [if_pos ((byteStarts_iff h hclo).mpr hp), if_pos (List.isPrefixOf_iff_prefix.mpr hp),
            Nat.min_eq_left hle]
          exact hr
        · rw [if_neg (fun hb => hp ((byteStarts_iff h hclo).mp hb)),
            if_neg (fun hb => hp (List.isPrefixOf_iff_prefix.mp hb))]
          exact hstep

end

/-! ## String literals -/

theorem takeWhile_isAlpha {w t : Text} {q : Char} (hw : ∀ c ∈ w, c.isAlpha = true)
    (hq : isQuote q = true) : (w ++ q :: t).takeWhile Char.isAlpha = w := by
  rw [List.takeWhile_append_of_pos hw, List.takeWhile_cons, not_isAlpha_of_isQuote hq]
  simp

theorem literal_append {w t : Text} {q : Char} (hw : isLiteralPrefix w = true)
    (hq : isQuote q = true) :
    literal (w ++ q :: t) = w.length + (opener q t).length
      + literalBody (isRaw w) (opener q t) false ((q :: t).drop (opener q t).length) := by
  simp only [literal, takeWhile_isAlpha (isAlpha_of_isLiteralPrefix hw).2 hq, List.drop_left, hq,
    hw, Bool.and_self, if_true]

theorem literal_eq_zero
    (h : ∀ w q t, s = w ++ q :: t → isLiteralPrefix w = true → isQuote q = false) :
    literal s = 0 := by
  have hs : s.takeWhile Char.isAlpha ++ s.drop (s.takeWhile Char.isAlpha).length = s :=
    List.prefix_iff_eq_append.mp (List.takeWhile_prefix Char.isAlpha)
  cases e : s.drop (s.takeWhile Char.isAlpha).length with
  | nil => simp only [literal, e]
  | cons q t =>
    rw [e] at hs
    cases hw : isLiteralPrefix (s.takeWhile Char.isAlpha) with
    | false => simp only [literal, e, hw, Bool.and_false, Bool.false_eq_true, if_false]
    | true =>
      have hq := h _ q t hs.symm hw
      simp only [literal, e, hq, Bool.false_and, Bool.false_eq_true, if_false]

theorem byte_opener {q : Char} {t : Text} (h : RestAt line i (q :: t)) (hq : isQuote q = true) :
    (if byteStarts line.encode [q, q, q] i then [q, q, q] else [q]) = opener q t := by
  have ha : ∀ c ∈ [q, q, q], c.toNat < 128 := by
    intro c hc
    simp only [List.mem_cons, List.not_mem_nil, or_false, or_self] at hc
    rw [hc]
    exact isAscii_isQuote q hq
  have he : byteStarts line.encode [q, q, q] i = true ↔ [q, q].isPrefixOf t = true := by
    rw [byteStarts_iff h ha, List.cons_prefix_cons, List.isPrefixOf_iff_prefix]
    exact and_iff_right rfl
  unfold opener
  simp only [he]

theorem mem_opener {q a : Char} {t : Text} (h : a ∈ opener q t) : a = q := by
  unfold opener at h
  split at h <;> simpa using h

theorem opener_length_pos (q : Char) (t : Text) : 0 < (opener q t).length := by
  unfold opener
  split <;> exact Nat.succ_pos _

theorem scanLiteral_finds (h : RestAt line i s) :
    ∃ o, scanLiteral line.encode i = .ok o ∧ Finds line s (literal s) o := by
  unfold scanLiteral
  cases e : [3, 2, 1, 0].find? (prefixFits line.encode i) with
  | none =>
    refine ⟨none, rfl, literal_eq_zero fun w q t hs hw => ?_⟩
    have hl : w.length ∈ [3, 2, 1, 0] := by
      have := (isAlpha_of_isLiteralPrefix hw).1
      simp only [List.mem_cons, List.not_mem_nil, or_false]
      omega
    have hf := List.find?_eq_none.mp e w.length hl
    rw [prefixFits_iff h] at hf
    cases hq : isQuote q with
    | false => rfl
    | true => exact absurd ⟨w, q, t, hs, rfl, hw, hq⟩ hf
  | some n =>
    obtain ⟨w, q, t, rfl, rfl, hw, hq⟩ := (prefixFits_iff h n).mp (List.find?_some e)
    have hascii := ascii_of_isLiteralPrefix hw
    have hp : w <+: w ++ q :: t := List.prefix_append w (q :: t)
    have hr := h.drop hp hascii
    rw [List.drop_left] at hr
    obtain ⟨b, bs, eb, hb⟩ := first_byte hr
    have hbq : Char.ofUInt8 b = q := by
      rw [utf8EncodeChar_ascii (isAscii_isQuote q hq)] at eb
      cases eb
      exact ofUInt8_ascii (isAscii_isQuote q hq)
    have ho : ∀ a ∈ opener q t, a.toNat < 128 :=
      fun a ha => mem_opener ha ▸ isAscii_isQuote q hq
    have hne : opener q t ≠ [] := List.length_pos_iff.mp (opener_length_pos q t)
    have hopen : opener q t <+: q :: t := by
      exact isPrefix_opener q t
    have hbody : RestAt line (min (scanBody (isRaw w) (opener q t) line.encode _) _) _ :=
      scanBody_restAt hne ho (hr.drop hopen ho) false
    simp only [Bool.false_eq_true, if_false] at hbody
    simp only [(byteText_eq_iff h hascii).mpr hp, hb, hbq, byte_opener hr hq]
    refine ⟨_, rfl, ?_, ?_⟩
    · rw [literal_append hw hq]
      have := opener_length_pos q t
      omega
    · rw [literal_append hw hq, ← List.drop_drop, ← List.drop_drop, List.drop_left]
      exact hbody

/-! ## One lexeme -/

theorem restAt_run {c : Char} {p : Char → Bool} (h : RestAt line i (c :: s)) (hc : c.toNat < 128)
    (hp : IsAscii p) :
    RestAt line (skip p line.encode (i + 1)) ((c :: s).drop (run p s)) := by
  rw [run, Nat.add_comm 1]
  exact restAt_skip (h.next_ascii hc) hp

theorem scanChar_eq {c : Char} (h : RestAt line i (c :: s)) :
    scanChar line i = .ok (i + c.utf8Size) := by
  unfold scanChar
  rw [h.dropBytes]

/-- **One lexeme.**  The scanner of bytes finds the shape that characters have, and stops where
they stop. -/
theorem scanLexeme_eq {c first : Char} (h : RestAt line i (c :: s))
    (hf : ∀ p, IsAscii p → p first = p c) :
    ∃ stop, scanLexeme line line.encode i first = .ok ((munch c s).1, stop) ∧
      RestAt line stop ((c :: s).drop (munch c s).2) := by
  have hhash : first = '#' ↔ c = '#' := by
    simpa using congrArg (· = true) (hf (· = '#') (isAscii_eq (by decide)))
  have hat : first = '@' ↔ c = '@' := by
    simpa using congrArg (· = true) (hf (· = '@') (isAscii_eq (by decide)))
  unfold scanLexeme munch
  rw [hf isSpace isAscii_isSpace, hf isWordStart isAscii_isWordStart]
  simp only [hhash, hat]
  by_cases h1 : isSpace c = true
  · simp only [h1, if_true]
    exact ⟨_, rfl, restAt_run h (isAscii_isSpace c h1) isAscii_isSpace⟩
  simp only [h1, Bool.false_eq_true, if_false]
  by_cases h2 : c = '#'
  · simp only [h2, if_true]
    refine ⟨_, rfl, ?_⟩
    have hs : line.encode.size = i + utf8Size (c :: s) := by rw [size_encode, h.size]
    have hn : ('#' :: s).drop (1 + s.length) = [] := by simp [Nat.add_comm 1]
    rw [hs, hn]
    exact RestAt.add (t := c :: s) (by rwa [List.append_nil])
  simp only [h2, if_false]
  obtain ⟨o, ho, hl⟩ := scanLiteral_finds h
  rw [ho]
  cases o with
  | some stop =>
    simp only [hl.1, if_true]
    exact ⟨stop, rfl, hl.2⟩
  | none =>
    have hz : ¬ 0 < literal (c :: s) := Nat.not_lt.mpr (Nat.le_of_eq hl)
    simp only [hz, if_false]
    have hn := scanNumber_finds h
    cases en : scanNumber line.encode i with
    | some stop =>
      rw [en] at hn
      simp only [hn.1, if_true]
      exact ⟨stop, rfl, hn.2⟩
    | none =>
      rw [en] at hn
      have hz : ¬ 0 < number (c :: s) := Nat.not_lt.mpr (Nat.le_of_eq hn)
      simp only [hz, if_false]
      by_cases h3 : isWordStart c = true
      · simp only [h3, if_true]
        exact ⟨_, rfl, restAt_run h (isAscii_isWordStart c h3) isAscii_isWordChar⟩
      simp only [h3, Bool.false_eq_true, if_false]
      by_cases h4 : c = '@'
      · simp only [h4, if_true]
        exact ⟨_, rfl, restAt_run (h4 ▸ h) (by decide) isAscii_isPathChar⟩
      simp only [h4, if_false]
      have hop := scanOperator_finds h
      cases eo : scanOperator line.encode i with
      | some stop =>
        rw [eo] at hop
        simp only [hop.1, if_true]
        exact ⟨stop, rfl, hop.2⟩
      | none =>
        rw [eo] at hop
        have hz : ¬ 0 < operator (c :: s) := Nat.not_lt.mpr (Nat.le_of_eq hop)
        simp only [hz, if_false, scanChar_eq h]
        exact ⟨_, rfl, h.next⟩

end

end Token

end LineEditor
