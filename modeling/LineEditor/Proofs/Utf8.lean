import LineEditor.Token.Scan

/-!
# Places in the UTF-8 form of a line

`RestAt line i s` says that `i` is a character boundary of the line and that `s` stands behind it.
At such a place

* `byteIs_eq`, `byteStarts_iff`   a test of the byte is the test of the character, if only ASCII
                                  characters can pass;
* `skip_eq`                       a run of bytes is a run of characters;
* `RestAt.slice`                  the line can be sliced.
-/

namespace LineEditor

/-! ## The bytes of a character -/

/-- only ASCII characters are in `p` -/
def IsAscii (p : Char → Bool) : Prop := ∀ c, p c = true → c.toNat < 128

theorem utf8EncodeChar_ascii {c : Char} (h : c.toNat < 128) :
    String.utf8EncodeChar c = [UInt8.ofNat c.toNat] := by
  have hv : c.val.toNat ≤ 0x7f := Nat.le_of_lt_succ h
  unfold String.utf8EncodeChar
  simp only [hv, if_true]
  rfl

theorem utf8Size_ascii {c : Char} (h : c.toNat < 128) : c.utf8Size = 1 := by
  rw [← String.length_utf8EncodeChar, utf8EncodeChar_ascii h]
  rfl

theorem ofUInt8_ascii {c : Char} (h : c.toNat < 128) : Char.ofUInt8 (UInt8.ofNat c.toNat) = c := by
  apply Char.ext
  apply UInt32.toNat_inj.mp
  show (UInt8.ofNat c.toNat).toNat = c.toNat
  rw [UInt8.toNat_ofNat']
  exact Nat.mod_eq_of_lt (by omega)

/-- no byte of any other character is an ASCII one -/
theorem le_toNat_of_mem_utf8EncodeChar {c : Char} (h : 128 ≤ c.toNat) {b : UInt8}
    (hb : b ∈ String.utf8EncodeChar c) : 128 ≤ b.toNat := by
  have hv : ¬ c.val.toNat ≤ 0x7f := Nat.not_le.mpr h
  have hlead (n : Nat) : 128 ≤ (UInt8.ofNat (n % 0x20 + 0xc0)).toNat ∧
      128 ≤ (UInt8.ofNat (n % 0x10 + 0xe0)).toNat ∧ 128 ≤ (UInt8.ofNat (n % 0x08 + 0xf0)).toNat := by
    simp only [UInt8.toNat_ofNat']
    omega
  have htail (n : Nat) : 128 ≤ (UInt8.ofNat (n % 0x40 + 0x80)).toNat := by
    rw [UInt8.toNat_ofNat']
    omega
  unfold String.utf8EncodeChar at hb
  simp only [hv, if_false] at hb
  split at hb
  · simp only [List.mem_cons, List.not_mem_nil, or_false] at hb
    rcases hb with rfl | rfl
    · exact (hlead _).1
    · exact htail _
  · split at hb
    · simp only [List.mem_cons, List.not_mem_nil, or_false] at hb
      rcases hb with rfl | rfl | rfl
      · exact (hlead _).2.1
      · exact htail _
      · exact htail _
    · simp only [List.mem_cons, List.not_mem_nil, or_false] at hb
      rcases hb with rfl | rfl | rfl | rfl
      · exact (hlead _).2.2
      · exact htail _
      · exact htail _
      · exact htail _

theorem IsAscii.eq_false {p : Char → Bool} (hp : IsAscii p) {c : Char} (h : 128 ≤ c.toNat) :
    p c = false := by
  cases e : p c with
  | false => rfl
  | true => exact absurd (hp c e) (Nat.not_lt.mpr h)

/-- an ASCII test sees no difference between a character and its first byte -/
theorem IsAscii.head {p : Char → Bool} (hp : IsAscii p) {c : Char} {b : UInt8} {bs : List UInt8}
    (h : String.utf8EncodeChar c = b :: bs) : p (Char.ofUInt8 b) = p c := by
  by_cases hc : c.toNat < 128
  · rw [utf8EncodeChar_ascii hc] at h
    cases h
    rw [ofUInt8_ascii hc]
  · have hb : 128 ≤ b.toNat :=
      le_toNat_of_mem_utf8EncodeChar (Nat.not_lt.mp hc) (h ▸ List.mem_cons_self)
    rw [hp.eq_false (Nat.not_lt.mp hc)]
    exact hp.eq_false (show 128 ≤ (Char.ofUInt8 b).toNat from hb)

namespace Text

/-! ## The bytes of a text -/

theorem encode_append (s t : Text) : (s ++ t).encode = s.encode ++ t.encode := by
  simp [encode]

theorem encode_cons (c : Char) (s : Text) :
    encode (c :: s) = (String.utf8EncodeChar c).toArray ++ encode s := by
  simp [encode]

theorem size_encode (s : Text) : s.encode.size = s.utf8Size := by
  induction s with
  | nil => rfl
  | cons c s ih =>
    rw [encode_cons, Array.size_append, ih, utf8Size_cons]
    simp

theorem utf8Size_of_ascii {s : Text} (h : ∀ c ∈ s, c.toNat < 128) : s.utf8Size = s.length := by
  induction s with
  | nil => rfl
  | cons c s ih =>
    rw [utf8Size_cons, utf8Size_ascii (h c List.mem_cons_self),
      ih (fun d hd => h d (List.mem_cons_of_mem c hd)), List.length_cons, Nat.add_comm]

theorem length_le_utf8Size (s : Text) : s.length ≤ s.utf8Size := by
  induction s with
  | nil => exact Nat.le_refl 0
  | cons c s ih =>
    have hc : 0 < c.utf8Size := c.utf8Size_pos
    rw [utf8Size_cons, List.length_cons]
    omega

/-! ## Places -/

/-- behind the first `i` bytes of `line` stands `s` -/
def RestAt (line : Text) (i : Nat) (s : Text) : Prop :=
  ∃ u : Text, line = u ++ s ∧ u.utf8Size = i

section
variable {line : Text} {i j : Nat} {c : Char} {s t : Text}

theorem restAt_zero (line : Text) : RestAt line 0 line := ⟨[], rfl, rfl⟩

theorem RestAt.size (h : RestAt line i s) : i + s.utf8Size = line.utf8Size := by
  obtain ⟨u, rfl, rfl⟩ := h
  exact (utf8Size_append u s).symm

theorem RestAt.add (h : RestAt line i (t ++ s)) : RestAt line (i + t.utf8Size) s := by
  obtain ⟨u, rfl, rfl⟩ := h
  exact ⟨u ++ t, (List.append_assoc u t s).symm, utf8Size_append u t⟩

theorem RestAt.next (h : RestAt line i (c :: s)) : RestAt line (i + c.utf8Size) s := by
  have h1 : RestAt line (i + utf8Size [c]) s := RestAt.add (t := [c]) h
  rwa [utf8Size_cons, utf8Size_nil, Nat.add_zero] at h1

theorem RestAt.next_ascii (h : RestAt line i (c :: s)) (hc : c.toNat < 128) :
    RestAt line (i + 1) s := by
  have h1 := h.next
  rwa [utf8Size_ascii hc] at h1

theorem RestAt.drop (h : RestAt line i s) (hp : t <+: s) (ht : ∀ c ∈ t, c.toNat < 128) :
    RestAt line (i + t.length) (s.drop t.length) := by
  rw [← List.prefix_iff_eq_append.mp hp] at h
  have h1 := h.add
  rwa [utf8Size_of_ascii ht] at h1

/-- a place with a shorter rest is further behind -/
theorem RestAt.le {m n : Nat} (hm : RestAt line i (s.drop m)) (hn : RestAt line j (s.drop n))
    (h : m ≤ n) : i ≤ j := by
  have hs : s.drop m = (s.drop m).take (n - m) ++ s.drop n := by
    have e : s.drop n = (s.drop m).drop (n - m) := by
      rw [List.drop_drop, Nat.add_sub_cancel' h]
    rw [e, List.take_append_drop]
  have h1 := hm.size
  have h2 := hn.size
  rw [hs, utf8Size_append] at h1
  omega

theorem RestAt.eq (hi : RestAt line i s) (hj : RestAt line j s) : i = j := by
  have h1 := hi.size
  have h2 := hj.size
  omega

theorem dropBytes_cons (c : Char) (s : Text) (n : Nat) :
    dropBytes (c :: s) (c.utf8Size + n) = s.dropBytes n := by
  have hc : 0 < c.utf8Size := c.utf8Size_pos
  obtain ⟨m, hm⟩ : ∃ m, c.utf8Size + n = m + 1 := ⟨c.utf8Size + n - 1, by omega⟩
  rw [hm, dropBytes, ← hm, if_pos (Nat.le_add_right _ _), Nat.add_sub_cancel_left]

theorem takeBytes_cons (c : Char) (s : Text) (n : Nat) :
    takeBytes (c :: s) (c.utf8Size + n) = (s.takeBytes n).map (c :: ·) := by
  have hc : 0 < c.utf8Size := c.utf8Size_pos
  obtain ⟨m, hm⟩ : ∃ m, c.utf8Size + n = m + 1 := ⟨c.utf8Size + n - 1, by omega⟩
  rw [hm, takeBytes, ← hm, if_pos (Nat.le_add_right _ _), Nat.add_sub_cancel_left]

theorem RestAt.dropBytes (h : RestAt line i s) : line.dropBytes i = some s := by
  obtain ⟨u, rfl, rfl⟩ := h
  induction u with
  | nil => cases s <;> rfl
  | cons c u ih =>
    rw [List.cons_append, utf8Size_cons, dropBytes_cons]
    exact ih

theorem takeBytes_append (t s : Text) : (t ++ s).takeBytes t.utf8Size = some t := by
  induction t with
  | nil => cases s <;> rfl
  | cons c t ih =>
    rw [List.cons_append, utf8Size_cons, takeBytes_cons, ih]
    rfl

/-- between two places the line can be sliced -/
theorem RestAt.slice (hi : RestAt line i (t ++ s)) (hj : RestAt line j s) :
    line.slice i j = some t := by
  have e : j = i + t.utf8Size := hj.eq hi.add
  rw [e, Text.slice, if_pos (Nat.le_add_right _ _), hi.dropBytes]
  show (t ++ s).takeBytes (i + t.utf8Size - i) = some t
  rw [Nat.add_sub_cancel_left, takeBytes_append]

theorem RestAt.getElem?_encode (h : RestAt line i (c :: s)) {k : Nat} (hk : k < c.utf8Size) :
    line.encode[i + k]? = (String.utf8EncodeChar c)[k]? := by
  obtain ⟨u, rfl, rfl⟩ := h
  rw [encode_append, encode_cons, Array.getElem?_append_right (by rw [size_encode]; omega),
    size_encode, Nat.add_sub_cancel_left, Array.getElem?_append_left (by simpa using hk)]
  simp

theorem RestAt.size_of_nil (h : RestAt line i []) : line.encode.size = i := by
  rw [size_encode, ← h.size]
  rfl

theorem RestAt.lt_size (h : RestAt line i (c :: s)) : i < line.encode.size := by
  have hc : 0 < c.utf8Size := c.utf8Size_pos
  rw [size_encode, ← h.size, utf8Size_cons]
  omega

end

end Text

namespace Token
open Text

/-! ## Reading at a place -/

section
variable {line : Text} {i : Nat} {c : Char} {s t : Text} {p : Char → Bool}

theorem first_byte (h : RestAt line i (c :: s)) :
    ∃ b bs, String.utf8EncodeChar c = b :: bs ∧ line.encode[i]? = some b := by
  obtain ⟨b, bs, e⟩ := List.exists_cons_of_ne_nil (String.utf8EncodeChar_ne_nil (c := c))
  have h1 := h.getElem?_encode (k := 0) c.utf8Size_pos
  rw [Nat.add_zero, e] at h1
  exact ⟨b, bs, e, h1⟩

theorem byteIs_eq (h : RestAt line i s) (hp : IsAscii p) :
    byteIs p line.encode i = s.head?.any p := by
  cases s with
  | nil =>
    have hn : line.encode[i]? = none := Array.getElem?_eq_none (Nat.le_of_eq h.size_of_nil)
    rw [byteIs, hn]
    rfl
  | cons c s =>
    obtain ⟨b, bs, e, hb⟩ := first_byte h
    rw [byteIs, hb]
    exact hp.head e

/-- inside of a character no ASCII test passes -/
theorem byteIs_inside (h : RestAt line i (c :: s)) (hc : 128 ≤ c.toNat) (hp : IsAscii p) {k : Nat}
    (hk : k < c.utf8Size) : byteIs p line.encode (i + k) = false := by
  have hl : k < (String.utf8EncodeChar c).length := by
    rwa [String.length_utf8EncodeChar]
  rw [byteIs, h.getElem?_encode hk, List.getElem?_eq_getElem hl]
  have hb := le_toNat_of_mem_utf8EncodeChar hc (List.getElem_mem hl)
  exact hp.eq_false (show 128 ≤ (Char.ofUInt8 (String.utf8EncodeChar c)[k]).toNat from hb)

theorem isAscii_eq {a : Char} (ha : a.toNat < 128) : IsAscii (· = a) := by
  intro c hc
  rwa [of_decide_eq_true hc]

theorem byteStarts_iff (h : RestAt line i s) (ht : ∀ c ∈ t, c.toNat < 128) :
    byteStarts line.encode t i = true ↔ t <+: s := by
  induction t generalizing i s with
  | nil => simp [byteStarts]
  | cons a t ih =>
    have ha : a.toNat < 128 := ht a List.mem_cons_self
    rw [byteStarts, byteIs_eq h (isAscii_eq ha), Bool.and_eq_true]
    cases s with
    | nil => simp
    | cons c s =>
      have hc : (some c).any (· = a) = true ↔ a = c := by simp [eq_comm]
      rw [List.head?_cons, hc, List.cons_prefix_cons]
      refine and_congr_right fun e => ?_
      exact ih (h.next_ascii (e ▸ ha)) (fun d hd => ht d (List.mem_cons_of_mem a hd))

theorem skip_eq (h : RestAt line i s) (hp : IsAscii p) :
    skip p line.encode i = i + (s.takeWhile p).length := by
  induction s generalizing i with
  | nil =>
    rw [skip, dif_neg (by rw [h.size_of_nil]; exact Nat.lt_irrefl i)]
    rfl
  | cons c s ih =>
    obtain ⟨b, bs, e, hb⟩ := first_byte h
    rw [skip, dif_pos h.lt_size]
    rw [Array.getElem?_eq_getElem h.lt_size, Option.some.injEq] at hb
    rw [hb, hp.head e, List.takeWhile_cons]
    cases hc : p c with
    | false => simp
    | true =>
      rw [if_pos rfl, if_pos rfl, ih (h.next_ascii (hp c hc)), List.length_cons]
      omega

theorem restAt_skip (h : RestAt line i s) (hp : IsAscii p) :
    RestAt line (skip p line.encode i) (s.drop (s.takeWhile p).length) := by
  rw [skip_eq h hp]
  exact h.drop (List.takeWhile_prefix p)
    fun c hc => hp c (List.all_eq_true.mp List.all_takeWhile c hc)

end

end Token

end LineEditor
