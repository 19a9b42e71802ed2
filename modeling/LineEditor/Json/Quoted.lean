import LineEditor.Json.Reader

/-!
# Strings in JSON

When a string is read for its value, escapes of surrogates must come in pairs. When it is only
passed over, any four hexadecimal digits will do.
-/

namespace LineEditor.Json

/-! ## Escapes -/

/-- four hexadecimal digits; a text with less than four bytes left is truncated -/
def readUnit : Text → Step Nat
  | a :: b :: c :: d :: s =>
    match hexValue? a, hexValue? b, hexValue? c, hexValue? d with
    | some w, some x, some y, some z => .ok (4096 * w + 256 * x + 16 * y + z, s)
    | _, _, _, _ => .error .malformed
  | s => if s.utf8Size < 4 then .error .truncated else .error .malformed

/-- the second half of a pair of surrogates, as the character of the pair -/
def readLowHalf (high : Nat) (s : Text) : Step Char :=
  match expect ['\\', 'u'] s with
  | .error e => .error e
  | .ok r =>
    match readUnit r with
    | .error e => .error e
    | .ok (low, t) =>
      if 0xDC00 ≤ low ∧ low ≤ 0xDFFF then
        .ok (Char.ofNat (0x10000 + (high - 0xD800) * 0x400 + (low - 0xDC00)), t)
      else .error .malformed

/-- the character of the escape behind a backslash -/
def readEscape : Text → Step Char
  | [] => .error .truncated
  | 'u' :: s =>
    match readUnit s with
    | .error e => .error e
    | .ok (n, r) =>
      if 0xDC00 ≤ n ∧ n ≤ 0xDFFF then .error .malformed
      else if 0xD800 ≤ n ∧ n ≤ 0xDBFF then readLowHalf n r
      else .ok (Char.ofNat n, r)
  | c :: s =>
    match simpleEscape? c with
    | some d => .ok (d, s)
    | none => .error .malformed

/-- the text behind the escape behind a backslash, whatever surrogates it names -/
def skipEscape : Text → Except Fault Text
  | [] => .error .truncated
  | 'u' :: s =>
    match readUnit s with
    | .error e => .error e
    | .ok (_, r) => .ok r
  | c :: s => if (simpleEscape? c).isSome then .ok s else .error .malformed

theorem length_readUnit_lt {s r : Text} {n : Nat} (h : readUnit s = .ok (n, r)) :
    r.length < s.length := by
  unfold readUnit at h
  split at h
  · split at h
    · cases h
      simp only [List.length_cons]
      omega
    · cases h
  · split at h <;> cases h

theorem length_readLowHalf_lt {n : Nat} {s r : Text} {c : Char}
    (h : readLowHalf n s = .ok (c, r)) : r.length < s.length := by
  unfold readLowHalf at h
  split at h
  · cases h
  · rename_i t he
    have ht : t.length ≤ s.length := length_expect_le he
    split at h
    · cases h
    · rename_i hu
      have hr := length_readUnit_lt hu
      split at h
      · obtain ⟨_, rfl⟩ := Prod.mk.inj (Except.ok.inj h)
        omega
      · cases h

theorem length_readEscape_lt {s r : Text} {c : Char} (h : readEscape s = .ok (c, r)) :
    r.length < s.length := by
  unfold readEscape at h
  split at h
  · cases h
  · split at h
    · cases h
    · rename_i hu
      have hr := length_readUnit_lt hu
      simp only [List.length_cons]
      split at h
      · cases h
      · split at h
        · have hl := length_readLowHalf_lt h
          omega
        · cases h
          omega
  · split at h
    · cases h
      simp
    · cases h

theorem length_skipEscape_lt {s r : Text} (h : skipEscape s = .ok r) : r.length < s.length := by
  unfold skipEscape at h
  split at h
  · cases h
  · split at h
    · cases h
    · rename_i hu
      have hr := length_readUnit_lt hu
      cases h
      simp only [List.length_cons]
      omega
  · split at h
    · cases h
      simp
    · cases h

/-! ## Reading -/

/-- a string from behind its opening quote -/
def readString : Text → Step Text
  | [] => .error .truncated
  | c :: s =>
    if c = '"' then .ok ([], s)
    else if c = '\\' then
      match _he : readEscape s with
      | .error e => .error e
      | .ok (d, r) =>
        match readString r with
        | .error e => .error e
        | .ok (ds, t) => .ok (d :: ds, t)
    else if c.toNat < 0x20 then .error .malformed
    else
      match readString s with
      | .error e => .error e
      | .ok (ds, t) => .ok (c :: ds, t)
termination_by s => s.length
decreasing_by
  · have hr := length_readEscape_lt _he
    simp only [List.length_cons]
    omega
  · simp

/-- the text behind a string, from behind its opening quote -/
def skipString : Text → Except Fault Text
  | [] => .error .truncated
  | c :: s =>
    if c = '"' then .ok s
    else if c = '\\' then
      match _he : skipEscape s with
      | .error e => .error e
      | .ok r => skipString r
    else if c.toNat < 0x20 then .error .malformed
    else skipString s
termination_by s => s.length
decreasing_by
  · have hr := length_skipEscape_lt _he
    simp only [List.length_cons]
    omega
  · simp

theorem length_readString_lt {s r ds : Text} (h : readString s = .ok (ds, r)) :
    r.length < s.length := by
  fun_induction readString s generalizing ds r with
  | case1 => cases h
  | case2 => cases h; simp
  | case3 => cases h
  | case4 => cases h
  | case5 s d t he ds' t' hs _ ih =>
    cases h
    have ht := length_readEscape_lt he
    have hr := ih hs
    simp only [List.length_cons]
    omega
  | case6 => cases h
  | case7 => cases h
  | case8 c s _ _ _ ds' t' hs ih =>
    cases h
    have hr := ih hs
    simp only [List.length_cons]
    omega

theorem length_skipString_lt {s r : Text} (h : skipString s = .ok r) : r.length < s.length := by
  fun_induction skipString s with
  | case1 => cases h
  | case2 => cases h; simp
  | case3 => cases h
  | case4 s t he _ ih =>
    have ht := length_skipEscape_lt he
    have hr := ih h
    simp only [List.length_cons]
    omega
  | case5 => cases h
  | case6 c s _ _ _ ih =>
    have hr := ih h
    simp only [List.length_cons]
    omega

end LineEditor.Json
