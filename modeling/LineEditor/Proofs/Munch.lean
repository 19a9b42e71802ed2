import LineEditor.Proofs.Partition

/-!
# Lexemes are longest matches

At each place of a line the shapes are tried in a fixed order.  The lexeme that is found is the
longest one that can start there all the same, because no scanner looks at what stands behind its
match: a cut there changes nothing (`CutStable`).

* `cutStable_literal`, `cutStable_number`, `cutStable_operator`   the scanners;
* `munch_take`       one lexeme;
* `longest_scan`     a token read alone is the same token, and no longer text there is one.
-/

namespace LineEditor.Token
open Text

/-! ## Cuts behind a match -/

/-- a match that stays what it is when the text is cut behind it -/
def CutStable (f : Text → Nat) : Prop := ∀ s n, f s ≤ n → f (s.take n) = f s

section
variable {f g : Text → Nat} {s t : Text} {n : Nat}

theorem CutStable.max (hf : CutStable f) (hg : CutStable g) :
    CutStable fun s => max (f s) (g s) := by
  intro s n h
  show Nat.max (f (s.take n)) (g (s.take n)) = Nat.max (f s) (g s)
  rw [hf s n (Nat.le_trans (Nat.le_max_left _ _) h), hg s n (Nat.le_trans (Nat.le_max_right _ _) h)]

theorem cutStable_of_cons (hnil : f [] = 0)
    (hcons : ∀ c s n, f (c :: s) ≤ n + 1 → f (c :: s.take n) = f (c :: s)) : CutStable f := by
  intro s n h
  cases s with
  | nil => rw [List.take_nil]
  | cons c s =>
    cases n with
    | zero => exact hnil.trans (Nat.le_zero.mp h).symm
    | succ n => exact hcons c s n h

theorem cutStable_takeWhile (p : Char → Bool) : CutStable fun s => (s.takeWhile p).length := by
  intro s n h
  show ((s.take n).takeWhile p).length = (s.takeWhile p).length
  rw [← List.take_takeWhile, List.length_take, Nat.min_eq_right h]

theorem isPrefixOf_take {o : Text} (h : o.length ≤ n) :
    o.isPrefixOf (s.take n) = o.isPrefixOf s := by
  rw [Bool.eq_iff_iff, List.isPrefixOf_iff_prefix, List.isPrefixOf_iff_prefix,
    List.prefix_take_iff, and_iff_left h]

theorem isPrefixOf_of_take {o : Text} (h : o.isPrefixOf (s.take n) = true) :
    o.isPrefixOf s = true :=
  List.isPrefixOf_iff_prefix.mpr
    ((List.isPrefixOf_iff_prefix.mp h).trans (List.take_prefix n s))

/-! ## Numeric literals -/

theorem cutStable_digitRun : CutStable digitRun := by
  refine cutStable_of_cons rfl fun c s n h => ?_
  rw [digitRun] at h ⊢
  rw [digitRun]
  by_cases hc : c.isDigit = true
  · rw [if_pos hc] at h
    rw [if_pos hc, if_pos hc]
    have hrun : (s.takeWhile isDigitOrBar).length ≤ n := by omega
    exact congrArg (1 + ·) (cutStable_takeWhile isDigitOrBar s n hrun)
  · rw [if_neg hc, if_neg hc]

theorem radixNumber_of_ne {c : Char} (h : c ≠ '0') (s : Text) : radixNumber (c :: s) = 0 := by
  unfold radixNumber
  split
  · rename_i e
    exact absurd (List.cons.inj e).1 h
  · rfl

theorem radixNumber_of_none {mark : Char} (h : radixDigit? mark = none) (s : Text) :
    radixNumber ('0' :: mark :: s) = 0 := by
  rw [radixNumber, h]

theorem radixNumber_of_some {mark : Char} {digit : Char → Bool} (h : radixDigit? mark = some digit)
    (s : Text) : radixNumber ('0' :: mark :: s) =
      if (s.takeWhile digit).length = 0 then 0 else 2 + (s.takeWhile digit).length := by
  rw [radixNumber, h]
  simp only [List.isEmpty_iff, List.length_eq_zero_iff]

theorem cutStable_radixNumber : CutStable radixNumber := by
  refine cutStable_of_cons rfl fun c s n h => ?_
  by_cases hc : c = '0'
  · subst hc
    cases s with
    | nil => rw [List.take_nil]
    | cons mark s =>
      cases hd : radixDigit? mark with
      | none =>
        rw [radixNumber_of_none hd]
        cases n with
        | zero => rfl
        | succ n => exact radixNumber_of_none hd _
      | some digit =>
        rw [radixNumber_of_some hd] at h ⊢
        cases n with
        | zero =>
          split at h
          · rename_i hz
            rw [if_pos hz]
            rfl
          · omega
        | succ n =>
          have hrun : ((s.take n).takeWhile digit).length = (s.takeWhile digit).length := by
            refine cutStable_takeWhile digit s n ?_
            show (s.takeWhile digit).length ≤ n
            split at h
            · omega
            · omega
          rw [List.take_succ_cons, radixNumber_of_some hd, hrun]
  · rw [radixNumber_of_ne hc, radixNumber_of_ne hc]

theorem digitRun_le_mantissa (s : Text) : digitRun s ≤ mantissa s := by
  by_cases hp : ∃ t, s.drop (digitRun s) = '.' :: t
  · obtain ⟨t, ht⟩ := hp
    rw [mantissa_point ht]
    split
    · omega
    · omega
  · exact Nat.le_of_eq (mantissa_of_ne fun t ht => hp ⟨t, ht⟩).symm

theorem cutStable_mantissa : CutStable mantissa := by
  intro s n h
  have hd : digitRun s ≤ n := Nat.le_trans (digitRun_le_mantissa s) h
  have hrun : digitRun (s.take n) = digitRun s := cutStable_digitRun s n hd
  have hrest : (s.take n).drop (digitRun (s.take n))
      = (s.drop (digitRun s)).take (n - digitRun s) := by
    rw [hrun, List.drop_take]
  by_cases hp : ∃ t, s.drop (digitRun s) = '.' :: t
  · obtain ⟨t, ht⟩ := hp
    rw [ht] at hrest
    rw [mantissa_point ht] at h ⊢
    cases hk : n - digitRun s with
    | zero =>
      -- the cut is right before the point, which is no part of the match
      have hz : digitRun s = 0 ∧ digitRun t = 0 := by
        refine Decidable.not_not.mp fun hz => ?_
        rw [if_neg hz] at h
        omega
      have hne : ∀ u, (s.take n).drop (digitRun (s.take n)) ≠ '.' :: u := by
        intro u e
        rw [hrest, hk] at e
        cases e
      rw [mantissa_of_ne hne, hrun, if_pos hz, hz.1]
    | succ k =>
      rw [hk, List.take_succ_cons] at hrest
      have hfraction : digitRun (t.take k) = digitRun t := by
        refine cutStable_digitRun t k ?_
        split at h
        · omega
        · omega
      rw [mantissa_point hrest, hrun, hfraction]
  · have hne : ∀ u, (s.take n).drop (digitRun (s.take n)) ≠ '.' :: u := by
      intro u e
      rw [hrest] at e
      have hprefix : '.' :: u <+: s.drop (digitRun s) := e ▸ List.take_prefix _ _
      obtain ⟨t, ht⟩ := hprefix
      exact hp ⟨u ++ t, ht.symm⟩
    rw [mantissa_of_ne hne, mantissa_of_ne fun t ht => hp ⟨t, ht⟩, hrun]

theorem sign_le_one (s : Text) : sign s ≤ 1 := by
  cases s with
  | nil => exact Nat.zero_le 1
  | cons c s =>
    rw [sign]
    split
    · exact Nat.le_refl 1
    · exact Nat.zero_le 1

/-- the digits behind a sign, when they are not cut -/
theorem digitRun_signed_take
    (h : digitRun (s.drop (sign s)) = 0 ∨ sign s + digitRun (s.drop (sign s)) ≤ n) :
    digitRun ((s.take n).drop (sign (s.take n))) = digitRun (s.drop (sign s)) := by
  cases s with
  | nil => rw [List.take_nil]
  | cons c s =>
    cases n with
    | zero =>
      have hz : digitRun ((c :: s).drop (sign (c :: s))) = 0 := by omega
      exact hz.symm
    | succ n =>
      have hsign : sign ((c :: s).take (n + 1)) = sign (c :: s) := rfl
      have hle := sign_le_one (c :: s)
      rw [hsign, List.drop_take]
      exact cutStable_digitRun _ _ (by omega)

theorem sign_take (h : sign s ≤ n) : sign (s.take n) = sign s := by
  cases s with
  | nil => rw [List.take_nil]
  | cons c s =>
    cases n with
    | zero => exact (Nat.le_zero.mp h).symm
    | succ n => rfl

theorem cutStable_exponent : CutStable exponent := by
  refine cutStable_of_cons rfl fun e s n h => ?_
  rw [exponent] at h ⊢
  rw [exponent]
  by_cases hx : e.toLower = 'e' ∧ 0 < digitRun (s.drop (sign s))
  · rw [if_pos hx] at h
    have hdigits := digitRun_signed_take (s := s) (n := n) (.inr (by omega))
    have hsign : sign (s.take n) = sign s := sign_take (by omega)
    rw [hdigits, hsign]
  · by_cases he : e.toLower = 'e'
    · have hz : digitRun (s.drop (sign s)) = 0 := Nat.eq_zero_of_not_pos fun hp => hx ⟨he, hp⟩
      have hdigits := digitRun_signed_take (n := n) (.inl hz)
      rw [hdigits, if_neg hx, if_neg hx]
    · rw [if_neg fun hn => he hn.1, if_neg hx]

theorem cutStable_decimalNumber : CutStable decimalNumber := by
  intro s n h
  unfold decimalNumber at h ⊢
  by_cases hz : mantissa s = 0
  · have hm : mantissa (s.take n) = mantissa s := cutStable_mantissa s n (hz ▸ Nat.zero_le n)
    rw [hm, if_pos hz, if_pos hz]
  · rw [if_neg hz] at h
    have hm : mantissa (s.take n) = mantissa s := cutStable_mantissa s n (by omega)
    rw [hm, if_neg hz, if_neg hz, List.drop_take]
    exact congrArg (mantissa s + ·) (cutStable_exponent _ _ (by omega))

theorem cutStable_number : CutStable number := cutStable_radixNumber.max cutStable_decimalNumber

/-! ## String literals -/

theorem literalBody_nil (raw : Bool) (closer : Text) (escaped : Bool) :
    literalBody raw closer escaped [] = 0 := by
  cases escaped with
  | false => rfl
  | true => rfl

theorem cutStable_literalBody (raw : Bool) (closer : Text) (escaped : Bool) :
    CutStable (literalBody raw closer escaped) := by
  intro s n h
  induction s generalizing n escaped with
  | nil => rw [List.take_nil]
  | cons c s ih =>
    cases n with
    | zero => exact (literalBody_nil raw closer escaped).trans (Nat.le_zero.mp h).symm
    | succ n =>
      rw [List.take_succ_cons]
      cases escaped with
      | true =>
        rw [literalBody] at h ⊢
        rw [literalBody, ih false n (by omega)]
      | false =>
        rw [literalBody] at h ⊢
        rw [literalBody]
        by_cases hesc : (!raw && decide (c = '\\')) = true
        · rw [if_pos hesc] at h
          rw [if_pos hesc, if_pos hesc, ih true n (by omega)]
        · rw [if_neg hesc] at h
          rw [if_neg hesc, if_neg hesc]
          by_cases hclose : closer.isPrefixOf (c :: s) = true
          · rw [if_pos hclose] at h
            have hcut : closer.isPrefixOf (c :: s.take n) = true :=
              (isPrefixOf_take (s := c :: s) h).trans hclose
            rw [if_pos hclose, if_pos hcut]
          · rw [if_neg hclose] at h
            have hcut : ¬ closer.isPrefixOf (c :: s.take n) = true :=
              fun hp => hclose (isPrefixOf_of_take (s := c :: s) (n := n + 1) hp)
            rw [if_neg hclose, if_neg hcut, ih false n (by omega)]

theorem opener_take {q : Char} (h : (opener q t).length ≤ n + 1) :
    opener q (t.take n) = opener q t := by
  unfold opener at h ⊢
  by_cases hq : [q, q].isPrefixOf t = true
  · rw [if_pos hq] at h
    have hcut : [q, q].isPrefixOf (t.take n) = true :=
      (isPrefixOf_take (Nat.le_of_succ_le_succ h)).trans hq
    rw [if_pos hq, if_pos hcut]
  · rw [if_neg hq, if_neg fun hp => hq (isPrefixOf_of_take hp)]

theorem cutStable_literal : CutStable literal := by
  intro s n h
  by_cases hs : ∃ w q t, s = w ++ q :: t ∧ isLiteralPrefix w = true ∧ isQuote q = true
  · obtain ⟨w, q, t, rfl, hw, hq⟩ := hs
    have hpos := opener_length_pos q t
    rw [literal_append hw hq] at h ⊢
    obtain ⟨k, rfl⟩ : ∃ k, n = w.length + (k + 1) := ⟨n - w.length - 1, by omega⟩
    have hopener : opener q (t.take k) = opener q t := opener_take (by omega)
    have hbody : literalBody (isRaw w) (opener q t) false
          (((q :: t).drop (opener q t).length).take (k + 1 - (opener q t).length))
        = literalBody (isRaw w) (opener q t) false ((q :: t).drop (opener q t).length) :=
      cutStable_literalBody _ _ false _ _ (by omega)
    rw [List.take_length_add_append, List.take_succ_cons, literal_append hw hq, hopener,
      ← List.take_succ_cons, List.drop_take, hbody]
  · have hzero {u : Text} (hu : u <+: s) : literal u = 0 := by
      obtain ⟨r, rfl⟩ := hu
      refine literal_eq_zero fun w q t e hw => ?_
      refine Bool.eq_false_iff.mpr fun hq => hs ⟨w, q, t ++ r, ?_, hw, hq⟩
      rw [e, List.append_assoc]
      rfl
    rw [hzero (List.take_prefix n s), hzero (List.prefix_rfl)]

/-! ## Operators -/

theorem cutStable_operator : CutStable operator := by
  intro s n h
  unfold operator at h ⊢
  cases e : operators.find? fun o => o.toList.isPrefixOf s with
  | none =>
    have hnone : (operators.find? fun o => o.toList.isPrefixOf (s.take n)) = none := by
      rw [List.find?_eq_none] at e ⊢
      exact fun o ho hp => e o ho (isPrefixOf_of_take hp)
    rw [hnone]
  | some o =>
    rw [e] at h
    have hsome : (operators.find? fun o => o.toList.isPrefixOf (s.take n)) = some o := by
      rw [List.find?_eq_some_iff_append] at e ⊢
      obtain ⟨hp, before, behind, hl, hbefore⟩ := e
      refine ⟨(isPrefixOf_take h).trans hp, before, behind, hl, fun a ha => ?_⟩
      have hn : a.toList.isPrefixOf s = false := (Bool.not_eq_true' _).mp (hbefore a ha)
      refine (Bool.not_eq_true' _).mpr (Bool.eq_false_iff.mpr fun hcut => ?_)
      exact Bool.eq_false_iff.mp hn (isPrefixOf_of_take hcut)
    rw [hsome]

/-! ## One lexeme -/

theorem cutStable_choice {shape : Shape} {other other' : Shape × Nat} (hf : CutStable f)
    (h : (if 0 < f s then (shape, f s) else other).2 ≤ n) (ho : other.2 ≤ n → other' = other) :
    (if 0 < f (s.take n) then (shape, f (s.take n)) else other')
      = if 0 < f s then (shape, f s) else other := by
  by_cases hp : 0 < f s
  · rw [if_pos hp] at h
    rw [hf s n h, if_pos hp, if_pos hp]
  · rw [if_neg hp] at h
    have hz : f s ≤ n := by omega
    rw [hf s n hz, if_neg hp, if_neg hp, ho h]

theorem run_take {p : Char → Bool} (h : run p s ≤ n + 1) : run p (s.take n) = run p s := by
  unfold run at h ⊢
  have hrun : (s.takeWhile p).length ≤ n := by omega
  exact congrArg (1 + ·) (cutStable_takeWhile p s n hrun)

/-- a cut behind a lexeme leaves the lexeme as it is -/
theorem munch_take {c : Char} (h : (munch c s).2 ≤ n + 1) : munch c (s.take n) = munch c s := by
  unfold munch at h ⊢
  by_cases h1 : isSpace c = true
  · rw [if_pos h1] at h
    rw [if_pos h1, if_pos h1, run_take h]
  rw [if_neg h1] at h
  rw [if_neg h1, if_neg h1]
  by_cases h2 : c = '#'
  · rw [if_pos h2] at h
    have hs : s.take n = s := List.take_of_length_le (by show s.length ≤ n; omega)
    rw [hs]
  rw [if_neg h2] at h
  rw [if_neg h2, if_neg h2]
  refine cutStable_choice (s := c :: s) (n := n + 1) cutStable_literal h fun h => ?_
  refine cutStable_choice (s := c :: s) (n := n + 1) cutStable_number h fun h => ?_
  by_cases h3 : isWordStart c = true
  · rw [if_pos h3] at h
    rw [if_pos h3, if_pos h3, run_take h]
  rw [if_neg h3] at h
  rw [if_neg h3, if_neg h3]
  by_cases h4 : c = '@'
  · rw [if_pos h4] at h
    rw [if_pos h4, if_pos h4, run_take h]
  rw [if_neg h4] at h
  rw [if_neg h4, if_neg h4]
  exact cutStable_choice (s := c :: s) (n := n + 1) cutStable_operator h fun _ => rfl

/-! ## A lexeme on its own -/

variable {c : Char}

/-- the first lexeme of a part of a text that reaches as far as the first lexeme of the text -/
theorem lexemes_take (h : (munch c s).2 ≤ n + 1) :
    lexemes ((c :: s).take (n + 1)) =
      ⟨(munch c s).1, (c :: s).take (munch c s).2⟩ ::
        lexemes (((c :: s).take (n + 1)).drop (munch c s).2) := by
  rw [List.take_succ_cons, lexemes_cons, munch_take h, ← List.take_succ_cons, List.take_take,
    Nat.min_eq_left h]

theorem lexemes_alone (c : Char) (s : Text) :
    lexemes ((c :: s).take (munch c s).2) =
      [⟨(munch c s).1, (c :: s).take (munch c s).2⟩] := by
  obtain ⟨n, hn⟩ : ∃ n, (munch c s).2 = n + 1 :=
    ⟨(munch c s).2 - 1, (Nat.succ_pred_eq_of_pos (munch_pos c s)).symm⟩
  have h := lexemes_take (Nat.le_of_eq hn)
  rw [← hn] at h
  rw [h, List.drop_of_length_le (List.length_take_le _ _), lexemes_nil]

/-- what starts like a text and is longer than its first lexeme has two lexemes or more -/
theorem lexemes_longer {u : Text} (hu : u <+: c :: s)
    (hlen : ((c :: s).take (munch c s).2).length < u.length) : 1 < (lexemes u).length := by
  have hle : u.length ≤ (c :: s).length := hu.length_le
  rw [List.length_take] at hlen
  obtain ⟨n, hn⟩ : ∃ n, u.length = n + 1 := ⟨u.length - 1, by omega⟩
  have hm : (munch c s).2 < n + 1 := by omega
  have hrest : ((c :: s).take (n + 1)).drop (munch c s).2 ≠ [] := by
    rw [← List.length_pos_iff, List.length_drop, List.length_take]
    omega
  obtain ⟨d, r, hr⟩ := List.exists_cons_of_ne_nil hrest
  rw [List.prefix_iff_eq_take.mp hu, hn, lexemes_take (Nat.le_of_lt hm), hr, lexemes_cons,
    List.length_cons, List.length_cons]
  omega

theorem length_ofLexemes (v : Vocabulary) (ctx : Context) (ls : List Lexeme) :
    (ofLexemes v ctx ls).length = ls.length := by
  induction ls generalizing ctx with
  | nil => rfl
  | cons l ls ih => rw [ofLexemes_cons, List.length_cons, List.length_cons, ih]

theorem length_placed (i : Nat) (ts : List Token) : (placed i ts).length = ts.length := by
  rw [← List.length_map (f := Placed.token), map_token_placed]

theorem scan_alone (v : Vocabulary) (c : Char) (s : Text) :
    ∃ k : Kind, k.shape = (munch c s).1 ∧
      scan v ((c :: s).take (munch c s).2) =
        .ok [⟨⟨k, (c :: s).take (munch c s).2⟩, 0, (encode ((c :: s).take (munch c s).2)).size⟩] := by
  refine ⟨_, shape_kindOf v .start ⟨(munch c s).1, (c :: s).take (munch c s).2⟩, ?_⟩
  rw [scan_eq, tokens, lexemes_alone, ofLexemes_cons, placed_cons, Nat.zero_add, size_encode]
  rfl

theorem scan_longer (v : Vocabulary) {u : Text} (hu : u <+: c :: s)
    (hlen : ((c :: s).take (munch c s).2).length < u.length) (q : Placed) : scan v u ≠ .ok [q] := by
  rw [scan_eq]
  intro e
  have hl := congrArg List.length (Except.ok.inj e)
  rw [length_placed, tokens, length_ofLexemes] at hl
  exact absurd hl (Nat.ne_of_gt (lexemes_longer hu hlen))

end

/-- each token of a line is the first lexeme of what stands at its place -/
theorem munch_of_mem_placed {v : Vocabulary} {line s : Text} {p : Placed} (ctx : Context) (i : Nat)
    (h : RestAt line i s) (hp : p ∈ placed i (ofLexemes v ctx (lexemes s))) :
    ∃ c r, RestAt line p.start (c :: r) ∧ p.token.text = (c :: r).take (munch c r).2 ∧
      p.token.kind.shape = (munch c r).1 := by
  fun_induction lexemes s generalizing ctx i with
  | case1 => cases hp
  | case2 c s m ih =>
    rw [ofLexemes_cons, placed_cons] at hp
    rcases List.mem_cons.mp hp with rfl | hp
    · exact ⟨c, s, h, rfl, shape_kindOf v ctx _⟩
    · refine ih _ _ ?_ hp
      rw [← List.take_append_drop m.2 (c :: s)] at h
      exact h.add

/-- **Tokens are longest matches.**  Read alone, and with any vocabulary, a token of a line is one
token of the same shape again; and no text that stands at its place and is longer is one token. -/
theorem longest_scan (v : Vocabulary) (line : Text) :
    ∃ ps : List Placed, scan v line = .ok ps ∧ ∀ p ∈ ps, ∀ w : Vocabulary,
      (∃ k : Kind, k.shape = p.token.kind.shape ∧
        scan w p.token.text = .ok [⟨⟨k, p.token.text⟩, 0, p.token.text.encode.size⟩]) ∧
      ∃ rest : Text, line.dropBytes p.start = some rest ∧ p.token.text <+: rest ∧
        ∀ u : Text, u <+: rest → p.token.text.length < u.length → ∀ q, scan w u ≠ .ok [q] := by
  refine ⟨placed 0 (tokens v line), scan_eq v line, fun p hp w => ?_⟩
  obtain ⟨c, r, hr, htext, hshape⟩ := munch_of_mem_placed .start 0 (restAt_zero line) hp
  rw [htext, hshape]
  refine ⟨scan_alone w c r, c :: r, hr.dropBytes, List.take_prefix _ _, fun u hu hlen => ?_⟩
  exact scan_longer w hu hlen

end LineEditor.Token
