import LineEditor.Proofs.Munch
import Mathlib.Data.List.Find

/-!
# What a typed character can change

A character at the end of a line changes the last three tokens at most: `1`, `e` and `+` become one
number with a `5` behind them.  Every scanner has settled on its match when more than two further
characters stand behind it (`Settled`), and when it finds nothing in more than three characters; a
text that is shorter has no more than three tokens anyway.

* `number_concat`, `literal_concat`, `operator_concat`   the scanners;
* `munch_concat`         one lexeme;
* `scan_concat_prefix`   the tokens of a line and of the line with a character more.
-/

namespace LineEditor.Token
open Text

/-! ## Settled matches -/

/-- a match that one more character leaves alone, if more than `n` characters stand behind the
match -/
def Settled (n : Nat) (f : Text → Nat) : Prop :=
  ∀ s c, f s + n < s.length → f (s ++ [c]) = f s

section
variable {f g : Text → Nat} {s t : Text} {c d : Char} {n : Nat}

theorem Settled.max (hf : Settled n f) (hg : Settled n g) :
    Settled n fun s => max (f s) (g s) := by
  intro s c h
  have hl : f s ≤ Nat.max (f s) (g s) := Nat.le_max_left _ _
  have hr : g s ≤ Nat.max (f s) (g s) := Nat.le_max_right _ _
  replace h : Nat.max (f s) (g s) + n < s.length := h
  show Nat.max (f (s ++ [c])) (g (s ++ [c])) = Nat.max (f s) (g s)
  rw [hf s c (by omega), hg s c (by omega)]

theorem settled_takeWhile (p : Char → Bool) : Settled 0 fun s => (s.takeWhile p).length := by
  intro s c h
  show ((s ++ [c]).takeWhile p).length = (s.takeWhile p).length
  rw [List.takeWhile_append]
  exact congrArg List.length (if_neg (Nat.ne_of_lt h))

theorem isPrefixOf_concat {o : Text} (h : o.length ≤ s.length) :
    o.isPrefixOf (s ++ [c]) = o.isPrefixOf s := by
  have hs : (s ++ [c]).take s.length = s := List.take_left
  have ho := isPrefixOf_take (s := s ++ [c]) h
  rw [hs] at ho
  exact ho.symm

/-! ## Numeric literals -/

theorem settled_digitRun : Settled 0 digitRun := by
  intro s c h
  cases s with
  | nil => exact absurd h (Nat.lt_irrefl 0)
  | cons d s =>
    rw [List.cons_append, digitRun]
    rw [digitRun] at h ⊢
    by_cases hd : d.isDigit = true
    · rw [if_pos hd, List.length_cons] at h
      rw [if_pos hd, if_pos hd]
      have hrun : (s.takeWhile isDigitOrBar).length + 0 < s.length := by omega
      exact congrArg (1 + ·) (settled_takeWhile isDigitOrBar s c hrun)
    · rw [if_neg hd, if_neg hd]

theorem settled_radixNumber : Settled 2 radixNumber := by
  intro s c h
  match s with
  | [] => exact absurd h (by decide)
  | [_] => exact absurd h (by simp)
  | z :: mark :: s =>
    rw [List.cons_append, List.cons_append]
    by_cases hz : z = '0'
    · subst hz
      cases hd : radixDigit? mark with
      | none => rw [radixNumber_of_none hd, radixNumber_of_none hd]
      | some digit =>
        rw [radixNumber_of_some hd, List.length_cons, List.length_cons] at h
        have hrun : (s.takeWhile digit).length + 0 < s.length := by
          split at h
          · omega
          · omega
        have hconcat : ((s ++ [c]).takeWhile digit).length = (s.takeWhile digit).length :=
          settled_takeWhile digit s c hrun
        rw [radixNumber_of_some hd, radixNumber_of_some hd, hconcat]
    · rw [radixNumber_of_ne hz, radixNumber_of_ne hz]

/-- a point alone is no number yet -/
theorem settled_mantissa : Settled 1 mantissa := by
  intro s c h
  have hle := digitRun_le_mantissa s
  have hrun : digitRun (s ++ [c]) = digitRun s := settled_digitRun s c (by omega)
  have hrest : (s ++ [c]).drop (digitRun (s ++ [c])) = s.drop (digitRun s) ++ [c] := by
    rw [hrun, List.drop_append_of_le_length (by omega)]
  cases hs : s.drop (digitRun s) with
  | nil =>
    have hlen := congrArg List.length hs
    rw [List.length_drop, List.length_nil] at hlen
    omega
  | cons d t =>
    rw [hs, List.cons_append] at hrest
    by_cases hd : d = '.'
    · subst hd
      have hlen := congrArg List.length hs
      rw [List.length_drop, List.length_cons] at hlen
      rw [mantissa_point hs] at h
      have hfraction : digitRun (t ++ [c]) = digitRun t := by
        refine settled_digitRun t c ?_
        split at h
        · omega
        · omega
      rw [mantissa_point hs, mantissa_point hrest, hrun, hfraction]
    · have hne : ∀ u, s.drop (digitRun s) ≠ '.' :: u := by
        intro u e
        rw [hs] at e
        exact hd (List.cons.inj e).1
      have hne' : ∀ u, (s ++ [c]).drop (digitRun (s ++ [c])) ≠ '.' :: u := by
        intro u e
        rw [hrest] at e
        exact hd (List.cons.inj e).1
      rw [mantissa_of_ne hne, mantissa_of_ne hne', hrun]

/-- the mark and the sign of an exponent are nothing without a digit -/
theorem settled_exponent : Settled 2 exponent := by
  intro s c h
  match s with
  | [] => exact absurd h (by decide)
  | [_] => exact absurd h (by simp)
  | e :: d :: s =>
    have hsign : sign (d :: s ++ [c]) = sign (d :: s) := rfl
    have hle := sign_le_one (d :: s)
    have hrest : (d :: s ++ [c]).drop (sign (d :: s)) = (d :: s).drop (sign (d :: s)) ++ [c] :=
      List.drop_append_of_le_length (by rw [List.length_cons]; omega)
    rw [exponent, List.length_cons, List.length_cons] at h
    rw [List.cons_append, exponent, exponent, hsign, hrest]
    by_cases he : e.toLower = 'e'
    · have hdigits : digitRun ((d :: s).drop (sign (d :: s)) ++ [c])
          = digitRun ((d :: s).drop (sign (d :: s))) := by
        refine settled_digitRun _ c ?_
        rw [List.length_drop, List.length_cons]
        split at h
        · omega
        · rename_i hn
          have hz : digitRun ((d :: s).drop (sign (d :: s))) = 0 :=
            Nat.eq_zero_of_not_pos fun hp => hn ⟨he, hp⟩
          omega
      rw [hdigits]
    · rw [if_neg fun hx => he hx.1, if_neg fun hx => he hx.1]

theorem settled_decimalNumber : Settled 2 decimalNumber := by
  intro s c h
  unfold decimalNumber at h ⊢
  by_cases hz : mantissa s = 0
  · rw [if_pos hz] at h
    have hm : mantissa (s ++ [c]) = mantissa s := settled_mantissa s c (by omega)
    rw [hm, if_pos hz, if_pos hz]
  · rw [if_neg hz] at h
    have hm : mantissa (s ++ [c]) = mantissa s := settled_mantissa s c (by omega)
    rw [hm, if_neg hz, if_neg hz, List.drop_append_of_le_length (by omega)]
    refine congrArg (mantissa s + ·) (settled_exponent _ c ?_)
    rw [List.length_drop]
    omega

theorem number_concat (h : max (number s) 1 + 2 < s.length) : number (s ++ [c]) = number s :=
  settled_radixNumber.max settled_decimalNumber s c (show number s + 2 < s.length by omega)

/-! ## String literals -/

/-- a literal that ends before the text does ends in its closer -/
theorem suffix_take_literalBody {raw escaped : Bool} {closer : Text}
    (h : literalBody raw closer escaped s < s.length) :
    closer <:+ s.take (literalBody raw closer escaped s) := by
  induction s generalizing escaped with
  | nil => exact absurd h (Nat.not_lt_zero _)
  | cons c s ih =>
    have hstep {e : Bool} (hlt : 1 + literalBody raw closer e s < (c :: s).length) :
        closer <:+ (c :: s).take (1 + literalBody raw closer e s) := by
      rw [List.length_cons] at hlt
      rw [Nat.add_comm, List.take_succ_cons]
      exact (ih (by omega)).trans (List.suffix_cons c _)
    cases escaped with
    | true =>
      rw [literalBody] at h ⊢
      exact hstep h
    | false =>
      rw [literalBody] at h ⊢
      by_cases hesc : (!raw && decide (c = '\\')) = true
      · rw [if_pos hesc] at h ⊢
        exact hstep h
      · rw [if_neg hesc] at h ⊢
        by_cases hclose : closer.isPrefixOf (c :: s) = true
        · rw [if_pos hclose]
          exact ⟨[], List.prefix_iff_eq_take.mp (List.isPrefixOf_iff_prefix.mp hclose)⟩
        · rw [if_neg hclose] at h ⊢
          exact hstep h

theorem settled_literalBody (raw : Bool) (closer : Text) (escaped : Bool) :
    Settled 0 (literalBody raw closer escaped) := by
  intro s c h
  induction s generalizing escaped with
  | nil => exact absurd h (Nat.not_lt_zero _)
  | cons d s ih =>
    rw [List.cons_append]
    have hcloser : closer.length ≤ (d :: s).length :=
      Nat.le_trans (suffix_take_literalBody h).length_le (List.length_take_le' _ _)
    cases escaped with
    | true =>
      rw [literalBody, List.length_cons] at h
      rw [literalBody, literalBody, ih false (by omega)]
    | false =>
      rw [literalBody, List.length_cons] at h
      rw [literalBody, literalBody]
      by_cases hesc : (!raw && decide (d = '\\')) = true
      · rw [if_pos hesc] at h
        rw [if_pos hesc, if_pos hesc, ih true (by omega)]
      · rw [if_neg hesc] at h
        have hconcat : closer.isPrefixOf (d :: (s ++ [c])) = closer.isPrefixOf (d :: s) :=
          isPrefixOf_concat hcloser
        rw [if_neg hesc, if_neg hesc, hconcat]
        by_cases hclose : closer.isPrefixOf (d :: s) = true
        · rw [if_pos hclose, if_pos hclose]
        · rw [if_neg hclose] at h
          rw [if_neg hclose, if_neg hclose, ih false (by omega)]

theorem opener_concat {q : Char} (h : 2 ≤ t.length) : opener q (t ++ [c]) = opener q t := by
  unfold opener
  rw [isPrefixOf_concat (o := [q, q]) h]

/-- three letters can become the prefix of a literal, and two quotes its opener -/
theorem literal_concat (h : max (literal s) 1 + 2 < s.length) :
    literal (s ++ [c]) = literal s := by
  by_cases hs : ∃ w q t, s = w ++ q :: t ∧ isLiteralPrefix w = true ∧ isQuote q = true
  · obtain ⟨w, q, t, rfl, hw, hq⟩ := hs
    have hpos := opener_length_pos q t
    rw [literal_append hw hq, List.length_append, List.length_cons] at h
    have hopener : opener q (t ++ [c]) = opener q t := opener_concat (by omega)
    have hle : (opener q t).length ≤ (q :: t).length := (isPrefix_opener q t).length_le
    have hrest : (q :: t ++ [c]).drop (opener q t).length
        = (q :: t).drop (opener q t).length ++ [c] := List.drop_append_of_le_length hle
    rw [List.append_assoc, List.cons_append, literal_append hw hq, literal_append hw hq, hopener]
    refine congrArg (w.length + (opener q t).length + ·) ?_
    rw [← List.cons_append, hrest]
    refine settled_literalBody (isRaw w) (opener q t) false _ c ?_
    rw [List.length_drop, List.length_cons]
    omega
  · have hzero : literal s = 0 := literal_eq_zero fun w q t e hw =>
      Bool.eq_false_iff.mpr fun hq => hs ⟨w, q, t, e, hw, hq⟩
    rw [hzero]
    refine literal_eq_zero fun w q t e hw => Bool.eq_false_iff.mpr fun hq => ?_
    have hlen := (isAlpha_of_isLiteralPrefix hw).1
    -- the quote stands before the last character, so it stands in the shorter text already
    have htake : s = w ++ (q :: t).take (s.length - w.length) := by
      have h1 := congrArg (List.take s.length) e
      rw [List.take_left, List.take_append, List.take_of_length_le (by omega)] at h1
      exact h1
    obtain ⟨k, hk⟩ : ∃ k, s.length - w.length = k + 1 := ⟨s.length - w.length - 1, by omega⟩
    rw [hk, List.take_succ_cons] at htake
    exact hs ⟨w, q, _, htake, hw, hq⟩

/-! ## Operators -/

theorem length_le_of_mem_operators : ∀ o ∈ operators, o.toList.length ≤ 3 := by decide

theorem operator_concat (h : max (operator s) 1 + 2 < s.length) :
    operator (s ++ [c]) = operator s := by
  have hfits : ∀ o ∈ operators, o.toList.isPrefixOf (s ++ [c]) = o.toList.isPrefixOf s := by
    intro o ho
    have hlen := length_le_of_mem_operators o ho
    exact isPrefixOf_concat (by omega)
  unfold operator
  rw [List.find?_congr hfits]

/-! ## One lexeme -/

theorem choice_concat {shape : Shape} {other other' : Shape × Nat} (hlong : 3 < s.length)
    (hf : max (f s) 1 + 2 < s.length → f (s ++ [c]) = f s)
    (h : (if 0 < f s then (shape, f s) else other).2 + 2 < s.length)
    (ho : other.2 + 2 < s.length → other' = other) :
    (if 0 < f (s ++ [c]) then (shape, f (s ++ [c])) else other')
      = if 0 < f s then (shape, f s) else other := by
  by_cases hp : 0 < f s
  · rw [if_pos hp] at h
    rw [hf (by omega), if_pos hp, if_pos hp]
  · rw [if_neg hp] at h
    rw [hf (by omega), if_neg hp, if_neg hp, ho h]

theorem run_concat {p : Char → Bool} (h : run p s + 2 < (c :: s).length) :
    run p (s ++ [d]) = run p s := by
  unfold run at h ⊢
  rw [List.length_cons] at h
  have hrun : (s.takeWhile p).length + 0 < s.length := by omega
  exact congrArg (1 + ·) (settled_takeWhile p s d hrun)

/-- a lexeme with more than two characters behind it stays what it is when a further one comes -/
theorem munch_concat (h : (munch c s).2 + 2 < (c :: s).length) :
    munch c (s ++ [d]) = munch c s := by
  have hlong : 3 < (c :: s).length := by
    have hpos := munch_pos c s
    omega
  unfold munch at h ⊢
  by_cases h1 : isSpace c = true
  · rw [if_pos h1] at h
    rw [if_pos h1, if_pos h1, run_concat h]
  rw [if_neg h1] at h
  rw [if_neg h1, if_neg h1]
  by_cases h2 : c = '#'
  · rw [if_pos h2, List.length_cons] at h
    exact absurd h (by omega)
  rw [if_neg h2] at h
  rw [if_neg h2, if_neg h2]
  refine choice_concat (s := c :: s) hlong literal_concat h fun h => ?_
  refine choice_concat (s := c :: s) hlong number_concat h fun h => ?_
  by_cases h3 : isWordStart c = true
  · rw [if_pos h3] at h
    rw [if_pos h3, if_pos h3, run_concat h]
  rw [if_neg h3] at h
  rw [if_neg h3, if_neg h3]
  by_cases h4 : c = '@'
  · rw [if_pos h4] at h
    rw [if_pos h4, if_pos h4, run_concat h]
  rw [if_neg h4] at h
  rw [if_neg h4, if_neg h4]
  exact choice_concat (s := c :: s) hlong operator_concat h fun _ => rfl

end

/-! ## The lexemes of a line -/

theorem length_lexemes_le (s : Text) : (lexemes s).length ≤ s.length := by
  fun_induction lexemes s with
  | case1 => exact Nat.le_refl 0
  | case2 c s m ih =>
    have hm : 0 < m.2 := munch_pos c s
    rw [List.length_drop, List.length_cons] at ih
    rw [List.length_cons, List.length_cons]
    omega

/-- a further character leaves all lexemes alone but the last three -/
theorem lexemes_concat_prefix (s : Text) (d : Char) :
    (lexemes s).take ((lexemes s).length - 3) <+: lexemes (s ++ [d]) := by
  fun_induction lexemes s with
  | case1 => exact List.nil_prefix
  | case2 c s m ih =>
    rw [List.length_cons]
    have hle := length_lexemes_le ((c :: s).drop m.2)
    by_cases hfew : (lexemes ((c :: s).drop m.2)).length < 3
    · have hz : (lexemes ((c :: s).drop m.2)).length + 1 - 3 = 0 := by omega
      rw [hz]
      exact List.nil_prefix
    rw [List.length_drop] at hle
    have hm : m.2 + 2 < (c :: s).length := by omega
    have hmunch : munch c (s ++ [d]) = m := munch_concat hm
    obtain ⟨k, hk⟩ : ∃ k, (lexemes ((c :: s).drop m.2)).length = k + 3 :=
      ⟨(lexemes ((c :: s).drop m.2)).length - 3, by omega⟩
    have hcount : (lexemes ((c :: s).drop m.2)).length + 1 - 3 = k + 1 := by omega
    have hcount' : (lexemes ((c :: s).drop m.2)).length - 3 = k := by omega
    rw [hcount'] at ih
    rw [hcount, List.take_succ_cons, List.cons_append, lexemes_cons, hmunch, ← List.cons_append,
      List.take_append_of_le_length (by omega), List.drop_append_of_le_length (by omega)]
    exact List.prefix_cons_inj _ |>.mpr ih

/-! ## The tokens of a line -/

theorem take_ofLexemes (v : Vocabulary) (ctx : Context) (ls : List Lexeme) (n : Nat) :
    (ofLexemes v ctx ls).take n = ofLexemes v ctx (ls.take n) := by
  induction ls generalizing ctx n with
  | nil => rw [List.take_nil, ofLexemes_nil, List.take_nil]
  | cons l ls ih =>
    cases n with
    | zero => rfl
    | succ n => rw [ofLexemes_cons, List.take_succ_cons, List.take_succ_cons, ofLexemes_cons, ih]

theorem take_placed (i : Nat) (ts : List Token) (n : Nat) :
    (placed i ts).take n = placed i (ts.take n) := by
  induction ts generalizing i n with
  | nil => cases n <;> rfl
  | cons t ts ih =>
    cases n with
    | zero => rfl
    | succ n => rw [placed_cons, List.take_succ_cons, List.take_succ_cons, placed_cons, ih]

/-- **A typed character changes the last three tokens at most.**  All tokens of a line but the last
three are tokens of the line with a character more, in the same places and with the same roles. -/
theorem scan_concat_prefix (v : Vocabulary) (line : Text) (c : Char) :
    ∃ ps qs : List Placed, scan v line = .ok ps ∧ scan v (line ++ [c]) = .ok qs ∧
      ps.take (ps.length - 3) <+: qs := by
  refine ⟨_, _, scan_eq v line, scan_eq v (line ++ [c]), ?_⟩
  obtain ⟨ls, hls⟩ := lexemes_concat_prefix line c
  have htake : (placed 0 (tokens v (line ++ [c]))).take ((lexemes line).length - 3)
      = (placed 0 (tokens v line)).take ((lexemes line).length - 3) := by
    rw [take_placed, take_placed, tokens, tokens, take_ofLexemes, take_ofLexemes, ← hls]
    rw [List.take_append_of_le_length (by rw [List.length_take]; omega), List.take_take,
      Nat.min_self]
  rw [length_placed, tokens, length_ofLexemes, ← tokens, ← htake]
  exact List.take_prefix _ _

end LineEditor.Token
