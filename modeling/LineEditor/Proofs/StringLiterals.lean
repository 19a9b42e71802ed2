import LineEditor.Proofs.Munch
import LineEditor.Proofs.Restart
import Mathlib.Tactic.SplitIfs

/-!
# The extent of string literals

A string literal opens with a prefix and quotes, and it ends behind the first closer that is not
escaped.  `Whole` says which texts leave no escape open, so that the character behind them is not
escaped; the end of a literal is said with it, without a reader that goes from character to
character.

* `Opens`            where a literal starts, and what closes it;
* `Extends`          how far it reaches;
* `extends_literalBody`   the scanner stops there;
* `scan_strings`     where the string literals of a line are, and where they end.
-/

namespace LineEditor.Token
open Text

/-! ## Where a literal ends -/

/-- texts in which every escape is complete: a backslash takes the character behind it along,
unless the literal is raw -/
inductive Whole (raw : Prop) : Text → Prop
  | nil : Whole raw []
  | char {c : Char} {x : Text} (hc : raw ∨ c ≠ '\\') (h : Whole raw x) : Whole raw (c :: x)
  | escape {c : Char} {x : Text} (hraw : ¬ raw) (h : Whole raw x) : Whole raw ('\\' :: c :: x)

/-- the part of `s` that belongs to a literal, where `s` stands behind the opener: up to the first
closer behind a whole text, or all of `s` -/
inductive Extends (raw : Prop) (closer s : Text) : Text → Prop
  | closed {x : Text} (hx : Whole raw x) (hclose : x ++ closer <+: s)
      (hfirst : ∀ y, Whole raw y → y ++ closer <+: s → x.length ≤ y.length) :
      Extends raw closer s (x ++ closer)
  | unclosed (h : ∀ y, Whole raw y → ¬ y ++ closer <+: s) : Extends raw closer s s

section
variable {raw : Prop} {q c : Char} {closer s x : Text}

/-- what stands before a literal's rest and is read in one step -/
theorem Extends.append {u : Text} (hu : ∀ y, Whole raw y → Whole raw (u ++ y))
    (hsplit : ∀ y, Whole raw y → y ++ closer <+: u ++ s →
      ∃ z, y = u ++ z ∧ Whole raw z ∧ z ++ closer <+: s)
    (h : Extends raw closer s x) : Extends raw closer (u ++ s) (u ++ x) := by
  cases h with
  | @closed x hx hclose hfirst =>
    rw [← List.append_assoc]
    refine .closed (hu x hx) ?_ fun y hy hyc => ?_
    · rw [List.append_assoc]
      exact (List.prefix_append_right_inj u).mpr hclose
    · obtain ⟨z, rfl, hz, hzc⟩ := hsplit y hy hyc
      rw [List.length_append, List.length_append]
      exact Nat.add_le_add_left (hfirst z hz hzc) _
  | unclosed h =>
    refine .unclosed fun y hy hyc => ?_
    obtain ⟨z, rfl, hz, hzc⟩ := hsplit y hy hyc
    exact h z hz hzc

theorem Extends.here (h : closer <+: s) : Extends raw closer s closer :=
  .closed .nil h fun _ _ _ => Nat.zero_le _

theorem Extends.nil (hne : closer ≠ []) : Extends raw closer [] [] :=
  .unclosed fun _ _ h => hne (List.append_eq_nil_iff.mp (List.prefix_nil.mp h)).2

theorem Extends.char (hc : raw ∨ c ≠ '\\') (hn : ¬ closer <+: c :: s)
    (h : Extends raw closer s x) : Extends raw closer (c :: s) (c :: x) := by
  refine h.append (u := [c]) (fun y hy => .char hc hy) fun y hy hyc => ?_
  cases hy with
  | nil => exact absurd hyc hn
  | @char d y hd hy =>
    obtain ⟨rfl, hrest⟩ := List.cons_prefix_cons.mp hyc
    exact ⟨y, rfl, hy, hrest⟩
  | escape hraw hy =>
    obtain ⟨rfl, -⟩ := List.cons_prefix_cons.mp hyc
    exact (hc.elim hraw fun hne => hne rfl).elim

theorem Extends.escape (hraw : ¬ raw) (hq : q ≠ '\\') (h : Extends raw (q :: closer) s x) :
    Extends raw (q :: closer) ('\\' :: c :: s) ('\\' :: c :: x) := by
  refine h.append (u := ['\\', c]) (fun y hy => .escape hraw hy) fun y hy hyc => ?_
  cases hy with
  | nil => exact absurd (List.cons_prefix_cons.mp hyc).1 hq
  | char hd hy =>
    obtain ⟨rfl, -⟩ := List.cons_prefix_cons.mp hyc
    exact (hd.elim hraw fun hne => hne rfl).elim
  | @escape d y _ hy =>
    obtain ⟨rfl, hrest⟩ := List.cons_prefix_cons.mp (List.cons_prefix_cons.mp hyc).2
    exact ⟨y, rfl, hy, hrest⟩

/-- a backslash at the end escapes nothing, and no closer stands behind it -/
theorem Extends.lone (hraw : ¬ raw) (hq : q ≠ '\\') :
    Extends raw (q :: closer) ['\\'] ['\\'] := by
  refine .unclosed fun y hy hyc => ?_
  cases hy with
  | nil => exact hq (List.cons_prefix_cons.mp hyc).1
  | char hd hy =>
    obtain ⟨rfl, -⟩ := List.cons_prefix_cons.mp hyc
    exact hd.elim hraw fun hne => hne rfl
  | escape _ hy =>
    have hnil := List.prefix_nil.mp (List.cons_prefix_cons.mp hyc).2
    cases hnil

/-- there is one end -/
theorem Extends.unique {y : Text} (h : Extends raw closer s x) (h' : Extends raw closer s y) :
    x = y := by
  cases h with
  | @closed x hx hclose hfirst =>
    cases h' with
    | @closed y hy hclose' hfirst' =>
      have hle := hfirst y hy hclose'
      have hge := hfirst' x hx hclose
      have hlen : (x ++ closer).length = (y ++ closer).length := by
        rw [List.length_append, List.length_append]
        omega
      exact (List.prefix_of_prefix_length_le hclose hclose' (Nat.le_of_eq hlen)).eq_of_length hlen
    | unclosed hno => exact absurd hclose (hno x hx)
  | unclosed hno =>
    cases h' with
    | closed hy hclose' hfirst' => exact absurd hclose' (hno _ hy)
    | unclosed hno' => rfl

end

/-! ## Where the scanner stops -/

theorem extends_literalBody (raw : Bool) {q : Char} (hq : q ≠ '\\') (closer s : Text) :
    Extends (raw = true) (q :: closer) s (s.take (literalBody raw (q :: closer) false s)) ∧
      (¬ raw = true → Extends (raw = true) (q :: closer) ('\\' :: s)
        ('\\' :: s.take (literalBody raw (q :: closer) true s))) := by
  induction s with
  | nil =>
    refine ⟨.nil (List.cons_ne_nil q closer), fun hraw => .lone hraw hq⟩
  | cons c s ih =>
    obtain ⟨hplain, hescaped⟩ := ih
    constructor
    · rw [literalBody]
      by_cases hesc : (!raw && decide (c = '\\')) = true
      · obtain ⟨hraw, hc⟩ := Bool.and_eq_true_iff.mp hesc
        rw [if_pos hesc, Nat.add_comm, List.take_succ_cons, of_decide_eq_true hc]
        exact hescaped (Bool.eq_false_iff.mp ((Bool.not_eq_true' raw).mp hraw))
      rw [if_neg hesc]
      by_cases hclose : (q :: closer).isPrefixOf (c :: s) = true
      · have hprefix := List.isPrefixOf_iff_prefix.mp hclose
        rw [if_pos hclose, ← List.prefix_iff_eq_take.mp hprefix]
        exact .here hprefix
      · rw [if_neg hclose, Nat.add_comm, List.take_succ_cons]
        refine .char ?_ (fun h => hclose (List.isPrefixOf_iff_prefix.mpr h)) hplain
        refine Decidable.or_iff_not_imp_left.mpr fun hraw hc => hesc ?_
        rw [Bool.eq_false_iff.mpr hraw, decide_eq_true hc]
        rfl
    · intro hraw
      rw [literalBody, Nat.add_comm, List.take_succ_cons]
      exact .escape hraw hq hplain

/-! ## Where a literal starts -/

/-- `s` starts with a prefix `w` of letters and the quotes that open a literal, with `body` behind
them: three of one quote, if three stand there, else one.  The literal closes with the same. -/
inductive Opens : Text → Text → Text → Text → Prop
  | three {w body : Text} {q : Char} (hw : isLiteralPrefix w = true) (hq : isQuote q = true) :
      Opens (w ++ [q, q, q] ++ body) w [q, q, q] body
  | one {w body : Text} {q : Char} (hw : isLiteralPrefix w = true) (hq : isQuote q = true)
      (hone : ¬ [q, q] <+: body) : Opens (w ++ [q] ++ body) w [q] body

theorem opens_iff {s w closer body : Text} :
    Opens s w closer body ↔ ∃ q t, s = w ++ q :: t ∧ isLiteralPrefix w = true ∧
      isQuote q = true ∧ closer = opener q t ∧ q :: t = closer ++ body := by
  constructor
  · intro h
    cases h with
    | @three w body q hw hq =>
      have hopen : opener q (q :: q :: body) = [q, q, q] :=
        if_pos (List.isPrefixOf_iff_prefix.mpr (List.prefix_append [q, q] body))
      exact ⟨q, q :: q :: body, List.append_assoc _ _ _, hw, hq, hopen.symm, rfl⟩
    | @one w body q hw hq hone =>
      have hopen : opener q body = [q] :=
        if_neg fun hp => hone (List.isPrefixOf_iff_prefix.mp hp)
      exact ⟨q, body, List.append_assoc _ _ _, hw, hq, hopen.symm, rfl⟩
  · rintro ⟨q, t, rfl, hw, hq, rfl, hsplit⟩
    rw [hsplit, ← List.append_assoc]
    by_cases h3 : [q, q].isPrefixOf t = true
    · have hopen : opener q t = [q, q, q] := if_pos h3
      rw [hopen]
      exact .three hw hq
    · have hopen : opener q t = [q] := if_neg h3
      rw [hopen] at hsplit ⊢
      obtain rfl : t = body := List.cons_inj_right q |>.mp hsplit
      exact .one hw hq fun hp => h3 (List.isPrefixOf_iff_prefix.mpr hp)

theorem exists_opens_of_literal_pos {s : Text} (h : 0 < literal s) :
    ∃ w closer body, Opens s w closer body := by
  refine Classical.byContradiction fun hn => Nat.ne_of_gt h (literal_eq_zero fun w q t hs hw => ?_)
  refine Bool.eq_false_iff.mpr fun hq => hn ⟨w, opener q t, (q :: t).drop (opener q t).length, ?_⟩
  have hopen := isPrefix_opener q t
  exact opens_iff.mpr ⟨q, t, hs, hw, hq, rfl, (List.prefix_iff_eq_append.mp hopen).symm⟩

/-- the length of a literal, by its parts -/
theorem literal_eq {s w closer body : Text} (h : Opens s w closer body) :
    literal s = (w ++ closer).length + literalBody (isRaw w) closer false body := by
  obtain ⟨q, t, rfl, hw, hq, rfl, hsplit⟩ := opens_iff.mp h
  rw [literal_append hw hq, hsplit, List.drop_left, List.length_append]

theorem isRaw_iff (w : Text) : isRaw w = true ↔ 'r' ∈ w ∨ 'R' ∈ w := by
  have hlower (c : Char) : decide (c.toLower = 'r') = true ↔ c ∈ ['r', 'R'] :=
    (IsAscii.toLower (isAscii_eq (by decide))).iff_mem (by decide) c
  rw [isRaw, List.any_eq_true]
  simp only [hlower, List.mem_cons, List.not_mem_nil, or_false]
  constructor
  · rintro ⟨c, hc, rfl | rfl⟩
    · exact .inl hc
    · exact .inr hc
  · rintro (hc | hc)
    · exact ⟨'r', hc, .inl rfl⟩
    · exact ⟨'R', hc, .inr rfl⟩

theorem ne_backslash_of_isQuote {q : Char} (h : isQuote q = true) : q ≠ '\\' := by
  rintro rfl
  exact absurd h (by decide)

/-- the scanner takes what a literal extends to -/
theorem exists_extends {s w closer body : Text} (h : Opens s w closer body) :
    ∃ x, Extends ('r' ∈ w ∨ 'R' ∈ w) closer body x ∧ s.take (literal s) = w ++ closer ++ x := by
  obtain ⟨q, t, hs, -, hq, hclose, hsplit⟩ := opens_iff.mp h
  obtain ⟨cs, rfl⟩ : ∃ cs, closer = q :: cs := by
    rw [hclose, opener]
    split
    · exact ⟨_, rfl⟩
    · exact ⟨_, rfl⟩
  have hextends := (extends_literalBody (isRaw w) (ne_backslash_of_isQuote hq) cs body).1
  rw [isRaw_iff] at hextends
  refine ⟨_, hextends, ?_⟩
  rw [literal_eq h, hs, hsplit, ← List.append_assoc, List.take_length_add_append]

/-! ## The literals of a line -/

theorem literal_pos {s w closer body : Text} (h : Opens s w closer body) : 0 < literal s := by
  obtain ⟨q, t, -, -, -, rfl, -⟩ := opens_iff.mp h
  have hpos := opener_length_pos q t
  rw [literal_eq h, List.length_append]
  omega

/-- a literal starts with a letter or a quote, which start nothing that is tried before -/
theorem other_of_literal_pos {c : Char} {s : Text} (h : 0 < literal (c :: s)) :
    isSpace c = false ∧ c ≠ '#' := by
  obtain ⟨w, closer, body, hopens⟩ := exists_opens_of_literal_pos h
  obtain ⟨q, t, hs, hw, hq, -, -⟩ := opens_iff.mp hopens
  have hc : isQuote c = true ∨ c.isAlpha = true := by
    cases w with
    | nil => exact .inl ((List.cons.inj hs).1 ▸ hq)
    | cons a w =>
      have ha := (isAlpha_of_isLiteralPrefix hw).2 a List.mem_cons_self
      exact .inr ((List.cons.inj hs).1 ▸ ha)
  have hne {d : Char} (hquote : isQuote d = false) (halpha : d.isAlpha = false) : c ≠ d := by
    rintro rfl
    rw [hquote, halpha] at hc
    simp at hc
  refine ⟨?_, hne (by decide) (by decide)⟩
  rw [isSpace, decide_eq_false (hne (by decide) (by decide)),
    decide_eq_false (hne (by decide) (by decide))]
  rfl

theorem decides_literal : Decides .string literal where
  nil := rfl
  munch_eq {c s} h := by
    obtain ⟨hblank, hhash⟩ := other_of_literal_pos h
    rw [munch, hblank, if_neg Bool.false_ne_true, if_neg hhash, if_pos h]
  pos {c s} h := by
    refine Decidable.byContradiction fun hn => ?_
    unfold munch at h
    simp only [if_neg hn] at h
    split_ifs at h

theorem shape_eq_string_iff (k : Kind) : k.shape = .string ↔ k = .string := by
  cases k <;> simp [Kind.shape]

/-- **String literals are read character by character.**  At every border of a line stands a string
literal if and only if a prefix and quotes stand there, and it extends to the first closer that is
not escaped. -/
theorem scan_strings (v : Vocabulary) (line : Text) :
    ∃ ps : List Placed, scan v line = .ok ps ∧ ∀ k : Nat, ∃ rest : Text,
      line.dropBytes (border 0 (ps.take k)) = some rest ∧
      ((∃ p, ps[k]? = some p ∧ p.token.kind = .string) ↔
        ∃ w closer body, Opens rest w closer body) ∧
      ∀ p w closer body, ps[k]? = some p → Opens rest w closer body →
        p.start = border 0 (ps.take k) ∧
        ∃ x, p.token.text = w ++ closer ++ x ∧ Extends ('r' ∈ w ∨ 'R' ∈ w) closer body x ∧
          ∀ y, Extends ('r' ∈ w ∨ 'R' ∈ w) closer body y → y = x := by
  refine ⟨placed 0 (tokens v line), scan_eq v line, fun k => ?_⟩
  obtain ⟨rest, hrest, hnext⟩ := next_at_border v line k
  refine ⟨rest, hrest, ?_, fun p w closer body hp hopens => ?_⟩
  · simp only [← shape_eq_string_iff]
    rw [decides_literal.exists_iff hnext]
    exact ⟨exists_opens_of_literal_pos, fun ⟨_, _, _, hopens⟩ => literal_pos hopens⟩
  · rw [hp] at hnext
    obtain ⟨x, hx, htext⟩ := exists_extends hopens
    refine ⟨hnext.start_eq, x, ?_, hx, fun y hy => hy.unique hx⟩
    rw [decides_literal.text_eq hnext (literal_pos hopens), htext]

end LineEditor.Token
