import LineEditor.Proofs.Munch
import LineEditor.Proofs.Restart
import Mathlib.Computability.RegularExpressions

/-!
# The grammar of numeric literals

Numeric literals have a regular grammar.  The two readings of a number, with a base mark and as a
decimal, take characters greedily and give an exponent back when it is not complete; all the same a
number in a line is the longest text of the grammar that stands at its place.

* `Grammar.numeral`   the grammar;
* `Measures`          a function on texts gives the length of the longest match of an expression;
* `Measures.optional` a part that may follow is found greedily, if it cannot start inside of what
                      stands before it;
* `measures_number`   the scanner of numbers measures the grammar;
* `scan_numbers`      where the numbers of a line are, and where they end.
-/

namespace LineEditor

namespace Token
open Text

/-! ## The grammar -/

namespace Grammar

/-- one of some alternatives -/
def anyOf : List (RegularExpression Char) → RegularExpression Char
  | [] => 0
  | r :: rs => r + anyOf rs

/-- one of the characters of `s` -/
def oneOf (s : String) : RegularExpression Char := anyOf (s.toList.map .char)

/-- a digit, then digits and separators -/
def digits : RegularExpression Char := oneOf "0123456789" * (oneOf "0123456789_").star

/-- the spellings of each base mark, and what may follow it -/
def bases : List (String × String) :=
  [("xX", "0123456789abcdefABCDEF_"), ("bB", "01_"), ("oO", "01234567_")]

/-- a number with a base mark -/
def based (b : String × String) : RegularExpression Char :=
  .char '0' * (oneOf b.1 * (oneOf b.2 * (oneOf b.2).star))

/-- a decimal number without its exponent -/
def mantissa : RegularExpression Char :=
  digits + digits * .char '.' + digits * (.char '.' * digits) + .char '.' * digits

/-- an exponent -/
def exponent : RegularExpression Char := oneOf "eE" * ((1 + oneOf "+-") * digits)

/-- a numeric literal -/
def numeral : RegularExpression Char := anyOf (bases.map based) + mantissa * (1 + exponent)

end Grammar

/-! ## Membership -/

section
variable {r q : RegularExpression Char} {u : Text}

theorem mem_anyOf {rs : List (RegularExpression Char)} :
    u ∈ (Grammar.anyOf rs).matches' ↔ ∃ r ∈ rs, u ∈ r.matches' := by
  induction rs with
  | nil => exact ⟨fun h => h.elim, fun ⟨_, h, _⟩ => nomatch h⟩
  | cons r rs ih =>
    rw [Grammar.anyOf, RegularExpression.matches'_add, Language.mem_add, ih]
    simp only [List.mem_cons, exists_eq_or_imp]

theorem mem_oneOf {cs : String} :
    u ∈ (Grammar.oneOf cs).matches' ↔ ∃ c ∈ cs.toList, u = [c] := by
  rw [Grammar.oneOf, mem_anyOf]
  simp only [List.mem_map, exists_exists_and_eq_and]
  rfl

theorem mem_star_oneOf {cs : String} :
    u ∈ (Grammar.oneOf cs).star.matches' ↔ ∀ c ∈ u, c ∈ cs.toList := by
  rw [RegularExpression.matches'_star, Language.mem_kstar]
  constructor
  · rintro ⟨ws, rfl, hws⟩ c hc
    obtain ⟨w, hw, hcw⟩ := List.mem_flatten.mp hc
    obtain ⟨d, hd, rfl⟩ := mem_oneOf.mp (hws w hw)
    rwa [List.mem_singleton.mp hcw]
  · intro h
    refine ⟨u.map fun c => [c], ?_, fun w hw => ?_⟩
    · rw [← List.flatMap_def, List.flatMap_singleton']
    · obtain ⟨c, hc, rfl⟩ := List.mem_map.mp hw
      exact mem_oneOf.mpr ⟨c, h c hc, rfl⟩

theorem mem_char_mul {a : Char} :
    u ∈ (RegularExpression.char a * r).matches' ↔ ∃ w ∈ r.matches', u = a :: w := by
  rw [RegularExpression.matches'_mul, Language.mem_mul]
  constructor
  · rintro ⟨_, rfl, w, hw, rfl⟩
    exact ⟨w, hw, rfl⟩
  · rintro ⟨w, hw, rfl⟩
    exact ⟨[a], rfl, w, hw, rfl⟩

theorem mem_oneOf_mul {cs : String} :
    u ∈ (Grammar.oneOf cs * r).matches' ↔ ∃ c ∈ cs.toList, ∃ w ∈ r.matches', u = c :: w := by
  rw [RegularExpression.matches'_mul, Language.mem_mul]
  constructor
  · rintro ⟨v, hv, w, hw, rfl⟩
    obtain ⟨c, hc, rfl⟩ := mem_oneOf.mp hv
    exact ⟨c, hc, w, hw, rfl⟩
  · rintro ⟨c, hc, w, hw, rfl⟩
    exact ⟨[c], mem_oneOf.mpr ⟨c, hc, rfl⟩, w, hw, rfl⟩

theorem mem_optional : u ∈ (1 + r).matches' ↔ u = [] ∨ u ∈ r.matches' := Iff.rfl

/-! ## Digits and marks -/

theorem isDigit_iff (c : Char) : c.isDigit = true ↔ c ∈ "0123456789".toList :=
  isAscii_isDigit.iff_mem (by decide) c

theorem isDigitOrBar_iff (c : Char) : isDigitOrBar c = true ↔ c ∈ "0123456789_".toList :=
  isAscii_isDigitOrBar.iff_mem (by decide) c

theorem toLower_eq_e_iff (c : Char) : c.toLower = 'e' ↔ c ∈ "eE".toList := by
  have he : decide (c.toLower = 'e') = true ↔ c ∈ "eE".toList :=
    (IsAscii.toLower (isAscii_eq (by decide))).iff_mem (by decide) c
  rwa [decide_eq_true_iff] at he

/-- the marks in the table are marks to the scanner, with the same digits -/
theorem radixDigit?_of_mem {b : String × String} (hb : b ∈ Grammar.bases) {mark : Char}
    (hm : mark ∈ b.1.toList) :
    ∃ digit, radixDigit? mark = some digit ∧ ∀ c, digit c = true ↔ c ∈ b.2.toList := by
  have hall : (Grammar.bases.all fun b => b.1.toList.all fun mark =>
      (radixDigit? mark).any (lists b.2.toList)) = true := by decide
  have hmark := List.all_eq_true.mp (List.all_eq_true.mp hall b hb) mark hm
  obtain ⟨digit, hdigit, hlists⟩ := (Option.any_eq_true _ _).mp hmark
  exact ⟨digit, hdigit, (isAscii_radixDigit hdigit).iff_mem hlists⟩

/-- the scanner knows no other marks -/
theorem exists_base {mark : Char} {digit : Char → Bool} (h : radixDigit? mark = some digit) :
    ∃ b ∈ Grammar.bases, mark ∈ b.1.toList ∧ ∀ c, digit c = true ↔ c ∈ b.2.toList := by
  have hascii : IsAscii fun mark => (radixDigit? mark).isSome := by
    intro c hc
    obtain ⟨digit, hdigit⟩ := Option.isSome_iff_exists.mp hc
    exact lt_of_radixDigit? hdigit
  have hmem : mark ∈ Grammar.bases.flatMap fun b => b.1.toList :=
    (hascii.iff_mem (by decide) mark).mp (Option.isSome_iff_exists.mpr ⟨digit, h⟩)
  obtain ⟨b, hb, hm⟩ := List.mem_flatMap.mp hmem
  obtain ⟨digit', hdigit', hclass⟩ := radixDigit?_of_mem hb hm
  obtain rfl : digit = digit' := Option.some.inj (h.symm.trans hdigit')
  exact ⟨b, hb, hm, hclass⟩

/-! ## Longest matches -/

/-- `f` gives the length of the longest text of `r` at the start of a text, and zero where no text
of `r` stands but the empty one -/
structure Measures (r : RegularExpression Char) (f : Text → Nat) : Prop where
  sound : ∀ s, 0 < f s → ∃ u t, s = u ++ t ∧ u ∈ r.matches' ∧ f s = u.length
  longest : ∀ u t, u ∈ r.matches' → u.length ≤ f (u ++ t)

theorem Measures.add {f g : Text → Nat} (hr : Measures r f) (hq : Measures q g) :
    Measures (r + q) fun s => max (f s) (g s) where
  sound s h := by
    replace h : 0 < Nat.max (f s) (g s) := h
    rcases Nat.le_total (f s) (g s) with hle | hle
    · have hmax : Nat.max (f s) (g s) = g s := Nat.max_eq_right hle
      obtain ⟨u, t, hs, hu, hlen⟩ := hq.sound s (hmax ▸ h)
      exact ⟨u, t, hs, .inr hu, hmax.trans hlen⟩
    · have hmax : Nat.max (f s) (g s) = f s := Nat.max_eq_left hle
      obtain ⟨u, t, hs, hu, hlen⟩ := hr.sound s (hmax ▸ h)
      exact ⟨u, t, hs, .inl hu, hmax.trans hlen⟩
  longest u t hu := by
    rcases hu with hu | hu
    · exact Nat.le_trans (hr.longest u t hu) (Nat.le_max_left _ _)
    · exact Nat.le_trans (hq.longest u t hu) (Nat.le_max_right _ _)

/-- the longest match continues every other one -/
theorem Measures.exists_append {f : Text → Nat} (hr : Measures r f) {s : Text}
    (hu : u ∈ r.matches') (hne : u ≠ []) :
    ∃ x t, s = x ++ t ∧ u ++ x ∈ r.matches' ∧ f (u ++ s) = (u ++ x).length := by
  have hle := hr.longest u s hu
  have hpos : 0 < u.length := List.length_pos_iff.mpr hne
  obtain ⟨v, t, hsplit, hv, hlen⟩ := hr.sound (u ++ s) (Nat.lt_of_lt_of_le hpos hle)
  obtain ⟨x, rfl⟩ : u <+: v :=
    List.prefix_of_prefix_length_le (List.prefix_append u s) (hsplit ▸ List.prefix_append v t)
      (hlen ▸ hle)
  rw [List.append_assoc] at hsplit
  exact ⟨x, t, List.append_cancel_left hsplit, hv, hlen⟩

/-- A part that may follow is found greedily, if none of its texts starts with a character that
occurs in the part before it: then no shorter text there can be continued further. -/
theorem Measures.optional {f g : Text → Nat} (hr : Measures r f) (hq : Measures q g)
    (hne : [] ∉ r.matches')
    (hstart : ∀ u ∈ r.matches', ∀ c ∈ u, ∀ w, c :: w ∉ q.matches') :
    Measures (r * (1 + q)) fun s => if f s = 0 then 0 else f s + g (s.drop (f s)) where
  sound s h := by
    have hf : f s ≠ 0 := fun hz => by
      rw [if_pos hz] at h
      exact Nat.lt_irrefl 0 h
    obtain ⟨u, t, rfl, hu, hlen⟩ := hr.sound s (Nat.pos_of_ne_zero hf)
    rw [if_neg hf, hlen, List.drop_left]
    rcases Nat.eq_zero_or_pos (g t) with hg | hg
    · refine ⟨u, t, rfl, ?_, by rw [hg, Nat.add_zero]⟩
      exact Language.mem_mul.mpr ⟨u, hu, [], mem_optional.mpr (.inl rfl), List.append_nil u⟩
    · obtain ⟨w, t, rfl, hw, hwlen⟩ := hq.sound t hg
      refine ⟨u ++ w, t, (List.append_assoc u w t).symm, ?_, ?_⟩
      · exact Language.mem_mul.mpr ⟨u, hu, w, mem_optional.mpr (.inr hw), rfl⟩
      · rw [hwlen, List.length_append]
  longest y t hy := by
    obtain ⟨u, hu, w, hw, rfl⟩ := Language.mem_mul.mp hy
    have hnil : u ≠ [] := fun e => hne (e ▸ hu)
    obtain ⟨x, t', hsplit, hx, hlen⟩ := hr.exists_append (s := w ++ t) hu hnil
    have hpos : 0 < u.length := List.length_pos_iff.mpr hnil
    rw [List.length_append] at hlen
    have hf : f (u ++ (w ++ t)) ≠ 0 := by omega
    rw [List.append_assoc, if_neg hf, List.length_append, hlen]
    rcases mem_optional.mp hw with rfl | hw
    · rw [List.length_nil]
      omega
    · -- `u` is the longest match, since one that is longer runs over the start of `w`
      cases x with
      | nil =>
        rw [List.length_nil, Nat.add_zero, List.drop_left]
        exact Nat.add_le_add_left (hq.longest w t hw) _
      | cons c x =>
        cases w with
        | nil =>
          rw [List.length_nil]
          omega
        | cons d w =>
          obtain ⟨rfl, -⟩ := List.cons.inj hsplit
          exact absurd hw (hstart _ hx d (List.mem_append_right u List.mem_cons_self) w)

/-! ## Runs of digits -/

theorem mem_digits :
    u ∈ Grammar.digits.matches' ↔
      ∃ d ds, u = d :: ds ∧ d.isDigit = true ∧ ∀ c ∈ ds, isDigitOrBar c = true := by
  rw [Grammar.digits, mem_oneOf_mul]
  simp only [mem_star_oneOf, isDigit_iff, isDigitOrBar_iff]
  constructor
  · rintro ⟨d, hd, ds, hds, rfl⟩
    exact ⟨d, ds, rfl, hd, hds⟩
  · rintro ⟨d, ds, rfl, hd, hds⟩
    exact ⟨d, hd, ds, hds, rfl⟩

theorem digitRun_append {t : Text} (hu : u ∈ Grammar.digits.matches') :
    digitRun (u ++ t) = u.length + (t.takeWhile isDigitOrBar).length := by
  obtain ⟨d, ds, rfl, hd, hds⟩ := mem_digits.mp hu
  rw [List.cons_append, digitRun, if_pos hd, List.takeWhile_append_of_pos hds, List.length_append,
    List.length_cons]
  omega

theorem measures_digits : Measures Grammar.digits digitRun where
  sound s h := by
    cases s with
    | nil => exact absurd h (Nat.lt_irrefl 0)
    | cons d s =>
      rw [digitRun] at h
      by_cases hd : d.isDigit = true
      · refine ⟨d :: s.takeWhile isDigitOrBar, s.dropWhile isDigitOrBar, ?_, ?_, ?_⟩
        · rw [List.cons_append, List.takeWhile_append_dropWhile]
        · exact mem_digits.mpr ⟨d, _, rfl, hd, List.all_eq_true.mp List.all_takeWhile⟩
        · rw [digitRun, if_pos hd, List.length_cons, Nat.add_comm]
      · rw [if_neg hd] at h
        exact absurd h (Nat.lt_irrefl 0)
  longest u t hu := by
    rw [digitRun_append hu]
    exact Nat.le_add_right _ _

/-! ## Numbers with a base mark -/

theorem mem_based {b : String × String} :
    u ∈ (Grammar.based b).matches' ↔ ∃ mark ∈ b.1.toList, ∃ ds : Text,
      u = '0' :: mark :: ds ∧ ds ≠ [] ∧ ∀ c ∈ ds, c ∈ b.2.toList := by
  rw [Grammar.based, mem_char_mul]
  simp only [mem_oneOf_mul, mem_star_oneOf]
  constructor
  · rintro ⟨_, ⟨mark, hm, _, ⟨c, hc, cs, hcs, rfl⟩, rfl⟩, rfl⟩
    exact ⟨mark, hm, c :: cs, rfl, List.cons_ne_nil c cs, List.forall_mem_cons.mpr ⟨hc, hcs⟩⟩
  · rintro ⟨mark, hm, ds, rfl, hne, hds⟩
    obtain ⟨c, cs, rfl⟩ := List.exists_cons_of_ne_nil hne
    obtain ⟨hc, hcs⟩ := List.forall_mem_cons.mp hds
    exact ⟨_, ⟨mark, hm, _, ⟨c, hc, cs, hcs, rfl⟩, rfl⟩, rfl⟩

theorem exists_of_radixNumber_pos {s : Text} (h : 0 < radixNumber s) :
    ∃ mark digit t, s = '0' :: mark :: t ∧ radixDigit? mark = some digit ∧
      t.takeWhile digit ≠ [] ∧ radixNumber s = 2 + (t.takeWhile digit).length := by
  unfold radixNumber at h
  split at h
  · rename_i mark t
    cases hdigit : radixDigit? mark with
    | none =>
      rw [hdigit] at h
      exact absurd h (Nat.lt_irrefl 0)
    | some digit =>
      have hlen := radixNumber_of_some hdigit t
      by_cases hz : (t.takeWhile digit).length = 0
      · simp [hdigit, List.length_eq_zero_iff.mp hz] at h
      · rw [if_neg hz] at hlen
        exact ⟨mark, digit, t, rfl, hdigit, fun e => hz (e ▸ rfl), hlen⟩
  · exact absurd h (Nat.lt_irrefl 0)

theorem measures_radixNumber : Measures (Grammar.anyOf (Grammar.bases.map Grammar.based)) radixNumber where
  sound s h := by
    obtain ⟨mark, digit, t, rfl, hdigit, hne, hlen⟩ := exists_of_radixNumber_pos h
    obtain ⟨b, hb, hm, hclass⟩ := exists_base hdigit
    refine ⟨'0' :: mark :: t.takeWhile digit, t.dropWhile digit, ?_, ?_, ?_⟩
    · rw [List.cons_append, List.cons_append, List.takeWhile_append_dropWhile]
    · refine mem_anyOf.mpr ⟨_, List.mem_map_of_mem hb, mem_based.mpr ⟨mark, hm, _, rfl, hne, ?_⟩⟩
      exact fun c hc => (hclass c).mp (List.all_eq_true.mp List.all_takeWhile c hc)
    · rw [hlen, List.length_cons, List.length_cons, Nat.add_comm]
  longest u t hu := by
    obtain ⟨r, hr, hu⟩ := mem_anyOf.mp hu
    obtain ⟨b, hb, rfl⟩ := List.mem_map.mp hr
    obtain ⟨mark, hm, ds, rfl, hne, hds⟩ := mem_based.mp hu
    obtain ⟨digit, hdigit, hclass⟩ := radixDigit?_of_mem hb hm
    have hrun : (ds ++ t).takeWhile digit = ds ++ t.takeWhile digit :=
      List.takeWhile_append_of_pos fun c hc => (hclass c).mpr (hds c hc)
    have hpos := List.length_pos_iff.mpr hne
    rw [List.cons_append, List.cons_append, radixNumber_of_some hdigit, hrun, List.length_append,
      if_neg (by omega), List.length_cons, List.length_cons]
    omega

/-! ## Decimal numbers -/

theorem mem_mantissa :
    u ∈ Grammar.mantissa.matches' ↔ u ∈ Grammar.digits.matches' ∨
      (∃ d ∈ Grammar.digits.matches', u = d ++ ['.']) ∨
      (∃ d ∈ Grammar.digits.matches', ∃ e ∈ Grammar.digits.matches', u = d ++ '.' :: e) ∨
      ∃ d ∈ Grammar.digits.matches', u = '.' :: d := by
  have hpoint : u ∈ (Grammar.digits * .char '.').matches' ↔
      ∃ d ∈ Grammar.digits.matches', u = d ++ ['.'] := by
    rw [RegularExpression.matches'_mul, Language.mem_mul]
    constructor
    · rintro ⟨d, hd, _, rfl, rfl⟩
      exact ⟨d, hd, rfl⟩
    · rintro ⟨d, hd, rfl⟩
      exact ⟨d, hd, ['.'], rfl, rfl⟩
  have hfraction : u ∈ (Grammar.digits * (.char '.' * Grammar.digits)).matches' ↔
      ∃ d ∈ Grammar.digits.matches', ∃ e ∈ Grammar.digits.matches', u = d ++ '.' :: e := by
    rw [RegularExpression.matches'_mul, Language.mem_mul]
    simp only [mem_char_mul]
    constructor
    · rintro ⟨d, hd, _, ⟨e, he, rfl⟩, rfl⟩
      exact ⟨d, hd, e, he, rfl⟩
    · rintro ⟨d, hd, e, he, rfl⟩
      exact ⟨d, hd, _, ⟨e, he, rfl⟩, rfl⟩
  simp only [Grammar.mantissa, RegularExpression.matches'_add, Language.mem_add, hpoint, hfraction,
    mem_char_mul, or_assoc]

/-- a point ends a run of digits -/
theorem drop_digitRun_point {d : Text} (hd : d ∈ Grammar.digits.matches') (t : Text) :
    (d ++ '.' :: t).drop (digitRun (d ++ '.' :: t)) = '.' :: t ∧
      digitRun (d ++ '.' :: t) = d.length := by
  have hrun : digitRun (d ++ '.' :: t) = d.length := digitRun_append hd
  exact ⟨by rw [hrun, List.drop_left], hrun⟩

theorem digits_ne_nil (hu : u ∈ Grammar.digits.matches') : u ≠ [] := by
  obtain ⟨d, ds, rfl, -, -⟩ := mem_digits.mp hu
  exact List.cons_ne_nil d ds

theorem measures_mantissa : Measures Grammar.mantissa mantissa where
  sound s h := by
    by_cases hp : ∃ t, s.drop (digitRun s) = '.' :: t
    · obtain ⟨t, ht⟩ := hp
      rw [mantissa_point ht] at h ⊢
      by_cases hz : digitRun s = 0 ∧ digitRun t = 0
      · rw [if_pos hz] at h
        exact absurd h (Nat.lt_irrefl 0)
      rw [if_neg hz]
      rcases Nat.eq_zero_or_pos (digitRun s) with hs | hs
      · -- the point comes first
        rw [hs, List.drop_zero] at ht
        obtain ⟨e, t', rfl, he, hlen⟩ := measures_digits.sound t (by omega)
        exact ⟨'.' :: e, t', ht, mem_mantissa.mpr (.inr (.inr (.inr ⟨e, he, rfl⟩))), by
          rw [hs, hlen, List.length_cons, Nat.zero_add, Nat.add_comm]⟩
      · obtain ⟨d, t', rfl, hd, hlen⟩ := measures_digits.sound s hs
        rw [hlen, List.drop_left] at ht
        subst ht
        rcases Nat.eq_zero_or_pos (digitRun t) with hz | hpos
        · refine ⟨d ++ ['.'], t, (List.append_assoc d ['.'] t).symm, ?_, ?_⟩
          · exact mem_mantissa.mpr (.inr (.inl ⟨d, hd, rfl⟩))
          · rw [hlen, hz, List.length_append, List.length_singleton, Nat.add_zero]
        · obtain ⟨e, t, rfl, he, hlen'⟩ := measures_digits.sound t hpos
          refine ⟨d ++ '.' :: e, t, (List.append_assoc d ('.' :: e) t).symm, ?_, ?_⟩
          · exact mem_mantissa.mpr (.inr (.inr (.inl ⟨d, hd, e, he, rfl⟩)))
          · rw [hlen, hlen', List.length_append, List.length_cons]
            omega
    · have hm : mantissa s = digitRun s := mantissa_of_ne fun t ht => hp ⟨t, ht⟩
      rw [hm] at h ⊢
      obtain ⟨d, t, hs, hd, hlen⟩ := measures_digits.sound s h
      exact ⟨d, t, hs, mem_mantissa.mpr (.inl hd), hlen⟩
  longest u t hu := by
    rcases mem_mantissa.mp hu with hd | ⟨d, hd, rfl⟩ | ⟨d, hd, e, he, rfl⟩ | ⟨e, he, rfl⟩
    · exact Nat.le_trans (measures_digits.longest u t hd) (digitRun_le_mantissa _)
    · have hpos := List.length_pos_iff.mpr (digits_ne_nil hd)
      obtain ⟨hrest, hrun⟩ := drop_digitRun_point hd t
      rw [List.append_assoc, List.singleton_append, mantissa_point hrest, hrun, if_neg (by omega),
        List.length_append, List.length_singleton]
      exact Nat.le_add_right _ _
    · have hpos := List.length_pos_iff.mpr (digits_ne_nil hd)
      obtain ⟨hrest, hrun⟩ := drop_digitRun_point hd (e ++ t)
      have hle := measures_digits.longest e t he
      rw [List.append_assoc, List.cons_append, mantissa_point hrest, hrun, if_neg (by omega),
        List.length_append, List.length_cons]
      omega
    · have hle := measures_digits.longest e t he
      have hpos := List.length_pos_iff.mpr (digits_ne_nil he)
      have hrest : ('.' :: (e ++ t)).drop (digitRun ('.' :: (e ++ t))) = '.' :: (e ++ t) := rfl
      have hrun : digitRun ('.' :: (e ++ t)) = 0 := rfl
      rw [List.cons_append, mantissa_point hrest, hrun, if_neg (by omega), List.length_cons]
      omega

/-! ## Exponents -/

/-- an optional sign -/
def IsSign (w : Text) : Prop := w = [] ∨ w = ['+'] ∨ w = ['-']

theorem mem_sign {w : Text} : w ∈ (1 + Grammar.oneOf "+-").matches' ↔ IsSign w := by
  rw [mem_optional, mem_oneOf]
  simp [IsSign]

theorem isSign_take (s : Text) : IsSign (s.take (sign s)) ∧ (s.take (sign s)).length = sign s := by
  cases s with
  | nil => exact ⟨.inl rfl, rfl⟩
  | cons c s =>
    rw [sign]
    split
    · rename_i hc
      refine ⟨.inr ?_, rfl⟩
      rcases Bool.or_eq_true_iff.mp hc with hc | hc
      · exact .inl (congrArg (fun c => [c]) (of_decide_eq_true hc))
      · exact .inr (congrArg (fun c => [c]) (of_decide_eq_true hc))
    · exact ⟨.inl rfl, rfl⟩

theorem sign_append {w d t : Text} (hw : IsSign w) (hd : d ∈ Grammar.digits.matches') :
    sign (w ++ (d ++ t)) = w.length := by
  rcases hw with rfl | rfl | rfl
  · obtain ⟨c, ds, rfl, hc, -⟩ := mem_digits.mp hd
    have hsign : (decide (c = '+') || decide (c = '-')) = false := by
      refine Bool.eq_false_iff.mpr fun h => ?_
      rcases Bool.or_eq_true_iff.mp h with h | h
      · rw [of_decide_eq_true h] at hc
        exact absurd hc (by decide)
      · rw [of_decide_eq_true h] at hc
        exact absurd hc (by decide)
    rw [List.nil_append, List.cons_append, sign, hsign]
    rfl
  · rfl
  · rfl

theorem mem_exponent :
    u ∈ Grammar.exponent.matches' ↔ ∃ e, e.toLower = 'e' ∧ ∃ w, IsSign w ∧
      ∃ d ∈ Grammar.digits.matches', u = e :: (w ++ d) := by
  rw [Grammar.exponent, mem_oneOf_mul]
  simp only [RegularExpression.matches'_mul, Language.mem_mul, mem_sign, toLower_eq_e_iff]
  constructor
  · rintro ⟨e, he, _, ⟨w, hw, d, hd, rfl⟩, rfl⟩
    exact ⟨e, he, w, hw, d, hd, rfl⟩
  · rintro ⟨e, he, w, hw, d, hd, rfl⟩
    exact ⟨e, he, _, ⟨w, hw, d, hd, rfl⟩, rfl⟩

theorem measures_exponent : Measures Grammar.exponent exponent where
  sound s h := by
    cases s with
    | nil => exact absurd h (Nat.lt_irrefl 0)
    | cons e s =>
      rw [exponent] at h
      by_cases he : e.toLower = 'e' ∧ 0 < digitRun (s.drop (sign s))
      · obtain ⟨d, t, hs, hd, hlen⟩ := measures_digits.sound _ he.2
        obtain ⟨hsign, hsignlen⟩ := isSign_take s
        refine ⟨e :: (s.take (sign s) ++ d), t, ?_, ?_, ?_⟩
        · rw [List.cons_append, List.append_assoc, ← hs, List.take_append_drop]
        · exact mem_exponent.mpr ⟨e, he.1, _, hsign, d, hd, rfl⟩
        · rw [exponent, if_pos he, hlen, List.length_cons, List.length_append, hsignlen]
          omega
      · rw [if_neg he] at h
        exact absurd h (Nat.lt_irrefl 0)
  longest u t hu := by
    obtain ⟨e, he, w, hw, d, hd, rfl⟩ := mem_exponent.mp hu
    have hle := measures_digits.longest d t hd
    have hpos := List.length_pos_iff.mpr (digits_ne_nil hd)
    rw [List.cons_append, List.append_assoc, exponent, sign_append hw hd, List.drop_left,
      if_pos ⟨he, by omega⟩, List.length_cons, List.length_append]
    omega

/-! ## Numeric literals -/

theorem isDigitOrBar_or_point {c : Char} (hu : u ∈ Grammar.mantissa.matches') (hc : c ∈ u) :
    isDigitOrBar c = true ∨ c = '.' := by
  have hdigits {d : Text} (hd : d ∈ Grammar.digits.matches') (hc : c ∈ d) :
      isDigitOrBar c = true := by
    obtain ⟨a, ds, rfl, ha, hds⟩ := mem_digits.mp hd
    rcases List.mem_cons.mp hc with rfl | hc
    · exact Bool.or_eq_true_iff.mpr (.inl ha)
    · exact hds c hc
  rcases mem_mantissa.mp hu with hd | ⟨d, hd, rfl⟩ | ⟨d, hd, e, he, rfl⟩ | ⟨e, he, rfl⟩
  · exact .inl (hdigits hd hc)
  · rcases List.mem_append.mp hc with hc | hc
    · exact .inl (hdigits hd hc)
    · exact .inr (List.mem_singleton.mp hc)
  · rcases List.mem_append.mp hc with hc | hc
    · exact .inl (hdigits hd hc)
    · rcases List.mem_cons.mp hc with rfl | hc
      · exact .inr rfl
      · exact .inl (hdigits he hc)
  · rcases List.mem_cons.mp hc with rfl | hc
    · exact .inr rfl
    · exact .inl (hdigits he hc)

theorem toLower_ne_e {c : Char} (h : isDigitOrBar c = true ∨ c = '.') : c.toLower ≠ 'e' := by
  rcases h with h | rfl
  · have hall : ("0123456789_".toList.all fun c => decide (c.toLower ≠ 'e')) = true := by decide
    exact of_decide_eq_true (List.all_eq_true.mp hall c ((isDigitOrBar_iff c).mp h))
  · decide

theorem mantissa_ne_nil (hu : u ∈ Grammar.mantissa.matches') : u ≠ [] := by
  rcases mem_mantissa.mp hu with hd | ⟨d, -, rfl⟩ | ⟨d, -, e, -, rfl⟩ | ⟨e, -, rfl⟩
  · exact digits_ne_nil hd
  · exact List.append_ne_nil_of_right_ne_nil d (List.cons_ne_nil _ _)
  · exact List.append_ne_nil_of_right_ne_nil d (List.cons_ne_nil _ _)
  · exact List.cons_ne_nil _ _

theorem measures_number : Measures Grammar.numeral number := by
  refine measures_radixNumber.add ?_
  refine measures_mantissa.optional measures_exponent (fun h => mantissa_ne_nil h rfl) ?_
  intro u hu c hc w hw
  obtain ⟨e, he, v, -, d, -, hcons⟩ := mem_exponent.mp hw
  obtain ⟨rfl, -⟩ := List.cons.inj hcons
  exact toLower_ne_e (isDigitOrBar_or_point hu hc) he

end

/-! ## The numbers of a line -/

theorem number_eq_zero {c : Char} (hdigit : c.isDigit = false) (hpoint : c ≠ '.') (s : Text) :
    number (c :: s) = 0 := by
  have hradix : radixNumber (c :: s) = 0 := radixNumber_of_ne (fun e => by
    rw [e] at hdigit
    cases hdigit) s
  have hrun : digitRun (c :: s) = 0 := by
    rw [digitRun, hdigit]
    rfl
  have hmantissa : mantissa (c :: s) = 0 := by
    rw [mantissa_of_ne fun t e => ?_, hrun]
    rw [hrun] at e
    exact hpoint (List.cons.inj e).1
  rw [number, hradix, decimalNumber, if_pos hmantissa]
  rfl

/-- a number starts with a digit or a point, which start nothing that is tried before -/
theorem other_of_number_pos {c : Char} {s : Text} (h : 0 < number (c :: s)) :
    isSpace c = false ∧ c ≠ '#' ∧ isQuote c = false ∧ c.isAlpha = false := by
  have hc : c ∈ "0123456789.".toList := by
    by_cases hdigit : c.isDigit = true
    · exact List.mem_append_left ['.'] ((isDigit_iff c).mp hdigit)
    · by_cases hpoint : c = '.'
      · exact List.mem_append_right "0123456789".toList (List.mem_singleton.mpr hpoint)
      · rw [number_eq_zero (Bool.eq_false_iff.mpr hdigit) hpoint] at h
        exact absurd h (Nat.lt_irrefl 0)
  have hall : ("0123456789.".toList.all fun c =>
      isSpace c == false && decide (c ≠ '#') && isQuote c == false && c.isAlpha == false) = true := by
    decide
  have h := List.all_eq_true.mp hall c hc
  simpa only [Bool.and_eq_true, beq_iff_eq, decide_eq_true_eq, and_assoc] using h

theorem literal_eq_zero_of_number_pos {c : Char} {s : Text} (h : 0 < number (c :: s)) :
    literal (c :: s) = 0 := by
  obtain ⟨-, -, hquote, halpha⟩ := other_of_number_pos h
  refine literal_eq_zero fun w q t e hw => ?_
  cases w with
  | nil => rwa [← (List.cons.inj e).1]
  | cons a w =>
    have ha := (isAlpha_of_isLiteralPrefix hw).2 a List.mem_cons_self
    rw [← (List.cons.inj e).1, halpha] at ha
    cases ha

theorem decides_number : Decides .number number where
  nil := rfl
  munch_eq {c s} h := by
    obtain ⟨hblank, hhash, -, -⟩ := other_of_number_pos h
    have hliteral := literal_eq_zero_of_number_pos h
    rw [munch, hblank, if_neg Bool.false_ne_true, if_neg hhash, hliteral,
      if_neg (Nat.lt_irrefl 0), if_pos h]
  pos {c s} h := by
    refine Decidable.byContradiction fun hn => ?_
    unfold munch at h
    simp only [if_neg hn] at h
    split_ifs at h

theorem shape_eq_number_iff (k : Kind) : k.shape = .number ↔ k = .number := by
  cases k <;> simp [Kind.shape]

/-- **Numbers are the longest texts of their grammar.**  At every border of a line stands a number
if and only if a text of the grammar stands there, and the number is the longest one. -/
theorem scan_numbers (v : Vocabulary) (line : Text) :
    ∃ ps : List Placed, scan v line = .ok ps ∧ ∀ k : Nat, ∃ rest : Text,
      line.dropBytes (border 0 (ps.take k)) = some rest ∧
      ((∃ p, ps[k]? = some p ∧ p.token.kind = .number) ↔
        ∃ u, u <+: rest ∧ u ≠ [] ∧ u ∈ Grammar.numeral.matches') ∧
      ∀ p, ps[k]? = some p → p.token.kind = .number →
        p.start = border 0 (ps.take k) ∧ p.token.text <+: rest ∧
        p.token.text ∈ Grammar.numeral.matches' ∧
        ∀ u, u <+: rest → u ∈ Grammar.numeral.matches' → u.length ≤ p.token.text.length := by
  refine ⟨placed 0 (tokens v line), scan_eq v line, fun k => ?_⟩
  obtain ⟨rest, hrest, hnext⟩ := next_at_border v line k
  refine ⟨rest, hrest, ?_, fun p hp hkind => ?_⟩
  · simp only [← shape_eq_number_iff]
    rw [decides_number.exists_iff hnext]
    constructor
    · intro hpos
      obtain ⟨u, t, hs, hu, hlen⟩ := measures_number.sound rest hpos
      exact ⟨u, ⟨t, hs.symm⟩, List.length_pos_iff.mp (hlen ▸ hpos), hu⟩
    · rintro ⟨u, ⟨t, rfl⟩, hne, hu⟩
      exact Nat.lt_of_lt_of_le (List.length_pos_iff.mpr hne) (measures_number.longest u t hu)
  · rw [hp] at hnext
    have hpos : 0 < number rest := (decides_number.shape_eq_iff hnext).mp (by rw [hkind]; rfl)
    obtain ⟨u, t, rfl, hu, hlen⟩ := measures_number.sound rest hpos
    have htext : p.token.text = u := by
      rw [decides_number.text_eq hnext hpos, hlen, List.take_left]
    rw [htext]
    refine ⟨hnext.start_eq, List.prefix_append u t, hu, ?_⟩
    rintro w ⟨t', hw⟩ hmem
    rw [← hlen, ← hw]
    exact measures_number.longest w t' hmem

end Token

end LineEditor
