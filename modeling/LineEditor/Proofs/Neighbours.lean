import Mathlib.Tactic.Linarith
import Mathlib.Tactic.LinearCombination
import Mathlib.Tactic.Ring

/-!
# Neighbouring fractions

On which side of the whole numbers do the multiples of a ratio lie, and do the multiples of a second
ratio, close to the first, lie on the same sides?  Two neighbouring fractions `a / b` and `c / d`,
with `c · b = a · d + 1`, answer that for all whole numbers below `a + c` at once: every pair of
whole numbers is a combination of `(a, b)` and `(c, d)`, and if both count positively in it then its
numerator is `a + c` or more.  So if both ratios lie between the two fractions, then a multiple of
either of them lies above a whole number below `a + c` by at least as much as `b` times the ratio
lies above `a`, or below it by at least as much as `d` times the ratio lies below `c`.  Where one of
these two distances is too small, the fractions `a / b` and `c / d` are exceptions, and for the
others the two distances count together.

* `Simple.keeps`     ratios that are equal and simple;
* `Between.keeps`    ratios between neighbours;
* `Around.keeps`     the same with two exceptions.

The neighbours are found by going down from `0 / 1` and `1 / 0` through the fractions in between;
the proofs use only that they are neighbours.
-/

namespace LineEditor

/-- a ratio of two whole numbers, not always in lowest terms -/
structure Ratio where
  num : Nat
  den : Nat

namespace Ratio

/-- how far `n` times the ratio lies above `m`, in parts of its denominator -/
def excess (r : Ratio) (n m : Nat) : Int := n * r.num - m * r.den

/-- where `n` times `r` lies above or below `m`, so does `n` times `r'`, and by more than one in
`gap`; where the one is `m`, so is the other -/
structure Keeps (gap : Nat) (r r' : Ratio) (n m : Nat) : Prop where
  above : 0 < r.excess n m → (r'.den : Int) < gap * r'.excess n m
  below : r.excess n m < 0 → gap * r'.excess n m < -(r'.den : Int)
  equal : r.excess n m = 0 → r'.excess n m = 0

variable {bound gap : Nat} {r r' : Ratio} {n m : Nat}

theorem keeps_iff : Keeps gap r r' n m ↔
    (0 < r.excess n m → (r'.den : Int) < gap * r'.excess n m) ∧
      (r.excess n m < 0 → gap * r'.excess n m < -(r'.den : Int)) ∧
      (r.excess n m = 0 → r'.excess n m = 0) :=
  ⟨fun h => ⟨h.above, h.below, h.equal⟩, fun h => ⟨h.1, h.2.1, h.2.2⟩⟩

instance (gap : Nat) (r r' : Ratio) (n m : Nat) : Decidable (Keeps gap r r' n m) :=
  decidable_of_iff' _ keeps_iff

/-- a common factor of the multiple and of both denominators can be left out -/
theorem Keeps.of_scaled {a b a' b' t : Nat} (ht : 0 < t)
    (h : Keeps gap ⟨a, b * t⟩ ⟨a', b' * t⟩ (n * t) m) : Keeps gap ⟨a, b⟩ ⟨a', b'⟩ n m := by
  have hscale (x y : Nat) : (⟨x, y * t⟩ : Ratio).excess (n * t) m
      = t * (⟨x, y⟩ : Ratio).excess n m := by
    simp only [excess]
    push_cast
    ring
  have ht' : (0 : Int) < t := Int.natCast_pos.mpr ht
  constructor
  · intro hpos
    have habove := h.above (by rw [hscale]; exact Int.mul_pos ht' hpos)
    rw [hscale] at habove
    push_cast at habove
    refine lt_of_mul_lt_mul_left ?_ ht'.le
    linarith
  · intro hneg
    have hbelow := h.below (by rw [hscale]; exact Int.mul_neg_of_pos_of_neg ht' hneg)
    rw [hscale] at hbelow
    push_cast at hbelow
    refine lt_of_mul_lt_mul_left ?_ ht'.le
    linarith
  · intro hzero
    have hequal := h.equal (by rw [hscale, hzero, Int.mul_zero])
    rw [hscale] at hequal
    exact (Int.mul_eq_zero.mp hequal).resolve_left ht'.ne'

/-! ## Simple ratios -/

/-- the second ratio is equal to the first, and its denominator in lowest terms is less than
`gap` -/
def Simple (gap : Nat) (r r' : Ratio) : Prop :=
  0 < r.num ∧ r.num * r'.den = r'.num * r.den ∧ r'.den < gap * r'.num.gcd r'.den

instance (gap : Nat) (r r' : Ratio) : Decidable (Simple gap r r') :=
  inferInstanceAs (Decidable (_ ∧ _))

/-- the multiples of a ratio lie above or below whole numbers by multiples of the common divisor of
its numerator and denominator -/
theorem gcd_dvd_excess (r : Ratio) (n m : Nat) : (r.num.gcd r.den : Int) ∣ r.excess n m := by
  refine Int.dvd_sub (Int.dvd_mul_of_dvd_right ?_) (Int.dvd_mul_of_dvd_right ?_)
  · exact Int.natCast_dvd_natCast.mpr (Nat.gcd_dvd_left _ _)
  · exact Int.natCast_dvd_natCast.mpr (Nat.gcd_dvd_right _ _)

theorem Simple.keeps (h : Simple gap r r') (n m : Nat) : Keeps gap r r' n m := by
  obtain ⟨hpos, heq, hsmall⟩ := h
  have hnum : 0 < r'.num := by
    by_contra! h0
    rw [Nat.le_zero.mp h0, Nat.zero_mul, Nat.mul_eq_zero] at heq
    rw [heq.resolve_left hpos.ne', Nat.le_zero.mp h0] at hsmall
    exact absurd hsmall (Nat.not_lt_zero _)
  have hr : (0 : Int) < r.num := by exact_mod_cast hpos
  have hr' : (0 : Int) < r'.num := by exact_mod_cast hnum
  have hgap : (0 : Int) ≤ gap := Int.natCast_nonneg _
  have hsmall' : (r'.den : Int) < gap * r'.num.gcd r'.den := by exact_mod_cast hsmall
  have hsame : r.num * r'.excess n m = r'.num * r.excess n m := by
    have heq' : (r.num * r'.den : Int) = r'.num * r.den := by exact_mod_cast heq
    unfold excess
    linear_combination (-(m : Int)) * heq'
  constructor
  · intro h
    have habove : 0 < r'.excess n m := by
      refine (mul_pos_iff_of_pos_left hr).mp ?_
      rw [hsame]
      exact Int.mul_pos hr' h
    have hge := Int.le_of_dvd habove (gcd_dvd_excess r' n m)
    exact hsmall'.trans_le (Int.mul_le_mul_of_nonneg_left hge hgap)
  · intro h
    have hbelow : 0 < -r'.excess n m := by
      refine (mul_pos_iff_of_pos_left hr).mp ?_
      rw [mul_neg, hsame, ← mul_neg]
      exact Int.mul_pos hr' (by omega)
    have hge := Int.le_of_dvd hbelow (Int.dvd_neg.mpr (gcd_dvd_excess r' n m))
    have hmul := Int.mul_le_mul_of_nonneg_left hge hgap
    linarith
  · intro h
    have hzero : r.num * r'.excess n m = 0 := by rw [hsame, h, mul_zero]
    exact (mul_eq_zero.mp hzero).resolve_left hr.ne'

/-! ## Neighbours -/

/-- two fractions `a / b` and `c / d` -/
structure Neighbours where
  a : Nat
  b : Nat
  c : Nat
  d : Nat

/-- both ratios lie between neighbouring fractions, the second one by a margin -/
def Between (bound gap : Nat) (r r' : Ratio) (w : Neighbours) : Prop :=
  (w.c * w.b = w.a * w.d + 1 ∧ bound ≤ w.a + w.c) ∧
    (0 < r.excess w.b w.a ∧ r.excess w.d w.c < 0) ∧
    (r'.den : Int) < gap * r'.excess w.b w.a ∧ gap * r'.excess w.d w.c < -(r'.den : Int)

instance (bound gap : Nat) (r r' : Ratio) (w : Neighbours) : Decidable (Between bound gap r r' w) :=
  inferInstanceAs (Decidable (_ ∧ _))

section
variable {a b c d : Nat}

/-- Every pair of whole numbers is a combination of two neighbours.  Unless its numerator is as
great as the sum of theirs, only one of them counts positively. -/
theorem exists_combination (hdet : c * b = a * d + 1) (n : Nat) {m : Nat} (hm : m < a + c) :
    ∃ p q : Int, ((n : Int) = p * b + q * d ∧ (m : Int) = p * a + q * c) ∧
      ((1 ≤ p ∧ q ≤ 0) ∨ (p ≤ 0 ∧ 1 ≤ q) ∨ (p = 0 ∧ q = 0)) := by
  have hdet' : (c : Int) * b = a * d + 1 := by exact_mod_cast hdet
  have hn : (n : Int) = (n * c - m * d) * b + (m * b - n * a) * d := by
    linear_combination (-(n : Int)) * hdet'
  have hm' : (m : Int) = (n * c - m * d) * a + (m * b - n * a) * c := by
    linear_combination (-(m : Int)) * hdet'
  refine ⟨n * c - m * d, m * b - n * a, ⟨hn, hm'⟩, ?_⟩
  generalize (n * c - m * d : Int) = p at *
  generalize (m * b - n * a : Int) = q at *
  have hb : 0 < b := Nat.pos_of_mul_pos_left (by omega : 0 < c * b)
  have hc : 0 < c := Nat.pos_of_mul_pos_right (by omega : 0 < c * b)
  rcases lt_or_ge 0 p with hp | hp
  · rcases lt_or_ge 0 q with hq | hq
    · -- both count positively, so the numerator is too great
      have hpa : (a : Int) ≤ p * a := le_mul_of_one_le_left (Int.natCast_nonneg a) hp
      have hqc : (c : Int) ≤ q * c := le_mul_of_one_le_left (Int.natCast_nonneg c) hq
      omega
    · exact .inl ⟨hp, hq⟩
  · rcases lt_or_ge 0 q with hq | hq
    · exact .inr (.inl ⟨hp, hq⟩)
    · -- none counts positively, but the sums are not negative, so none counts at all
      have hpb : p * b ≤ 0 := mul_nonpos_of_nonpos_of_nonneg hp (Int.natCast_nonneg b)
      have hqd : q * d ≤ 0 := mul_nonpos_of_nonpos_of_nonneg hq (Int.natCast_nonneg d)
      have hpa : p * a ≤ 0 := mul_nonpos_of_nonpos_of_nonneg hp (Int.natCast_nonneg a)
      have hqc : q * c ≤ 0 := mul_nonpos_of_nonpos_of_nonneg hq (Int.natCast_nonneg c)
      have hpb0 : p * b = 0 := by omega
      have hqc0 : q * c = 0 := by omega
      exact .inr (.inr ⟨(mul_eq_zero.mp hpb0).resolve_right (by omega),
        (mul_eq_zero.mp hqc0).resolve_right (by omega)⟩)

theorem excess_combination (r : Ratio) {n m : Nat} {p q : Int}
    (h : (n : Int) = p * b + q * d ∧ (m : Int) = p * a + q * c) :
    r.excess n m = p * r.excess b a + q * r.excess d c := by
  unfold excess
  rw [h.1, h.2]
  ring

/-- a combination in which only the first counts positively is at least the first -/
theorem le_combination {p q x y : Int} (hp : 1 ≤ p) (hq : q ≤ 0) (hx : 0 ≤ x) (hy : y ≤ 0) :
    x ≤ p * x + q * y := by
  have hpx : x ≤ p * x := le_mul_of_one_le_left hx hp
  have hqy : 0 ≤ q * y := mul_nonneg_of_nonpos_of_nonpos hq hy
  linarith

theorem combination_le {p q x y : Int} (hp : p ≤ 0) (hq : 1 ≤ q) (hx : 0 ≤ x) (hy : y ≤ 0) :
    p * x + q * y ≤ y := by
  have hpx : p * x ≤ 0 := mul_nonpos_of_nonpos_of_nonneg hp hx
  have hqy : q * y ≤ y := mul_le_of_one_le_left hy hq
  linarith

end

/-- a pair is on one side for both ratios, or on the whole number for both -/
theorem keeps_of_sides
    (h : (0 < r.excess n m ∧ (r'.den : Int) < gap * r'.excess n m) ∨
      (r.excess n m < 0 ∧ gap * r'.excess n m < -(r'.den : Int)) ∨
      (r.excess n m = 0 ∧ r'.excess n m = 0)) : Keeps gap r r' n m := by
  obtain ⟨hr, hr'⟩ | ⟨hr, hr'⟩ | ⟨hr, hr'⟩ := h
  · exact ⟨fun _ => hr', fun h => by omega, fun h => by omega⟩
  · exact ⟨fun h => by omega, fun _ => hr', fun h => by omega⟩
  · exact ⟨fun h => by omega, fun h => by omega, fun _ => hr'⟩

theorem Between.keeps {w : Neighbours} (h : Between bound gap r r' w) (n : Nat) (hm : m < bound) :
    Keeps gap r r' n m := by
  obtain ⟨a, b, c, d⟩ := w
  obtain ⟨⟨hdet, hbound⟩, ⟨hx, hy⟩, hx', hy'⟩ := h
  simp only at hdet hbound hx hy hx' hy'
  have hden : (0 : Int) ≤ r'.den := Int.natCast_nonneg _
  have hx0 : 0 ≤ gap * r'.excess b a := hden.trans hx'.le
  have hy0 : gap * r'.excess d c ≤ 0 := by linarith
  obtain ⟨p, q, hpair, hsign⟩ := exists_combination hdet n (hm.trans_le hbound)
  have hr' : gap * r'.excess n m = p * (gap * r'.excess b a) + q * (gap * r'.excess d c) := by
    rw [excess_combination r' hpair]
    ring
  -- the pair is on the side of the neighbour that counts positively, for both ratios
  apply keeps_of_sides
  rw [hr', excess_combination r hpair]
  obtain ⟨hp, hq⟩ | ⟨hp, hq⟩ | ⟨rfl, rfl⟩ := hsign
  · exact .inl ⟨hx.trans_le (le_combination hp hq hx.le hy.le),
      hx'.trans_le (le_combination hp hq hx0 hy0)⟩
  · exact .inr (.inl ⟨(combination_le hp hq hx.le hy.le).trans_lt hy,
      (combination_le hp hq hx0 hy0).trans_lt hy'⟩)
  · rw [excess_combination r' hpair]
    simp

/-! ## Exceptions -/

/-- both ratios lie between neighbouring fractions, whose distances together make up the margin;
twice the numerators are out of bounds -/
def Around (bound gap : Nat) (r r' : Ratio) (w : Neighbours) : Prop :=
  (w.c * w.b = w.a * w.d + 1 ∧ bound ≤ w.a + w.c ∧ bound ≤ 2 * w.a ∧ bound ≤ 2 * w.c) ∧
    (0 < r.excess w.b w.a ∧ r.excess w.d w.c < 0) ∧
    (0 ≤ r'.excess w.b w.a ∧ r'.excess w.d w.c ≤ 0) ∧
    (r'.den : Int) < gap * (r'.excess w.b w.a - r'.excess w.d w.c)

instance (bound gap : Nat) (r r' : Ratio) (w : Neighbours) : Decidable (Around bound gap r r' w) :=
  inferInstanceAs (Decidable (_ ∧ _))

/-- what is neither of two neighbours counts both, one of them negatively, or it is out of bounds -/
theorem Around.keeps {w : Neighbours} (h : Around bound gap r r' w) (hm : m < bound)
    (hab : ¬ (n = w.b ∧ m = w.a)) (hcd : ¬ (n = w.d ∧ m = w.c)) : Keeps gap r r' n m := by
  obtain ⟨a, b, c, d⟩ := w
  obtain ⟨⟨hdet, hbound, ha, hc⟩, ⟨hx, hy⟩, ⟨hx0, hy0⟩, hsum⟩ := h
  simp only at *
  obtain ⟨p, q, hpair, hsign⟩ := exists_combination hdet n (hm.trans_le hbound)
  have hgap : (0 : Int) ≤ gap := Int.natCast_nonneg _
  apply keeps_of_sides
  rw [excess_combination r hpair, excess_combination r' hpair]
  obtain ⟨hn, hm'⟩ := hpair
  obtain ⟨hp, hq⟩ | ⟨hp, hq⟩ | ⟨rfl, rfl⟩ := hsign
  · refine .inl ⟨hx.trans_le (le_combination hp hq hx.le hy.le), ?_⟩
    rcases hq.lt_or_eq with hq | rfl
    · have hboth : r'.excess b a - r'.excess d c ≤ p * r'.excess b a + q * r'.excess d c := by
        have hpx : r'.excess b a ≤ p * r'.excess b a := le_mul_of_one_le_left hx0 hp
        have hqy : -r'.excess d c ≤ q * r'.excess d c := by
          have hle := mul_le_mul_of_nonpos_right (Int.le_sub_one_of_lt hq) hy0
          linarith
        linarith
      exact hsum.trans_le (Int.mul_le_mul_of_nonneg_left hboth hgap)
    · -- the first neighbour, or a multiple of it
      rcases hp.lt_or_eq with hp | rfl
      · have htwo : 2 * (a : Int) ≤ p * a :=
          Int.mul_le_mul_of_nonneg_right hp (Int.natCast_nonneg a)
        omega
      · omega
  · refine .inr (.inl ⟨(combination_le hp hq hx.le hy.le).trans_lt hy, ?_⟩)
    rcases hp.lt_or_eq with hp | rfl
    · have hboth : p * r'.excess b a + q * r'.excess d c ≤ -(r'.excess b a - r'.excess d c) := by
        have hpx : p * r'.excess b a ≤ -r'.excess b a := by
          have hle := Int.mul_le_mul_of_nonneg_right (Int.le_sub_one_of_lt hp) hx0
          linarith
        have hqy : q * r'.excess d c ≤ r'.excess d c := mul_le_of_one_le_left hy0 hq
        linarith
      have hle := Int.mul_le_mul_of_nonneg_left hboth hgap
      linarith
    · rcases hq.lt_or_eq with hq | rfl
      · have htwo : 2 * (c : Int) ≤ q * c :=
          Int.mul_le_mul_of_nonneg_right hq (Int.natCast_nonneg c)
        omega
      · omega
  · simp

/-! ## The search -/

/-- `k n`, with the numeral for `n` computed first -/
def computed {α : Type} (n : Nat) (k : Nat → α) : α :=
  match n with
  | 0 => k 0
  | n + 1 => k (n + 1)

/-- goes down to the fraction between two neighbours, on the side on which `num / den` lies, as long
as its numerator is below a bound -/
def descend (bound num den : Nat) : Nat → Nat → Nat → Nat → Nat → Neighbours
  | 0, a, b, c, d => ⟨a, b, c, d⟩
  | fuel + 1, a, b, c, d =>
    computed (a + c) fun m =>
      computed (b + d) fun n =>
        if bound ≤ m then ⟨a, b, c, d⟩
        else if m * den ≤ n * num then descend bound num den fuel m n c d
        else descend bound num den fuel a b m n

/-- the neighbours with numerators below a bound between which a ratio lies -/
def neighbours (bound : Nat) (r : Ratio) : Neighbours :=
  computed (r.num / r.num.gcd r.den) fun num =>
    computed (r.den / r.num.gcd r.den) fun den => descend bound num den 1000 0 1 1 0

end Ratio

end LineEditor
