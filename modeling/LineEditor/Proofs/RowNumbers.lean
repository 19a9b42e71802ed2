import LineEditor.Page.Render
import Mathlib.Data.List.Basic

/-!
# The numbers of the rows

The rows of a page are counted from one in 32 bits with a sign, while the column for the numbers is
made for the number of rows.  So the rows are numbered as they should be up to the last number of 31
bits, and the row behind it has a number with a minus.

* `counted`                         the number that stands before a row;
* `Numbered`                        rows with their numbers, whatever the numbers look like;
* `Snapshot.numbered_render`        the rows of a page;
* `Snapshot.numeral_render_iff`     when their numbers are right.
-/

namespace LineEditor

/-- the first number that the counter of the rows does not have -/
def rowNumberLimit : Nat := Nat.pow 2 31

/-- the number that stands before the row `n` -/
def counted (n : Nat) : Text := signedNumeral (Int32.ofNat n).toInt

/-- a word in a column, to the right; a word that is too long stands as it is -/
def RightAligned (width : Nat) (word s : Text) : Prop :=
  s.length = max width word.length ∧ ∃ blanks, s = List.replicate blanks ' ' ++ word

/-- rows in a text, each on a line behind what `name` calls it; the first is the row `n` -/
inductive Numbered (name : Nat → Text) (width : Nat) : Nat → List Text → Text → Prop
  | nil (n : Nat) : Numbered name width n [] []
  | cons {n : Nat} {label row page : Text} {rows : List Text}
      (hlabel : RightAligned width (name n) label) (h : Numbered name width (n + 1) rows page) :
      Numbered name width n (row :: rows) (label ++ " │ ".toList ++ row ++ '\n' :: page)

/-! ## Numbers -/

theorem counted_of_lt {n : Nat} (h : n < rowNumberLimit) : counted n = numeral n := by
  have hcount : (Int32.ofNat n).toInt = n := Int32.toInt_ofNat_of_lt h
  have hsign : ¬ ((n : Int) < 0) := by omega
  unfold counted signedNumeral
  rw [hcount, if_neg hsign]
  rfl

theorem counted_rowNumberLimit : counted rowNumberLimit = '-' :: numeral rowNumberLimit := by
  have hcount : (Int32.ofNat rowNumberLimit).toInt = -rowNumberLimit := by decide
  show signedNumeral (Int32.ofNat rowNumberLimit).toInt = _
  rw [hcount]
  rfl

theorem not_mem_numeral {c : Char} (h : c.isDigit = false) (n : Nat) : c ∉ numeral n := by
  intro hmem
  have hdigit := Nat.isDigit_of_mem_toDigits (by decide) (by decide) hmem
  rw [h] at hdigit
  cases hdigit

theorem not_mem_signedNumeral {c : Char} (h : c.isDigit = false) (hminus : c ≠ '-') (n : Int) :
    c ∉ signedNumeral n := by
  unfold signedNumeral
  split
  · intro hmem
    obtain heq | hmem := List.mem_cons.mp hmem
    · exact hminus heq
    · exact not_mem_numeral h _ hmem
  · exact not_mem_numeral h _

/-! ## Columns -/

theorem rightAligned_replicate (width : Nat) (word : Text) :
    RightAligned width word (List.replicate (width - word.length) ' ' ++ word) := by
  refine ⟨?_, width - word.length, rfl⟩
  rw [List.length_append, List.length_replicate]
  omega

section
variable {width : Nat} {word word' s : Text}

theorem RightAligned.eq (h : RightAligned width word s) :
    s = List.replicate (width - word.length) ' ' ++ word := by
  obtain ⟨hlength, blanks, rfl⟩ := h
  rw [List.length_append, List.length_replicate] at hlength
  have hblanks : blanks = width - word.length := by omega
  rw [hblanks]

/-- behind its blanks the text is the word -/
theorem RightAligned.dropWhile_append (h : RightAligned width word s) {c : Char}
    (hc : word.head? = some c) (hblank : c ≠ ' ') (t : Text) :
    (s ++ t).dropWhile (· = ' ') = word ++ t := by
  obtain ⟨w, rfl⟩ : ∃ w, word = c :: w := by
    cases word with
    | nil => cases hc
    | cons d w => exact ⟨w, by rw [Option.some.inj hc]⟩
  obtain ⟨-, blanks, rfl⟩ := h
  rw [List.append_assoc, List.dropWhile_append_of_pos]
  · exact List.dropWhile_cons_of_neg (by simpa using hblank)
  · intro d hd
    exact decide_eq_true (List.eq_of_mem_replicate hd)

end

/-! ## Rows -/

theorem renderRow_none (digits : Nat) (number : Int32) (row : List Segment) :
    renderRow none digits number row
      = label digits number ++ textOf row ++ ['\n'] := rfl

theorem numbered_renderRows (width n : Nat) (rows : List (List Segment)) :
    Numbered counted width n (rows.map textOf) (renderRows none width (Int32.ofNat n) rows) := by
  induction rows generalizing n with
  | nil => exact .nil n
  | cons row rows ih =>
    have hrows := ih (n + 1)
    rw [Int32.ofNat_add] at hrows
    rw [renderRows, renderRow_none, List.append_assoc (_ ++ textOf row)]
    exact .cons (rightAligned_replicate width (counted n)) hrows

theorem Snapshot.numbered_render (s : Snapshot) :
    Numbered counted (numeral s.rows.length).length 1 (s.rows.map textOf) (s.render none) :=
  numbered_renderRows _ 1 s.rows

namespace Numbered
variable {name : Nat → Text} {width n : Nat} {row page : Text} {rows : List Text}

theorem cons_iff : Numbered name width n (row :: rows) page ↔
    ∃ label rest, RightAligned width (name n) label ∧ Numbered name width (n + 1) rows rest ∧
      page = label ++ " │ ".toList ++ row ++ '\n' :: rest := by
  constructor
  · intro h
    cases h with
    | cons hlabel h => exact ⟨_, _, hlabel, h, rfl⟩
  · rintro ⟨label, rest, hlabel, h, rfl⟩
    exact .cons hlabel h

theorem congr {name' : Nat → Text} (h : Numbered name width n rows page)
    (hname : ∀ k, n ≤ k → k < n + rows.length → name' k = name k) :
    Numbered name' width n rows page := by
  induction h with
  | nil n => exact .nil n
  | @cons n label row page rows hlabel h ih =>
    rw [List.length_cons] at hname
    have hrest := ih fun k hk hlt => hname k (by omega) (by omega)
    rw [← hname n (Nat.le_refl n) (by omega)] at hlabel
    exact .cons hlabel hrest

/-- the row behind the last number has a minus where the digits should begin -/
theorem false_of_limit (h : Numbered counted width rowNumberLimit (row :: rows) page)
    (h' : Numbered numeral width rowNumberLimit (row :: rows) page) : False := by
  obtain ⟨l, t, hl, -, hpage⟩ := cons_iff.mp h
  obtain ⟨l', t', hl', -, hpage'⟩ := cons_iff.mp h'
  rw [counted_rowNumberLimit] at hl
  rw [hpage] at hpage'
  have hdigit : (numeral rowNumberLimit).head? = some '2' := by decide
  have hdrop := congrArg (List.dropWhile (· = ' ')) hpage'
  simp only [List.append_assoc] at hdrop
  rw [hl.dropWhile_append rfl (by decide), hl'.dropWhile_append hdigit (by decide)] at hdrop
  have hne : numeral rowNumberLimit ≠ [] := Nat.toDigits_ne_nil
  have hhead := congrArg List.head? hdrop
  rw [List.head?_append_of_ne_nil (numeral rowNumberLimit) hne, hdigit] at hhead
  cases hhead

/-- rows that are numbered as they are counted have the right numbers if and only if none of them is
behind the last number of the counter -/
theorem numeral_iff (h : Numbered counted width n rows page) (hn : n ≤ rowNumberLimit) :
    Numbered numeral width n rows page ↔ n + rows.length ≤ rowNumberLimit := by
  constructor
  · intro h'
    induction rows generalizing n page with
    | nil => exact hn
    | cons row rows ih =>
      obtain hlt | rfl := Nat.lt_or_eq_of_le hn
      · obtain ⟨l, t, hl, ht, rfl⟩ := cons_iff.mp h
        obtain ⟨l', t', hl', ht', hpage⟩ := cons_iff.mp h'
        rw [counted_of_lt hlt] at hl
        rw [hl.eq, hl'.eq] at hpage
        have hrest : t = t' := (List.cons.inj (List.append_cancel_left hpage)).2
        have hle := ih ht hlt (hrest ▸ ht')
        rw [List.length_cons]
        omega
      · exact (false_of_limit h h').elim
  · intro hle
    apply h.congr
    intro k _ hk
    exact (counted_of_lt (by omega)).symm

end Numbered

theorem Snapshot.numeral_render_iff (s : Snapshot) :
    Numbered numeral (numeral s.rows.length).length 1 (s.rows.map textOf) (s.render none) ↔
      s.rows.length < rowNumberLimit := by
  have hone : 1 ≤ rowNumberLimit := Nat.one_le_two_pow
  rw [s.numbered_render.numeral_iff hone, List.length_map, Nat.add_comm]
  exact Nat.succ_le_iff

end LineEditor
