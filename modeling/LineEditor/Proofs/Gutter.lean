import LineEditor.Proofs.Estimates
import LineEditor.Proofs.RowNumbers

/-!
# The gutter and the printed rows

Every row of a page is printed as one line.  The row count takes each line of the prologue for one
row, while the page wraps these lines like all others.  So with estimated heights the printed lines
are as many as the row count says exactly if no shown line of the prologue has to be wrapped.

* `Estimated.count_render`   how many lines are printed;
* `printed_eq_rowCount_iff`  when they are as many as the row count.
-/

namespace LineEditor

/-! ## A printed row is one line -/

theorem count_numeral (n : Nat) : (numeral n).count '\n' = 0 :=
  List.count_eq_zero.mpr (not_mem_numeral (by decide) n)

theorem paint_none (s : Text) : paint none s = s := rfl

theorem count_paint (color : Option Rgb) (s : Text) :
    (paint color s).count '\n' = s.count '\n' := by
  cases color with
  | none => rw [paint_none]
  | some c =>
    have hopen : "\x1b[38;2;".toList.count '\n' = 0 := by decide
    have hclose : "\x1b[0m".toList.count '\n' = 0 := by decide
    have hsemicolon (t : Text) : (';' :: t).count '\n' = t.count '\n' :=
      List.count_cons_of_ne (by decide)
    have hm (t : Text) : ('m' :: t).count '\n' = t.count '\n' := List.count_cons_of_ne (by decide)
    -- shown and not unfolded: the equation of `paint` takes the literals apart
    show ("\x1b[38;2;".toList ++ numeral c.red.toNat ++ ';' :: numeral c.green.toNat ++
      ';' :: numeral c.blue.toNat ++ 'm' :: s ++ "\x1b[0m".toList).count '\n' = s.count '\n'
    simp only [List.count_append, hsemicolon, hm, hopen, hclose, count_numeral, Nat.zero_add,
      Nat.add_zero]

theorem not_mem_label {c : Char} (hdigit : c.isDigit = false) (hminus : c ≠ '-') (hblank : c ≠ ' ')
    (hrule : c ∉ " │ ".toList) (digits : Nat) (number : Int32) : c ∉ label digits number := by
  intro hmem
  rcases List.mem_append.mp hmem with hmem | hmem
  · rcases List.mem_append.mp hmem with hmem | hmem
    · exact hblank (List.eq_of_mem_replicate hmem)
    · exact not_mem_signedNumeral hdigit hminus _ hmem
  · exact hrule hmem

theorem count_label (digits : Nat) (number : Int32) : (label digits number).count '\n' = 0 :=
  List.count_eq_zero.mpr (not_mem_label (by decide) (by decide) (by decide) (by decide) _ _)

section
variable (theme : Option Theme) (digits : Nat) (number : Int32)

theorem count_renderRow {row : List Segment} (h : '\n' ∉ textOf row) :
    (renderRow theme digits number row).count '\n' = 1 := by
  have hpieces :
      (row.flatMap fun p => paint (theme.map (·.color p.tag)) p.text).count '\n' = 0 := by
    rw [← List.count_eq_zero.mpr h, textOf, List.count_flatMap, List.count_flatMap]
    exact congrArg List.sum (List.map_congr_left fun p _ => count_paint _ p.text)
  rw [renderRow, List.count_append, List.count_append, count_paint, count_label, hpieces]
  rfl

theorem count_renderRows {rows : List (List Segment)} (h : ∀ row ∈ rows, '\n' ∉ textOf row) :
    (renderRows theme digits number rows).count '\n' = rows.length := by
  induction rows generalizing number with
  | nil => rfl
  | cons row rows ih =>
    rw [renderRows, List.count_append, count_renderRow _ _ _ (h row List.mem_cons_self),
      ih _ fun r hr => h r (List.mem_cons_of_mem row hr), List.length_cons, Nat.add_comm]

end

/-! ## No row holds a line break -/

theorem newline_not_mem_of_isPlain {s : Text} (h : IsPlain s) : '\n' ∉ s :=
  fun hmem => absurd (h '\n' hmem) (by decide)

theorem Config.Valid.newline_not_mem {c : Config} (hv : c.Valid) {l : Line}
    (hl : l ∈ c.shownLines) : '\n' ∉ l.text := by
  obtain ⟨segments, hsegments, rfl⟩ := List.mem_map.mp (List.mem_of_mem_take hl)
  intro hmem
  obtain ⟨s, hs, hmem⟩ := List.mem_flatMap.mp hmem
  have hbreaks : c.breaksLine = true :=
    List.any_eq_true.mpr ⟨segments, hsegments, List.any_eq_true.mpr ⟨s, hs,
      List.any_eq_true.mpr ⟨'\n', hmem, rfl⟩⟩⟩
  rw [hv.2.2] at hbreaks
  cases hbreaks

theorem Config.Valid.newline_not_mem_rows {c : Config} (hv : c.Valid) {s : Text}
    (hs : s ∈ c.prologueRows.flatten) : '\n' ∉ s := by
  obtain ⟨rows, hrows, hs⟩ := List.mem_flatten.mp hs
  obtain ⟨l, hl, rfl⟩ := List.mem_map.mp hrows
  intro hmem
  refine hv.newline_not_mem hl ?_
  rw [Line.text, ← (wrapped_wrap c.maxLineLength l.segments).flatten]
  exact List.mem_flatten.mpr ⟨s, hs, hmem⟩

namespace Estimated
variable {c : Config} {w : Window}

theorem newline_not_mem (h : Estimated c w) (hv : c.Valid) {row : List Segment}
    (hrow : row ∈ w.snapshot.rows) : '\n' ∉ textOf row := by
  have hmem : textOf row ∈ w.snapshot.rows.map textOf := List.mem_map_of_mem hrow
  rw [h.map_textOf_rows hv] at hmem
  rcases List.mem_append.mp hmem with hmem | hmem
  · rcases List.mem_append.mp hmem with hmem | hmem
    · exact hv.newline_not_mem_rows hmem
    · obtain ⟨l, hl, htext⟩ := List.mem_map.mp hmem
      rw [← htext]
      exact newline_not_mem_of_isPlain (h.sound.committed l hl).plain
  · rw [List.mem_singleton.mp hmem]
    intro hbreak
    rcases List.mem_append.mp hbreak with hbreak | hbreak
    · exact newline_not_mem_of_isPlain h.sound.plain hbreak
    · exact absurd (List.mem_singleton.mp hbreak) (by decide)

/-- the lines that are printed -/
theorem count_render (h : Estimated c w) (hv : c.Valid) (theme : Option Theme) :
    (w.snapshot.render theme).count '\n'
      = (RowMetrics.ofWidth c.rowHeight c.maxLineLength).rowsOfLines c.shownLines
        + w.buffer.committed.length + 1 := by
  have hlength := congrArg List.length (h.map_textOf_rows hv)
  rw [List.length_map, List.length_append, List.length_append, List.length_map,
    length_prologueRows] at hlength
  rw [Snapshot.render, count_renderRows _ _ _ fun row hrow => h.newline_not_mem hv hrow, hlength]
  rfl

end Estimated

/-! ## When the counts agree -/

theorem RowMetrics.rowsOfSize_eq_one_iff (m : RowMetrics) (n : Nat) :
    m.rowsOfSize n = 1 ↔ n ≤ m.columns := by
  constructor
  · intro h
    have hcolumns := m.columns_pos
    have hlt : (n + (m.columns - 1)) / m.columns < 2 := by
      unfold rowsOfSize at h
      omega
    rw [Nat.div_lt_iff_lt_mul hcolumns] at hlt
    omega
  · exact m.rowsOfSize_of_le

/-- lines count as one row each if and only if all of them fit on one -/
theorem RowMetrics.rowsOfLines_eq_length_iff (m : RowMetrics) (ls : List Line) :
    m.rowsOfLines ls = ls.length ↔ ∀ l ∈ ls, l.size ≤ m.columns := by
  induction ls with
  | nil => exact ⟨fun _ l hl => absurd hl List.not_mem_nil, fun _ => rfl⟩
  | cons l ls ih =>
    have hone := m.one_le_rowsOfSize l.size
    have hle := m.length_le_rowsOfLines ls
    rw [rowsOfLines_cons, List.length_cons, List.forall_mem_cons, ← ih, ← rowsOfSize_eq_one_iff]
    omega

/-- **The gutter and the printed rows.**  A window in use, whose height is estimated behind every
key, prints as many lines as its row count if and only if every shown line of the prologue fits on a
row.  A longer line is wrapped, but counts as one row. -/
theorem printed_eq_rowCount_iff {c : Config} {w : Window} (h : Window.create c = .ok w)
    (ps : List KeyPress) (theme : Option Theme) :
    (w.pressAll ps).snapshot.rowCount
        = c.shownLines.length + (w.pressAll ps).buffer.committed.length + 1 ∧
      ((w.pressAll ps).snapshot.render theme).count '\n'
        = (RowMetrics.ofWidth c.rowHeight c.maxLineLength).rowsOfLines c.shownLines
          + (w.pressAll ps).buffer.committed.length + 1 ∧
      (((w.pressAll ps).snapshot.render theme).count '\n' = (w.pressAll ps).snapshot.rowCount ↔
        ∀ l ∈ c.shownLines, l.size ≤ c.maxLineLength) := by
  have hv : c.Valid := Window.valid_of_create h
  obtain rfl := Window.eq_ofConfig_of_create h
  have hx : Estimated c ((Window.ofConfig c).pressAll ps) := (Estimated.ofConfig c).pressAll hv ps
  have hcount : ((Window.ofConfig c).pressAll ps).snapshot.rowCount
      = c.shownLines.length + ((Window.ofConfig c).pressAll ps).buffer.committed.length + 1 :=
    hx.rowCount_eq hv
  have hprinted := hx.count_render hv theme
  have hfits : (RowMetrics.ofWidth c.rowHeight c.maxLineLength).rowsOfLines c.shownLines
      = c.shownLines.length ↔ ∀ l ∈ c.shownLines, l.size ≤ max 1 c.maxLineLength :=
    RowMetrics.rowsOfLines_eq_length_iff _ c.shownLines
  rw [Nat.max_eq_right hv.1] at hfits
  refine ⟨hcount, hprinted, ?_⟩
  rw [← hfits, hprinted, hcount]
  omega

/-- a prologue of short lines, with a committed and an indented line below it -/
theorem printed_eq_rowCount_default :
    ∃ w : Window, Window.create .default = .ok w ∧
      ((w.pressAll [.bare (.char 'a'), .bare .enter, .bare .tab]).snapshot.render
        (some .dark)).count '\n'
        = (w.pressAll [.bare (.char 'a'), .bare .enter, .bare .tab]).snapshot.rowCount := by
  have hc : Window.create .default = .ok (.ofConfig .default) := rfl
  have h := printed_eq_rowCount_iff hc [.bare (.char 'a'), .bare .enter, .bare .tab] (some .dark)
  exact ⟨.ofConfig .default, hc, h.2.2.mpr (by decide)⟩

/-- twelve characters above rows of five -/
def Config.narrow : Config :=
  { default with
    maxLineLength := 5
    prologue := [[.plain "abcdefghijkl".toList]]
    prologueShown := 1 }

/-- the prologue is printed on three rows and counts as one -/
theorem printed_ne_rowCount_narrow :
    Window.create .narrow = .ok (.ofConfig .narrow) ∧
      (((Window.ofConfig .narrow).pressAll [.bare (.char 'a')]).snapshot.render none).count '\n'
        = 4 ∧
      ((Window.ofConfig .narrow).pressAll [.bare (.char 'a')]).snapshot.rowCount = 2 :=
  ⟨rfl, by decide +kernel, by decide⟩

end LineEditor
