import LineEditor.Proofs.PlainPage
import Mathlib.Algebra.Order.Floor.Div

/-!
# The layout of a page

A page without colours shows nothing but its snapshot.  The rows of each line, put together again,
are its text; the current line has the cursor behind it; and what is left of the row count is empty
rows.

* `Block`             the rows of one line, all but the last of them full;
* `Snapshot.taken`    how many rows the lines take;
* `render_lays_out`   what the page consists of.
-/

namespace LineEditor

/-! ## The rows of one line -/

/-- the rows that a text takes: its length by the width, rounded up, and at least one -/
def rowsTaken (width : Nat) (s : Text) : Nat := max 1 (s.length ⌈/⌉ width)

/-- the rows of a text with something `behind` it, which takes no row of its own -/
structure Block (width : Nat) (s behind : Text) (rows : List Text) : Prop where
  flatten : rows.flatten = s ++ behind
  full : ∀ row ∈ rows.dropLast, row.length = width
  length : rows.length = rowsTaken width s

theorem Block.not_mem {width : Nat} {s behind : Text} {rows : List Text}
    (h : Block width s behind rows) {c : Char} (hs : c ∉ s) (hbehind : c ∉ behind) {row : Text}
    (hrow : row ∈ rows) : c ∉ row := by
  intro hmem
  have hflat : c ∈ rows.flatten := List.mem_flatten.mpr ⟨row, hrow, hmem⟩
  rw [h.flatten] at hflat
  rcases List.mem_append.mp hflat with hc | hc
  · exact hs hc
  · exact hbehind hc

namespace Wrapped
variable {width : Nat} {s : Text} {rows : List Text}

theorem length_taken (h : Wrapped width s rows) (hw : 0 < width) :
    rows.length = rowsTaken width s := by
  rw [h.length_eq hw, rowsTaken, Nat.ceilDiv_eq_add_pred_div, Nat.add_sub_assoc hw]

theorem block (h : Wrapped width s rows) (hw : 0 < width) : Block width s [] rows where
  flatten := by rw [h.flatten, List.append_nil]
  full _ hrow := h.length_of_mem_dropLast hrow
  length := h.length_taken hw

end Wrapped

/-! ## The current line -/

theorem withCursor_concat (rows : List (List Segment)) (row : List Segment) :
    withCursor (rows ++ [row]) = rows ++ [row ++ [cursor]] := by
  induction rows with
  | nil => rfl
  | cons r rows ih =>
    cases rows with
    | nil => rfl
    | cons q rows => exact congrArg (r :: ·) ih

/-- the cursor stands on the last row, be it full -/
theorem block_withCursor {width : Nat} {s : Text} {rows : List (List Segment)}
    (h : Wrapped width s (rows.map textOf)) (hw : 0 < width) :
    Block width s ['█'] ((withCursor rows).map textOf) := by
  obtain ⟨first, last, rfl⟩ : ∃ first last, rows = first ++ [last] := by
    have hne : rows ≠ [] := fun hnil => h.ne_nil (hnil ▸ rfl)
    exact ⟨rows.dropLast, rows.getLast hne, (List.dropLast_append_getLast hne).symm⟩
  have hrows : (withCursor (first ++ [last])).map textOf
      = first.map textOf ++ [textOf last ++ ['█']] := by
    rw [withCursor_concat, List.map_append]
    show first.map textOf ++ [textOf (last ++ [cursor])] = _
    rw [textOf_append]
    rfl
  have hblock := h.block hw
  rw [List.map_append, List.map_singleton] at hblock
  rw [hrows]
  refine ⟨?_, fun row hrow => ?_, ?_⟩
  · rw [← List.append_nil s, ← hblock.flatten, List.flatten_append, List.flatten_append,
      List.append_assoc, List.flatten_singleton, List.flatten_singleton]
  · apply hblock.full
    rw [List.dropLast_concat] at hrow ⊢
    exact hrow
  · rw [← hblock.length, List.length_append, List.length_append]
    rfl

/-! ## The page -/

/-- the rows that finished lines take -/
def rowsTakenBy (width : Nat) : List Line → Nat
  | [] => 0
  | l :: ls => rowsTaken width l.text + rowsTakenBy width ls

theorem length_flatten_blocks {width : Nat} {ls : List Line} {blocks : List (List Text)}
    (h : List.Forall₂ (fun l rows => Block width l.text [] rows) ls blocks) :
    blocks.flatten.length = rowsTakenBy width ls := by
  induction h with
  | nil => rfl
  | cons hblock h ih =>
    rw [List.flatten_cons, List.length_append, hblock.length, ih]
    rfl

namespace Snapshot
variable (s : Snapshot)

/-- the most characters on a row that is printed -/
def width : Nat := max 1 s.limit

/-- the rows that all lines take, the current one included -/
def taken : Nat := rowsTakenBy s.width s.lines + rowsTaken s.width (textOf s.current)

theorem width_pos : 0 < s.width := Nat.lt_of_lt_of_le Nat.one_pos (Nat.le_max_left 1 s.limit)

/-- the texts on the rows of each finished line -/
def blocks : List (List Text) := s.lines.map fun l => (wrap s.limit l.segments).map textOf

/-- the texts on the rows of the current line, with the cursor -/
def currentBlock : List Text := (withCursor (wrap s.limit s.current)).map textOf

theorem blocks_spec :
    List.Forall₂ (fun l rows => Block s.width l.text [] rows) s.lines s.blocks := by
  apply List.forall₂_map_right_iff.mpr
  apply List.forall₂_same.mpr
  intro l _
  exact (wrapped_wrap s.limit l.segments).block s.width_pos

theorem currentBlock_spec : Block s.width (textOf s.current) ['█'] s.currentBlock :=
  block_withCursor (wrapped_wrap s.limit s.current) s.width_pos

theorem length_blocks : (s.blocks.flatten ++ s.currentBlock).length = s.taken := by
  rw [List.length_append, length_flatten_blocks s.blocks_spec, s.currentBlock_spec.length]
  rfl

theorem map_textOf_rows :
    s.rows.map textOf
      = s.blocks.flatten ++ s.currentBlock
        ++ List.replicate (max s.rowCount s.taken - s.taken) [] := by
  have hlines : (s.lines.flatMap (fun l => wrap s.limit l.segments) ++
      withCursor (wrap s.limit s.current)).map textOf = s.blocks.flatten ++ s.currentBlock := by
    rw [List.map_append, List.map_flatMap, List.flatMap_def]
    rfl
  have hlength := s.length_blocks
  rw [← hlines, List.length_map] at hlength
  have hleft : max s.rowCount s.taken - s.taken = s.rowCount - s.taken := by omega
  rw [rows, padTo, List.map_append, hlines, hlength, hleft, List.map_replicate]
  rfl

theorem length_rows : s.rows.length = max s.rowCount s.taken := by
  have h := congrArg List.length s.map_textOf_rows
  rw [List.length_map, List.length_append, s.length_blocks, List.length_replicate] at h
  omega

/-- the page brings in no character but the cursor -/
theorem not_mem_rows {c : Char} (hcursor : c ≠ '█') (hlines : ∀ l ∈ s.lines, c ∉ l.text)
    (hcurrent : c ∉ textOf s.current) {row : List Segment} (hrow : row ∈ s.rows) :
    c ∉ textOf row := by
  have hmem : textOf row ∈ s.rows.map textOf := List.mem_map_of_mem hrow
  rw [s.map_textOf_rows] at hmem
  rcases List.mem_append.mp hmem with hmem | hmem
  · rcases List.mem_append.mp hmem with hmem | hmem
    · obtain ⟨block, hblock, hmem⟩ := List.mem_flatten.mp hmem
      obtain ⟨l, hl, rfl⟩ := List.mem_map.mp hblock
      exact ((wrapped_wrap s.limit l.segments).block s.width_pos).not_mem (hlines l hl)
        List.not_mem_nil hmem
    · exact s.currentBlock_spec.not_mem hcurrent (fun hc => hcursor (List.mem_singleton.mp hc)) hmem
  · rw [List.eq_of_mem_replicate hmem]
    exact List.not_mem_nil

theorem newline_not_mem_rows (hlines : ∀ l ∈ s.lines, '\n' ∉ l.text)
    (hcurrent : '\n' ∉ textOf s.current) {row : List Segment} (hrow : row ∈ s.rows) :
    '\n' ∉ textOf row :=
  s.not_mem_rows (by decide) hlines hcurrent hrow

end Snapshot

theorem not_mem_textOf {c : Char} {segments : List Segment} (h : ∀ p ∈ segments, c ∉ p.text) :
    c ∉ textOf segments := by
  intro hmem
  obtain ⟨p, hp, hc⟩ := List.mem_flatMap.mp hmem
  exact h p hp hc

/-- **A page shows its snapshot.**  If no segment holds a line break, a page without colours is the
rows of the finished lines, those of the current line with the cursor, and empty rows up to the row
count, each on a printed line of its own behind a number, which is the right one as long as the
counter can hold the number of all rows. -/
theorem render_lays_out (s : Snapshot) (hlines : ∀ l ∈ s.lines, ∀ p ∈ l.segments, '\n' ∉ p.text)
    (hcurrent : ∀ p ∈ s.current, '\n' ∉ p.text) :
    ∃ (blocks : List (List Text)) (current rows : List Text),
      List.Forall₂ (fun l block => Block s.width l.text [] block) s.lines blocks ∧
      Block s.width (textOf s.current) ['█'] current ∧
      rows = blocks.flatten ++ current
        ++ List.replicate (max s.rowCount s.taken - s.taken) [] ∧
      rows.length = max s.rowCount s.taken ∧
      Numbered counted (numeral (max s.rowCount s.taken)).length 1 rows (s.render none) ∧
      (Numbered numeral (numeral (max s.rowCount s.taken)).length 1 rows (s.render none) ↔
        max s.rowCount s.taken < rowNumberLimit) ∧
      (s.render none).count '\n' = max s.rowCount s.taken := by
  refine ⟨s.blocks, s.currentBlock, s.rows.map textOf, s.blocks_spec, s.currentBlock_spec,
    s.map_textOf_rows, ?_, ?_, ?_, ?_⟩
  · rw [List.length_map, s.length_rows]
  · rw [← s.length_rows]
    exact s.numbered_render
  · rw [← s.length_rows]
    exact s.numeral_render_iff
  · have hbreak (row : List Segment) (hrow : row ∈ s.rows) : '\n' ∉ textOf row :=
      s.newline_not_mem_rows (fun l hl => not_mem_textOf (hlines l hl)) (not_mem_textOf hcurrent)
        hrow
    rw [Snapshot.render, count_renderRows none _ _ hbreak, s.length_rows]

/-- three characters in three segments, an empty line, and a current line that is full -/
def Snapshot.uneven : Snapshot where
  lines := [⟨[.plain ['a', 'b'], .plain [], .plain ['c']], .user⟩, ⟨[], .prologue⟩]
  currentText := ['d', 'e']
  current := [.plain ['d', 'e']]
  rowCount := 6
  limit := 2

theorem render_lays_out_uneven :
    ∃ (blocks : List (List Text)) (current rows : List Text),
      List.Forall₂ (fun l block => Block 2 l.text [] block) Snapshot.uneven.lines blocks ∧
      Block 2 ['d', 'e'] ['█'] current ∧
      rows = blocks.flatten ++ current ++ [[], []] ∧
      rows.length = 6 ∧
      Numbered numeral 1 1 rows (Snapshot.uneven.render none) ∧
      (Snapshot.uneven.render none).count '\n' = 6 := by
  have hcurrent : ∀ p ∈ Snapshot.uneven.current, '\n' ∉ p.text := by decide
  obtain ⟨blocks, current, rows, hblocks, hcurrent, hrows, hlength, -, hnumbered, hcount⟩ :=
    render_lays_out .uneven (by decide) hcurrent
  exact ⟨blocks, current, rows, hblocks, hcurrent, hrows, hlength, hnumbered.mpr (by decide),
    hcount⟩

example : Snapshot.uneven.render none
    = "1 │ ab\n2 │ c\n3 │ \n4 │ de█\n5 │ \n6 │ \n".toList := by
  decide

/-- no text, and one row more than can be numbered -/
def Snapshot.tall : Snapshot where
  lines := []
  currentText := []
  current := []
  rowCount := rowNumberLimit
  limit := 1

theorem render_misnumbers :
    ¬ Numbered numeral (numeral rowNumberLimit).length 1
      (['█'] :: List.replicate (rowNumberLimit - 1) []) (Snapshot.tall.render none) := by
  have hone : 1 ≤ rowNumberLimit := Nat.one_le_two_pow
  have htaken : Snapshot.tall.taken = 1 := by decide
  have hmax : max Snapshot.tall.rowCount Snapshot.tall.taken = rowNumberLimit := by
    rw [htaken]
    exact Nat.max_eq_left hone
  have hrows : Snapshot.tall.rows.map textOf = ['█'] :: List.replicate (rowNumberLimit - 1) [] := by
    rw [Snapshot.map_textOf_rows, hmax, htaken]
    rfl
  have hiff := Snapshot.tall.numeral_render_iff
  rw [hrows, Snapshot.length_rows, hmax] at hiff
  rw [hiff]
  exact Nat.lt_irrefl rowNumberLimit

end LineEditor
