import LineEditor.Line
import LineEditor.Number.Single
import LineEditor.Text.Numeral

/-!
# Rows

How many rows of the window the lines take. In a font of fixed width a finished line takes as many
rows as its size divided by the width, rounded up. The line being typed is measured by the host, and
its height tells its rows. Every line takes at least one row, and each line of the prologue counts
as exactly one. The rows of a height are no more than the greatest count. Their sum with the rows of
the lines is taken as it is: what a sum beyond the greatest count becomes in 64 bits is left aside.
-/

namespace LineEditor

/-- the size of one row -/
structure RowMetrics where
  /-- in pixels -/
  rowHeight : Single
  /-- the characters that fit on a row -/
  columns : Nat
  columns_pos : 0 < columns

namespace RowMetrics

/-- rows of a given height and width; a row is at least one character wide -/
def ofWidth (rowHeight : Single) (width : Nat) : RowMetrics :=
  ⟨rowHeight, max 1 width, by omega⟩

/-- the rows of a line of `n` characters -/
def rowsOfSize (m : RowMetrics) (n : Nat) : Nat := max 1 ((n + (m.columns - 1)) / m.columns)

/-- the rows that a height covers in part or in full; one, if the height is no positive number -/
def rowsOfHeight (m : RowMetrics) (height : Single) : Nat :=
  match (height.div m.rowHeight).ceil.wholeCount? with
  | some n => min n maxCount
  | none => 1

/-- the height of a line of `n` characters, for hosts that cannot measure it -/
def heightOfSize (m : RowMetrics) (n : Nat) : Single :=
  (Single.ofNat (m.rowsOfSize n)).mul m.rowHeight

/-- the rows of finished lines -/
def rowsOfLines (m : RowMetrics) : List Line → Nat
  | [] => 0
  | l :: ls => m.rowsOfSize l.size + m.rowsOfLines ls

/-- all rows: of the lines of the prologue, of the committed lines, and of a current line of the
given height; it stands for a number of 64 bits as long as it is no more than the greatest count -/
def totalRows (m : RowMetrics) (prologue : Nat) (committed : List Line) (height : Single) : Nat :=
  prologue + m.rowsOfLines committed + m.rowsOfHeight height

theorem rowsOfLines_cons (m : RowMetrics) (l : Line) (ls : List Line) :
    m.rowsOfLines (l :: ls) = m.rowsOfSize l.size + m.rowsOfLines ls := rfl

theorem one_le_rowsOfSize (m : RowMetrics) (n : Nat) : 1 ≤ m.rowsOfSize n := by
  unfold rowsOfSize; omega

theorem rowsOfSize_of_le (m : RowMetrics) {n : Nat} (h : n ≤ m.columns) : m.rowsOfSize n = 1 := by
  have hc : 0 < m.columns := m.columns_pos
  have hd : (n + (m.columns - 1)) / m.columns < 2 := by
    rw [Nat.div_lt_iff_lt_mul hc]
    omega
  unfold rowsOfSize
  omega

end RowMetrics

end LineEditor
