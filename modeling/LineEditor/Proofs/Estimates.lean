import LineEditor.Proofs.Exactness
import LineEditor.Proofs.Freshness
import LineEditor.Proofs.Wrapping

/-!
# Estimated heights

Where no host measures the current line, the height estimated for it is reported behind every key.
A line within the limit is estimated at one row, and the estimate is read back as exactly one, so
the window asks for no row that the lines do not fill.

* `RowMetrics.rowsOfHeight_rowHeight`  the height of one row is read back as one;
* `Estimated`                          the invariant, kept by every key (`Estimated.press`);
* `Estimated.map_textOf_rows`          the texts on the rows of the page.
-/

namespace LineEditor

/-! ## One row -/

namespace RowMetrics
variable {m : RowMetrics}

theorem rowsOfHeight_rowHeight (h : m.rowHeight.isPositive = true) :
    m.rowsOfHeight m.rowHeight = 1 := by
  rw [rowsOfHeight, Single.div_self h, Single.ceil_one, Single.wholeCount?_one]
  exact Nat.min_eq_left (by decide)

theorem heightOfSize_of_le (h : m.rowHeight.isPositive = true) {n : Nat} (hn : n ≤ m.columns) :
    m.heightOfSize n = m.rowHeight := by
  rw [heightOfSize, m.rowsOfSize_of_le hn, Single.one_mul h]

end RowMetrics

/-! ## The window -/

/-- the lines of the prologue that are shown -/
def Config.shownLines (c : Config) : List Line :=
  (c.prologue.map fun l => ⟨l, .prologue⟩).take c.prologueShown

/-- the window after a key and the report of the height that is estimated then -/
def Window.pressEstimated (w : Window) (p : KeyPress) : Window :=
  let x := (w.press p).2
  (x.measure x.estimate).2

theorem Window.buffer_measure (w : Window) (px : Single) : (w.measure px).2.buffer = w.buffer := rfl

theorem Window.buffer_pressEstimated (w : Window) (p : KeyPress) :
    (w.pressEstimated p).buffer = (w.press p).2.buffer := by
  rw [pressEstimated, buffer_measure]

/-- the window after keys, with such a report behind every one -/
def Window.pressAll (w : Window) (ps : List KeyPress) : Window := ps.foldl pressEstimated w

theorem Fresh.estimate_eq {c : Config} {w : Window} (h : Fresh c w) (hv : c.Valid) :
    w.estimate = c.rowHeight := by
  have hsize : w.buffer.size ≤ max 1 c.maxLineLength :=
    Nat.le_trans (h.limit ▸ h.sound.size_le) (Nat.le_max_right 1 c.maxLineLength)
  rw [Window.estimate, h.metrics]
  exact RowMetrics.heightOfSize_of_le hv.2.1 hsize

theorem Fresh.pressEstimated {c : Config} {w : Window} (h : Fresh c w) (p : KeyPress) :
    Fresh c (w.pressEstimated p) :=
  (h.press p).measure _

theorem Window.valid_of_create {c : Config} {w : Window} (h : create c = .ok w) : c.Valid := by
  unfold create at h
  split at h
  · cases h
  · rename_i d hd
    exact (Config.check_eq_ok_iff.mp hd).2

/-- a window in which the current line counts with the height of one row -/
structure Estimated (c : Config) (w : Window) : Prop extends Fresh c w where
  height : w.height = c.rowHeight

namespace Estimated
variable {c : Config} {w : Window}

theorem ofConfig (c : Config) : Estimated c (.ofConfig c) := ⟨.ofConfig c, rfl⟩

theorem press (h : Estimated c w) (hv : c.Valid) (p : KeyPress) :
    Estimated c (w.pressEstimated p) :=
  ⟨h.toFresh.pressEstimated p, (h.toFresh.press p).estimate_eq hv⟩

theorem pressAll (h : Estimated c w) (hv : c.Valid) (ps : List KeyPress) :
    Estimated c (w.pressAll ps) := by
  induction ps generalizing w with
  | nil => exact h
  | cons p ps ih => exact ih (h.press hv p)

theorem rowCount_eq (h : Estimated c w) (hv : c.Valid) :
    w.rowCount = c.shownLines.length + w.buffer.committed.length + 1 := by
  rw [h.toFresh.rowCount_eq, h.height, Config.shownLines, List.length_take, List.length_map]
  exact congrArg _ (RowMetrics.rowsOfHeight_rowHeight (m := .ofWidth c.rowHeight c.maxLineLength)
    hv.2.1)

end Estimated

/-! ## The page -/

theorem map_textOf_withCursor {rows : List (List Segment)} {s : Text}
    (h : rows.map textOf = [s]) : (withCursor rows).map textOf = [s ++ ['█']] := by
  obtain ⟨row, rfl, rfl⟩ := List.map_eq_singleton_iff.mp h
  show [textOf (row ++ [cursor])] = [textOf row ++ ['█']]
  rw [textOf_append]
  rfl

theorem map_textOf_padTo {n : Nat} {rows : List (List Segment)} {texts : List Text}
    (h : rows.map textOf = texts) (hn : n ≤ texts.length) :
    (padTo n rows).map textOf = texts := by
  rw [← h, List.length_map] at hn
  rw [padTo, Nat.sub_eq_zero_of_le hn, ← h]
  exact congrArg (List.map textOf) (List.append_nil rows)

/-- the texts on the rows of each line of the prologue -/
def Config.prologueRows (c : Config) : List (List Text) :=
  c.shownLines.map fun l => (wrap c.maxLineLength l.segments).map textOf

namespace Fresh
variable {c : Config} {w : Window}

theorem map_textOf_prologue (h : Fresh c w) :
    (w.buffer.prologue.flatMap fun l => wrap w.buffer.limit l.segments).map textOf
      = c.prologueRows.flatten := by
  rw [h.prologue, h.limit, List.map_flatMap, List.flatMap_def]
  rfl

theorem map_textOf_committed (h : Fresh c w) :
    (w.buffer.committed.flatMap fun l => wrap w.buffer.limit l.segments).map textOf
      = w.buffer.committed.map Line.text := by
  have hrow (l : Line) (hl : l ∈ w.buffer.committed) :
      (wrap w.buffer.limit l.segments).map textOf = [l.text] :=
    map_textOf_wrap_of_le (h.sound.committed l hl).length_le
  rw [List.map_flatMap, List.map_eq_flatMap, List.flatMap_def, List.flatMap_def,
    List.map_congr_left hrow]

theorem map_textOf_current (h : Fresh c w) :
    (withCursor (wrap w.buffer.limit w.memo.segments)).map textOf
      = [w.buffer.current ++ ['█']] := by
  have htext : textOf w.memo.segments = w.buffer.current := by
    rw [h.segments, textOf_highlight]
  have hle : (textOf w.memo.segments).length ≤ w.buffer.limit := by
    rw [htext, ← h.sound.size_eq]
    exact h.sound.size_le
  rw [map_textOf_withCursor (map_textOf_wrap_of_le hle), htext]

/-- the rows before any are filled up -/
theorem map_textOf_lines (h : Fresh c w) :
    (w.buffer.lines.flatMap (fun l => wrap w.buffer.limit l.segments) ++
        withCursor (wrap w.buffer.limit w.memo.segments)).map textOf
      = c.prologueRows.flatten ++ w.buffer.committed.map Line.text
        ++ [w.buffer.current ++ ['█']] := by
  rw [Buffer.lines, List.flatMap_append, List.map_append, List.map_append, h.map_textOf_prologue,
    h.map_textOf_committed, h.map_textOf_current]

end Fresh

namespace RowMetrics
variable (m : RowMetrics)

/-- the renderer and the estimate agree on the rows of finished lines -/
theorem length_flatten_wrap {width : Nat} (hm : m.columns = max 1 width) (ls : List Line) :
    (ls.map fun l => (wrap width l.segments).map textOf).flatten.length = m.rowsOfLines ls := by
  induction ls with
  | nil => rfl
  | cons l ls ih =>
    rw [List.map_cons, List.flatten_cons, List.length_append, ih, List.length_map,
      length_wrap m hm, rowsOfLines_cons, l.size_eq_length]
    rfl

theorem length_le_rowsOfLines (ls : List Line) : ls.length ≤ m.rowsOfLines ls := by
  induction ls with
  | nil => exact Nat.le_refl 0
  | cons l ls ih =>
    have hone := m.one_le_rowsOfSize l.size
    rw [List.length_cons, rowsOfLines_cons]
    omega

end RowMetrics

theorem length_prologueRows (c : Config) :
    c.prologueRows.flatten.length
      = (RowMetrics.ofWidth c.rowHeight c.maxLineLength).rowsOfLines c.shownLines :=
  RowMetrics.length_flatten_wrap _ rfl c.shownLines

/-- **No row is empty for nothing.**  The rows of the page are those of the prologue, one for each
committed line, and one for the current line with the cursor. -/
theorem Estimated.map_textOf_rows {c : Config} {w : Window} (h : Estimated c w) (hv : c.Valid) :
    w.snapshot.rows.map textOf
      = c.prologueRows.flatten ++ w.buffer.committed.map Line.text
        ++ [w.buffer.current ++ ['█']] := by
  -- a line of the prologue counts as one row and takes one or more, so nothing is filled up
  refine map_textOf_padTo h.toFresh.map_textOf_lines ?_
  have hprologue :=
    (RowMetrics.ofWidth c.rowHeight c.maxLineLength).length_le_rowsOfLines c.shownLines
  show w.rowCount ≤ _
  rw [h.rowCount_eq hv, List.length_append, List.length_append, List.length_map,
    length_prologueRows, List.length_singleton]
  omega

end LineEditor
