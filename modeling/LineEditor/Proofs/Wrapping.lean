import LineEditor.Proofs.Cells
import LineEditor.Rows

/-!
# The rows of a line

Wrapping takes one character after the other.  Up to any of them, the characters so far are cells on
rows of the given width, the full rows hold the pieces of their cells, and the open row holds those
of the segments before; what it has of the segment that is being laid out is the piece that is kept
back. So in the end the rows are those of the cells.

* `wrap_eq`               wrapping, by way of cells;
* `wrapped_wrap`          a wrapped line, read as text;
* `map_textOf_wrap_of_le` what fits is one row.
-/

namespace LineEditor

/-! ## Characters one after the other -/

namespace Sheet
variable {width n : Nat} {t : Tag} {s : Sheet} {piece : Text} {cs : List Cell}

/-- the cells `cs` are laid out, but for the piece of the segment `n`, whose characters come with
the newest first -/
def Holds (width n : Nat) (t : Tag) (s : Sheet) (piece : Text) (cs : List Cell) : Prop :=
  ∃ (front : List (List Cell)) (old : List Cell),
    Wrapped width cs (front ++ [old ++ cellsOf n ⟨piece.reverse, t⟩]) ∧
      s.full.reverse = front.map pieces ∧ s.row.reverse = pieces old ∧
      s.used = old.length + piece.length ∧ ∀ c ∈ old, c.segment < n

/-- the pieces of a row that ends with the cells of a segment -/
theorem pieces_append_cellsOf {old : List Cell} (hold : ∀ c ∈ old, c.segment < n) (p : Segment)
    (hne : p.text ≠ []) : pieces (old ++ cellsOf n p) = pieces old ++ [p] := by
  have hcell : ∀ d ∈ cellsOf n p, d.segment = n ∧ d.tag = p.tag := by
    intro d hd
    obtain ⟨a, -, rfl⟩ := List.mem_map.mp hd
    exact ⟨rfl, rfl⟩
  have hother : ∀ c ∈ old, ∀ d ∈ cellsOf n p, d.segment ≠ c.segment := by
    intro c hc d hd
    rw [(hcell d hd).1]
    exact Nat.ne_of_gt (hold c hc)
  have htext : (cellsOf n p).map Cell.char = p.text := by
    rw [cellsOf, List.map_map]
    exact List.map_id p.text
  rw [pieces_append hother, pieces_of_uniform hcell fun hnil => hne (List.map_eq_nil_iff.mp hnil),
    htext]

theorem used_place (s : Sheet) (t : Tag) (piece : Text) : (s.place t piece).used = s.used := by
  unfold Sheet.place
  split <;> rfl

/-- the piece is put on the row, and the next segment can be laid out -/
theorem Holds.place (h : Holds width n t s piece cs) (t' : Tag) :
    Holds width (n + 1) t' (s.place t piece) [] cs := by
  obtain ⟨front, old, hwrapped, hfull, hrow, hused, hold⟩ := h
  have hlater : ∀ c ∈ old ++ cellsOf n ⟨piece.reverse, t⟩, c.segment < n + 1 := by
    intro c hc
    obtain hc | hc := List.mem_append.mp hc
    · exact Nat.lt_succ_of_lt (hold c hc)
    · obtain ⟨a, -, rfl⟩ := List.mem_map.mp hc
      exact Nat.lt_succ_self n
  refine ⟨front, old ++ cellsOf n ⟨piece.reverse, t⟩, ?_, ?_, ?_, ?_, hlater⟩
  · rwa [← List.append_nil (old ++ _)] at hwrapped
  · unfold Sheet.place
    split
    · exact hfull
    · exact hfull
  · unfold Sheet.place
    split
    · rename_i hnil
      rw [List.isEmpty_iff.mp hnil, hrow]
      exact congrArg pieces (List.append_nil old).symm
    · rename_i hne
      have htext : piece.reverse ≠ [] := fun hnil =>
        hne (List.isEmpty_iff.mpr (List.reverse_eq_nil_iff.mp hnil))
      rw [List.reverse_cons, hrow, pieces_append_cellsOf hold _ htext]
  · have hlength : (cellsOf n ⟨piece.reverse, t⟩).length = piece.length :=
      (List.length_map _).trans (List.length_reverse)
    rw [List.length_append, hlength, List.length_nil, Nat.add_zero, ← hused, used_place]

/-- a character is put in its place -/
theorem Holds.take (hw : 0 < width) (h : Holds width n t s piece cs) (c : Char) :
    Holds width n t (Sheet.take width t (s, piece) c).1 (Sheet.take width t (s, piece) c).2
      (cs ++ [⟨c, t, n⟩]) := by
  simp only [Sheet.take]
  split
  · -- the open row is full: with the piece it is the last of the full ones
    rename_i hlast
    obtain ⟨front, row, hwrapped, hfull, hrow, hused, -⟩ := h.place t
    have hrowfull : row.length = width := by
      rw [used_place, hlast] at hused
      exact hused.symm
    have hnext : Wrapped width (cs ++ [⟨c, t, n⟩]) (front ++ [row] ++ [[⟨c, t, n⟩]]) := by
      refine Wrapped.concat_of_eq ?_ hw hrowfull _
      rwa [← List.append_nil row]
    refine ⟨front ++ [row], [], hnext, ?_, rfl, rfl, fun _ hc => nomatch hc⟩
    rw [List.reverse_cons, hfull, hrow, List.map_append, List.map_singleton]
  · rename_i hroom
    obtain ⟨front, old, hwrapped, hfull, hrow, hused, hold⟩ := h
    have hlength : (old ++ cellsOf n ⟨piece.reverse, t⟩).length = s.used := by
      rw [List.length_append, cellsOf, List.length_map, List.length_reverse, hused]
    have hle := hwrapped.length_le_of_mem (List.mem_append_right front (List.mem_singleton_self _))
    have hnext := hwrapped.concat_of_lt (by omega) ⟨c, t, n⟩
    have hrow' : old ++ cellsOf n ⟨piece.reverse, t⟩ ++ [⟨c, t, n⟩]
        = old ++ cellsOf n ⟨(c :: piece).reverse, t⟩ := by
      simp only [cellsOf, List.reverse_cons, List.map_append, List.map_cons, List.map_nil,
        List.append_assoc]
    rw [hrow'] at hnext
    refine ⟨front, old, hnext, hfull, hrow, ?_, hold⟩
    show s.used + 1 = old.length + (piece.length + 1)
    omega

theorem Holds.takeAll (hw : 0 < width) (h : Holds width n t s piece cs) (text : Text) :
    Holds width n t (text.foldl (Sheet.take width t) (s, piece)).1
      (text.foldl (Sheet.take width t) (s, piece)).2 (cs ++ cellsOf n ⟨text, t⟩) := by
  induction text generalizing s piece cs with
  | nil =>
    rw [cellsOf, List.map_nil, List.append_nil]
    exact h
  | cons c text ih =>
    have hrest := ih (h.take hw c)
    rw [List.append_assoc] at hrest
    exact hrest

/-- a segment is laid out -/
theorem Holds.add (hw : 0 < width) (h : Holds width n t s [] cs) (p : Segment) :
    Holds width (n + 1) t (Sheet.add width s p) [] (cs ++ cellsOf n p) := by
  have hstart : Holds width n p.tag s [] cs := h
  exact (hstart.takeAll hw p.text).place t

theorem Holds.addAll (hw : 0 < width) (h : Holds width n t s [] cs) (ps : List Segment) :
    Holds width (n + ps.length) t (ps.foldl (Sheet.add width) s) [] (cs ++ cells n ps) := by
  induction ps generalizing n s cs with
  | nil =>
    rw [cells, List.append_nil]
    exact h
  | cons p ps ih =>
    have hrest := ih (h.add hw p)
    rw [List.append_assoc, Nat.add_assoc, Nat.add_comm 1] at hrest
    exact hrest

theorem Holds.rows_eq (h : Holds width n t s [] cs) (hw : 0 < width) :
    s.rows = (rowsOf width cs).map pieces := by
  obtain ⟨front, row, hwrapped, hfull, hrow, -, -⟩ := h
  have hrows : rowsOf width cs = front ++ [row ++ []] := (wrapped_rowsOf hw cs).unique hwrapped
  rw [hrows, List.append_nil, Sheet.rows, List.reverse_cons, hfull, hrow, List.map_append,
    List.map_singleton]

end Sheet

/-- wrapping cuts the cells of a line into rows -/
theorem wrap_eq (width : Nat) (segments : List Segment) :
    wrap width segments = (rowsOf (max 1 width) (cells 0 segments)).map pieces := by
  have hw : 0 < max 1 width := Nat.lt_of_lt_of_le Nat.one_pos (Nat.le_max_left 1 width)
  have hempty : Sheet.Holds (max 1 width) 0 .default ⟨[], [], 0⟩ [] [] :=
    ⟨[], [], .last (Nat.zero_le _), rfl, rfl, rfl, fun _ hc => nomatch hc⟩
  exact (hempty.addAll hw segments).rows_eq hw

/-! ## Wrapped lines -/

theorem wrapped_wrap (width : Nat) (segments : List Segment) :
    Wrapped (max 1 width) (textOf segments) ((wrap width segments).map textOf) := by
  have hw : 0 < max 1 width := Nat.lt_of_lt_of_le Nat.one_pos (Nat.le_max_left 1 width)
  have h := (wrapped_rowsOf hw (cells 0 segments)).map Cell.char
  rw [map_char_cells] at h
  have hrows : (wrap width segments).map textOf
      = (rowsOf (max 1 width) (cells 0 segments)).map fun row => row.map Cell.char := by
    rw [wrap_eq, List.map_map]
    exact List.map_congr_left fun row _ => textOf_pieces row
  rwa [hrows]

/-- a line that fits is one row -/
theorem map_textOf_wrap_of_le {width : Nat} {segments : List Segment}
    (h : (textOf segments).length ≤ width) :
    (wrap width segments).map textOf = [textOf segments] :=
  (wrapped_wrap width segments).eq_singleton (Nat.le_trans h (Nat.le_max_right 1 width))

/-- the renderer and the estimate agree on the rows of one line -/
theorem length_wrap (m : RowMetrics) {width : Nat} (hm : m.columns = max 1 width)
    (segments : List Segment) :
    (wrap width segments).length = m.rowsOfSize (textOf segments).length := by
  have h := (wrapped_wrap width segments).length_eq (hm ▸ m.columns_pos)
  rw [List.length_map, ← hm] at h
  exact h

end LineEditor
