import LineEditor.Segment

/-!
# Wrapping

A row of segments is laid out on rows of a fixed width, in one pass over the characters. A character
for which the open row has no place opens the next one. The characters of a segment that stand on
one row make one piece, which is put on the row when the row is full or the segment ends; a piece
without characters is left out.
-/

namespace LineEditor

/-- rows while they are laid out, the newest first -/
structure Sheet where
  /-- the rows before the open one -/
  full : List (List Segment)
  /-- the pieces on the open row, the newest first -/
  row : List Segment
  /-- the places that are taken on the open row -/
  used : Nat

namespace Sheet

/-- puts a piece on the open row, unless it is empty; its characters come with the newest first -/
def place (t : Tag) (piece : Text) (s : Sheet) : Sheet :=
  if piece.isEmpty then s else { s with row := ⟨piece.reverse, t⟩ :: s.row }

/-- takes a character of a segment, of which a piece is still to be put on the open row -/
def take (width : Nat) (t : Tag) (r : Sheet × Text) (c : Char) : Sheet × Text :=
  let (s, piece) := r
  if s.used = width then
    let s := s.place t piece
    (⟨s.row.reverse :: s.full, [], 1⟩, [c])
  else ({ s with used := s.used + 1 }, c :: piece)

/-- lays out a segment -/
def add (width : Nat) (s : Sheet) (p : Segment) : Sheet :=
  let (s, piece) := p.text.foldl (take width p.tag) (s, [])
  s.place p.tag piece

/-- all rows, in their order -/
def rows (s : Sheet) : List (List Segment) := (s.row.reverse :: s.full).reverse

end Sheet

/-- a row of segments on rows of the given width, which is at least one -/
def wrap (width : Nat) (segments : List Segment) : List (List Segment) :=
  (segments.foldl (Sheet.add (max 1 width)) ⟨[], [], 0⟩).rows

end LineEditor
