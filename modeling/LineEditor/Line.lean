import LineEditor.Segment

/-!
# Finished lines

A finished line is a row of segments. It stands either in the prologue, which is fixed from the
start, or among the lines that the user has committed.
-/

namespace LineEditor

/-- where a finished line comes from -/
inductive Origin
  | prologue
  | user
deriving DecidableEq

/-- a finished line -/
structure Line where
  segments : List Segment
  origin : Origin
deriving DecidableEq

namespace Line

/-- the text of the line -/
def text (l : Line) : Text := textOf l.segments

/-- the number of characters of the line -/
def size (l : Line) : Nat := lengthOf l.segments

/-- whether the line has no text -/
def isEmpty (l : Line) : Bool := l.segments.all fun s => s.text.isEmpty

theorem size_eq_length (l : Line) : l.size = l.text.length := lengthOf_eq l.segments

theorem isEmpty_iff (l : Line) : l.isEmpty = true ↔ l.text = [] := by
  simp [isEmpty, text, textOf]

end Line

end LineEditor
