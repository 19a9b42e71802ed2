import LineEditor.Tag

/-!
# Segments

A line is shown as a row of segments, each a piece of its text under one tag. The texts of the
segments, one behind the other, are the text of the line.
-/

namespace LineEditor

/-- a piece of a line under one tag -/
structure Segment where
  text : Text
  tag : Tag
deriving DecidableEq

namespace Segment

/-- a segment without a meaning of its own -/
def plain (text : Text) : Segment := ⟨text, .default⟩

/-- the number of characters -/
def size (s : Segment) : Nat := s.text.length

end Segment

/-- the text that a row of segments covers -/
def textOf (segments : List Segment) : Text := segments.flatMap Segment.text

theorem textOf_nil : textOf [] = [] := rfl

theorem textOf_cons (s : Segment) (ss : List Segment) :
    textOf (s :: ss) = s.text ++ textOf ss := rfl

theorem textOf_append (ss ts : List Segment) : textOf (ss ++ ts) = textOf ss ++ textOf ts := by
  simp [textOf]

/-- the number of characters that a row of segments covers -/
def lengthOf : List Segment → Nat
  | [] => 0
  | s :: ss => s.size + lengthOf ss

theorem lengthOf_eq (segments : List Segment) :
    lengthOf segments = (textOf segments).length := by
  induction segments with
  | nil => rfl
  | cons s ss ih =>
    rw [textOf_cons, List.length_append, ← ih]
    rfl

end LineEditor
