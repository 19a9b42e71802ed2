import LineEditor.Highlight

/-!
# The highlighting that was done last

The line being typed is highlighted after every edit, and many events leave its text alone. So the
last text is kept together with its segments, and a text is highlighted only when it differs from
the one before.
-/

namespace LineEditor

/-- a text, its segments, and how often a text had to be highlighted -/
structure Memo where
  text : Text
  segments : List Segment
  misses : Nat
deriving DecidableEq

namespace Memo

/-- the memo of the empty text -/
def empty : Memo := ⟨[], [], 0⟩

/-- the memo of the text `s` -/
def update (m : Memo) (v : Vocabulary) (s : Text) : Memo :=
  if m.text = s then m else ⟨s, highlight v s, m.misses + 1⟩

theorem text_update (m : Memo) (v : Vocabulary) (s : Text) : (m.update v s).text = s := by
  unfold update
  split
  · assumption
  · rfl

theorem update_of_text_eq {m : Memo} {s : Text} (v : Vocabulary) (h : m.text = s) :
    m.update v s = m := by
  simp [update, h]

end Memo

end LineEditor
