import LineEditor.Segment
import LineEditor.Token.Basic

/-!
# Highlighting

The tokens of a line are gathered into the segments that a reader sees as units. A keyword takes
the blank behind it along; neighbouring blanks, operators and punctuation become one segment; any
other token is a segment of its own.
-/

namespace LineEditor

/-- what the open segment can still take up -/
inductive Tail
  /-- nothing -/
  | closed
  /-- a blank, behind a keyword -/
  | keyword
  /-- blanks, operators and punctuation -/
  | gap
deriving DecidableEq

/-- whether a token of kind `k` joins the open segment -/
def Tail.takes : Tail → Kind → Bool
  | closed, _ => false
  | keyword, k => k = .blank
  | gap, k => k.isGap

/-- what a segment that starts with a token of kind `k` can take up -/
def Kind.tail (k : Kind) : Tail :=
  if k = .word .keyword then .keyword else if k.isGap then .gap else .closed

/-- the text that still joins the open segment, and the segments behind it -/
def gather : Tail → List Token → Text × List Segment
  | _, [] => ([], [])
  | tail, t :: ts =>
    if tail.takes t.kind then
      let rest := gather tail ts
      (t.text ++ rest.1, rest.2)
    else
      let rest := gather t.kind.tail ts
      ([], ⟨t.text ++ rest.1, t.kind.tag⟩ :: rest.2)

theorem gather_nil (tail : Tail) : gather tail [] = ([], []) := by cases tail <;> rfl

theorem gather_closed_fst (ts : List Token) : (gather .closed ts).1 = [] := by
  cases ts <;> rfl

/-- gathering keeps every character in its place -/
theorem textOf_gather (tail : Tail) (ts : List Token) :
    (gather tail ts).1 ++ textOf (gather tail ts).2 = ts.flatMap Token.text := by
  induction ts generalizing tail with
  | nil => simp [gather_nil, textOf_nil]
  | cons t ts ih =>
    unfold gather
    split
    · simp only [List.append_assoc, ih, List.flatMap_cons]
    · simp only [List.nil_append, textOf_cons, List.append_assoc, ih, List.flatMap_cons]

/-- the segments of a line -/
def highlight (v : Vocabulary) (line : Text) : List Segment :=
  (gather .closed (Token.tokens v line)).2

/-- the segments of a line cover exactly the line -/
theorem textOf_highlight (v : Vocabulary) (line : Text) : textOf (highlight v line) = line := by
  have h := textOf_gather .closed (Token.tokens v line)
  rw [gather_closed_fst, List.nil_append, Token.flatMap_text_tokens] at h
  exact h

end LineEditor
