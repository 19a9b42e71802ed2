import LineEditor.Token.Literal
import LineEditor.Token.Number
import LineEditor.Token.Operator

/-!
# Lexemes

A line is cut into lexemes from left to right: at each place the first shape that fits takes as
many characters as it can. The cut depends on the characters alone, neither on what stands before
nor on any vocabulary.
-/

namespace LineEditor

/-- what a lexeme looks like -/
inductive Shape
  /-- a run of spaces and tabs -/
  | blank
  /-- from a hash to the end of the line -/
  | comment
  | string
  | number
  /-- a letter or underscore, then letters, digits and underscores -/
  | word
  /-- an at sign and the dotted name behind it -/
  | decorator
  /-- an operator of two or three characters -/
  | operator
  /-- any other single character -/
  | punctuation
deriving DecidableEq

/-- a piece of a line and its shape -/
structure Lexeme where
  shape : Shape
  text : Text
deriving DecidableEq

namespace Token

/-! ## Character classes -/

/-- a space or a tab -/
def isSpace (c : Char) : Bool := c = ' ' || c = '\t'

/-- an ASCII letter or an underscore -/
def isWordStart (c : Char) : Bool := c.isAlpha || c = '_'

/-- an ASCII letter, a digit or an underscore -/
def isWordChar (c : Char) : Bool := c.isAlphanum || c = '_'

/-- a character of a dotted name -/
def isPathChar (c : Char) : Bool := isWordChar c || c = '.'

/-! ## One lexeme -/

/-- the length of the first character and the run of `p` behind it -/
def run (p : Char → Bool) (s : Text) : Nat := 1 + (s.takeWhile p).length

/-- the shape and the length of the lexeme at the start of `c :: s` -/
def munch (c : Char) (s : Text) : Shape × Nat :=
  if isSpace c then (.blank, run isSpace s)
  else if c = '#' then (.comment, 1 + s.length)
  else if 0 < literal (c :: s) then (.string, literal (c :: s))
  else if 0 < number (c :: s) then (.number, number (c :: s))
  else if isWordStart c then (.word, run isWordChar s)
  else if c = '@' then (.decorator, run isPathChar s)
  else if 0 < operator (c :: s) then (.operator, operator (c :: s))
  else (.punctuation, 1)

theorem run_pos (p : Char → Bool) (s : Text) : 0 < run p s := by
  unfold run
  omega

theorem munch_pos (c : Char) (s : Text) : 0 < (munch c s).2 := by
  unfold munch
  repeat' split
  · exact run_pos isSpace s
  · exact Nat.lt_of_lt_of_le Nat.zero_lt_one (Nat.le_add_right 1 s.length)
  · assumption
  · assumption
  · exact run_pos isWordChar s
  · exact run_pos isPathChar s
  · assumption
  · exact Nat.zero_lt_one

/-! ## The cut -/

/-- the lexemes of a line -/
def lexemes : Text → List Lexeme
  | [] => []
  | c :: s =>
    let m := munch c s
    ⟨m.1, (c :: s).take m.2⟩ :: lexemes ((c :: s).drop m.2)
termination_by s => s.length
decreasing_by
  have h : 0 < (munch c s).2 := munch_pos c s
  simp only [List.length_drop, List.length_cons]
  omega

theorem lexemes_nil : lexemes [] = [] := by rw [lexemes]

theorem lexemes_cons (c : Char) (s : Text) :
    lexemes (c :: s) =
      ⟨(munch c s).1, (c :: s).take (munch c s).2⟩ ::
        lexemes ((c :: s).drop (munch c s).2) := by rw [lexemes]

/-- the cut loses nothing -/
theorem flatMap_text_lexemes (s : Text) : (lexemes s).flatMap Lexeme.text = s := by
  fun_induction lexemes s with
  | case1 => rfl
  | case2 c s m ih =>
    rw [List.flatMap_cons, ih]
    exact List.take_append_drop m.2 (c :: s)

theorem text_ne_nil_of_mem_lexemes {s : Text} {l : Lexeme} (h : l ∈ lexemes s) : l.text ≠ [] := by
  fun_induction lexemes s with
  | case1 => cases h
  | case2 c s m ih =>
    cases List.mem_cons.mp h with
    | inl e =>
      have hm : 0 < m.2 := munch_pos c s
      rw [e, ← List.length_pos_iff, List.length_take, List.length_cons]
      omega
    | inr hl => exact ih hl

end Token

end LineEditor
