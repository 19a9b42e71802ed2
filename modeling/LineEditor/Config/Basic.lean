import LineEditor.Number.Notation
import LineEditor.Segment
import LineEditor.Text.Blank
import LineEditor.Text.Quoted
import LineEditor.Vocabulary

/-!
# Configurations

What is fixed when an editor is opened: how long a line may be, how high a row is, which lines stand
above the user's, and the vocabulary. A configuration with a flaw opens no editor.
-/

namespace LineEditor

/-- what is fixed when an editor is opened -/
structure Config where
  /-- the most characters of a line, which is also the width of the page -/
  maxLineLength : Nat
  /-- in pixels -/
  rowHeight : Single
  /-- the segments of the lines above the user's -/
  prologue : List (List Segment)
  /-- how many of those lines are shown -/
  prologueShown : Nat
  vocabulary : Vocabulary
deriving DecidableEq

namespace Config

/-! ## The default -/

/-- a line of the default prologue that sets a field to a string -/
def fieldLine (name value : String) : List Segment :=
  [.plain "    ".toList, ⟨"self".toList, .selfRef⟩, .plain ".".toList, ⟨name.toList, .member⟩,
    .plain " = ".toList, ⟨'"' :: (value.toList ++ ['"']), .string⟩]

/-- the default prologue: a class with a constructor and four fields -/
def studentPrologue : List (List Segment) :=
  [[⟨"class ".toList, .keyword⟩, ⟨"Student".toList, .typeName⟩, .plain ":".toList],
    [⟨"  def ".toList, .keyword⟩, ⟨"__init__".toList, .functionName⟩, .plain "(".toList,
      ⟨"self".toList, .selfRef⟩, .plain "):".toList],
    fieldLine "name" "Caleb Kilgo",
    fieldLine "university" "UAH",
    fieldLine "major" "Computer Science",
    fieldLine "focus" "Data Science"]

/-- the configuration where nothing is said -/
def default : Config where
  maxLineLength := 60
  rowHeight := .ofNat 24
  prologue := studentPrologue
  prologueShown := studentPrologue.length
  vocabulary := .python

/-! ## Flaws -/

/-- why no editor can be opened -/
inductive Flaw
  /-- the lines may hold no character -/
  | zeroLength
  /-- the height of a row is no positive finite number -/
  | badHeight (height : Single)
  /-- a segment of the prologue breaks its line -/
  | lineBreak
  /-- the given length of a line is no number -/
  | lengthText (raw : Text)
  /-- the given height of a row is no number -/
  | heightText (raw : Text)
deriving DecidableEq

/-- the variable that sets the length of a line -/
def lengthVariable : String := "CODE_WINDOW_MAX_LINE_LENGTH"

/-- the variable that sets the height of a row -/
def heightVariable : String := "CODE_WINDOW_ROW_HEIGHT"

/-- the message for a flaw -/
def Flaw.message (f : Flaw) : Text :=
  "invalid config: ".toList ++
    match f with
    | zeroLength => "max_line_length must be at least 1".toList
    | badHeight h => "row_height_px must be a positive number, got ".toList ++ h.display
    | lineBreak => "prologue segments must not contain line breaks".toList
    | lengthText raw =>
      lengthVariable.toList ++ " must be a positive integer, got ".toList ++ inQuotes raw
    | heightText raw => heightVariable.toList ++ " must be a number, got ".toList ++ inQuotes raw

/-- whether a segment of the prologue breaks its line -/
def breaksLine (c : Config) : Bool := c.prologue.any fun l => l.any fun s => s.text.any isLineBreak

/-- the first flaw of a configuration -/
def flaw? (c : Config) : Option Flaw :=
  if c.maxLineLength = 0 then some .zeroLength
  else if !c.rowHeight.isPositive then some (.badHeight c.rowHeight)
  else if c.breaksLine then some .lineBreak
  else none

/-- whether an editor can be opened -/
def Valid (c : Config) : Prop :=
  0 < c.maxLineLength ∧ c.rowHeight.isPositive = true ∧ c.breaksLine = false

theorem flaw?_eq_none_iff (c : Config) : c.flaw? = none ↔ c.Valid := by
  unfold flaw? Valid
  split
  · rename_i h
    simp [h]
  · rename_i h
    have hn : 0 < c.maxLineLength := Nat.pos_of_ne_zero h
    split
    · simp_all
    · split <;> simp_all

/-- the configuration itself, if it has no flaw -/
def check (c : Config) : Except Flaw Config :=
  match c.flaw? with
  | some f => .error f
  | none => .ok c

theorem check_eq_ok_iff {c d : Config} : c.check = .ok d ↔ c = d ∧ c.Valid := by
  rw [← flaw?_eq_none_iff]
  unfold check
  split <;> simp_all

/-! ## The environment -/

/-- the value of a variable, unless it is blank -/
def given (environment : String → Option Text) (name : String) : Option Text :=
  (environment name).filter fun raw => !(trim raw).isEmpty

/-- the configuration with the length of a line that the environment gives -/
def withLength (environment : String → Option Text) (c : Config) : Except Flaw Config :=
  match given environment lengthVariable with
  | none => .ok c
  | some raw =>
    match readNumeral? maxCount (trim raw) with
    | some n => .ok { c with maxLineLength := n }
    | none => .error (.lengthText raw)

/-- the configuration with the height of a row that the environment gives -/
def withHeight (environment : String → Option Text) (c : Config) : Except Flaw Config :=
  match given environment heightVariable with
  | none => .ok c
  | some raw =>
    match Single.read? (trim raw) with
    | some h => .ok { c with rowHeight := h }
    | none => .error (.heightText raw)

/-- the configuration with what the environment gives, checked -/
def override (environment : String → Option Text) (c : Config) : Except Flaw Config :=
  match c.withLength environment with
  | .error f => .error f
  | .ok d =>
    match d.withHeight environment with
    | .error f => .error f
    | .ok e => e.check

end Config

end LineEditor
