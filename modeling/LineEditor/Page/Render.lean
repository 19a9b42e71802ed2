import LineEditor.Line
import LineEditor.Page.Wrap
import LineEditor.Text.Numeral
import LineEditor.Theme

/-!
# The printed page

The window as text for a terminal: each line wrapped at the length limit, the cursor behind the
current line, empty rows where the row count asks for more, and a number in front of every row.
With a theme, every piece carries the escape sequences for its colour.
-/

namespace LineEditor

/-- what is needed to show the window -/
structure Snapshot where
  /-- all finished lines -/
  lines : List Line
  currentText : Text
  current : List Segment
  /-- the number of rows of the window -/
  rowCount : Nat
  /-- the most characters on a row -/
  limit : Nat
deriving DecidableEq

/-- the numbers beside the rows -/
def gutter (rowCount : Nat) : List Nat := (List.range rowCount).map (· + 1)

/-! ## Rows -/

/-- the block that marks the place for the next character -/
def cursor : Segment := .plain ['█']

/-- the rows of the current line with the cursor behind the last one -/
def withCursor : List (List Segment) → List (List Segment)
  | [] => [[cursor]]
  | [row] => [row ++ [cursor]]
  | row :: rows => row :: withCursor rows

/-- fills up with empty rows to at least `n` -/
def padTo (n : Nat) (rows : List (List Segment)) : List (List Segment) :=
  rows ++ List.replicate (n - rows.length) []

namespace Snapshot

/-- the rows of the page -/
def rows (s : Snapshot) : List (List Segment) :=
  padTo s.rowCount
    (s.lines.flatMap (fun l => wrap s.limit l.segments) ++ withCursor (wrap s.limit s.current))

end Snapshot

/-! ## Text -/

/-- a text in a colour, or as it is -/
def paint (color : Option Rgb) (s : Text) : Text :=
  match color with
  | none => s
  | some c =>
    "\x1b[38;2;".toList ++ numeral c.red.toNat ++ ';' :: numeral c.green.toNat ++
      ';' :: numeral c.blue.toNat ++ 'm' :: s ++ "\x1b[0m".toList

/-- a whole number with its sign -/
def signedNumeral (n : Int) : Text :=
  if n < 0 then '-' :: numeral n.natAbs else numeral n.natAbs

/-- the number of a row, to the right in a column of `digits` places, and a rule -/
def label (digits : Nat) (number : Int32) : Text :=
  let n := signedNumeral number.toInt
  List.replicate (digits - n.length) ' ' ++ n ++ " │ ".toList

/-- one row of the page -/
def renderRow (theme : Option Theme) (digits : Nat) (number : Int32) (row : List Segment) : Text :=
  paint (theme.map (·.color .comment)) (label digits number) ++
    row.flatMap (fun p => paint (theme.map (·.color p.tag)) p.text) ++ ['\n']

/-- the rows of a page, numbered from `number` on. The numbers have 32 bits with a sign: behind the
greatest one comes the least. -/
def renderRows (theme : Option Theme) (digits : Nat) : Int32 → List (List Segment) → Text
  | _, [] => []
  | number, row :: rows =>
    renderRow theme digits number row ++ renderRows theme digits (number + 1) rows

/-- the page as text -/
def Snapshot.render (s : Snapshot) (theme : Option Theme) : Text :=
  renderRows theme (numeral s.rows.length).length 1 s.rows

end LineEditor
