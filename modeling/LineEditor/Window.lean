import LineEditor.Buffer
import LineEditor.Config.Basic
import LineEditor.Event
import LineEditor.Memo
import LineEditor.Page.Render
import LineEditor.Rows

/-!
# The window

The window joins the buffer with what is derived from it: the segments of the current line and the
number of rows. Every event is worked off in full, so that the derived parts always belong to the
buffer and to the height that was measured last.
-/

namespace LineEditor

/-- an editor -/
structure Window where
  buffer : Buffer
  vocabulary : Vocabulary
  /-- the highlighting of the current line -/
  memo : Memo
  metrics : RowMetrics
  /-- the height of the current line that was measured last -/
  height : Single
  /-- all rows, as long as they can be counted in 64 bits -/
  rowCount : Nat

namespace Window

/-! ## Opening -/

/-- counts the rows anew -/
def layOut (w : Window) : Window :=
  { w with
    rowCount := w.metrics.totalRows w.buffer.prologue.length w.buffer.committed w.height }

/-- an editor with a configuration, which is not checked -/
def ofConfig (c : Config) : Window :=
  layOut
    { buffer := .start (c.prologue.map fun l => ⟨l, .prologue⟩) c.prologueShown c.maxLineLength
      vocabulary := c.vocabulary
      memo := .empty
      metrics := .ofWidth c.rowHeight c.maxLineLength
      height := c.rowHeight
      rowCount := 0 }

/-- an editor with a configuration, unless that has a flaw -/
def create (c : Config) : Except Config.Flaw Window :=
  match c.check with
  | .error f => .error f
  | .ok d => .ok (ofConfig d)

/-! ## Events -/

/-- the window after an edit of its buffer, and whether the edit had an effect -/
def settle (w : Window) (edit : Change × Buffer) : Bool × Window :=
  if edit.1.isNothing then (false, { w with buffer := edit.2 })
  else
    (true,
      layOut
        { w with buffer := edit.2, memo := w.memo.update w.vocabulary edit.2.current })

/-- commits the current line in the form in which it is highlighted -/
def commit (w : Window) : Bool × Window :=
  let memo := w.memo.update w.vocabulary w.buffer.current
  { w with memo := memo }.settle (w.buffer.commit memo.segments)

/-- the window after a key, and whether the key had an effect -/
def press (w : Window) (p : KeyPress) : Bool × Window :=
  match p.key with
  | .tab => w.settle w.buffer.indent
  | .enter => w.commit
  | .backspace => w.settle w.buffer.deleteBackward
  | _ =>
    match p.typed? with
    | some c => w.settle (w.buffer.push c)
    | none => (false, w)

/-- the window after a measurement, and whether the number of rows is another -/
def measure (w : Window) (px : Single) : Bool × Window :=
  let after := layOut { w with height := px }
  (w.rowCount != after.rowCount, after)

/-- the window after an event, and whether the page is another -/
def handle (w : Window) : Event → Bool × Window
  | .key p => w.press p
  | .height px => w.measure px

/-- the window after events in order, and whether one of them changed the page -/
def handleAll (w : Window) : List Event → Bool × Window
  | [] => (false, w)
  | e :: es =>
    let first := w.handle e
    let rest := first.2.handleAll es
    (first.1 || rest.1, rest.2)

theorem handleAll_append (w : Window) (es fs : List Event) :
    w.handleAll (es ++ fs) =
      ((w.handleAll es).1 || ((w.handleAll es).2.handleAll fs).1,
        ((w.handleAll es).2.handleAll fs).2) := by
  induction es generalizing w with
  | nil => simp [handleAll]
  | cons e es ih => simp [handleAll, ih, Bool.or_assoc]

/-! ## What is seen -/

/-- the height that the current line would have, for hosts that cannot measure it -/
def estimate (w : Window) : Single := w.metrics.heightOfSize w.buffer.size

/-- what is needed to show the window -/
def snapshot (w : Window) : Snapshot where
  lines := w.buffer.lines
  currentText := w.buffer.current
  current := w.memo.segments
  rowCount := w.rowCount
  limit := w.buffer.limit

end Window

end LineEditor
