import LineEditor.Line

/-!
# The buffer

The buffer holds the lines of the prologue, the lines that the user has committed, and the text of
the line being typed. An edit that would make that line longer than allowed, or that finds nothing
to delete, leaves the buffer as it is and says so.
-/

namespace LineEditor

/-- what an edit did -/
inductive Change
  /-- nothing: there was no room, or nothing to delete -/
  | nothing
  /-- the current line has another text -/
  | current
  /-- the current line was committed -/
  | committed
  /-- the last committed line became the current line again -/
  | mergedUp
deriving DecidableEq

/-- whether an edit had no effect -/
def Change.isNothing : Change → Bool
  | nothing => true
  | _ => false

/-- whether an edit changed the row of committed lines -/
def Change.ofLines : Change → Bool
  | committed | mergedUp => true
  | _ => false

/-- the lines of an editor -/
structure Buffer where
  /-- the lines shown above the user's -/
  prologue : List Line
  /-- the user's finished lines, oldest first -/
  committed : List Line
  /-- the text of the line being typed -/
  current : Text
  /-- the number of its characters, kept so that no key has to count them -/
  size : Nat
  /-- the most characters that the current line may hold -/
  limit : Nat
deriving DecidableEq

namespace Buffer

/-- the text that the indent key types -/
def indentUnit : Text := "  ".toList

/-- a buffer with nothing typed, which shows the first `shown` lines of a prologue -/
def start (prologue : List Line) (shown limit : Nat) : Buffer :=
  ⟨prologue.take shown, [], [], 0, limit⟩

/-- all finished lines: the prologue, then the user's -/
def lines (b : Buffer) : List Line := b.prologue ++ b.committed

/-! ## Edits -/

/-- types a text at the end of the current line, if all of it fits -/
def type (b : Buffer) (s : Text) : Change × Buffer :=
  if b.size + s.length ≤ b.limit then
    (.current, { b with current := b.current ++ s, size := b.size + s.length })
  else (.nothing, b)

/-- types one character -/
def push (b : Buffer) (c : Char) : Change × Buffer := b.type [c]

/-- types one unit of indentation -/
def indent (b : Buffer) : Change × Buffer := b.type indentUnit

/-- commits the current line in the form of the given segments, and starts an empty one -/
def commit (b : Buffer) (segments : List Segment) : Change × Buffer :=
  (.committed,
    { b with committed := b.committed ++ [⟨segments, .user⟩], current := [], size := 0 })

/-- deletes the last character of the current line; where the line is empty, takes the last
committed line back -/
def deleteBackward (b : Buffer) : Change × Buffer :=
  if b.current ≠ [] then
    (.current, { b with current := b.current.dropLast, size := b.size - 1 })
  else
    match b.committed.getLast? with
    | some l =>
      (.mergedUp,
        { b with committed := b.committed.dropLast, current := l.text, size := l.text.length })
    | none => (.nothing, b)

/-! ## What edits keep -/

theorem limit_type (b : Buffer) (s : Text) : (b.type s).2.limit = b.limit := by
  unfold type; split <;> rfl

theorem prologue_type (b : Buffer) (s : Text) : (b.type s).2.prologue = b.prologue := by
  unfold type; split <;> rfl

theorem limit_commit (b : Buffer) (segments : List Segment) :
    (b.commit segments).2.limit = b.limit := rfl

theorem prologue_commit (b : Buffer) (segments : List Segment) :
    (b.commit segments).2.prologue = b.prologue := rfl

theorem limit_deleteBackward (b : Buffer) : b.deleteBackward.2.limit = b.limit := by
  unfold deleteBackward; repeat' split
  all_goals rfl

theorem prologue_deleteBackward (b : Buffer) : b.deleteBackward.2.prologue = b.prologue := by
  unfold deleteBackward; repeat' split
  all_goals rfl

end Buffer

end LineEditor
