import LineEditor.Key
import LineEditor.Number.Single

/-!
# Events

What an editor reacts to, and the queue in which events wait for it. Events are taken in the order
in which they were sent; once the editor is gone, nothing can be sent.
-/

namespace LineEditor

/-- what an editor reacts to -/
inductive Event
  | key (press : KeyPress)
  /-- the line being typed was measured, in pixels -/
  | height (px : Single)
deriving DecidableEq

/-- a queue of events -/
structure Mailbox where
  /-- whether somebody takes events out -/
  isOpen : Bool
  /-- the events that wait, the oldest first -/
  pending : List Event
deriving DecidableEq

namespace Mailbox

/-- an open queue without events -/
def empty : Mailbox := ⟨true, []⟩

/-- puts an event behind the others; tells whether it will be taken -/
def send (m : Mailbox) (e : Event) : Bool × Mailbox :=
  if m.isOpen then (true, { m with pending := m.pending ++ [e] }) else (false, m)

/-- takes out the oldest event -/
def take? (m : Mailbox) : Option (Event × Mailbox) :=
  match m.pending with
  | [] => none
  | e :: es => some (e, { m with pending := es })

/-- a closed queue; what waits is lost -/
def closed : Mailbox := ⟨false, []⟩

end Mailbox

end LineEditor
