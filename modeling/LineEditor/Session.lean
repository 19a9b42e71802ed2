import LineEditor.Observer
import LineEditor.Window

/-!
# Sessions

A session is a window together with those who report to it: senders that put events into its queue,
and observers of the height of its current line. One observer at most is attached, the one created
last; a report of any other is refused. When the window is torn down the queue closes and no
observer is attached any more.
-/

namespace LineEditor

/-- a window and those who report to it -/
structure Session where
  /-- the window, until it is torn down -/
  window : Option Window
  mailbox : Mailbox
  /-- which observer is attached -/
  slot : Slot

namespace Session

/-- a session with a fresh window -/
def start (w : Window) : Session := ⟨some w, .empty, .empty⟩

/-! ## Events -/

/-- puts an event into the queue; tells whether it will be taken -/
def send (s : Session) (e : Event) : Bool × Session :=
  let r := s.mailbox.send e
  (r.1, { s with mailbox := r.2 })

/-- hands an event to the window at once, and tells whether the page is another -/
def handle (s : Session) (e : Event) : Bool × Session :=
  match s.window with
  | none => (false, s)
  | some w =>
    let r := w.handle e
    (r.1, { s with window := some r.2 })

/-- takes the oldest event out of the queue -/
def take? (s : Session) : Option (Event × Session) :=
  s.mailbox.take?.map fun r => (r.1, { s with mailbox := r.2 })

theorem mailbox_handle (s : Session) (e : Event) : (s.handle e).2.mailbox = s.mailbox := by
  unfold handle
  split
  · rfl
  · rfl

theorem take?_of_nil {s : Session} (h : s.mailbox.pending = []) : s.take? = none := by
  rw [take?, Mailbox.take?, h]
  rfl

theorem take?_of_cons {s : Session} {e : Event} {es : List Event}
    (h : s.mailbox.pending = e :: es) :
    s.take? = some (e, { s with mailbox := { s.mailbox with pending := es } }) := by
  rw [take?, Mailbox.take?, h]
  rfl

theorem pending_of_take? {s t : Session} {e : Event} (h : s.take? = some (e, t)) :
    s.mailbox.pending = e :: t.mailbox.pending := by
  cases hp : s.mailbox.pending with
  | nil =>
    rw [take?_of_nil hp] at h
    cases h
  | cons d es =>
    rw [take?_of_cons hp] at h
    cases h
    rfl

/-- lets the window work off the queue, one event after the other, and tells whether the page is
another -/
def processPending (s : Session) : Bool × Session :=
  match _h : s.take? with
  | none => (false, s)
  | some (e, t) =>
    let first := t.handle e
    let rest := first.2.processPending
    (first.1 || rest.1, rest.2)
termination_by s.mailbox.pending.length
decreasing_by
  rw [mailbox_handle, pending_of_take? _h]
  exact Nat.lt_succ_self _

theorem processPending_of_nil {s : Session} (h : s.mailbox.pending = []) :
    s.processPending = (false, s) := by
  rw [processPending]
  split
  · rfl
  · rename_i ht
    rw [take?_of_nil h] at ht
    cases ht

theorem processPending_of_take? {s t : Session} {e : Event} (h : s.take? = some (e, t)) :
    s.processPending
      = ((t.handle e).1 || (t.handle e).2.processPending.1, (t.handle e).2.processPending.2) := by
  rw [processPending]
  split
  · rename_i ht
    rw [h] at ht
    cases ht
  · rename_i ht
    rw [h] at ht
    cases ht
    rfl

/-- working off the queue is handing its events to the window in order -/
theorem processPending_eq (w : Window) (m : Mailbox) (t : Slot) :
    processPending ⟨some w, m, t⟩
      = ((w.handleAll m.pending).1,
          ⟨some (w.handleAll m.pending).2, { m with pending := [] }, t⟩) := by
  obtain ⟨isOpen, es⟩ := m
  induction es generalizing w with
  | nil => exact processPending_of_nil rfl
  | cons e es ih =>
    rw [processPending_of_take? (take?_of_cons rfl)]
    show ((w.handle e).1 || (processPending ⟨some (w.handle e).2, ⟨isOpen, es⟩, t⟩).1,
      (processPending ⟨some (w.handle e).2, ⟨isOpen, es⟩, t⟩).2) = _
    rw [ih]
    rfl

/-! ## Observers -/

/-- attaches a new observer in place of any other; none, if the window is gone -/
def attach? (s : Session) : Option (Observer × Session) :=
  s.window.map fun _ => (s.slot.attach.1, { s with slot := s.slot.attach.2 })

/-- whether an observer is attached -/
def isAttached (s : Session) (o : Observer) : Bool := s.slot.holds o

/-- a report of an observer: put into the queue if the observer is attached, else refused -/
def report (s : Session) (o : Observer) (px : Single) : Bool × Session :=
  if s.isAttached o then s.send (.height px) else (false, s)

/-- gives an observer up -/
def release (s : Session) (o : Observer) : Session := { s with slot := s.slot.release o }

/-- whether any observer is attached -/
def isObserved (s : Session) : Bool := s.slot.isOccupied

/-! ## The end -/

/-- the session without its window -/
def teardown (s : Session) : Session := ⟨none, .closed, s.slot.clear⟩

end Session

end LineEditor
