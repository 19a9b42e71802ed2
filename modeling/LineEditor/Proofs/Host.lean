import LineEditor.Session

/-!
# Hosts

A host holds a window, its senders and the observers that it created, and uses them in any order and
from any thread.  Sends, reports and the loss of an observer may fall between any two turns of a
call that works off the queue; the window itself is lent to one call at a time, so that direct
events, new observers and the teardown wait for a call to return.

* `Host.step`       what one action does, and what is logged of it;
* `Host.Move`       the moves that a host can make: each step is one of them (`Host.move_step`);
* `Host.run`        a row of actions; what no move breaks, no run breaks (`Host.run_keeps`).
-/

namespace LineEditor

/-- a session in the hands of its host -/
structure Host where
  session : Session
  /-- the observers in the order of creation, each until it is given up -/
  observers : List (Option Observer)
  /-- whether a call is working off the queue, and what it would answer so far -/
  call : Option Bool

inductive Action
  /-- through any of the senders -/
  | send (e : Event)
  /-- through the observer that was created as number `k`, from 0 on -/
  | report (k : Nat) (px : Single)
  | release (k : Nat)
  /-- directly, not through the queue -/
  | handle (e : Event)
  | attach
  /-- a call begins to work off the queue -/
  | call
  /-- the call takes the next event, or returns if there is none -/
  | turn
  | teardown

inductive LogEntry
  /-- sent or reported, and put into the queue -/
  | delivered (e : Event)
  | refused (e : Event)
  | handled (e : Event) (changed : Bool)
  | called
  /-- taken out of the queue and handed to the window -/
  | taken (e : Event) (changed : Bool)
  | returned (changed : Bool)
deriving DecidableEq

namespace Host

def start (w : Window) : Host := ⟨.start w, [], none⟩

/-- whether the window is there and lent to no call -/
def isFree (h : Host) : Bool := h.session.window.isSome && h.call.isNone

/-- the `k`th observer, unless it was given up -/
def observer? (h : Host) (k : Nat) : Option Observer := h.observers[k]?.join

/-- the observer that was created last, unless it was given up -/
def newest? (h : Host) : Option Observer := h.observers.getLast?.join

/-- what becomes of an event that was put into the queue or not -/
def post (h : Host) (e : Event) (r : Bool × Session) : Host × List LogEntry :=
  ({ h with session := r.2 }, [if r.1 then .delivered e else .refused e])

/-- one action, and what is logged of it; what is not possible does nothing -/
def step (h : Host) : Action → Host × List LogEntry
  | .send e => h.post e (h.session.send e)
  | .report k px =>
    match h.observer? k with
    | none => (h, [])
    | some o => h.post (.height px) (h.session.report o px)
  | .release k =>
    match h.observer? k with
    | none => (h, [])
    | some o =>
      ({ h with session := h.session.release o, observers := h.observers.set k none }, [])
  | .handle e =>
    if h.isFree then
      ({ h with session := (h.session.handle e).2 }, [.handled e (h.session.handle e).1])
    else (h, [])
  | .attach =>
    match if h.isFree then h.session.attach? else none with
    | none => (h, [])
    | some (o, s) => ({ h with session := s, observers := h.observers ++ [some o] }, [])
  | .call => if h.isFree then ({ h with call := some false }, [.called]) else (h, [])
  | .turn =>
    match h.call with
    | none => (h, [])
    | some changed =>
      match h.session.take? with
      | none => ({ h with call := none }, [.returned changed])
      | some (e, s) =>
        ({ h with session := (s.handle e).2, call := some (changed || (s.handle e).1) },
          [.taken e (s.handle e).1])
  | .teardown => if h.isFree then ({ h with session := h.session.teardown }, []) else (h, [])

/-! ## Sends and reports -/

theorem step_send {h : Host} (hopen : h.session.mailbox.isOpen = true) (e : Event) :
    (h.step (.send e)).2 = [.delivered e] := by
  simp [step, post, Session.send, Mailbox.send, hopen]

theorem step_report_attached {h : Host} (hopen : h.session.mailbox.isOpen = true) {k : Nat}
    {o : Observer} (px : Single) (hk : h.observer? k = some o)
    (ho : h.session.isAttached o = true) :
    (h.step (.report k px)).2 = [.delivered (.height px)] := by
  simp [step, post, Session.report, Session.send, Mailbox.send, hk, ho, hopen]

theorem step_report_detached {h : Host} {k : Nat} {o : Observer} (px : Single)
    (hk : h.observer? k = some o) (ho : h.session.isAttached o = false) :
    h.step (.report k px) = (h, [.refused (.height px)]) := by
  simp [step, post, Session.report, hk, ho]

/-! ## Turns -/

theorem step_turn_of_take? {s t : Session} {e : Event} (hs : s.take? = some (e, t))
    (os : List (Option Observer)) (changed : Bool) :
    step ⟨s, os, some changed⟩ .turn
      = (⟨(t.handle e).2, os, some (changed || (t.handle e).1)⟩, [.taken e (t.handle e).1]) := by
  simp only [step, hs]

theorem step_turn_of_nil {s : Session} (hs : s.mailbox.pending = [])
    (os : List (Option Observer)) (changed : Bool) :
    step ⟨s, os, some changed⟩ .turn = (⟨s, os, none⟩, [.returned changed]) := by
  simp only [step, Session.take?_of_nil hs]

/-- a call returns as soon as it finds the queue empty, and only then -/
theorem step_turn_returned {h : Host} {changed : Bool}
    (hr : (h.step .turn).2 = [.returned changed]) :
    h.call = some changed ∧ h.session.mailbox.pending = []
      ∧ (h.step .turn).1 = { h with call := none } := by
  obtain ⟨⟨x, ⟨isOpen, pending⟩, t⟩, os, c⟩ := h
  cases c with
  | none => cases hr
  | some b =>
    cases pending with
    | nil =>
      cases hr
      exact ⟨rfl, rfl, rfl⟩
    | cons e es => cases hr

/-! ## Moves -/

/-- what a step can make of a host, and what is logged of it -/
inductive Move : Host → Host → List LogEntry → Prop
  | idle (h : Host) : Move h h []
  | delivered (x : Option Window) (m : Mailbox) (t : Slot) (os : List (Option Observer))
      (c : Option Bool) (e : Event) (hopen : m.isOpen = true) :
      Move ⟨⟨x, m, t⟩, os, c⟩ ⟨⟨x, { m with pending := m.pending ++ [e] }, t⟩, os, c⟩ [.delivered e]
  | refused (h : Host) (e : Event) : Move h h [.refused e]
  | released (s : Session) (os : List (Option Observer)) (c : Option Bool) (k : Nat) (o : Observer)
      (hk : os[k]? = some (some o)) : Move ⟨s, os, c⟩ ⟨s.release o, os.set k none, c⟩ []
  | handled (w : Window) (m : Mailbox) (t : Slot) (os : List (Option Observer)) (e : Event) :
      Move ⟨⟨some w, m, t⟩, os, none⟩ ⟨⟨some (w.handle e).2, m, t⟩, os, none⟩
        [.handled e (w.handle e).1]
  | attached (w : Window) (m : Mailbox) (t : Slot) (os : List (Option Observer)) :
      Move ⟨⟨some w, m, t⟩, os, none⟩ ⟨⟨some w, m, t.attach.2⟩, os ++ [some t.attach.1], none⟩ []
  | called (w : Window) (m : Mailbox) (t : Slot) (os : List (Option Observer)) :
      Move ⟨⟨some w, m, t⟩, os, none⟩ ⟨⟨some w, m, t⟩, os, some false⟩ [.called]
  | taken (x : Option Window) (isOpen : Bool) (e : Event) (es : List Event) (t : Slot)
      (os : List (Option Observer)) (changed : Bool) :
      Move ⟨⟨x, ⟨isOpen, e :: es⟩, t⟩, os, some changed⟩
        ⟨(Session.handle ⟨x, ⟨isOpen, es⟩, t⟩ e).2, os,
          some (changed || (Session.handle ⟨x, ⟨isOpen, es⟩, t⟩ e).1)⟩
        [.taken e (Session.handle ⟨x, ⟨isOpen, es⟩, t⟩ e).1]
  | returned (x : Option Window) (isOpen : Bool) (t : Slot) (os : List (Option Observer))
      (changed : Bool) :
      Move ⟨⟨x, ⟨isOpen, []⟩, t⟩, os, some changed⟩ ⟨⟨x, ⟨isOpen, []⟩, t⟩, os, none⟩
        [.returned changed]
  | tornDown (w : Window) (m : Mailbox) (t : Slot) (os : List (Option Observer)) :
      Move ⟨⟨some w, m, t⟩, os, none⟩ ⟨⟨none, .closed, t.clear⟩, os, none⟩ []

theorem eq_of_isFree {h : Host} (hfree : h.isFree = true) :
    ∃ w m t, h = ⟨⟨some w, m, t⟩, h.observers, none⟩ := by
  obtain ⟨⟨_ | w, m, t⟩, os, _ | changed⟩ := h
  · cases hfree
  · cases hfree
  · exact ⟨w, m, t, rfl⟩
  · cases hfree

theorem move_send (h : Host) (e : Event) :
    Move h (h.post e (h.session.send e)).1 (h.post e (h.session.send e)).2 := by
  obtain ⟨⟨x, m, t⟩, os, c⟩ := h
  show Move _ (post _ e ((m.send e).1, ⟨x, (m.send e).2, t⟩)).1
    (post _ e ((m.send e).1, ⟨x, (m.send e).2, t⟩)).2
  unfold Mailbox.send
  split
  · exact .delivered x m t os c e ‹_›
  · exact .refused _ e

theorem move_report (h : Host) (o : Observer) (px : Single) :
    Move h (h.post (.height px) (h.session.report o px)).1
      (h.post (.height px) (h.session.report o px)).2 := by
  unfold Session.report
  split
  · exact h.move_send (.height px)
  · exact .refused h (.height px)

theorem move_step (h : Host) (a : Action) : Move h (h.step a).1 (h.step a).2 := by
  cases a with
  | send e => exact h.move_send e
  | report k px =>
    simp only [step]
    split
    · exact .idle h
    · exact h.move_report _ px
  | release k =>
    simp only [step]
    split
    · exact .idle h
    · rename_i o ho
      exact .released h.session h.observers h.call k o (Option.join_eq_some_iff.mp ho)
  | handle e =>
    simp only [step]
    split
    · obtain ⟨w, m, t, heq⟩ := eq_of_isFree ‹_›
      rw [heq]
      exact .handled w m t h.observers e
    · exact .idle h
  | attach =>
    simp only [step]
    split
    · exact .idle h
    · rename_i o s hs
      split at hs
      · obtain ⟨w, m, t, heq⟩ := eq_of_isFree ‹_›
        rw [heq] at hs ⊢
        cases hs
        exact .attached w m t h.observers
      · cases hs
  | call =>
    simp only [step]
    split
    · obtain ⟨w, m, t, heq⟩ := eq_of_isFree ‹_›
      rw [heq]
      exact .called w m t h.observers
    · exact .idle h
  | turn =>
    obtain ⟨⟨x, ⟨isOpen, pending⟩, t⟩, os, c⟩ := h
    cases c with
    | none => exact .idle _
    | some changed =>
      cases pending with
      | nil => exact .returned x isOpen t os changed
      | cons e es => exact .taken x isOpen e es t os changed
  | teardown =>
    simp only [step]
    split
    · obtain ⟨w, m, t, heq⟩ := eq_of_isFree ‹_›
      rw [heq]
      exact .tornDown w m t h.observers
    · exact .idle h

theorem step_refused {h : Host} {a : Action} {e : Event} (hr : (h.step a).2 = [.refused e]) :
    (h.step a).1 = h := by
  have hm := h.move_step a
  rw [hr] at hm
  generalize (h.step a).1 = k at hm
  cases hm with
  | refused => rfl

/-! ## Runs -/

/-- actions in order, and the log of them -/
def run (h : Host) : List Action → Host × List LogEntry
  | [] => (h, [])
  | a :: as => (((h.step a).1.run as).1, (h.step a).2 ++ ((h.step a).1.run as).2)

theorem run_cons (h : Host) (a : Action) (as : List Action) :
    h.run (a :: as)
      = (((h.step a).1.run as).1, (h.step a).2 ++ ((h.step a).1.run as).2) := rfl

/-- what no move breaks, no run breaks -/
theorem run_keeps {P : Host → List LogEntry → Prop}
    (hmove : ∀ h k log more, Move h k more → P h log → P k (log ++ more)) {h : Host}
    (log : List LogEntry) (hp : P h log) (as : List Action) :
    P (h.run as).1 (log ++ (h.run as).2) := by
  induction as generalizing h log with
  | nil =>
    rw [run, List.append_nil]
    exact hp
  | cons a as ih =>
    rw [run_cons, ← List.append_assoc]
    exact ih _ (hmove h _ log _ (h.move_step a) hp)

/-- the same for what does not ask for the log -/
theorem run_keeps_host {P : Host → Prop} (hmove : ∀ h k more, Move h k more → P h → P k) {h : Host}
    (hp : P h) (as : List Action) : P (h.run as).1 :=
  run_keeps (P := fun k _ => P k) (fun h k _ more hm => hmove h k more hm) [] hp as

end Host

end LineEditor
