import LineEditor.Proofs.Edits
import LineEditor.Session

/-!
# When to repaint

A host repaints when an event was answered with true.  The answer has two sources: a key answers by
what its edit reports, a measurement by comparing row counts.  Either way it is true exactly if what
is shown is another, and a key that is answered with false has left everything as it was.

* `Buffer.Reports.seen`          an edit that reports a change has changed a text that is shown;
* `Window.Answers`               a true answer means another page, a false one an idle key;
* `handle_eq_true_iff_snapshot`  the same for a window with its queue and its observers.
-/

namespace LineEditor

/-! ## Edits are seen -/

namespace Buffer
variable {b : Buffer} {edit : Change × Buffer}

/-- an edit that reports a change has changed the finished lines or the current text -/
theorem Reports.seen (h : b.Reports edit) (hp : edit.2.prologue = b.prologue)
    (hn : edit.1 ≠ .nothing) : edit.2.lines ≠ b.lines ∨ edit.2.current ≠ b.current := by
  -- under one prologue the finished lines differ as soon as the committed ones do
  have hlines : edit.2.committed ≠ b.committed → edit.2.lines ≠ b.lines := by
    intro hne he
    rw [lines, lines, hp] at he
    exact hne (List.append_cancel_left he)
  cases hc : edit.1 with
  | nothing => exact absurd hc hn
  | current => exact .inr (h.current_iff.mp hc).1
  | committed =>
    obtain ⟨l, hl⟩ := h.committed_iff.mp hc
    refine .inl (hlines fun he => ?_)
    rw [he] at hl
    exact ne_concat _ l hl
  | mergedUp =>
    obtain ⟨l, hl⟩ := h.mergedUp_iff.mp hc
    refine .inl (hlines fun he => ?_)
    rw [he] at hl
    exact ne_concat _ l hl

end Buffer

theorem Change.isNothing_iff (c : Change) : c.isNothing = true ↔ c = .nothing := by
  cases c with
  | nothing => exact iff_of_true rfl rfl
  | current => exact iff_of_false nofun nofun
  | committed => exact iff_of_false nofun nofun
  | mergedUp => exact iff_of_false nofun nofun

/-! ## A key is answered -/

namespace Window
variable {w : Window}

/-- the answer to a key says whether the page is another, and if not, nothing is -/
structure Answers (w : Window) (r : Bool × Window) : Prop where
  changed : r.1 = true → r.2.snapshot ≠ w.snapshot
  idle : r.1 = false → r.2 = w

theorem snapshot_ne {x : Window}
    (h : x.buffer.lines ≠ w.buffer.lines ∨ x.buffer.current ≠ w.buffer.current) :
    x.snapshot ≠ w.snapshot := by
  intro he
  rcases h with h | h
  · exact h (congrArg Snapshot.lines he)
  · exact h (congrArg Snapshot.currentText he)

theorem answers_settle {edit : Change × Buffer} (h : w.buffer.Reports edit)
    (hp : edit.2.prologue = w.buffer.prologue) : w.Answers (w.settle edit) := by
  unfold settle
  split
  · rename_i hn
    have hsame : edit.2 = w.buffer := h.nothing_iff.mp (edit.1.isNothing_iff.mp hn)
    rw [hsame]
    exact ⟨nofun, fun _ => rfl⟩
  · rename_i hn
    refine ⟨fun _ => snapshot_ne ?_, nofun⟩
    exact h.seen hp fun he => hn (edit.1.isNothing_iff.mpr he)

/-- a commit always shows: there is one line more -/
theorem answers_commit (w : Window) : w.Answers w.commit := by
  refine ⟨fun _ => snapshot_ne (.inl ?_), nofun⟩
  show w.buffer.prologue ++ (w.buffer.committed ++ [_]) ≠ w.buffer.prologue ++ w.buffer.committed
  intro he
  exact Buffer.ne_concat _ _ (List.append_cancel_left he).symm

theorem answers_type (w : Window) {s : Text} (hs : s ≠ []) :
    w.Answers (w.settle (w.buffer.type s)) :=
  answers_settle (w.buffer.reports_type hs) (w.buffer.prologue_type s)

theorem answers_press (w : Window) (p : KeyPress) : w.Answers (w.press p) := by
  unfold press
  split
  · exact w.answers_type (List.cons_ne_nil ' ' [' '])
  · exact w.answers_commit
  · exact answers_settle w.buffer.reports_deleteBackward w.buffer.prologue_deleteBackward
  · split
    · rename_i c _
      exact w.answers_type (List.cons_ne_nil c [])
    · exact ⟨nofun, fun _ => rfl⟩

/-! ## A measurement is answered -/

theorem snapshot_measure (w : Window) (px : Single) :
    (w.measure px).2.snapshot = { w.snapshot with rowCount := (w.measure px).2.rowCount } := rfl

theorem measure_eq_true_iff (w : Window) (px : Single) :
    (w.measure px).1 = true ↔ (w.measure px).2.snapshot ≠ w.snapshot := by
  have hanswer : (w.measure px).1 = true ↔ w.rowCount ≠ (w.measure px).2.rowCount := bne_iff_ne
  rw [hanswer, snapshot_measure, not_iff_not]
  constructor
  · intro h
    rw [← h]
    rfl
  · intro h
    exact (congrArg Snapshot.rowCount h).symm

theorem handle_eq_true_iff (w : Window) (e : Event) :
    (w.handle e).1 = true ↔ (w.handle e).2.snapshot ≠ w.snapshot := by
  cases e with
  | height px => exact w.measure_eq_true_iff px
  | key p =>
    have h := w.answers_press p
    refine ⟨h.changed, fun hne => ?_⟩
    by_contra hfalse
    exact hne (congrArg snapshot (h.idle (Bool.eq_false_iff.mpr hfalse)))

end Window

/-! ## The window with its queue and its observers -/

/-- what a session shows, while it has a window -/
def Session.snapshot? (s : Session) : Option Snapshot := s.window.map Window.snapshot

/-- **Repaint when told to.**  Whatever state a window, its queue and its observers are in, the
answer to an event is true exactly if what is shown is another; and a key that is answered with
false leaves all of them as they were.  Sums of rows beyond the greatest count are left aside. -/
theorem handle_eq_true_iff_snapshot (w : Window) (queue : Mailbox) (observers : Slot) :
    (∀ e : Event,
      (Session.handle ⟨some w, queue, observers⟩ e).1 = true ↔
        (Session.handle ⟨some w, queue, observers⟩ e).2.snapshot?
          ≠ Session.snapshot? ⟨some w, queue, observers⟩) ∧
    ∀ p : KeyPress,
      (Session.handle ⟨some w, queue, observers⟩ (.key p)).1 = false →
        (Session.handle ⟨some w, queue, observers⟩ (.key p)).2 = ⟨some w, queue, observers⟩ := by
  constructor
  · intro e
    show (w.handle e).1 = true ↔ some (w.handle e).2.snapshot ≠ some w.snapshot
    rw [w.handle_eq_true_iff e, ne_eq, ne_eq, Option.some_inj]
  · intro p hfalse
    have hsame : (w.press p).2 = w := (w.answers_press p).idle hfalse
    show (⟨some (w.press p).2, queue, observers⟩ : Session) = ⟨some w, queue, observers⟩
    rw [hsame]

/-- nothing is left to delete, while a measurement waits and an observer is attached -/
theorem handle_eq_true_iff_snapshot_default :
    ∃ w : Window, Window.create .default = .ok w ∧
      Session.handle ⟨some w, ⟨true, [.height (.ofNat 30)]⟩, ⟨1, 1⟩⟩ (.key (.bare .backspace))
        = (false, ⟨some w, ⟨true, [.height (.ofNat 30)]⟩, ⟨1, 1⟩⟩) := by
  refine ⟨.ofConfig .default, rfl, Prod.ext rfl ?_⟩
  exact (handle_eq_true_iff_snapshot (.ofConfig .default) ⟨true, [.height (.ofNat 30)]⟩
    ⟨1, 1⟩).2 (.bare .backspace) rfl

end LineEditor
