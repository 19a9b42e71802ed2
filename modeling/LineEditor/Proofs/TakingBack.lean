import LineEditor.Proofs.Repaint
import LineEditor.Proofs.Freshness

/-!
# Return and Backspace take each other back

A commit throws the text of the line away and keeps its segments; a merge makes the text of them
again, and the text is highlighted anew.  Nothing is lost on either way: the segments of a line
cover its text, and a committed line stands in the highlighting of its own text.

* `Buffer.Sound.deleteBackward_commit`, `Buffer.Sound.commit_deleteBackward`   the two ways of the
  buffer;
* `Fresh.snapshot_press_press`   two keys that take the buffer back take the page back;
* `inverse_handleAll`            the two ways of a window in use.
-/

namespace LineEditor

/-! ## The buffer -/

namespace Buffer
variable {v : Vocabulary} {b : Buffer} {p : KeyPress}

theorem press_enter (hp : p.key = .enter) :
    b.press v p = b.commit (highlight v b.current) := by
  rw [press, hp]

theorem press_backspace (hp : p.key = .backspace) : b.press v p = b.deleteBackward := by
  rw [press, hp]

theorem Sound.bounded (h : b.Sound v) : b.Bounded :=
  ⟨h.size_eq, h.size_le, fun l hl => (h.committed l hl).length_le⟩

theorem Sound.deleteBackward_commit (h : b.Sound v) :
    (b.commit (highlight v b.current)).2.deleteBackward.2 = b :=
  Buffer.deleteBackward_commit h.bounded (textOf_highlight v b.current)

theorem Sound.commit_deleteBackward (h : b.Sound v) (hc : b.current = [])
    (hl : b.committed ≠ []) :
    (b.deleteBackward.2.commit (highlight v b.deleteBackward.2.current)).2 = b := by
  obtain ⟨ls, l, hls⟩ := (List.eq_nil_or_concat' b.committed).resolve_left hl
  -- the line that is committed again is the one that was taken
  have hline : Line.mk (highlight v l.text) .user = l :=
    (h.committed l (hls ▸ List.mem_concat_self)).eq.symm
  have hsize : b.size = 0 := by rw [h.size_eq, hc, List.length_nil]
  rw [deleteBackward_of_nil hc hls]
  show Buffer.mk b.prologue (ls ++ [Line.mk (highlight v l.text) .user]) [] 0 b.limit = b
  rw [hline, ← hls, ← hsize]
  exact congrArg (fun s => Buffer.mk b.prologue b.committed s b.size b.limit) hc.symm

end Buffer

/-! ## The window -/

namespace Fresh
variable {c : Config} {w : Window} {p q : KeyPress}

/-- two keys that take the buffer back take the page back -/
theorem snapshot_press_press (h : Fresh c w)
    (hb : ((w.buffer.press c.vocabulary p).2.press c.vocabulary q).2 = w.buffer) :
    ((w.press p).2.press q).2.snapshot = w.snapshot := by
  have hp : Fresh c (w.press p).2 := h.press p
  have hbuffer : ((w.press p).2.press q).2.buffer = w.buffer := by
    rw [hp.buffer_press q, h.buffer_press p, hb]
  have hheight : ((w.press p).2.press q).2.height = w.height := by
    rw [hp.height_press q, h.height_press p]
  exact (hp.press q).snapshot_congr h (by rw [hbuffer]) (by rw [hbuffer]) hheight

theorem answer_press (h : Fresh c w) (hn : (w.buffer.press c.vocabulary p).1 ≠ .nothing) :
    (w.press p).1 = true := by
  have hnot : ¬ (w.buffer.press c.vocabulary p).1.isNothing = true := fun he =>
    hn ((Change.isNothing_iff _).mp he)
  rw [h.press_eq p, Window.settle, if_neg hnot]

end Fresh

/-- In `x` Return commits the current line as it is highlighted, and on an empty line Backspace
makes the last committed line the current one again; each of them is taken back by the other. -/
structure Inverse (enter backspace : KeyPress) (x : Window) : Prop where
  commits : (x.press enter).1 = true ∧
    (x.press enter).2.buffer.committed = x.buffer.committed ++ [⟨x.snapshot.current, .user⟩] ∧
    (x.press enter).2.buffer.current = []
  commit_back : ((x.press enter).2.press backspace).2.snapshot = x.snapshot
  merges : x.buffer.current = [] → x.buffer.committed ≠ [] → (x.press backspace).1 = true ∧
    ∃ l, x.buffer.committed = (x.press backspace).2.buffer.committed ++ [l] ∧
      (x.press backspace).2.buffer.current = l.text
  merge_back : x.buffer.current = [] → x.buffer.committed ≠ [] →
    ((x.press backspace).2.press enter).2.snapshot = x.snapshot

section
variable {c : Config} {x : Window} (h : Fresh c x) {enter backspace : KeyPress}
include h

theorem Fresh.commits (he : enter.key = .enter) : (x.press enter).1 = true ∧
    (x.press enter).2.buffer.committed = x.buffer.committed ++ [⟨x.snapshot.current, .user⟩] ∧
    (x.press enter).2.buffer.current = [] := by
  have hchange := Buffer.press_enter (v := c.vocabulary) (b := x.buffer) he
  have hsegments : x.snapshot.current = highlight c.vocabulary x.buffer.current := h.segments
  refine ⟨h.answer_press (by rw [hchange]; exact nofun), ?_⟩
  rw [h.buffer_press, hchange, hsegments]
  exact ⟨rfl, rfl⟩

theorem Fresh.merges (hb : backspace.key = .backspace) (hcurrent : x.buffer.current = [])
    (hcommitted : x.buffer.committed ≠ []) : (x.press backspace).1 = true ∧
    ∃ l, x.buffer.committed = (x.press backspace).2.buffer.committed ++ [l] ∧
      (x.press backspace).2.buffer.current = l.text := by
  obtain ⟨ls, l, hls⟩ := (List.eq_nil_or_concat' x.buffer.committed).resolve_left hcommitted
  have hchange := Buffer.press_backspace (v := c.vocabulary) (b := x.buffer) hb
  rw [Buffer.deleteBackward_of_nil hcurrent hls] at hchange
  refine ⟨h.answer_press (by rw [hchange]; exact nofun), l, ?_⟩
  rw [h.buffer_press, hchange]
  exact ⟨hls, rfl⟩

theorem Fresh.inverse (he : enter.key = .enter) (hb : backspace.key = .backspace) :
    Inverse enter backspace x where
  commits := h.commits he
  commit_back := h.snapshot_press_press <| by
    rw [Buffer.press_backspace hb, Buffer.press_enter he]
    exact h.sound.deleteBackward_commit
  merges := h.merges hb
  merge_back hcurrent hcommitted := h.snapshot_press_press <| by
    rw [Buffer.press_enter he, Buffer.press_backspace hb]
    exact h.sound.commit_deleteBackward hcurrent hcommitted

end

/-- **Return and Backspace take each other back.**  After any events, Return and then Backspace
leave the page as it was; and where the current line is empty and a line was committed, Backspace
and then Return do, with the colours of that line and the number of rows. -/
theorem inverse_handleAll {c : Config} {w : Window} (h : Window.create c = .ok w)
    (es : List Event) {enter backspace : KeyPress} (he : enter.key = .enter)
    (hb : backspace.key = .backspace) : Inverse enter backspace (w.handleAll es).2 := by
  obtain rfl := Window.eq_ofConfig_of_create h
  exact ((Fresh.ofConfig c).handleAll es).inverse he hb

/-- a coloured line above an empty one, with control held on Return -/
theorem inverse_handleAll_default :
    ∃ w x : Window, Window.create .default = .ok w ∧
      x = (w.handleAll
        [.key (.bare (.char 'i')), .key (.bare (.char 'f')), .key (.bare .enter)]).2 ∧
      ((x.press ⟨.enter, ⟨false, true, false, false⟩⟩).2.press (.bare .backspace)).2.snapshot
        = x.snapshot ∧
      ((x.press (.bare .backspace)).2.press ⟨.enter, ⟨false, true, false, false⟩⟩).2.snapshot
        = x.snapshot := by
  have hc : Window.create .default = .ok (.ofConfig .default) := rfl
  have h : Inverse ⟨.enter, ⟨false, true, false, false⟩⟩ (.bare .backspace) _ :=
    inverse_handleAll hc
      [.key (.bare (.char 'i')), .key (.bare (.char 'f')), .key (.bare .enter)] rfl rfl
  exact ⟨.ofConfig .default, _, hc, rfl, h.commit_back,
    h.merge_back (by decide) (by decide)⟩

end LineEditor
