import LineEditor.Proofs.TakingBack

/-!
# How often a text is highlighted

The memo counts the texts that had to be highlighted.  It always holds the text of the current line,
so an event highlights once if it changes that text, and not at all if it does not.  A commit asks
for the text it finds in the memo, and only then for that of the next line.

* `Memo.misses_update`       what the memo counts;
* `Fresh.memo_handle`        behind every event the memo is renewed for the text of that moment;
* `Window.textChanges`       how many events of a run change the text;
* `thrifty_handleAll`        the count of a window in use.
-/

namespace LineEditor

theorem Memo.misses_update (m : Memo) (v : Vocabulary) (s : Text) :
    (m.update v s).misses = m.misses + if m.text = s then 0 else 1 := by
  unfold update
  split
  · rfl
  · rfl

namespace Window

/-- one for an event that changes the text of the current line, and zero for any other -/
def textChange (w : Window) (e : Event) : Nat :=
  if w.buffer.current = (w.handle e).2.buffer.current then 0 else 1

/-- how many of the events change the text of the current line -/
def textChanges (w : Window) : List Event → Nat
  | [] => 0
  | e :: es => w.textChange e + (w.handle e).2.textChanges es

end Window

/-! ## One event -/

namespace Fresh
variable {c : Config} {w : Window}

/-- the memo has what a commit asks it for -/
theorem update_current (h : Fresh c w) :
    w.memo.update w.vocabulary w.buffer.current = w.memo :=
  Memo.update_of_text_eq w.vocabulary h.text

theorem memo_press (h : Fresh c w) (p : KeyPress) :
    (w.press p).2.memo = w.memo.update w.vocabulary (w.press p).2.buffer.current := by
  rw [h.press_eq p, Window.settle]
  split
  · rename_i hn
    rw [Buffer.press_of_isNothing p hn]
    exact h.update_current.symm
  · rfl

theorem memo_handle (h : Fresh c w) (e : Event) :
    (w.handle e).2.memo = w.memo.update w.vocabulary (w.handle e).2.buffer.current := by
  cases e with
  | key p => exact h.memo_press p
  | height px => exact h.update_current.symm

theorem misses_handle (h : Fresh c w) (e : Event) :
    (w.handle e).2.memo.misses = w.memo.misses + w.textChange e := by
  rw [h.memo_handle e, Memo.misses_update, h.text]
  rfl

/-! ## A commit -/

theorem buffer_enter (h : Fresh c w) {p : KeyPress} (hp : p.key = .enter) :
    (w.press p).2.buffer = (w.buffer.commit w.memo.segments).2 := by
  rw [h.buffer_press p, Buffer.press_enter hp, h.segments]

/-- a commit highlights the next line, if that is another text -/
theorem misses_enter (h : Fresh c w) {p : KeyPress} (hp : p.key = .enter) :
    (w.press p).2.memo.misses
      = w.memo.misses + if w.buffer.current = [] then 0 else 1 := by
  rw [h.memo_press p, Memo.misses_update, h.text, h.buffer_enter hp]
  rfl

/-! ## A run -/

theorem misses_handleAll (h : Fresh c w) (es : List Event) :
    (w.handleAll es).2.memo.misses = w.memo.misses + w.textChanges es := by
  induction es generalizing w with
  | nil => rfl
  | cons e es ih =>
    have hrest : ((w.handle e).2.handleAll es).2.memo.misses
        = (w.handle e).2.memo.misses + (w.handle e).2.textChanges es := ih (h.handle e)
    show ((w.handle e).2.handleAll es).2.memo.misses
      = w.memo.misses + (w.textChange e + (w.handle e).2.textChanges es)
    rw [hrest, h.misses_handle e, Nat.add_assoc]

end Fresh

/-- in `x`, no text is highlighted that is at hand -/
structure Thrifty (x : Window) : Prop where
  /-- an event highlights once if it changes the text, and else not at all -/
  misses : ∀ e, (x.handle e).2.memo.misses
    = x.memo.misses + if x.buffer.current = (x.handle e).2.buffer.current then 0 else 1
  /-- a commit finds its text in the memo and keeps the segments that are there -/
  at_hand : x.memo.update x.vocabulary x.buffer.current = x.memo
  commit : ∀ p : KeyPress, p.key = .enter →
    (x.press p).2.buffer.committed = x.buffer.committed ++ [⟨x.memo.segments, .user⟩] ∧
      (x.press p).2.memo.misses
        = x.memo.misses + if x.buffer.current = [] then 0 else 1

theorem Fresh.thrifty {c : Config} {x : Window} (h : Fresh c x) : Thrifty x where
  misses e := h.misses_handle e
  at_hand := h.update_current
  commit p hp := ⟨by rw [h.buffer_enter hp]; rfl, h.misses_enter hp⟩

/-- **No text is highlighted that is at hand.**  A window in use has highlighted as many texts as
events changed the text of its current line, and its next event will add one if it changes that
text, and none otherwise. -/
theorem thrifty_handleAll {c : Config} {w : Window} (h : Window.create c = .ok w)
    (es : List Event) :
    (w.handleAll es).2.memo.misses = w.textChanges es ∧ Thrifty (w.handleAll es).2 := by
  obtain rfl := Window.eq_ofConfig_of_create h
  have hw : Fresh c (.ofConfig c) := .ofConfig c
  have hcount := hw.misses_handleAll es
  have hstart : (Window.ofConfig c).memo.misses = 0 := rfl
  rw [hstart, Nat.zero_add] at hcount
  exact ⟨hcount, (hw.handleAll es).thrifty⟩

/-- a character, a key without an effect, a measurement, and two commits -/
theorem thrifty_handleAll_default :
    ∃ w : Window, Window.create .default = .ok w ∧
      (w.handleAll [.key (.bare (.char 'a')), .key (.bare .left), .height (.ofNat 48),
        .key (.bare .enter), .key (.bare .enter)]).2.memo.misses = 2 := by
  have hc : Window.create .default = .ok (.ofConfig .default) := rfl
  refine ⟨.ofConfig .default, hc, ?_⟩
  rw [(thrifty_handleAll hc _).1]
  decide

end LineEditor
