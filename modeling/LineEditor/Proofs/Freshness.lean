import LineEditor.Window

/-!
# What is derived is never stale

The segments of the current line and the number of rows are kept beside the buffer, and not every
event renews them.  They belong to the buffer all the same, after every row of events.

* `Buffer.press`           what a key does to the buffer alone;
* `Buffer.Sound`           the kept size is right, every line fits and is highlighted;
* `Fresh`                  the invariant of the window, kept by every event (`Fresh.handle`);
* `upToDate_handleAll`     what holds of a window that was opened and then used.
-/

namespace LineEditor

/-- a text without control characters -/
def IsPlain (s : Text) : Prop := ∀ c ∈ s, isControl c = false

theorem KeyPress.isControl_of_typed? {p : KeyPress} {c : Char} (h : p.typed? = some c) :
    isControl c = false := by
  unfold typed? at h
  split at h
  · split at h
    · cases h
    · rename_i hc
      cases h
      simp only [Bool.or_eq_true, not_or, Bool.not_eq_true] at hc
      exact hc.1
  · cases h

namespace Line

/-- the line that a text becomes when it is committed -/
def typed (v : Vocabulary) (s : Text) : Line := ⟨highlight v s, .user⟩

theorem text_typed (v : Vocabulary) (s : Text) : (typed v s).text = s := textOf_highlight v s

/-- a committed line: a plain text of at most `limit` characters, highlighted -/
structure Sound (v : Vocabulary) (limit : Nat) (l : Line) : Prop where
  eq : l = typed v l.text
  length_le : l.text.length ≤ limit
  plain : IsPlain l.text

theorem sound_typed {v : Vocabulary} {limit : Nat} {s : Text} (hl : s.length ≤ limit)
    (hs : IsPlain s) : (typed v s).Sound v limit := by
  have ht : (typed v s).text = s := text_typed v s
  exact ⟨by rw [ht], by rwa [ht], by rwa [ht]⟩

/-- sound lines are known by their texts -/
theorem map_typed_text {v : Vocabulary} {limit : Nat} {ls : List Line}
    (h : ∀ l ∈ ls, l.Sound v limit) : (ls.map text).map (typed v) = ls := by
  rw [List.map_map]
  exact List.map_congr_left (fun l hl => (h l hl).eq.symm) |>.trans (List.map_id ls)

end Line

/-! ## The buffer -/

namespace Buffer

/-- the buffer after a key, and what the key did; a line is committed in its own highlighting -/
def press (v : Vocabulary) (b : Buffer) (p : KeyPress) : Change × Buffer :=
  match p.key with
  | .tab => b.indent
  | .enter => b.commit (highlight v b.current)
  | .backspace => b.deleteBackward
  | _ =>
    match p.typed? with
    | some c => b.push c
    | none => (.nothing, b)

/-- the kept size is right and within the limit, and all texts are plain -/
structure Sound (v : Vocabulary) (b : Buffer) : Prop where
  size_eq : b.size = b.current.length
  size_le : b.size ≤ b.limit
  plain : IsPlain b.current
  committed : ∀ l ∈ b.committed, l.Sound v b.limit

section
variable {v : Vocabulary} {b : Buffer}

theorem sound_start (v : Vocabulary) (prologue : List Line) (shown limit : Nat) :
    (start prologue shown limit).Sound v :=
  ⟨rfl, Nat.zero_le limit, fun _ h => absurd h List.not_mem_nil,
    fun _ h => absurd h List.not_mem_nil⟩

theorem Sound.type (h : b.Sound v) {s : Text} (hs : IsPlain s) : (b.type s).2.Sound v := by
  unfold Buffer.type
  split
  · rename_i hfit
    refine ⟨?_, hfit, ?_, h.committed⟩
    · show b.size + s.length = (b.current ++ s).length
      rw [List.length_append, h.size_eq]
    · intro c hc
      rcases List.mem_append.mp hc with hc | hc
      · exact h.plain c hc
      · exact hs c hc
  · exact h

theorem Sound.commit (h : b.Sound v) : (b.commit (highlight v b.current)).2.Sound v := by
  refine ⟨rfl, Nat.zero_le b.limit, fun _ hc => absurd hc List.not_mem_nil, ?_⟩
  intro l hl
  rcases List.mem_append.mp hl with hl | hl
  · exact h.committed l hl
  · rw [List.mem_singleton.mp hl]
    exact Line.sound_typed (h.size_eq ▸ h.size_le) h.plain

theorem Sound.deleteBackward (h : b.Sound v) : b.deleteBackward.2.Sound v := by
  unfold Buffer.deleteBackward
  split
  · refine ⟨?_, Nat.le_trans (Nat.sub_le b.size 1) h.size_le, ?_, h.committed⟩
    · show b.size - 1 = b.current.dropLast.length
      rw [List.length_dropLast, h.size_eq]
    · exact fun c hc => h.plain c (List.dropLast_subset b.current hc)
  · cases e : b.committed.getLast? with
    | none => exact h
    | some l =>
      have hl : l.Sound v b.limit := h.committed l (List.mem_of_getLast? e)
      exact ⟨rfl, hl.length_le, hl.plain, fun k hk => h.committed k (List.dropLast_subset b.committed hk)⟩

theorem isPlain_indentUnit : IsPlain indentUnit := by
  intro c hc
  have hc' : c = ' ' := by
    rcases List.mem_cons.mp hc with h | h
    · exact h
    · exact List.mem_singleton.mp h
  rw [hc']
  rfl

/-- a key types a plain text, commits, deletes, or does nothing -/
theorem press_cases {P : Change × Buffer → Prop} (p : KeyPress)
    (htype : ∀ s, IsPlain s → P (b.type s)) (hcommit : P (b.commit (highlight v b.current)))
    (hdelete : P b.deleteBackward) (hnone : P (.nothing, b)) : P (b.press v p) := by
  unfold press
  split
  · exact htype indentUnit isPlain_indentUnit
  · exact hcommit
  · exact hdelete
  · split
    · rename_i c hc
      refine htype [c] fun d hd => ?_
      rw [List.mem_singleton.mp hd]
      exact KeyPress.isControl_of_typed? hc
    · exact hnone

theorem Sound.press (h : b.Sound v) (p : KeyPress) : (b.press v p).2.Sound v :=
  press_cases (P := fun e => e.2.Sound v) p (fun _ hs => h.type hs) h.commit h.deleteBackward h

theorem limit_press (v : Vocabulary) (b : Buffer) (p : KeyPress) :
    (b.press v p).2.limit = b.limit :=
  press_cases (P := fun e => e.2.limit = b.limit) p (fun s _ => limit_type b s)
    (limit_commit b _) (limit_deleteBackward b) rfl

theorem prologue_press (v : Vocabulary) (b : Buffer) (p : KeyPress) :
    (b.press v p).2.prologue = b.prologue :=
  press_cases (P := fun e => e.2.prologue = b.prologue) p (fun s _ => prologue_type b s)
    (prologue_commit b _) (prologue_deleteBackward b) rfl

theorem type_of_isNothing {s : Text} (h : (b.type s).1.isNothing = true) : (b.type s).2 = b := by
  unfold type at h ⊢
  split
  · rename_i hfit
    rw [if_pos hfit] at h
    cases h
  · rfl

theorem deleteBackward_of_isNothing (h : b.deleteBackward.1.isNothing = true) :
    b.deleteBackward.2 = b := by
  unfold deleteBackward at h ⊢
  split
  · rename_i hne
    rw [if_pos hne] at h
    cases h
  · rename_i hne
    rw [if_neg hne] at h
    cases e : b.committed.getLast? with
    | none => rfl
    | some l =>
      rw [e] at h
      cases h

/-- a key without an effect leaves the buffer as it is -/
theorem press_of_isNothing (p : KeyPress) :
    (b.press v p).1.isNothing = true → (b.press v p).2 = b :=
  press_cases (P := fun e => e.1.isNothing = true → e.2 = b) p (fun _ _ h => type_of_isNothing h)
    (fun h => by cases h) deleteBackward_of_isNothing fun _ => rfl

end

end Buffer

/-! ## The window -/

theorem highlight_nil (v : Vocabulary) : highlight v [] = [] := by
  rw [highlight, Token.tokens, Token.lexemes_nil]
  rfl

namespace RowMetrics

/-- lines that fit on a row count as one row each -/
theorem rowsOfLines_eq_length {m : RowMetrics} {ls : List Line}
    (h : ∀ l ∈ ls, m.rowsOfSize l.size = 1) : m.rowsOfLines ls = ls.length := by
  induction ls with
  | nil => rfl
  | cons l ls ih =>
    rw [rowsOfLines_cons, h l List.mem_cons_self, ih fun k hk => h k (List.mem_cons_of_mem l hk),
      List.length_cons, Nat.add_comm]

end RowMetrics

/-- the derived parts of a window belong to its buffer, and what is fixed comes from `c` -/
structure Fresh (c : Config) (w : Window) : Prop where
  vocabulary : w.vocabulary = c.vocabulary
  metrics : w.metrics = .ofWidth c.rowHeight c.maxLineLength
  limit : w.buffer.limit = c.maxLineLength
  prologue : w.buffer.prologue = (c.prologue.map fun l => ⟨l, .prologue⟩).take c.prologueShown
  sound : w.buffer.Sound c.vocabulary
  text : w.memo.text = w.buffer.current
  segments : w.memo.segments = highlight c.vocabulary w.buffer.current
  rowCount : w.rowCount =
    w.metrics.totalRows w.buffer.prologue.length w.buffer.committed w.height

namespace Fresh
variable {c : Config} {w : Window}

theorem ofConfig (c : Config) : Fresh c (.ofConfig c) where
  vocabulary := rfl
  metrics := rfl
  limit := rfl
  prologue := rfl
  sound := Buffer.sound_start _ _ _ _
  text := rfl
  segments := (highlight_nil c.vocabulary).symm
  rowCount := rfl

theorem segments_update (h : Fresh c w) (s : Text) :
    (w.memo.update w.vocabulary s).segments = highlight c.vocabulary s := by
  unfold Memo.update
  split
  · rename_i hs
    rw [h.segments, ← h.text, hs]
  · rw [h.vocabulary]

/-- an edit that keeps the limit and the prologue, and that does nothing where it says so, leaves
the window fresh -/
theorem settle (h : Fresh c w) {edit : Change × Buffer} (hs : edit.2.Sound c.vocabulary)
    (hl : edit.2.limit = w.buffer.limit) (hp : edit.2.prologue = w.buffer.prologue)
    (hn : edit.1.isNothing = true → edit.2 = w.buffer) : Fresh c (w.settle edit).2 := by
  unfold Window.settle
  split
  · rename_i hedit
    rw [hn hedit]
    exact h
  · exact
      { vocabulary := h.vocabulary
        metrics := h.metrics
        limit := hl.trans h.limit
        prologue := hp.trans h.prologue
        sound := hs
        text := Memo.text_update _ _ _
        segments := h.segments_update _
        rowCount := rfl }

/-- a key does to the window what it does to the buffer alone -/
theorem press_eq (h : Fresh c w) (p : KeyPress) :
    w.press p = w.settle (w.buffer.press c.vocabulary p) := by
  have hmemo : w.memo.update w.vocabulary w.buffer.current = w.memo :=
    Memo.update_of_text_eq w.vocabulary h.text
  obtain ⟨key, m⟩ := p
  cases key with
  | tab => rfl
  | enter =>
    show w.commit = _
    rw [Window.commit, hmemo, h.segments]
    rfl
  | backspace => rfl
  | char d =>
    simp only [Window.press, Buffer.press]
    cases KeyPress.typed? ⟨.char d, m⟩ with
    | none => rfl
    | some c => rfl
  | _ => rfl

theorem press (h : Fresh c w) (p : KeyPress) : Fresh c (w.press p).2 := by
  rw [h.press_eq p]
  exact h.settle (h.sound.press p) (Buffer.limit_press _ _ p) (Buffer.prologue_press _ _ p)
    (Buffer.press_of_isNothing p)

theorem measure (h : Fresh c w) (px : Single) : Fresh c (w.measure px).2 :=
  { h with rowCount := rfl }

theorem handle (h : Fresh c w) (e : Event) : Fresh c (w.handle e).2 := by
  cases e with
  | key p => exact h.press p
  | height px => exact h.measure px

theorem handleAll (h : Fresh c w) (es : List Event) : Fresh c (w.handleAll es).2 := by
  induction es generalizing w with
  | nil => exact h
  | cons e es ih => exact ih (h.handle e)

theorem buffer_press (h : Fresh c w) (p : KeyPress) :
    (w.press p).2.buffer = (w.buffer.press c.vocabulary p).2 := by
  rw [h.press_eq p, Window.settle]
  split
  · rfl
  · rfl

theorem height_press (h : Fresh c w) (p : KeyPress) : (w.press p).2.height = w.height := by
  rw [h.press_eq p, Window.settle]
  split
  · rfl
  · rfl

theorem one_row (h : Fresh c w) {l : Line} (hl : l ∈ w.buffer.committed) :
    w.metrics.rowsOfSize l.size = 1 := by
  have hlen : l.text.length ≤ c.maxLineLength := h.limit ▸ (h.sound.committed l hl).length_le
  have hcol : w.metrics.columns = max 1 c.maxLineLength := by
    rw [h.metrics]
    rfl
  refine w.metrics.rowsOfSize_of_le ?_
  rw [l.size_eq_length, hcol]
  omega

theorem rowCount_eq (h : Fresh c w) :
    w.rowCount = min c.prologueShown c.prologue.length + w.buffer.committed.length +
      (RowMetrics.ofWidth c.rowHeight c.maxLineLength).rowsOfHeight w.height := by
  rw [h.rowCount, RowMetrics.totalRows, RowMetrics.rowsOfLines_eq_length fun l hl => h.one_row hl,
    h.metrics, h.prologue, List.length_take, List.length_map]

/-- the page is a matter of the texts and of the height -/
theorem snapshot_congr (h : Fresh c w) {x : Window} (hx : Fresh c x)
    (hlines : w.buffer.committed.map Line.text = x.buffer.committed.map Line.text)
    (hcurrent : w.buffer.current = x.buffer.current) (hheight : w.height = x.height) :
    w.snapshot = x.snapshot := by
  have hcommitted : w.buffer.committed = x.buffer.committed := by
    rw [← Line.map_typed_text h.sound.committed, hlines, Line.map_typed_text hx.sound.committed]
  unfold Window.snapshot Buffer.lines
  rw [h.prologue, hx.prologue, hcommitted, hcurrent, h.segments, hx.segments, hcurrent,
    h.rowCount_eq, hx.rowCount_eq, hcommitted, hheight, h.limit, hx.limit]

end Fresh

/-! ## A window in use -/

/-- the height that was measured last, or `first` if none was -/
def lastHeight (first : Single) : List Event → Single
  | [] => first
  | .height px :: es => lastHeight px es
  | .key _ :: es => lastHeight first es

theorem Fresh.height_handleAll {c : Config} {w : Window} (h : Fresh c w) (es : List Event) :
    (w.handleAll es).2.height = lastHeight w.height es := by
  induction es generalizing w with
  | nil => rfl
  | cons e es ih =>
    refine (ih (h.handle e)).trans ?_
    cases e with
    | key p =>
      show lastHeight (w.press p).2.height es = lastHeight w.height es
      rw [h.height_press p]
    | height px => rfl

theorem Window.eq_ofConfig_of_create {c : Config} {w : Window} (h : create c = .ok w) :
    w = ofConfig c := by
  unfold create at h
  split at h
  · cases h
  · rename_i d hd
    rw [(Config.check_eq_ok_iff.mp hd).1]
    exact (Except.ok.inj h).symm

/-- what the derived parts of a window are, where `height` was measured last -/
structure UpToDate (c : Config) (height : Single) (w : Window) : Prop where
  current : w.memo.segments = highlight c.vocabulary w.buffer.current
  committed : ∀ l ∈ w.buffer.committed, l.segments = highlight c.vocabulary l.text
  /-- the line that would be committed now has the text of the current line -/
  spelled :
    (Line.mk (w.memo.update w.vocabulary w.buffer.current).segments .user).text = w.buffer.current
  plain_current : ∀ ch ∈ w.buffer.current, isControl ch = false
  plain_committed : ∀ l ∈ w.buffer.committed, ∀ ch ∈ l.text, isControl ch = false
  length_le : ∀ l ∈ w.buffer.committed, l.text.length ≤ c.maxLineLength
  one_row : ∀ l ∈ w.buffer.committed, w.metrics.rowsOfSize l.size = 1
  rowCount : w.rowCount = min c.prologueShown c.prologue.length + w.buffer.committed.length +
    (RowMetrics.ofWidth c.rowHeight c.maxLineLength).rowsOfHeight height

theorem Fresh.upToDate {c : Config} {w : Window} (h : Fresh c w) : UpToDate c w.height w where
  current := h.segments
  committed l hl := congrArg Line.segments (h.sound.committed l hl).eq
  spelled := by
    rw [h.segments_update]
    exact textOf_highlight c.vocabulary w.buffer.current
  plain_current := h.sound.plain
  plain_committed l hl := (h.sound.committed l hl).plain
  length_le l hl := h.limit ▸ (h.sound.committed l hl).length_le
  one_row _ hl := h.one_row hl
  rowCount := h.rowCount_eq

/-- **What is derived is never stale.**  After any events the segments and the rows of a window
belong to its texts and to the height measured last, so that two runs to the same texts and the
same height show the same page.  Sums of rows beyond the greatest count are left aside. -/
theorem upToDate_handleAll {c : Config} {w : Window} (h : Window.create c = .ok w)
    (es : List Event) :
    UpToDate c (lastHeight c.rowHeight es) (w.handleAll es).2 ∧
      ∀ fs : List Event,
        (w.handleAll es).2.buffer.committed.map Line.text
          = (w.handleAll fs).2.buffer.committed.map Line.text →
        (w.handleAll es).2.buffer.current = (w.handleAll fs).2.buffer.current →
        lastHeight c.rowHeight es = lastHeight c.rowHeight fs →
        (w.handleAll es).2.snapshot = (w.handleAll fs).2.snapshot := by
  obtain rfl := Window.eq_ofConfig_of_create h
  have hw : Fresh c (.ofConfig c) := .ofConfig c
  have hlast (gs : List Event) :
      ((Window.ofConfig c).handleAll gs).2.height = lastHeight c.rowHeight gs :=
    hw.height_handleAll gs
  constructor
  · rw [← hlast es]
    exact (hw.handleAll es).upToDate
  · intro fs hlines hcurrent hh
    refine (hw.handleAll es).snapshot_congr (hw.handleAll fs) hlines hcurrent ?_
    rw [hlast es, hlast fs, hh]

/-- a line typed at once, and typed after an indent was taken back -/
theorem upToDate_handleAll_default :
    ∃ w : Window, Window.create .default = .ok w ∧
      UpToDate .default (.ofNat 30)
        (w.handleAll [.height (.ofNat 30), .key (.bare (.char 'a')), .key (.bare .enter)]).2 ∧
      (w.handleAll [.height (.ofNat 30), .key (.bare (.char 'a')), .key (.bare .enter)]).2.snapshot
        = (w.handleAll [.key (.bare .tab), .key (.bare .backspace), .key (.bare .backspace),
            .key (.bare (.char 'a')), .key (.bare .enter), .height (.ofNat 30)]).2.snapshot := by
  have hc : Window.create .default = .ok (.ofConfig .default) := rfl
  have h := upToDate_handleAll hc
    [.height (.ofNat 30), .key (.bare (.char 'a')), .key (.bare .enter)]
  exact ⟨.ofConfig .default, hc, h.1, h.2 _ (by decide +kernel) (by decide) rfl⟩

end LineEditor
