import LineEditor.Buffer
import Mathlib.Data.List.Basic

/-!
# The laws of the buffer

A line is committed in the form of any segments that cover it, so the buffer must not rely on one
way to cut a line.  Whatever the ways are, and whatever was done before,

* the kept size is that of the current line, and no line outgrows the limit (`Bounded`);
* deleting takes back a character, an indent and a commit (`deleteBackward_push`,
  `deleteBackward_indent`, `deleteBackward_commit`);
* an edit reports what it did (`reports_edit`).
-/

namespace LineEditor

/-- a way to cut a text into segments that cover it -/
structure Splitter where
  split : Text → List Segment
  textOf_split : ∀ s, textOf (split s) = s

inductive Edit
  | push (c : Char)
  | indent
  | delete
  /-- the line is committed in the segments of its own way to cut it -/
  | commit (way : Splitter)

namespace Buffer

/-! ## Edits -/

def edit (b : Buffer) : Edit → Change × Buffer
  | .push c => b.push c
  | .indent => b.indent
  | .delete => b.deleteBackward
  | .commit way => b.commit (way.split b.current)

def editAll (b : Buffer) (es : List Edit) : Buffer := es.foldl (fun b e => (b.edit e).2) b

section
variable {b : Buffer}

theorem type_of_fits {s : Text} (h : b.size + s.length ≤ b.limit) :
    b.type s = (.current, { b with current := b.current ++ s, size := b.size + s.length }) :=
  if_pos h

theorem type_of_not_fits {s : Text} (h : ¬ b.size + s.length ≤ b.limit) :
    b.type s = (.nothing, b) :=
  if_neg h

theorem deleteBackward_of_concat {s : Text} {c : Char} (h : b.current = s ++ [c]) :
    b.deleteBackward = (.current, { b with current := s, size := b.size - 1 }) := by
  have hne : b.current ≠ [] := h ▸ List.append_ne_nil_of_right_ne_nil s (List.cons_ne_nil c [])
  rw [deleteBackward, if_pos hne, h, List.dropLast_concat]

theorem deleteBackward_of_nil {ls : List Line} {l : Line} (h : b.current = [])
    (hl : b.committed = ls ++ [l]) :
    b.deleteBackward =
      (.mergedUp, { b with committed := ls, current := l.text, size := l.text.length }) := by
  rw [deleteBackward, if_neg (not_not.mpr h), hl, List.getLast?_concat, List.dropLast_concat]

theorem deleteBackward_of_empty (h : b.current = []) (hl : b.committed = []) :
    b.deleteBackward = (.nothing, b) := by
  rw [deleteBackward, if_neg (not_not.mpr h), hl, List.getLast?_nil]

/-! ## Bounds -/

/-- the kept size is right, and no line outgrows the limit -/
structure Bounded (b : Buffer) : Prop where
  size_eq : b.size = b.current.length
  size_le : b.size ≤ b.limit
  committed_le : ∀ l ∈ b.committed, l.text.length ≤ b.limit

theorem bounded_start (prologue : List Line) (shown limit : Nat) :
    (start prologue shown limit).Bounded :=
  ⟨rfl, Nat.zero_le limit, fun _ h => absurd h List.not_mem_nil⟩

theorem Bounded.type (h : b.Bounded) (s : Text) : (b.type s).2.Bounded := by
  by_cases hfit : b.size + s.length ≤ b.limit
  · rw [type_of_fits hfit]
    refine ⟨?_, hfit, h.committed_le⟩
    show b.size + s.length = (b.current ++ s).length
    rw [List.length_append, h.size_eq]
  · rw [type_of_not_fits hfit]
    exact h

theorem Bounded.commit (h : b.Bounded) {segments : List Segment}
    (hs : textOf segments = b.current) : (b.commit segments).2.Bounded := by
  refine ⟨rfl, Nat.zero_le b.limit, fun l hl => ?_⟩
  rcases List.mem_append.mp hl with hl | hl
  · exact h.committed_le l hl
  · rw [List.mem_singleton.mp hl]
    show (textOf segments).length ≤ b.limit
    rw [hs, ← h.size_eq]
    exact h.size_le

theorem Bounded.deleteBackward (h : b.Bounded) : b.deleteBackward.2.Bounded := by
  rcases List.eq_nil_or_concat' b.current with hc | ⟨s, c, hc⟩
  · rcases List.eq_nil_or_concat' b.committed with hl | ⟨ls, l, hl⟩
    · rw [deleteBackward_of_empty hc hl]
      exact h
    · rw [deleteBackward_of_nil hc hl]
      have hle : ∀ k ∈ ls ++ [l], k.text.length ≤ b.limit := hl ▸ h.committed_le
      exact ⟨rfl, hle l List.mem_concat_self, fun k hk => hle k (List.mem_append_left _ hk)⟩
  · rw [deleteBackward_of_concat hc]
    refine ⟨?_, Nat.le_trans (Nat.sub_le b.size 1) h.size_le, h.committed_le⟩
    show b.size - 1 = s.length
    rw [h.size_eq, hc, List.length_append]
    rfl

theorem Bounded.edit (h : b.Bounded) (e : Edit) : (b.edit e).2.Bounded := by
  cases e with
  | push c => exact h.type [c]
  | indent => exact h.type indentUnit
  | delete => exact h.deleteBackward
  | commit way => exact h.commit (way.textOf_split b.current)

theorem limit_edit (b : Buffer) (e : Edit) : (b.edit e).2.limit = b.limit := by
  cases e with
  | push c => exact limit_type b [c]
  | indent => exact limit_type b indentUnit
  | delete => exact limit_deleteBackward b
  | commit way => rfl

theorem prologue_edit (b : Buffer) (e : Edit) : (b.edit e).2.prologue = b.prologue := by
  cases e with
  | push c => exact prologue_type b [c]
  | indent => exact prologue_type b indentUnit
  | delete => exact prologue_deleteBackward b
  | commit way => rfl

/-! ## Deleting takes back -/

theorem deleteBackward_push {c : Char} (h : (b.push c).1 = .current) :
    (b.push c).2.deleteBackward.2 = b := by
  unfold push at h ⊢
  by_cases hfit : b.size + [c].length ≤ b.limit
  · rw [type_of_fits hfit, deleteBackward_of_concat rfl]
    rfl
  · rw [type_of_not_fits hfit] at h
    cases h

theorem deleteBackward_indent (h : b.indent.1 = .current) :
    b.indent.2.deleteBackward.2.deleteBackward.2 = b := by
  unfold indent at h ⊢
  by_cases hfit : b.size + indentUnit.length ≤ b.limit
  · have hunit : b.current ++ indentUnit = (b.current ++ [' ']) ++ [' '] :=
      (List.append_assoc b.current [' '] [' ']).symm
    have hone : (b.type indentUnit).2.deleteBackward =
        (.current, { b with current := b.current ++ [' '], size := b.size + 1 }) := by
      rw [type_of_fits hfit]
      exact deleteBackward_of_concat hunit
    rw [hone, deleteBackward_of_concat rfl]
    rfl
  · rw [type_of_not_fits hfit] at h
    cases h

theorem deleteBackward_commit (h : b.Bounded) {segments : List Segment}
    (hs : textOf segments = b.current) : (b.commit segments).2.deleteBackward.2 = b := by
  have htext : Line.text ⟨segments, .user⟩ = b.current := hs
  unfold commit
  rw [deleteBackward_of_nil rfl rfl, htext, ← h.size_eq]

/-! ## Edits report what they did -/

/-- an edit from `b` reports what it did -/
structure Reports (b : Buffer) (edit : Change × Buffer) : Prop where
  nothing_iff : edit.1 = .nothing ↔ edit.2 = b
  /-- only the text of the current line is another, with its size -/
  current_iff : edit.1 = .current ↔ edit.2.current ≠ b.current ∧
    edit.2 = { b with current := edit.2.current, size := edit.2.size }
  committed_iff : edit.1 = .committed ↔ ∃ l, edit.2.committed = b.committed ++ [l]
  mergedUp_iff : edit.1 = .mergedUp ↔ ∃ l, b.committed = edit.2.committed ++ [l]

theorem ne_concat {α : Type} (as : List α) (a : α) : as ≠ as ++ [a] := fun h =>
  absurd (List.self_eq_append_right.mp h) (List.cons_ne_nil a [])

theorem reports_nothing (b : Buffer) : Reports b (.nothing, b) where
  nothing_iff := iff_of_true rfl rfl
  current_iff := iff_of_false nofun fun h => h.1 rfl
  committed_iff := iff_of_false nofun fun ⟨l, h⟩ => ne_concat _ l h
  mergedUp_iff := iff_of_false nofun fun ⟨l, h⟩ => ne_concat _ l h

theorem reports_current {s : Text} (n : Nat) (h : s ≠ b.current) :
    Reports b (.current, { b with current := s, size := n }) where
  nothing_iff := iff_of_false nofun fun e => h (congrArg Buffer.current e)
  current_iff := iff_of_true rfl ⟨h, rfl⟩
  committed_iff := iff_of_false nofun fun ⟨l, e⟩ => ne_concat _ l e
  mergedUp_iff := iff_of_false nofun fun ⟨l, e⟩ => ne_concat _ l e

theorem reports_commit (b : Buffer) (segments : List Segment) :
    Reports b (b.commit segments) := by
  have hne : b.committed ++ [⟨segments, .user⟩] ≠ b.committed := (ne_concat _ _).symm
  refine ⟨iff_of_false nofun fun e => hne (congrArg Buffer.committed e),
    iff_of_false nofun fun e => hne (congrArg Buffer.committed e.2),
    iff_of_true rfl ⟨_, rfl⟩, iff_of_false nofun fun ⟨l, e⟩ => ?_⟩
  replace e : b.committed = b.committed ++ [_] ++ [l] := e
  rw [List.append_assoc] at e
  exact absurd (List.self_eq_append_right.mp e) (List.cons_ne_nil _ _)

theorem reports_deleteBackward (b : Buffer) : Reports b b.deleteBackward := by
  rcases List.eq_nil_or_concat' b.current with hc | ⟨s, c, hc⟩
  · rcases List.eq_nil_or_concat' b.committed with hl | ⟨ls, l, hl⟩
    · rw [deleteBackward_of_empty hc hl]
      exact reports_nothing b
    · rw [deleteBackward_of_nil hc hl]
      have hne : ls ≠ b.committed := hl ▸ ne_concat ls l
      refine ⟨iff_of_false nofun fun e => hne (congrArg Buffer.committed e),
        iff_of_false nofun fun e => hne (congrArg Buffer.committed e.2),
        iff_of_false nofun fun ⟨k, e⟩ => ?_, iff_of_true rfl ⟨l, hl⟩⟩
      replace e : ls = b.committed ++ [k] := e
      rw [hl, List.append_assoc] at e
      exact absurd (List.self_eq_append_right.mp e) (List.cons_ne_nil _ _)
  · rw [deleteBackward_of_concat hc]
    exact reports_current _ (hc ▸ ne_concat s c)

theorem reports_type (b : Buffer) {s : Text} (hs : s ≠ []) : Reports b (b.type s) := by
  by_cases hfit : b.size + s.length ≤ b.limit
  · rw [type_of_fits hfit]
    exact reports_current _ fun e => hs (List.self_eq_append_right.mp e.symm)
  · rw [type_of_not_fits hfit]
    exact reports_nothing b

theorem reports_edit (b : Buffer) (e : Edit) : Reports b (b.edit e) := by
  cases e with
  | push c => exact reports_type b (List.cons_ne_nil c [])
  | indent => exact reports_type b (List.cons_ne_nil ' ' [' '])
  | delete => exact reports_deleteBackward b
  | commit way => exact reports_commit b _

/-! ## A buffer in use -/

/-- what holds of a buffer that was started with `prologue`, `shown` and `limit` -/
structure Lawful (prologue : List Line) (shown limit : Nat) (b : Buffer) : Prop where
  size_eq : b.size = b.current.length
  size_le : b.size ≤ limit
  committed_le : ∀ l ∈ b.committed, l.size ≤ limit
  prologue_eq : b.prologue = prologue.take (min shown prologue.length)
  push_back : ∀ c, (b.edit (.push c)).1 = .current →
    ((b.edit (.push c)).2.edit .delete).2 = b
  indent_back : (b.edit .indent).1 = .current →
    (((b.edit .indent).2.edit .delete).2.edit .delete).2 = b
  commit_back : ∀ way, ((b.edit (.commit way)).2.edit .delete).2 = b
  reports : ∀ e, Reports b (b.edit e)

end

/-- what no edit changes, no row of edits changes -/
theorem editAll_keeps {P : Buffer → Prop} (hstep : ∀ b e, P b → P (b.edit e).2) {b : Buffer}
    (h : P b) (es : List Edit) : P (b.editAll es) := by
  induction es generalizing b with
  | nil => exact h
  | cons e es ih => exact ih (hstep b e h)

/-- **The laws of the buffer.**  After any edits, each line committed in segments of its own kind,
the sizes are right and within the limit, the prologue is the one given, deleting takes back what
was typed or committed last, and every edit reports what it did. -/
theorem lawful_editAll (prologue : List Line) (shown limit : Nat) (es : List Edit) :
    ((start prologue shown limit).editAll es).Lawful prologue shown limit := by
  have hb : ((start prologue shown limit).editAll es).Bounded :=
    editAll_keeps (fun _ e h => h.edit e) (bounded_start prologue shown limit) es
  have hlimit : ((start prologue shown limit).editAll es).limit = limit :=
    editAll_keeps (P := fun b => b.limit = limit) (fun b e h => (limit_edit b e).trans h) rfl es
  have hprologue : ((start prologue shown limit).editAll es).prologue = prologue.take shown :=
    editAll_keeps (P := fun b => b.prologue = prologue.take shown)
      (fun b e h => (prologue_edit b e).trans h) rfl es
  exact
    { size_eq := hb.size_eq
      size_le := Nat.le_trans hb.size_le (Nat.le_of_eq hlimit)
      committed_le := fun l hl => by
        rw [l.size_eq_length]
        exact Nat.le_trans (hb.committed_le l hl) (Nat.le_of_eq hlimit)
      prologue_eq := by rw [hprologue, ← List.take_eq_take_min]
      push_back := fun _ => deleteBackward_push
      indent_back := deleteBackward_indent
      commit_back := fun way => deleteBackward_commit hb (way.textOf_split _)
      reports := reports_edit _ }

end Buffer

end LineEditor
