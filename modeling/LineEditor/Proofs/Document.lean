import LineEditor.Proofs.Freshness
import Mathlib.Data.List.Basic
import Mathlib.Data.List.Induction

/-!
# The editor holds a document

A document is one row of characters and line breaks, written and erased at its end.  The finished
lines and the current line of an editor are the parts of such a document, after every row of
events.

* `Document.apply`         what an event does to a document;
* `Buffer.document_press`  a key does the same to the lines of a buffer;
* `holds_handleAll`        the lines of a window that was opened and then used.
-/

namespace LineEditor

/-- a character or a line break -/
inductive Symbol
  | char (c : Char)
  | lineBreak
deriving DecidableEq

abbrev Document := List Symbol

namespace Document

/-! ## Documents -/

/-- the texts before the breaks and the text behind the last one, with one more symbol -/
def extend (p : List Text × Text) : Symbol → List Text × Text
  | .char c => (p.1, p.2 ++ [c])
  | .lineBreak => (p.1 ++ [p.2], [])

def parts (d : Document) : List Text × Text := d.foldl extend ([], [])

/-- the text before each break, since the break before it -/
def lines (d : Document) : List Text := (parts d).1

/-- the text behind the last break -/
def last (d : Document) : Text := (parts d).2

/-- the document of some lines, each with a break behind it, and a text behind them -/
def ofLines (ls : List Text) (s : Text) : Document :=
  (ls.flatMap fun l => l.map .char ++ [.lineBreak]) ++ s.map .char

/-- the document after an event, where a line holds at most `limit` characters -/
def apply (limit : Nat) (d : Document) : Event → Document
  | .key ⟨.enter, _⟩ => d ++ [.lineBreak]
  | .key ⟨.backspace, _⟩ => d.dropLast
  | .key ⟨.tab, _⟩ =>
    if (last (d ++ [.char ' ', .char ' '])).length ≤ limit then d ++ [.char ' ', .char ' '] else d
  | .key ⟨.char c, m⟩ =>
    if isControl c = false ∧ m.ctrl = false ∧ m.alt = false ∧ m.system = false ∧
        (last d).length < limit then
      d ++ [.char c]
    else d
  | _ => d

/-- the document that events leave, from the empty one on -/
def run (limit : Nat) (es : List Event) : Document := es.foldl (apply limit) []

section
variable (ls : List Text) (s : Text) (d : Document)

theorem parts_concat (x : Symbol) : parts (d ++ [x]) = extend (parts d) x := by
  rw [parts, List.foldl_append]
  rfl

theorem ofLines_append (t : Text) : ofLines ls (s ++ t) = ofLines ls s ++ t.map .char := by
  rw [ofLines, List.map_append, ← List.append_assoc]
  rfl

theorem ofLines_concat (c : Char) : ofLines ls (s ++ [c]) = ofLines ls s ++ [.char c] :=
  ofLines_append ls s [c]

theorem ofLines_break : ofLines (ls ++ [s]) [] = ofLines ls s ++ [.lineBreak] := by
  rw [ofLines, List.flatMap_append, List.flatMap_singleton, List.map_nil, List.append_nil,
    ← List.append_assoc]
  rfl

theorem parts_ofLines : parts (ofLines ls s) = (ls, s) := by
  have htext (ls : List Text) (h : parts (ofLines ls []) = (ls, [])) (s : Text) :
      parts (ofLines ls s) = (ls, s) := by
    induction s using List.reverseRecOn with
    | nil => exact h
    | append_singleton s c ih =>
      rw [ofLines_concat, parts_concat, ih]
      rfl
  refine htext ls ?_ s
  induction ls using List.reverseRecOn with
  | nil => rfl
  | append_singleton ls l ih =>
    rw [ofLines_break, parts_concat, htext ls ih]
    rfl

theorem length_lines : (lines d).length = d.count .lineBreak := by
  induction d using List.reverseRecOn with
  | nil => rfl
  | append_singleton d x ih =>
    rw [lines, parts_concat, List.count_append, ← ih]
    cases x with
    | char c => rfl
    | lineBreak => exact List.length_append

end

end Document

/-! ## The buffer -/

theorem KeyPress.typed?_char (c : Char) (m : Modifiers) :
    typed? ⟨.char c, m⟩ =
      if isControl c = false ∧ m.ctrl = false ∧ m.alt = false ∧ m.system = false then some c
      else none := by
  show (if (isControl c || (m.ctrl || m.alt || m.system)) = true then none else some c) = _
  cases isControl c <;> cases m.ctrl <;> cases m.alt <;> cases m.system <;> rfl

namespace Buffer
open Document

/-- the document of all lines that the user typed -/
def document (b : Buffer) : Document := ofLines (b.committed.map Line.text) b.current

section
variable {v : Vocabulary} {b : Buffer}

theorem last_document (b : Buffer) : last b.document = b.current := by
  rw [last, document, parts_ofLines]

theorem document_type (h : b.Sound v) (s : Text) :
    (b.type s).2.document
      = if b.current.length + s.length ≤ b.limit then b.document ++ s.map .char else b.document := by
  unfold type
  rw [h.size_eq]
  split
  · show ofLines _ (b.current ++ s) = ofLines _ b.current ++ s.map .char
    rw [ofLines_append]
  · rfl

theorem document_commit (v : Vocabulary) (b : Buffer) :
    (b.commit (highlight v b.current)).2.document = b.document ++ [.lineBreak] := by
  show ofLines ((b.committed ++ [Line.typed v b.current]).map Line.text) [] = _
  rw [List.map_append, List.map_singleton, Line.text_typed, ofLines_break]
  rfl

theorem document_deleteBackward (b : Buffer) :
    b.deleteBackward.2.document = b.document.dropLast := by
  unfold deleteBackward document
  split
  · rename_i hne
    obtain ⟨s, c, hs⟩ := (List.eq_nil_or_concat' b.current).resolve_left hne
    show ofLines _ b.current.dropLast = _
    rw [hs, ofLines_concat, List.dropLast_concat, List.dropLast_concat]
  · rename_i hne
    have hnil : b.current = [] := Decidable.not_not.mp hne
    rcases List.eq_nil_or_concat' b.committed with hc | ⟨ls, l, hc⟩
    · simp only [hc, hnil, List.getLast?_nil]
      rfl
    · simp only [hc, hnil, List.getLast?_concat, List.dropLast_concat]
      rw [List.map_append, List.map_singleton, ofLines_break, List.dropLast_concat]

/-- a key edits the document -/
theorem document_press (h : b.Sound v) (p : KeyPress) :
    (b.press v p).2.document = apply b.limit b.document (.key p) := by
  obtain ⟨key, m⟩ := p
  cases key with
  | enter => exact document_commit v b
  | backspace => exact document_deleteBackward b
  | tab =>
    have hlast : last (b.document ++ [.char ' ', .char ' ']) = b.current ++ indentUnit := by
      show last (b.document ++ indentUnit.map .char) = _
      rw [document, ← ofLines_append, last, parts_ofLines]
    show (b.type indentUnit).2.document = if _ then _ else _
    rw [document_type h, hlast, List.length_append]
    rfl
  | char c =>
    show _ = if _ then _ else _
    rw [last_document]
    by_cases ht : isControl c = false ∧ m.ctrl = false ∧ m.alt = false ∧ m.system = false
    · have hpress : b.press v ⟨.char c, m⟩ = b.type [c] := by
        simp only [press, KeyPress.typed?_char, if_pos ht, push]
      rw [hpress, document_type h]
      exact if_congr ⟨fun hl => ⟨ht.1, ht.2.1, ht.2.2.1, ht.2.2.2, hl⟩, fun hn => hn.2.2.2.2⟩ rfl rfl
    · have hpress : b.press v ⟨.char c, m⟩ = (.nothing, b) := by
        simp only [press, KeyPress.typed?_char, if_neg ht]
      rw [hpress, if_neg fun hn => ht ⟨hn.1, hn.2.1, hn.2.2.1, hn.2.2.2.1⟩]
  | _ => rfl

end

end Buffer

/-! ## A window in use -/

/-- the lines of a buffer are the lines of a document -/
structure Buffer.Holds (b : Buffer) (d : Document) : Prop where
  committed : b.committed.map Line.text = d.lines
  current : b.current = d.last
  breaks : b.committed.length = d.count .lineBreak
  size : b.size = d.last.length
  /-- so that nothing of the document is lost -/
  document : Document.ofLines (b.committed.map Line.text) b.current = d

theorem Buffer.Sound.holds {v : Vocabulary} {b : Buffer} (h : b.Sound v) : b.Holds b.document where
  committed := by rw [Document.lines, Buffer.document, Document.parts_ofLines]
  current := b.last_document.symm
  breaks := by
    rw [← Document.length_lines, Document.lines, Buffer.document, Document.parts_ofLines,
      List.length_map]
  size := by rw [b.last_document, h.size_eq]
  document := rfl

theorem Fresh.document_handle {c : Config} {w : Window} (h : Fresh c w) (e : Event) :
    (w.handle e).2.buffer.document = w.buffer.document.apply c.maxLineLength e := by
  cases e with
  | key p =>
    show (w.press p).2.buffer.document = _
    rw [h.buffer_press p, Buffer.document_press h.sound p, h.limit]
  | height px => rfl

theorem Fresh.document_handleAll {c : Config} {w : Window} (h : Fresh c w) (es : List Event) :
    (w.handleAll es).2.buffer.document
      = es.foldl (Document.apply c.maxLineLength) w.buffer.document := by
  induction es generalizing w with
  | nil => rfl
  | cons e es ih =>
    refine (ih (h.handle e)).trans ?_
    rw [h.document_handle e, List.foldl_cons]

/-- **The editor holds a document.**  After any events the committed lines and the current line are
those of the document that the same events leave when it is a mere row of symbols. -/
theorem holds_handleAll {c : Config} {w : Window} (h : Window.create c = .ok w)
    (es : List Event) : (w.handleAll es).2.buffer.Holds (Document.run c.maxLineLength es) := by
  obtain rfl := Window.eq_ofConfig_of_create h
  have hw : Fresh c (.ofConfig c) := .ofConfig c
  have hdoc : ((Window.ofConfig c).handleAll es).2.buffer.document
      = Document.run c.maxLineLength es := hw.document_handleAll es
  rw [← hdoc]
  exact (hw.handleAll es).sound.holds

/-- a second line is begun, indented and erased again, with the break before it -/
theorem holds_handleAll_default :
    ∃ w : Window, Window.create .default = .ok w ∧
      (w.handleAll [.key (.bare (.char 'é')), .key ⟨.enter, ⟨true, false, false, false⟩⟩,
        .key (.bare .tab), .key (.bare .backspace), .key (.bare .backspace),
        .key (.bare .backspace)]).2.buffer.Holds [.char 'é'] := by
  have hc : Window.create .default = .ok (.ofConfig .default) := rfl
  exact ⟨.ofConfig .default, hc, holds_handleAll hc _⟩

end LineEditor
