import LineEditor.Arguments
import LineEditor.Json.Standard
import LineEditor.Proofs.Document
import LineEditor.Proofs.Estimates
import LineEditor.Proofs.Gutter
import Mathlib.Data.List.Forall2

/-!
# What the command prints

Each character of the input edits a document, and the command without colours prints the lines of
that document below the prologue: one row for each line, none for anything else.

* `Document.typed`      the document that a text leaves when it is typed;
* `typeAll_eq`          the reports of the observer come down to estimated heights;
* `run_prints_document` what a run prints;
* `run_misnumbers`      an input with more lines than the counter of the rows has numbers.
-/

namespace LineEditor

/-! ## Typed documents -/

namespace Document

/-- the document after a character of the input, where a line holds at most `limit` characters -/
def type (limit : Nat) (d : Document) (c : Char) : Document :=
  if c = '\n' then d ++ [.lineBreak]
  else if c = '\t' then
    if d.last.length + 2 ≤ limit then d ++ [.char ' ', .char ' '] else d
  else if c = '\x08' ∨ c = '\x7f' then d.dropLast
  else if isControl c then d
  else if d.last.length < limit then d ++ [.char c]
  else d

/-- the document that a text leaves, from the empty one on -/
def typed (limit : Nat) (s : Text) : Document := s.foldl (type limit) []

theorem last_indent (d : Document) :
    last (d ++ [.char ' ', .char ' ']) = d.last ++ [' ', ' '] := by
  have hsplit : d ++ [.char ' ', .char ' '] = d ++ [.char ' '] ++ [.char ' '] := by
    rw [List.append_assoc]
    rfl
  rw [last, hsplit, parts_concat, parts_concat]
  show (parts d).2 ++ [' '] ++ [' '] = (parts d).2 ++ [' ', ' ']
  rw [List.append_assoc]
  rfl

theorem type_of_keyOf?_eq_none {c : Char} (h : Command.keyOf? c = none) (limit : Nat)
    (d : Document) : d.type limit c = d := by
  unfold Command.keyOf? at h
  split_ifs at h with hn ht hd hr
  rw [hr]
  rfl

theorem type_of_keyOf?_eq_some {c : Char} {p : KeyPress} (h : Command.keyOf? c = some p)
    (limit : Nat) (d : Document) : d.type limit c = d.apply limit (.key p) := by
  unfold Command.keyOf? at h
  split_ifs at h with hn ht hd hr
  · cases h
    rw [type, if_pos hn]
    rfl
  · cases h
    rw [type, if_neg hn, if_pos ht]
    show _ = if _ then _ else _
    rw [last_indent, List.length_append]
    rfl
  · cases h
    rw [type, if_neg hn, if_neg ht, if_pos hd]
    rfl
  · cases h
    rw [type, if_neg hn, if_neg ht, if_neg hd]
    show _ = if isControl c = false ∧ false = false ∧ false = false ∧ false = false ∧ _
      then _ else d
    cases hc : isControl c with
    | true => rfl
    | false =>
      rw [if_neg Bool.false_ne_true]
      exact if_congr ⟨fun hl => ⟨rfl, rfl, rfl, rfl, hl⟩, fun hn => hn.2.2.2.2⟩ rfl rfl

end Document

namespace Fresh
variable {c : Config} {w : Window}

theorem document_pressEstimated (h : Fresh c w) (p : KeyPress) :
    (w.pressEstimated p).buffer.document = w.buffer.document.apply c.maxLineLength (.key p) := by
  rw [Window.buffer_pressEstimated]
  exact h.document_handle (.key p)

/-- typed characters edit the document -/
theorem document_pressAll (h : Fresh c w) (s : Text) :
    (w.pressAll (s.filterMap Command.keyOf?)).buffer.document
      = s.foldl (Document.type c.maxLineLength) w.buffer.document := by
  induction s generalizing w with
  | nil => rfl
  | cons a s ih =>
    rw [List.foldl_cons]
    cases ha : Command.keyOf? a with
    | none =>
      rw [List.filterMap_cons_none ha, Document.type_of_keyOf?_eq_none ha]
      exact ih h
    | some p =>
      rw [List.filterMap_cons_some ha, Document.type_of_keyOf?_eq_some ha,
        ← h.document_pressEstimated p]
      exact ih (h.pressEstimated p)

end Fresh

/-! ## The session of the command -/

namespace Command

/-- an observer that is attached reports the estimate, and the window takes it at once -/
theorem typeKey_eq {o : Observer} {t : Slot} (ht : t.holds o = true) (w : Window) (p : KeyPress) :
    typeKey o ⟨some w, .empty, t⟩ p = ⟨some (w.pressEstimated p), .empty, t⟩ := by
  have hattached : (⟨some (w.press p).2, .empty, t⟩ : Session).isAttached o = true := ht
  show (Session.report ⟨some (w.press p).2, .empty, t⟩ o _).2.processPending.2 = _
  rw [Session.report, if_pos hattached]
  show (Session.processPending ⟨some (w.press p).2, ⟨true, [.height _]⟩, t⟩).2 = _
  rw [Session.processPending_eq]
  rfl

theorem foldl_typeKey {o : Observer} {t : Slot} (ht : t.holds o = true) (w : Window)
    (ps : List KeyPress) :
    ps.foldl (typeKey o) ⟨some w, .empty, t⟩ = ⟨some (w.pressAll ps), .empty, t⟩ := by
  induction ps generalizing w with
  | nil => rfl
  | cons p ps ih =>
    rw [List.foldl_cons, typeKey_eq ht]
    exact ih (w.pressEstimated p)

theorem typeAll_eq (w : Window) (input : Text) :
    typeAll w input = some (w.pressAll (input.filterMap keyOf?)) := by
  show (List.foldl (typeKey Slot.empty.attach.1) ⟨some w, .empty, Slot.empty.attach.2⟩
    (input.filterMap keyOf?)).window = _
  rw [foldl_typeKey (Slot.holds_attach .empty)]

theorem page_eq (c : Config) (s : Text) :
    page c true s
      = ((Window.ofConfig c).pressAll (s.filterMap keyOf?)).snapshot.render none := by
  rw [page, typeAll_eq]
  rfl

/-! ## The run -/

theorem wrapped_prologueRows {c : Config} (hv : c.Valid) :
    List.Forall₂ (fun l block => Wrapped c.maxLineLength l.text block) c.shownLines
      c.prologueRows := by
  refine List.forall₂_map_right_iff.mpr (List.forall₂_same.mpr fun l _ => ?_)
  have h := wrapped_wrap c.maxLineLength l.segments
  rwa [Nat.max_eq_right hv.1] at h

theorem valid_of_override {environment : String → Option Text} {c d : Config}
    (h : c.override environment = .ok d) : d.Valid := by
  unfold Config.override at h
  split at h
  · cases h
  · split at h
    · cases h
    · obtain ⟨rfl, hv⟩ := Config.check_eq_ok_iff.mp h
      exact hv

section
variable {L : Json.Library} {read : Text → Except ReadFailure Text}
  {environment : String → Option Text} {understand : ArgumentParser} {args : List Text}
  {path : Option Text} {input : ByteArray} {c : Config} {s : Text}

theorem valid_of_configure (h : configure L read environment path = .ok c) : c.Valid := by
  unfold configure at h
  split at h
  · cases h
  · split at h
    · rename_i d hd
      cases h
      exact valid_of_override hd
    · cases h

/-- **The command prints a document.**  A run without colours prints the prologue, wrapped, then the
lines of the document that the input leaves, each on one row, and the cursor behind the last.  The
numbers before the rows are right as long as the counter can hold them, and no longer. -/
theorem run_prints_document (hunderstand : understand environment args = .ok ⟨path, true⟩)
    (hconfigure : configure L read environment path = .ok c) (hinput : decode? input = some s) :
    ∃ (blocks : List (List Text)) (rows : List Text) (page : Text) (w : Window),
      List.Forall₂ (fun l block => Wrapped c.maxLineLength l.text block) c.shownLines blocks ∧
      typeAll (.ofConfig c) s = some w ∧
      w.buffer.Holds (Document.typed c.maxLineLength s) ∧
      rows = blocks.flatten ++ (Document.typed c.maxLineLength s).lines
        ++ [(Document.typed c.maxLineLength s).last ++ ['█']] ∧
      Numbered counted (numeral rows.length).length 1 rows page ∧
      (Numbered numeral (numeral rows.length).length 1 rows page ↔ rows.length < rowNumberLimit) ∧
      run L read environment understand args input = ⟨0, page, none⟩ := by
  have hv : c.Valid := valid_of_configure hconfigure
  have hx := (Estimated.ofConfig c).pressAll hv (s.filterMap keyOf?)
  have hdocument := (Fresh.ofConfig c).document_pressAll s
  have hholds := hx.sound.holds
  rw [hdocument] at hholds
  have hrows := hx.map_textOf_rows hv
  rw [hholds.committed, hholds.current] at hrows
  refine ⟨c.prologueRows, _, page c true s, _, wrapped_prologueRows hv, typeAll_eq _ s, hholds,
    hrows, ?_, ?_, ?_⟩
  · rw [page_eq, List.length_map]
    exact Snapshot.numbered_render _
  · rw [page_eq, List.length_map]
    exact Snapshot.numeral_render_iff _
  · rw [run, hunderstand]
    simp only [hconfigure, hinput]

theorem decode?_toUTF8 (s : String) : decode? s.toUTF8 = some s.toList := by
  have hvalid : s.toUTF8.IsValidUTF8 := s.isValidUTF8
  rw [decode?, String.fromUTF8?, dif_pos hvalid]
  rfl

/-- below the six lines of the default prologue, a line and an indented one, of which the last
character was taken back -/
theorem run_prints_document_default :
    ∃ (blocks : List (List Text)) (rows : List Text) (page : Text),
      blocks.length = 6 ∧ rows = blocks.flatten ++ [['é'], [' ', ' ', '█']] ∧
      Numbered counted (numeral rows.length).length 1 rows page ∧
      run .standard (fun _ => .error .missing) (fun _ => none) arguments ["--plain".toList]
        "é\r\n\tb\x08".toUTF8 = ⟨0, page, none⟩ := by
  have hunderstand : arguments (fun _ => none) ["--plain".toList] = .ok ⟨none, true⟩ := by
    decide
  have hconfigure :
      configure .standard (fun _ => .error .missing) (fun _ => none) none = .ok .default := rfl
  obtain ⟨blocks, rows, page, _, hblocks, _, _, hrows, hpage, -, hrun⟩ :=
    run_prints_document hunderstand hconfigure (decode?_toUTF8 "é\r\n\tb\x08")
  refine ⟨blocks, rows, page, hblocks.length_eq.symm, ?_, hpage, hrun⟩
  have hlines : (Document.typed Config.default.maxLineLength "é\r\n\tb\x08".toList).lines
      = [['é']] := by decide
  have hlast : (Document.typed Config.default.maxLineLength "é\r\n\tb\x08".toList).last
      = [' ', ' '] := by decide
  rw [hrows, hlines, hlast, List.append_assoc]
  rfl

theorem parts_typed_newlines (limit n : Nat) :
    Document.parts (Document.typed limit (List.replicate n '\n')) = (List.replicate n [], []) := by
  induction n with
  | zero => rfl
  | succ n ih =>
    have hbreak : Document.typed limit (List.replicate (n + 1) '\n')
        = Document.typed limit (List.replicate n '\n') ++ [.lineBreak] := by
      rw [List.replicate_succ', Document.typed, List.foldl_append]
      rfl
    rw [hbreak, Document.parts_concat, ih, List.replicate_succ']
    rfl

/-- an input of so many line breaks that the rows cannot be numbered -/
def manyBreaks : Text := List.replicate rowNumberLimit '\n'

theorem run_misnumbers :
    ∃ (blocks : List (List Text)) (rows : List Text) (page : Text),
      List.Forall₂ (fun l block => Wrapped 60 l.text block) Config.default.shownLines blocks ∧
      rows = blocks.flatten ++ List.replicate rowNumberLimit [] ++ [['█']] ∧
      run .standard (fun _ => .error .missing) (fun _ => none) arguments ["--plain".toList]
        (String.ofList manyBreaks).toUTF8 = ⟨0, page, none⟩ ∧
      ¬ Numbered numeral (numeral rows.length).length 1 rows page := by
  have hunderstand : arguments (fun _ => none) ["--plain".toList] = .ok ⟨none, true⟩ := by
    decide
  have hconfigure :
      configure .standard (fun _ => .error .missing) (fun _ => none) none = .ok .default := rfl
  have hinput : decode? (String.ofList manyBreaks).toUTF8 = some manyBreaks := by
    rw [decode?_toUTF8, String.toList_ofList]
  obtain ⟨blocks, rows, page, _, hblocks, -, -, hrows, -, hiff, hrun⟩ :=
    run_prints_document hunderstand hconfigure hinput
  have hparts := parts_typed_newlines Config.default.maxLineLength rowNumberLimit
  have hlines := congrArg Prod.fst hparts
  have hlast := congrArg Prod.snd hparts
  rw [← manyBreaks] at hlines hlast
  rw [Document.lines, Document.last, hlines, hlast, List.nil_append] at hrows
  refine ⟨blocks, rows, page, hblocks, hrows, hrun, ?_⟩
  rw [hiff, hrows, List.length_append, List.length_append, List.length_replicate]
  omega

end

end Command

end LineEditor
