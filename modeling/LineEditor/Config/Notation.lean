import LineEditor.Config.Basic
import LineEditor.Json.Library

/-!
# Configurations as JSON

How segments, vocabularies and configurations are written and read with a library for JSON. All
three are records; what a vocabulary or a configuration leaves out has its default, while a segment
needs both of its fields.
-/

namespace LineEditor

open Json

variable (L : Library)

/-! ## Segments -/

/-- a segment as it is being read -/
structure SegmentDraft where
  text : Option Text
  tag : Option Tag

namespace Segment

/-- reads a tag by its name -/
def tagReader : Reader Tag := L.choice Tag.ofName?

/-- the fields of a segment -/
def fields : List (RecordField SegmentDraft) :=
  [.of "text" L.string fun t d => { d with text := some t },
    .of "tag" (tagReader L) fun t d => { d with tag := some t }]

/-- the segment of which both fields are there -/
def ofDraft? : SegmentDraft → Option Segment
  | ⟨some text, some tag⟩ => some ⟨text, tag⟩
  | _ => none

/-- reads a segment -/
def reader : Reader Segment := L.record (fields L) ⟨none, none⟩ ofDraft?

/-- a segment as JSON -/
def print (s : Segment) : Text :=
  L.printObject [("text", L.printString s.text), ("tag", L.printString s.tag.name.toList)]

end Segment

/-! ## Vocabularies -/

/-- reads a set of words -/
def WordSet.reader : Reader WordSet := (L.list L.string).map .ofList

/-- a list of words as JSON -/
def printWords (ws : List Text) : Text := L.printList (ws.map L.printString)

/-- the words of the four sets of a vocabulary, each in some order -/
structure Listing where
  keywords : List Text
  builtins : List Text
  typeIntroducers : List Text
  callableIntroducers : List Text

namespace Vocabulary

/-- the fields of a vocabulary -/
def fields : List (RecordField Vocabulary) :=
  [.of "keywords" (WordSet.reader L) fun s v => { v with keywords := s },
    .of "builtins" (WordSet.reader L) fun s v => { v with builtins := s },
    .of "self_token" L.string fun w v => { v with selfToken := w },
    .of "type_introducers" (WordSet.reader L) fun s v => { v with typeIntroducers := s },
    .of "callable_introducers" (WordSet.reader L) fun s v => { v with callableIntroducers := s }]

/-- reads a vocabulary -/
def reader : Reader Vocabulary := L.record (fields L) python some

/-- the words in increasing order -/
def listing (v : Vocabulary) : Listing :=
  ⟨v.keywords.toList, v.builtins.toList, v.typeIntroducers.toList, v.callableIntroducers.toList⟩

/-- a vocabulary as JSON, with its words as they are listed -/
def print (v : Vocabulary) (l : Listing) : Text :=
  L.printObject
    [("keywords", printWords L l.keywords), ("builtins", printWords L l.builtins),
      ("self_token", L.printString v.selfToken),
      ("type_introducers", printWords L l.typeIntroducers),
      ("callable_introducers", printWords L l.callableIntroducers)]

end Vocabulary

/-! ## Configurations -/

namespace Config

/-- the fields of a configuration -/
def fields : List (RecordField Config) :=
  [.of "max_line_length" L.natural fun n c => { c with maxLineLength := n },
    .of "row_height_px" L.single fun h c => { c with rowHeight := h },
    .of "prologue" (L.list (L.list (Segment.reader L))) fun p c => { c with prologue := p },
    .of "prologue_shown" L.natural fun n c => { c with prologueShown := n },
    .of "vocabulary" (Vocabulary.reader L) fun v c => { c with vocabulary := v }]

/-- reads a configuration, without a check -/
def reader : Reader Config := L.record (fields L) default some

/-- a configuration as JSON, with the words of its vocabulary as they are listed -/
def printListed (c : Config) (l : Listing) : Text :=
  L.printObject
    [("max_line_length", L.printNatural c.maxLineLength),
      ("row_height_px", L.printSingle c.rowHeight),
      ("prologue", L.printList (c.prologue.map fun l => L.printList (l.map (Segment.print L)))),
      ("prologue_shown", L.printNatural c.prologueShown),
      ("vocabulary", c.vocabulary.print L l)]

/-- a configuration as JSON, with its words in increasing order -/
def print (c : Config) : Text := c.printListed L c.vocabulary.listing

end Config

end LineEditor
