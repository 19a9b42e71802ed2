import LineEditor.Config.Load
import LineEditor.Proofs.ConfigGrammar
import LineEditor.Proofs.JsonStandard

/-!
# What is written for segments and configurations

Every segment is read back from its own JSON text, and from its other forms.  The text of a
configuration means the configuration, but for the height, which is what its text is converted to.
That text is not unique, since the words of a set may be listed in any order.

* **`Segment.readAll_forms`**;
* `vocabularyText_print`, `Config.writes_printListed`   texts of vocabularies and configurations.
-/

namespace LineEditor

open Json

variable {L : Library}

/-! ## Segments -/

/-- the name of a tag as JSON, and the object with the name and null -/
def Tag.prints (t : Tag) : List Text :=
  [quoted t.name.toList, objectOf [(t.name, "null".toList)]]

theorem Tag.tagText_of_mem {t : Tag} {u : Text} (h : u ∈ t.prints) : TagText t u := by
  simp only [prints, List.mem_cons, List.not_mem_nil, or_false] at h
  obtain rfl | rfl := h
  · exact .inl (stringText_quoted _)
  · exact .inr ⟨"null".toList, padded_self rfl, objectText_objectOf [(t.name, "null".toList)]⟩

namespace Segment

variable {s : Segment} {tag t : Text}

/-- a segment as an object and as a list of its fields, the tag written as `tag` -/
def forms (s : Segment) (tag : Text) : List Text :=
  [objectOf [("text", quoted s.text), ("tag", tag)], listed [quoted s.text, tag]]

theorem segmentText_of_mem (htag : TagText s.tag tag) (h : t ∈ s.forms tag) : SegmentText s t := by
  have htext : Padded (StringText s.text) (quoted s.text) := padded_self (stringText_quoted _)
  simp only [forms, List.mem_cons, List.not_mem_nil, or_false] at h
  obtain rfl | rfl := h
  · have hall : List.Forall₂ (fun p m => p.Names s.draft m) layout.parts
        [("text", quoted s.text), ("tag", tag)] :=
      .cons ⟨rfl, s.text, htext, rfl⟩ (.cons ⟨rfl, s.tag, padded_self htag, rfl⟩ .nil)
    exact .object (objectText_objectOf _) (tidy_all hall) (describes_all hall)
  · exact .list htext (padded_self htag) (enclosed_listed _)

theorem segmentText_print (hL : L.Lawful) (s : Segment) : SegmentText s (s.print L) := by
  rw [print, hL.printObject, hL.printString, hL.printString]
  exact segmentText_of_mem (.inl (stringText_quoted _)) (List.mem_cons_self ..)

theorem readAll_of_padded (hL : L.Lawful) (h : Padded (SegmentText s) t) :
    L.readAll (reader L) t = .ok s := hL.readAll (h.imp (Segment.writes hL))

/-- A segment is read back from its text, and from each of its other forms: as a list, with its tag
as an object, with escapes of any kind in its strings, and with space.  Segments with one text are
equal. -/
theorem readAll_forms (hL : L.Lawful) (s : Segment) :
    L.readAll (reader L) (s.print L) = .ok s ∧
      (∀ tag ∈ s.tag.prints, ∀ t ∈ s.forms tag, L.readAll (reader L) t = .ok s) ∧
      (∀ t, Padded (SegmentText s) t → L.readAll (reader L) t = .ok s) ∧
      ∀ r : Segment, r.print L = s.print L ↔ r = s := by
  refine ⟨?_, ?_, fun t ht => readAll_of_padded hL ht, fun r => ⟨fun heq => ?_, fun heq => ?_⟩⟩
  · exact readAll_of_padded hL (padded_self (segmentText_print hL s))
  · intro tag htag t ht
    exact readAll_of_padded hL (padded_self (segmentText_of_mem (Tag.tagText_of_mem htag) ht))
  · have hr := Segment.writes hL (segmentText_print hL r)
    rw [heq] at hr
    exact hr.unique (Segment.writes hL (segmentText_print hL s))
  · rw [heq]

/-- characters of all kinds: some that are escaped, and some beyond the basic plane -/
def colorful : Segment := ⟨['"', '\\', '\x01', '\t', 'é', '😀'], .string⟩

theorem readAll_forms_colorful :
    Library.standard.Lawful ∧
    colorful.print .standard =
      "\x7b\"text\":\"\\\"\\\\\\u0001\\té😀\",\"tag\":\"string\"\x7d".toList ∧
    Library.standard.readAll (reader .standard)
      "[\"\\\"\\\\\\u0001\\té😀\",\x7b\"string\":null\x7d]".toList = .ok colorful := by
  have hforms := (readAll_forms Library.lawful_standard colorful).2.1
  refine ⟨Library.lawful_standard, by decide, ?_⟩
  apply hforms (objectOf [("string", "null".toList)])
  · exact List.mem_cons_of_mem _ (List.mem_cons_self ..)
  · decide

end Segment

/-! ## Vocabularies -/

/-- lists each word of each set once -/
structure Listing.Lists (l : Listing) (v : Vocabulary) : Prop where
  keywords : l.keywords.Perm v.keywords.toList
  builtins : l.builtins.Perm v.builtins.toList
  typeIntroducers : l.typeIntroducers.Perm v.typeIntroducers.toList
  callableIntroducers : l.callableIntroducers.Perm v.callableIntroducers.toList

theorem Vocabulary.lists_listing (v : Vocabulary) : v.listing.Lists v := ⟨.rfl, .rfl, .rfl, .rfl⟩

theorem wordsText_printWords (hL : L.Lawful) {ws : List Text} {s : WordSet}
    (h : ws.Perm s.toList) : WordsText s (printWords L ws) := by
  rw [printWords, hL.printList]
  refine ⟨ws, listText_map fun w _ => ?_, fun _ => h.mem_iff⟩
  rw [hL.printString]
  exact stringText_quoted w

/-- the members of a vocabulary as they are listed -/
def Vocabulary.members (L : Library) (v : Vocabulary) (l : Listing) : List (String × Text) :=
  [("keywords", printWords L l.keywords), ("builtins", printWords L l.builtins),
    ("self_token", L.printString v.selfToken),
    ("type_introducers", printWords L l.typeIntroducers),
    ("callable_introducers", printWords L l.callableIntroducers)]

theorem vocabularyText_print (hL : L.Lawful) {v : Vocabulary} {l : Listing} (h : l.Lists v) :
    VocabularyText (printedMembers (v.members L l)) v (v.print L l) := by
  have hwords {ws : List Text} {s : WordSet} (hws : ws.Perm s.toList) :
      Padded (WordsText s) (printWords L ws) := padded_self (wordsText_printWords hL hws)
  have hself : Padded (StringText v.selfToken) (L.printString v.selfToken) := by
    rw [hL.printString]
    exact padded_self (stringText_quoted _)
  have hall : List.Forall₂ (fun p m => p.Names v m) Vocabulary.layout.parts (v.members L l) :=
    .cons ⟨rfl, _, hwords h.keywords, rfl⟩ (.cons ⟨rfl, _, hwords h.builtins, rfl⟩
      (.cons ⟨rfl, _, hself, rfl⟩ (.cons ⟨rfl, _, hwords h.typeIntroducers, rfl⟩
      (.cons ⟨rfl, _, hwords h.callableIntroducers, rfl⟩ .nil))))
  rw [Vocabulary.print, hL.printObject]
  exact ⟨objectText_objectOf _, tidy_all hall, describes_all hall⟩

/-! ## Configurations -/

namespace Config

/-- the members of a configuration, with the words of its vocabulary as they are listed -/
def members (L : Library) (c : Config) (l : Listing) : List (String × Text) :=
  [("max_line_length", L.printNatural c.maxLineLength),
    ("row_height_px", L.printSingle c.rowHeight),
    ("prologue", L.printList (c.prologue.map fun l => L.printList (l.map (Segment.print L)))),
    ("prologue_shown", L.printNatural c.prologueShown),
    ("vocabulary", c.vocabulary.print L l)]

/-- a configuration is read back from its text, with the height that its height is converted to -/
theorem writes_printListed (hL : L.Lawful) {convert : Parts → Option Single}
    (hconvert : L.Converts convert) {c : Config} {l : Listing}
    (hlength : c.maxLineLength ≤ maxCount) (hshown : c.prologueShown ≤ maxCount) (hl : l.Lists c.vocabulary) {x : Single}
    (hx : SingleText convert x (L.printSingle c.rowHeight)) :
    Writes (reader L) (c.printListed L l) { c with rowHeight := x } := by
  have hcount {n : Nat} (hn : n ≤ maxCount) : Padded (NaturalText n) (L.printNatural n) := by
    rw [hL.printNatural]
    exact padded_self ⟨hn, rfl⟩
  have hprologue : ListText (ListText SegmentText) c.prologue
      (L.printList (c.prologue.map fun l => L.printList (l.map (Segment.print L)))) := by
    rw [hL.printList]
    refine listText_map fun l _ => ?_
    rw [hL.printList]
    exact listText_map fun s _ => Segment.segmentText_print hL s
  have hvocabulary := padded_self (vocabularyText_print hL hl)
  let vs := printedMembers (c.vocabulary.members L l)
  have hall : List.Forall₂ (fun p m => p.Names { c with rowHeight := x } m)
      (layout convert vs).parts (c.members L l) :=
    .cons ⟨rfl, _, hcount hlength, rfl⟩ (.cons ⟨rfl, _, padded_self hx, rfl⟩
      (.cons ⟨rfl, _, padded_self hprologue, rfl⟩ (.cons ⟨rfl, _, hcount hshown, rfl⟩
      (.cons ⟨rfl, _, hvocabulary, rfl⟩ .nil))))
  rw [printListed, hL.printObject]
  exact writes hL hconvert (objectText_objectOf _) (tidy_all hall) (describes_all hall)

end Config

end LineEditor
