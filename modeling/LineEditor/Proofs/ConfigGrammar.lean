import LineEditor.Config.Notation
import LineEditor.Proofs.JsonRecords

/-!
# The notation of configurations

Which texts mean a set of words, a tag, a segment, a vocabulary, a configuration, and that their
readers, made with any lawful library, read them as what they mean.  Sets of words may be listed in
any order.  A segment is an object or a list of its two fields; vocabularies and configurations are
objects, and what they leave out has its default.

* `SegmentText`, `Segment.writes`;
* `Vocabulary.layout`, `Config.layout`   the fields and what may stand for each;
* `Vocabulary.writes`, `Config.writes`.
-/

namespace LineEditor

open Json

variable {L : Library}

/-! ## Sets of words -/

namespace WordSet

theorem mem_foldl_insert {w : Text} {ws : List Text} {s : WordSet} :
    w ∈ (ws.foldl insert s).toList ↔ w ∈ ws ∨ w ∈ s.toList := by
  induction ws generalizing s with
  | nil => simp
  | cons v vs ih =>
    rw [List.foldl_cons, ih, insert, mem_insertWord, List.mem_cons]
    exact or_left_comm.trans or_assoc.symm

theorem mem_ofList {w : Text} {ws : List Text} : w ∈ (ofList ws).toList ↔ w ∈ ws := by
  rw [ofList, mem_foldl_insert]
  exact or_iff_left List.not_mem_nil

theorem nodup_toList (s : WordSet) : s.toList.Nodup :=
  s.increasing.imp fun {v w} hlt (heq : v = w) => by
    rw [heq] at hlt
    exact List.lt_irrefl w hlt

/-- sets with the same words are equal -/
theorem eq_of_mem_iff {s t : WordSet} (h : ∀ w, w ∈ s.toList ↔ w ∈ t.toList) : s = t := by
  have hperm : s.toList.Perm t.toList :=
    (List.perm_ext_iff_of_nodup s.nodup_toList t.nodup_toList).mpr h
  have heq : s.toList = t.toList := by
    refine hperm.eq_of_pairwise (fun v w _ _ hvw hwv => ?_) s.increasing t.increasing
    exact absurd (List.lt_trans hvw hwv) (List.lt_irrefl v)
  cases s
  cases t
  cases heq
  rfl

end WordSet

/-- a list of the words of the set, in any order and each as often as one likes -/
def WordsText (s : WordSet) (t : Text) : Prop :=
  ∃ ws, ListText StringText ws t ∧ ∀ w, w ∈ ws ↔ w ∈ s.toList

theorem WordSet.writes (hL : L.Lawful) {s : WordSet} {t : Text} (h : WordsText s t) :
    Writes (WordSet.reader L) t s := by
  obtain ⟨ws, hws, hmem⟩ := h
  have hs : WordSet.ofList ws = s :=
    WordSet.eq_of_mem_iff fun w => WordSet.mem_ofList.trans (hmem w)
  rw [← hs]
  exact (hL.listText hL.string hws).map WordSet.ofList

/-! ## Segments -/

/-- the name of the tag -/
def TagText (tag : Tag) : Text → Prop := ChoiceText tag.name.toList

theorem Tag.writes (hL : L.Lawful) {tag : Tag} {t : Text} (h : TagText tag t) :
    Writes (Segment.tagReader L) t tag := hL.choice (Tag.ofName?_name tag) h

namespace Segment

def parts : List (FieldSpec SegmentDraft) :=
  [{ name := "text"
     set := fun t d => { d with text := some t }
     get := SegmentDraft.text
     Means := StringText
     get_set := fun _ _ => rfl },
   { name := "tag"
     set := fun t d => { d with tag := some t }
     get := SegmentDraft.tag
     Means := TagText
     get_set := fun _ _ => rfl }]

/-- the fields of a segment -/
def layout : Layout SegmentDraft where
  parts := parts
  names := by decide
  apart p hp q hq hne a x := by
    simp only [parts, List.mem_cons, List.not_mem_nil, or_false] at hp hq
    obtain rfl | rfl := hp <;> obtain rfl | rfl := hq
    · exact absurd rfl hne
    · rfl
    · rfl
    · exact absurd rfl hne
  ext {x y} h := by
    cases x with | mk text tag =>
    cases y with | mk text' tag' =>
    have htext : text = text' := h _ (List.mem_cons_self ..)
    have htag : tag = tag' := h _ (List.mem_cons_of_mem _ (List.mem_cons_self ..))
    rw [htext, htag]

theorem isReadBy_fields (hL : L.Lawful) :
    List.Forall₂ FieldSpec.IsReadBy layout.parts (fields L) :=
  .cons (.of rfl hL.string) (.cons (.of rfl (Tag.writes hL)) .nil)

/-- the segment as the reader has it before the end -/
def draft (s : Segment) : SegmentDraft := ⟨some s.text, some s.tag⟩

end Segment

/-- a segment, as an object with its two fields among others or as a list of them -/
inductive SegmentText (s : Segment) (t : Text) : Prop
  | object {ms : List (Text × Text)} (ht : ObjectText ms t) (htidy : Segment.layout.Tidy ms)
      (hd : Describes Segment.layout ⟨none, none⟩ ms s.draft) : SegmentText s t
  | list {u v : Text} (hu : Padded (StringText s.text) u) (hv : Padded (TagText s.tag) v)
      (ht : Enclosed '[' ']' [u, v] t) : SegmentText s t

theorem Segment.writes (hL : L.Lawful) {s : Segment} {t : Text} (h : SegmentText s t) :
    Writes (Segment.reader L) t s := by
  have hfields := Segment.isReadBy_fields hL
  cases h with
  | object ht htidy hd => exact hL.writes_object hfields ht htidy hd rfl
  | @list u v hu hv ht =>
    have htells : List.Forall₂ (fun p t => p.Tells s.draft t) Segment.layout.parts [u, v] :=
      .cons ⟨s.text, hu, rfl⟩ (.cons ⟨s.tag, hv, rfl⟩ .nil)
    exact hL.writes_positions hfields ht htells rfl

/-! ## Vocabularies -/

namespace Vocabulary

/-- a field with a set of words -/
def wordsPart (name : String) (set : WordSet → Vocabulary → Vocabulary)
    (get : Vocabulary → WordSet) (h : ∀ s v, get (set s v) = s) : FieldSpec Vocabulary where
  name := name
  set := set
  get v := some (get v)
  Means := WordsText
  get_set s v := congrArg some (h s v)

/-- the field with the word for the own object -/
def selfPart : FieldSpec Vocabulary where
  name := "self_token"
  set w v := { v with selfToken := w }
  get v := some v.selfToken
  Means := StringText
  get_set _ _ := rfl

def parts : List (FieldSpec Vocabulary) :=
  [wordsPart "keywords" (fun s v => { v with keywords := s }) keywords fun _ _ => rfl,
    wordsPart "builtins" (fun s v => { v with builtins := s }) builtins fun _ _ => rfl,
    selfPart,
    wordsPart "type_introducers" (fun s v => { v with typeIntroducers := s }) typeIntroducers
      fun _ _ => rfl,
    wordsPart "callable_introducers" (fun s v => { v with callableIntroducers := s })
      callableIntroducers fun _ _ => rfl]

/-- the fields of a vocabulary -/
def layout : Layout Vocabulary where
  parts := parts
  names := by decide
  apart p hp q hq hne a x := by
    simp only [parts, List.mem_cons, List.not_mem_nil, or_false] at hp hq
    obtain rfl | rfl | rfl | rfl | rfl := hp <;> obtain rfl | rfl | rfl | rfl | rfl := hq <;>
      first | rfl | exact absurd rfl hne
  ext {x y} h := by
    simp only [parts, List.forall_mem_cons] at h
    obtain ⟨hkeywords, hbuiltins, hself, htype, hcallable, -⟩ := h
    cases x
    cases y
    cases hkeywords
    cases hbuiltins
    cases hself
    cases htype
    cases hcallable
    rfl

theorem isReadBy_fields (hL : L.Lawful) :
    List.Forall₂ FieldSpec.IsReadBy layout.parts (fields L) := by
  have hwords {s : WordSet} {t : Text} (h : WordsText s t) : Writes (WordSet.reader L) t s :=
    WordSet.writes hL h
  exact .cons (.of rfl hwords) (.cons (.of rfl hwords)
    (.cons (.of rfl hL.string) (.cons (.of rfl hwords)
    (.cons (.of rfl hwords) .nil))))

end Vocabulary

/-- an object with the members `vs` that makes the vocabulary from the one for Python -/
structure VocabularyText (vs : List (Text × Text)) (v : Vocabulary) (t : Text) : Prop where
  text : ObjectText vs t
  tidy : Vocabulary.layout.Tidy vs
  describes : Describes Vocabulary.layout .python vs v

theorem Vocabulary.writes (hL : L.Lawful) {vs : List (Text × Text)} {v : Vocabulary} {t : Text}
    (h : VocabularyText vs v t) : Writes (Vocabulary.reader L) t v :=
  hL.writes_object (Vocabulary.isReadBy_fields hL) h.text h.tidy h.describes rfl

/-! ## Configurations -/

namespace Config

/-- a field with a count -/
def countPart (name : String) (set : Nat → Config → Config) (get : Config → Nat)
    (h : ∀ n c, get (set n c) = n) : FieldSpec Config where
  name := name
  set := set
  get c := some (get c)
  Means := NaturalText
  get_set n c := congrArg some (h n c)

/-- the field with the length of a line -/
def lengthPart : FieldSpec Config :=
  countPart "max_line_length" (fun n c => { c with maxLineLength := n }) maxLineLength
    fun _ _ => rfl

/-- the field with the vocabulary, whose object has the members `vs` -/
def vocabularyPart (vs : List (Text × Text)) : FieldSpec Config where
  name := "vocabulary"
  set v c := { c with vocabulary := v }
  get c := some c.vocabulary
  Means := VocabularyText vs
  get_set _ _ := rfl

section
variable (convert : Parts → Option Single)

/-- the field with the height of a row, under a conversion of numbers -/
def heightPart : FieldSpec Config where
  name := "row_height_px"
  set h c := { c with rowHeight := h }
  get c := some c.rowHeight
  Means := SingleText convert
  get_set _ _ := rfl

/-- the fields but the vocabulary -/
def plainParts : List (FieldSpec Config) :=
  [lengthPart,
    heightPart convert,
    { name := "prologue"
      set := fun p c => { c with prologue := p }
      get := fun c => some c.prologue
      Means := ListText (ListText SegmentText)
      get_set := fun _ _ => rfl },
    countPart "prologue_shown" (fun n c => { c with prologueShown := n }) prologueShown
      fun _ _ => rfl]

def parts (vs : List (Text × Text)) : List (FieldSpec Config) :=
  plainParts convert ++ [vocabularyPart vs]

/-- the fields of a configuration, the object for whose vocabulary has the members `vs` -/
def layout (vs : List (Text × Text)) : Layout Config where
  parts := parts convert vs
  names := by
    show ["max_line_length", "row_height_px", "prologue", "prologue_shown", "vocabulary"].Nodup
    decide
  apart p hp q hq hne a x := by
    simp only [parts, plainParts, List.cons_append, List.nil_append, List.mem_cons,
      List.not_mem_nil, or_false] at hp hq
    obtain rfl | rfl | rfl | rfl | rfl := hp <;> obtain rfl | rfl | rfl | rfl | rfl := hq <;>
      first | rfl | exact absurd rfl hne
  ext {x y} h := by
    simp only [parts, plainParts, List.cons_append, List.nil_append, List.forall_mem_cons] at h
    obtain ⟨hlength, hheight, hprologue, hshown, hvocabulary, -⟩ := h
    cases x
    cases y
    cases hlength
    cases hheight
    cases hprologue
    cases hshown
    cases hvocabulary
    rfl

end

variable {convert : Parts → Option Single}

theorem isReadBy_fields (hL : L.Lawful) (hconvert : L.Converts convert) (vs : List (Text × Text)) :
    List.Forall₂ FieldSpec.IsReadBy (layout convert vs).parts (fields L) := by
  have hprologue {a : List (List Segment)} {t : Text} (h : ListText (ListText SegmentText) a t) :
      Writes (L.list (L.list (Segment.reader L))) t a := hL.listText (hL.listText (Segment.writes hL)) h
  exact .cons (.of rfl hL.natural) (.cons (.of rfl hconvert)
    (.cons (.of rfl hprologue) (.cons (.of rfl hL.natural)
    (.cons (.of rfl (Vocabulary.writes hL)) .nil))))

theorem writes (hL : L.Lawful) (hconvert : L.Converts convert) {ms vs : List (Text × Text)}
    {c : Config} {t : Text} (ht : ObjectText ms t) (htidy : (layout convert vs).Tidy ms)
    (hd : Describes (layout convert vs) default ms c) : Writes (reader L) t c :=
  hL.writes_object (isReadBy_fields hL hconvert vs) ht htidy hd rfl

end Config

end LineEditor
