import LineEditor.Config.Load
import LineEditor.Proofs.ConfigGrammar
import LineEditor.Proofs.JsonStandard

/-!
# Configurations that say only a part

An object for a configuration may leave out any field, and so may the object for the vocabulary in
it.  What is left out has its default, field by field: a configuration that sets the prologue alone
shows as many lines of it as there are in the default prologue.  In which order the members stand,
and which others there are, makes no difference, at either level.  All of this holds with any lawful
library, whatever its conversion of numbers.

* `WellTyped`     the objects that are meant: the known fields stand once and have a value of their
  type, all others have any value;
* `Rearranged`    objects with the same known members;
* **`parse_partial`**.
-/

namespace LineEditor.Config

open Json

/-- the name of the field with the vocabulary -/
def vocabularyName : Text := "vocabulary".toList

section
variable (convert : Parts → Option Single)

/-- An object with the members `ms` is one for a configuration: each field stands at most once, with
a value of its type, and any other name has any value.  If the vocabulary stands there, it is an
object with the members `vs`, of which the same holds. -/
structure WellTyped (ms vs : List (Text × Text)) : Prop where
  tidy : (layout convert vs).Tidy ms
  plain : ∀ p ∈ plainParts convert, ∀ t, (p.name.toList, t) ∈ ms → ∃ a, Padded (p.Means a) t
  vocabulary : ∀ t, (vocabularyName, t) ∈ ms →
    Padded (ObjectText vs) t ∧ Vocabulary.layout.Tidy vs ∧ Vocabulary.layout.Typed vs

/-- the members with the name of a field, but for the vocabulary -/
def plainKnown (ms : List (Text × Text)) : List (Text × Text) :=
  ms.filter fun m => (plainParts convert).any fun p => p.name.toList = m.1

/-- Objects with the members `ms` and `ms'` have the same fields, in any order and among any others,
and so have the objects for the vocabulary in them, with the members `vs` and `vs'`. -/
structure Rearranged (ms vs ms' vs' : List (Text × Text)) : Prop where
  tidy : (layout convert vs').Tidy ms'
  plain : (plainKnown convert ms').Perm (plainKnown convert ms)
  given : (∃ t, (vocabularyName, t) ∈ ms') ↔ ∃ t, (vocabularyName, t) ∈ ms
  vocabulary : ∀ t, (vocabularyName, t) ∈ ms' → Padded (ObjectText vs') t ∧
    Vocabulary.layout.Tidy vs' ∧ (Vocabulary.layout.known vs').Perm (Vocabulary.layout.known vs)

end

variable {L : Library} {convert : Parts → Option Single} {ms vs ms' vs' : List (Text × Text)}
  {c : Config} {t : Text}

theorem mem_plainKnown {p : FieldSpec Config} (hp : p ∈ plainParts convert) {t : Text} :
    (p.name.toList, t) ∈ plainKnown convert ms ↔ (p.name.toList, t) ∈ ms := by
  refine List.mem_filter.trans (and_iff_left ?_)
  exact List.any_eq_true.mpr ⟨p, hp, decide_eq_true rfl⟩

/-- a field of a configuration is the vocabulary or one of the others -/
theorem mem_parts {p : FieldSpec Config} :
    p ∈ (layout convert vs).parts ↔ p ∈ plainParts convert ∨ p = vocabularyPart vs := by
  show p ∈ plainParts convert ++ [vocabularyPart vs] ↔ _
  rw [List.mem_append, List.mem_singleton]

theorem WellTyped.typed (h : WellTyped convert ms vs) : (layout convert vs).Typed ms := by
  intro p hp t ht
  obtain hp | rfl := mem_parts.mp hp
  · exact h.plain p hp t ht
  · obtain ⟨htext, htidy, htyped⟩ := h.vocabulary t ht
    obtain ⟨v, hv⟩ := exists_describes htidy htyped Vocabulary.python
    exact ⟨v, htext.imp fun hm => ⟨hm, htidy, hv⟩⟩

/-- an object that makes a configuration is well typed -/
theorem WellTyped.of_describes (htidy : (layout convert vs).Tidy ms)
    (hc : Describes (layout convert vs) default ms c) : WellTyped convert ms vs where
  tidy := htidy
  plain p hp := hc.typed htidy p (mem_parts.mpr (.inl hp))
  vocabulary t ht := by
    obtain ⟨v, hv⟩ := hc.typed htidy (vocabularyPart vs) (mem_parts.mpr (.inr rfl)) t ht
    obtain ⟨_, hmeans⟩ := hv.exists_kind
    exact ⟨hv.imp VocabularyText.text, hmeans.tidy, hmeans.describes.typed hmeans.tidy⟩

/-- the members may be put into any order -/
theorem Rearranged.of_perm (h : WellTyped convert ms vs) (hperm : ms'.Perm ms) :
    Rearranged convert ms vs ms' vs where
  tidy := h.tidy.perm hperm
  plain := hperm.filter _
  given := exists_congr fun _ => hperm.mem_iff
  vocabulary t ht := by
    obtain ⟨htext, htidy, -⟩ := h.vocabulary t (hperm.mem_iff.mp ht)
    exact ⟨htext, htidy, .refl _⟩

/-- what is said is said in any order, and among anything else -/
theorem Rearranged.describes (h : Rearranged convert ms vs ms' vs')
    (hc : Describes (layout convert vs) default ms c) :
    Describes (layout convert vs') default ms' c := by
  intro p hp
  obtain hp | rfl := mem_parts.mp hp
  · refine (hc p (mem_parts.mpr (.inl hp))).congr fun t => ?_
    rw [← mem_plainKnown hp, h.plain.mem_iff, mem_plainKnown hp]
  · obtain ⟨t, ht, v, hv, hget⟩ | ⟨hnone, hget⟩ := hc _ (mem_parts.mpr (.inr rfl))
    · obtain ⟨t', ht'⟩ := h.given.mpr ⟨t, ht⟩
      obtain ⟨htext, htidy, hperm⟩ := h.vocabulary t' ht'
      obtain ⟨_, hv⟩ := hv.exists_kind
      exact .inl ⟨t', ht', v, htext.imp fun hm => ⟨hm, htidy, hv.describes.congr hperm⟩, hget⟩
    · exact .inr ⟨fun t' ht' => (h.given.mp ⟨t', ht'⟩).elim hnone, hget⟩

section
variable (hL : L.Lawful) (hconvert : L.Converts convert)

include hL hconvert in
theorem parse_described (ht : Padded (ObjectText ms) t) (htidy : (layout convert vs).Tidy ms)
    (hc : Describes (layout convert vs) default ms c) : parse L t = ofCheck c.check := by
  have hwrites : PaddedWrites (reader L) t c := ht.imp fun hm => writes hL hconvert hm htidy hc
  unfold parse
  rw [hL.readAll hwrites]

include hL hconvert in
/-- an object makes one configuration -/
theorem describes_unique {d : Config} (ht : Padded (ObjectText ms) t)
    (htidy : (layout convert vs).Tidy ms) (hc : Describes (layout convert vs) default ms c)
    (hd : Describes (layout convert vs) default ms d) : d = c := by
  obtain ⟨m, hm⟩ := ht.exists_kind
  exact (writes hL hconvert hm htidy hd).unique (writes hL hconvert hm htidy hc)

include hL hconvert in
/-- An object for a configuration makes one configuration: it has the fields that are given, with
their values, and the default ones else, and the fields of its vocabulary that are not given are
those of the vocabulary for Python.  This configuration is what is read, unless it has a flaw.  An
object with the same fields in any order and among any others is read as the same. -/
theorem parse_partial (ht : Padded (ObjectText ms) t) (h : WellTyped convert ms vs) :
    ∃ c, (∀ d, Describes (layout convert vs) default ms d ↔ d = c) ∧
      (c.Valid → parse L t = .ok c) ∧
      (¬ c.Valid → ∃ f, c.flaw? = some f ∧ parse L t = .error (.flawed f)) ∧
      ∀ ms' vs' t', Rearranged convert ms vs ms' vs' → Padded (ObjectText ms') t' →
        parse L t' = parse L t := by
  obtain ⟨c, hc⟩ := exists_describes h.tidy h.typed default
  have hparse : parse L t = ofCheck c.check := parse_described hL hconvert ht h.tidy hc
  refine ⟨c, fun d => ⟨describes_unique hL hconvert ht h.tidy hc, ?_⟩, fun hv => ?_, fun hv => ?_, ?_⟩
  · rintro rfl
    exact hc
  · rw [hparse, check_eq_ok_iff.mpr ⟨rfl, hv⟩]
    rfl
  · rw [← flaw?_eq_none_iff] at hv
    obtain ⟨f, hf⟩ := Option.ne_none_iff_exists'.mp hv
    refine ⟨f, hf, ?_⟩
    rw [hparse, check, hf]
    rfl
  · intro ms' vs' t' hsame ht'
    rw [hparse, parse_described hL hconvert ht' hsame.tidy (hsame.describes hc)]

end

/-- a vocabulary that gives one word, with something unknown before it -/
def someWords : List (String × Text) :=
  [("case", "true".toList), ("self_token", quoted "this".toList)]

/-- a configuration that gives three fields, with something unknown before them -/
def someMembers : List (String × Text) :=
  [("theme", listed ["null".toList, listed []]), ("vocabulary", objectOf someWords),
    ("row_height_px", "18.5".toList), ("max_line_length", ' ' :: numeral 80)]

/-- what they make -/
def someConfig : Config :=
  { default with
    maxLineLength := 80
    rowHeight := .ofUnits false (37 * Single.oneUnits) 2
    vocabulary := { Vocabulary.python with selfToken := "this".toList } }

theorem tidy_someWords : Vocabulary.layout.Tidy (printedMembers someWords) where
  once := by decide
  unknown m hm hne := by
    simp only [printedMembers, someWords, List.map_cons, List.map_nil, List.mem_cons,
      List.not_mem_nil, or_false] at hm
    obtain rfl | rfl := hm
    · exact .yes
    · exact absurd hne (by decide)

theorem tidy_someMembers :
    (layout Parts.scaled? (printedMembers someWords)).Tidy (printedMembers someMembers) where
  once := by decide
  unknown m hm hne := by
    simp only [printedMembers, someMembers, List.map_cons, List.map_nil, List.mem_cons,
      List.not_mem_nil, or_false] at hm
    obtain rfl | rfl | rfl | rfl := hm
    · refine .list (fun u hu => ?_) (enclosed_listed _)
      obtain rfl | hu := List.mem_cons.mp hu
      · exact .null
      · rw [List.mem_singleton.mp hu]
        exact .list (fun _ h => absurd h List.not_mem_nil) (enclosed_listed [])
    · exact absurd hne (by decide)
    · exact absurd hne (by decide)
    · exact absurd hne (by decide)

theorem vocabularyText_someWords :
    Padded (VocabularyText (printedMembers someWords) someConfig.vocabulary)
      (objectOf someWords) := by
  have hself : Vocabulary.selfPart ∈ Vocabulary.layout.parts := .tail _ (.tail _ (.head _))
  refine padded_self ⟨objectText_objectOf someWords, tidy_someWords, ?_⟩
  refine (describes_unknown (by decide)).mpr ((describes_known tidy_someWords.tail hself).mpr ?_)
  exact ⟨"this".toList, padded_self (stringText_quoted _), describes_nil.mpr rfl⟩

theorem naturalText_80 : Padded (NaturalText 80) (' ' :: numeral 80) := by
  refine ⟨[' '], numeral 80, [], fun c hc => ?_, ⟨by decide, rfl⟩, spaces_nil, rfl⟩
  rw [List.mem_singleton.mp hc]
  rfl

theorem singleText_18_5 : SingleText Parts.scaled? someConfig.rowHeight "18.5".toList := by
  refine ⟨⟨⟨['1', '8'], some ['5'], none⟩, false⟩, ?_, by decide +kernel, rfl⟩
  refine ⟨by decide, List.cons_ne_nil _ _, by decide, ?_, fun _ h => nomatch h⟩
  intro ds hds
  cases hds
  exact ⟨by decide, List.cons_ne_nil _ _⟩

theorem describes_someMembers :
    Describes (layout Parts.scaled? (printedMembers someWords)) default (printedMembers someMembers)
      someConfig := by
  have htidy := tidy_someMembers.tail
  have hlength : lengthPart ∈ (layout Parts.scaled? (printedMembers someWords)).parts := .head _
  have hheight : heightPart Parts.scaled? ∈
      (layout Parts.scaled? (printedMembers someWords)).parts := .tail _ (.head _)
  refine (describes_unknown (by decide)).mpr ?_
  refine (describes_known htidy (mem_parts.mpr (.inr rfl))).mpr ⟨_, vocabularyText_someWords, ?_⟩
  refine (describes_known htidy.tail hheight).mpr ⟨_, padded_self singleText_18_5, ?_⟩
  refine (describes_known htidy.tail.tail hlength).mpr ⟨(80 : Nat), naturalText_80, ?_⟩
  exact describes_nil.mpr rfl

theorem parse_partial_some :
    Library.standard.Lawful ∧ Library.standard.Converts Parts.scaled? ∧
      Padded (ObjectText (printedMembers someMembers)) (objectOf someMembers) ∧
      WellTyped Parts.scaled? (printedMembers someMembers) (printedMembers someWords) ∧
      parse .standard (objectOf someMembers) = .ok someConfig ∧
      parse .standard (objectOf someMembers.reverse) = .ok someConfig := by
  have hL := Library.lawful_standard
  have hconvert : Library.standard.Converts Parts.scaled? := Library.converts_converting _
  have ht := padded_self (objectText_objectOf someMembers)
  have hwell := WellTyped.of_describes tidy_someMembers describes_someMembers
  obtain ⟨c, hc, hvalid, -, hsame⟩ := parse_partial hL hconvert ht hwell
  obtain rfl := (hc _).mp describes_someMembers
  have hparse := hvalid ((flaw?_eq_none_iff _).mp (by decide))
  have hreverse : (printedMembers someMembers.reverse).Perm (printedMembers someMembers) :=
    (List.reverse_perm _).map _
  refine ⟨hL, hconvert, ht, hwell, hparse, ?_⟩
  rw [← hparse]
  exact hsame _ _ _ (.of_perm hwell hreverse) (padded_self (objectText_objectOf _))

end LineEditor.Config
