import LineEditor.Json.Notation
import LineEditor.Proofs.DecimalText
import Mathlib.Data.List.Forall2

/-!
# The notation of JSON

JSON texts in full: space between any two parts, every escape of a string, every form of a number.
What a string means is part of its notation; what a number is worth in single precision is left to a
conversion of its parts.

* `Spaces`, `Padded`, `Enclosed`   space, and lists of texts between brackets;
* `Spells`, `StringText`           strings with their meaning; `AnyString` allows lone surrogates;
* `Numeric`                        numbers as they are written;
* `NaturalText`, `SingleText`, `ListText`, `ObjectText`, `ChoiceText`   values with their meaning;
* `WellFormed`                     all values.

What is written without any space is such a text (`stringText_quoted`, `listText_map`,
`objectText_objectOf`).
-/

namespace LineEditor.Json

/-! ## Space and brackets -/

/-- nothing but space -/
def Spaces (s : Text) : Prop := ∀ c ∈ s, isJsonSpace c = true

/-- a text of some kind with space around it -/
def Padded (Kind : Text → Prop) (t : Text) : Prop :=
  ∃ l m r, Spaces l ∧ Kind m ∧ Spaces r ∧ t = l ++ (m ++ r)

/-- texts with commas between them, in brackets -/
inductive Enclosed (first last : Char) : List Text → Text → Prop
  | empty {s : Text} (hs : Spaces s) : Enclosed first last [] (first :: (s ++ [last]))
  | items {ts : List Text} (hne : ts ≠ []) :
      Enclosed first last ts (first :: (separated ts ++ [last]))

theorem spaces_nil : Spaces [] := fun _ h => nomatch h

theorem padded_self {Kind : Text → Prop} {t : Text} (h : Kind t) : Padded Kind t :=
  ⟨[], t, [], spaces_nil, h, spaces_nil, (List.append_nil t).symm⟩

theorem Padded.imp {Kind Kind' : Text → Prop} {t : Text} (h : Padded Kind t)
    (himp : ∀ {m}, Kind m → Kind' m) : Padded Kind' t := by
  obtain ⟨l, m, r, hl, hm, hr, rfl⟩ := h
  exact ⟨l, m, r, hl, himp hm, hr, rfl⟩

theorem Padded.exists_kind {Kind : Text → Prop} {t : Text} (h : Padded Kind t) : ∃ m, Kind m := by
  obtain ⟨-, m, -, -, hm, -, -⟩ := h
  exact ⟨m, hm⟩

theorem enclosed_listed (ts : List Text) : Enclosed '[' ']' ts (listed ts) := by
  cases ts with
  | nil => exact .empty spaces_nil
  | cons t ts => exact .items (List.cons_ne_nil t ts)

/-! ## Strings -/

/-- four hexadecimal digits and what they are worth -/
inductive CodeUnit : Text → Nat → Prop
  | digits {a b c d : Char} {w x y z : Nat} (ha : hexValue? a = some w) (hb : hexValue? b = some x)
      (hc : hexValue? c = some y) (hd : hexValue? d = some z) :
      CodeUnit [a, b, c, d] (4096 * w + 256 * x + 16 * y + z)

/-- what stands between the quotes of a string, and the text that it means: characters as they are,
escapes of one letter, code units, and pairs of surrogates -/
inductive Spells : Text → Text → Prop
  | nil : Spells [] []
  | plain {c : Char} {b s : Text} (hquote : c ≠ '"') (hslash : c ≠ '\\') (hc : 0x20 ≤ c.toNat)
      (h : Spells b s) : Spells (c :: b) (c :: s)
  | letter {e c : Char} {b s : Text} (he : simpleEscape? e = some c) (h : Spells b s) :
      Spells ('\\' :: e :: b) (c :: s)
  | unit {u b s : Text} {n : Nat} (hu : CodeUnit u n) (hn : n < 0xD800 ∨ 0xDFFF < n)
      (h : Spells b s) : Spells ('\\' :: 'u' :: (u ++ b)) (Char.ofNat n :: s)
  | pair {u v b s : Text} {m n : Nat} (hu : CodeUnit u m) (hm : 0xD800 ≤ m ∧ m ≤ 0xDBFF)
      (hv : CodeUnit v n) (hn : 0xDC00 ≤ n ∧ n ≤ 0xDFFF) (h : Spells b s) :
      Spells ('\\' :: 'u' :: (u ++ '\\' :: 'u' :: (v ++ b)))
        (Char.ofNat (0x10000 + (m - 0xD800) * 0x400 + (n - 0xDC00)) :: s)

/-- what may stand between the quotes of a string that is passed over -/
inductive Escapes : Text → Prop
  | nil : Escapes []
  | plain {c : Char} {b : Text} (hquote : c ≠ '"') (hslash : c ≠ '\\') (hc : 0x20 ≤ c.toNat)
      (h : Escapes b) : Escapes (c :: b)
  | letter {e : Char} {b : Text} (he : (simpleEscape? e).isSome) (h : Escapes b) :
      Escapes ('\\' :: e :: b)
  | unit {u b : Text} {n : Nat} (hu : CodeUnit u n) (h : Escapes b) :
      Escapes ('\\' :: 'u' :: (u ++ b))

/-- a string that means `s` -/
def StringText (s t : Text) : Prop := ∃ b, Spells b s ∧ t = '"' :: (b ++ ['"'])

/-- a string, whatever it means -/
def AnyString (t : Text) : Prop := ∃ b, Escapes b ∧ t = '"' :: (b ++ ['"'])

theorem hexValue?_hexDigit : ∀ n < 16, hexValue? (hexDigit n) = some n := by decide

/-- the code unit of a control character -/
theorem codeUnit_control {n : Nat} (h : n < 0x20) :
    CodeUnit ['0', '0', hexDigit (n / 16), hexDigit (n % 16)] n := by
  have hzero : hexValue? '0' = some 0 := rfl
  have hhigh := hexValue?_hexDigit (n / 16) (by omega)
  have hlow := hexValue?_hexDigit (n % 16) (by omega)
  have hunit := CodeUnit.digits hzero hzero hhigh hlow
  rwa [show 4096 * 0 + 256 * 0 + 16 * (n / 16) + n % 16 = n by omega] at hunit

/-- the written form of a character means the character -/
theorem spells_escaped_append {c : Char} {b s : Text} (h : Spells b s) :
    Spells (escaped c ++ b) (c :: s) := by
  unfold escaped
  repeat' split
  iterate 7
    · rename_i hc
      exact .letter (by rw [hc]; rfl) h
  · rename_i hcontrol
    have hunit := Spells.unit (codeUnit_control hcontrol) (.inl (by omega)) h
    rwa [Char.ofNat_toNat] at hunit
  · rename_i hquote hslash _ _ _ _ _ hcontrol
    exact .plain hquote hslash (Nat.le_of_not_lt hcontrol) h

/-- what is written between quotes means the text -/
theorem spells_escaped (s : Text) : Spells (s.flatMap escaped) s := by
  induction s with
  | nil => exact .nil
  | cons c s ih =>
    rw [List.flatMap_cons]
    exact spells_escaped_append ih

theorem stringText_quoted (s : Text) : StringText s (quoted s) := ⟨_, spells_escaped s, rfl⟩

/-! ## Numbers -/

/-- a number as it is written: a decimal behind a minus or none -/
structure Numeric extends DecimalText where
  isMinus : Bool

/-- no leading zero, and digits before the point and behind it -/
structure Numeric.Proper (p : Numeric) : Prop where
  whole : AllDigits p.whole
  whole_ne_nil : p.whole ≠ []
  leading : ¬ (p.whole.head? = some '0' ∧ 1 < p.whole.length)
  fraction : ∀ ds ∈ p.fraction, AllDigits ds ∧ ds ≠ []
  power : ∀ q ∈ p.power, q.Proper

def Numeric.text (p : Numeric) : Text := Single.minus p.isMinus ++ p.toDecimalText.text

def Numeric.parts (p : Numeric) : Parts :=
  ⟨p.isMinus, p.whole, p.fraction, p.power.map Power.value⟩

/-- a whole number up to the greatest count -/
def NaturalText (n : Nat) (t : Text) : Prop := n ≤ maxCount ∧ t = numeral n

/-- a number that is converted to `x` -/
def SingleText (convert : Parts → Option Single) (x : Single) (t : Text) : Prop :=
  ∃ p : Numeric, p.Proper ∧ convert p.parts = some x ∧ t = p.text

/-! ## Values -/

/-- a member of an object: a name of some kind, a colon and the text of the value -/
def Member (Name : Text → Prop) (value t : Text) : Prop :=
  ∃ l n r, Spaces l ∧ Name n ∧ Spaces r ∧ t = l ++ (n ++ (r ++ ':' :: value))

/-- a list of items of some kind -/
def ListText {α : Type} (Item : α → Text → Prop) (as : List α) (t : Text) : Prop :=
  ∃ ts, List.Forall₂ (fun a u => Padded (Item a) u) as ts ∧ Enclosed '[' ']' ts t

/-- an object with members of given names and values, in their order; space before a value and
behind it belongs to the text of the value -/
def ObjectText (ms : List (Text × Text)) (t : Text) : Prop :=
  ∃ ts, List.Forall₂ (fun m u => Member (StringText m.1) m.2 u) ms ts ∧ Enclosed '{' '}' ts t

/-- a name out of a fixed set: a string, or an object with the name as its only member, whose value
is null -/
def ChoiceText (name t : Text) : Prop :=
  StringText name t ∨ ∃ v, Padded (· = "null".toList) v ∧ ObjectText [(name, v)] t

/-- any JSON value, with or without space around it -/
inductive WellFormed : Text → Prop
  | null : WellFormed "null".toList
  | yes : WellFormed "true".toList
  | no : WellFormed "false".toList
  | number {p : Numeric} (hp : p.Proper) : WellFormed p.text
  | string {t : Text} (ht : AnyString t) : WellFormed t
  | list {ts : List Text} {t : Text} (hts : ∀ u ∈ ts, WellFormed u) (ht : Enclosed '[' ']' ts t) :
      WellFormed t
  | object {vs ts : List Text} {t : Text} (hvs : ∀ v ∈ vs, WellFormed v)
      (hms : List.Forall₂ (Member AnyString) vs ts) (ht : Enclosed '{' '}' ts t) : WellFormed t
  | padded {l m r : Text} (hl : Spaces l) (hm : WellFormed m) (hr : Spaces r) :
      WellFormed (l ++ (m ++ r))

/-! ## What is written without space -/

theorem exists_of_mem_right.{u, v} {α : Type u} {β : Type v} {R : α → β → Prop} {as : List α}
    {bs : List β} (h : List.Forall₂ R as bs) {b : β} (hb : b ∈ bs) : ∃ a ∈ as, R a b := by
  induction h with
  | nil => cases hb
  | @cons a' b' as bs hab _ ih =>
    obtain rfl | hb := List.mem_cons.mp hb
    · exact ⟨a', List.mem_cons_self .., hab⟩
    · obtain ⟨a, ha, hab⟩ := ih hb
      exact ⟨a, List.mem_cons_of_mem _ ha, hab⟩

theorem forall₂_map {α : Type} {R : α → Text → Prop} {print : α → Text} {as : List α}
    (h : ∀ a ∈ as, R a (print a)) : List.Forall₂ R as (as.map print) :=
  List.forall₂_map_right_iff.mpr (List.forall₂_same.mpr h)

theorem listText_map {α : Type} {Item : α → Text → Prop} {print : α → Text} {as : List α}
    (h : ∀ a ∈ as, Item a (print a)) : ListText Item as (listed (as.map print)) :=
  ⟨as.map print, forall₂_map fun a ha => padded_self (h a ha), enclosed_listed _⟩

/-- the members of a written object -/
def printedMembers (ms : List (String × Text)) : List (Text × Text) :=
  ms.map fun m => (m.1.toList, m.2)

theorem objectText_objectOf (ms : List (String × Text)) :
    ObjectText (printedMembers ms) (objectOf ms) := by
  refine ⟨ms.map fun m => memberOf m.1 m.2, ?_, ?_⟩
  · refine List.forall₂_map_left_iff.mpr (forall₂_map fun m _ => ?_)
    exact ⟨[], _, [], spaces_nil, stringText_quoted _, spaces_nil, rfl⟩
  · cases ms with
    | nil => exact .empty spaces_nil
    | cons m ms => exact .items (List.cons_ne_nil _ _)

end LineEditor.Json
