import LineEditor.Json.Library
import LineEditor.Proofs.JsonGrammar

/-!
# The laws of a library for JSON

What is asked of a library, whichever it is.  A text `Writes` a value for a reader if the reader
takes exactly the text, whatever space stands before and whatever closes the value behind it, and
gives the value.  A lawful library reads what the notation of JSON says, and puts readers together:
for lists, for names out of a fixed set, and for records.  A record is changed by one member after
the other, from the record that it starts with; members that it does not know are passed over.

* `Writes`, `PaddedWrites`        a text and the value that a reader reads from it;
* `Changes`, `ChangesInOrder`     what the members of an object, or a list of fields, do to a
record;
* `Library.Lawful`                the laws;
* `Library.Converts`              the conversion of numbers to single precision.
-/

namespace LineEditor.Json

variable {α β σ : Type}

/-! ## Written values -/

/-- what may stand behind a value: the end, space, a comma or a bracket that closes -/
def Closes (r : Text) : Prop :=
  ∀ c ∈ r.head?, isJsonSpace c = true ∨ c = ',' ∨ c = ']' ∨ c = '}'

/-- the text is one that the reader reads as the value, and it starts with a character that neither
is space nor closes a list -/
structure Writes (reader : Reader α) (t : Text) (a : α) : Prop where
  starts : ∃ c s, t = c :: s ∧ isJsonSpace c = false ∧ c ≠ ']'
  reads : ∀ {l r}, Spaces l → Closes r → reader.run (l ++ (t ++ r)) = .ok (a, r)

/-- the text writes the value, with space around it -/
def PaddedWrites (reader : Reader α) (t : Text) (a : α) : Prop := Padded (Writes reader · a) t

theorem closes_nil : Closes [] := fun _ h => nomatch h

theorem closes_cons {c : Char} (h : c = ',' ∨ c = ']' ∨ c = '}') (r : Text) : Closes (c :: r) := by
  intro d hd
  cases hd
  exact .inr h

theorem closes_append {b r : Text} (hb : Spaces b) (hr : Closes r) : Closes (b ++ r) := by
  cases b with
  | nil => exact hr
  | cons c b =>
    intro d hd
    cases hd
    exact .inl (hb c (List.mem_cons_self ..))

namespace Writes
variable {reader : Reader α} {t : Text} {a b : α}

theorem padded (h : Writes reader t a) : PaddedWrites reader t a := padded_self h

/-- a reader gives one value only -/
theorem unique (h : Writes reader t a) (h' : Writes reader t b) : a = b := by
  have heq := (h.reads spaces_nil closes_nil).symm.trans (h'.reads spaces_nil closes_nil)
  exact congrArg Prod.fst (Except.ok.inj heq)

theorem map (h : Writes reader t a) (f : α → β) : Writes (reader.map f) t (f a) where
  starts := h.starts
  reads hl hr := by simp only [Reader.map, h.reads hl hr]

end Writes

theorem PaddedWrites.run {reader : Reader α} {t : Text} {a : α} (h : PaddedWrites reader t a)
    {r : Text} (hr : Closes r) : ∃ b, Spaces b ∧ reader.run (t ++ r) = .ok (a, b ++ r) := by
  obtain ⟨l, m, b, hl, hm, hb, rfl⟩ := h
  refine ⟨b, hb, ?_⟩
  rw [List.append_assoc, List.append_assoc]
  exact hm.reads hl (closes_append hb hr)

/-! ## Records -/

/-- The members `ms` of an object turn the record `x` into `y`.  A member with the name of a field
has a value of the field and stands once; any other member has any value. -/
inductive Changes (fields : List (RecordField σ)) : List (Text × Text) → σ → σ → Prop
  | nil (x : σ) : Changes fields [] x x
  | known {f : RecordField σ} {v : Text} {change : σ → σ} {ms : List (Text × Text)} {x y : σ}
      (hf : f ∈ fields) (hv : PaddedWrites f.value v change)
      (hnew : ∀ m ∈ ms, m.1 ≠ f.name.toList) (h : Changes fields ms (change x) y) :
      Changes fields ((f.name.toList, v) :: ms) x y
  | unknown {name v : Text} {ms : List (Text × Text)} {x y : σ}
      (hname : ∀ f ∈ fields, name ≠ f.name.toList) (hv : WellFormed v)
      (h : Changes fields ms x y) : Changes fields ((name, v) :: ms) x y

/-- the values `vs` of fields in their order turn the record `x` into `y`; the last fields may be
missing -/
inductive ChangesInOrder : List (RecordField σ) → List Text → σ → σ → Prop
  | nil (fields : List (RecordField σ)) (x : σ) : ChangesInOrder fields [] x x
  | cons {f : RecordField σ} {fields : List (RecordField σ)} {v : Text} {vs : List Text}
      {change : σ → σ} {x y : σ} (hv : PaddedWrites f.value v change)
      (h : ChangesInOrder fields vs (change x) y) : ChangesInOrder (f :: fields) (v :: vs) x y

/-! ## The laws -/

/-- a library that reads and writes JSON as its notation says -/
structure Library.Lawful (L : Library) : Prop where
  string {s t : Text} (h : StringText s t) : Writes L.string t s
  natural {n : Nat} {t : Text} (h : NaturalText n t) : Writes L.natural t n
  list {α : Type} {item : Reader α} {as : List α} {ts : List Text} {t : Text}
    (h : List.Forall₂ (fun a u => PaddedWrites item u a) as ts) (ht : Enclosed '[' ']' ts t) :
    Writes (L.list item) t as
  choice {α : Type} {ofName? : Text → Option α} {name t : Text} {a : α}
    (ha : ofName? name = some a) (ht : ChoiceText name t) : Writes (L.choice ofName?) t a
  object {σ α : Type} {fields : List (RecordField σ)} {start x : σ} {finish : σ → Option α} {a : α}
    {ms : List (Text × Text)} {t : Text} (hfields : (fields.map RecordField.name).Nodup)
    (ht : ObjectText ms t) (h : Changes fields ms start x) (hfinish : finish x = some a) :
    Writes (L.record fields start finish) t a
  positions {σ α : Type} {fields : List (RecordField σ)} {start x : σ} {finish : σ → Option α}
    {a : α} {vs : List Text} {t : Text} (ht : Enclosed '[' ']' vs t)
    (h : ChangesInOrder fields vs start x) (hfinish : finish x = some a) :
    Writes (L.record fields start finish) t a
  readAll {α : Type} {reader : Reader α} {t : Text} {a : α} (h : PaddedWrites reader t a) :
    L.readAll reader t = .ok a
  printString (s : Text) : L.printString s = quoted s
  printNatural (n : Nat) : L.printNatural n = numeral n
  printList (values : List Text) : L.printList values = listed values
  printObject (members : List (String × Text)) : L.printObject members = objectOf members

/-- the numbers of single precision are read by way of the conversion -/
def Library.Converts (L : Library) (convert : Parts → Option Single) : Prop :=
  ∀ {x : Single} {t : Text}, SingleText convert x t → Writes L.single t x

theorem Library.Lawful.listText {L : Library} (hL : L.Lawful) {item : Reader α}
    {Item : α → Text → Prop} {as : List α} {t : Text}
    (hitem : ∀ {a u}, Item a u → Writes item u a) (h : ListText Item as t) :
    Writes (L.list item) t as := by
  obtain ⟨ts, hts, ht⟩ := h
  refine hL.list (hts.imp fun a u hu => ?_) ht
  exact hu.imp hitem

end LineEditor.Json
