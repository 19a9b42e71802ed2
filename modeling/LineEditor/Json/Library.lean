import LineEditor.Number.Single
import LineEditor.Text.Basic

/-!
# Libraries for JSON

What is asked of a library for JSON. It has readers for values of a few types, puts them together
for lists, names out of a fixed set and records, and reads a whole text with a reader; and it writes
strings, numbers, lists and objects. A reader takes a value from the front of a text and leaves the
text behind it, or stops at the first fault.
-/

namespace LineEditor.Json

/-- what is wrong with a text -/
inductive Fault
  /-- it ends inside of a value -/
  | truncated
  /-- it is no JSON -/
  | malformed
  /-- it is JSON up to here, but of another type or shape than asked for -/
  | mismatched
deriving DecidableEq

/-- what a step of reading gives: a value and the rest of the text, or a fault -/
abbrev Step (α : Type) := Except Fault (α × Text)

/-! ## Readers -/

/-- a way to read values of a type -/
structure Reader (α : Type) where
  run : Text → Step α
  /-- the rest is shorter than the text -/
  takes : ∀ {s a r}, run s = .ok (a, r) → r.length < s.length

/-- reads another form of the value -/
def Reader.map {α β : Type} (f : α → β) (reader : Reader α) : Reader β where
  run s :=
    match reader.run s with
    | .ok (a, r) => .ok (f a, r)
    | .error e => .error e
  takes h := by
    split at h
    · rename_i hr
      cases h
      exact reader.takes hr
    · cases h

/-- a field of a record that is built up in the type `σ` -/
structure RecordField (σ : Type) where
  name : String
  /-- reads the value, as a change of the record -/
  value : Reader (σ → σ)

/-- a field with a value of its own type and the way to set it -/
def RecordField.of {σ α : Type} (name : String) (value : Reader α) (set : α → σ → σ) :
    RecordField σ :=
  ⟨name, value.map set⟩

/-! ## The library -/

/-- a library that reads and writes JSON -/
structure Library where
  string : Reader Text
  /-- reads a count -/
  natural : Reader Nat
  single : Reader Single
  list : {α : Type} → Reader α → Reader (List α)
  /-- reads a value by its name -/
  choice : {α : Type} → (Text → Option α) → Reader α
  /-- reads a record by its fields, from the record to start with, and makes a value of the record
  in the end, if it is complete -/
  record : {σ α : Type} → List (RecordField σ) → σ → (σ → Option α) → Reader α
  /-- reads a whole text as one value -/
  readAll : {α : Type} → Reader α → Text → Except Fault α
  printString : Text → Text
  printNatural : Nat → Text
  printSingle : Single → Text
  /-- writes a list of written values -/
  printList : List Text → Text
  /-- writes an object of named written values -/
  printObject : List (String × Text) → Text

end LineEditor.Json
