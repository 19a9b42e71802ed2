import LineEditor.Json.Standard
import LineEditor.Proofs.JsonObjects

/-!
# The standard library is lawful

Whatever the conversion of numbers to single precision, the library has the laws, and it reads those
numbers by way of the conversion.
-/

namespace LineEditor.Json.Library

theorem lawful_converting (convert : Parts → Option Single) : (converting convert).Lawful where
  string := writes_string
  natural := writes_natural
  list := writes_list
  choice := writes_choice
  object hnames := writes_record hnames
  positions := writes_record_positions
  readAll h := h.readAll
  printString _ := rfl
  printNatural _ := rfl
  printList _ := rfl
  printObject _ := rfl

theorem converts_converting (convert : Parts → Option Single) :
    (converting convert).Converts convert := writes_single

theorem lawful_standard : standard.Lawful := lawful_converting _

theorem lawful_nearest : nearest.Lawful := lawful_converting _

end LineEditor.Json.Library
