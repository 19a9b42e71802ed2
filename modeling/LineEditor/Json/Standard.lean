import LineEditor.Json.Choice
import LineEditor.Json.Record

/-!
# The standard library

The readers and writers of the modules below this one as a library. Only the conversion of numbers
to single precision is left open: the standard library scales a significand by a power of ten,
another one takes the nearest double.
-/

namespace LineEditor.Json.Library

/-- the readers and writers, with a conversion of numbers -/
def converting (convert : Parts → Option Single) : Library where
  string := .string
  natural := .natural
  single := .single convert
  list := .list
  choice := .choice
  record := .record
  readAll := Reader.readAll
  printString := quoted
  printNatural := numeral
  printSingle := Json.printSingle
  printList := listed
  printObject := objectOf

/-- the library that the program runs with -/
def standard : Library := converting Parts.scaled?

/-- the library that reads a number as the nearest double first -/
def nearest : Library := converting Parts.nearest?

end LineEditor.Json.Library
