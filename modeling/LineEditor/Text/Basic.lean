/-!
# Texts

The editor inserts, removes and cuts single characters, so a text is the list of its characters.
Positions inside a line are counted in bytes of its UTF-8 form, the unit in which hosts address
spans of a line.
-/

namespace LineEditor

/-- a text as the list of its characters -/
abbrev Text := List Char

/-! ## Size in UTF-8 -/

/-- the number of bytes of the UTF-8 form -/
def Text.utf8Size : Text → Nat
  | [] => 0
  | c :: s => c.utf8Size + Text.utf8Size s

theorem Text.utf8Size_nil : Text.utf8Size [] = 0 := rfl

theorem Text.utf8Size_cons (c : Char) (s : Text) :
    Text.utf8Size (c :: s) = c.utf8Size + Text.utf8Size s := rfl

theorem Text.utf8Size_append (s t : Text) :
    Text.utf8Size (s ++ t) = Text.utf8Size s + Text.utf8Size t := by
  induction s with
  | nil => simp [Text.utf8Size_nil]
  | cons c s ih => simp [Text.utf8Size_cons, ih, Nat.add_assoc]

/-! ## Classes of characters -/

/-- the control characters: below U+0020, and U+007F to U+009F -/
def isControl (c : Char) : Bool := c.toNat < 0x20 || (0x7F ≤ c.toNat && c.toNat ≤ 0x9F)

/-- a line feed or a carriage return -/
def isLineBreak (c : Char) : Bool := c = '\n' || c = '\r'

end LineEditor
