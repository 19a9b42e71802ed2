import LineEditor.Tag

/-!
# Themes

A theme gives every tag a colour.
-/

namespace LineEditor

/-- a colour by its red, green and blue parts -/
structure Rgb where
  red : UInt8
  green : UInt8
  blue : UInt8
deriving DecidableEq

namespace Rgb

/-- two hexadecimal digits -/
def hexByte (b : UInt8) : Text := [Nat.digitChar (b.toNat / 16), Nat.digitChar (b.toNat % 16)]

/-- the colour as a hash and six hexadecimal digits -/
def hex (c : Rgb) : Text := '#' :: (hexByte c.red ++ hexByte c.green ++ hexByte c.blue)

end Rgb

/-- a colour for every tag -/
structure Theme where
  color : Tag → Rgb

namespace Theme

/-- the colours for a dark background -/
def dark : Theme where
  color
    | .keyword => ⟨0xC0, 0x84, 0xFC⟩
    | .typeName | .decorator => ⟨0xFD, 0xE0, 0x47⟩
    | .functionName | .dunder => ⟨0x60, 0xA5, 0xFA⟩
    | .member => ⟨0x93, 0xC5, 0xFD⟩
    | .selfRef => ⟨0xFB, 0x92, 0x3C⟩
    | .string => ⟨0x4A, 0xDE, 0x80⟩
    | .number => ⟨0x67, 0xE8, 0xF9⟩
    | .builtin => ⟨0xA5, 0xB4, 0xFC⟩
    | .comment => ⟨0x6B, 0x72, 0x80⟩
    | .default => ⟨0xFF, 0xFF, 0xFF⟩

/-- the theme with another colour for one tag -/
def set (th : Theme) (t : Tag) (c : Rgb) : Theme :=
  ⟨fun u => if u = t then c else th.color u⟩

theorem color_set_self (th : Theme) (t : Tag) (c : Rgb) : (th.set t c).color t = c := by
  simp [set]

theorem color_set_of_ne (th : Theme) {t u : Tag} (c : Rgb) (h : u ≠ t) :
    (th.set t c).color u = th.color u := by
  simp [set, h]

end Theme

end LineEditor
