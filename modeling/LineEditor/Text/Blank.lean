import LineEditor.Text.Basic

/-!
# Blank characters

The characters with the Unicode property `White_Space`, and trimming by them.
-/

namespace LineEditor

/-- the property `White_Space` -/
def isBlank (c : Char) : Bool :=
  let n := c.toNat
  (0x09 ≤ n && n ≤ 0x0D) || n = 0x20 || n = 0x85 || n = 0xA0 || n = 0x1680 ||
  (0x2000 ≤ n && n ≤ 0x200A) || n = 0x2028 || n = 0x2029 || n = 0x202F || n = 0x205F || n = 0x3000

/-- the text without the blank characters at its end -/
def trimEnd (s : Text) : Text := (s.reverse.dropWhile isBlank).reverse

/-- the text without the blank characters at both ends -/
def trim (s : Text) : Text := trimEnd (s.dropWhile isBlank)

end LineEditor
