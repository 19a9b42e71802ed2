import LineEditor.Text.Basic

/-!
# The bytes of a text

Hosts keep a line in its UTF-8 form and address it by byte indices. A part of a line exists only
between indices at which no character is cut in two.
-/

namespace LineEditor.Text

/-- the UTF-8 form -/
def encode (s : Text) : Array UInt8 := (s.flatMap String.utf8EncodeChar).toArray

/-- the text behind its first `n` bytes; none, if they end inside a character or the text is
shorter -/
def dropBytes : Text → Nat → Option Text
  | s, 0 => some s
  | [], _ + 1 => none
  | c :: s, n + 1 => if c.utf8Size ≤ n + 1 then dropBytes s (n + 1 - c.utf8Size) else none

/-- the first `n` bytes of a text; none, if they end inside a character or the text is shorter -/
def takeBytes : Text → Nat → Option Text
  | _, 0 => some []
  | [], _ + 1 => none
  | c :: s, n + 1 =>
    if c.utf8Size ≤ n + 1 then (takeBytes s (n + 1 - c.utf8Size)).map (c :: ·) else none

/-- the part of a text between two byte indices, if there is one -/
def slice (s : Text) (start stop : Nat) : Option Text :=
  if start ≤ stop then (s.dropBytes start).bind fun t => t.takeBytes (stop - start) else none

end LineEditor.Text
