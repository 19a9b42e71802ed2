import LineEditor.Text.Basic

/-!
# String literals

How many characters of a text belong to a string literal at its start; zero says that there is
none. A literal opens with a quote, or with three of one quote, and a prefix of letters may stand
before it. It ends behind the first closer that is not escaped; where there is none, at the end of
the line. A prefix with an `r` makes the literal raw: then a backslash escapes nothing.
-/

namespace LineEditor.Token

/-- a single or a double quote -/
def isQuote (c : Char) : Bool := c = '"' || c = '\''

/-- the prefixes, in lower case -/
def literalPrefixes : List String :=
  ["", "r", "u", "f", "b",
    "br", "rb", "fr", "rf", "ur", "ru", "fb", "bf", "fu", "uf",
    "bfr", "brf", "rfr", "rfb", "fbr", "frb"]

/-- whether `w` is a prefix, in any mixture of cases -/
def isLiteralPrefix (w : Text) : Bool :=
  literalPrefixes.any fun p => p.toList = w.map Char.toLower

/-- whether a prefix makes its literal raw -/
def isRaw (w : Text) : Bool := w.any fun c => c.toLower = 'r'

/-- the number of characters up to the end of a literal, from behind its opener. The first argument
says that the character before is a backslash that escapes the next one. -/
def literalBody (raw : Bool) (closer : Text) : Bool → Text → Nat
  | _, [] => 0
  | true, _ :: s => 1 + literalBody raw closer false s
  | false, c :: s =>
    if !raw && c = '\\' then 1 + literalBody raw closer true s
    else if closer.isPrefixOf (c :: s) then closer.length
    else 1 + literalBody raw closer false s

/-- the quotes that open a literal at the quote `q`, which `s` follows: three of them or one -/
def opener (q : Char) (s : Text) : Text := if [q, q].isPrefixOf s then [q, q, q] else [q]

/-- the length of the string literal at the start of `s` -/
def literal (s : Text) : Nat :=
  let w := s.takeWhile Char.isAlpha
  match s.drop w.length with
  | [] => 0
  | q :: t =>
    if isQuote q && isLiteralPrefix w then
      let o := opener q t
      w.length + o.length + literalBody (isRaw w) o false ((q :: t).drop o.length)
    else 0

/-! ## Lengths -/

theorem isPrefix_opener (q : Char) (s : Text) : opener q s <+: q :: s := by
  unfold opener
  split
  · rename_i h
    simpa using List.isPrefixOf_iff_prefix.mp h
  · exact List.prefix_append [q] s

end LineEditor.Token
