import LineEditor.Text.Bytes
import LineEditor.Token.Basic

/-!
# Scanning bytes

The cut of a line as hosts make it, on the bytes of its UTF-8 form: a scanner for each shape starts
at a byte index and answers with the index behind the lexeme. Nearly every scanner asks for ASCII
characters only, and a byte stands for the character of its code. Reading where there is no byte,
slicing a character in two and standing still are faults, which end the scan.
-/

namespace LineEditor.Token

/-- what can end a scan -/
inductive Fault
  /-- there is no byte at the index -/
  | noByte (index : Nat)
  /-- nothing lies between the indices, or they cut a character in two -/
  | noSlice (start stop : Nat)
  /-- the lexeme at the index would be empty, so the scan would stay there forever -/
  | noProgress (index : Nat)
deriving DecidableEq

/-! ## Reading bytes -/

/-- whether there is a byte at the index, and it stands for a character in `p` -/
def byteIs (p : Char → Bool) (bytes : Array UInt8) (i : Nat) : Bool :=
  bytes[i]?.any fun b => p (Char.ofUInt8 b)

/-- the first index from `i` on whose byte is not in `p` -/
def skip (p : Char → Bool) (bytes : Array UInt8) (i : Nat) : Nat :=
  if h : i < bytes.size then
    if p (Char.ofUInt8 bytes[i]) then skip p bytes (i + 1) else i
  else i
termination_by bytes.size - i

/-- whether the bytes from `i` on start with those of an ASCII text -/
def byteStarts (bytes : Array UInt8) : Text → Nat → Bool
  | [], _ => true
  | c :: s, i => byteIs (· = c) bytes i && byteStarts bytes s (i + 1)

/-- the bytes between two indices, each as the character of its code -/
def byteText (bytes : Array UInt8) (start stop : Nat) : Except Fault Text :=
  if start ≤ stop ∧ stop ≤ bytes.size then
    .ok ((bytes.extract start stop).toList.map Char.ofUInt8)
  else .error (.noSlice start stop)

/-! ## String literals -/

/-- whether a prefix of `n` letters stands at `start`, with a quote directly behind it -/
def prefixFits (bytes : Array UInt8) (start n : Nat) : Bool :=
  byteIs isQuote bytes (start + n) &&
    match byteText bytes start (start + n) with
    | .ok w => isLiteralPrefix w
    | .error _ => false

/-- the index behind a literal, from an index behind its opener on. An escape takes two bytes,
whatever they are part of. -/
def scanBody (raw : Bool) (closer : Text) (bytes : Array UInt8) (i : Nat) : Nat :=
  if i < bytes.size then
    if !raw && byteIs (· = '\\') bytes i then scanBody raw closer bytes (i + 2)
    else if byteStarts bytes closer i then i + closer.length
    else scanBody raw closer bytes (i + 1)
  else i
termination_by bytes.size - i

/-- the index behind the string literal at `start`, if there is one -/
def scanLiteral (bytes : Array UInt8) (start : Nat) : Except Fault (Option Nat) :=
  match [3, 2, 1, 0].find? (prefixFits bytes start) with
  | none => .ok none
  | some n => do
    let w ← byteText bytes start (start + n)
    match bytes[start + n]? with
    | none => .error (.noByte (start + n))
    | some b =>
      let q := Char.ofUInt8 b
      let closer := if byteStarts bytes [q, q, q] (start + n) then [q, q, q] else [q]
      .ok (some (min (scanBody (isRaw w) closer bytes (start + n + closer.length)) bytes.size))

/-! ## Numeric literals -/

/-- the index behind the digits from `i` on; the index itself, if there is no digit -/
def scanDigits (bytes : Array UInt8) (i : Nat) : Nat :=
  if byteIs Char.isDigit bytes i then skip isDigitOrBar bytes (i + 1) else i

/-- the index behind the number with a base mark at `start`, if there is one -/
def scanRadix (bytes : Array UInt8) (start : Nat) : Option Nat :=
  if byteIs (· = '0') bytes start then
    match bytes[start + 1]?.bind fun b => radixDigit? (Char.ofUInt8 b) with
    | none => none
    | some digit =>
      let stop := skip digit bytes (start + 2)
      if start + 2 < stop then some stop else none
  else none

/-- the index behind the decimal number at `start`, its exponent left out -/
def scanMantissa (bytes : Array UInt8) (start : Nat) : Option Nat :=
  if byteIs Char.isDigit bytes start then
    let i := scanDigits bytes start
    some (if byteIs (· = '.') bytes i then scanDigits bytes (i + 1) else i)
  else if byteIs (· = '.') bytes start && byteIs Char.isDigit bytes (start + 1) then
    some (scanDigits bytes (start + 1))
  else none

/-- the index behind the exponent at `i`; the index itself, if there is no complete one -/
def scanExponent (bytes : Array UInt8) (i : Nat) : Nat :=
  if byteIs (fun e => e.toLower = 'e') bytes i then
    let j := if byteIs (fun c => c = '+' || c = '-') bytes (i + 1) then i + 2 else i + 1
    if byteIs Char.isDigit bytes j then scanDigits bytes j else i
  else i

/-- the index behind the numeric literal at `start`, if there is one -/
def scanNumber (bytes : Array UInt8) (start : Nat) : Option Nat :=
  max (scanRadix bytes start) ((scanMantissa bytes start).map (scanExponent bytes))

/-! ## Lexemes -/

/-- the index behind the operator at `start`, if there is one -/
def scanOperator (bytes : Array UInt8) (start : Nat) : Option Nat :=
  (operators.find? fun o => byteStarts bytes o.toList start).map fun o => start + o.toList.length

/-- the index behind the character at `start`; with none there, the next byte counts for one -/
def scanChar (line : Text) (start : Nat) : Except Fault Nat :=
  match line.dropBytes start with
  | none => .error (.noSlice start line.utf8Size)
  | some [] => .ok (start + 1)
  | some (c :: _) => .ok (start + c.utf8Size)

/-- the shape of the lexeme at `start`, whose first byte stands for `first`, and the index
behind it -/
def scanLexeme (line : Text) (bytes : Array UInt8) (start : Nat) (first : Char) :
    Except Fault (Shape × Nat) :=
  if isSpace first then .ok (.blank, skip isSpace bytes (start + 1))
  else if first = '#' then .ok (.comment, bytes.size)
  else
    match scanLiteral bytes start with
    | .error f => .error f
    | .ok (some stop) => .ok (.string, stop)
    | .ok none =>
      match scanNumber bytes start with
      | some stop => .ok (.number, stop)
      | none =>
        if isWordStart first then .ok (.word, skip isWordChar bytes (start + 1))
        else if first = '@' then .ok (.decorator, skip isPathChar bytes (start + 1))
        else
          match scanOperator bytes start with
          | some stop => .ok (.operator, stop)
          | none => (scanChar line start).map fun stop => (.punctuation, stop)

/-! ## The scan -/

/-- a token and its place in the line, in bytes -/
structure Placed where
  token : Token
  start : Nat
  stop : Nat
deriving DecidableEq

/-- the tokens from `start` on, in a context -/
def scanFrom (v : Vocabulary) (line : Text) (bytes : Array UInt8) (ctx : Context) (start : Nat) :
    Except Fault (List Placed) :=
  if h : start < bytes.size then
    match scanLexeme line bytes start (Char.ofUInt8 bytes[start]) with
    | .error f => .error f
    | .ok (shape, stop) =>
      match line.slice start stop with
      | none => .error (.noSlice start stop)
      | some text =>
        if start < stop then
          (scanFrom v line bytes (ctx.next v ⟨shape, text⟩) stop).map fun ps =>
            ⟨⟨kindOf v ctx ⟨shape, text⟩, text⟩, start, stop⟩ :: ps
        else .error (.noProgress start)
  else .ok []
termination_by bytes.size - start

/-- the tokens of a line with their places -/
def scan (v : Vocabulary) (line : Text) : Except Fault (List Placed) :=
  scanFrom v line line.encode .start 0

end LineEditor.Token
