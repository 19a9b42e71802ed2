import LineEditor.Number.Shortest

/-!
# Written numbers

Two notations of a decimal: positional, with a point among the digits or zeros around them, and with
an exponent. A number of single precision is shown in positional notation, with the fewest digits
that read back.
-/

namespace LineEditor

/-- a run of `n` zeros -/
def zeros (n : Nat) : Text := List.replicate n '0'

namespace Decimal

/-- the place of the decimal point: how many digits stand before it -/
def point (d : Decimal) : Int := d.exponent + (numeral d.digits).length

/-- the digits with a point among them or zeros around them; a whole number ends in `whole` -/
def positional (whole : Text) (d : Decimal) : Text :=
  let ds := numeral d.digits
  match d.exponent with
  | .ofNat e => ds ++ zeros e ++ whole
  | .negSucc _ =>
    match d.point with
    | .ofNat 0 => '0' :: '.' :: ds
    | .ofNat p => ds.take p ++ '.' :: ds.drop p
    | .negSucc p => '0' :: '.' :: (zeros (p + 1) ++ ds)

/-- one digit, the others behind a point, and the signed exponent of the first digit -/
def exponential (d : Decimal) : Text :=
  let e := d.point - 1
  let power := 'e' :: (if e < 0 then '-' else '+') :: numeral e.natAbs
  match numeral d.digits with
  | c :: [] => c :: power
  | c :: cs => c :: '.' :: (cs ++ power)
  | [] => power

end Decimal

namespace Single

/-- the sign of a negative number -/
def minus (negative : Bool) : Text := if negative then ['-'] else []

/-- positional notation for messages: a tie between two shortest decimals goes up -/
def display : Single → Text
  | nan => "NaN".toList
  | infinite s => minus s ++ "inf".toList
  | finite s u _ =>
    minus s ++ if u = 0 then ['0'] else (Number.shortest .up u).positional []

end Single

end LineEditor
