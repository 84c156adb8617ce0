import MapStyle.Decimal.Shortest

/-!
# Writing a number

A number in a style is written **positionally**, whatever its size: its
digits, with as many zeros as the point needs and never an exponent. A whole
number has no point, and a negative zero keeps its sign.
-/

namespace MapStyle.Decimal

/-- Digits with the decimal point set before the last `-exponent` of them,
filled up with zeros on the side that lacks digits. -/
def positional (s : Scaled) : String :=
  let digits := Nat.toDigits 10 s.digits
  if 0 ≤ s.exponent then
    String.ofList (digits ++ List.replicate s.exponent.toNat '0')
  else
    let places := (-s.exponent).toNat
    let padded := List.replicate (places + 1 - digits.length) '0' ++ digits
    let whole := padded.length - places
    String.ofList (padded.take whole ++ '.' :: padded.drop whole)

/-- A text behind the sign of the number it stands for. -/
def signed (negative : Bool) (text : String) : String :=
  if negative then "-" ++ text else text

/-- **The text of a number**: the fewest digits that read back,
positional. -/
def text (x : Float) : String :=
  match Binary.ofFloat x with
  | .nan => "NaN"
  | .infinite negative => signed negative "inf"
  | .finite negative mantissa exponent =>
    signed negative (positional (shortest mantissa exponent))

end MapStyle.Decimal
