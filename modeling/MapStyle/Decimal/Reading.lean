import MapStyle.Text.Characters

/-!
# Reading a number

The texts that stand for a number: an optional sign, then digits with at
most one point among them and an optional exponent, or one of the words
`inf`, `infinity` and `nan` in any case. A text stands for the double nearest
to what it says.
-/

namespace MapStyle.Decimal

/-- The decimal digits at the start of a text, and what follows them. -/
def takeDigits (cs : List Char) : List Char × List Char := cs.span Char.isDigit

/-- The number a run of decimal digits says. -/
def digitsValue (ds : List Char) : Nat :=
  ds.foldl (fun n d => 10 * n + (d.toNat - '0'.toNat)) 0

/-- **The double nearest to `digits * 10 ^ exponent`.** Beyond four hundred
places the answer is known without the power. -/
def nearest (digits : Nat) (exponent : Int) : Float :=
  let places : Int := (Nat.toDigits 10 digits).length
  if digits = 0 ∨ places + exponent < -400 then 0
  else if 400 < places + exponent then Float.ofScientific 1 false 400
  else if 0 ≤ exponent then Float.ofScientific digits false exponent.toNat
  else Float.ofScientific digits true (-exponent).toNat

/-- A sign at the start of a text: whether it is a minus, and what
follows. -/
def takeSign : List Char → Bool × List Char
  | '-' :: cs => (true, cs)
  | '+' :: cs => (false, cs)
  | cs => (false, cs)

/-- An exponent that ends a text. No exponent is the exponent zero. -/
def exponent? : List Char → Option Int
  | [] => some 0
  | c :: cs =>
    if c = 'e' ∨ c = 'E' then
      let (negative, cs) := takeSign cs
      match takeDigits cs with
      | (d :: ds, []) =>
        let n : Int := digitsValue (d :: ds)
        some (if negative then -n else n)
      | _ => none
    else none

/-- A number without a sign, written with digits. -/
def unsigned? (cs : List Char) : Option Float :=
  let (whole, rest) := takeDigits cs
  let (fraction, rest) :=
    match rest with
    | '.' :: rest => takeDigits rest
    | rest => ([], rest)
  if whole.isEmpty && fraction.isEmpty then none
  else (exponent? rest).map fun e =>
    nearest (digitsValue (whole ++ fraction)) (e - fraction.length)

/-- A number without a sign that is a word. -/
def word? (cs : List Char) : Option Float :=
  match String.ofList (cs.map Char.toLower) with
  | "inf" | "infinity" => some (Float.ofScientific 1 false 400)
  | "nan" => some (0.0 / 0.0)
  | _ => none

/-- **The number a text stands for**, if it stands for one. -/
def read? (cs : List Char) : Option Float :=
  let (negative, cs) := takeSign cs
  ((word? cs).orElse fun _ => unsigned? cs).map fun x => if negative then -x else x

end MapStyle.Decimal
