import MapStyle.Decimal.Reading
import MapStyle.Text.Characters
import MapStyle.Text.Pieces
import MapStyle.Toml.Basic

/-!
# TOML numbers, dates and truth values

The values that are written without quotes or brackets. Each is one word, except
that a date and a time may be set off by a space. Underscores may stand between
digits, no number has a zero too many in front, and a whole number takes at most
128 bits.
-/

namespace MapStyle.Toml

/-- The digits of a word in some base, with single underscores between them.
There must be some. -/
def digits? (isDigit : Char → Bool) (word : List Char) : Option (List Char) :=
  let runs := Text.pieces '_' word
  if runs.all fun run => !run.isEmpty && run.all isDigit then some runs.flatten else none

/-- The decimal digits of a word, the first a zero only if it is alone. -/
def wholeDigits? (word : List Char) : Option (List Char) :=
  match digits? Char.isDigit word with
  | some ('0' :: _ :: _) => none
  | found => found

/-- The number of digits in some base. -/
def inBase (base : Nat) (ds : List Char) : Int :=
  (ds.foldl (fun n d => base * n + (Text.hexValue? d).getD 0) 0 : Nat)

/-- Whether a character is a digit of a base. -/
def isDigitOf (base : Nat) (c : Char) : Bool := (Text.hexValue? c).any (· < base)

/-- Whether a whole number fits into 128 bits, with a sign if it is negative. -/
def isStorable (n : Int) : Bool :=
  -0x80000000000000000000000000000000 ≤ n && n ≤ 0xFFFFFFFFFFFFFFFFFFFFFFFFFFFFFFFF

/-- A whole number of any size. -/
def whole? (word : List Char) : Option Int :=
  match word with
  | '0' :: 'x' :: ds => (digits? (isDigitOf 16) ds).map (inBase 16)
  | '0' :: 'o' :: ds => (digits? (isDigitOf 8) ds).map (inBase 8)
  | '0' :: 'b' :: ds => (digits? (isDigitOf 2) ds).map (inBase 2)
  | word =>
    let (negative, ds) := Decimal.takeSign word
    (wholeDigits? ds).map fun ds => if negative then -inBase 10 ds else inBase 10 ds

/-- A whole number. -/
def integer? (word : List Char) : Option Int := (whole? word).filter isStorable

/-- Whether an exponent ends a word, its letter included. -/
def isExponent : List Char → Bool
  | c :: rest =>
    (c = 'e' || c = 'E') && (digits? Char.isDigit (Decimal.takeSign rest).2).isSome
  | [] => false

/-- Whether a word without sign is a number with a point or an exponent. -/
def isFraction (word : List Char) : Bool :=
  let (whole, rest) := word.span fun c => c.isDigit || c = '_'
  (wholeDigits? whole).isSome &&
    match rest with
    | '.' :: rest =>
      let (fraction, rest) := rest.span fun c => c.isDigit || c = '_'
      (digits? Char.isDigit fraction).isSome && (rest.isEmpty || isExponent rest)
    | rest => isExponent rest

/-- A number that need not be whole. What is too great for a double is none. -/
def float? (word : List Char) : Option Float :=
  let (_, unsigned) := Decimal.takeSign word
  if unsigned = ['i', 'n', 'f'] ∨ unsigned = ['n', 'a', 'n'] then Decimal.read? word
  else if isFraction unsigned then (Decimal.read? (word.filter (· ≠ '_'))).filter (·.isFinite)
  else none

/-! ## Dates and times -/

/-- The number of exactly so many decimal digits at the start of a text, if it
lies between two bounds, and what follows them. -/
def bounded? (size low high : Nat) (cs : List Char) : Option (Nat × List Char) :=
  let ds := cs.take size
  let n := Decimal.digitsValue ds
  if ds.length = size ∧ ds.all Char.isDigit ∧ low ≤ n ∧ n ≤ high then some (n, cs.drop size)
  else none

/-- What follows a character at the start of a text. -/
def after? (c : Char) : List Char → Option (List Char)
  | d :: rest => if c = d then some rest else none
  | [] => none

/-- How many days a month has. -/
def daysIn (year month : Nat) : Nat :=
  if month = 2 then
    if year % 4 = 0 ∧ (year % 100 ≠ 0 ∨ year % 400 = 0) then 29 else 28
  else if month ∈ [4, 6, 9, 11] then 30 else 31

/-- What follows a date at the start of a text. -/
def afterDate? (cs : List Char) : Option (List Char) := do
  let (year, cs) ← bounded? 4 0 9999 cs
  let (month, cs) ← bounded? 2 1 12 (← after? '-' cs)
  let (_, cs) ← bounded? 2 1 (daysIn year month) (← after? '-' cs)
  return cs

/-- What follows a time of day at the start of a text. -/
def afterTime? (cs : List Char) : Option (List Char) := do
  let (_, cs) ← bounded? 2 0 23 cs
  let (_, cs) ← bounded? 2 0 59 (← after? ':' cs)
  let (_, cs) ← bounded? 2 0 60 (← after? ':' cs)
  match cs with
  | '.' :: rest =>
    let (ds, rest) := Decimal.takeDigits rest
    if ds.isEmpty then none else return rest
  | cs => return cs

/-- Whether a text is nothing, or the distance of a clock from that of
Greenwich. -/
def isOffset : List Char → Bool
  | [] | ['Z'] | ['z'] => true
  | c :: rest =>
    (c = '+' || c = '-') && ((do
      let (_, rest) ← bounded? 2 0 23 rest
      let (_, rest) ← bounded? 2 0 59 (← after? ':' rest)
      return rest) == some [])

/-- Whether a text is a date, a time of day, or both. -/
def isMoment (cs : List Char) : Bool :=
  match afterDate? cs with
  | some [] => true
  | some (c :: rest) =>
    (c = 'T' || c = 't' || c = ' ') && (afterTime? rest).any isOffset
  | none => afterTime? cs == some []

/-! ## Words -/

/-- Whether a character can be part of a value without quotes. -/
def isWordChar (c : Char) : Bool :=
  c.isAlphanum || c = '+' || c = '-' || c = '_' || c = '.' || c = ':'

/-- The value of a word. -/
def ofWord? (word : List Char) : Option Toml :=
  if word = "true".toList then some (.bool true)
  else if word = "false".toList then some (.bool false)
  else match integer? word with
    | some n => some (.integer n)
    | none =>
      match float? word with
      | some x => some (.float x)
      | none => if isMoment word then some (.moment (String.ofList word)) else none

/-- **A value without quotes or brackets**, and what follows it. A date may be
followed by a space and a time. -/
def scalar? (cs : List Char) : Option (Toml × List Char) :=
  let (word, rest) := cs.span isWordChar
  match afterDate? word, rest with
  | some [], ' ' :: more =>
    let (time, beyond) := more.span isWordChar
    if (time.head?.any Char.isDigit) then
      let moment := word ++ ' ' :: time
      if isMoment moment then some (.moment (String.ofList moment), beyond) else none
    else (ofWord? word).map (·, rest)
  | _, _ => (ofWord? word).map (·, rest)

end MapStyle.Toml
