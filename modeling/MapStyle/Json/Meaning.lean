import MapStyle.Json.Source
import MapStyle.Named

/-!
# What written JSON means

The text of a spelling, the number of a numeral and the value of a source, each
of which may not exist. Two units of a surrogate pair stand for one character,
and half of a pair for none.

A numeral keeps as many digits as fit into 64 bits. What the others say is only
how many there are: its value is that of the digits kept, scaled by one division
or multiplication in doubles, so it can differ from the nearest double in the
last place. A numeral too great for a double has no value.
-/

namespace MapStyle

/-! ## Strings -/

/-- The character of a surrogate pair. -/
def surrogatePair (high low : Nat) : Char :=
  Char.ofNat (0x10000 + (high - 0xD800) * 0x400 + (low - 0xDC00))

/-- The characters of a spelling. -/
def Glyph.chars? : List Glyph → Option (List Char)
  | [] => some []
  | .char c :: rest => (chars? rest).map (c :: ·)
  | .unit high :: .unit low :: rest =>
    if 0xD800 ≤ high ∧ high < 0xDC00 then
      if 0xDC00 ≤ low ∧ low < 0xE000 then (chars? rest).map (surrogatePair high low :: ·)
      else none
    else if 0xDC00 ≤ high ∧ high < 0xE000 then none
    else (chars? (.unit low :: rest)).map (Char.ofNat high :: ·)
  | .unit n :: rest =>
    if 0xD800 ≤ n ∧ n < 0xE000 then none else (chars? rest).map (Char.ofNat n :: ·)

/-- **The text of a spelling.** -/
def Glyph.text? (spelling : List Glyph) : Option String :=
  (chars? spelling).map String.ofList

/-! ## Numbers -/

namespace Numeral

/-- The greatest number of 64 bits. -/
def wordMax : Nat := 0xFFFFFFFFFFFFFFFF

/-- The magnitude of the least number of 64 bits with a sign. -/
def signedMax : Nat := 0x8000000000000000

/-- Digits appended to a number while it fits into 64 bits, and how many of
them were. -/
def absorb (significand : Nat) : List Nat → Nat × Nat
  | [] => (significand, 0)
  | d :: ds =>
    let next := 10 * significand + d
    if next ≤ wordMax then
      let (result, count) := absorb next ds
      (result, count + 1)
    else (significand, 0)

/-- A number scaled by a power of ten in doubles, in at most so many divisions
by the greatest power. -/
def scaleWithin (x : Float) (exponent : Int) : Nat → Option Float
  | 0 => some x
  | n + 1 =>
    if exponent.natAbs ≤ 308 then
      let power := Float.ofScientific 1 false exponent.natAbs
      if 0 ≤ exponent then
        if (x * power).isInf then none else some (x * power)
      else some (x / power)
    else if x == 0 then some x
    else if 0 ≤ exponent then none
    else scaleWithin (x / Float.ofScientific 1 false 308) (exponent + 308) n

/-- A number scaled by a power of ten. A division or two by the greatest power
leave nothing of a number of 64 bits. -/
def scale (significand : Nat) (exponent : Int) : Option Float :=
  scaleWithin (Float.ofNat significand) exponent 5

/-- The greatest exponent that is read. -/
def exponentMax : Nat := 0x7FFFFFFF

/-- The value of a numeral without its sign, as a double. -/
def magnitude? (n : Numeral) : Option Float :=
  let (whole, used) := absorb 0 n.whole
  let (significand, places) := absorb whole n.fraction
  let shift : Int := (n.whole.length - used : Nat) - (places : Int)
  match n.exponent with
  | none => scale significand shift
  | some (negative, ds) =>
    let exponent := ds.foldl (fun e d => 10 * e + d) 0
    if exponent ≤ exponentMax then
      scale significand (if negative then shift - exponent else shift + exponent)
    else if significand ≠ 0 ∧ negative = false then none
    else some 0

/-- Whether the numeral has neither a point nor an exponent. -/
def isWhole (n : Numeral) : Bool := n.fraction.isEmpty && n.exponent.isNone

/-- **The number of a numeral.** It is whole if it is written so and fits into
64 bits; a negative zero is a double. -/
def value? (n : Numeral) : Option JsonNumber :=
  let whole := n.whole.foldl (fun k d => 10 * k + d) 0
  if n.isWhole && whole ≤ wordMax && !n.negative then some (.whole whole)
  else if n.isWhole && 0 < whole && whole ≤ signedMax && n.negative then some (.whole (-whole))
  else n.magnitude?.map fun x => .double (if n.negative then -x else x)

/-- The whole number of a numeral, if it has one. -/
def whole? (n : Numeral) : Option Int :=
  match n.value? with
  | some (.whole k) => some k
  | _ => none

end Numeral

/-! ## Values -/

namespace JsonSource

/-- How many arrays and objects may stand inside each other: fewer than
this. -/
def depthLimit : Nat := 128

mutual

/-- **The value of a source**, inside so many arrays and objects. Of members
with one name the first gives the place and the last the value. -/
def value (depth : Nat) : JsonSource → Option Json
  | .null => some .null
  | .bool b => some (.bool b)
  | .number n => n.value?.map .number
  | .string s => (Glyph.text? s).map .string
  | .array items =>
    if depth + 1 < depthLimit then (itemValues (depth + 1) items).map .array else none
  | .object pairs =>
    if depth + 1 < depthLimit then
      (memberValues (depth + 1) pairs).map fun pairs => .object (Named.ofPairs pairs)
    else none

/-- The values of the items of an array. -/
def itemValues (depth : Nat) : List JsonSource → Option (List Json)
  | [] => some []
  | v :: vs => do return (← value depth v) :: (← itemValues depth vs)

/-- The values of the members of an object. -/
def memberValues (depth : Nat) : List (List Glyph × JsonSource) → Option (List (String × Json))
  | [] => some []
  | (key, v) :: rest => do
    return (← Glyph.text? key, ← value depth v) :: (← memberValues depth rest)

end

end JsonSource

end MapStyle
