/-!
# The shortest decimal of a double

A double stands for all the reals that round to it, its **rounding
interval**. The decimal written for it is the shortest that reads back: of
the decimal grids `10 ^ p` the coarsest with a point in the interval, and of
that grid's points the nearer to the value, the upper one at a tie.

A finite double is `± m * 2 ^ q` with natural `m`. Its interval reaches half
a unit of `m` to either side, but only a quarter below when `m` is the least
of its binade, where the doubles below are twice as dense; its ends belong
to it when `m` is even. Everything is compared in multiples of `2 ^ (q - 2)`,
so the arithmetic is that of the natural numbers.

Only the neighbours of the value on a grid are tested: when a grid has a
point in the interval, the neighbour on the same side is in it as well.
-/

namespace MapStyle.Decimal

/-- A finite number with a decimal point: `digits * 10 ^ exponent`. -/
structure Scaled where
  /-- The digits, as one number. -/
  digits : Nat
  /-- The power of ten of the last digit. -/
  exponent : Int
deriving DecidableEq

/-- What a double is. -/
inductive Binary where
  | nan
  | infinite (negative : Bool)
  /-- The value `± mantissa * 2 ^ exponent`. -/
  | finite (negative : Bool) (mantissa : Nat) (exponent : Int)
deriving DecidableEq

/-- The bit of a mantissa that is not stored, above the fifty-two that are. -/
def hiddenBit : Nat := 0x10000000000000

/-- The greatest exponent, with all of its eleven bits set. -/
def topExponent : Nat := 0x7FF

/-- The parts of the 64 bits of a double: a sign, eleven bits of exponent,
fifty-two of mantissa. The least exponent has no hidden bit, the greatest
belongs to the infinities and to what is not a number. -/
def Binary.ofBits (bits : Nat) : Binary :=
  let negative := bits.testBit 63
  let exponent : Nat := bits / hiddenBit % (topExponent + 1)
  let fraction : Nat := bits % hiddenBit
  if exponent = topExponent then
    if fraction = 0 then .infinite negative else .nan
  else if exponent = 0 then .finite negative fraction (-1074)
  else .finite negative (hiddenBit + fraction) (exponent - 1075 : Int)

/-- What a double is, read off its bits. -/
def Binary.ofFloat (x : Float) : Binary := .ofBits x.toBits.toNat

/-- A real and the interval around it, all as multiples of one unit. -/
structure Interval where
  /-- The value. -/
  value : Nat
  /-- The lower end. -/
  low : Nat
  /-- The upper end. -/
  high : Nat
  /-- Whether the ends belong to the interval. -/
  closed : Bool
  /-- How many units make one. -/
  unit : Nat

namespace Interval

/-- **The rounding interval** of `mantissa * 2 ^ exponent`. -/
def ofBinary (mantissa : Nat) (exponent : Int) : Interval :=
  let scale := Nat.pow 2 (exponent - 2).toNat
  { value := 4 * mantissa * scale
    low := (4 * mantissa - if mantissa = hiddenBit then 1 else 2) * scale
    high := (4 * mantissa + 2) * scale
    closed := mantissa % 2 = 0
    unit := Nat.pow 2 (2 - exponent).toNat }

/-- Whether a number of units lies in the interval. -/
def has (i : Interval) (n : Nat) : Bool :=
  if i.closed then i.low ≤ n && n ≤ i.high else i.low < n && n < i.high

/-- The same interval, measured so that one unit is a point of the grid
`10 ^ p`. -/
def onGrid (i : Interval) (p : Int) : Interval :=
  let scale := Nat.pow 10 (-p).toNat
  { i with
    value := i.value * scale
    low := i.low * scale
    high := i.high * scale
    unit := i.unit * Nat.pow 10 p.toNat }

/-- **The nearest whole number in the interval**, if it has any; at a tie
the upper one. -/
def nearest? (i : Interval) : Option Nat :=
  let below := i.value / i.unit
  let above := below + 1
  match i.has (below * i.unit), i.has (above * i.unit) with
  | true, true =>
    some (if i.value - below * i.unit < above * i.unit - i.value then below else above)
  | true, false => some below
  | false, true => some above
  | false, false => none

/-- The point found on the first of the grids `10 ^ p`, `10 ^ (p - 1)`, …
that has one. -/
def search (i : Interval) (p : Int) : Nat → Scaled
  | 0 => ⟨0, 0⟩
  | n + 1 =>
    match (i.onGrid p).nearest? with
    | some digits => ⟨digits, p⟩
    | none => i.search (p - 1) n

/-- **The shortest decimal of the interval.** No point of a grid above its
upper end can be in it, and the value itself is a point of the grid of as
many places as there are halvings in the unit. -/
def shortest (i : Interval) : Scaled :=
  let top := (Nat.toDigits 10 (i.high / i.unit)).length
  i.search top (top + i.unit.log2 + 1)

end Interval

/-- **The shortest decimal** that reads back as `mantissa * 2 ^ exponent`. -/
def shortest (mantissa : Nat) (exponent : Int) : Scaled :=
  if mantissa = 0 then ⟨0, 0⟩ else (Interval.ofBinary mantissa exponent).shortest

end MapStyle.Decimal
