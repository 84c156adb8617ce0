import MapStyle.Decimal.Layout
import MapStyle.Text.Bytes
import MapStyle.Text.Characters

/-!
# Colours

Three channels and an opacity. A colour is given by its channels
(`Color.rgb`, `Color.rgba`) or in hexadecimal (`Color.ofHex?`), and written in
hexadecimal unless it is translucent.
-/

namespace MapStyle

/-- **A colour.** -/
structure Color where
  red : UInt8
  green : UInt8
  blue : UInt8
  /-- The opacity, from `0` to `1`. -/
  alpha : Float

namespace Color

/-- An opaque colour. -/
def rgb (red green blue : UInt8) : Color := ⟨red, green, blue, 1⟩

/-- An opacity brought between `0` and `1`. What is not a number stays as it
is, and so does a negative zero. -/
def clampAlpha (alpha : Float) : Float :=
  if alpha < 0 then 0 else if 1 < alpha then 1 else alpha

/-- A colour whose opacity is brought between `0` and `1`. -/
def rgba (red green blue : UInt8) (alpha : Float) : Color := ⟨red, green, blue, clampAlpha alpha⟩

/-- A text without the one `#` that may stand in front. -/
def withoutHash : List Char → List Char
  | '#' :: cs => cs
  | cs => cs

/-- A channel from one hexadecimal digit, which stands for both. -/
def shortChannel? (c : Char) : Option UInt8 := (Text.hexByte? [c]).map (· * 17)

/-- A channel from two bytes of a text. -/
def channel? (cs : List Char) (start : Nat) : Option UInt8 := do
  Text.hexByte? (← Text.slice? cs start (start + 2))

/-- The colour of a text whose characters are a channel each. -/
def ofShort? (cs : List Char) : Option Color := do
  let channels ← cs.mapM shortChannel?
  return rgb (channels.getD 0 0) (channels.getD 1 0) (channels.getD 2 0)

/-- The colour of a text of which two bytes are a channel each. -/
def ofLong? (cs : List Char) : Option Color := do
  return rgb (← channel? cs 0) (← channel? cs 2) (← channel? cs 4)

/-- **The colour of a hexadecimal text**, `rgb` or `rrggbb`, with or without
one `#` in front. Which of the two it is shows in the number of its bytes. -/
def ofHex? (text : String) : Option Color :=
  let digits := withoutHash text.toList
  match Text.byteLength digits with
  | 3 => ofShort? digits
  | 6 => ofLong? digits
  | _ => none

/-- **The text of a colour**: its channels in hexadecimal, or with the opacity
when that is below `1`. -/
def text (c : Color) : String :=
  if c.alpha < 1 then
    "rgba(" ++ toString c.red ++ ", " ++ toString c.green ++ ", " ++ toString c.blue ++ ", "
      ++ Decimal.text c.alpha ++ ")"
  else
    "#" ++ String.ofList (Text.hexPair c.red.toNat ++ Text.hexPair c.green.toNat
      ++ Text.hexPair c.blue.toNat)

/-- Whether two colours draw the same; an opacity that is not a number equals
none. -/
def same (c d : Color) : Bool :=
  c.red = d.red && c.green = d.green && c.blue = d.blue && c.alpha == d.alpha

end Color

end MapStyle
