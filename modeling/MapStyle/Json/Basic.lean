import MapStyle.Decimal.Layout
import MapStyle.Text.Characters

/-!
# JSON values

A JSON value as data, with the members of an object in order, and its compact
text. A number is whole or it is a double; the text of a double always shows
which of the two it is, by a point or an exponent.
-/

namespace MapStyle

/-- A number of a JSON value. -/
inductive JsonNumber where
  | whole (n : Int)
  | double (x : Float)

/-- **A JSON value.** -/
inductive Json where
  | null
  | bool (b : Bool)
  | number (n : JsonNumber)
  | string (s : String)
  | array (items : List Json)
  | object (members : List (String × Json))

namespace JsonNumber

/-- The digits of a double: positional from a hundred-thousandth to ten
thousand billions, with one digit before the point and an exponent
elsewhere. -/
def doubleText (s : Decimal.Scaled) : String :=
  let digits := Nat.toDigits 10 s.digits
  let size : Int := digits.length + s.exponent
  if 0 ≤ s.exponent ∧ size ≤ 16 then Decimal.positional s ++ ".0"
  else if -5 < size ∧ size ≤ 16 then Decimal.positional s
  else
    let fraction := digits.drop 1
    let point := if fraction.isEmpty then [] else '.' :: fraction
    String.ofList (digits.take 1 ++ point) ++ "e" ++ toString (size - 1)

/-- **The text of a number.** What is not a finite number has none of its own
and is written as `null`. -/
def text : JsonNumber → String
  | .whole n => toString n
  | .double x =>
    match Decimal.Binary.ofFloat x with
    | .finite negative mantissa exponent =>
      Decimal.signed negative (doubleText (Decimal.shortest mantissa exponent))
    | _ => "null"

end JsonNumber

namespace Json

/-- A character inside the quotes of a string. -/
def escapeChar (c : Char) : List Char :=
  match c with
  | '"' => ['\\', '"']
  | '\\' => ['\\', '\\']
  | '\n' => ['\\', 'n']
  | '\r' => ['\\', 'r']
  | '\t' => ['\\', 't']
  | '\x08' => ['\\', 'b']
  | '\x0c' => ['\\', 'f']
  | c => if c.toNat < 0x20 then ['\\', 'u', '0', '0'] ++ Text.hexPair c.toNat else [c]

/-- The text of a string. -/
def stringText (s : String) : String :=
  String.ofList ('"' :: s.toList.flatMap escapeChar ++ ['"'])

mutual

/-- **The compact text of a value.** -/
def text : Json → String
  | .null => "null"
  | .bool true => "true"
  | .bool false => "false"
  | .number n => n.text
  | .string s => stringText s
  | .array items => "[" ++ ",".intercalate (itemTexts items) ++ "]"
  | .object members => "\x7b" ++ ",".intercalate (memberTexts members) ++ "\x7d"

/-- The texts of the items of an array. -/
def itemTexts : List Json → List String
  | [] => []
  | v :: vs => text v :: itemTexts vs

/-- The texts of the members of an object. -/
def memberTexts : List (String × Json) → List String
  | [] => []
  | (key, v) :: rest => (stringText key ++ ":" ++ text v) :: memberTexts rest

end

/-- A whole number. -/
def nat (n : Nat) : Json := .number (.whole n)

/-- A list of strings. -/
def strings (ss : List String) : Json := .array (ss.map .string)

/-- A value, or `null` for none. -/
def ofOption {α : Type} (f : α → Json) : Option α → Json
  | none => .null
  | some a => f a

end Json

end MapStyle
