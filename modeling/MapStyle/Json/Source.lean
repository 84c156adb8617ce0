import MapStyle.Json.Basic

/-!
# The written form of JSON

What a JSON text says before its strings and numbers are given a meaning. A
string is kept as it is spelt, since a spelling may stand for no text – half of
a surrogate pair does – and a numeral as its digits, since it may be out of
range. Whoever decodes a source asks for the meaning of the parts it uses, and
a part that nobody uses needs none.

`JsonSource.read?` reads one value with white space around it, and nothing
else.
-/

namespace MapStyle

/-- A piece of the spelling of a string. -/
inductive Glyph where
  | char (c : Char)
  /-- A 16-bit unit, written as four hexadecimal digits. -/
  | unit (n : Nat)
deriving DecidableEq

/-- The digits of a number as they are written. -/
structure Numeral where
  negative : Bool
  whole : List Nat
  /-- The digits behind the point; without a point there are none. -/
  fraction : List Nat
  /-- The exponent: whether it is negative, and its digits. -/
  exponent : Option (Bool × List Nat)
deriving DecidableEq

/-- **A JSON value as it is written.** -/
inductive JsonSource where
  | null
  | bool (b : Bool)
  | number (n : Numeral)
  | string (spelling : List Glyph)
  | array (items : List JsonSource)
  | object (members : List (List Glyph × JsonSource))

namespace JsonSource

/-! ## Strings and numbers -/

/-- The meaning of the character after a backslash, unless four digits follow
it. -/
def escapeOf? : Char → Option Char
  | '"' => some '"'
  | '\\' => some '\\'
  | '/' => some '/'
  | 'b' => some '\x08'
  | 'f' => some '\x0c'
  | 'n' => some '\n'
  | 'r' => some '\r'
  | 't' => some '\t'
  | _ => none

/-- A string after its opening quote, and what follows it. A control character
must be escaped. -/
def string? : List Char → Option (List Glyph × List Char)
  | [] => none
  | '"' :: rest => some ([], rest)
  | '\\' :: 'u' :: a :: b :: c :: d :: rest => do
    let unit := 4096 * (← Text.hexValue? a) + 256 * (← Text.hexValue? b)
      + 16 * (← Text.hexValue? c) + (← Text.hexValue? d)
    let (glyphs, rest) ← string? rest
    return (.unit unit :: glyphs, rest)
  | '\\' :: e :: rest => do
    let c ← escapeOf? e
    let (glyphs, rest) ← string? rest
    return (.char c :: glyphs, rest)
  | c :: rest =>
    if c = '\\' ∨ c.toNat < 0x20 then none
    else (string? rest).map fun (glyphs, rest) => (.char c :: glyphs, rest)

/-- The decimal digits at the start of a text, and what follows them. -/
def digits (cs : List Char) : List Nat × List Char :=
  let (ds, rest) := cs.span Char.isDigit
  (ds.map fun d => d.toNat - '0'.toNat, rest)

/-- The digits behind a point, if there is a point. It needs some. -/
def fraction? : List Char → Option (List Nat × List Char)
  | '.' :: rest =>
    match digits rest with
    | ([], _) => none
    | found => some found
  | rest => some ([], rest)

/-- The exponent, if there is one. It needs digits. -/
def exponent? : List Char → Option (Option (Bool × List Nat) × List Char)
  | c :: rest =>
    if c = 'e' ∨ c = 'E' then
      let (negative, rest) := match rest with
        | '-' :: rest => (true, rest)
        | '+' :: rest => (false, rest)
        | rest => (false, rest)
      match digits rest with
      | ([], _) => none
      | (ds, rest) => some (some (negative, ds), rest)
    else some (none, c :: rest)
  | [] => some (none, [])

/-- A number, and what follows it. A zero in front stands alone. -/
def number? (cs : List Char) : Option (Numeral × List Char) := do
  let (negative, cs) := match cs with
    | '-' :: cs => (true, cs)
    | cs => (false, cs)
  let (whole, cs) ← match digits cs with
    | ([], _) | (0 :: _ :: _, _) => none
    | found => some found
  let (fraction, cs) ← fraction? cs
  let (exponent, cs) ← exponent? cs
  return ({ negative, whole, fraction, exponent }, cs)

/-! ## Values -/

/-- A text without the white space in front. -/
def skipBlanks (cs : List Char) : List Char :=
  cs.dropWhile fun c => c = ' ' || c = '\n' || c = '\t' || c = '\r'

/-- What follows a word at the start of a text. -/
def word? (word : String) (cs : List Char) : Option (List Char) :=
  if word.toList.isPrefixOf cs then some (cs.drop word.length) else none

mutual

/-- A value with white space in front, and what follows it. The number bounds
the calls nested in this one. -/
def value? : Nat → List Char → Option (JsonSource × List Char)
  | 0, _ => none
  | n + 1, cs =>
    match skipBlanks cs with
    | '"' :: rest => (string? rest).map fun (s, rest) => (.string s, rest)
    | '[' :: rest =>
      match skipBlanks rest with
      | ']' :: rest => some (.array [], rest)
      | rest => (items? n rest).map fun (items, rest) => (.array items, rest)
    | '\x7b' :: rest =>
      match skipBlanks rest with
      | '\x7d' :: rest => some (.object [], rest)
      | rest => (members? n rest).map fun (members, rest) => (.object members, rest)
    | 'n' :: rest => (word? "ull" rest).map (.null, ·)
    | 't' :: rest => (word? "rue" rest).map (.bool true, ·)
    | 'f' :: rest => (word? "alse" rest).map (.bool false, ·)
    | rest => (number? rest).map fun (k, rest) => (.number k, rest)

/-- The items of an array up to its closing bracket, at least one. -/
def items? : Nat → List Char → Option (List JsonSource × List Char)
  | 0, _ => none
  | n + 1, cs => do
    let (item, rest) ← value? n cs
    match skipBlanks rest with
    | ']' :: rest => return ([item], rest)
    | ',' :: rest =>
      let (items, rest) ← items? n rest
      return (item :: items, rest)
    | _ => none

/-- The members of an object up to its closing brace, at least one. -/
def members? : Nat → List Char → Option (List (List Glyph × JsonSource) × List Char)
  | 0, _ => none
  | n + 1, cs => do
    let '"' :: rest := skipBlanks cs | none
    let (key, rest) ← string? rest
    let ':' :: rest := skipBlanks rest | none
    let (value, rest) ← value? n rest
    match skipBlanks rest with
    | '\x7d' :: rest => return ([(key, value)], rest)
    | ',' :: rest =>
      let (members, rest) ← members? n rest
      return ((key, value) :: members, rest)
    | _ => none

end

/-- **The value a text spells.** Each nested call reads a character or is the
first of an array or object, so twice the length bounds their depth. -/
def read? (text : String) : Option JsonSource := do
  let cs := text.toList
  let (value, rest) ← value? (2 * cs.length + 2) cs
  if (skipBlanks rest).isEmpty then return value else none

end JsonSource

end MapStyle
