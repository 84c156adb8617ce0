/-!
# White space and hexadecimal digits

The characters with the Unicode property `White_Space` are twenty-five. The class of the core
library stops at ASCII, and a number in a filter may be set off by any of them.

Hexadecimal digits are those of ASCII, in either case. A number below 256 may be written with
any number of digits; the library itself writes two.
-/

namespace MapStyle.Text

/-! ## White space -/

/-- **White space**: the characters with the Unicode property
`White_Space`. -/
def isBlank (c : Char) : Bool :=
  let n := c.toNat
  (0x9 ≤ n && n ≤ 0xD) || n = 0x20 || n = 0x85 || n = 0xA0 || n = 0x1680
    || (0x2000 ≤ n && n ≤ 0x200A) || n = 0x2028 || n = 0x2029 || n = 0x202F
    || n = 0x205F || n = 0x3000

/-- The white space of ASCII is white space. -/
theorem isBlank_of_isWhitespace {c : Char} (h : c.isWhitespace = true) :
    isBlank c = true := by
  simp only [Char.isWhitespace, Bool.or_eq_true, decide_eq_true_eq] at h
  rcases h with ((rfl | rfl) | rfl) | rfl <;> decide

/-- The text without the white space at its ends. -/
def trim (cs : List Char) : List Char :=
  ((cs.dropWhile isBlank).reverse.dropWhile isBlank).reverse

/-! ## Hexadecimal digits -/

/-- The value of a hexadecimal digit, in either case. -/
def hexValue? (c : Char) : Option Nat :=
  if '0' ≤ c ∧ c ≤ '9' then some (c.toNat - '0'.toNat)
  else if 'a' ≤ c ∧ c ≤ 'f' then some (c.toNat - 'a'.toNat + 10)
  else if 'A' ≤ c ∧ c ≤ 'F' then some (c.toNat - 'A'.toNat + 10)
  else none

/-- The number that is written by further digits behind those of `n`, if it is below 256. -/
def appendHex? (n : UInt8) : List Char → Option UInt8
  | [] => some n
  | c :: cs => do
    let d ← hexValue? c
    if 16 * n.toNat + d < 256 then appendHex? (16 * n.toNat + d).toUInt8 cs else none

/-- **The number below 256 that a text writes in hexadecimal**: at least one digit, and a plus
sign may stand in front. -/
def hexByte? : List Char → Option UInt8
  | [] => none
  | '+' :: c :: cs => appendHex? 0 (c :: cs)
  | cs => appendHex? 0 cs

/-- The digit of a value below sixteen. -/
def hexDigit (n : Nat) : Char := Nat.digitChar n

/-- The two digits of a value below 256. -/
def hexPair (n : Nat) : List Char := [hexDigit (n / 16), hexDigit (n % 16)]

end MapStyle.Text
