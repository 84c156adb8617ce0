import MapStyle.Json.Meaning

/-!
# Decoding JSON

How the parts of a source are taken as texts, numbers, lists, choices and
records. A **record** is an object with known keys, each at most once, among
keys that mean nothing; or an array of its fields in their order, of which the
last may be missing. A field that is missing has its default, if it has
one.
-/

namespace MapStyle.JsonSource

/-- A text. -/
def text? : JsonSource → Option String
  | .string s => Glyph.text? s
  | _ => none

/-- A truth value. -/
def bool? : JsonSource → Option Bool
  | .bool b => some b
  | _ => none

/-- A whole number between two bounds. -/
def int? (low high : Int) : JsonSource → Option Int
  | .number n => n.whole?.filter fun k => low ≤ k && k ≤ high
  | _ => none

/-- A natural number of 64 bits. -/
def nat? (s : JsonSource) : Option Nat :=
  (s.int? 0 Numeral.wordMax).map Int.toNat

/-- A list of what is decoded alike. -/
def list? {α : Type} (decode : JsonSource → Option α) : JsonSource → Option (List α)
  | .array items => items.mapM decode
  | _ => none

/-- Something, or `null` for nothing. -/
def nullable? {α : Type} (decode : JsonSource → Option α) : JsonSource → Option (Option α)
  | .null => some none
  | s => (decode s).map some

/-- The members of an object under their keys. -/
def keyed? : JsonSource → Option (List (String × JsonSource))
  | .object pairs => pairs.mapM fun (key, v) => return (← Glyph.text? key, v)
  | _ => none

/-- A map: of several members with one key the first gives the place and the
last the value. -/
def map? {α : Type} (decode : JsonSource → Option α) (s : JsonSource) :
    Option (List (String × α)) := do
  return Named.ofPairs (← (← s.keyed?).mapM fun (key, v) => return (key, ← decode v))

/-- **One of several alternatives by its name**: the name itself, or an object
with the name as its only key and nothing behind it. -/
def choice? {α : Type} (alternatives : List α) (name : α → String) (s : JsonSource) : Option α :=
  let chosen : Option String := match s with
    | .string s => Glyph.text? s
    | .object [(key, .null)] => Glyph.text? key
    | _ => none
  chosen.bind fun text => alternatives.find? (name · = text)

/-- **The fields of a record**, where they are present. -/
structure Record where
  /-- Whether the record is written as an array. -/
  positional : Bool
  fields : List (Option JsonSource)

/-- The value of a key among members, which must not have the key twice. -/
def unique? (pairs : List (String × JsonSource)) (key : String) : Option (Option JsonSource) :=
  match pairs.filter (·.1 = key) with
  | [] => some none
  | [(_, v)] => some (some v)
  | _ => none

/-- The record with fields of these names. -/
def record? (names : List String) (s : JsonSource) : Option Record :=
  match s with
  | .array items =>
    if items.length ≤ names.length then some ⟨true, items.map some⟩ else none
  | s => do
    let pairs ← s.keyed?
    return ⟨false, ← names.mapM (unique? pairs)⟩

namespace Record

/-- The field at a position, where it is present. -/
def field? (r : Record) (i : Nat) : Option JsonSource := (r.fields[i]?).join

/-- A field that must be present. -/
def required {α : Type} (r : Record) (i : Nat) (decode : JsonSource → Option α) : Option α :=
  (r.field? i).bind decode

/-- A field with a default. -/
def withDefault {α : Type} (r : Record) (i : Nat) (default : α) (decode : JsonSource → Option α) :
    Option α :=
  ((r.field? i).map decode).getD (some default)

end Record

end MapStyle.JsonSource
