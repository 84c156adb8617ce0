import MapStyle.Json.Decoding
import MapStyle.Toml.Reader

/-!
# Settings

What can be set for a pass. Settings are written in JSON or in TOML, under the
same three names in both. What is not set has its default, and other names mean
nothing.
-/

namespace MapStyle

/-- **What can be set for a pass.** -/
structure Settings where
  /-- A name is suggested only if it is nearer than this. -/
  suggestionDistance : Nat := 3
  /-- Whether warnings are dropped. -/
  quiet : Bool := false
  /-- The fonts the renderer has. -/
  fonts : List String := []
deriving DecidableEq

namespace Settings

/-- The names under which settings are written, in the order of the
settings. -/
def keys : List String := ["suggestionDistance", "quiet", "fonts"]

/-- The settings of a JSON value. -/
def ofJson? (s : JsonSource) : Option Settings := do
  let r ← s.record? keys
  let default : Settings := {}
  return {
    suggestionDistance := ← r.withDefault 0 default.suggestionDistance JsonSource.nat?
    quiet := ← r.withDefault 1 default.quiet JsonSource.bool?
    fonts := ← r.withDefault 2 default.fonts (JsonSource.list? JsonSource.text?) }

/-- The settings of a JSON text. -/
def readJson? (text : String) : Option Settings := (JsonSource.read? text).bind ofJson?

/-- A natural number of 64 bits in TOML. -/
def nat? : Toml → Option Nat
  | .integer n => if 0 ≤ n ∧ n ≤ Numeral.wordMax then some n.toNat else none
  | _ => none

/-- A truth value in TOML. -/
def bool? : Toml → Option Bool
  | .bool b => some b
  | _ => none

/-- A text in TOML. -/
def text? : Toml → Option String
  | .string s => some s
  | _ => none

/-- A list of texts in TOML. -/
def texts? : Toml → Option (List String)
  | .array items => items.mapM text?
  | _ => none

/-- What is under a name, if it is of the right type, or a default. -/
def entry {α : Type} (table : List (String × Toml)) (name : String) (default : α)
    (decode : Toml → Option α) : Option α :=
  match Named.find? name table with
  | none => some default
  | some v => decode v

/-- The settings of a TOML text. -/
def readToml? (text : String) : Option Settings := do
  let table ← Toml.read? text
  let default : Settings := {}
  return {
    suggestionDistance := ← entry table "suggestionDistance" default.suggestionDistance nat?
    quiet := ← entry table "quiet" default.quiet bool?
    fonts := ← entry table "fonts" default.fonts texts? }

/-- Settings as JSON. -/
def toJson (s : Settings) : Json :=
  .object [("suggestionDistance", .nat s.suggestionDistance), ("quiet", .bool s.quiet),
    ("fonts", .strings s.fonts)]

end Settings

end MapStyle
