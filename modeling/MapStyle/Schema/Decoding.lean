import MapStyle.Json.Decoding
import MapStyle.Schema.Basic

/-!
# Schemas from JSON

The document is a record of the symbolizers and, if filters are restricted, of
the words they may use. Symbolizers and their properties are maps: of two with
one name the first gives the place and the last the content.
-/

namespace MapStyle

/-- The type of a property: a name, or the words it may be. -/
def PropertyType.ofJson? (s : JsonSource) : Option PropertyType :=
  ((s.list? JsonSource.text?).map .keywords).or (s.text?.map .named)

/-- A function with its arity, in an array of two. -/
def Signature.ofJson? : JsonSource → Option Signature
  | .array [name, arity] => do return ⟨← name.text?, ← arity.int? (-0x80000000) 0x7FFFFFFF⟩
  | _ => none

/-- **A property**, inside four other arrays or objects. -/
def Property.ofJson? (s : JsonSource) : Option Property := do
  let r ← s.record?
    ["css", "type", "status", "validate", "expression", "functions", "default-value", "doc"]
  return {
    css := ← r.required 0 JsonSource.text?
    type := ← r.required 1 PropertyType.ofJson?
    status := ← r.withDefault 2 .stable (JsonSource.choice? Status.all Status.text)
    validate := ← r.withDefault 3 none (JsonSource.nullable? JsonSource.text?)
    expression := ← r.withDefault 4 false JsonSource.bool?
    functions := ← r.withDefault 5 [] (JsonSource.list? Signature.ofJson?)
    defaultValue := ← r.withDefault 6 none (JsonSource.nullable? (JsonSource.value 4))
    doc := ← r.withDefault 7 none (JsonSource.nullable? JsonSource.text?) }

namespace Schema

/-- The words that filters may use. -/
def keywordsOfJson? (s : JsonSource) : Option (List String) := do
  (← s.record? ["value"]).required 0 (JsonSource.list? JsonSource.text?)

/-- The two parts of a document. -/
def partsOfJson? (s : JsonSource) : Option (Document × Option (List String)) := do
  let r ← s.record? ["symbolizers", "filter"]
  return (← r.required 0 (JsonSource.map? (JsonSource.map? Property.ofJson?)),
    ← r.withDefault 1 none (JsonSource.nullable? keywordsOfJson?))

/-- **The schema of a JSON text.** -/
def ofJson (text : String) : Except StyleError Schema :=
  match (JsonSource.read? text).bind partsOfJson? with
  | none => .error .json
  | some (document, filterKeywords) => ofDocument document filterKeywords

end Schema

end MapStyle
