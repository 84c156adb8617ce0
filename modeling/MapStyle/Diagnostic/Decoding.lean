import MapStyle.Diagnostic.Basic
import MapStyle.Json.Decoding

/-!
# Diagnostics as JSON

A diagnostic is a record, and so are its place and its suggestions. The file of
a place may be missing where the place is written as an object.
-/

namespace MapStyle

/-- A place. -/
def Location.ofJson? (s : JsonSource) : Option Location := do
  let r ← s.record? ["file", "index"]
  let file ← match r.positional, r.field? 0 with
    | false, none => some none
    | _, file => file.bind (JsonSource.nullable? JsonSource.text?)
  return { file, index := ← r.required 1 JsonSource.nat? }

/-- A place as JSON. -/
def Location.toJson (l : Location) : Json :=
  .object [("file", .ofOption .string l.file), ("index", .nat l.index)]

/-- A suggestion. -/
def Suggestion.ofJson? (s : JsonSource) : Option Suggestion := do
  let r ← s.record? ["message", "replacement", "is_safe"]
  return {
    message := ← r.required 0 JsonSource.text?
    replacement := ← r.required 1 JsonSource.text?
    isSafe := ← r.required 2 JsonSource.bool? }

/-- A suggestion as JSON. -/
def Suggestion.toJson (s : Suggestion) : Json :=
  .object [("message", .string s.message), ("replacement", .string s.replacement),
    ("is_safe", .bool s.isSafe)]

namespace Diagnostic

/-- A diagnostic. -/
def ofJson? (s : JsonSource) : Option Diagnostic := do
  let r ← s.record? ["code", "severity", "message", "location", "suggestions"]
  return {
    problem := ← r.required 0 (JsonSource.choice? Problem.all Problem.code)
    severity := ← r.required 1 (JsonSource.choice? Severity.all Severity.text)
    message := ← r.required 2 JsonSource.text?
    location := ← r.required 3 Location.ofJson?
    suggestions := ← r.required 4 (JsonSource.list? Suggestion.ofJson?) }

/-- **The diagnostic of a JSON text.** -/
def read? (text : String) : Option Diagnostic := (JsonSource.read? text).bind ofJson?

/-- A diagnostic as JSON. -/
def toJson (d : Diagnostic) : Json :=
  .object [("code", .string d.problem.code), ("severity", .string d.severity.text),
    ("message", .string d.message), ("location", d.location.toJson),
    ("suggestions", .array (d.suggestions.map Suggestion.toJson))]

end Diagnostic

end MapStyle
