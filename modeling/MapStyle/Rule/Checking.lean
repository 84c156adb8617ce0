import MapStyle.Diagnostic.Basic
import MapStyle.Schema.Closest
import MapStyle.Schema.Validity
import MapStyle.Settings.Basic
import MapStyle.Stylesheet.Basic

/-!
# Checking declarations

A declaration is checked against the schema: its property must be known and its
value valid. The result is a **verdict** with everything found on the way. A
property that is not settled draws a warning, which does not touch the verdict;
a refusal comes with exactly one error.

Of a variable's declaration only the warning is asked for: any name and any
value will do.
-/

namespace MapStyle

/-- **Whether a declaration is accepted**, and what was found. -/
structure Verdict where
  accepted : Bool
  findings : List Diagnostic
deriving DecidableEq

/-- The warning that a status deserves. -/
def Status.warning? (name : String) : Status → Option String
  | .stable => none
  | .deprecated => some (name ++ " is deprecated. It may be removed in the future.")
  | .unstable => some (name ++ " is unstable. It may change in the future.")
  | .experimental =>
    some (name ++ " is experimental. It may change, be renamed or removed in the future.")

namespace Rule

/-- The name to suggest for one that is not known: the closest, if it is near
enough. -/
def suggestion? (schema : Schema) (settings : Settings) (name : String) : Option String :=
  ((schema.closest? name).filter (·.distance < settings.suggestionDistance)).map (·.name)

/-- The report of a property that is not known. -/
def unrecognizedReport (schema : Schema) (settings : Settings) (r : Rule) : Diagnostic :=
  let message := "Unrecognized rule: " ++ r.name
  match suggestion? schema settings r.name with
  | none => .error .unrecognizedRule message r.location
  | some name =>
    let question := "Did you mean " ++ name ++ "?"
    { Diagnostic.error .unrecognizedRule (message ++ ". " ++ question) r.location with
      suggestions := [⟨question, name, false⟩] }

/-- The reports of a property that is not settled. -/
def statusReports (schema : Schema) (r : Rule) : List Diagnostic :=
  ((schema.status r.name).warning? r.name).toList.map fun message =>
    .warning .unstableProperty message r.location

/-- The report of a value that is not valid. -/
def invalidReport (schema : Schema) (r : Rule) : Diagnostic :=
  let expected := (schema.expectedType? r.name).getD ""
  let kind := (r.value.components.head?.map (·.kind)).getD .undefined
  if expected = "font" && kind = .string then
    .error .unknownFont
      ("The font '" ++ r.value.text ++ "' (specified as text-face-name) is not a known font on " ++
        "your system, please provide an existing font face name.")
      r.location
  else
    .error .invalidValue
      ("Invalid value for " ++ r.name ++ ", the type " ++ expected ++ " is expected. " ++
        r.value.text ++ " (of type " ++ kind.text ++ ") was given.")
      r.location

/-- **The verdict on a declaration.** -/
def check (schema : Schema) (settings : Settings) (tables : ValidationTables) (r : Rule) :
    Verdict :=
  if !r.isVariable && !schema.knows r.name then
    ⟨false, [r.unrecognizedReport schema settings]⟩
  else if r.isVariable || schema.accepts tables r.name r.value then
    ⟨true, r.statusReports schema⟩
  else ⟨false, r.statusReports schema ++ [r.invalidReport schema]⟩

end Rule

end MapStyle
