import MapStyle.FontSet
import MapStyle.Rule.Checking

/-!
# Passes

What one pass over a stylesheet works with: its settings, the tables its values
are checked against, the declarations in scope, and what it has gathered so far,
diagnostics and font sets.
-/

namespace MapStyle

/-- **One pass over a stylesheet.** -/
structure Pass where
  settings : Settings
  tables : ValidationTables
  /-- The declarations in scope, outermost first. -/
  frames : List RuleId := []
  log : Log
  fontSets : FontSets := {}

namespace Pass

/-- **A pass at its start.** Without fonts in the settings there is nothing to
check fonts against. -/
def start (settings : Settings) : Pass where
  settings := settings
  tables := ⟨if settings.fonts.isEmpty then none else some settings.fonts⟩
  log := { quiet := settings.quiet }

/-- The pass with declarations brought into scope, the last innermost. -/
def push (pass : Pass) (ids : List RuleId) : Pass := { pass with frames := pass.frames ++ ids }

/-- The innermost declaration, and the pass without it. -/
def pop (pass : Pass) : Option RuleId × Pass :=
  (pass.frames.getLast?, { pass with frames := pass.frames.dropLast })

/-- The pass with at most so many declarations in scope. -/
def truncate (pass : Pass) (size : Nat) : Pass := { pass with frames := pass.frames.take size }

/-- The pass after a report. -/
def report (pass : Pass) (d : Diagnostic) : Pass := { pass with log := pass.log.report d }

/-- The name of the font set of a stack, and the pass after it was
registered. -/
def registerFonts (pass : Pass) (faces : List String) : String × Pass :=
  let (set, fontSets) := pass.fontSets.register faces
  (set.name, { pass with fontSets })

/-- **Whether a declaration is accepted**, and the pass after what was found was
reported. -/
def validate (pass : Pass) (schema : Schema) (r : Rule) : Bool × Pass :=
  let verdict := r.check schema pass.settings pass.tables
  (verdict.accepted, { pass with log := pass.log.reportAll verdict.findings })

/-- What a declaration is written as. -/
inductive Form where
  /-- An attribute with its name. -/
  | assignment
  /-- Its components alone, with a text between them. -/
  | content (separator : String)

/-- What stands between the components of a value unless something else is
asked for. -/
def Form.defaultSeparator : String := ", "

/-- An attribute of an element. -/
def assignment (name value : String) : String := name ++ "=\"" ++ value ++ "\""

/-- Whether a declaration is written as a font set. -/
def needsFontSet (schema : Schema) (r : Rule) : Bool :=
  schema.isFont r.name && 1 < r.value.components.length

/-- The text of a declaration that is not written as a font set. -/
def plainText (schema : Schema) (r : Rule) : Form → String
  | .content separator => r.value.join separator
  | .assignment => assignment ((schema.xmlName? r.name).getD r.name) r.value.text

/-- **The text of a declaration**, and the pass after it was written. Variables
and what is not accepted are written as nothing; a stack of fonts is registered
and written as the name of its set. -/
def write (pass : Pass) (schema : Schema) (form : Form) (r : Rule) : String × Pass :=
  let (accepted, pass) := pass.validate schema r
  if !accepted || r.isVariable then ("", pass)
  else if needsFontSet schema r then
    let (name, pass) := pass.registerFonts (r.value.components.map Node.text)
    (assignment "fontset-name" name, pass)
  else (plainText schema r form, pass)

end Pass

end MapStyle
