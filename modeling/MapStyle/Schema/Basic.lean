import MapStyle.Json.Basic
import MapStyle.StyleError

/-!
# The property reference

What is known about the properties of a style: which there are, what they are
called in the renderer's XML, which symbolizer owns them and what values they
take. The document that says so groups properties by symbolizer and by XML
name; a **schema** is that document with the properties listed by the name
they have in stylesheets.

A stylesheet name may occur more than once in the document. Its first property
is the one that counts (`Schema.firsts`).
-/

namespace MapStyle

/-- How settled a property is. -/
inductive Status where
  | stable
  | deprecated
  | unstable
  | experimental
deriving DecidableEq

namespace Status

/-- Every status. -/
def all : List Status := [.stable, .deprecated, .unstable, .experimental]

/-- The name of a status. -/
def text : Status → String
  | .stable => "stable"
  | .deprecated => "deprecated"
  | .unstable => "unstable"
  | .experimental => "experimental"

end Status

/-- **The type of a property.** -/
inductive PropertyType where
  /-- One of some words. -/
  | keywords (options : List String)
  /-- A type with a name, such as `float` or `color`. -/
  | named (name : String)
deriving DecidableEq

/-- A function that a property takes, with the number of its arguments. -/
structure Signature where
  name : String
  /-- The number of arguments; any number if it is `-1`. -/
  arity : Int
deriving DecidableEq

/-- **What is known about a property.** -/
structure Property where
  /-- The name in stylesheets. -/
  css : String
  type : PropertyType
  status : Status := .stable
  /-- The table its values are checked against. -/
  validate : Option String := none
  /-- Whether any expression will do as its value. -/
  expression : Bool := false
  /-- The functions it takes. -/
  functions : List Signature := []
  defaultValue : Option Json := none
  doc : Option String := none

/-- **A property where it stands in the document.** -/
structure Schema.Entry where
  symbolizer : String
  /-- The name in the renderer's XML. -/
  xmlName : String
  property : Property

/-- The stylesheet name of an entry. -/
def Schema.Entry.css (e : Schema.Entry) : String := e.property.css

/-- **The properties by their names in stylesheets.** -/
structure Schema where
  /-- One entry a name, in the order of the document. -/
  entries : List Schema.Entry := []
  /-- The words that filters may use, if they are restricted. -/
  filterKeywords : Option (List String) := none

/-- The document of a schema: properties by XML name by symbolizer. -/
abbrev Schema.Document := List (String × List (String × Property))

namespace Schema

/-! ## Listing a document -/

/-- The entries of a document, in its order. -/
def entriesOf (document : Document) : List Entry :=
  document.flatMap fun (symbolizer, properties) =>
    properties.map fun (xmlName, property) => ⟨symbolizer, xmlName, property⟩

/-- **The first entry of each name**, in order. -/
def firsts : List Entry → List Entry
  | [] => []
  | e :: es => e :: (firsts es).filter (·.css ≠ e.css)

/-- What is wrong with an entry without a stylesheet name. -/
def namelessError (e : Entry) : StyleError :=
  .schema ("property '" ++ e.xmlName ++ "' of symbolizer '" ++ e.symbolizer ++ "' has no css name")

/-- **The schema of a document**, each of whose properties must have a
stylesheet name. -/
def ofDocument (document : Document) (filterKeywords : Option (List String)) :
    Except StyleError Schema :=
  let entries := entriesOf document
  match entries.find? (·.css.isEmpty) with
  | some e => .error (namelessError e)
  | none => .ok { entries := firsts entries, filterKeywords }

/-! ## Looking up -/

/-- The entry of a stylesheet name. -/
def entry? (schema : Schema) (css : String) : Option Entry := schema.entries.find? (·.css = css)

/-- The property of a stylesheet name. -/
def property? (schema : Schema) (css : String) : Option Property :=
  (schema.entry? css).map (·.property)

/-- The symbolizer that owns a property. -/
def symbolizer? (schema : Schema) (css : String) : Option String :=
  (schema.entry? css).map (·.symbolizer)

/-- The XML name of a property. -/
def xmlName? (schema : Schema) (css : String) : Option String :=
  (schema.entry? css).map (·.xmlName)

/-- The names of all properties, in the order of the document. -/
def names (schema : Schema) : List String := schema.entries.map Entry.css

/-- Whether a property is known. -/
def knows (schema : Schema) (css : String) : Bool := (schema.property? css).isSome

/-- The status of a property; one that is not known is stable. -/
def status (schema : Schema) (css : String) : Status :=
  ((schema.property? css).map (·.status)).getD .stable

/-- Whether the values of a property are checked against the fonts. -/
def isFont (schema : Schema) (css : String) : Bool :=
  (schema.property? css).any (·.validate = some "font")

/-- The type of a property, as messages name it. -/
def expectedType? (schema : Schema) (css : String) : Option String :=
  (schema.property? css).map fun property =>
    match property.validate, property.type with
    | some table, _ => table
    | none, .keywords options => "keyword (options: " ++ ", ".intercalate options ++ ")"
    | none, .named name => name

end Schema

end MapStyle
