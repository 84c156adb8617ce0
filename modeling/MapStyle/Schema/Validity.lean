import MapStyle.Node.Kind
import MapStyle.Node.Rendering
import MapStyle.Schema.Basic

/-!
# Valid values

Whether a value fits the type of a property. Mostly its first component
decides: a bare word must be one of the property's words, and any other kind of
node must be the kind that the type names. A few types look at every
component, a property that takes expressions takes anything but a stray word,
and some check their values against a **table** supplied from outside, such as
the fonts the renderer has.

A value that starts with a node without a value is let through: its absence is
reported where it arose.
-/

namespace MapStyle

/-- **The tables that values are checked against.** There is one, the fonts,
when they are known. -/
structure ValidationTables where
  fonts : Option (List String) := none

namespace ValidationTables

/-- The table of a name. -/
def table? (tables : ValidationTables) (name : String) : Option (List String) :=
  if name = "font" then tables.fonts else none

/-- The number of different fonts, if fonts are known. -/
def fontCount? (tables : ValidationTables) : Option Nat := tables.fonts.map (·.eraseDups.length)

end ValidationTables

namespace PropertyType

/-- Whether a bare word is of the type. -/
def takesWord (type : PropertyType) (word : String) : Bool :=
  match type with
  | .keywords options => options.contains word
  | .named name => name = "keyword"

/-- Whether a node that is no bare word is of the type, as its kind says. -/
def takesKind (type : PropertyType) (kind : NodeKind) : Bool :=
  match type with
  | .keywords _ => false
  | .named name => name = kind.text

/-- The kind of the components that are looked up in a table. -/
def tableKind : PropertyType → String
  | .keywords _ => "keyword"
  | .named name => name

end PropertyType

/-- Whether a signature takes a function with so many arguments. -/
def Signature.takes (s : Signature) (name : String) (arguments : Nat) : Bool :=
  s.name = name && (s.arity = -1 || s.arity = arguments)

namespace Property

/-- Whether a node is an effect that the property takes. -/
def takesEffect (property : Property) : Node → Bool
  | .effect name => property.functions.any (·.takes name 0)
  | .effectCall name arguments => property.functions.any (·.takes name arguments.length)
  | _ => false

/-- Whether a node is a number that is not negative. -/
def isUnsigned : Node → Bool
  | .dimension x => 0 ≤ x
  | _ => false

/-- Whether a value is in a table, through any of its components of the right
kind. -/
def inTable (property : Property) (table : List String) (components : List Node) : Bool :=
  components.any fun c => c.kind.text = property.type.tableKind && table.contains c.text

/-- Whether a value fits a type that none of the special rules decides. -/
def fits (property : Property) (tables : ValidationTables) (first : Node) (rest : List Node) :
    Bool :=
  if property.expression then true
  else match property.validate with
    | some name =>
      match tables.table? name with
      | none => true
      | some table => property.inTable table (first :: rest)
    | none => property.type.takesKind first.kind

/-- **Whether a value is valid for a property.** An empty one never is. -/
def accepts (property : Property) (tables : ValidationTables) : List Node → Bool
  | [] => false
  | first :: rest =>
    match first.kind with
    | .undefined => true
    | .keyword => property.type.takesWord first.text
    | _ =>
      match property.type with
      | .named "numbers" => (first :: rest).all (·.kind = .float)
      | .named "unsigned" => isUnsigned first
      | .named "functions" => first.kind = .string || (first :: rest).all property.takesEffect
      | _ => property.fits tables first rest

end Property

/-- **Whether a value is valid for the property of a name.** -/
def Schema.accepts (schema : Schema) (tables : ValidationTables) (css : String) (v : Value) :
    Bool :=
  (schema.property? css).any fun property => property.accepts tables v.components

end MapStyle
