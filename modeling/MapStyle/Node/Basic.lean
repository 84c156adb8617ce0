import MapStyle.Color
import MapStyle.Comparison
import MapStyle.Diagnostic.Basic
import MapStyle.Path

/-!
# Nodes

The right-hand side of a declaration is a list of **nodes**, and so are the
operands of a filter. Most nodes are literals; the others hold nodes, and one
of them, the **reference** to a variable, stands for the value of a
declaration elsewhere.

Stylesheets refer to their parts by handles. A reference carries the handle
of its **owner**, the declaration or the selector it is written in, and the
**cell** in which its value is remembered once it is known (`Memos`). A
reference that was never placed in a stylesheet has neither.

A filter's id is not stored: it is the text of its three parts
(`Filter.id`), so it always fits them.
-/

namespace MapStyle

/-- The handle of a declaration: its number in order of insertion. -/
structure RuleId where
  index : Nat
deriving DecidableEq

/-- The handle of a ruleset: its number in order of insertion. -/
structure RulesetId where
  index : Nat
deriving DecidableEq

/-- The handle of a selector: its ruleset and its position there. -/
structure SelectorRef where
  ruleset : RulesetId
  position : Nat
deriving DecidableEq

/-- What a reference is written in. -/
inductive Owner where
  | rule (id : RuleId)
  | selector (ref : SelectorRef)
deriving DecidableEq

/-- **A reference** to a variable. -/
structure Variable where
  /-- The name with its `@`. -/
  name : String
  /-- Where the reference is written. -/
  location : Location
  /-- What it is written in, once it is placed. -/
  owner : Option Owner := none
  /-- The number of the cell that remembers its value, once it is placed. -/
  cell : Option Nat := none
deriving DecidableEq

/-- **A value or a part of one.** -/
inductive Node where
  /-- Parts set off by spaces. -/
  | expression (elements : List Node)
  /-- A column of the data. -/
  | field (name : String)
  /-- A condition on the data. -/
  | filter (key : Node) (comparison : Comparison) (operand : Node) (location : Location)
  /-- An effect on the drawn image, without parentheses. -/
  | effect (name : String)
  /-- An effect on the drawn image with its arguments. -/
  | effectCall (name : String) (arguments : List Node)
  /-- A bare word. -/
  | keyword (text : String)
  /-- Text in the renderer's own language. -/
  | literal (text : String)
  /-- A resource, with the paths it was looked for at. -/
  | url (target : Node) (paths : List Path)
  /-- A reference to a variable. -/
  | variable (reference : Variable)
  /-- Components set off by commas. -/
  | value (components : List Node)
  /-- A string literal. -/
  | quoted (text : String)
  /-- A number. -/
  | dimension (number : Float)
  | color (color : Color)
  /-- What stands for a variable without a value. -/
  | undefined

/-- **The right-hand side of a declaration**: components set off by
commas. -/
structure Value where
  components : List Node

/-- **A condition on the data**, as a selector carries it. -/
structure Filter where
  key : Node
  comparison : Comparison
  operand : Node
  location : Location

/-- The node of a filter. -/
def Filter.toNode (f : Filter) : Node := .filter f.key f.comparison f.operand f.location

/-- The filter of an operator's text. -/
def Filter.ofText? (key : Node) (operator : String) (operand : Node) (location : Location) :
    Except StyleError Filter := do
  return ⟨key, ← Comparison.ofText? operator, operand, location⟩

/-- The node of a list of components: one component stands for itself. -/
def Node.ofComponents : List Node → Node
  | [n] => n
  | ns => .value ns

/-- The node of a list of elements: one element stands for itself. -/
def Node.ofElements : List Node → Node
  | [n] => n
  | ns => .expression ns

namespace Value

/-- The node of a value, without the value around a single component. -/
def toNode (v : Value) : Node := .ofComponents v.components

/-- The value of a node: its own components if it is a value. -/
def ofNode : Node → Value
  | .value ns => ⟨ns⟩
  | n => ⟨[n]⟩

end Value

end MapStyle
