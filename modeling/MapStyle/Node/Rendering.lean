import MapStyle.Node.Basic
import MapStyle.Text.Escape

/-!
# Writing nodes

A node is written for the renderer as a **rendering**: one text, or a list
that is kept apart because its parts are several values, such as a stack of
fonts. The text of a rendering has commas between the parts of a list.

An expression whose parts are all single texts is one text, with spaces
between them; if one of them is a list, so is the expression. A value of one
component is written as that component.
-/

namespace MapStyle

/-- **What a node looks like to the renderer.** -/
inductive Rendered where
  | scalar (text : String)
  | list (items : List Rendered)

namespace Rendered

/-- Whether a rendering is a single text. -/
def isScalar : Rendered → Bool
  | .scalar _ => true
  | .list _ => false

mutual

/-- **The text of a rendering**, with commas between the parts of a list. -/
def text : Rendered → String
  | .scalar text => text
  | .list items => ", ".intercalate (texts items)

/-- The texts of several renderings. -/
def texts : List Rendered → List String
  | [] => []
  | r :: rs => r.text :: texts rs

end

@[simp] theorem texts_eq_map (rs : List Rendered) : texts rs = rs.map text := by
  induction rs with
  | nil => rfl
  | cons r rs ih => rw [texts, ih, List.map_cons]

/-- The rendering of parts set off by spaces. -/
def spaced (parts : List Rendered) : Rendered :=
  if parts.all isScalar then .scalar (" ".intercalate (texts parts)) else .list parts

/-- The rendering of parts set off by commas. -/
def listed : List Rendered → Rendered
  | [] => .scalar ""
  | [r] => r
  | rs => .list rs

end Rendered

namespace Node

mutual

/-- **The rendering of a node.** -/
def render : Node → Rendered
  | .expression elements => .spaced (renderAll elements)
  | .field name => .scalar ("[" ++ name ++ "]")
  | .filter key comparison operand _ =>
    .scalar ("[" ++ (render key).text ++ comparison.text ++ (render operand).text ++ "]")
  | .effect name => .scalar name
  | .effectCall name arguments =>
    .scalar (name ++ "(" ++ ",".intercalate (Rendered.texts (renderAll arguments)) ++ ")")
  | .keyword text => .scalar text
  | .literal text => .scalar text
  | .url target _ => render target
  | .variable reference => .scalar reference.name
  | .value components => .listed (renderAll components)
  | .quoted text => .scalar (Text.escaped text)
  | .dimension number => .scalar (Decimal.text number)
  | .color c => .scalar c.text
  | .undefined => .scalar "undefined"

/-- The renderings of several nodes. -/
def renderAll : List Node → List Rendered
  | [] => []
  | n :: ns => render n :: renderAll ns

end

@[simp] theorem renderAll_eq_map (ns : List Node) : renderAll ns = ns.map render := by
  induction ns with
  | nil => rfl
  | cons n ns ih => rw [renderAll, ih, List.map_cons]

/-- **The text of a node.** -/
def text (n : Node) : String := n.render.text

/-- The text of a node on the right of a filter: a string is quoted there. -/
def filterText : Node → String
  | .quoted text => Text.quoted text
  | n => n.text

end Node

namespace Filter

/-- **What a filter is told apart by**: the texts of its three parts. -/
def id (f : Filter) : String := f.key.text ++ f.comparison.text ++ f.operand.text

/-- The text of a filter in a stylesheet. -/
def text (f : Filter) : String := "[" ++ f.id ++ "]"

@[simp] theorem text_toNode (f : Filter) : f.toNode.text = f.text := by
  simp only [Filter.toNode, Node.text, Node.render, Rendered.text, text, id, String.append_assoc]

end Filter

namespace Value

/-- The rendering of a value. -/
def render (v : Value) : Rendered := .listed (Node.renderAll v.components)

/-- The text of a value. -/
def text (v : Value) : String := v.render.text

/-- The texts of the components with a separator between them. -/
def join (v : Value) (separator : String) : String :=
  separator.intercalate (v.components.map Node.text)

end Value

end MapStyle
