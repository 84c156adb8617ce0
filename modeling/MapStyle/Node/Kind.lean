import MapStyle.Node.Basic

/-!
# Kinds of nodes

What a node counts as when a schema checks it and when a message names it.
Three bare words are not keywords: one is a colour and two are booleans. Text
in the renderer's own language counts as a column, since it is made of
one.
-/

namespace MapStyle

/-- **What a node counts as.** -/
inductive NodeKind where
  | expression
  | field
  | filter
  | effect
  | keyword
  | color
  | boolean
  | uri
  | variable
  | string
  | float
  | value
  | undefined
deriving DecidableEq

/-- The name of a kind in schemas and messages. -/
def NodeKind.text : NodeKind → String
  | .expression => "expression"
  | .field => "field"
  | .filter => "filter"
  | .effect => "imagefilter"
  | .keyword => "keyword"
  | .color => "color"
  | .boolean => "boolean"
  | .uri => "uri"
  | .variable => "variable"
  | .string => "string"
  | .float => "float"
  | .value => "value"
  | .undefined => "undefined"

/-- The kind of a bare word. -/
def NodeKind.ofWord (word : String) : NodeKind :=
  if word = "transparent" then .color
  else if word = "true" ∨ word = "false" then .boolean
  else .keyword

/-- **The kind of a node.** -/
def Node.kind : Node → NodeKind
  | .expression _ => .expression
  | .field _ | .literal _ => .field
  | .filter .. => .filter
  | .effect _ | .effectCall _ _ => .effect
  | .keyword word => .ofWord word
  | .url _ _ => .uri
  | .variable _ => .variable
  | .value _ => .value
  | .quoted _ => .string
  | .dimension _ => .float
  | .color _ => .color
  | .undefined => .undefined

end MapStyle
