import MapStyle.Node.Rendering

/-!
# Sameness of nodes

Two nodes are the **same** when a stylesheet cannot tell them apart. That is
not equality of terms: numbers are compared as numbers, so that what is not a
number differs from itself and a negative zero is zero, paths step by step,
and references by name and place, whatever is known about their value. Two
filters must agree in their ids too, so there a negative zero does differ
from zero.
-/

namespace MapStyle

/-- Whether two references are the same one. -/
def Variable.same (v w : Variable) : Bool := v.name = w.name && v.location = w.location

namespace Node

/-- Whether two lists of paths are the same, step by step. -/
def samePaths : List Path → List Path → Bool
  | [], [] => true
  | p :: ps, q :: qs => p.same q && samePaths ps qs
  | _, _ => false

mutual

/-- **Whether two nodes are the same.** -/
def same : Node → Node → Bool
  | .expression ns, .expression ms => sameAll ns ms
  | .field s, .field t => s = t
  | .filter k c o l, .filter k' c' o' l' =>
    same k k' && c = c' && same o o' && l = l' &&
      (Filter.mk k c o l).id = (Filter.mk k' c' o' l').id
  | .effect s, .effect t => s = t
  | .effectCall s ns, .effectCall t ms => s = t && sameAll ns ms
  | .keyword s, .keyword t => s = t
  | .literal s, .literal t => s = t
  | .url n ps, .url m qs => same n m && samePaths ps qs
  | .variable v, .variable w => v.same w
  | .value ns, .value ms => sameAll ns ms
  | .quoted s, .quoted t => s = t
  | .dimension x, .dimension y => x == y
  | .color c, .color d => c.same d
  | .undefined, .undefined => true
  | _, _ => false

/-- Whether two lists of nodes are the same, node by node. -/
def sameAll : List Node → List Node → Bool
  | [], [] => true
  | n :: ns, m :: ms => same n m && sameAll ns ms
  | _, _ => false

end

end Node

end MapStyle
