import MapStyle.Decimal.Reading
import MapStyle.Evaluation
import MapStyle.Node.Kind

/-!
# Filters as expressions

A filter is written as an expression of the renderer: its evaluated operands
with the renderer's operator between them. What is wrong with the operands is
reported, and the expression is written all the same.

A bare word must be one of the words that filters may use, if those are
restricted. An ordering needs a number or a column on its right, and a pattern
match a string.
-/

namespace MapStyle.Filter

/-- Whether a text is a number, with white space around it or not. What is too
great for a double is none. -/
def isNumeric (text : String) : Bool :=
  (Decimal.read? (Text.trim text.toList)).any (·.isFinite)

/-- The report of a bare word that filters may not use. -/
def keywordReport (word : String) (location : Location) : Diagnostic :=
  .error .invalidFilterKeyword (word ++ " is not a valid keyword in a filter expression") location

/-- The reports on the bare words among the operands, the key's first. -/
def keywordReports (keywords : Option (List String)) (f : Filter) : List Diagnostic :=
  match keywords with
  | none => []
  | some words =>
    ([f.key, f.operand].filter fun n => n.kind = .keyword && !words.contains n.text).map fun n =>
      keywordReport n.text f.location

/-- Whether the operator takes the right-hand operand. -/
def takesOperand (f : Filter) : Bool :=
  match f.comparison.operandClass with
  | .numeric => isNumeric f.operand.filterText || f.operand.kind = .field
  | .string => f.operand.filterText.toList.head? = some '\''
  | .both => true

/-- The report of a right-hand operand that the operator does not take. -/
def operandReport (f : Filter) : Diagnostic :=
  .error .invalidFilterOperand
    ("Cannot use operator \"" ++ f.comparison.text ++ "\" with value " ++ f.operand.text) f.location

/-- **Everything wrong with a filter** whose operands are evaluated. -/
def findings (keywords : Option (List String)) (f : Filter) : List Diagnostic :=
  f.keywordReports keywords ++ if f.takesOperand then [] else [f.operandReport]

/-- **The renderer's expression** for a filter whose operands are
evaluated. -/
def expression (f : Filter) : String :=
  f.key.text ++ f.comparison.between ++ f.operand.filterText ++ f.comparison.behind

/-- **A filter written**: its expression once it is evaluated, with what is
wrong reported. -/
def write (keywords : Option (List String)) (scope : Scope) (f : Filter) :
    Evaluation String := do
  let evaluated ← f.evaluate scope
  modify fun p => { p with log := p.log.reportAll (evaluated.findings keywords) }
  return evaluated.expression

end MapStyle.Filter
