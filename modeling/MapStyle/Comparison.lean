import MapStyle.StyleError

/-!
# Comparisons

The operators of a filter such as `[population > 1000]`. Each has the text it
is written with in a stylesheet, the text the renderer expects between and
behind the operands, and a class that says which right-hand operands it
takes.
-/

namespace MapStyle

/-- **The operator of a filter.** -/
inductive Comparison where
  | less
  | greater
  | atMost
  | atLeast
  | equal
  | unequal
  /-- The left operand matches the pattern on the right. -/
  | fits
deriving DecidableEq

/-- Which right-hand operands an operator takes. -/
inductive OperandClass where
  | numeric
  | string
  | both
deriving DecidableEq

namespace Comparison

/-- Every operator. -/
def all : List Comparison := [.less, .greater, .atMost, .atLeast, .equal, .unequal, .fits]

/-- The text of an operator in a stylesheet. -/
def text : Comparison → String
  | .less => "<"
  | .greater => ">"
  | .atMost => "<="
  | .atLeast => ">="
  | .equal => "="
  | .unequal => "!="
  | .fits => "=~"

/-- The operator of a text, if it is the text of one. -/
def ofText? (text : String) : Except StyleError Comparison :=
  match all.find? (·.text = text) with
  | some c => .ok c
  | none => .error (.invalidOperator text)

/-- What the renderer expects between the operands, safe inside XML. -/
def between : Comparison → String
  | .less => " &lt; "
  | .greater => " &gt; "
  | .atMost => " &lt;= "
  | .atLeast => " &gt;= "
  | .equal => " = "
  | .unequal => " != "
  | .fits => ".match("

/-- What the renderer expects behind the operands. -/
def behind : Comparison → String
  | .fits => ")"
  | _ => ""

/-- The right-hand operands an operator takes. -/
def operandClass : Comparison → OperandClass
  | .less | .greater | .atMost | .atLeast => .numeric
  | .equal | .unequal => .both
  | .fits => .string

/-- An operator is read back from its text. -/
theorem ofText?_text (c : Comparison) : ofText? c.text = .ok c := by
  cases c <;> rfl

end Comparison

end MapStyle
