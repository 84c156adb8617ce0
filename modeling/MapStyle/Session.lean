import MapStyle.Filter.Expression
import MapStyle.Pass

/-!
# Sessions

A stylesheet with what is remembered of its references, and the pass over it
that is under way. A pass may be replaced; the stylesheet and its cells stay.
-/

namespace MapStyle

/-- **A stylesheet under a pass.** -/
structure Session where
  sheet : Stylesheet := {}
  memos : Memos := .empty
  pass : Pass

/-- A step of a session, or a broken handle. -/
abbrev Step (α : Type) := StateT Session (Except Fault) α

namespace Session

/-- **A session at its start**, without rules. -/
def start (settings : Settings) : Session := { pass := .start settings }

/-- Something done to the cells alone. -/
def place {α : Type} (f : StateM Memos α) : Step α := do
  let s ← get
  let (a, memos) := f.run s.memos
  set { s with memos }
  return a

/-- Something done to the pass alone. -/
def onPass {α : Type} (f : Pass → α × Pass) : Step α := do
  let s ← get
  let (a, pass) := f s.pass
  set { s with pass }
  return a

/-- **Something evaluated** under the declarations in scope. -/
def evaluate {α : Type} (f : Scope → Evaluation α) : Step α := do
  let s ← get
  let (a, p) ← (f ⟨s.sheet, s.pass.frames⟩).run ⟨s.memos, s.pass.log⟩
  set { s with memos := p.memos, pass := { s.pass with log := p.log } }
  return a

/-- A ruleset more. -/
def addRuleset (selectors : List Selector) (parent : Option RulesetId) : Step RulesetId := do
  let s ← get
  let ((id, sheet), memos) := (s.sheet.addRuleset selectors parent).run s.memos
  set { s with sheet, memos }
  return id

/-- A rule more. -/
def addRule (r : Rule) (parent : Option RulesetId) : Step RuleId := do
  let s ← get
  let ((id, sheet), memos) := (s.sheet.addRule r parent).run s.memos
  set { s with sheet, memos }
  return id

/-- Brings a declaration into scope. -/
def pushFrame (id : RuleId) : Step Unit := onPass fun pass => ((), pass.push [id])

/-- Brings the variables of a ruleset into scope. -/
def pushRuleset (id : RulesetId) : Step Unit := do
  let ids ← (← get).sheet.variablesIn id
  onPass fun pass => ((), pass.push ids)

/-- Brings the variables of the top level into scope. -/
def pushGlobals : Step Unit := do
  let ids := (← get).sheet.globalVariables
  onPass fun pass => ((), pass.push ids)

/-- Starts another pass. -/
def restart (settings : Settings) : Step Unit := onPass fun _ => ((), .start settings)

/-- **A rule evaluated.** -/
def evaluateRule (r : Rule) : Step Rule := evaluate r.evaluate

/-- A node evaluated. -/
def evaluateNode (n : Node) : Step Node := evaluate n.evaluate

/-- A filter evaluated. -/
def evaluateFilter (f : Filter) : Step Filter := evaluate f.evaluate

/-- **A filter written.** -/
def writeFilter (schema : Schema) (f : Filter) : Step String :=
  evaluate (f.write schema.filterKeywords)

/-- Whether a rule is accepted. -/
def validate (schema : Schema) (r : Rule) : Step Bool := onPass fun pass => pass.validate schema r

/-- **A rule written.** -/
def write (schema : Schema) (form : Pass.Form) (r : Rule) : Step String :=
  onPass fun pass => pass.write schema form r

end Session

end MapStyle
