import MapStyle.Memos
import MapStyle.Node.Rendering
import MapStyle.Specificity
import MapStyle.Text.Pieces

/-!
# Stylesheets

A stylesheet is a list of **rulesets** and a list of **rules**, the
declarations, which refer to each other by handles: a rule knows the ruleset
it is made in, a ruleset the one it is nested in and the rules made directly
in it. A handle is a position in its list, so adding never disturbs an older
handle.

Adding places the references (`Node.place`): those in a rule's value are owned
by the rule, those in a selector's filters by the selector.
-/

namespace MapStyle

/-! ## Selectors -/

/-- **What a ruleset applies to.** -/
structure Selector where
  /-- Simple selectors: `#identifier`, `.class` or a plain name. -/
  elements : List String
  filters : List Filter := []
  /-- The window the selector is restricted to, if it is. -/
  zoom : Option Zoom := none
  /-- Its position in the source. -/
  index : Nat

/-- How many identifiers and classes something names. -/
structure Weights where
  ids : Nat
  classes : Nat
deriving DecidableEq

namespace Selector

/-- The weights of a simple selector, by its first character. -/
def elementWeights (element : String) : Weights :=
  match element.toList.head? with
  | some '#' => ⟨1, 0⟩
  | some '.' => ⟨0, 1⟩
  | _ => ⟨0, 0⟩

/-- **The weights of a selector**: those of its elements together. -/
def weights (s : Selector) : Weights :=
  (s.elements.map elementWeights).foldl (fun v w => ⟨v.ids + w.ids, v.classes + w.classes⟩) ⟨0, 0⟩

/-- Whether the selector names nothing, as that of a bare zoom block. -/
def isTrivial (s : Selector) : Bool := s.elements.isEmpty

/-- The selector restricted to a window; the window of all levels is no
restriction. -/
def withZoom (s : Selector) (z : Zoom) : Selector :=
  { s with zoom := if z.isAll then none else some z }

/-- **How strongly a selector speaks.** -/
def specificity (s : Selector) : Specificity :=
  let ⟨ids, classes⟩ := s.weights
  match s.zoom with
  | some z => ⟨ids, classes, z.minLevel?.getD 0, z.maxLevel?.getD 0, s.index⟩
  | none => ⟨ids, classes, 0, Zoom.all.bits, s.index⟩

/-- The selector with the references of its filters placed. -/
def place (owner : Owner) (s : Selector) : StateM Memos Selector :=
  return { s with filters := ← s.filters.mapM (Filter.place (some owner)) }

end Selector

/-! ## Rules -/

/-- **A declaration** of a property or of a variable. -/
structure Rule where
  /-- The name of the property, or of the variable with its `@`. -/
  name : String
  /-- The instance the declaration is for. -/
  instanceName : String
  value : Value
  location : Location
  /-- Whether a variable is declared. -/
  isVariable : Bool
  /-- The symbolizer the property belongs to, as far as known. -/
  symbolizer : Option String
  zoom : Zoom := .all
  /-- The ruleset the declaration is made in; none at the top level. -/
  parent : Option RulesetId := none
  /-- The selectors the declaration was instanced for. -/
  selectors : Option (List Selector) := none

namespace Rule

/-- The instance of a declaration that names none. -/
def defaultInstance : String := "__default__"

/-- The symbolizer of a variable. -/
def wildcard : String := "*"

/-- **The declaration of a name**, whose symbolizer is looked up unless it is
a variable. In front of the last slash stands the instance, of which only the
first piece counts. -/
def declare (symbolizerOf : String → Option String) (declared : String) (value : Value)
    (location : Location) : Rule :=
  let pieces := Text.pieces '/' declared.toList
  let name := String.ofList (pieces.getLastD [])
  let isVariable := declared.toList.head? = some '@'
  { name
    instanceName := if pieces.length ≤ 1 then defaultInstance else String.ofList (pieces.headD [])
    value, location, isVariable
    symbolizer := if isVariable then some wildcard else symbolizerOf name }

/-- What a rule is told apart by: its window, its instance and its name. -/
def id (r : Rule) : String := toString r.zoom.bits ++ "#" ++ r.instanceName ++ "#" ++ r.name

/-- The text of a rule. -/
def text (r : Rule) : String := "[" ++ r.zoom.text ++ "] " ++ r.name ++ ": " ++ r.value.text

/-- **A copy for another instance.** It shares the value, cells included, and
is neither in a ruleset nor restricted to a window. -/
def share (r : Rule) : Rule := { r with zoom := .all, parent := none }

/-- The rule with its references placed under an owner. -/
def own (owner : Owner) (r : Rule) : StateM Memos Rule :=
  return { r with value := ← r.value.place (some owner) }

end Rule

/-! ## Stylesheets -/

/-- Selectors and what stands between their braces. -/
structure Ruleset where
  selectors : List Selector
  /-- The rules made directly inside, in order. -/
  rules : List RuleId := []
  /-- The ruleset this one is nested in. -/
  parent : Option RulesetId

/-- **A stylesheet.** -/
structure Stylesheet where
  rulesets : List Ruleset := []
  rules : List Rule := []

/-- A way in which a stylesheet can be broken: a handle that is followed
points nowhere, or rulesets are nested in themselves. -/
inductive Fault where
  | staleRule (id : RuleId)
  | staleRuleset (id : RulesetId)
  | staleSelector (ref : SelectorRef)
  | endlessNesting
  | endlessResolution
deriving DecidableEq

namespace Stylesheet

/-- The rule of a handle. -/
def rule (sheet : Stylesheet) (id : RuleId) : Except Fault Rule :=
  match sheet.rules[id.index]? with
  | some r => .ok r
  | none => .error (.staleRule id)

/-- The ruleset of a handle. -/
def ruleset (sheet : Stylesheet) (id : RulesetId) : Except Fault Ruleset :=
  match sheet.rulesets[id.index]? with
  | some r => .ok r
  | none => .error (.staleRuleset id)

/-- The selector of a handle. -/
def selector (sheet : Stylesheet) (ref : SelectorRef) : Except Fault Selector := do
  match (← sheet.ruleset ref.ruleset).selectors[ref.position]? with
  | some s => .ok s
  | none => .error (.staleSelector ref)

/-- The rule of a handle, for callers that may hold a stale one. -/
def findRule (sheet : Stylesheet) (id : RuleId) : Except StyleError Rule :=
  (sheet.rules[id.index]?).elim (.error (.staleHandle .rule id.index)) .ok

/-- The ruleset of a handle, for callers that may hold a stale one. -/
def findRuleset (sheet : Stylesheet) (id : RulesetId) : Except StyleError Ruleset :=
  (sheet.rulesets[id.index]?).elim (.error (.staleHandle .ruleset id.index)) .ok

/-- **A ruleset more**, nested in another or not. -/
def addRuleset (sheet : Stylesheet) (selectors : List Selector) (parent : Option RulesetId) :
    StateM Memos (RulesetId × Stylesheet) := do
  let id : RulesetId := ⟨sheet.rulesets.length⟩
  let selectors ← selectors.zipIdx.mapM fun (s, position) => s.place (.selector ⟨id, position⟩)
  return (id, { sheet with rulesets := sheet.rulesets ++ [{ selectors, parent }] })

/-- **A rule more**, made in a ruleset or at the top level. A ruleset that is
not in the stylesheet stays the rule's parent, but does not list it. -/
def addRule (sheet : Stylesheet) (r : Rule) (parent : Option RulesetId) :
    StateM Memos (RuleId × Stylesheet) := do
  let id : RuleId := ⟨sheet.rules.length⟩
  let r ← { r with parent }.own (.rule id)
  let rulesets := match parent with
    | none => sheet.rulesets
    | some p => sheet.rulesets.modify p.index fun rs => { rs with rules := rs.rules ++ [id] }
  return (id, { rulesets, rules := sheet.rules ++ [r] })

/-- The handles of all rules. -/
def ruleIds (sheet : Stylesheet) : List RuleId := (List.range sheet.rules.length).map RuleId.mk

/-- Whether a handle is that of a variable's declaration. -/
def declaresVariable (sheet : Stylesheet) (id : RuleId) : Bool :=
  (sheet.rules[id.index]?).any (·.isVariable)

/-- **The variables declared at the top level.** -/
def globalVariables (sheet : Stylesheet) : List RuleId :=
  sheet.ruleIds.filter fun id =>
    (sheet.rules[id.index]?).any fun r => r.isVariable && r.parent.isNone

/-- **The variables declared directly in a ruleset.** -/
def variablesIn (sheet : Stylesheet) (id : RulesetId) : Except Fault (List RuleId) := do
  return (← sheet.ruleset id).rules.filter sheet.declaresVariable

end Stylesheet

end MapStyle
