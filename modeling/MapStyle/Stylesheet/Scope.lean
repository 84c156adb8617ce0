import MapStyle.Stylesheet.Basic

/-!
# How strongly declarations and references speak

A declaration speaks with the voice of its surroundings. Blocks whose leading
selector has no elements, such as a bare zoom block, take the weights of the
**nearest selector** outwards that has some, and keep their own window and
position – unless that selector has a window itself, which then speaks
alone. A reference inside a rule's value speaks the same way, except that an
outer window is not taken over.
-/

namespace MapStyle

/-- The leading selector of a ruleset, if it has elements. -/
def Ruleset.voice? (ruleset : Ruleset) : Option Selector :=
  ruleset.selectors.head?.filter (!·.isTrivial)

namespace Stylesheet

/-- The nearest selector with elements, looked for in at most so many
rulesets. -/
def nearestWithin (sheet : Stylesheet) : Nat → RulesetId → Except Fault (Option Selector)
  | 0, _ => .error .endlessNesting
  | n + 1, id => do
    let ruleset ← sheet.ruleset id
    match ruleset.voice?, ruleset.parent with
    | some s, _ => return some s
    | none, none => return none
    | none, some outer => sheet.nearestWithin n outer

/-- **The nearest selector with elements**, from a ruleset outwards. No way
outwards meets more rulesets than there are without meeting one twice. -/
def nearestSelector (sheet : Stylesheet) (id : RulesetId) : Except Fault (Option Selector) :=
  sheet.nearestWithin (sheet.rulesets.length + 1) id

/-- **How strongly a declaration speaks** when a name is looked up. -/
def declarationRank (sheet : Stylesheet) (id : RuleId) : Except Fault Specificity := do
  let declaration ← sheet.rule id
  let unscoped := Specificity.unscoped declaration.location.index
  match declaration.parent with
  | none => return unscoped
  | some parent =>
    match ← sheet.nearestSelector parent with
    | none => return unscoped
    | some found =>
      if found.zoom.isSome then return found.specificity
      match (← sheet.ruleset parent).selectors.head? with
      | some own => return own.specificity.withWeights found.weights.ids found.weights.classes
      | none => return found.specificity

/-- How strongly the value of a rule speaks. -/
def ruleRank (sheet : Stylesheet) (id : RuleId) : Except Fault Specificity := do
  let rule ← sheet.rule id
  let unscoped := Specificity.unscoped rule.location.index
  match rule.parent with
  | none => return unscoped
  | some parent =>
    match (← sheet.ruleset parent).selectors.head? with
    | none => return unscoped
    | some own =>
      let weights := ((← sheet.nearestSelector parent).map Selector.weights).getD ⟨0, 0⟩
      return own.specificity.withWeights weights.ids weights.classes

/-- **How strongly a reference speaks**: as what it is written in does. -/
def referenceRank (sheet : Stylesheet) (v : Variable) : Except Fault Specificity :=
  match v.owner with
  | some (.selector ref) => return (← sheet.selector ref).specificity
  | some (.rule id) => sheet.ruleRank id
  | none => return .unscoped v.location.index

end Stylesheet

end MapStyle
