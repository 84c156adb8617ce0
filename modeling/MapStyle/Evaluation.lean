import MapStyle.Cascade
import MapStyle.Diagnostic.Basic

/-!
# Evaluation

To evaluate a node is to put the values of its references in their place. A
reference whose cell is full stands for what the cell holds. Any other is
bound by the cascade to a declaration, and stands for that declaration's
value, evaluated in turn; its cell then remembers it. A reference without a
declaration, or to a declaration that is being evaluated already, is reported
and stands for `Node.undefined`.

Evaluation goes through the node by recursion on it, with a way to look up
references as a parameter (`Node.evaluateWith`). Looking up a reference enters a
declaration, which must not have been entered before, so the number of
declarations in scope bounds the depth (`Scope.resolveWithin`).

All that evaluation changes is `Progress`: cells are filled and diagnostics
added. It fails only where a handle that it has to follow is stale.
-/

namespace MapStyle

/-- **What evaluation changes.** -/
structure Progress where
  memos : Memos
  log : Log

/-- A computation that makes progress, or meets a broken handle. -/
abbrev Evaluation := StateT Progress (Except Fault)

namespace Progress

/-- The progress after a report. -/
def report (p : Progress) (d : Diagnostic) : Progress := { p with log := p.log.report d }

/-- The progress after a reference got its value. -/
def remember (p : Progress) (v : Variable) (n : Node) : Progress :=
  { p with memos := p.memos.fill v.cell n }

end Progress

/-! ## Through a node -/

namespace Node

mutual

/-- **The node with its references looked up.** An expression or a value that
comes down to one part is that part. -/
def evaluateWith (lookUp : Variable → Evaluation Node) : Node → Evaluation Node
  | .expression elements => return .ofElements (← evaluateAllWith lookUp elements)
  | .filter key comparison operand location =>
    return .filter (← evaluateWith lookUp key) comparison (← evaluateWith lookUp operand) location
  | .effectCall name arguments => return .effectCall name (← evaluateAllWith lookUp arguments)
  | .url target paths => return .url (← evaluateWith lookUp target) paths
  | .variable reference => lookUp reference
  | .value components => return .ofComponents (← evaluateAllWith lookUp components)
  | n => return n

/-- The nodes with their references looked up, from left to right. -/
def evaluateAllWith (lookUp : Variable → Evaluation Node) : List Node → Evaluation (List Node)
  | [] => return []
  | n :: ns => return (← evaluateWith lookUp n) :: (← evaluateAllWith lookUp ns)

end

/-- Several nodes are evaluated one after the other. -/
theorem evaluateAllWith_eq_mapM (lookUp : Variable → Evaluation Node) (ns : List Node) :
    evaluateAllWith lookUp ns = ns.mapM (evaluateWith lookUp) := by
  induction ns with
  | nil => rfl
  | cons n ns ih => rw [evaluateAllWith, ih, List.mapM_cons]

end Node

/-! ## From a reference to its declaration -/

namespace Variable

/-- The report that a reference has no declaration. -/
def undefinedReport (v : Variable) : Diagnostic :=
  .error .undefinedVariable ("variable " ++ v.name ++ " is undefined") v.location

/-- The report that a reference leads back to a declaration being
evaluated. -/
def circularReport (v : Variable) : Diagnostic :=
  .error .circularVariable ("variable " ++ v.name ++ " is defined in terms of itself") v.location

end Variable

namespace Scope

/-- The value of a reference by its declaration: `entered` are the declarations
being evaluated, and `enter` evaluates one more. -/
def settle (scope : Scope) (entered : List RuleId) (enter : Rule → RuleId → Evaluation Node)
    (v : Variable) : Evaluation Node := do
  match ← scope.binding? v with
  | none =>
    modify (·.report v.undefinedReport)
    return .undefined
  | some id =>
    if id ∈ entered then
      modify (·.report v.circularReport)
      return .undefined
    else enter (← scope.sheet.rule id) id

/-- **A reference is settled once.** What its cell holds is its value;
otherwise its declaration says, and the cell remembers. A cell filled in the
meantime keeps what it holds. -/
def once (settle : Variable → Evaluation Node) (v : Variable) : Evaluation Node := do
  match (← get).memos.get? v.cell with
  | some n => return n
  | none =>
    let n ← settle v
    modify (·.remember v n)
    return n

/-- **The value of a reference**, where at most so many declarations may be
entered, one inside the other. -/
def resolveWithin (scope : Scope) : Nat → List RuleId → Variable → Evaluation Node
  | 0, entered =>
    once <| scope.settle entered fun _ _ => throw .endlessResolution
  | depth + 1, entered =>
    once <| scope.settle entered fun declaration id =>
      return .ofComponents
        (← Node.evaluateAllWith (scope.resolveWithin depth (id :: entered))
          declaration.value.components)

/-- **The value of a reference.** Every declaration entered is one of the
variables in scope, and none is entered inside itself. -/
def resolve (scope : Scope) (entered : List RuleId) : Variable → Evaluation Node :=
  scope.resolveWithin scope.declarations.length entered

end Scope

/-! ## What is evaluated -/

/-- **The node with the values of its references.** -/
def Node.evaluate (scope : Scope) (n : Node) : Evaluation Node :=
  n.evaluateWith (scope.resolve [])

/-- The value with its components evaluated. -/
def Value.evaluate (scope : Scope) (v : Value) : Evaluation Value :=
  return ⟨← Node.evaluateAllWith (scope.resolve []) v.components⟩

/-- The filter with its operands evaluated, the key first. -/
def Filter.evaluate (scope : Scope) (f : Filter) : Evaluation Filter :=
  return { f with key := ← f.key.evaluate scope, operand := ← f.operand.evaluate scope }

/-- **The rule with its value evaluated.** A value that comes down to a list, as
that of a single reference to a stack of fonts, is that list. -/
def Rule.evaluate (scope : Scope) (r : Rule) : Evaluation Rule :=
  return { r with value := .ofNode (← r.value.evaluate scope).toNode }

end MapStyle
