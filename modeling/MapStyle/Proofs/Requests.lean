import MapStyle.Filter.Expression
import MapStyle.Proofs.Invariant

/-!
# What is asked of a stylesheet

The rules of a stylesheet are evaluated, and the filters of its selectors are
evaluated or written, in any order and any number of times. Each such
**request** (`Request`) evaluates one node, and the answer is that node put back
in its place (`Request.run_answer`); apart from its reports, writing a filter
does nothing else. So what is known of the evaluation of nodes is known of
requests.
-/

namespace MapStyle

/-- **To evaluate a rule is to evaluate its value as a node.** -/
theorem Rule.evaluate_eq (scope : Scope) (r : Rule) :
    r.evaluate scope
      = (fun m => { r with value := .ofNode m }) <$> r.value.node.evaluate scope := by
  simp [Rule.evaluate, Value.evaluate, Value.toNode, Node.evaluate, Value.node, Node.evaluateWith]

/-- **To evaluate a filter is to evaluate it as a node.** -/
theorem Filter.toNode_evaluate (scope : Scope) (f : Filter) :
    Filter.toNode <$> f.evaluate scope = f.toNode.evaluate scope := by
  simp [Filter.evaluate, Filter.toNode, Node.evaluate, Node.evaluateWith]

/-- A filter can be told from its node. -/
theorem Filter.toNode_injective : Function.Injective Filter.toNode := by
  intro f g h
  obtain ⟨hkey, hcomparison, hoperand, hlocation⟩ := Node.filter.inj h
  cases f
  cases g
  simp_all

/-- A filter is evaluated to what it is evaluated to as a node. -/
theorem Filter.run_evaluate_eq_ok_iff {scope : Scope} {f g : Filter} {p q : Progress} :
    (f.evaluate scope).run p = .ok (g, q) ↔
      (f.toNode.evaluate scope).run p = .ok (g.toNode, q) := by
  rw [← Filter.toNode_evaluate]
  constructor
  · exact Evaluation.run_map_of_eq_ok
  · intro h
    obtain ⟨g', hg', hnode⟩ := Evaluation.exists_of_run_map_eq_ok h
    rw [hg', Filter.toNode_injective hnode]

namespace Filter

variable {scope : Scope} {f : Filter} {p q o : Progress}

/-- A filter is evaluated by its operands. -/
theorem run_evaluate {k m : Node} (hkey : (f.key.evaluate scope).run p = .ok (k, q))
    (hoperand : (f.operand.evaluate scope).run q = .ok (m, o)) :
    (f.evaluate scope).run p = .ok ({ f with key := k, operand := m }, o) := by
  rw [evaluate, Evaluation.run_bind_of_eq_ok hkey, Evaluation.run_bind_of_eq_ok hoperand]
  rfl

/-- An evaluated filter is written as its expression, and what is wrong with it is
reported. -/
theorem run_write {g : Filter} (h : (f.evaluate scope).run p = .ok (g, q))
    (keywords : Option (List String)) : (f.write keywords scope).run p
      = .ok (g.expression, { q with log := q.log.reportAll (g.findings keywords) }) := by
  rw [write, Evaluation.run_bind_of_eq_ok h]
  rfl

end Filter

/-- **What is asked of a stylesheet.** -/
inductive Request where
  /-- A rule evaluated. -/
  | rule (r : Rule)
  /-- A filter evaluated. -/
  | filter (f : Filter)
  /-- A filter written, where only some words may be used. -/
  | writing (keywords : Option (List String)) (f : Filter)

/-- What is answered. -/
inductive Answer where
  | rule (r : Rule)
  | filter (f : Filter)
  | text (text : String)

namespace Request

/-- The request is about the stylesheet: about one of its rules, or about a
filter of one of its selectors. -/
def IsOf (sheet : Stylesheet) : Request → Prop
  | .rule r => r ∈ sheet.rules
  | .filter f | .writing _ f => f ∈ sheet.filters

/-- **What is done about a request.** -/
def answer (scope : Scope) : Request → Evaluation Answer
  | .rule r => .rule <$> r.evaluate scope
  | .filter f => .filter <$> f.evaluate scope
  | .writing keywords f => .text <$> f.write keywords scope

/-- The node that a request evaluates. -/
def node : Request → Node
  | .rule r => r.value.node
  | .filter f | .writing _ f => f.toNode

/-- **The answer with an evaluated node in its place.** -/
def outcome : Request → Node → Answer
  | .rule r, m => .rule { r with value := .ofNode m }
  | .filter f, .filter key _ operand _ => .filter { f with key, operand }
  | .writing _ f, .filter key _ operand _ => .text { f with key, operand : Filter }.expression
  | .filter f, _ => .filter f
  | .writing _ f, _ => .text f.expression

/-- What is reported about an evaluated node. -/
def findings : Request → Node → List Diagnostic
  | .writing keywords f, .filter key _ operand _ =>
    { f with key, operand : Filter }.findings keywords
  | _, _ => []

/-- The references that a request is about are references of the stylesheet. -/
theorem mem_references {sheet : Stylesheet} {request : Request} (h : request.IsOf sheet)
    {v : Variable} (hv : v ∈ request.node.references) : v ∈ sheet.references := by
  cases request with
  | rule r => exact Stylesheet.mem_references_of_rule h hv
  | filter f => exact Stylesheet.mem_references_of_filter h hv
  | writing _ f => exact Stylesheet.mem_references_of_filter h hv

/-- To report nothing is to do nothing. -/
theorem modify_reportAll_nil :
    (modify fun p : Progress => { p with log := p.log.reportAll [] } : Evaluation Unit)
      = pure () := rfl

/-- **A request evaluates its node**, reports what it finds there, and puts the
node in its place. -/
theorem answer_eq (scope : Scope) (request : Request) :
    request.answer scope = (do
      let m ← request.node.evaluate scope
      modify fun p => { p with log := p.log.reportAll (request.findings m) }
      return request.outcome m) := by
  cases request with
  | rule r =>
    simp [answer, node, outcome, findings, modify_reportAll_nil, Rule.evaluate_eq]
  | filter f =>
    simp [answer, node, outcome, findings, modify_reportAll_nil, Filter.evaluate, Filter.toNode,
      Node.evaluate, Node.evaluateWith]
  | writing keywords f =>
    simp [answer, node, outcome, findings, Filter.write, Filter.evaluate, Filter.toNode,
      Node.evaluate, Node.evaluateWith]

/-- **The answer to a request**, when its node was evaluated. -/
theorem run_answer {scope : Scope} (request : Request) {p q : Progress} {m : Node}
    (h : (request.node.evaluate scope).run p = .ok (m, q)) :
    (request.answer scope).run p
      = .ok (request.outcome m, { q with log := q.log.reportAll (request.findings m) }) := by
  rw [answer_eq, Evaluation.run_bind_of_eq_ok h]
  rfl

/-- The evaluation that a request begins with. -/
def task (request : Request) (p : Progress) : Scope.Task := ⟨[], request.node, p⟩

/-- What is known of the references of a stylesheet is known of those of a
request. -/
theorem admits_task {scope : Scope} {inv : scope.Invariant} {request : Request}
    (h : request.IsOf scope.sheet) (hmeets : ∀ v ∈ scope.sheet.references, inv.Meets [] v)
    {p : Progress} (hp : inv.Keeps p) : inv.Admits (request.task p) :=
  ⟨Scope.Nested.nil, fun v hv => hmeets v (mem_references h hv), hp⟩

end Request

end MapStyle
