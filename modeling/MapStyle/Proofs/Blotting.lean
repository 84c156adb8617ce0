import MapStyle.Proofs.Outline
import MapStyle.Proofs.Simulation

/-!
# Blotted string literals

Evaluation never looks at what a string literal says. To say so, it is taken out: a node, a
rule, a filter or a whole stylesheet is **blotted** (`Node.blot`, `Stylesheet.blot`), and two
of them differ in nothing but their literals if they are the same when blotted.

What a reference is bound to is said by names and places alone, so it is the same under
stylesheets that are the same when blotted. Evaluations under these go in step
(`Scope.blotting`): what comes out is the same when blotted again, and so is what is
remembered of references.
-/

namespace MapStyle

/-! ## Nodes -/

namespace Node

mutual

/-- **The node without what its string literals say.** -/
def blot : Node → Node
  | .expression elements => .expression (blotAll elements)
  | .filter key comparison operand location =>
    .filter (blot key) comparison (blot operand) location
  | .effectCall name arguments => .effectCall name (blotAll arguments)
  | .url target paths => .url (blot target) paths
  | .value components => .value (blotAll components)
  | .quoted _ => .quoted ""
  | n => n

/-- The nodes without what their string literals say. -/
def blotAll : List Node → List Node
  | [] => []
  | n :: ns => blot n :: blotAll ns

end

@[simp] theorem blotAll_eq_map (ns : List Node) : blotAll ns = ns.map blot := by
  induction ns with
  | nil => rfl
  | cons n ns ih => rw [blotAll, ih, List.map_cons]

/-- The parts of a blotted node are blotted. -/
theorem parts_blot (n : Node) : n.blot.parts = n.parts.map blot := by
  match n with
  | .expression _ | .effectCall .. | .value _ => simp [blot, parts]
  | .filter .. | .url .. => simp [blot, parts]
  | .field _ | .effect _ | .keyword _ | .literal _ | .variable _ | .quoted _ | .dimension _
  | .color _ | .undefined => rfl

/-- Blotted elements make up a blotted node. -/
theorem blot_ofElements (ns : List Node) : (ofElements ns).blot = ofElements (ns.map blot) := by
  cases ns with
  | nil => rfl
  | cons n ns =>
    cases ns with
    | nil => rfl
    | cons n' ns => simp [ofElements, blot]

/-- Blotted components make up a blotted node. -/
theorem blot_ofComponents (ns : List Node) :
    (ofComponents ns).blot = ofComponents (ns.map blot) := by
  cases ns with
  | nil => rfl
  | cons n ns =>
    cases ns with
    | nil => rfl
    | cons n' ns => simp [ofComponents, blot]

/-- **A blotted node is put together from blotted parts.** -/
theorem blot_rebuild (n : Node) (ns : List Node) :
    (n.rebuild ns).blot = n.blot.rebuild (ns.map blot) := by
  cases n with
  | expression _ => exact blot_ofElements ns
  | value _ => exact blot_ofComponents ns
  | effectCall name _ => simp [blot, rebuild]
  | filter key comparison operand location =>
    -- with any number of parts but two a filter is left as it is
    cases ns with
    | nil => rfl
    | cons key' ns =>
      cases ns with
      | nil => rfl
      | cons operand' ns => cases ns <;> rfl
  | url target paths =>
    -- so is a resource, with any number but one
    cases ns with
    | nil => rfl
    | cons target' ns => cases ns <;> rfl
  | _ => rfl

/-- A reference has no literals. -/
theorem eq_of_blot_eq_variable {n : Node} {v : Variable} (h : n.blot = .variable v) :
    n = .variable v := by
  match n, h with
  | .variable w, h => exact h

/-- Lists that are the same when blotted are so member by member. -/
theorem forall₂_blot_iff {ns ms : List Node} :
    List.Forall₂ (fun n m => n.blot = m.blot) ns ms ↔ ns.map blot = ms.map blot := by
  rw [← List.forall₂_eq_eq_eq, List.forall₂_map_left_iff, List.forall₂_map_right_iff]

/-- **Evaluation keeps what is the same when blotted.** -/
theorem congruent_blot : Congruent fun n m => n.blot = m.blot where
  eq_of_left h := eq_of_blot_eq_variable h.symm
  eq_of_right h := eq_of_blot_eq_variable h
  parts {n m} h := by
    rw [forall₂_blot_iff, ← parts_blot, ← parts_blot, h]
  rebuild {n m ns ms} h hs := by
    rw [forall₂_blot_iff] at hs
    show (n.rebuild ns).blot = (m.rebuild ms).blot
    rw [blot_rebuild, blot_rebuild, h, hs]

end Node

/-! ## Stylesheets and cells -/

/-- The value without what its literals say. -/
def Value.blot (v : Value) : Value := ⟨v.components.map Node.blot⟩

/-- The filter without what its literals say. -/
def Filter.blot (f : Filter) : Filter := { f with key := f.key.blot, operand := f.operand.blot }

/-- The selector without what its literals say. -/
def Selector.blot (s : Selector) : Selector := { s with filters := s.filters.map Filter.blot }

/-- The rule without what its literals say. -/
def Rule.blot (r : Rule) : Rule :=
  { r with value := r.value.blot, selectors := r.selectors.map (List.map Selector.blot) }

/-- The ruleset without what its literals say. -/
def Ruleset.blot (ruleset : Ruleset) : Ruleset :=
  { ruleset with selectors := ruleset.selectors.map Selector.blot }

/-- **The stylesheet without what its literals say.** -/
def Stylesheet.blot (sheet : Stylesheet) : Stylesheet where
  rulesets := sheet.rulesets.map Ruleset.blot
  rules := sheet.rules.map Rule.blot

/-- **What is remembered, without what literals say.** -/
def Memos.blot (m : Memos) : Memos := ⟨m.cells.map (Option.map Node.blot)⟩

theorem Value.node_blot (v : Value) : v.node.blot = v.blot.node := by
  rw [node, Node.blot, Node.blotAll_eq_map]
  rfl

theorem Value.blot_ofNode (n : Node) : (ofNode n).blot = ofNode n.blot := by
  cases n with
  | value ns =>
    show blot ⟨ns⟩ = ⟨Node.blotAll ns⟩
    rw [Node.blotAll_eq_map]
    rfl
  | _ => rfl

namespace Memos

/-- A cell holds the same, blotted. -/
theorem get?_blot (m : Memos) (cell : Option ℕ) :
    m.blot.get? cell = (m.get? cell).map Node.blot := by
  cases cell with
  | none => rfl
  | some c =>
    show ((m.cells.map (Option.map Node.blot))[c]?).join = _
    rw [Array.getElem?_map]
    cases hc : m.cells[c]? with
    | none => simp [get?, hc]
    | some content => simp [get?, hc]

/-- A cell is filled with the same, blotted. -/
theorem blot_fill (m : Memos) (cell : Option ℕ) (n : Node) :
    (m.fill cell n).blot = m.blot.fill cell n.blot := by
  cases cell with
  | none => rfl
  | some c =>
    unfold fill
    dsimp only
    rw [get?_blot, Option.isSome_map]
    split
    · rfl
    · show Memos.mk _ = Memos.mk _
      rw [Array.map_setIfInBounds]
      rfl

end Memos

/-- **What references are bound to does not depend on literals.** -/
theorem Stylesheet.headings_blot (sheet : Stylesheet) : sheet.blot.headings = sheet.headings := by
  unfold headings blot
  rw [List.map_map, List.map_map]
  refine congrArg₂ Stylesheet.mk (List.map_congr_left fun rs _ => ?_) rfl
  show { rs with selectors := (rs.selectors.map Selector.blot).map Selector.outline } = _
  rw [List.map_map]
  rfl

/-! ## Evaluation -/

namespace Scope

variable {sheet sheet' : Stylesheet}

/-- **Evaluations go in step under stylesheets that are the same when blotted.** -/
def blotting (h : sheet.blot = sheet'.blot) (frames : List RuleId) :
    (Scope.mk sheet frames).Simulation (Scope.mk sheet' frames) where
  Nodes n m := n.blot = m.blot
  States p q := p.memos.blot = q.memos.blot
  congruent := Node.congruent_blot
  undefined := rfl
  declares := by
    rw [← declarations_headings sheet, ← sheet.headings_blot, h, sheet'.headings_blot,
      declarations_headings]
  binds := by
    rw [← binding?_headings sheet, ← sheet.headings_blot, h, sheet'.headings_blot,
      binding?_headings]
  enters id := by
    have hrules : (sheet.rules[id.index]?).map Rule.blot
        = (sheet'.rules[id.index]?).map Rule.blot := by
      rw [← List.getElem?_map, ← List.getElem?_map]
      exact congrArg (fun s => s.rules[id.index]?) h
    show Agree _ (sheet.rule id) (sheet'.rule id)
    unfold Stylesheet.rule
    generalize sheet.rules[id.index]? = found, sheet'.rules[id.index]? = found' at hrules ⊢
    cases found with
    | none =>
      rw [Option.map_eq_none_iff.mp hrules.symm]
      exact .fault _
    | some r =>
      obtain ⟨r', rfl, hr⟩ := Option.map_eq_some_iff.mp hrules.symm
      refine .result ?_
      rw [Value.node_blot, Value.node_blot]
      exact congrArg (fun r => r.value.node) hr.symm
  recalls {p q} cell hpq := by
    have hcell : (p.memos.get? cell).map Node.blot = (q.memos.get? cell).map Node.blot := by
      rw [← Memos.get?_blot, ← Memos.get?_blot, hpq]
    generalize p.memos.get? cell = known, q.memos.get? cell = known' at hcell ⊢
    cases known with
    | none =>
      rw [Option.map_eq_none_iff.mp hcell.symm]
      exact .none
    | some n =>
      obtain ⟨m, rfl, hm⟩ := Option.map_eq_some_iff.mp hcell.symm
      exact .some hm.symm
  reports _ hpq := hpq
  remembers {p q n m} v hpq hnm := by
    show (p.memos.fill v.cell n).blot = (q.memos.fill v.cell m).blot
    rw [Memos.blot_fill, Memos.blot_fill, hpq, hnm]

variable {p q : Progress}

/-- **Evaluations of nodes that are the same when blotted.** -/
theorem evaluate_node_of_blot (hsheet : sheet.blot = sheet'.blot)
    (frames : List RuleId) (hmemos : p.memos.blot = q.memos.blot) {n m : Node}
    (h : n.blot = m.blot) :
    Agree (fun x y => x.1.blot = y.1.blot ∧ x.2.memos.blot = y.2.memos.blot)
      ((n.evaluate ⟨sheet, frames⟩).run p) ((m.evaluate ⟨sheet', frames⟩).run q) :=
  (blotting hsheet frames).evaluate_node h p q hmemos

/-- **Evaluations of rules that are the same when blotted.** -/
theorem evaluate_rule_of_blot (hsheet : sheet.blot = sheet'.blot)
    (frames : List RuleId) (hmemos : p.memos.blot = q.memos.blot) {r r' : Rule}
    (h : r.blot = r'.blot) :
    Agree (fun x y => x.1.blot = y.1.blot ∧ x.2.memos.blot = y.2.memos.blot)
      ((r.evaluate ⟨sheet, frames⟩).run p) ((r'.evaluate ⟨sheet', frames⟩).run q) := by
  have hvalue : r.value.node.blot = r'.value.node.blot := by
    rw [Value.node_blot, Value.node_blot]
    exact congrArg (fun r => r.value.node) h
  refine ((blotting hsheet frames).evaluate_rule hvalue p q hmemos).imp fun x y hxy => ?_
  obtain ⟨⟨n, m, hnm, hx, hy⟩, hstate⟩ := hxy
  refine ⟨?_, hstate⟩
  rw [hx, hy]
  show { r.blot with value := (Value.ofNode n).blot }
    = { r'.blot with value := (Value.ofNode m).blot }
  rw [h, Value.blot_ofNode, Value.blot_ofNode, show n.blot = m.blot from hnm]

/-- **Evaluations of filters that are the same when blotted.** -/
theorem evaluate_filter_of_blot (hsheet : sheet.blot = sheet'.blot)
    (frames : List RuleId) (hmemos : p.memos.blot = q.memos.blot) {f g : Filter}
    (h : f.blot = g.blot) :
    Agree (fun x y => x.1.blot = y.1.blot ∧ x.2.memos.blot = y.2.memos.blot)
      ((f.evaluate ⟨sheet, frames⟩).run p) ((g.evaluate ⟨sheet', frames⟩).run q) := by
  have hkey : f.key.blot = g.key.blot := congrArg Filter.key h
  have hoperand : f.operand.blot = g.operand.blot := congrArg Filter.operand h
  refine ((blotting hsheet frames).evaluate_filter hkey hoperand p q hmemos).imp fun x y hxy => ?_
  obtain ⟨⟨k, k', o, o', hk, ho, hx, hy⟩, hstate⟩ := hxy
  refine ⟨?_, hstate⟩
  rw [hx, hy]
  show { f.blot with key := k.blot, operand := o.blot }
    = { g.blot with key := k'.blot, operand := o'.blot }
  rw [h, show k.blot = k'.blot from hk, show o.blot = o'.blot from ho]

end Scope

end MapStyle
