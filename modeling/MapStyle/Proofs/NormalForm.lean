import MapStyle.Proofs.Closed
import MapStyle.Proofs.Termination

/-!
# Normal forms

What evaluation returns is in **normal form** (`Node.IsNormal`): at no depth is a
reference left, nor an expression or a value that has a single part. Such a node
evaluates to itself, whatever is in scope, and nothing else happens
(`Node.evaluateWith_of_isNormal`), so evaluating twice is evaluating once.

A single part takes the place of its list when the list is put together, and it
is in normal form by then, so one pass over the node is enough. The exception is
a reference whose cell is full: it returns what the cell holds, unseen. So
normal forms are returned where the cells hold nothing else, and that is so in a
stylesheet whose cells were filled by evaluation only (`Stylesheet.InUse`),
whatever was evaluated, placed and added in the meantime.
-/

namespace MapStyle

namespace Node

/-- **A list that comes down to its only part.** -/
def Collapses : Node → Prop
  | .expression [_] => True
  | .value [_] => True
  | _ => False

/-- **A node in normal form**: at no depth is there a reference, or a list that
comes down to its only part. -/
def IsNormal (n : Node) : Prop := ∀ k, n.Contains k → ¬k.IsReference ∧ ¬k.Collapses

/-- A node is in normal form if its parts are, and there is nothing to be done to
the node itself. -/
theorem isNormal_iff {n : Node} :
    n.IsNormal ↔ (¬n.IsReference ∧ ¬n.Collapses) ∧ ∀ m ∈ n.parts, m.IsNormal := by
  constructor
  · intro h
    exact ⟨h n (.refl n), fun m hm k hk => h k (contains_of_mem_parts hm hk)⟩
  · rintro ⟨hself, hparts⟩ k hk
    rcases contains_iff.mp hk with rfl | ⟨m, hm, hmk⟩
    · exact hself
    · exact hparts m hm k hmk

/-- There is nothing to be done to `Node.undefined`. -/
theorem isNormal_undefined : undefined.IsNormal :=
  isNormal_iff.mpr ⟨⟨id, id⟩, fun _ hm => absurd hm List.not_mem_nil⟩

/-! ## Putting together -/

section

variable {n : Node} {ms : List Node}

/-- **What a node is put together to**: one of the parts, or a node with all of these
parts, which is no reference, does not come down to its only part, and is not
`Node.undefined` unless the node was. -/
theorem rebuild_cases (hn : ¬n.IsReference) (hlength : ms.length = n.parts.length) :
    n.rebuild ms ∈ ms ∨ ((n.rebuild ms).parts = ms ∧ ¬(n.rebuild ms).IsReference ∧
      ¬(n.rebuild ms).Collapses ∧ (n.rebuild ms = .undefined → n = .undefined)) := by
  match n with
  | .variable _ => exact absurd trivial hn
  | .expression _ | .value _ =>
    match ms with
    | [m] => exact Or.inl (List.mem_singleton_self m)
    | [] | _ :: _ :: _ => exact Or.inr ⟨rfl, id, id, Node.noConfusion⟩
  | .effectCall .. => exact Or.inr ⟨rfl, id, id, Node.noConfusion⟩
  | .filter .. =>
    obtain ⟨key, operand, rfl⟩ := List.length_eq_two.mp hlength
    exact Or.inr ⟨rfl, id, id, Node.noConfusion⟩
  | .url .. =>
    obtain ⟨target, rfl⟩ := List.length_eq_one_iff.mp hlength
    exact Or.inr ⟨rfl, id, id, Node.noConfusion⟩
  | .field _ | .effect _ | .keyword _ | .literal _ | .quoted _ | .dimension _ | .color _
  | .undefined =>
    rw [List.length_eq_zero_iff.mp hlength]
    exact Or.inr ⟨rfl, id, id, id⟩

/-- **A node put together from parts in normal form is in normal form.** -/
theorem isNormal_rebuild (hn : ¬n.IsReference) (hlength : ms.length = n.parts.length)
    (h : ∀ m ∈ ms, m.IsNormal) : (n.rebuild ms).IsNormal := by
  rcases rebuild_cases hn hlength with hmem | ⟨hparts, hreference, hcollapses, -⟩
  · exact h _ hmem
  · refine isNormal_iff.mpr ⟨⟨hreference, hcollapses⟩, ?_⟩
    rw [hparts]
    exact h

/-- A node that does not come down to its only part is put together from its
parts. -/
theorem rebuild_parts (hn : ¬n.Collapses) : n.rebuild n.parts = n := by
  match n with
  | .expression [_] | .value [_] => exact absurd trivial hn
  | .expression [] | .expression (_ :: _ :: _) | .value [] | .value (_ :: _ :: _) => rfl
  | .effectCall .. | .filter .. | .url .. | .variable _ => rfl
  | .field _ | .effect _ | .keyword _ | .literal _ | .quoted _ | .dimension _ | .color _
  | .undefined => rfl

end

/-! ## Evaluating again -/

/-- A node in normal form has no references. -/
theorem references_of_isNormal {n : Node} (h : n.IsNormal) : n.references = [] := by
  induction n using partInduction with
  | reference v => exact absurd trivial (isNormal_iff.mp h).1.1
  | composite n hn ih =>
    rw [references_of_not_isReference hn]
    exact List.flatMap_eq_nil_iff.mpr fun m hm => ih m hm ((isNormal_iff.mp h).2 m hm)

/-- In a node in normal form there is nothing to collapse. -/
theorem collapse_of_isNormal {n : Node} (h : n.IsNormal) : n.collapse = n := by
  induction n using partInduction with
  | reference v => rfl
  | composite n hn ih =>
    obtain ⟨⟨-, hcollapses⟩, hparts⟩ := isNormal_iff.mp h
    have hmap : n.parts.map collapse = n.parts :=
      (List.map_congr_left fun m hm => ih m hm (hparts m hm)).trans (List.map_id _)
    rw [collapse_of_not_isReference hn, hmap, rebuild_parts hcollapses]

/-- **A node in normal form evaluates to itself**, however references are looked
up. -/
theorem evaluateWith_of_isNormal (lookUp : Variable → Evaluation Node) {n : Node}
    (h : n.IsNormal) : n.evaluateWith lookUp = pure n := by
  rw [evaluateWith_of_references_eq_nil lookUp (references_of_isNormal h), collapse_of_isNormal h]

/-- An element alone is evaluated in place of its expression. -/
theorem evaluateWith_expression_singleton (lookUp : Variable → Evaluation Node) (n : Node) :
    (expression [n]).evaluateWith lookUp = n.evaluateWith lookUp := by
  simp [evaluateWith, evaluateAllWith, ofElements]

/-- A component alone is evaluated in place of its value. -/
theorem evaluateWith_value_singleton (lookUp : Variable → Evaluation Node) (n : Node) :
    (value [n]).evaluateWith lookUp = n.evaluateWith lookUp := by
  simp [evaluateWith, evaluateAllWith, ofComponents]

/-- The value of a node, as a node, is the node itself or has it as its only
component. -/
theorem node_ofNode (n : Node) :
    (Value.ofNode n).node = n ∨ (Value.ofNode n).node = .value [n] := by
  cases n with
  | value _ => exact Or.inl rfl
  | _ => exact Or.inr rfl

/-- **The value of a node in normal form comes down to the node** when it is
evaluated. -/
theorem evaluateWith_ofNode (lookUp : Variable → Evaluation Node) {n : Node}
    (h : n.IsNormal) : (Value.ofNode n).node.evaluateWith lookUp = pure n := by
  rcases node_ofNode n with hnode | hnode
  · rw [hnode, evaluateWith_of_isNormal lookUp h]
  · rw [hnode, evaluateWith_value_singleton, evaluateWith_of_isNormal lookUp h]

end Node

/-! ## What evaluation returns -/

namespace Scope

variable {scope : Scope} {entered : List RuleId} {p : Progress} {ns ms : List Node}
  {es : List LookUp}

/-- **What is true of everything that an evaluation puts together**, of what it
finds in the cells, and of `Node.undefined` if it reports anything, is true of all
that it returns and leaves in the cells. `P` says which nodes are evaluated on
the way. -/
theorem Evaluates.forall_value {P Q : Node → Prop}
    (hparts : ∀ n, P n → ∀ m ∈ n.parts, P m)
    (henter : ∀ v id r, P (.variable v) → scope.Binds v.name id →
      scope.sheet.rules[id.index]? = some r → P r.value.node)
    (hrebuild : ∀ n ms, P n → ¬n.IsReference → ms.length = n.parts.length →
      (∀ m ∈ ms, Q m) → Q (n.rebuild ms))
    (h : scope.Evaluates entered p ns ms es) (hns : ∀ n ∈ ns, P n)
    (hreport : ∀ e ∈ es, e.report?.isSome → Q .undefined)
    (hp : ∀ v, P (.variable v) → ∀ n, p.memos.get? v.cell = some n → Q n) :
    (∀ m ∈ ms, Q m) ∧
      ∀ v, P (.variable v) → ∀ n, (p.after es).memos.get? v.cell = some n → Q n := by
  -- a value that has the property may be put into any cell
  have hfill : ∀ {q : Progress} {e : LookUp}, Q e.value →
      (∀ v, P (.variable v) → ∀ n, q.memos.get? v.cell = some n → Q n) →
      ∀ v, P (.variable v) → ∀ n, (q.record e).memos.get? v.cell = some n → Q n := by
    intro q e he hq v hv n hn
    rw [Progress.memos_record] at hn
    rcases Memos.get?_fill hn with hn | ⟨-, rfl⟩
    · exact hq v hv n hn
    · exact he
  induction h with
  | nil => exact ⟨fun m hm => absurd hm List.not_mem_nil, hp⟩
  | @composite entered p n ns ms ks es fs hn hevaluated _ ihparts ihrest =>
    obtain ⟨hms, hafter⟩ := ihparts (hparts n (hns n List.mem_cons_self))
      (fun e he => hreport e (List.mem_append_left _ he)) hp
    obtain ⟨hks, hend⟩ := ihrest (fun k hk => hns k (List.mem_cons_of_mem _ hk))
      (fun e he => hreport e (List.mem_append_right _ he)) hafter
    rw [Progress.after_append]
    refine ⟨List.forall_mem_cons.mpr ⟨?_, hks⟩, hend⟩
    exact hrebuild n ms (hns n List.mem_cons_self) hn hevaluated.length_eq hms
  | @answer entered p v m report? ns ks fs hanswer _ ih =>
    have hm : Q m := by
      cases hanswer with
      | recalled hfull => exact hp v (hns _ List.mem_cons_self) m hfull
      | undefined | circular => exact hreport _ List.mem_cons_self rfl
    obtain ⟨hks, hend⟩ := ih (fun k hk => hns k (List.mem_cons_of_mem _ hk))
      (fun e he => hreport e (List.mem_cons_of_mem _ he)) (hfill hm hp)
    exact ⟨List.forall_mem_cons.mpr ⟨hm, hks⟩, hend⟩
  | @enter entered p v id r m ns ks es fs _ hb _ hr _ _ ihvalue ihrest =>
    have hgood := henter v id r (hns _ List.mem_cons_self)
      ((binds_iff_of_binding? hb id).mpr rfl) hr
    obtain ⟨hms, hafter⟩ := ihvalue (List.forall_mem_singleton.mpr hgood)
      (fun e he => hreport e (List.mem_append_left _ he)) hp
    have hm : Q m := hms m List.mem_cons_self
    obtain ⟨hks, hend⟩ := ihrest (fun k hk => hns k (List.mem_cons_of_mem _ hk))
      (fun e he => hreport e (List.mem_append_right _ (List.mem_cons_of_mem _ he)))
      (hfill hm hafter)
    rw [Progress.after_append, Progress.after_cons]
    exact ⟨List.forall_mem_cons.mpr ⟨hm, hks⟩, hend⟩

end Scope

/-! ## Cells in normal form -/

namespace Memos

/-- **Every full cell holds a node in normal form.** -/
def IsNormal (m : Memos) : Prop := ∀ cell n, m.get? cell = some n → n.IsNormal

/-- There is nothing in a store without cells. -/
theorem isNormal_empty : empty.IsNormal := by
  intro cell n hn
  cases cell with
  | none => cases hn
  | some c => simp [get?, empty] at hn

/-- A cell more may start with what another one holds. -/
theorem IsNormal.grow {m : Memos} (h : m.IsNormal) (cell : Option ℕ) :
    (m.grow (m.get? cell)).IsNormal := by
  intro cell' n hn
  cases cell' with
  | none => cases hn
  | some d =>
    by_cases hd : d < m.next
    · rw [get?_grow_of_lt hd] at hn
      exact h (some d) n hn
    · have hlt : d < (m.grow (m.get? cell)).next := lt_next_of_get? hn
      obtain rfl : d = m.next := by
        rw [next_grow] at hlt
        omega
      rw [get?_grow_next] at hn
      exact h cell n hn

end Memos

/-- **Nodes are evaluated to normal forms**, and leave normal forms in the cells,
where the cells hold nothing else. -/
theorem Scope.Evaluates.isNormal {scope : Scope} {entered : List RuleId} {p : Progress}
    {ns ms : List Node} {es : List LookUp} (h : scope.Evaluates entered p ns ms es)
    (hp : p.memos.IsNormal) : (∀ m ∈ ms, m.IsNormal) ∧ (p.after es).memos.IsNormal := by
  obtain ⟨hms, hcells⟩ := h.forall_value (P := fun _ => True) (Q := Node.IsNormal)
    (fun _ _ _ _ => trivial) (fun _ _ _ _ _ _ => trivial)
    (fun n ms _ hn hlength hms => Node.isNormal_rebuild hn hlength hms) (fun _ _ => trivial)
    (fun _ _ _ => Node.isNormal_undefined)
    fun v _ n hn => hp v.cell n hn
  exact ⟨hms, fun cell n hn => hcells ⟨"", ⟨none, 0⟩, none, cell⟩ trivial n hn⟩

/-! ### Placing copies cells -/

section Placing

variable {K : Memos → Prop} (hK : ∀ m cell, K m → K (m.grow (m.get? cell))) {m : Memos}
include hK

/-- Placing references adds cells that start with what others hold. -/
theorem Variable.keeps_mapM_place (owner : Option Owner) (vs : List Variable) (hm : K m) :
    K ((vs.mapM (place owner)).run m).2 := by
  induction vs generalizing m with
  | nil => exact hm
  | cons v vs ih =>
    rw [run_mapM_cons]
    exact ih (hK m v.cell hm)

/-- So does placing a node. -/
theorem Node.keeps_place (owner : Option Owner) (n : Node) (hm : K m) :
    K ((n.place owner).run m).2 := by
  rw [(run_of_map_eq (n.references_place owner) m).2]
  exact Variable.keeps_mapM_place hK owner _ hm

/-- So does placing a value. -/
theorem Value.keeps_place (owner : Option Owner) (v : Value) (hm : K m) :
    K ((v.place owner).run m).2 := by
  rw [(run_of_map_eq (v.references_place owner) m).2]
  exact Variable.keeps_mapM_place hK owner _ hm

/-- So does placing the selectors of a ruleset. -/
theorem Selector.keeps_placeFrom (id : RulesetId) (k : ℕ) (ss : List Selector) (hm : K m) :
    K ((placeFrom id k ss).run m).2 := by
  induction ss generalizing k m with
  | nil => exact hm
  | cons s ss ih =>
    rw [placeFrom, List.zipIdx_cons, run_mapM_cons]
    refine ih (k + 1) ?_
    rw [(run_of_map_eq (s.references_place (.selector ⟨id, k⟩)) m).2]
    exact Variable.keeps_mapM_place hK _ _ hm

end Placing

/-! ## Stylesheets in use -/

namespace Stylesheet

/-- **A stylesheet in use**: it was built with its own handles, and whatever is in
the cells was put there by evaluation. Nodes outside of the stylesheet may be
given cells and be evaluated as well, and a node may be evaluated in the scope of
another stylesheet. -/
inductive InUse : Stylesheet → Memos → Prop
  | empty : InUse {} .empty
  | addRuleset {sheet : Stylesheet} {m : Memos} (h : InUse sheet m) (selectors : List Selector)
      (parent : Option RulesetId) (hp : ∀ p ∈ parent, p.index < sheet.rulesets.length) :
      InUse ((sheet.addRuleset selectors parent).run m).1.2
        ((sheet.addRuleset selectors parent).run m).2
  | addRule {sheet : Stylesheet} {m : Memos} (h : InUse sheet m) (r : Rule)
      (parent : Option RulesetId) (hp : ∀ p ∈ parent, p.index < sheet.rulesets.length) :
      InUse ((sheet.addRule r parent).run m).1.2 ((sheet.addRule r parent).run m).2
  | place {sheet : Stylesheet} {m : Memos} (h : InUse sheet m) (owner : Option Owner) (n : Node) :
      InUse sheet ((n.place owner).run m).2
  | evaluate {sheet : Stylesheet} {p q : Progress} (h : InUse sheet p.memos) {scope : Scope}
      {n m : Node} (hrun : (n.evaluate scope).run p = .ok (m, q)) : InUse sheet q.memos

/-- A stylesheet in use was built with its own handles. -/
theorem InUse.built {sheet : Stylesheet} {m : Memos} (h : InUse sheet m) : Built sheet m := by
  induction h with
  | empty => exact .empty _
  | addRuleset _ selectors parent hp ih => exact ih.addRuleset selectors parent hp
  | addRule _ r parent hp ih => exact ih.addRule r parent hp
  | @place sheet m _ owner n ih =>
    have hgrow : ∀ m' cell, m ≤ m' → m ≤ m'.grow (m'.get? cell) :=
      fun m' cell hle => hle.trans (Memos.le_grow m' _)
    exact ih.grow (n.keeps_place hgrow owner (le_refl m))
  | evaluate _ hrun ih => exact ih.grow (Scope.le_of_run .nil hrun).1

/-- **The cells of a stylesheet in use hold normal forms.** -/
theorem InUse.isNormal {sheet : Stylesheet} {m : Memos} (h : InUse sheet m) : m.IsNormal := by
  have hplace : ∀ (m : Memos) (cell : Option ℕ), m.IsNormal → (m.grow (m.get? cell)).IsNormal :=
    fun _ cell hm => hm.grow cell
  induction h with
  | empty => exact Memos.isNormal_empty
  | addRuleset _ selectors _ _ ih =>
    rw [run_addRuleset]
    exact Selector.keeps_placeFrom hplace _ 0 selectors ih
  | addRule _ r _ _ ih =>
    rw [run_addRule]
    exact r.value.keeps_place hplace _ ih
  | place _ owner n ih => exact n.keeps_place hplace owner ih
  | evaluate _ hrun ih =>
    obtain ⟨es, hes, rfl⟩ := (Scope.run_eq_ok_iff .nil).mp hrun
    exact (hes.isNormal ih).2

/-- Nothing was evaluated yet in the stylesheet with a circle. -/
theorem inUse_circle : circle.InUse circleAndCells.2 := by
  have hfirst := InUse.empty.addRule (declaring "@a" true (.variable (refer "@b"))) none (by simp)
  have hlake := hfirst.addRuleset [lakes] none (by simp)
  have hsecond := hlake.addRule (declaring "@b" true (.variable (refer "@a"))) (some ⟨0⟩)
    (by rintro p ⟨⟩; decide)
  have hproperty := hsecond.addRule (declaring "line-cap" false (.variable (refer "@c")))
    (some ⟨0⟩) (by rintro p ⟨⟩; decide)
  exact hproperty.addRule (declaring "@c" true (.keyword "wide")) none (by simp)

end Stylesheet

/-! ## Evaluated once and for all -/

namespace Scope

/-- **Evaluation returns normal forms, and leaves them alone.** Let a stylesheet be
built with its own handles and its cells be filled by evaluation only. Whatever
is in scope, and whichever declarations are being evaluated already, a node is
evaluated, if the owners of its references are none or known to the stylesheet,
and the outcome contains no reference, no expression of one element and no value
of one component. Evaluated again, in any scope, the outcome stays as it is, and
so do the cells and the log. A rule that was evaluated already evaluates to
itself. -/
theorem evaluation_is_normal (scope : Scope) {p : Progress} (h : scope.sheet.InUse p.memos) :
    (∀ (entered : List RuleId) (n : Node), scope.Nested entered →
      (∀ v ∈ n.references, scope.sheet.Knows v.owner) →
      ∃ m q, (n.evaluateWith (scope.resolve entered)).run p = .ok (m, q) ∧
        (∀ k, m.Contains k →
          (∀ v, k ≠ .variable v) ∧ (∀ e, k ≠ .expression [e]) ∧ ∀ c, k ≠ .value [c]) ∧
        ∀ (scope' : Scope) (entered' : List RuleId) (o : Progress),
          (m.evaluateWith (scope'.resolve entered')).run o = .ok (m, o)) ∧
    (∀ r : Rule, (∀ v ∈ r.value.references, scope.sheet.Knows v.owner) →
      ∃ r' q, (r.evaluate scope).run p = .ok (r', q) ∧
        ∀ (scope' : Scope) (o : Progress), (r'.evaluate scope').run o = .ok (r', o)) := by
  have hnode : ∀ (entered : List RuleId) (n : Node), scope.Nested entered →
      (∀ v ∈ n.references, scope.sheet.Knows v.owner) →
      ∃ m q, (n.evaluateWith (scope.resolve entered)).run p = .ok (m, q) ∧ m.IsNormal := by
    intro entered n hnested hn
    obtain ⟨m, q, hrun, -⟩ :=
      (scope.knowing h.built.linked).ends_evaluateWith hnested hn (p := p) trivial
    obtain ⟨es, hes, -⟩ := (run_eq_ok_iff hnested).mp hrun
    exact ⟨m, q, hrun, (hes.isNormal h.isNormal).1 m List.mem_cons_self⟩
  refine ⟨fun entered n hnested hn => ?_, fun r hr => ?_⟩
  · obtain ⟨m, q, hrun, hm⟩ := hnode entered n hnested hn
    refine ⟨m, q, hrun, fun k hk => ⟨?_, ?_, ?_⟩, fun scope' entered' o => ?_⟩
    · rintro v rfl
      exact (hm _ hk).1 trivial
    · rintro e rfl
      exact (hm _ hk).2 trivial
    · rintro c rfl
      exact (hm _ hk).2 trivial
    · rw [Node.evaluateWith_of_isNormal _ hm]
      rfl
  · obtain ⟨m, q, hrun, hm⟩ := hnode [] r.value.node .nil hr
    refine ⟨{ r with value := .ofNode m }, q, ?_, fun scope' o => ?_⟩
    · rw [Rule.evaluate_eq]
      exact Evaluation.run_map_of_eq_ok hrun
    · rw [Rule.evaluate_eq, Node.evaluate, Node.evaluateWith_ofNode _ hm]
      rfl

/-- `@a`, which is on a circle, and an expression outside of the stylesheet whose
only element is `@c` evaluate to themselves once they were evaluated. -/
theorem circle_stays_evaluated :
    ∃ r, Stylesheet.circle.rules[0]? = some r ∧
      (∃ r' q, (r.evaluate ⟨.circle, [⟨0⟩, ⟨1⟩]⟩).run ⟨Stylesheet.circleAndCells.2, {}⟩
          = .ok (r', q) ∧ (r'.evaluate ⟨.circle, []⟩).run q = .ok (r', q)) ∧
      ∃ m q, ((Node.expression [.variable (Stylesheet.refer "@c")]).evaluate
          ⟨.circle, [⟨3⟩]⟩).run ⟨Stylesheet.circleAndCells.2, {}⟩ = .ok (m, q) ∧
        (m.evaluate ⟨.circle, []⟩).run q = .ok (m, q) := by
  obtain ⟨r, hr⟩ : ∃ r, Stylesheet.circle.rules[0]? = some r := ⟨_, rfl⟩
  have hinUse := Stylesheet.inUse_circle
  refine ⟨r, hr, ?_, ?_⟩
  · have hknows : ∀ v ∈ r.value.references, Stylesheet.circle.Knows v.owner := fun v hv =>
      hinUse.built.linked.knows_owner
        (Stylesheet.mem_references_of_rule (List.mem_of_getElem? hr) hv)
    obtain ⟨r', q, hrun, hagain⟩ :=
      (evaluation_is_normal ⟨.circle, [⟨0⟩, ⟨1⟩]⟩ (p := ⟨_, {}⟩) hinUse).2 r hknows
    exact ⟨r', q, hrun, hagain ⟨.circle, []⟩ q⟩
  · obtain ⟨m, q, hrun, -, hagain⟩ :=
      (evaluation_is_normal ⟨.circle, [⟨3⟩]⟩ (p := ⟨_, {}⟩) hinUse).1 []
        (.expression [.variable (Stylesheet.refer "@c")]) .nil fun v hv => by
          rw [List.mem_singleton.mp (show v ∈ [Stylesheet.refer "@c"] from hv)]
          trivial
    exact ⟨m, q, hrun, hagain ⟨.circle, []⟩ [] q⟩

end Scope

end MapStyle
