import MapStyle.Proofs.Requests

/-!
# Evaluation ends

In a built stylesheet every evaluation comes to an end, and follows no handle
that is stale: under any declarations in scope, repeated or stale ones among
them, whatever the cells hold, and however the declarations refer to each
other. All that is needed is that the owners of the references that are met are
known (`Scope.knowing`), which is so in every value that is entered.

How deep evaluations are nested is bounded by the declarations of variables in
scope, each counted once.
-/

namespace MapStyle

namespace Scope

/-- **The owners of the references that are met are known.** -/
def knowing (scope : Scope) (h : scope.sheet.Linked) : scope.Invariant where
  Meets _ v := scope.sheet.Knows v.owner
  Keeps _ := True
  Finds _ _ _ := True
  grows _ _ := trivial
  binds hv := exists_binding? h hv
  enters _ _ _ hr _ hw :=
    h.knows_owner (Stylesheet.mem_references_of_rule (List.mem_of_getElem? hr) hw)
  recalls _ _ _ := trivial
  misses _ _ _ := ⟨trivial, trivial⟩
  circles _ _ _ _ := ⟨trivial, trivial⟩
  leaves _ _ _ _ _ _ := trivial
  remembers _ _ _ := trivial

/-- The node of every request is evaluated. -/
theorem exists_run_node {scope : Scope} (h : scope.sheet.Linked) (request : Request)
    (hrequest : request.IsOf scope.sheet) (p : Progress) :
    ∃ m q, (request.node.evaluate scope).run p = .ok (m, q) := by
  have hadmits : (scope.knowing h).Admits (request.task p) :=
    Request.admits_task hrequest (fun v hv => h.knows_owner hv) trivial
  obtain ⟨m, q, hrun, -⟩ := hadmits.ends
  exact ⟨m, q, hrun⟩

/-- **Every request is answered.** -/
theorem exists_answer {scope : Scope} (h : scope.sheet.Linked) (request : Request)
    (hrequest : request.IsOf scope.sheet) (p : Progress) :
    ∃ a q, (request.answer scope).run p = .ok (a, q) := by
  obtain ⟨m, q, hrun⟩ := exists_run_node h request hrequest p
  exact ⟨_, _, request.run_answer hrun⟩

/-- **Evaluation ends and meets no stale handle**, in a stylesheet built with its
own handles, whatever is in scope and whatever the cells hold: every rule is
evaluated, every filter of a selector is evaluated and written, and from every
ruleset the nearest selector is found. Inside of these no evaluation has more
declarations entered than there are declarations of variables in scope, each
counted once; they are nested to a finite depth, and each of them comes to an
end. Where at most that many declarations may be entered, or any greater number,
references are looked up alike. -/
theorem evaluation_ends (scope : Scope) {memos : Memos} (h : scope.sheet.Built memos)
    (p : Progress) :
    (∀ r ∈ scope.sheet.rules, ∃ r' q, (r.evaluate scope).run p = .ok (r', q)) ∧
    (∀ f ∈ scope.sheet.filters, ∃ f' q, (f.evaluate scope).run p = .ok (f', q)) ∧
    (∀ f ∈ scope.sheet.filters, ∀ keywords, ∃ text q,
      (f.write keywords scope).run p = .ok (text, q)) ∧
    (∀ id : RulesetId, id.index < scope.sheet.rulesets.length →
      ∃ found, scope.sheet.nearestSelector id = .ok found) ∧
    (∀ request : Request, request.IsOf scope.sheet →
      ∀ t, scope.Includes (request.task p) t →
        t.entered.length ≤ scope.declarations.length ∧
        Acc (fun u t => scope.Spawns t u) t ∧ ∃ m q, scope.perform t = .ok (m, q)) ∧
    (∀ depth, scope.declarations.length ≤ depth →
      scope.resolveWithin depth [] = scope.resolve []) := by
  have hlinked := h.linked
  refine ⟨fun r hr => ?_, fun f hf => ?_, fun f hf keywords => ?_,
    fun id hid => hlinked.exists_nearestSelector hid, fun request hrequest t ht => ?_,
    fun depth hdepth => resolveWithin_congr Nested.nil hdepth (Nat.le_refl _)⟩
  · obtain ⟨a, q, hrun⟩ := exists_answer hlinked (.rule r) hr p
    obtain ⟨r', hr', -⟩ := Evaluation.exists_of_run_map_eq_ok hrun
    exact ⟨r', q, hr'⟩
  · obtain ⟨a, q, hrun⟩ := exists_answer hlinked (.filter f) hf p
    obtain ⟨f', hf', -⟩ := Evaluation.exists_of_run_map_eq_ok hrun
    exact ⟨f', q, hf'⟩
  · obtain ⟨a, q, hrun⟩ := exists_answer hlinked (.writing keywords f) hf p
    obtain ⟨text, htext, -⟩ := Evaluation.exists_of_run_map_eq_ok hrun
    exact ⟨text, q, htext⟩
  · have hadmits : (scope.knowing hlinked).Admits (request.task p) :=
      Request.admits_task hrequest (fun v hv => hlinked.knows_owner hv) trivial
    have htask := hadmits.included ht
    obtain ⟨m, q, hrun, -⟩ := htask.ends
    exact ⟨htask.nested.length_le, acc_spawns htask.nested t.node t.start, m, q, hrun⟩

/-- With a declaration in scope twice, a property and a handle that points
nowhere. -/
theorem circle_evaluation_ends :
    ∃ r ∈ Stylesheet.circle.rules, ∃ f ∈ Stylesheet.circle.filters,
      (∃ r' q, (r.evaluate ⟨.circle, [⟨0⟩, ⟨0⟩, ⟨2⟩, ⟨7⟩, ⟨1⟩]⟩).run
        ⟨Stylesheet.circleAndCells.2, {}⟩ = .ok (r', q)) ∧
      ∃ text q, (f.write none ⟨.circle, [⟨0⟩, ⟨0⟩, ⟨2⟩, ⟨7⟩, ⟨1⟩]⟩).run
        ⟨Stylesheet.circleAndCells.2, {}⟩ = .ok (text, q) := by
  have hends := evaluation_ends ⟨.circle, [⟨0⟩, ⟨0⟩, ⟨2⟩, ⟨7⟩, ⟨1⟩]⟩
    Stylesheet.built_circle ⟨Stylesheet.circleAndCells.2, {}⟩
  refine ⟨_, List.mem_of_getElem? (i := 0) rfl, _, List.mem_of_getElem? (i := 0) rfl, ?_, ?_⟩
  · exact hends.1 _ (List.mem_of_getElem? (i := 0) rfl)
  · exact hends.2.2.1 _ (List.mem_of_getElem? (i := 0) rfl) none

end Scope

end MapStyle
