import MapStyle.Proofs.Cycles
import MapStyle.Proofs.Requests

/-!
# Evaluation is substitution

What a reference stands for can be said without cells and without a log: the
value of the declaration its name is bound to, with the references in it
replaced by what they stand for in turn, or `Node.undefined` where the name is
bound to nothing (`Scope.StandsFor`). From a reference that reaches no cycle this
comes to an end, and there is one such node only.

Evaluation gives that node (`Scope.evaluation_eq_substitution`), whatever was
evaluated before: a cell may be filled in the middle of another evaluation, or
on behalf of a declaration on a cycle, but the cell of a reference that reaches
no cycle always holds what the reference stands for (`Scope.substituting`).
-/

namespace MapStyle

namespace Scope

/-! ## What references stand for -/

/-- **What a reference stands for**, cells and log aside. -/
inductive StandsFor (scope : Scope) : Variable → Node → Prop
  /-- A name that is bound to nothing. -/
  | undefined {v : Variable} (h : ∀ id, ¬scope.Binds v.name id) : StandsFor scope v .undefined
  /-- A name that is bound to a declaration. -/
  | value {v : Variable} {id : RuleId} {r : Rule} {f : Variable → Node}
      (h : scope.Binds v.name id) (hr : scope.sheet.rules[id.index]? = some r)
      (hf : ∀ w ∈ r.value.references, StandsFor scope w (f w)) :
      StandsFor scope v (r.value.node.substitute f)

/-- **A reference stands for one node at most.** -/
theorem StandsFor.unique {scope : Scope} {v : Variable} {m m' : Node} (h : scope.StandsFor v m)
    (h' : scope.StandsFor v m') : m = m' := by
  induction h generalizing m' with
  | undefined h =>
    cases h' with
    | undefined => rfl
    | value hid => exact absurd hid (h _)
  | value hid hr _ ih =>
    cases h' with
    | undefined h => exact absurd hid (h _)
    | value hid' hr' hg =>
      obtain rfl := hid.unique hid'
      rw [hr] at hr'
      obtain rfl := Option.some.inj hr'
      exact Node.substitute_congr (fun w hw => ih w hw (hg w hw))

/-- **What a node expands to**: the node with each reference replaced by what it
stands for. -/
def Expands (scope : Scope) (n m : Node) : Prop :=
  ∃ f, (∀ v ∈ n.references, scope.StandsFor v (f v)) ∧ m = n.substitute f

/-- **A node expands to one node at most.** -/
theorem Expands.unique {scope : Scope} {n m m' : Node} (h : scope.Expands n m)
    (h' : scope.Expands n m') : m = m' := by
  obtain ⟨f, hf, rfl⟩ := h
  obtain ⟨g, hg, rfl⟩ := h'
  exact Node.substitute_congr (fun v hv => (hf v hv).unique (hg v hv))

/-- A node whose references were replaced one by one, each by what it stands for,
was expanded. -/
theorem expands_of_replaced {scope : Scope} {n m : Node} (h : n.Replaced scope.StandsFor m) :
    scope.Expands n m := by
  classical
  have hex : ∀ v ∈ n.references, ∃ k, scope.StandsFor v k := fun v hv => h.exists_of_mem hv
  -- one node for all occurrences of a reference, which stand for the same
  let f : Variable → Node := fun v =>
    if hv : ∃ k, scope.StandsFor v k then hv.choose else .undefined
  have hf : ∀ v ∈ n.references, scope.StandsFor v (f v) := by
    intro v hv
    show scope.StandsFor v (dite _ _ _)
    rw [dif_pos (hex v hv)]
    exact (hex v hv).choose_spec
  have hreplaced : n.Replaced (fun v k => f v = k) m :=
    h.imp (fun v hv k hk => (hf v hv).unique hk)
  exact ⟨f, hf, hreplaced.eq_substitute.symm⟩

/-- A reference that is bound to a declaration stands for what the declaration's
value expands to. -/
theorem StandsFor.of_expands {scope : Scope} {v : Variable} {id : RuleId} {r : Rule}
    (h : scope.Binds v.name id) (hr : scope.sheet.rules[id.index]? = some r) {m : Node}
    (hm : scope.Expands r.value.node m) : scope.StandsFor v m := by
  obtain ⟨f, hf, rfl⟩ := hm
  exact .value h hr hf

/-! ## What cells hold -/

/-- A reference that reaches no cycle stands for the value of its declaration, with
the references replaced by what those of them that reach no cycle stand for. -/
theorem standsFor_of_replaced {scope : Scope} {v : Variable} {id : RuleId} {r : Rule} {n : Node}
    (hid : scope.Binds v.name id) (hr : scope.sheet.rules[id.index]? = some r)
    (hn : r.value.node.Replaced (fun w k => ¬scope.Cyclic w → scope.StandsFor w k) n)
    (hacyclic : ¬scope.Cyclic v) : scope.StandsFor v n := by
  have hinner : ∀ w ∈ r.value.references, ¬scope.Cyclic w :=
    fun w hw hcyclic => hacyclic ((cyclic_iff hid hr).mpr ⟨w, hw, hcyclic⟩)
  exact .of_expands hid hr (expands_of_replaced (hn.imp fun w hw k hk => hk (hinner w hw)))

/-- **The cell of a reference that reaches no cycle holds what the reference
stands for.** -/
def substituting (scope : Scope) (hlinked : scope.sheet.Linked) {high : ℕ}
    (hhoused : Housed 0 high scope.sheet.references) : scope.Invariant where
  Meets entered v := v ∈ scope.sheet.references ∧ scope.Trails entered v
  Keeps p := scope.sheet.Holds (fun v n => ¬scope.Cyclic v → scope.StandsFor v n) p.memos
  Finds _ v n := ¬scope.Cyclic v → scope.StandsFor v n
  grows _ hn := hn
  binds hv := exists_binding? hlinked (hlinked.knows_owner hv.1)
  enters hv hid _ hr _ hw :=
    ⟨Stylesheet.mem_references_of_rule (List.mem_of_getElem? hr) hw, hv.2.cons hid hr hw⟩
  recalls hv hp hn := hp _ hv.1 _ hn
  misses _ hp hnone := ⟨hp, fun _ => .undefined hnone⟩
  -- what stands for a reference on a cycle does not matter
  circles hv hp hid hin := ⟨hp, fun hacyclic => absurd (hv.2.cyclic hid hin) hacyclic⟩
  leaves _ _ hid _ hr hn := standsFor_of_replaced hid hr hn
  remembers hv hp hn := hp.fill hhoused hv.1 hn

/-- What is found for a node that reaches no cycle is what it expands to. -/
theorem expands_iff_of_replaced {scope : Scope} {n m : Node}
    (h : n.Replaced (fun v k => ¬scope.Cyclic v → scope.StandsFor v k) m)
    (hacyclic : ¬scope.ReachesCycle n) (m' : Node) : scope.Expands n m' ↔ m' = m := by
  have hm : scope.Expands n m :=
    expands_of_replaced (h.imp fun v hv k hk => hk (fun hcyclic => hacyclic ⟨v, hv, hcyclic⟩))
  constructor
  · exact fun hm' => hm'.unique hm
  · rintro rfl
    exact hm

/-! ## Requests in a row -/

/-- The invariant speaks of all that is evaluated for a request. -/
theorem admits_substituting {scope : Scope} {hlinked : scope.sheet.Linked} {high : ℕ}
    {hhoused : Housed 0 high scope.sheet.references} {request : Request}
    (h : request.IsOf scope.sheet) {p : Progress}
    (hp : (scope.substituting hlinked hhoused).Keeps p) :
    (scope.substituting hlinked hhoused).Admits (request.task p) := by
  refine Request.admits_task h (fun v hv => ?_) hp
  exact ⟨hv, Trails.nil⟩

/-- **Any number of requests are answered** as their nodes expand, and the cells
still hold what their references stand for. -/
theorem exists_answers {scope : Scope} (hlinked : scope.sheet.Linked) {high : ℕ}
    (hhoused : Housed 0 high scope.sheet.references) {requests : List Request}
    (h : ∀ request ∈ requests, request.IsOf scope.sheet) {p : Progress}
    (hp : (scope.substituting hlinked hhoused).Keeps p) :
    ∃ answers q, (requests.mapM (Request.answer scope)).run p = .ok (answers, q) ∧
      (scope.substituting hlinked hhoused).Keeps q ∧
      List.Forall₂ (fun request a => ¬scope.ReachesCycle request.node →
        ∃ m, a = request.outcome m ∧ ∀ m', scope.Expands request.node m' ↔ m' = m)
        requests answers := by
  induction requests generalizing p with
  | nil => exact ⟨[], p, rfl, hp, .nil⟩
  | cons request requests ih =>
    obtain ⟨m, q, hrun, -, hq, hm⟩ := (admits_substituting (h request List.mem_cons_self) hp).ends
    have hnode : (request.node.evaluate scope).run p = .ok (m, q) := hrun
    -- what is reported about the answer leaves the cells as they are
    have hreported : (scope.substituting hlinked hhoused).Keeps
        { q with log := q.log.reportAll (request.findings m) } := hq
    obtain ⟨answers, o, hruns, ho, hanswers⟩ :=
      ih (fun k hk => h k (List.mem_cons_of_mem _ hk)) hreported
    refine ⟨request.outcome m :: answers, o, ?_, ho, .cons (fun hacyclic => ?_) hanswers⟩
    · rw [List.mapM_cons, Evaluation.run_bind_of_eq_ok (request.run_answer hnode),
        Evaluation.run_bind_of_eq_ok hruns]
      rfl
    · exact ⟨m, rfl, expands_iff_of_replaced hm hacyclic⟩

/-- **Evaluation is substitution.** Of a stylesheet built with its own handles,
with all cells empty, any number of rules and filters are evaluated or written,
in any order. Every answer about a node that reaches no cycle is what the node
expands to; and so is, in the course of any further request, every evaluation of
a node that reaches no cycle, whatever was evaluated before. -/
theorem evaluation_eq_substitution (scope : Scope) {memos : Memos}
    (hbuilt : scope.sheet.Built memos)
    (hempty : ∀ v ∈ scope.sheet.references, memos.get? v.cell = none) (log : Log)
    (requests : List Request) (hrequests : ∀ request ∈ requests, request.IsOf scope.sheet) :
    ∃ answers p, (requests.mapM (Request.answer scope)).run ⟨memos, log⟩ = .ok (answers, p) ∧
      List.Forall₂ (fun request a => ¬scope.ReachesCycle request.node →
        ∃ m, a = request.outcome m ∧ ∀ m', scope.Expands request.node m' ↔ m' = m)
        requests answers ∧
      ∀ request : Request, request.IsOf scope.sheet →
        ∀ t, scope.Includes (request.task p) t → ¬scope.ReachesCycle t.node →
          ∃ m q, scope.perform t = .ok (m, q) ∧ ∀ m', scope.Expands t.node m' ↔ m' = m := by
  have hstart : (scope.substituting hbuilt.linked hbuilt.housed).Keeps ⟨memos, log⟩ :=
    Stylesheet.holds_of_empty hempty
  obtain ⟨answers, p, hruns, hp, hanswers⟩ :=
    exists_answers hbuilt.linked hbuilt.housed hrequests hstart
  refine ⟨answers, p, hruns, hanswers, fun request hrequest t ht hacyclic => ?_⟩
  obtain ⟨m, q, hrun, -, -, hm⟩ := ((admits_substituting hrequest hp).included ht).ends
  exact ⟨m, q, hrun, expands_iff_of_replaced hm hacyclic⟩

/-- After `@a`, which is on a circle, `line-cap: @c` is evaluated under `@c: wide`. -/
theorem circle_expands :
    ∃ (r property : Rule) (answers : List Answer) (p : Progress),
      Stylesheet.circle.rules[0]? = some r ∧ Stylesheet.circle.rules[2]? = some property ∧
      ([Request.rule r, .rule property].mapM (Request.answer ⟨.circle, [⟨0⟩, ⟨1⟩, ⟨3⟩]⟩)).run
        ⟨Stylesheet.circleAndCells.2, {}⟩ = .ok (answers, p) ∧
      answers[1]? = some (.rule { property with value := ⟨[.keyword "wide"]⟩ }) := by
  let scope : Scope := ⟨.circle, [⟨0⟩, ⟨1⟩, ⟨3⟩]⟩
  obtain ⟨r, hr⟩ : ∃ r, Stylesheet.circle.rules[0]? = some r := ⟨_, rfl⟩
  obtain ⟨property, hproperty⟩ : ∃ r, Stylesheet.circle.rules[2]? = some r := ⟨_, rfl⟩
  have hc : scope.Binds "@c" ⟨3⟩ := ⟨_, _, rfl, ⟨[], [], rfl, by simp, by simp⟩, rfl⟩
  have hname : ∀ v ∈ property.value.references, v.name = "@c" := by
    obtain rfl := Option.some.inj hproperty
    decide
  have hacyclic : ¬scope.ReachesCycle property.value.node := by
    rintro ⟨v, hv, hcyclic⟩
    obtain ⟨w, hw, -⟩ := (cyclic_iff (hname v hv ▸ hc) rfl).mp hcyclic
    exact absurd hw List.not_mem_nil
  have hexpands : scope.Expands property.value.node (.keyword "wide") := by
    refine ⟨fun _ => .keyword "wide", fun v hv => ?_, ?_⟩
    · exact StandsFor.of_expands (hname v hv ▸ hc) rfl
        ⟨fun _ => .undefined, fun w hw => absurd hw List.not_mem_nil, rfl⟩
    · obtain rfl := Option.some.inj hproperty
      rfl
  obtain ⟨answers, p, hruns, hanswers, -⟩ := evaluation_eq_substitution scope
    Stylesheet.built_circle Stylesheet.get?_circle {} [.rule r, .rule property] (by
      intro request hrequest
      rcases List.mem_pair.mp hrequest with rfl | rfl
      · exact List.mem_of_getElem? hr
      · exact List.mem_of_getElem? hproperty)
  refine ⟨r, property, answers, p, hr, hproperty, hruns, ?_⟩
  cases hanswers with
  | cons _ hrest =>
    cases hrest with
    | cons hanswer _ =>
      obtain ⟨m, rfl, hm⟩ := hanswer hacyclic
      rw [← (hm _).mp hexpands]
      rfl

end Scope

end MapStyle
