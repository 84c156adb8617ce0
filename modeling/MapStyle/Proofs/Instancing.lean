import MapStyle.Proofs.Inlining
import MapStyle.Proofs.Keeping
import MapStyle.Proofs.Quiet

/-!
# Instances of a rule

A copy of a rule for another instance shares its value (`Rule.share`), cells
included. As long as it is not added to the stylesheet, what one of the two finds
out is known to the other: once one of them was evaluated, there is nothing left
to be looked up for either.

When the copy is added, its references are placed: each gets an owner and a cell
of its own, which starts with what was known by then (`Variable.Instanced`).
Nothing happens to the original. From then on the two go separate ways
(`Session.instance_is_separate`): what is looked up for one of them are its own
references and those of declarations in scope, so the cells of the other are filled
only if that is in scope itself.

All of this holds in whatever the session comes to (`Session.Later`), since adding,
placing and evaluating keep the rules that are there, and what full cells hold
(`Session.Extends`).
-/

namespace MapStyle

/-! ## Placing keeps what is known -/

/-- **A reference placed for another**: it is written like it, belongs to the owner,
and has a fresh cell that holds what the cell of the other held. -/
structure Variable.Instanced (owner : Owner) (m m' : Memos) (v w : Variable) : Prop where
  name_eq : w.name = v.name
  location_eq : w.location = v.location
  owner_eq : w.owner = some owner
  content_eq : m'.get? w.cell = m.get? v.cell
  fresh : ∃ c, w.cell = some c ∧ m.next ≤ c

/-- **The cells of one store are as they were** in another. -/
def Memos.Unchanged (m m' : Memos) : Prop :=
  m.next ≤ m'.next ∧ ∀ c < m.next, m'.get? (some c) = m.get? (some c)

namespace Memos.Unchanged

variable {m m' : Memos}

theorem refl (m : Memos) : m.Unchanged m := ⟨Nat.le_refl _, fun _ _ => rfl⟩

/-- A fresh cell leaves the others as they were. -/
theorem grow (h : m.Unchanged m') (content : Option Node) : m.Unchanged (m'.grow content) := by
  refine ⟨Nat.le_trans h.1 ((m'.next_grow content).symm ▸ Nat.le_succ _), fun c hc => ?_⟩
  rw [get?_grow_of_lt (Nat.lt_of_lt_of_le hc h.1), h.2 c hc]

/-- So the references in them remember the same. -/
theorem get?_eq (h : m.Unchanged m') {low : ℕ} {vs : List Variable} (hvs : Housed low m.next vs)
    {v : Variable} (hv : v ∈ vs) : m'.get? v.cell = m.get? v.cell := by
  obtain ⟨c, hc, -, hlt⟩ := hvs.range v hv
  rw [hc, h.2 c hlt]

end Memos.Unchanged

/-- **Placing references leaves the cells there are as they were.** -/
theorem Variable.unchanged_mapM_place (owner : Option Owner) (vs : List Variable) (m : Memos) :
    m.Unchanged ((vs.mapM (place owner)).run m).2 :=
  keeps_mapM_place (fun _ _ h => h.grow _) owner vs (.refl m)

/-- **Each placed reference knows what was known** of the one it was placed for. -/
theorem Variable.forall₂_instanced_mapM_place (owner : Owner) {vs : List Variable} {m : Memos}
    (hvs : ∀ v ∈ vs, ∃ c, v.cell = some c ∧ c < m.next) :
    List.Forall₂ (Instanced owner m ((vs.mapM (place (some owner))).run m).2) vs
      ((vs.mapM (place (some owner))).run m).1 := by
  -- the store goes through the list, and what the first reference knows is to be known at the end
  suffices h : ∀ o, m.Unchanged o → List.Forall₂
      (Instanced owner m ((vs.mapM (place (some owner))).run o).2) vs
      ((vs.mapM (place (some owner))).run o).1 from h m (.refl m)
  intro o ho
  induction vs generalizing o with
  | nil => exact .nil
  | cons v vs ih =>
    obtain ⟨⟨c, hc, hlt⟩, hvs⟩ := List.forall_mem_cons.mp hvs
    have hknown : o.get? v.cell = m.get? v.cell := by rw [hc, ho.2 c hlt]
    have hnext : o.next < (o.grow (o.get? v.cell)).next := by
      rw [Memos.next_grow]
      exact Nat.lt_succ_self _
    have hkept := (unchanged_mapM_place (some owner) vs (o.grow (o.get? v.cell))).2 o.next hnext
    rw [Memos.get?_grow_next] at hkept
    rw [run_mapM_cons]
    exact .cons ⟨rfl, rfl, rfl, hkept.trans hknown, o.next, rfl, ho.1⟩ (ih hvs _ (ho.grow _))

/-- **A placed value is a copy that knows what was known**, and the cells there are stay as
they were. -/
theorem Value.instanced_place (owner : Owner) {v : Value} {m : Memos}
    (hv : ∀ w ∈ v.references, ∃ c, w.cell = some c ∧ c < m.next) :
    m.Unchanged ((v.place (some owner)).run m).2 ∧
      v.node.Copies ((v.place (some owner)).run m).1.node ∧
      List.Forall₂ (Variable.Instanced owner m ((v.place (some owner)).run m).2) v.references
        ((v.place (some owner)).run m).1.references := by
  obtain ⟨hrefs, hm⟩ := run_of_map_eq (v.references_place (some owner)) m
  rw [hrefs, hm]
  exact ⟨Variable.unchanged_mapM_place _ _ m, v.node.copies_place (some owner) m,
    Variable.forall₂_instanced_mapM_place owner hv⟩

/-! ## Evaluating one rule and not another -/

namespace Scope

variable {scope : Scope} {p q : Progress} {i : ℕ} {r : Rule} {m : Node}

/-- **Evaluating a rule leaves the cells of another as they were**, unless that is in
scope. -/
theorem get?_of_run_of_notMem (h : scope.sheet.Assembled p.memos)
    (hr : scope.sheet.rules[i]? = some r)
    (hrun : (r.value.node.evaluate scope).run p = .ok (m, q)) {k : ℕ} {r' : Rule}
    (hr' : scope.sheet.rules[k]? = some r') (hik : i ≠ k) (hk : (⟨k⟩ : RuleId) ∉ scope.frames)
    {v : Variable} (hv : v ∈ r'.value.references) :
    q.memos.get? v.cell = p.memos.get? v.cell := by
  obtain ⟨es, hes, rfl⟩ := (run_eq_ok_iff .nil).mp hrun
  have hrules : ∀ (j : ℕ) (s : Rule), scope.sheet.rules[j]? = some s → j ≠ k →
      ∀ w ∈ s.value.references, w ∈ scope.sheet.references ∧ w.owner ≠ some (.rule ⟨k⟩) := by
    intro j s hs hjk w hw
    refine ⟨Stylesheet.mem_references_of_rule (List.mem_of_getElem? hs) hw, fun howner => hjk ?_⟩
    rw [h.owned.rule_owner j s hs w hw] at howner
    exact congrArg RuleId.index (Owner.rule.inj (Option.some.inj howner))
  -- what is entered is in scope, so it is another rule as well
  have hlooked := hes.forall_reference
    (fun w _ id s hid hs => hrules id.index s hs fun hindex => hk (hindex ▸ hid.declares.1))
    (List.forall_mem_singleton.mpr (hrules i r hr hik))
  refine Progress.get?_after_of_forall_ne fun e he hcell => (hlooked e he).2 ?_
  have hmem := Stylesheet.mem_references_of_rule (List.mem_of_getElem? hr') hv
  rw [h.housed.eq_of_cell_eq (hlooked e he).1 hmem hcell]
  exact h.owned.rule_owner k r' hr' v hv

/-- **Once a rule was evaluated, the cells of its references are full.** -/
theorem exists_get?_of_run (h : scope.sheet.Assembled p.memos) (hr : r ∈ scope.sheet.rules)
    (hrun : (r.value.node.evaluate scope).run p = .ok (m, q)) :
    ∀ v ∈ r.value.references, ∃ n, q.memos.get? v.cell = some n := by
  obtain ⟨es, hes, rfl⟩ := (run_eq_ok_iff .nil).mp hrun
  intro v hv
  obtain ⟨e, he, rfl⟩ := hes.exists_lookUp List.mem_cons_self hv
  obtain ⟨c, hc, -, hlt⟩ := h.housed.range _ (Stylesheet.mem_references_of_rule hr hv)
  exact Progress.exists_get?_after he hc hlt

end Scope

/-! ## What a session comes to -/

namespace Session

/-- **What stays of a session**: the rules with their handles, and what full cells
hold. What was built with its own handles still is. -/
structure Extends (s t : Session) : Prop where
  memos : s.memos ≤ t.memos
  rules : s.sheet.rules <+: t.sheet.rules
  built : s.sheet.Built s.memos → t.sheet.Built t.memos

namespace Extends

variable {s t u : Session}

theorem refl (s : Session) : s.Extends s := ⟨le_refl _, List.prefix_refl _, id⟩

theorem trans (hst : s.Extends t) (htu : t.Extends u) : s.Extends u :=
  ⟨hst.memos.trans htu.memos, hst.rules.trans htu.rules, htu.built ∘ hst.built⟩

/-- With the same stylesheet, only the cells have to grow. -/
theorem of_memos_le (hsheet : t.sheet = s.sheet) (h : s.memos ≤ t.memos) : s.Extends t :=
  ⟨h, hsheet ▸ List.prefix_refl _, fun hbuilt => hsheet ▸ hbuilt.grow h⟩

/-- A rule keeps its handle. -/
theorem rule_eq (h : s.Extends t) {i : ℕ} {r : Rule} (hr : s.sheet.rules[i]? = some r) :
    t.sheet.rules[i]? = some r := by
  obtain ⟨more, hmore⟩ := h.rules
  rw [← hmore, List.getElem?_append_left (List.getElem?_eq_some_iff.mp hr).1, hr]

end Extends

/-- **A step of a session that only adds to it.** -/
def Continues {α : Type} (x : Step α) : Prop :=
  ∀ s a t, x.run s = .ok (a, t) → s.Extends t

/-- One step after the other. -/
theorem Continues.bind {α β : Type} {x : Step α} {f : α → Step β} (hx : Continues x)
    (hf : ∀ a, Continues (f a)) : Continues (x >>= f) := by
  intro s b t hrun
  rw [StateT.run_bind, Fault.bind_eq_ok_iff] at hrun
  obtain ⟨⟨a, o⟩, ha, hb⟩ := hrun
  exact (hx s a o ha).trans (hf a o b t hb)

/-- A step that changes nothing. -/
theorem continues_of_eq {α : Type} {x : Step α} (h : ∀ s a t, x.run s = .ok (a, t) → s = t) :
    Continues x := fun s a t hrun => h s a t hrun ▸ .refl s

theorem continues_pure {α : Type} (a : α) : Continues (pure a) :=
  continues_of_eq fun _ _ _ hrun => (Prod.mk.inj (Except.ok.inj hrun)).2

theorem continues_get : Continues get :=
  continues_of_eq fun _ _ _ hrun => (Prod.mk.inj (Except.ok.inj hrun)).2

/-- A handle is followed. -/
theorem continues_lift {α : Type} (x : Except Fault α) : Continues (liftM x) := by
  refine continues_of_eq fun s a t hrun => ?_
  cases x with
  | error e => exact nomatch hrun
  | ok a' => exact (Prod.mk.inj (Except.ok.inj hrun)).2

theorem Continues.map {α β : Type} {x : Step α} (h : Continues x) (f : α → β) :
    Continues (f <$> x) := by
  rw [map_eq_pure_bind]
  exact h.bind fun _ => continues_pure _

/-- What is done to the pass alone. -/
theorem continues_onPass {α : Type} (f : Pass → α × Pass) : Continues (onPass f) := by
  intro s a t hrun
  obtain ⟨-, rfl⟩ := Prod.mk.inj (Except.ok.inj hrun)
  exact .of_memos_le rfl (le_refl _)

/-- What is evaluated. -/
theorem continues_evaluate {α : Type} {f : Scope → Evaluation α}
    (h : ∀ scope p a q, (f scope).run p = .ok (a, q) → p.memos ≤ q.memos) :
    Continues (evaluate f) := by
  intro s a t hrun
  obtain ⟨p, hp, rfl⟩ := run_evaluate_eq_ok_iff.mp hrun
  exact .of_memos_le rfl (h _ _ _ _ hp)

/-- A node is evaluated. -/
theorem continues_evaluateNode (n : Node) : Continues (evaluateNode n) :=
  continues_evaluate fun _ _ _ _ hrun => (Scope.le_of_run .nil hrun).1

/-- A rule is evaluated. -/
theorem continues_evaluateRule (r : Rule) : Continues (evaluateRule r) := by
  refine continues_evaluate fun scope p r' q hrun => ?_
  rw [Rule.evaluate_eq] at hrun
  obtain ⟨m, hm, -⟩ := Evaluation.exists_of_run_map_eq_ok hrun
  exact (Scope.le_of_run .nil hm).1

/-- A filter is evaluated. -/
theorem continues_evaluateFilter (f : Filter) : Continues (evaluateFilter f) :=
  continues_evaluate fun _ _ _ _ hrun =>
    (Scope.le_of_run .nil (Filter.run_evaluate_eq_ok_iff.mp hrun)).1

/-- A filter is written. -/
theorem continues_writeFilter (schema : Schema) (f : Filter) :
    Continues (writeFilter schema f) := by
  refine continues_evaluate fun scope p text q hrun => ?_
  obtain ⟨g, o, hg, hwritten⟩ := Evaluation.exists_of_run_bind_eq_ok hrun
  obtain ⟨-, rfl⟩ := Prod.mk.inj (Except.ok.inj hwritten)
  exact (Scope.le_of_run .nil (Filter.run_evaluate_eq_ok_iff.mp hg)).1

/-- **Every operation only adds to the session.** -/
theorem continues_perform (schema : Schema) (operation : Operation) :
    Continues (perform schema operation) := by
  cases operation with
  | pushFrame id => exact (continues_onPass _).map _
  | pushRuleset id =>
    exact (continues_get.bind fun _ => (continues_lift _).bind fun _ => continues_onPass _).map _
  | pushGlobals => exact (continues_get.bind fun _ => continues_onPass _).map _
  | pop => exact (continues_onPass _).map _
  | truncate size => exact continues_onPass fun pass => (Reply.done, pass.truncate size)
  | evaluateRule r => exact (continues_evaluateRule r).map _
  | evaluateFilter f => exact (continues_evaluateFilter f).map _
  | validate r => exact (continues_onPass _).map _
  | write form r => exact (continues_onPass _).map _
  | writeFilter f => exact (continues_writeFilter schema f).map _
  | report d => exact continues_onPass fun pass => (Reply.done, pass.report d)
  | registerFonts faces => exact (continues_onPass _).map _

/-- **What a session can become next**: something is added to its stylesheet under its own
handles, something is placed or evaluated, the pass goes on, or another one starts. -/
inductive Becomes : Session → Session → Prop
  | addRuleset {s t : Session} {id : RulesetId} (selectors : List Selector)
      (parent : Option RulesetId) (hp : ∀ p ∈ parent, p.index < s.sheet.rulesets.length)
      (hrun : (addRuleset selectors parent).run s = .ok (id, t)) : Becomes s t
  | addRule {s t : Session} {id : RuleId} (r : Rule) (parent : Option RulesetId)
      (hp : ∀ p ∈ parent, p.index < s.sheet.rulesets.length)
      (hrun : (addRule r parent).run s = .ok (id, t)) : Becomes s t
  | place {s t : Session} {m : Node} (owner : Option Owner) (n : Node)
      (hrun : (place (n.place owner)).run s = .ok (m, t)) : Becomes s t
  | evaluateNode {s t : Session} {m : Node} (n : Node)
      (hrun : (evaluateNode n).run s = .ok (m, t)) : Becomes s t
  | perform {s t : Session} {reply : Reply} (schema : Schema) (operation : Operation)
      (hrun : (perform schema operation).run s = .ok (reply, t)) : Becomes s t
  | restart {s t : Session} (settings : Settings)
      (hrun : (restart settings).run s = .ok ((), t)) : Becomes s t

/-- **What a session comes to**, sooner or later. -/
def Later : Session → Session → Prop := Relation.ReflTransGen Becomes

/-- **A step only adds to a session.** -/
theorem Becomes.extends {s t : Session} (h : s.Becomes t) : s.Extends t := by
  cases h with
  | addRuleset selectors parent hp hrun =>
    obtain ⟨-, rfl⟩ := Prod.mk.inj (Except.ok.inj hrun)
    have hplaced := (Selector.placed_placeFrom ⟨s.sheet.rulesets.length⟩ 0 selectors s.memos).1
    exact ⟨hplaced.grown, List.prefix_refl _, fun hbuilt => hbuilt.addRuleset selectors parent hp⟩
  | addRule r parent hp hrun =>
    obtain ⟨-, rfl⟩ := Prod.mk.inj (Except.ok.inj hrun)
    have hplaced := (r.value.placed_place (some (.rule ⟨s.sheet.rules.length⟩)) s.memos).1
    exact ⟨hplaced.grown, List.prefix_append _ _, fun hbuilt => hbuilt.addRule r parent hp⟩
  | place owner n hrun =>
    obtain ⟨-, rfl⟩ := Prod.mk.inj (Except.ok.inj hrun)
    exact .of_memos_le rfl
      (n.keeps_place (fun m _ h => h.trans (Memos.le_grow m _)) owner (le_refl s.memos))
  | evaluateNode n hrun => exact continues_evaluateNode n s _ t hrun
  | perform schema operation hrun => exact continues_perform schema operation s _ t hrun
  | restart settings hrun => exact continues_onPass _ s _ t hrun

/-- **So does whatever happens to it.** -/
theorem Later.extends {s t : Session} (h : s.Later t) : s.Extends t := by
  induction h with
  | refl => exact .refl s
  | tail _ hnext ih => exact ih.trans hnext.extends

/-! ## The rule and its copy -/

/-- The value of a rule of the stylesheet can be evaluated. -/
theorem exists_run_value {s : Session} (hbuilt : s.sheet.Built s.memos) {r : Rule}
    (hr : r ∈ s.sheet.rules) : ∃ m p,
      (r.value.node.evaluate ⟨s.sheet, s.pass.frames⟩).run ⟨s.memos, s.pass.log⟩ = .ok (m, p) := by
  let scope : Scope := ⟨s.sheet, s.pass.frames⟩
  have hlinked : scope.sheet.Linked := hbuilt.linked
  exact Scope.exists_run_node hlinked (.rule r) hr _

/-- **A rule of the stylesheet is evaluated**, and the cells of any other rule are as they
were, unless that is in scope. -/
theorem exists_run_evaluateRule {s : Session} (hbuilt : s.sheet.Built s.memos) {i : ℕ} {r : Rule}
    (hr : s.sheet.rules[i]? = some r) : ∃ r' t, (evaluateRule r).run s = .ok (r', t) ∧
      ∀ (k : ℕ) (r₂ : Rule), s.sheet.rules[k]? = some r₂ → i ≠ k → ⟨k⟩ ∉ s.pass.frames →
        ∀ v ∈ r₂.value.references, t.memos.get? v.cell = s.memos.get? v.cell := by
  let scope : Scope := ⟨s.sheet, s.pass.frames⟩
  have hassembled : scope.sheet.Assembled s.memos := hbuilt.assembled
  obtain ⟨m, p, hm⟩ := exists_run_value hbuilt (List.mem_of_getElem? hr)
  exact ⟨_, _, run_evaluateRule_eq_ok_iff.mpr ⟨m, p, hm, rfl, rfl⟩, fun _ _ hr₂ hik hk _ hv =>
    Scope.get?_of_run_of_notMem hassembled hr hm hr₂ hik hk hv⟩

/-- **A rule that shares the value of one of the stylesheet is evaluated.** The cells of the
value are full then, and whatever shares it evaluates without doing anything ever after. -/
theorem exists_run_evaluateRule_of_value_eq {s : Session} (hbuilt : s.sheet.Built s.memos)
    {r a : Rule} (hr : r ∈ s.sheet.rules) (ha : a.value = r.value) :
    ∃ a' t, (evaluateRule a).run s = .ok (a', t) ∧
      (∀ v ∈ r.value.references, ∃ n, t.memos.get? v.cell = some n) ∧
      ∀ u : Session, t.memos ≤ u.memos → ∀ b : Rule, b.value = r.value →
        ∃ b', (evaluateRule b).run u = .ok (b', u) := by
  let scope : Scope := ⟨s.sheet, s.pass.frames⟩
  have hassembled : scope.sheet.Assembled s.memos := hbuilt.assembled
  have hrequest : (Request.rule r).IsOf scope.sheet := hr
  obtain ⟨m, p, hm⟩ := exists_run_value hbuilt hr
  obtain ⟨m', hagain, -⟩ := Scope.exists_answer_again hassembled hrequest hm
  refine ⟨_, _, run_evaluateRule_eq_ok_iff.mpr ⟨m, p, ha ▸ hm, rfl, rfl⟩,
    Scope.exists_get?_of_run hassembled hr hm, fun u hu b hb => ?_⟩
  have hrun : (r.value.node.evaluate ⟨u.sheet, u.pass.frames⟩).run ⟨u.memos, u.pass.log⟩
      = .ok (m', ⟨u.memos, u.pass.log⟩) := hagain _ _ hu
  rw [← hb] at hrun
  exact ⟨_, run_evaluateRule_eq_ok_iff.mpr ⟨m', ⟨u.memos, u.pass.log⟩, hrun, rfl, rfl⟩⟩

/-- **To instance a rule does not touch it.** In a stylesheet built with its own handles, a copy of
a rule is added to a ruleset or at the top level, whatever the cells hold. The rule stays as it is,
and so does what its references remember. The rule that is added is a copy, of which each reference
belongs to the copy, has a fresh cell, and remembers what its counterpart does. From then on,
whatever the session comes to, both rules stay, and each can be evaluated; as long as neither is in
scope, no cell of the other's references is filled.

A copy that is not added shares the cells instead. Whatever the session comes to, the rule and its
copy can be evaluated; once one of them was, the references have full cells, and from then on
neither evaluation changes anything: no cell is filled and nothing is reported. -/
theorem instance_is_separate (s : Session) (hbuilt : s.sheet.Built s.memos) {i : ℕ} {r : Rule}
    (hr : s.sheet.rules[i]? = some r) (parent : Option RulesetId)
    (hparent : ∀ p ∈ parent, p.index < s.sheet.rulesets.length) :
    (∃ id s' copy, (addRule r.share parent).run s = .ok (id, s') ∧
      s'.sheet.rules[i]? = some r ∧ s'.sheet.rules[id.index]? = some copy ∧
      (∀ v ∈ r.value.references, s'.memos.get? v.cell = s.memos.get? v.cell) ∧
      { copy with value := r.value } = { r.share with parent } ∧
      r.value.node.Copies copy.value.node ∧
      List.Forall₂ (Variable.Instanced (.rule id) s.memos s'.memos) r.value.references
        copy.value.references ∧
      ∀ t, s'.Later t → t.sheet.rules[i]? = some r ∧ t.sheet.rules[id.index]? = some copy ∧
        (⟨i⟩ ∉ t.pass.frames → id ∉ t.pass.frames →
          (∃ r' t', (evaluateRule r).run t = .ok (r', t') ∧
            ∀ w ∈ copy.value.references, t'.memos.get? w.cell = t.memos.get? w.cell) ∧
          ∃ copy' t', (evaluateRule copy).run t = .ok (copy', t') ∧
            ∀ v ∈ r.value.references, t'.memos.get? v.cell = t.memos.get? v.cell)) ∧
    ∀ t, s.Later t → ∀ a ∈ [r, r.share], ∃ a' t', (evaluateRule a).run t = .ok (a', t') ∧
      (∀ v ∈ r.value.references, ∃ n, t'.memos.get? v.cell = some n) ∧
      ∀ u, t'.Later u → ∀ b ∈ [r, r.share], ∃ b', (evaluateRule b).run u = .ok (b', u) := by
  have hshares : ∀ a ∈ [r, r.share], a.value = r.value :=
    List.forall_mem_cons.mpr ⟨rfl, List.forall_mem_singleton.mpr rfl⟩
  refine ⟨?_, fun t ht a ha => ?_⟩
  · have hmem : ∀ v ∈ r.value.references, v ∈ s.sheet.references := fun v hv =>
      Stylesheet.mem_references_of_rule (List.mem_of_getElem? hr) hv
    have hcells : ∀ v ∈ r.value.references, ∃ c, v.cell = some c ∧ c < s.memos.next := fun v hv =>
      (hbuilt.housed.range v (hmem v hv)).imp fun _ hc => ⟨hc.1, hc.2.2⟩
    obtain ⟨hunchanged, hcopies, hinstanced⟩ :=
      Value.instanced_place (.rule ⟨s.sheet.rules.length⟩) hcells
    obtain ⟨id, s', hadd⟩ : ∃ id s', (addRule r.share parent).run s = .ok (id, s') := ⟨_, _, rfl⟩
    have hlater : s.Later s' := .single (.addRule r.share parent hparent hadd)
    obtain ⟨rfl, rfl⟩ := Prod.mk.inj (Except.ok.inj hadd)
    refine ⟨_, _, _, hadd, hlater.extends.rule_eq hr, List.getElem?_concat_length,
      fun v hv => hunchanged.get?_eq hbuilt.housed (hmem v hv), rfl, hcopies,
      hinstanced, fun t ht => ?_⟩
    have hextends := hlater.extends.trans ht.extends
    have hbuilt' := hextends.built hbuilt
    have hr' := hextends.rule_eq hr
    have hcopy' := ht.extends.rule_eq (List.getElem?_concat_length ..)
    have hne : i ≠ s.sheet.rules.length :=
      Nat.ne_of_lt (List.getElem?_eq_some_iff.mp hr).1
    obtain ⟨r', u, hrun, hother⟩ := exists_run_evaluateRule hbuilt' hr'
    obtain ⟨copy', w, hrun', hother'⟩ := exists_run_evaluateRule hbuilt' hcopy'
    exact ⟨hr', hcopy', fun hframes hframes' =>
      ⟨⟨r', u, hrun, hother _ _ hcopy' hne hframes'⟩,
        copy', w, hrun', hother' _ _ hr' hne.symm hframes⟩⟩
  · have hlater := ht.extends
    obtain ⟨a', t', hrun, hfull, hagain⟩ := exists_run_evaluateRule_of_value_eq
      (hlater.built hbuilt) (List.mem_of_getElem? (hlater.rule_eq hr)) (hshares a ha)
    exact ⟨a', t', hrun, hfull, fun u hu b hb => hagain u hu.extends.memos b (hshares b hb)⟩

/-- The stylesheet with a circle at the start of a pass. -/
def ofCircle : Session :=
  { sheet := .circle, memos := Stylesheet.circleAndCells.2, pass := .start {} }

/-- After `line-cap: @c` was instanced and evaluated, nothing is known to the instance, and there is
nothing left to do for a copy that was not added. -/
theorem property_evaluates_for_itself :
    ∃ r s' copy r' t r'', ofCircle.sheet.rules[2]? = some r ∧
      (addRule r.share (some ⟨0⟩)).run ofCircle = .ok (⟨4⟩, s') ∧
      s'.sheet.rules[4]? = some copy ∧ (evaluateRule r).run s' = .ok (r', t) ∧
      (∀ w ∈ copy.value.references, t.memos.get? w.cell = none) ∧
      (evaluateRule r.share).run t = .ok (r'', t) := by
  obtain ⟨r, hr⟩ : ∃ r, ofCircle.sheet.rules[2]? = some r := ⟨_, rfl⟩
  have hparent : ∀ p ∈ some (⟨0⟩ : RulesetId), p.index < ofCircle.sheet.rulesets.length := by
    rintro p ⟨⟩
    decide
  obtain ⟨⟨id, s', copy, hadd, -, hcopy, -, -, -, hinstanced, hlater⟩, hshared⟩ :=
    instance_is_separate ofCircle Stylesheet.built_circle hr (some ⟨0⟩) hparent
  obtain rfl : ⟨4⟩ = id := (Prod.mk.inj (Except.ok.inj hadd)).1
  have hframes : s'.pass.frames = [] := by
    rw [← (Prod.mk.inj (Except.ok.inj hadd)).2]
    rfl
  obtain ⟨-, -, hseparate⟩ := hlater s' .refl
  rw [hframes] at hseparate
  obtain ⟨⟨r', t, hrun, hkept⟩, -⟩ := hseparate List.not_mem_nil List.not_mem_nil
  obtain ⟨_, t', hrun', -, hagain⟩ :=
    hshared s' (.single (.addRule r.share _ hparent hadd)) r List.mem_cons_self
  obtain ⟨-, rfl⟩ := Prod.mk.inj (Except.ok.inj (hrun.symm.trans hrun'))
  obtain ⟨r'', hrun''⟩ := hagain t .refl r.share (List.mem_cons_of_mem _ List.mem_cons_self)
  refine ⟨r, s', copy, r', t, r'', hr, hadd, hcopy, hrun, fun w hw => ?_, hrun''⟩
  obtain ⟨v, hv⟩ := Node.exists_rel_of_mem
    ((List.forall₂_and_left _ _).mpr ⟨fun _ hv => hv, hinstanced⟩).flip hw
  rw [hkept w hw, hv.2.content_eq]
  exact Stylesheet.get?_circle v (Stylesheet.mem_references_of_rule (List.mem_of_getElem? hr) hv.1)

end Session

end MapStyle
