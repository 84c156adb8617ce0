import MapStyle.Proofs.Course
import MapStyle.Proofs.Cycles
import MapStyle.Proofs.Termination

/-!
# What is found first is kept

The look-up of a reference that ends first decides what the reference stands
for ever after: it fills the cell, and a full cell answers under any scope and
reports nothing (`Scope.first_value_is_kept`).

That is not to say that evaluating a rule twice gives one node. A reference may
be looked up while it is being looked up already, and then the inner look-up
ends first: it fills the cell, and the outer one returns something else
(`Scope.knot_is_not_kept`). It takes a reference that **leads back** to the
declaration it is written in (`Scope.LeadsBack`) for that to happen, and a
declaration that is evaluated without having been entered. Everything else
returns what it leaves in the cells (`Scope.Evaluates.kept`), so a rule that is
not defined in terms of itself evaluates to one node, whatever the cells held
before.
-/

namespace MapStyle

namespace Progress

/-- The cells of references that were looked up are full. -/
theorem exists_get?_after {p : Progress} {es : List LookUp} {e : LookUp} (he : e ∈ es) {c : ℕ}
    (hc : e.reference.cell = some c) (hlt : c < p.memos.next) :
    ∃ n, (p.after es).memos.get? e.reference.cell = some n := by
  obtain ⟨before, later, rfl⟩ := List.append_of_mem he
  have hstep : ∃ n, ((p.after before).record e).memos.get? e.reference.cell = some n := by
    cases hcell : (p.after before).memos.get? e.reference.cell with
    | some n => exact ⟨n, ((p.after before).le_record e).1.2 _ n hcell⟩
    | none =>
      refine ⟨e.value, get?_record_self hc ?_ hcell⟩
      rw [next_after]
      exact hlt
  obtain ⟨n, hn⟩ := hstep
  refine ⟨n, ?_⟩
  rw [after_append, after_cons]
  exact (le_after _ later).1.2 _ n hn

end Progress

/-! ## Full cells -/

section Full

variable {scope : Scope} {entered : List RuleId} {p : Progress}

/-- **A full cell answers under any scope**, and nothing else happens. -/
theorem Scope.run_resolve_of_full {v : Variable} {n : Node} (h : p.memos.get? v.cell = some n) :
    (scope.resolve entered v).run p = .ok (n, p) := by
  rw [resolve, resolveWithin_eq, run_once_of_some h]

/-- **A node whose references have full cells** is evaluated to what the cells
say, and nothing else happens. -/
theorem Node.run_evaluateWith_of_full {f : Variable → Node} {n : Node}
    (h : ∀ v ∈ n.references, p.memos.get? v.cell = some (f v)) :
    (n.evaluateWith (scope.resolve entered)).run p = .ok (n.substitute f, p) := by
  induction n using partInduction with
  | reference v => exact Scope.run_resolve_of_full (h v (by simp [references]))
  | composite n hn ih =>
    have hparts : ∀ ns : List Node, (∀ m ∈ ns, m ∈ n.parts) →
        (evaluateAllWith (scope.resolve entered) ns).run p = .ok (ns.map (substitute f), p) := by
      intro ns hns
      induction ns with
      | nil => rfl
      | cons m ns ihns =>
        refine Scope.run_evaluateAllWith_cons (ih m (hns m List.mem_cons_self) fun v hv => ?_)
          (ihns fun k hk => hns k (List.mem_cons_of_mem _ hk))
        exact h v (mem_references_of_mem_parts (hns m List.mem_cons_self) hv)
    rw [evaluateWith_of_not_isReference _ hn,
      Evaluation.run_map_of_eq_ok (hparts n.parts fun _ hm => hm),
      substitute_of_not_isReference f hn]

end Full

namespace Scope

/-- **A reference leads back to where it is written**: what it is bound to leads
to the declaration in whose value it stands. -/
def LeadsBack (scope : Scope) (v : Variable) : Prop :=
  ∃ id id' r, scope.Binds v.name id ∧ Relation.ReflTransGen scope.Uses id id' ∧
    scope.sheet.rules[id'.index]? = some r ∧ v ∈ r.value.references

/-! ## Who is looked up -/

namespace Evaluates

variable {scope : Scope} {entered : List RuleId} {p : Progress} {ns ms : List Node}
  {es : List LookUp}

/-- **What is true of the references of the nodes, and passes from a reference to
those of the declaration it is bound to, is true of all that is looked up.** -/
theorem forall_reference {P : Variable → Prop}
    (hP : ∀ v, P v → ∀ id r, scope.Binds v.name id → scope.sheet.rules[id.index]? = some r →
      ∀ w ∈ r.value.references, P w)
    (h : scope.Evaluates entered p ns ms es) (hns : ∀ n ∈ ns, ∀ v ∈ n.references, P v) :
    ∀ e ∈ es, P e.reference := by
  induction h with
  | nil => exact fun e he => absurd he List.not_mem_nil
  | @composite entered p n ns ms ks es fs hn _ _ ihparts ihrest =>
    have hparts : ∀ m ∈ n.parts, ∀ v ∈ m.references, P v := fun m hm v hv =>
      hns n List.mem_cons_self v (Node.mem_references_of_mem_parts hm hv)
    intro e he
    rcases List.mem_append.mp he with he | he
    · exact ihparts hparts e he
    · exact ihrest (fun k hk => hns k (List.mem_cons_of_mem _ hk)) e he
  | @answer entered p v m report? ns ks fs _ _ ih =>
    intro e he
    rcases List.mem_cons.mp he with rfl | he
    · exact hns _ List.mem_cons_self v (by simp [Node.references])
    · exact ih (fun k hk => hns k (List.mem_cons_of_mem _ hk)) e he
  | @enter entered p v id r m ns ks es fs _ hb _ hr _ _ ihvalue ihrest =>
    have hv : P v := hns _ List.mem_cons_self v (by simp [Node.references])
    have hvalue : ∀ n ∈ [r.value.node], ∀ w ∈ n.references, P w :=
      List.forall_mem_singleton.mpr (hP v hv id r ((binds_iff_of_binding? hb id).mpr rfl) hr)
    intro e he
    rcases List.mem_append.mp he with he | he
    · exact ihvalue hvalue e he
    · rcases List.mem_cons.mp he with rfl | he
      · exact hv
      · exact ihrest (fun k hk => hns k (List.mem_cons_of_mem _ hk)) e he

/-- What is looked up are references of the stylesheet. -/
theorem reference_mem (h : scope.Evaluates entered p ns ms es)
    (hns : ∀ n ∈ ns, ∀ v ∈ n.references, v ∈ scope.sheet.references) :
    ∀ e ∈ es, e.reference ∈ scope.sheet.references :=
  h.forall_reference (fun _ _ _ _ _ hr _ hw =>
    Stylesheet.mem_references_of_rule (List.mem_of_getElem? hr) hw) hns

/-- **What is looked up for a declaration** stands in declarations that it leads
to. -/
theorem reference_of_declaration {id : RuleId} {r : Rule}
    (hr : scope.sheet.rules[id.index]? = some r)
    (h : scope.Evaluates entered p [r.value.node] ms es) :
    ∀ e ∈ es, ∃ id' r', Relation.ReflTransGen scope.Uses id id' ∧
      scope.sheet.rules[id'.index]? = some r' ∧ e.reference ∈ r'.value.references := by
  refine h.forall_reference (P := fun w => ∃ id' r', Relation.ReflTransGen scope.Uses id id' ∧
      scope.sheet.rules[id'.index]? = some r' ∧ w ∈ r'.value.references) ?_ ?_
  · rintro v ⟨id', r', hreach, hr', hv⟩ next s hnext hs w hw
    exact ⟨next, s, hreach.tail ⟨r', hr', v, hv, hnext⟩, hs, hw⟩
  · exact List.forall_mem_singleton.mpr fun w hw => ⟨id, r, .refl, hr, hw⟩

/-- Every reference of the nodes is looked up. -/
theorem exists_lookUp (h : scope.Evaluates entered p ns ms es) {n : Node} (hn : n ∈ ns)
    {v : Variable} (hv : v ∈ n.references) : ∃ e ∈ es, e.reference = v := by
  induction h generalizing n with
  | nil => exact absurd hn List.not_mem_nil
  | @composite _ _ k _ _ _ _ _ hk _ _ ihparts ihrest =>
    rcases List.mem_cons.mp hn with rfl | hn
    · rw [Node.references_of_not_isReference hk] at hv
      obtain ⟨m, hm, hv⟩ := List.mem_flatMap.mp hv
      obtain ⟨e, he, hev⟩ := ihparts hm hv
      exact ⟨e, List.mem_append_left _ he, hev⟩
    · obtain ⟨e, he, hev⟩ := ihrest hn hv
      exact ⟨e, List.mem_append_right _ he, hev⟩
  | answer _ _ ih =>
    rcases List.mem_cons.mp hn with rfl | hn
    · rw [List.mem_singleton.mp (show v ∈ [_] from hv)]
      exact ⟨_, List.mem_cons_self, rfl⟩
    · obtain ⟨e, he, hev⟩ := ih hn hv
      exact ⟨e, List.mem_cons_of_mem _ he, hev⟩
  | enter _ _ _ _ _ _ _ ih =>
    rcases List.mem_cons.mp hn with rfl | hn
    · rw [List.mem_singleton.mp (show v ∈ [_] from hv)]
      exact ⟨_, List.mem_append_right _ List.mem_cons_self, rfl⟩
    · obtain ⟨e, he, hev⟩ := ih hn hv
      exact ⟨e, List.mem_append_right _ (List.mem_cons_of_mem _ he), hev⟩

/-! ## What is returned and what is kept -/

/-- **A cell that was full at the start answers throughout.** -/
theorem value_of_full (h : scope.Evaluates entered p ns ms es) {e : LookUp} (he : e ∈ es)
    {n : Node} (hcell : p.memos.get? e.reference.cell = some n) : e.value = n := by
  induction h with
  | nil => exact absurd he List.not_mem_nil
  | @composite _ p _ _ _ _ es _ _ _ _ ihparts ihrest =>
    rcases List.mem_append.mp he with he | he
    · exact ihparts he hcell
    · exact ihrest he ((p.le_after es).1.2 _ n hcell)
  | @answer _ p v m report? _ _ _ hanswer _ ih =>
    rcases List.mem_cons.mp he with rfl | he
    · cases hanswer with
      | recalled hfull => exact Option.some.inj (hfull.symm.trans hcell)
      | undefined hempty | circular hempty =>
        exact absurd (hempty.symm.trans hcell) (Option.some_ne_none n).symm
    · exact ih he ((p.le_record _).1.2 _ n hcell)
  | @enter _ p v _ _ m _ _ es _ hempty _ _ _ _ _ ihvalue ihrest =>
    rcases List.mem_append.mp he with he | he
    · exact ihvalue he hcell
    · rcases List.mem_cons.mp he with rfl | he
      · exact absurd (hempty.symm.trans hcell) (Option.some_ne_none n).symm
      · exact ihrest he (((p.le_after es).trans (Progress.le_record _ _)).1.2 _ n hcell)

/-- **The look-up of a reference that ends first is kept.** -/
theorem get?_first (h : scope.Evaluates entered p ns ms es)
    (hhoused : Housed 0 p.memos.next scope.sheet.references)
    (hns : ∀ n ∈ ns, ∀ v ∈ n.references, v ∈ scope.sheet.references)
    {before later : List LookUp} {e : LookUp} (hes : es = before ++ e :: later)
    (hfirst : ∀ d ∈ before, d.reference ≠ e.reference) :
    (p.after (before ++ [e])).memos.get? e.reference.cell = some e.value := by
  have hmem := h.reference_mem hns
  have he : e ∈ es := by
    rw [hes]
    simp
  cases hcell : p.memos.get? e.reference.cell with
  | some n =>
    rw [h.value_of_full he hcell]
    exact (p.le_after _).1.2 _ n hcell
  | none =>
    obtain ⟨c, hc, -, hlt⟩ := hhoused.range _ (hmem e he)
    -- no two references have the same cell, so the cell is still empty
    have hbefore : ∀ d ∈ before, d.reference.cell ≠ e.reference.cell := by
      intro d hd hsame
      refine hfirst d hd (hhoused.eq_of_cell_eq (hmem d ?_) (hmem e he) hsame)
      rw [hes]
      exact List.mem_append_left _ hd
    rw [Progress.after_append]
    refine Progress.get?_record_self hc ?_ ?_
    · rw [Progress.next_after]
      exact hlt
    · rw [Progress.get?_after_of_forall_ne hbefore, hcell]

/-- **What is returned is kept**, for references that do not lead back to where
they are written. -/
theorem kept (h : scope.Evaluates entered p ns ms es)
    (hhoused : Housed 0 p.memos.next scope.sheet.references)
    (hns : ∀ n ∈ ns, ∀ v ∈ n.references, v ∈ scope.sheet.references ∧ ¬scope.LeadsBack v) :
    List.Forall₂ (Node.Replaced fun v k => (p.after es).memos.get? v.cell = some k) ns ms := by
  -- what a cell holds at one time, it holds at any later time
  have hgrow : ∀ {q o : Progress} {n m : Node}, q ≤ o →
      n.Replaced (fun v k => q.memos.get? v.cell = some k) m →
      n.Replaced (fun v k => o.memos.get? v.cell = some k) m :=
    fun hle hnm => hnm.imp fun v _ k hk => hle.1.2 v.cell k hk
  induction h with
  | nil => exact .nil
  | @composite entered p n ns ms ks es fs hn _ _ ihparts ihrest =>
    have hparts := ihparts hhoused fun m hm v hv =>
      hns n List.mem_cons_self v (Node.mem_references_of_mem_parts hm hv)
    have hrest := ihrest (by rw [Progress.next_after]; exact hhoused)
      fun k hk => hns k (List.mem_cons_of_mem _ hk)
    rw [Progress.after_append]
    exact .cons (hgrow ((p.after es).le_after fs) (.composite hn hparts)) hrest
  | @answer entered p v m report? ns ks fs hanswer _ ih =>
    have hrest := ih (by rw [Progress.memos_record, Memos.next_fill]; exact hhoused)
      fun k hk => hns k (List.mem_cons_of_mem _ hk)
    obtain ⟨c, hc, -, hlt⟩ := hhoused.range v (hns _ List.mem_cons_self v List.mem_cons_self).1
    have hcell : (p.record ⟨v, m, report?⟩).memos.get? v.cell = some m := by
      cases hanswer with
      | recalled hfull =>
        rw [Progress.record_of_full hfull]
        exact hfull
      | undefined hempty | circular hempty => exact Progress.get?_record_self hc hlt hempty
    exact .cons (.reference ((Progress.le_after _ fs).1.2 _ m hcell)) hrest
  | @enter entered p v id r m ns ks es fs hempty hb hid hr hvalue _ _ ihrest =>
    have hrest := ihrest
      (by rw [Progress.memos_record, Memos.next_fill, Progress.next_after]; exact hhoused)
      fun k hk => hns k (List.mem_cons_of_mem _ hk)
    obtain ⟨hv, hback⟩ := hns _ List.mem_cons_self v List.mem_cons_self
    obtain ⟨c, hc, -, hlt⟩ := hhoused.range v hv
    -- the reference is not looked up inside, so its cell is still empty
    have hinside : ∀ e ∈ es, e.reference.cell ≠ v.cell := by
      intro e he hsame
      obtain ⟨id', r', hreach, hr', hmem⟩ := hvalue.reference_of_declaration hr e he
      have hsheet := Stylesheet.mem_references_of_rule (List.mem_of_getElem? hr') hmem
      rw [hhoused.eq_of_cell_eq hsheet hv hsame] at hmem
      exact hback ⟨id, id', r', (binds_iff_of_binding? hb id).mpr rfl, hreach, hr', hmem⟩
    have hcell : ((p.after es).record ⟨v, m, none⟩).memos.get? v.cell = some m := by
      refine Progress.get?_record_self hc ?_ ?_
      · rw [Progress.next_after]
        exact hlt
      · rw [Progress.get?_after_of_forall_ne hinside, hempty]
    rw [Progress.after_append, Progress.after_cons]
    exact .cons (.reference ((Progress.le_after _ fs).1.2 _ m hcell)) hrest

/-- **Evaluated again, a node comes to what the cells say**, under any scope, and
nothing is reported. That is the node that was returned, unless a reference
leads back to where it is written. -/
theorem exists_again {n m : Node} (h : scope.Evaluates entered p [n] [m] es)
    (hhoused : Housed 0 p.memos.next scope.sheet.references)
    (hn : ∀ v ∈ n.references, v ∈ scope.sheet.references) :
    ∃ m', (∀ (scope' : Scope) (o : Progress), (p.after es).memos ≤ o.memos →
        (n.evaluate scope').run o = .ok (m', o)) ∧
      ((∀ v ∈ n.references, ¬scope.LeadsBack v) → m' = m) := by
  let f : Variable → Node := fun v => ((p.after es).memos.get? v.cell).getD .undefined
  have hfull : ∀ v ∈ n.references, (p.after es).memos.get? v.cell = some (f v) := by
    intro v hv
    obtain ⟨e, he, rfl⟩ := h.exists_lookUp List.mem_cons_self hv
    obtain ⟨c, hc, -, hlt⟩ := hhoused.range _ (hn _ hv)
    obtain ⟨k, hk⟩ := Progress.exists_get?_after (p := p) he hc hlt
    show _ = some (Option.getD _ _)
    rw [hk, Option.getD_some]
  refine ⟨n.substitute f, fun scope' o ho => ?_, fun hback => ?_⟩
  · exact Node.run_evaluateWith_of_full fun v hv => ho.2 _ _ (hfull v hv)
  · have hkept := h.kept hhoused (List.forall_mem_singleton.mpr fun v hv => ⟨hn v hv, hback v hv⟩)
    cases hkept with
    | cons hreplaced _ =>
      have hf : n.Replaced (fun v k => f v = k) m :=
        hreplaced.imp fun v hv k hk => Option.some.inj ((hfull v hv).symm.trans hk)
      exact hf.eq_substitute

end Evaluates

/-! ## Rules and filters -/

variable {scope : Scope}

/-- **A reference of a rule that leads back** shows that the rule is defined in
terms of itself. -/
theorem LeadsBack.transGen {v : Variable} (h : scope.LeadsBack v) (howned : scope.sheet.Owned)
    {i : ℕ} {r : Rule} (hr : scope.sheet.rules[i]? = some r) (hv : v ∈ r.value.references) :
    Relation.TransGen scope.Uses ⟨i⟩ ⟨i⟩ := by
  obtain ⟨id, id', r', hid, hreach, hr', hv'⟩ := h
  -- the reference has one owner, so it stands in one rule only
  have howner :=
    (howned.rule_owner i r hr v hv).symm.trans (howned.rule_owner id'.index r' hr' v hv')
  obtain rfl : (⟨i⟩ : RuleId) = id' := Owner.rule.inj (Option.some.inj howner)
  exact Relation.TransGen.head' ⟨r, hr, v, hv, hid⟩ hreach

/-- The references of filters do not lead back, since they stand in no rule. -/
theorem not_leadsBack_of_filter (howned : scope.sheet.Owned) {f : Filter}
    (hf : f ∈ scope.sheet.filters) {v : Variable} (hv : v ∈ f.references) :
    ¬scope.LeadsBack v := by
  rintro ⟨-, id', r', -, -, hr', hv'⟩
  obtain ⟨ref, href⟩ := howned.exists_selector_owner hf hv
  exact absurd (href.symm.trans (howned.rule_owner id'.index r' hr' v hv'))
    fun h => Owner.noConfusion (Option.some.inj h)

/-- **What is asked again is answered as the cells say**, under any scope, and
nothing is reported. That is the answer that was given, unless a reference leads
back to where it is written. -/
theorem exists_answer_again {p q : Progress} (h : scope.sheet.Assembled p.memos)
    {request : Request} (hrequest : request.IsOf scope.sheet) {m : Node}
    (hrun : (request.node.evaluate scope).run p = .ok (m, q)) :
    ∃ m', (∀ (scope' : Scope) (o : Progress), q.memos ≤ o.memos →
        (request.node.evaluate scope').run o = .ok (m', o)) ∧
      ((∀ v ∈ request.node.references, ¬scope.LeadsBack v) → m' = m) := by
  obtain ⟨course, hcourse, rfl⟩ := (run_eq_ok_iff Nested.nil).mp hrun
  exact hcourse.exists_again h.housed fun v hv => Request.mem_references hrequest hv

/-- **The value that a reference is first found to have is kept.** In the course
of every evaluation for a rule or a filter of a stylesheet, the look-up of a
reference that ends first leaves its value in the cell of the reference, for
ever, and from then on the reference has that value under any scope, and nothing
is reported.

A rule that was evaluated once evaluates to one and the same rule ever after,
under any scope, and nothing is reported; it is the rule that the first
evaluation gave, unless the rule is defined in terms of itself. A filter always
evaluates to the same filter. In a stylesheet built with its own handles all
these evaluations come to an end. -/
theorem first_value_is_kept (scope : Scope) {p : Progress}
    (h : scope.sheet.Assembled p.memos) :
    (∀ request : Request, request.IsOf scope.sheet →
      ∀ m q, (request.node.evaluate scope).run p = .ok (m, q) →
        ∃ course, scope.Evaluates [] p [request.node] [m] course ∧ p.after course = q ∧
          ∀ before e later, course = before ++ e :: later →
            (∀ d ∈ before, d.reference ≠ e.reference) →
            ∀ o : Progress, (p.after (before ++ [e])).memos ≤ o.memos →
              o.memos.get? e.reference.cell = some e.value ∧
              ∀ (scope' : Scope) (entered : List RuleId),
                (scope'.resolve entered e.reference).run o = .ok (e.value, o)) ∧
    (∀ (i : ℕ) (r : Rule), scope.sheet.rules[i]? = some r →
      ∀ r' q, (r.evaluate scope).run p = .ok (r', q) →
        ∃ r'', (∀ (scope' : Scope) (o : Progress), q.memos ≤ o.memos →
            (r.evaluate scope').run o = .ok (r'', o)) ∧
          (¬Relation.TransGen scope.Uses ⟨i⟩ ⟨i⟩ → r'' = r')) ∧
    (∀ f ∈ scope.sheet.filters, ∀ f' q, (f.evaluate scope).run p = .ok (f', q) →
      ∀ (scope' : Scope) (o : Progress), q.memos ≤ o.memos →
        (f.evaluate scope').run o = .ok (f', o)) ∧
    (scope.sheet.Built p.memos → ∀ request : Request, request.IsOf scope.sheet →
      ∃ m q, (request.node.evaluate scope).run p = .ok (m, q)) := by
  refine ⟨fun request hrequest m q hrun => ?_, fun i r hr r' q hrun => ?_,
    fun f hf f' q hrun => ?_, fun hbuilt request hrequest => ?_⟩
  · obtain ⟨course, hcourse, hq⟩ := (run_eq_ok_iff Nested.nil).mp hrun
    refine ⟨course, hcourse, hq, fun before e later hes hfirst o ho => ?_⟩
    have hreferences : ∀ n ∈ [request.node], ∀ v ∈ n.references, v ∈ scope.sheet.references :=
      List.forall_mem_singleton.mpr fun v hv => Request.mem_references hrequest hv
    have hfull := ho.2 _ _ (hcourse.get?_first h.housed hreferences hes hfirst)
    exact ⟨hfull, fun scope' entered => run_resolve_of_full hfull⟩
  · rw [Rule.evaluate_eq] at hrun
    obtain ⟨m, hm, rfl⟩ := Evaluation.exists_of_run_map_eq_ok hrun
    have hrule : (Request.rule r).IsOf scope.sheet := List.mem_of_getElem? hr
    obtain ⟨m', hagain, hsame⟩ := exists_answer_again h hrule hm
    refine ⟨{ r with value := .ofNode m' }, fun scope' o ho => ?_, fun hself => ?_⟩
    · rw [Rule.evaluate_eq]
      exact Evaluation.run_map_of_eq_ok (hagain scope' o ho)
    · rw [hsame fun v hv hback => hself (hback.transGen h.owned hr hv)]
  · have hm : (f.toNode.evaluate scope).run p = .ok (f'.toNode, q) := by
      rw [← Filter.toNode_evaluate]
      exact Evaluation.run_map_of_eq_ok hrun
    have hfilter : (Request.filter f).IsOf scope.sheet := hf
    obtain ⟨m', hagain, hsame⟩ := exists_answer_again h hfilter hm
    obtain rfl := hsame fun v hv => not_leadsBack_of_filter h.owned hf hv
    intro scope' o ho
    have hnode := hagain scope' o ho
    rw [Request.node, ← Filter.toNode_evaluate] at hnode
    obtain ⟨g, hg, hgf⟩ := Evaluation.exists_of_run_map_eq_ok hnode
    rw [hg, Filter.toNode_injective hgf]
  · exact exists_run_node hbuilt.linked request hrequest p

/-- Once `line-cap: @c` was evaluated under `@c: wide`, it evaluates to the same
with nothing in scope. -/
theorem circle_keeps_property :
    ∃ r r' q, Stylesheet.circle.rules[2]? = some r ∧
      (r.evaluate ⟨.circle, [⟨0⟩, ⟨1⟩, ⟨3⟩]⟩).run ⟨Stylesheet.circleAndCells.2, {}⟩
        = .ok (r', q) ∧
      (r.evaluate ⟨.circle, []⟩).run q = .ok (r', q) := by
  let scope : Scope := ⟨.circle, [⟨0⟩, ⟨1⟩, ⟨3⟩]⟩
  let p : Progress := ⟨Stylesheet.circleAndCells.2, {}⟩
  obtain ⟨r, hr⟩ : ∃ r, scope.sheet.rules[2]? = some r := ⟨_, rfl⟩
  have hkept := first_value_is_kept scope (p := p) Stylesheet.built_circle.assembled
  obtain ⟨m, q, hm⟩ := hkept.2.2.2 Stylesheet.built_circle (.rule r) (List.mem_of_getElem? hr)
  have hrun : (r.evaluate scope).run p = .ok ({ r with value := .ofNode m }, q) := by
    rw [Rule.evaluate_eq]
    exact Evaluation.run_map_of_eq_ok hm
  -- a property is what no name is bound to, so nothing leads to it
  have hself : ¬Relation.TransGen scope.Uses ⟨2⟩ ⟨2⟩ := by
    intro h
    obtain ⟨_, -, _, _, _, _, hid⟩ := Relation.TransGen.tail'_iff.mp h
    obtain ⟨r', hr', hvariable, -⟩ := declares_eq_true_iff.mp hid.declares.2
    rw [← Option.some.inj (hr.symm.trans hr')] at hvariable
    obtain rfl := Option.some.inj hr
    exact absurd hvariable (by decide)
  obtain ⟨r'', hagain, hsame⟩ := hkept.2.1 2 r hr _ q hrun
  refine ⟨r, _, q, hr, hrun, ?_⟩
  rw [← hsame hself]
  exact hagain ⟨.circle, []⟩ q (le_refl q.memos)
end Scope

/-! ## A stylesheet with a knot -/

namespace Stylesheet

/-- The stylesheet `@a: @b x; @b: @a y;` and its cells. -/
def knotAndCells : Stylesheet × Memos := ofAdditions [
  .rule (declaring "@a" true (.expression [.variable (refer "@b"), .keyword "x"])) none,
  .rule (declaring "@b" true (.expression [.variable (refer "@a"), .keyword "y"])) none]

/-- **A stylesheet with a knot**: two variables are defined in terms of each
other, and each has something around the reference. -/
def knot : Stylesheet := knotAndCells.1

theorem built_knot : knot.Built knotAndCells.2 := built_ofAdditions rfl

end Stylesheet

namespace Scope

/-- A declaration by a reference and a word. -/
theorem Evaluates.phrase {scope : Scope} {entered : List RuleId} {p : Progress} {v : Variable}
    {m : Node} {es : List LookUp} (h : scope.Evaluates entered p [.variable v] [m] es)
    (word : String) :
    scope.Evaluates entered p [.value [.expression [.variable v, .keyword word]]]
      [.expression [m, .keyword word]] es := by
  have hword : scope.Evaluates entered (p.after es) [.keyword word] [.keyword word] [] :=
    .composite (n := .keyword word) id .nil .nil
  have hparts := Evaluates.composite (n := .expression [.variable v, .keyword word]) id
    (h.append hword) .nil
  have hvalue := Evaluates.composite
    (n := .value [.expression [.variable v, .keyword word]]) id hparts .nil
  simp only [List.append_nil] at hvalue
  exact hvalue

/-- **Evaluated twice, `@a: @b x` gives two values** where `@b` is `@a y`: while `@b`
is entered, `@a` is entered as well, where `@b` is circular and its cell is filled
with nothing. That is what the second evaluation finds. -/
theorem knot_is_not_kept :
    ∃ r r' r'' q o, Stylesheet.knot.rules[0]? = some r ∧
      (r.evaluate ⟨.knot, [⟨0⟩, ⟨1⟩]⟩).run ⟨Stylesheet.knotAndCells.2, {}⟩ = .ok (r', q) ∧
      (r.evaluate ⟨.knot, [⟨0⟩, ⟨1⟩]⟩).run q = .ok (r'', o) ∧ r''.value ≠ r'.value := by
  let scope : Scope := ⟨.knot, [⟨0⟩, ⟨1⟩]⟩
  let p : Progress := ⟨Stylesheet.knotAndCells.2, {}⟩
  let b : Variable := { Stylesheet.refer "@b" with owner := some (.rule ⟨0⟩), cell := some 0 }
  let a : Variable := { Stylesheet.refer "@a" with owner := some (.rule ⟨1⟩), cell := some 1 }
  let inner : Node := .expression [.undefined, .keyword "x"]
  let outer : Node := .expression [inner, .keyword "y"]
  let course : List LookUp :=
    [⟨b, .undefined, some b.circularReport⟩, ⟨a, inner, none⟩, ⟨b, outer, none⟩]
  have hlinked := Stylesheet.built_knot.linked
  have ha : scope.binding? a = .ok (some ⟨0⟩) := Binds.binding?
    ⟨_, _, rfl, ⟨[], [], rfl, by simp, by simp⟩, rfl⟩ hlinked
    (show 1 < Stylesheet.knot.rules.length by decide)
  have hb : scope.binding? b = .ok (some ⟨1⟩) := Binds.binding?
    ⟨_, _, rfl, ⟨[], [], rfl, by simp, by simp⟩, rfl⟩ hlinked
    (show 0 < Stylesheet.knot.rules.length by decide)
  have hcircular : scope.Evaluates [⟨0⟩, ⟨1⟩] p [.variable b] [.undefined] _ :=
    .answer (.circular rfl hb (by simp)) .nil
  have hinner : scope.Evaluates [⟨1⟩] p [.variable a] [inner] _ :=
    .enter rfl ha (by simp) rfl (hcircular.phrase "x") .nil
  have houter : scope.Evaluates [] p [.variable b] [outer] course :=
    .enter rfl hb (by simp) rfl (hinner.phrase "y") .nil
  have hfirst := (houter.phrase "x").run_node Nested.nil
  have hcell : (p.after course).memos.get? b.cell = some .undefined := rfl
  have hagain : scope.Evaluates [] _ [.variable b] _ _ := .answer (.recalled hcell) .nil
  have hsecond := (hagain.phrase "x").run_node Nested.nil
  obtain ⟨r, hr⟩ : ∃ r, Stylesheet.knot.rules[0]? = some r := ⟨_, rfl⟩
  have hnode : r.value.node = .value [.expression [.variable b, .keyword "x"]] := by
    obtain rfl := Option.some.inj hr
    rfl
  have hrun : ∀ {p q : Progress} {m : Node},
      (Node.evaluate scope (.value [.expression [.variable b, .keyword "x"]])).run p = .ok (m, q) →
      (r.evaluate scope).run p = .ok ({ r with value := .ofNode m }, q) := by
    intro p q m h
    rw [Rule.evaluate_eq, hnode]
    exact Evaluation.run_map_of_eq_ok h
  exact ⟨r, _, _, _, _, hr, hrun hfirst, hrun hsecond, by simp [Value.ofNode, outer, inner]⟩

end Scope

end MapStyle
