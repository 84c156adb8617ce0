import MapStyle.Proofs.Growth
import MapStyle.Proofs.Resolution

/-!
# The course of an evaluation

All that an evaluation does, it does when the look-up of a reference comes to
its end: a report may be made, and the value is put into the cell. So what was
done can be told by the look-ups in the order in which they ended
(`Progress.after`), those inside a look-up before the look-up itself.

`Scope.Evaluates` says how nodes are evaluated, rule by rule, without a bound on
the depth and without a monad, and tells the course as well. Evaluation gives
what can be derived, and nothing else (`Scope.run_eq_ok_iff`), so what relates the
outcome of an evaluation to the state it started from is shown by induction on
the derivation.
-/

namespace MapStyle

/-! ## Look-ups -/

/-- **The look-up of a reference, when it has ended.** -/
structure LookUp where
  reference : Variable
  /-- What was returned. -/
  value : Node
  /-- What was reported at the end, if anything. -/
  report? : Option Diagnostic

namespace Progress

/-- What the end of a look-up leaves: first the report is made, then the value
is remembered. -/
def record (p : Progress) (e : LookUp) : Progress :=
  (e.report?.elim p p.report).remember e.reference e.value

/-- **The progress after look-ups**, in the order in which they ended. -/
def after (p : Progress) (es : List LookUp) : Progress := es.foldl record p

@[simp] theorem after_nil (p : Progress) : p.after [] = p := rfl

@[simp] theorem after_cons (p : Progress) (e : LookUp) (es : List LookUp) :
    p.after (e :: es) = (p.record e).after es := rfl

@[simp] theorem after_append (p : Progress) (es fs : List LookUp) :
    p.after (es ++ fs) = (p.after es).after fs := List.foldl_append

/-- The end of a look-up is progress. -/
theorem le_record (p : Progress) (e : LookUp) : p ≤ p.record e := by
  refine le_trans ?_ (le_remember _ e.reference e.value)
  cases e.report? with
  | none => exact le_refl p
  | some d => exact le_report p d

/-- Look-ups are progress. -/
theorem le_after (p : Progress) (es : List LookUp) : p ≤ p.after es := by
  induction es generalizing p with
  | nil => exact le_refl p
  | cons e es ih => exact (p.le_record e).trans (ih _)

/-! ### Cells and reports -/

/-- What the end of a look-up leaves in the cells. -/
@[simp] theorem memos_record (p : Progress) (e : LookUp) :
    (p.record e).memos = p.memos.fill e.reference.cell e.value := by
  rw [record]
  cases e.report? with
  | none => rfl
  | some d => rfl

/-- What the end of a look-up leaves in the log. -/
theorem log_record (p : Progress) (e : LookUp) :
    (p.record e).log = p.log.reportAll e.report?.toList := by
  rw [record]
  cases e.report? with
  | none => rfl
  | some d => rfl

/-- **Look-ups report what was found at their ends**, in this order. -/
theorem log_after (p : Progress) (es : List LookUp) :
    (p.after es).log = p.log.reportAll (es.filterMap (·.report?)) := by
  induction es generalizing p with
  | nil => rfl
  | cons e es ih =>
    rw [after_cons, ih, log_record]
    cases h : e.report? with
    | none => simp [h, Log.reportAll]
    | some d => simp [h, Log.reportAll]

/-- Look-ups add no cells. -/
@[simp] theorem next_after (p : Progress) (es : List LookUp) :
    (p.after es).memos.next = p.memos.next := by
  induction es generalizing p with
  | nil => rfl
  | cons e es ih => rw [after_cons, ih, memos_record, Memos.next_fill]

/-- What look-ups leave in the cells depends on the cells alone. -/
theorem memos_after_congr {p q : Progress} (h : p.memos = q.memos) (es : List LookUp) :
    (p.after es).memos = (q.after es).memos := by
  induction es generalizing p q with
  | nil => exact h
  | cons e es ih => exact ih (by rw [memos_record, memos_record, h])

/-- Only the cells of references that were looked up change. -/
theorem get?_after_of_forall_ne {p : Progress} {es : List LookUp} {cell : Option ℕ}
    (h : ∀ e ∈ es, e.reference.cell ≠ cell) :
    (p.after es).memos.get? cell = p.memos.get? cell := by
  induction es generalizing p with
  | nil => rfl
  | cons e es ih =>
    rw [after_cons, ih (fun e' he' => h e' (List.mem_cons_of_mem _ he')), memos_record,
      Memos.get?_fill_of_cell_ne (h e List.mem_cons_self)]

/-- An empty cell holds the value of its reference after the look-up. -/
theorem get?_record_self {p : Progress} {e : LookUp} {c : ℕ} (hc : e.reference.cell = some c)
    (hlt : c < p.memos.next) (hcell : p.memos.get? e.reference.cell = none) :
    (p.record e).memos.get? e.reference.cell = some e.value := by
  rw [memos_record]
  rw [hc] at hcell ⊢
  exact Memos.get?_fill_self hlt hcell e.value

/-- A look-up that returned what the cell held leaves everything as it was. -/
theorem record_of_full {p : Progress} {v : Variable} {n : Node}
    (h : p.memos.get? v.cell = some n) : p.record ⟨v, n, none⟩ = p := by
  show p.remember v n = p
  rw [remember, Memos.fill_of_full h]

end Progress

/-! ## How nodes are evaluated -/

namespace Scope

/-- **A reference is answered on the spot**: what its cell holds, or a report. -/
inductive Answers (scope : Scope) (entered : List RuleId) (p : Progress) : LookUp → Prop
  | recalled {v : Variable} {n : Node} (hcell : p.memos.get? v.cell = some n) :
      Answers scope entered p ⟨v, n, none⟩
  | undefined {v : Variable} (hcell : p.memos.get? v.cell = none)
      (hb : scope.binding? v = .ok none) :
      Answers scope entered p ⟨v, .undefined, some v.undefinedReport⟩
  | circular {v : Variable} {id : RuleId} (hcell : p.memos.get? v.cell = none)
      (hb : scope.binding? v = .ok (some id)) (hid : id ∈ entered) :
      Answers scope entered p ⟨v, .undefined, some v.circularReport⟩

/-- **How nodes are evaluated**, one after the other, while declarations are
entered: from some cells and log to other nodes, by a course of look-ups. -/
inductive Evaluates (scope : Scope) :
    List RuleId → Progress → List Node → List Node → List LookUp → Prop
  /-- No node is left. -/
  | nil {entered : List RuleId} {p : Progress} : Evaluates scope entered p [] [] []
  /-- A node that is no reference is put together from its evaluated parts. -/
  | composite {entered : List RuleId} {p : Progress} {n : Node} {ns ms ks : List Node}
      {es fs : List LookUp} (hn : ¬n.IsReference)
      (hparts : Evaluates scope entered p n.parts ms es)
      (hrest : Evaluates scope entered (p.after es) ns ks fs) :
      Evaluates scope entered p (n :: ns) (n.rebuild ms :: ks) (es ++ fs)
  /-- A reference that is answered on the spot. -/
  | answer {entered : List RuleId} {p : Progress} {v : Variable} {m : Node}
      {report? : Option Diagnostic} {ns ks : List Node} {fs : List LookUp}
      (h : scope.Answers entered p ⟨v, m, report?⟩)
      (hrest : Evaluates scope entered (p.record ⟨v, m, report?⟩) ns ks fs) :
      Evaluates scope entered p (.variable v :: ns) (m :: ks) (⟨v, m, report?⟩ :: fs)
  /-- Any other reference stands for the value of its declaration. -/
  | enter {entered : List RuleId} {p : Progress} {v : Variable} {id : RuleId} {r : Rule}
      {m : Node} {ns ks : List Node} {es fs : List LookUp}
      (hcell : p.memos.get? v.cell = none) (hb : scope.binding? v = .ok (some id))
      (hid : id ∉ entered) (hr : scope.sheet.rules[id.index]? = some r)
      (hvalue : Evaluates scope (id :: entered) p [r.value.node] [m] es)
      (hrest : Evaluates scope entered ((p.after es).record ⟨v, m, none⟩) ns ks fs) :
      Evaluates scope entered p (.variable v :: ns) (m :: ks) (es ++ ⟨v, m, none⟩ :: fs)

namespace Evaluates

variable {scope : Scope} {entered : List RuleId} {p : Progress} {ns ns' ms ms' : List Node}
  {es es' : List LookUp}

/-- Nodes that are evaluated one after the other. -/
theorem append (h : scope.Evaluates entered p ns ms es)
    (h' : scope.Evaluates entered (p.after es) ns' ms' es') :
    scope.Evaluates entered p (ns ++ ns') (ms ++ ms') (es ++ es') := by
  induction h with
  | nil => exact h'
  | composite hn hparts _ _ ih =>
    rw [Progress.after_append] at h'
    have hall := composite hn hparts (ih h')
    rw [List.append_assoc]
    exact hall
  | answer hanswer _ ih => exact answer hanswer (ih h')
  | enter hcell hb hid hr hvalue _ _ ih =>
    rw [Progress.after_append] at h'
    have hall := enter hcell hb hid hr hvalue (ih h')
    rw [List.append_assoc]
    exact hall

/-- A node is evaluated to a node. -/
theorem length_eq (h : scope.Evaluates entered p ns ms es) : ms.length = ns.length := by
  induction h with
  | nil => rfl
  | composite _ _ _ _ ih => rw [List.length_cons, List.length_cons, ih]
  | answer _ _ ih => rw [List.length_cons, List.length_cons, ih]
  | enter _ _ _ _ _ _ _ ih => rw [List.length_cons, List.length_cons, ih]

end Evaluates

/-! ### Agreement with evaluation -/

section Agreement

variable {scope : Scope} {entered : List RuleId} {p q o : Progress} {n m : Node}
  {ns ms : List Node} {es : List LookUp}

/-- Nodes are evaluated from the first on. -/
theorem run_evaluateAllWith_cons {lookUp : Variable → Evaluation Node}
    (hn : (n.evaluateWith lookUp).run p = .ok (m, q))
    (hns : (Node.evaluateAllWith lookUp ns).run q = .ok (ms, o)) :
    (Node.evaluateAllWith lookUp (n :: ns)).run p = .ok (m :: ms, o) := by
  rw [Node.evaluateAllWith, Evaluation.run_bind_of_eq_ok hn, Evaluation.run_bind_of_eq_ok hns]
  rfl

/-- A node alone is evaluated as a list of one. -/
theorem run_evaluateWith_of_singleton {lookUp : Variable → Evaluation Node}
    (h : (Node.evaluateAllWith lookUp [n]).run p = .ok ([m], q)) :
    (n.evaluateWith lookUp).run p = .ok (m, q) := by
  have hmap : Node.evaluateAllWith lookUp [n] = (fun m => [m]) <$> n.evaluateWith lookUp := by
    simp [Node.evaluateAllWith]
  rw [hmap] at h
  obtain ⟨m', hrun, hm⟩ := Evaluation.exists_of_run_map_eq_ok h
  rw [hrun, List.cons.inj hm |>.1]

/-- A reference that is answered on the spot. -/
theorem Answers.run {e : LookUp} (h : scope.Answers entered p e)
    (hnested : scope.Nested entered) :
    (scope.resolve entered e.reference).run p = .ok (e.value, p.record e) := by
  rw [resolve_eq hnested]
  cases h with
  | recalled hcell => rw [run_once_of_some hcell, Progress.record_of_full hcell]
  | undefined hcell hb => exact run_once_of_none hcell (run_settle_of_none _ p hb)
  | circular hcell hb hid => exact run_once_of_none hcell (run_settle_of_mem _ p hb hid)

/-- **What is derived is what evaluation gives.** -/
theorem Evaluates.run (h : scope.Evaluates entered p ns ms es) (hnested : scope.Nested entered) :
    (Node.evaluateAllWith (scope.resolve entered) ns).run p = .ok (ms, p.after es) := by
  induction h with
  | nil => rfl
  | composite hn _ _ ihparts ihrest =>
    rw [Progress.after_append]
    refine run_evaluateAllWith_cons ?_ (ihrest hnested)
    rw [Node.evaluateWith_of_not_isReference _ hn,
      Evaluation.run_map_of_eq_ok (ihparts hnested)]
  | answer h _ ih => exact run_evaluateAllWith_cons (h.run hnested) (ih hnested)
  | @enter entered p v id r m ns ks es fs hcell hb hid hr _ _ ihvalue ihrest =>
    rw [Progress.after_append]
    refine run_evaluateAllWith_cons ?_ (ihrest hnested)
    have hmem := ((binds_iff_of_binding? hb id).mpr rfl).mem_declarations
    have hvalue := run_evaluateWith_of_singleton (ihvalue (hnested.cons hmem hid))
    show (scope.resolve entered v).run p = _
    rw [resolve_eq hnested]
    exact run_once_of_none hcell ((run_settle_of_notMem _ p hb hid hr).trans hvalue)

/-- What is derived for a node is what evaluation gives for it. -/
theorem Evaluates.run_node (h : scope.Evaluates entered p [n] [m] es)
    (hnested : scope.Nested entered) :
    (n.evaluateWith (scope.resolve entered)).run p = .ok (m, p.after es) :=
  run_evaluateWith_of_singleton (h.run hnested)

/-- **What evaluation gives for the node can be derived**, while the declarations
are entered. -/
def Derives (scope : Scope) (entered : List RuleId) (n : Node) : Prop :=
  ∀ (p q : Progress) (m : Node), (n.evaluateWith (scope.resolve entered)).run p = .ok (m, q) →
    ∃ es, scope.Evaluates entered p [n] [m] es ∧ p.after es = q

/-- What evaluation gives for nodes can be derived if it can for each of them. -/
theorem exists_evaluates_of_forall (h : ∀ n ∈ ns, scope.Derives entered n)
    (hrun : (Node.evaluateAllWith (scope.resolve entered) ns).run p = .ok (ms, q)) :
    ∃ es, scope.Evaluates entered p ns ms es ∧ p.after es = q := by
  induction ns generalizing p ms with
  | nil =>
    obtain ⟨rfl, rfl⟩ :=
      Prod.mk.inj (Except.ok.inj (show Except.ok ([], p) = .ok (ms, q) from hrun))
    exact ⟨[], .nil, rfl⟩
  | cons n ns ih =>
    rw [Node.evaluateAllWith] at hrun
    obtain ⟨m, o, hn, hrun⟩ := Evaluation.exists_of_run_bind_eq_ok hrun
    obtain ⟨ks, o', hns, hrun⟩ := Evaluation.exists_of_run_bind_eq_ok hrun
    obtain ⟨rfl, rfl⟩ :=
      Prod.mk.inj (Except.ok.inj (show Except.ok (m :: ks, o') = .ok (ms, q) from hrun))
    obtain ⟨es, hes, rfl⟩ := h n List.mem_cons_self p o m hn
    obtain ⟨fs, hfs, rfl⟩ := ih (fun k hk => h k (List.mem_cons_of_mem _ hk)) hns
    exact ⟨es ++ fs, hes.append hfs, Progress.after_append p es fs⟩

/-- What evaluation gives for a node can be derived if it can for its
references. -/
theorem derives_of_references (h : ∀ v ∈ n.references, scope.Derives entered (.variable v)) :
    scope.Derives entered n := by
  induction n using Node.partInduction with
  | reference v => exact h v (by simp [Node.references])
  | composite n hn ih =>
    intro p q m hrun
    rw [Node.evaluateWith_of_not_isReference _ hn] at hrun
    obtain ⟨ms, hms, rfl⟩ := Evaluation.exists_of_run_map_eq_ok hrun
    obtain ⟨es, hes, rfl⟩ := exists_evaluates_of_forall
      (fun k hk => ih k hk fun v hv => h v (Node.mem_references_of_mem_parts hk hv)) hms
    exact ⟨es ++ [], .composite hn hes .nil, by rw [List.append_nil]⟩

/-- **What a look-up gives can be derived.**

The references of the declaration that is entered come first. They are not
smaller than the reference, but fewer declarations are left to be entered. -/
theorem derives_reference {entered : List RuleId} (hnested : scope.Nested entered)
    (v : Variable) : scope.Derives entered (.variable v) := by
  intro p q m hrun
  replace hrun : (scope.resolve entered v).run p = .ok (m, q) := hrun
  rw [resolve_eq hnested] at hrun
  cases hcell : p.memos.get? v.cell with
  | some n =>
    rw [run_once_of_some hcell] at hrun
    obtain ⟨rfl, rfl⟩ := Prod.mk.inj (Except.ok.inj hrun)
    exact ⟨_, .answer (.recalled hcell) .nil, Progress.record_of_full hcell⟩
  | none =>
    obtain ⟨o, hsettle, rfl⟩ := exists_run_settle_of_run_once hcell hrun
    obtain ⟨b, hb⟩ := exists_binding?_of_run_settle _ p hsettle
    cases b with
    | none =>
      rw [run_settle_of_none _ p hb] at hsettle
      obtain ⟨rfl, rfl⟩ := Prod.mk.inj (Except.ok.inj hsettle)
      exact ⟨_, .answer (.undefined hcell hb) .nil, rfl⟩
    | some id =>
      by_cases hin : id ∈ entered
      · rw [run_settle_of_mem _ p hb hin] at hsettle
        obtain ⟨rfl, rfl⟩ := Prod.mk.inj (Except.ok.inj hsettle)
        exact ⟨_, .answer (.circular hcell hb hin) .nil, rfl⟩
      · have hid : scope.Binds v.name id := (binds_iff_of_binding? hb id).mpr rfl
        obtain ⟨r, hr⟩ := hid.exists_rule
        rw [run_settle_of_notMem _ p hb hin hr] at hsettle
        have hfewer := hnested.length_lt hid.mem_declarations hin
        have hvalue : scope.Derives (id :: entered) r.value.node := derives_of_references
          fun w _ => derives_reference (hnested.cons hid.mem_declarations hin) w
        obtain ⟨es, hes, rfl⟩ := hvalue p o m hsettle
        refine ⟨_, .enter hcell hb hin hr hes .nil, ?_⟩
        rw [Progress.after_append]
        rfl
termination_by scope.declarations.length - entered.length
decreasing_by
  rw [List.length_cons]
  omega

/-- **Evaluation gives what can be derived, and nothing else.** -/
theorem run_eq_ok_iff (hnested : scope.Nested entered) :
    (n.evaluateWith (scope.resolve entered)).run p = .ok (m, q) ↔
      ∃ es, scope.Evaluates entered p [n] [m] es ∧ p.after es = q := by
  constructor
  · exact derives_of_references (fun v _ => derives_reference hnested v) p q m
  · rintro ⟨es, hes, rfl⟩
    exact hes.run_node hnested

/-- **Evaluation makes progress.** -/
theorem le_of_run (hnested : scope.Nested entered)
    (h : (n.evaluateWith (scope.resolve entered)).run p = .ok (m, q)) : p ≤ q := by
  obtain ⟨es, -, rfl⟩ := (run_eq_ok_iff hnested).mp h
  exact p.le_after es

end Agreement

end Scope

end MapStyle
