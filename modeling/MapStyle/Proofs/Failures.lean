import MapStyle.Proofs.Keeping
import MapStyle.Proofs.NormalForm
import MapStyle.Proofs.Writing

/-!
# Failures are reported once

A reference that cannot be resolved is reported, and stands for `Node.undefined`.
Checking a value does not complain about that again, and neither does anything
that meets it in a cell later on: each relies on the report having been made, in
this evaluation or in one long before.

In a pass whatever is evaluated is evaluated with the same cells, so that can be
said of the pass as a whole (`Session.unresolved_reported_once`): as long as no
report was made, neither the cells nor the values hold `Node.undefined`; and a
reference is reported while its cell is empty, which the report brings to an end,
so no reference is reported twice.
-/

namespace MapStyle

/-! ## Reports of references -/

/-- **Whether a diagnostic is about a reference that could not be resolved**: an error
that it has no declaration, or one that leads back to itself. -/
def Diagnostic.isUnresolved (d : Diagnostic) : Bool :=
  d.isError && (d.problem = .undefinedVariable || d.problem = .circularVariable)

/-- Checking a declaration finds nothing about references. -/
theorem Rule.isUnresolved_of_mem_findings {schema : Schema} {settings : Settings}
    {tables : ValidationTables} {r : Rule} {d : Diagnostic}
    (h : d ∈ (r.check schema settings tables).findings) : d.isUnresolved = false := by
  have hstatus : ∀ d ∈ r.statusReports schema, d.isUnresolved = false := by
    intro d hd
    rw [Diagnostic.isUnresolved, isError_of_mem_statusReports schema r hd, Bool.false_and]
  unfold check at h
  split at h
  · rw [List.mem_singleton.mp h, unrecognizedReport]
    split <;> rfl
  · split at h
    · exact hstatus d h
    · rcases List.mem_append.mp h with h | h
      · exact hstatus d h
      · rw [List.mem_singleton.mp h, invalidReport]
        split <;> rfl

/-- **What is wrong with a filter** are words and operands that it may not have, and that is an
error. -/
theorem Filter.problem_of_mem_findings {keywords : Option (List String)} {f : Filter}
    {d : Diagnostic} (h : d ∈ f.findings keywords) : d.isError = true ∧
      (d.problem = .invalidFilterKeyword ∨ d.problem = .invalidFilterOperand) := by
  rcases List.mem_append.mp h with h | h
  · unfold keywordReports at h
    split at h
    · exact absurd h List.not_mem_nil
    · obtain ⟨n, -, rfl⟩ := List.mem_map.mp h
      exact ⟨rfl, .inl rfl⟩
  · split at h
    · exact absurd h List.not_mem_nil
    · rw [List.mem_singleton.mp h]
      exact ⟨rfl, .inr rfl⟩

/-- So it is not about references. -/
theorem Filter.isUnresolved_of_mem_findings {keywords : Option (List String)} {f : Filter}
    {d : Diagnostic} (h : d ∈ f.findings keywords) : d.isUnresolved = false := by
  unfold Diagnostic.isUnresolved
  rcases (problem_of_mem_findings h).2 with hproblem | hproblem
  · simp [hproblem]
  · simp [hproblem]

/-- What a request finds about its node is not about references. -/
theorem Request.isUnresolved_of_mem_findings {request : Request} {m : Node} {d : Diagnostic}
    (h : d ∈ request.findings m) : d.isUnresolved = false := by
  unfold findings at h
  split at h
  · exact Filter.isUnresolved_of_mem_findings h
  · exact absurd h List.not_mem_nil

namespace Log

/-- **What a log says about references that could not be resolved.** -/
def unresolved (log : Log) : List Diagnostic := log.entries.filter (·.isUnresolved)

/-- No log drops an error, so none drops a report of a reference. -/
theorem unresolved_reportAll (log : Log) (ds : List Diagnostic) :
    (log.reportAll ds).unresolved = log.unresolved ++ ds.filter (·.isUnresolved) := by
  rw [unresolved, entries_reportAll, List.filter_append, List.filter_filter]
  refine congrArg (log.unresolved ++ ·) (List.filter_congr fun d _ => ?_)
  cases hd : d.isUnresolved with
  | false => rfl
  | true =>
    rw [takes, (Bool.and_eq_true_iff.mp hd).1, Bool.or_true, Bool.and_self]

/-- Reports about other things leave it as it is. -/
theorem unresolved_reportAll_of_forall {log : Log} {ds : List Diagnostic}
    (h : ∀ d ∈ ds, d.isUnresolved = false) : (log.reportAll ds).unresolved = log.unresolved := by
  rw [unresolved_reportAll, List.filter_eq_nil_iff.mpr fun d hd => by simp [h d hd],
    List.append_nil]

end Log

/-! ## Look-ups that report -/

namespace LookUp

/-- **A report was made** in the course of an evaluation. -/
def Reported (es : List LookUp) : Prop := ∃ e ∈ es, e.report?.isSome

/-- **Every report is about the reference that was looked up**, and was made while its
cell was empty. -/
def Orderly : Memos → List LookUp → Prop
  | _, [] => True
  | m, e :: es =>
    (∀ d, e.report? = some d → m.get? e.reference.cell = none ∧
      (d = e.reference.undefinedReport ∨ d = e.reference.circularReport)) ∧
    Orderly (m.fill e.reference.cell e.value) es

/-- Look-ups are orderly if the first ones are, and then the others. -/
theorem orderly_append {p : Progress} {es fs : List LookUp} :
    Orderly p.memos (es ++ fs) ↔ Orderly p.memos es ∧ Orderly (p.after es).memos fs := by
  induction es generalizing p with
  | nil => simp [Orderly]
  | cons e es ih =>
    rw [List.cons_append, Orderly, Orderly, ← Progress.memos_record, ih, and_assoc,
      Progress.after_cons]

section

variable {m : Memos} {es : List LookUp}

/-- The reports are about the references that were looked up. -/
theorem Orderly.report_eq (h : Orderly m es) {e : LookUp} (he : e ∈ es) {d : Diagnostic}
    (hd : e.report? = some d) :
    d = e.reference.undefinedReport ∨ d = e.reference.circularReport := by
  induction es generalizing m with
  | nil => exact absurd he List.not_mem_nil
  | cons f es ih =>
    rcases List.mem_cons.mp he with rfl | he
    · exact (h.1 d hd).2
    · exact ih h.2 he

/-- **The cell of a reference that is reported is empty to begin with.** -/
theorem Orderly.get?_of_report (h : Orderly m es) {e : LookUp} (he : e ∈ es)
    (hreport : e.report?.isSome) : m.get? e.reference.cell = none := by
  induction es generalizing m with
  | nil => exact absurd he List.not_mem_nil
  | cons f es ih =>
    rcases List.mem_cons.mp he with rfl | he
    · obtain ⟨d, hd⟩ := Option.isSome_iff_exists.mp hreport
      exact (h.1 d hd).1
    · have hlater := ih h.2 he
      rw [Option.eq_none_iff_forall_not_mem] at hlater ⊢
      exact fun n hn => hlater n ((m.le_fill f.reference.cell f.value).2 _ n hn)

/-- **No reference is reported twice**, where each has a cell of its own. -/
theorem Orderly.nodup (h : Orderly m es) {vs : List Variable} (hhoused : Housed 0 m.next vs)
    (hmem : ∀ e ∈ es, e.reference ∈ vs) :
    ((es.filter (·.report?.isSome)).map (·.reference)).Nodup := by
  induction es generalizing m with
  | nil => exact List.nodup_nil
  | cons e es ih =>
    have hrest := ih h.2 (by rw [Memos.next_fill]; exact hhoused)
      fun f hf => hmem f (List.mem_cons_of_mem _ hf)
    cases he : e.report? with
    | none => rwa [List.filter_cons_of_neg (by simp [he])]
    | some d =>
      rw [List.filter_cons_of_pos (by simp [he]), List.map_cons]
      refine List.nodup_cons.mpr ⟨fun hagain => ?_, hrest⟩
      obtain ⟨f, hf, hfe⟩ := List.mem_map.mp hagain
      obtain ⟨hf, hreport⟩ := List.mem_filter.mp hf
      obtain ⟨c, hc, -, hlt⟩ := hhoused.range _ (hmem e List.mem_cons_self)
      -- the cell is full from the first report on
      have hfull : (m.fill e.reference.cell e.value).get? e.reference.cell = some e.value := by
        have hempty := (h.1 d he).1
        rw [hc] at hempty ⊢
        exact Memos.get?_fill_self hlt hempty e.value
      have hempty := h.2.get?_of_report hf hreport
      rw [hfe, hfull] at hempty
      exact Option.some_ne_none _ hempty

end

end LookUp

namespace Scope.Evaluates

variable {scope : Scope} {entered : List RuleId} {p : Progress} {ns ms : List Node}
  {es : List LookUp}

/-- **Evaluation reports in an orderly way.** -/
theorem orderly (h : scope.Evaluates entered p ns ms es) : LookUp.Orderly p.memos es := by
  induction h with
  | nil => trivial
  | composite _ _ _ ihparts ihrest => exact LookUp.orderly_append.mpr ⟨ihparts, ihrest⟩
  | answer hanswer _ ih =>
    rw [Progress.memos_record] at ih
    refine ⟨fun d hd => ?_, ih⟩
    cases hanswer with
    | recalled => cases hd
    | undefined hempty => exact ⟨hempty, Or.inl (Option.some.inj hd).symm⟩
    | circular hempty => exact ⟨hempty, Or.inr (Option.some.inj hd).symm⟩
  | enter _ _ _ _ _ _ ihvalue ihrest =>
    rw [Progress.memos_record] at ihrest
    exact LookUp.orderly_append.mpr
      ⟨ihvalue, fun d hd => absurd hd (Option.some_ne_none d).symm, ihrest⟩

end Scope.Evaluates

/-! ## What stands for `Node.undefined` -/

namespace Node

/-- A node is put together with `Node.undefined` in it only if it was there, in the
node or in one of the parts. -/
theorem contains_undefined_of_rebuild {n : Node} {ms : List Node} (hn : ¬n.IsReference)
    (hlength : ms.length = n.parts.length) (h : (n.rebuild ms).Contains .undefined) :
    n.Contains .undefined ∨ ∃ m ∈ ms, m.Contains .undefined := by
  rcases rebuild_cases hn hlength with hmem | ⟨hparts, -, -, hundefined⟩
  · exact Or.inr ⟨_, hmem, h⟩
  · rcases contains_iff.mp h with h | ⟨m, hm, h⟩
    · exact Or.inl (hundefined h ▸ .refl _)
    · rw [hparts] at hm
      exact Or.inr ⟨m, hm, h⟩

/-- What the value of a node contains, the node contains. -/
theorem contains_undefined_of_ofNode {n : Node} (h : (Value.ofNode n).node.Contains .undefined) :
    n.Contains .undefined := by
  rcases node_ofNode n with hnode | hnode
  · rwa [hnode] at h
  · rw [hnode] at h
    rcases contains_iff.mp h with h | ⟨m, hm, h⟩
    · cases h
    · rwa [List.mem_singleton.mp hm] at h

/-- **What may come out of an evaluation**: a node in normal form, with `Node.undefined`
in it only if a report was made. -/
structure Accounted (reported : Prop) (n : Node) : Prop where
  isNormal : n.IsNormal
  of_contains : n.Contains .undefined → reported

/-- **What may be evaluated**: a node whose references are those of the stylesheet,
with `Node.undefined` in it only if a report was made. -/
structure Evaluable (sheet : Stylesheet) (reported : Prop) (n : Node) : Prop where
  mem_references : ∀ v ∈ n.references, v ∈ sheet.references
  of_contains : n.Contains .undefined → reported

variable {sheet : Stylesheet} {reported reported' : Prop} {n : Node}

theorem Accounted.mono (h : n.Accounted reported) (himp : reported → reported') :
    n.Accounted reported' := ⟨h.isNormal, fun hn => himp (h.of_contains hn)⟩

theorem Evaluable.mono (h : n.Evaluable sheet reported) (himp : reported → reported') :
    n.Evaluable sheet reported' := ⟨h.mem_references, fun hn => himp (h.of_contains hn)⟩

/-- The value of what came out may be evaluated again. -/
theorem Accounted.evaluable_ofNode (h : n.Accounted reported) :
    (Value.ofNode n).node.Evaluable sheet reported := by
  refine ⟨fun v hv => ?_, fun hn => h.of_contains (contains_undefined_of_ofNode hn)⟩
  have hnone := references_of_isNormal h.isNormal
  rcases node_ofNode n with hnode | hnode
  · rw [hnode, hnone] at hv
    exact absurd hv List.not_mem_nil
  · rw [hnode, references_of_not_isReference id] at hv
    simp [parts, hnone] at hv

end Node

/-- **`Node.undefined` is written nowhere** in the stylesheet. -/
structure Stylesheet.IsPlain (sheet : Stylesheet) : Prop where
  rules : ∀ r ∈ sheet.rules, ¬r.value.node.Contains .undefined
  filters : ∀ f ∈ sheet.filters, ¬f.toNode.Contains .undefined

/-- What is asked of such a stylesheet may be evaluated. -/
theorem Stylesheet.IsPlain.evaluable {sheet : Stylesheet} (h : sheet.IsPlain) {request : Request}
    (hrequest : request.IsOf sheet) (reported : Prop) :
    request.node.Evaluable sheet reported := by
  refine ⟨fun v hv => Request.mem_references hrequest hv, fun hn => ?_⟩
  cases request with
  | rule r => exact absurd hn (h.rules r hrequest)
  | filter f => exact absurd hn (h.filters f hrequest)
  | writing _ f => exact absurd hn (h.filters f hrequest)

/-- **Where nothing was reported, `Node.undefined` does not come out**, nor is it left
in a cell. -/
theorem Scope.Evaluates.accounted {scope : Scope} {entered : List RuleId} {p : Progress}
    {ns ms : List Node} {es : List LookUp} (h : scope.Evaluates entered p ns ms es)
    (hplain : scope.sheet.IsPlain) {reported : Prop} (hreported : LookUp.Reported es → reported)
    (hns : ∀ n ∈ ns, n.Evaluable scope.sheet reported)
    (hp : scope.sheet.Holds (fun _ n => n.Accounted reported) p.memos) :
    (∀ m ∈ ms, m.Accounted reported) ∧
      scope.sheet.Holds (fun _ n => n.Accounted reported) (p.after es).memos := by
  have hvariable : ∀ v, (Node.variable v).Evaluable scope.sheet reported ↔
      v ∈ scope.sheet.references := by
    intro v
    refine ⟨fun hv => hv.mem_references v List.mem_cons_self, fun hv => ⟨?_, fun h => ?_⟩⟩
    · intro w hw
      rwa [List.mem_singleton.mp (show w ∈ [v] from hw)]
    · rcases Node.contains_iff.mp h with h | ⟨m, hm, -⟩
      · cases h
      · exact absurd hm List.not_mem_nil
  have hparts : ∀ n : Node, n.Evaluable scope.sheet reported →
      ∀ m ∈ n.parts, m.Evaluable scope.sheet reported := fun n hn m hm =>
    ⟨fun v hv => hn.mem_references v (Node.mem_references_of_mem_parts hm hv),
      fun h => hn.of_contains (Node.contains_of_mem_parts hm h)⟩
  have henter : ∀ (v : Variable) (id : RuleId) (r : Rule),
      (Node.variable v).Evaluable scope.sheet reported → scope.Binds v.name id →
      scope.sheet.rules[id.index]? = some r → r.value.node.Evaluable scope.sheet reported := by
    intro v id r _ _ hr
    have hmem := List.mem_of_getElem? hr
    exact ⟨fun w hw => Stylesheet.mem_references_of_rule hmem hw,
      fun h => absurd h (hplain.rules r hmem)⟩
  have hrebuild : ∀ (n : Node) (ms : List Node), n.Evaluable scope.sheet reported →
      ¬n.IsReference → ms.length = n.parts.length → (∀ m ∈ ms, m.Accounted reported) →
      (n.rebuild ms).Accounted reported := by
    intro n ms hn hreference hlength hms
    refine ⟨Node.isNormal_rebuild hreference hlength fun m hm => (hms m hm).isNormal, fun h => ?_⟩
    rcases Node.contains_undefined_of_rebuild hreference hlength h with h | ⟨m, hm, h⟩
    · exact hn.of_contains h
    · exact (hms m hm).of_contains h
  obtain ⟨hms, hcells⟩ := h.forall_value hparts henter hrebuild hns
    (fun e he hreport => ⟨Node.isNormal_undefined, fun _ => hreported ⟨e, he, hreport⟩⟩)
    (fun v hv => hp v ((hvariable v).mp hv))
  exact ⟨hms, fun v hv => hcells v ((hvariable v).mpr hv)⟩

/-! ## What comes up in a pass -/

/-- What an answer has of the evaluated node. -/
def Answer.Shows (m : Node) : Answer → Prop
  | .rule r => r.value = .ofNode m
  | .filter f => f.toNode = m
  | .text _ => True

/-- **The answer shows the evaluated node.** -/
theorem Request.shows_answer {scope : Scope} {request : Request} {p q o : Progress} {m : Node}
    {a : Answer} (hm : (request.node.evaluate scope).run p = .ok (m, o))
    (ha : (request.answer scope).run p = .ok (a, q)) : a.Shows m := by
  cases request with
  | rule r =>
    rw [Request.run_answer _ hm] at ha
    obtain ⟨rfl, -⟩ := Prod.mk.inj (Except.ok.inj ha)
    exact rfl
  | filter f =>
    obtain ⟨g, hg, rfl⟩ := Evaluation.exists_of_run_map_eq_ok ha
    have hnode := Filter.run_evaluate_eq_ok_iff.mp hg
    exact (Prod.mk.inj (Except.ok.inj (hnode.symm.trans hm))).1
  | writing keywords f =>
    obtain ⟨text, -, rfl⟩ := Evaluation.exists_of_run_map_eq_ok ha
    trivial

namespace Session

/-- **What may be asked in a session**: about a rule or a filter of the stylesheet, or
about a rule that was evaluated already. -/
def Allows (s : Session) (answers : List (Answer × Node)) (request : Request) : Prop :=
  request.IsOf s.sheet ∨ ∃ r m, request = .rule r ∧ (Answer.rule r, m) ∈ answers

/-- **What a session comes to** while declarations are brought into scope and taken out,
rules and filters are evaluated, and rules are checked and written: the answers
with the evaluated nodes, the last one first, and the look-ups in the order in
which they ended. -/
inductive Reaches (start : Session) :
    List (Answer × Node) → List LookUp → Session → Prop
  | start : Reaches start [] [] start
  | push {answers : List (Answer × Node)} {course : List LookUp} {s : Session}
      (h : Reaches start answers course s) (ids : List RuleId) :
      Reaches start answers course { s with pass := s.pass.push ids }
  | pop {answers : List (Answer × Node)} {course : List LookUp} {s : Session}
      (h : Reaches start answers course s) :
      Reaches start answers course { s with pass := s.pass.pop.2 }
  | truncate {answers : List (Answer × Node)} {course : List LookUp} {s : Session}
      (h : Reaches start answers course s) (size : ℕ) :
      Reaches start answers course { s with pass := s.pass.truncate size }
  | answer {answers : List (Answer × Node)} {course es : List LookUp} {s s' : Session}
      {request : Request} {a : Answer} {m : Node} (h : Reaches start answers course s)
      (hrequest : s.Allows answers request)
      (hes : (Scope.mk s.sheet s.pass.frames).Evaluates [] ⟨s.memos, s.pass.log⟩
        [request.node] [m] es)
      (hrun : (evaluate fun scope => request.answer scope).run s = .ok (a, s')) :
      Reaches start ((a, m) :: answers) (course ++ es) s'
  | validate {answers : List (Answer × Node)} {course : List LookUp} {s s' : Session}
      {schema : Schema} {r : Rule} {accepted : Bool} (h : Reaches start answers course s)
      (hrun : (validate schema r).run s = .ok (accepted, s')) : Reaches start answers course s'
  | write {answers : List (Answer × Node)} {course : List LookUp} {s s' : Session}
      {schema : Schema} {form : Pass.Form} {r : Rule} {text : String}
      (h : Reaches start answers course s)
      (hrun : (write schema form r).run s = .ok (text, s')) : Reaches start answers course s'

/-- **What is known at any time of a session**: the cells are what the look-ups left,
which were orderly, all that was said about references are their reports, and
nothing has `Node.undefined` in it unless there was one. -/
structure Traced (start : Session) (answers : List (Answer × Node)) (course : List LookUp)
    (s : Session) : Prop where
  sheet : s.sheet = start.sheet
  memos : s.memos = ((Progress.mk start.memos start.pass.log).after course).memos
  log : s.pass.log.unresolved = start.pass.log.unresolved ++ course.filterMap (·.report?)
  orderly : LookUp.Orderly start.memos course
  reference_mem : ∀ e ∈ course, e.reference ∈ start.sheet.references
  cells : start.sheet.Holds (fun _ n => n.Accounted (LookUp.Reported course)) s.memos
  answers : ∀ a m, (a, m) ∈ answers → a.Shows m ∧ m.Accounted (LookUp.Reported course)

variable {start s s' : Session} {answers : List (Answer × Node)} {course : List LookUp}

/-- It is known at the start, when nothing was evaluated yet. -/
theorem traced_start (hempty : ∀ v ∈ start.sheet.references, start.memos.get? v.cell = none) :
    start.Traced [] [] start where
  sheet := rfl
  memos := rfl
  log := (List.append_nil _).symm
  orderly := trivial
  reference_mem _ he := absurd he List.not_mem_nil
  cells := Stylesheet.holds_of_empty hempty
  answers _ _ h := absurd h List.not_mem_nil

/-- What is done to the pass alone, without a report about references, leaves it
known. -/
theorem Traced.onPass (h : start.Traced answers course s) {pass : Pass}
    (hlog : pass.log.unresolved = s.pass.log.unresolved) :
    start.Traced answers course { s with pass } :=
  ⟨h.sheet, h.memos, hlog.trans h.log, h.orderly, h.reference_mem, h.cells, h.answers⟩

/-- What may be asked may be evaluated. -/
theorem Traced.evaluable (h : start.Traced answers course s) (hplain : start.sheet.IsPlain)
    {request : Request} (hrequest : s.Allows answers request) :
    request.node.Evaluable start.sheet (LookUp.Reported course) := by
  rcases hrequest with hrequest | ⟨r, m, rfl, hr⟩
  · exact hplain.evaluable (h.sheet ▸ hrequest) _
  · obtain ⟨hshows, hm⟩ := h.answers _ m hr
    rw [Request.node, show r.value = .ofNode m from hshows]
    exact hm.evaluable_ofNode

/-- **An answer leaves it known.** -/
theorem Traced.answer (h : start.Traced answers course s) (hplain : start.sheet.IsPlain)
    {request : Request} (hrequest : s.Allows answers request) {a : Answer} {m : Node}
    {es : List LookUp}
    (hes : (Scope.mk s.sheet s.pass.frames).Evaluates [] ⟨s.memos, s.pass.log⟩
      [request.node] [m] es)
    (hrun : (evaluate fun scope => request.answer scope).run s = .ok (a, s')) :
    start.Traced ((a, m) :: answers) (course ++ es) s' := by
  have hevaluable := h.evaluable hplain hrequest
  obtain ⟨sheet, memos, pass⟩ := s
  obtain rfl : sheet = start.sheet := h.sheet
  have hnode := hes.run_node .nil
  obtain ⟨q, ha, rfl⟩ := run_evaluate_eq_ok_iff.mp hrun
  have hshows := Request.shows_answer hnode ha
  rw [request.run_answer hnode] at ha
  obtain ⟨-, rfl⟩ := Prod.mk.inj (Except.ok.inj ha)
  have hmore : LookUp.Reported course → LookUp.Reported (course ++ es) :=
    fun ⟨e, he, hreport⟩ => ⟨e, List.mem_append_left _ he, hreport⟩
  have hlater : LookUp.Reported es → LookUp.Reported (course ++ es) :=
    fun ⟨e, he, hreport⟩ => ⟨e, List.mem_append_right _ he, hreport⟩
  have horderly := hes.orderly
  obtain ⟨hm, hcells⟩ := hes.accounted hplain hlater
    (List.forall_mem_singleton.mpr (hevaluable.mono hmore))
    (fun v hv n hn => (h.cells v hv n hn).mono hmore)
  have hmemos := Progress.memos_after_congr (p := ⟨memos, pass.log⟩) h.memos es
  have hreports : (es.filterMap (·.report?)).filter (·.isUnresolved)
      = es.filterMap (·.report?) := by
    refine List.filter_eq_self.mpr fun d hd => ?_
    obtain ⟨e, he, hed⟩ := List.mem_filterMap.mp hd
    rcases horderly.report_eq he hed with rfl | rfl <;> rfl
  constructor
  · rfl
  · rw [Progress.after_append]
    exact hmemos
  · show ((Progress.after _ es).log.reportAll (request.findings m)).unresolved = _
    rw [Log.unresolved_reportAll_of_forall fun d hd => Request.isUnresolved_of_mem_findings hd,
      Progress.log_after, Log.unresolved_reportAll, hreports, List.filterMap_append,
      ← List.append_assoc]
    exact congrArg (· ++ _) h.log
  · refine (LookUp.orderly_append (p := ⟨start.memos, start.pass.log⟩)).mpr ⟨h.orderly, ?_⟩
    rw [← h.memos]
    exact horderly
  · intro e he
    rcases List.mem_append.mp he with he | he
    · exact h.reference_mem e he
    · exact hes.reference_mem (List.forall_mem_singleton.mpr hevaluable.mem_references) e he
  · exact hcells
  · intro b k hbk
    rcases List.mem_cons.mp hbk with hbk | hbk
    · obtain ⟨rfl, rfl⟩ := Prod.mk.inj hbk
      exact ⟨hshows, hm _ List.mem_cons_self⟩
    · obtain ⟨hb, hk⟩ := h.answers b k hbk
      exact ⟨hb, hk.mono hmore⟩

/-- **Whatever a session comes to is known.** -/
theorem Reaches.traced (h : start.Reaches answers course s)
    (hempty : ∀ v ∈ start.sheet.references, start.memos.get? v.cell = none)
    (hplain : start.sheet.IsPlain) : start.Traced answers course s := by
  induction h with
  | start => exact traced_start hempty
  | push _ _ ih | pop _ ih | truncate _ _ ih => exact ih.onPass rfl
  | answer _ hrequest hes hrun ih => exact ih.answer hplain hrequest hes hrun
  | validate _ hrun ih =>
    obtain ⟨-, rfl⟩ := Prod.mk.inj (Except.ok.inj hrun)
    exact ih.onPass (Log.unresolved_reportAll_of_forall fun d hd =>
      Rule.isUnresolved_of_mem_findings hd)
  | write _ hrun ih =>
    rw [run_write] at hrun
    obtain ⟨-, rfl⟩ := Prod.mk.inj (Except.ok.inj hrun)
    refine ih.onPass ?_
    rw [Pass.log_write]
    exact Log.unresolved_reportAll_of_forall fun d hd => Rule.isUnresolved_of_mem_findings hd

/-- What was evaluated is the answer's node. -/
theorem Reaches.exists_of_evaluates (h : start.Reaches answers course s) {request : Request}
    (hrequest : s.Allows answers request) {m : Node} {es : List LookUp}
    (hes : (Scope.mk s.sheet s.pass.frames).Evaluates [] ⟨s.memos, s.pass.log⟩
      [request.node] [m] es) :
    ∃ a s', (evaluate fun scope => request.answer scope).run s = .ok (a, s') ∧
      start.Reaches ((a, m) :: answers) (course ++ es) s' := by
  have hrun := (run_evaluate_eq_ok_iff (f := fun scope => request.answer scope)).mpr
    ⟨_, request.run_answer (hes.run_node .nil), rfl⟩
  exact ⟨_, _, hrun, h.answer hrequest hes hrun⟩

/-- **Whatever may be asked is answered.** -/
theorem Reaches.exists_answer (h : start.Reaches answers course s)
    (hbuilt : start.sheet.Built start.memos)
    (hempty : ∀ v ∈ start.sheet.references, start.memos.get? v.cell = none)
    (hplain : start.sheet.IsPlain) {request : Request} (hrequest : s.Allows answers request) :
    ∃ a m es s', (evaluate fun scope => request.answer scope).run s = .ok (a, s') ∧
      start.Reaches ((a, m) :: answers) (course ++ es) s' := by
  have htraced := h.traced hempty hplain
  have hevaluable := htraced.evaluable hplain hrequest
  have hlinked : (Scope.mk s.sheet s.pass.frames).sheet.Linked := htraced.sheet ▸ hbuilt.linked
  obtain ⟨m, q, hm, -⟩ := (Scope.knowing _ hlinked).ends_evaluateWith .nil
    (fun v hv => hlinked.knows_owner (htraced.sheet ▸ hevaluable.mem_references v hv))
    (p := ⟨s.memos, s.pass.log⟩) trivial
  obtain ⟨es, hes, -⟩ := (Scope.run_eq_ok_iff .nil).mp hm
  obtain ⟨a, s', hanswer⟩ := h.exists_of_evaluates hrequest hes
  exact ⟨a, m, es, s', hanswer⟩

/-- **No reference fails to be resolved without a report, and none is reported
twice.** A session starts with a stylesheet built with its own handles, with all
cells empty and `Node.undefined` written nowhere in it. Declarations are brought
into scope and taken out, rules and filters of the stylesheet are evaluated, and
rules that were evaluated already, and rules are checked and written, in any
order. Whenever an evaluated node contains `Node.undefined`, at any depth, the log
holds an error about a reference that could not be resolved. The errors of this
kind that were added are those that the look-ups reported, each about the
reference that was looked up, which is one of the stylesheet; and no reference is
reported more than once in the whole session. Whatever may be asked next is
answered. -/
theorem unresolved_reported_once (start : Session) (hbuilt : start.sheet.Built start.memos)
    (hempty : ∀ v ∈ start.sheet.references, start.memos.get? v.cell = none)
    (hplain : start.sheet.IsPlain) {answers : List (Answer × Node)} {course : List LookUp}
    {s : Session} (h : start.Reaches answers course s) :
    (∀ a m, (a, m) ∈ answers → a.Shows m ∧ (m.Contains .undefined →
      ∃ d ∈ s.pass.log.entries, d.isError = true ∧
        (d.problem = .undefinedVariable ∨ d.problem = .circularVariable))) ∧
    s.pass.log.unresolved = start.pass.log.unresolved ++ course.filterMap (·.report?) ∧
    (∀ e ∈ course, e.reference ∈ start.sheet.references ∧ ∀ d, e.report? = some d →
      d = e.reference.undefinedReport ∨ d = e.reference.circularReport) ∧
    ((course.filter (·.report?.isSome)).map (·.reference)).Nodup ∧
    ∀ request, s.Allows answers request →
      ∃ a m es s', (evaluate fun scope => request.answer scope).run s = .ok (a, s') ∧
        start.Reaches ((a, m) :: answers) (course ++ es) s' := by
  have htraced := h.traced hempty hplain
  refine ⟨fun a m ham => ?_, htraced.log, fun e he => ⟨htraced.reference_mem e he,
    fun d hd => htraced.orderly.report_eq he hd⟩,
    htraced.orderly.nodup hbuilt.housed htraced.reference_mem,
    fun request hrequest => h.exists_answer hbuilt hempty hplain hrequest⟩
  obtain ⟨hshows, hm⟩ := htraced.answers a m ham
  refine ⟨hshows, fun hundefined => ?_⟩
  obtain ⟨e, he, hreport⟩ := hm.of_contains hundefined
  obtain ⟨d, hd⟩ := Option.isSome_iff_exists.mp hreport
  have hmem : d ∈ s.pass.log.unresolved := by
    rw [htraced.log]
    exact List.mem_append_right _ (List.mem_filterMap.mpr ⟨e, he, hd⟩)
  refine ⟨d, (List.mem_filter.mp hmem).1, ?_⟩
  rcases htraced.orderly.report_eq he hd with rfl | rfl
  · exact ⟨rfl, Or.inl rfl⟩
  · exact ⟨rfl, Or.inr rfl⟩

/-- `line-width: @nope` is evaluated twice, and reported once. -/
theorem nope_is_reported_once :
    ∃ (r : Rule) (a b : Answer) (n : Node) (v : Variable) (es : List LookUp) (s : Session),
      Stylesheet.widths.rules[0]? = some r ∧
      ofWidths.Reaches [(b, n), (a, .undefined)]
        (⟨v, .undefined, some v.undefinedReport⟩ :: es) s ∧
      (∃ d ∈ s.pass.log.entries, d.isError = true ∧
        (d.problem = .undefinedVariable ∨ d.problem = .circularVariable)) ∧
      ∀ e ∈ es, e.report?.isSome → e.reference ≠ v := by
  let v : Variable := { Stylesheet.refer "@nope" with owner := some (.rule ⟨0⟩), cell := some 0 }
  obtain ⟨r, hr⟩ : ∃ r, Stylesheet.widths.rules[0]? = some r := ⟨_, rfl⟩
  have hnode : (Request.rule r).node = .value [.variable v] := by
    obtain rfl := Option.some.inj hr
    rfl
  have hrule : ofWidths.Allows [] (.rule r) := Or.inl (List.mem_of_getElem? hr)
  have hempty : ∀ w ∈ ofWidths.sheet.references, ofWidths.memos.get? w.cell = none := by
    intro w hw
    rw [List.mem_singleton.mp (show w ∈ [v] from hw)]
    rfl
  have hplain : ofWidths.sheet.IsPlain := by
    have hsingle : ∀ k : Node, k.parts = [] → k ≠ .undefined →
        ¬(Node.value [k]).Contains .undefined := by
      intro k hparts hk h
      rcases Node.contains_iff.mp h with h | ⟨m, hm, h⟩
      · cases h
      · rw [List.mem_singleton.mp hm, Node.contains_iff, hparts] at h
        simp [hk] at h
    refine ⟨fun r hr => ?_, fun f hf => absurd hf List.not_mem_nil⟩
    rcases List.mem_pair.mp hr with rfl | rfl
    · exact hsingle (.variable v) rfl Node.noConfusion
    · exact hsingle (.keyword "wide") rfl Node.noConfusion
  have hbinding : (Scope.mk .widths []).binding? v = .ok none := Scope.binding?_eq_none
    Stylesheet.built_widths.linked (show 0 < Stylesheet.widths.rules.length by decide)
    fun id hid => absurd hid.declares.1 List.not_mem_nil
  have hvalue : (Scope.mk .widths []).Evaluates [] ⟨ofWidths.memos, ofWidths.pass.log⟩
      [(Request.rule r).node] [.undefined] [⟨v, .undefined, some v.undefinedReport⟩] := by
    rw [hnode]
    exact .composite (n := .value [.variable v]) id (.answer (.undefined rfl hbinding) .nil) .nil
  obtain ⟨a, s, hrun, hfirst⟩ := Reaches.start.exists_of_evaluates hrule hvalue
  obtain ⟨p, -, rfl⟩ := run_evaluate_eq_ok_iff.mp hrun
  obtain ⟨-, -, -, -, hnext⟩ :=
    unresolved_reported_once ofWidths Stylesheet.built_widths hempty hplain hfirst
  obtain ⟨b, n, es, s, -, hsecond⟩ := hnext (.rule r) (Or.inl (List.mem_of_getElem? hr))
  obtain ⟨hagain, -, -, honce, -⟩ :=
    unresolved_reported_once ofWidths Stylesheet.built_widths hempty hplain hsecond
  refine ⟨r, a, b, n, v, es, s, hr, hsecond, (hagain a .undefined (by simp)).2 (.refl _), ?_⟩
  intro e he hreport hev
  rw [List.nil_append, List.singleton_append, List.filter_cons_of_pos rfl, List.map_cons] at honce
  exact (List.nodup_cons.mp honce).1
    (List.mem_map.mpr ⟨e, List.mem_filter.mpr ⟨he, hreport⟩, hev⟩)

end Session

end MapStyle
