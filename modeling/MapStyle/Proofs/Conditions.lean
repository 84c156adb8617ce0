import MapStyle.Proofs.Failures
import MapStyle.Proofs.Outline

/-!
# Conditions evaluated and written

A filter is written from its evaluated operands, so it can be evaluated first and what comes
out be written, or it can be written at once. The two take different ways: the second asks the
cells of its references, the first has none left to ask. They agree because the references of a
filter stand in no declaration. No look-up of one goes on inside another of the same reference,
so what its cell holds afterwards is what was returned (`Filter.exists_course`); and what was
returned is in normal form, so it evaluates to itself.

What is evaluated depends on the cells, and never on the log or on anything else that a pass
has (`Scope.Evaluates.of_memos`), so the text is the same under any schema and any settings
(`Session.evaluated_filter_is_written_alike`).
-/

namespace MapStyle

namespace Scope.Evaluates

variable {scope : Scope} {entered : List RuleId} {p : Progress} {ns ms : List Node}
  {es : List LookUp}

/-- **Evaluation asks the cells and never the log.** -/
theorem of_memos (h : scope.Evaluates entered p ns ms es) {q : Progress}
    (hmemos : q.memos = p.memos) : scope.Evaluates entered q ns ms es :=
  h.of_outline rfl (fun _ _ _ _ _ _ => rfl) hmemos

/-- What evaluation reports is about references that could not be resolved. -/
theorem isUnresolved_of_mem_reports (h : scope.Evaluates entered p ns ms es) {d : Diagnostic}
    (hd : d ∈ es.filterMap (·.report?)) : d.isUnresolved = true := by
  obtain ⟨e, he, hreport⟩ := List.mem_filterMap.mp hd
  rcases h.orderly.report_eq he hreport with rfl | rfl
  · rfl
  · rfl

end Scope.Evaluates

/-! ## Filters -/

namespace Filter

variable {f g : Filter}

/-- **A filter in normal form evaluates to itself**, in any scope, and nothing else happens. -/
theorem run_evaluate_of_isNormal (scope : Scope) (h : g.toNode.IsNormal) (p : Progress) :
    (g.evaluate scope).run p = .ok (g, p) := by
  rw [run_evaluate_eq_ok_iff, Node.evaluate, Node.evaluateWith_of_isNormal _ h]
  rfl

/-- **A filter of a stylesheet is evaluated once and for all.** From given cells it comes to a
filter in normal form, with any log: the same cells are filled, and the same reports are made,
all of them about references. Evaluated again, in any scope, it comes to the same filter, and
nothing else happens. -/
theorem exists_course (scope : Scope) {memos : Memos} (h : scope.sheet.InUse memos)
    (hf : f ∈ scope.sheet.filters) :
    ∃ (g : Filter) (memos' : Memos) (reports : List Diagnostic), g.toNode.IsNormal ∧
      (∀ d ∈ reports, d.isUnresolved = true) ∧
      (∀ log : Log, (f.evaluate scope).run ⟨memos, log⟩
        = .ok (g, ⟨memos', log.reportAll reports⟩)) ∧
      ∀ (scope' : Scope) (p : Progress), memos' ≤ p.memos →
        (f.evaluate scope').run p = .ok (g, p) := by
  have hrequest : (Request.filter f).IsOf scope.sheet := hf
  obtain ⟨n, q, hrun⟩ := Scope.exists_run_node h.built.linked (.filter f) hrequest ⟨memos, {}⟩
  obtain ⟨g, -, rfl⟩ : ∃ g, (f.evaluate scope).run ⟨memos, {}⟩ = .ok (g, q) ∧ g.toNode = n :=
    Evaluation.exists_of_run_map_eq_ok (toNode_evaluate scope f ▸ hrun)
  obtain ⟨es, hes, rfl⟩ := (Scope.run_eq_ok_iff .nil).mp hrun
  refine ⟨g, (Progress.after ⟨memos, {}⟩ es).memos, es.filterMap (·.report?),
    (hes.isNormal h.isNormal).1 _ List.mem_cons_self,
    fun d hd => hes.isUnresolved_of_mem_reports hd, fun log => ?_, ?_⟩
  · have hany : scope.Evaluates [] ⟨memos, log⟩ [f.toNode] [g.toNode] es := hes.of_memos rfl
    have hmemos : (Progress.after ⟨memos, log⟩ es).memos = (Progress.after ⟨memos, {}⟩ es).memos :=
      Progress.memos_after_congr (p := ⟨memos, log⟩) (q := ⟨memos, {}⟩) rfl es
    rw [run_evaluate_eq_ok_iff, ← hmemos, ← Progress.log_after ⟨memos, log⟩]
    exact hany.run_node .nil
  · obtain ⟨m, hagain, hsame⟩ := Scope.exists_answer_again h.built.assembled hrequest hrun
    obtain rfl := hsame fun v hv => Scope.not_leadsBack_of_filter h.built.assembled.owned hf hv
    exact fun scope' p hp => run_evaluate_eq_ok_iff.mpr (hagain scope' p hp)

end Filter

/-! ## In a session -/

namespace Session

/-- **To evaluate a filter and to write it agree.** In a session whose stylesheet is built with
its own handles and whose cells were filled by evaluation only, a filter of a selector is
evaluated, under any pass with the declarations that are in scope. It always comes to the same
filter, and to the same reports, each of them about a reference.

Written in place of that, under any such pass and any schema, the filter is written as the
expression of the evaluated one. The same reports are made, and then those on its words and
operands. The evaluated filter is written as this expression in any session, and the filter
itself in any session whose cells hold what the evaluation left there; in both cases the reports
on words and operands are made again, and no others. -/
theorem evaluated_filter_is_written_alike (s : Session) (h : s.sheet.InUse s.memos) {f : Filter}
    (hf : f ∈ s.sheet.filters) :
    ∃ (g : Filter) (memos : Memos) (reports : List Diagnostic),
      (∀ d ∈ reports, d.isUnresolved = true) ∧
      (∀ keywords, ∀ d ∈ g.findings keywords, d.isError = true ∧
        (d.problem = .invalidFilterKeyword ∨ d.problem = .invalidFilterOperand)) ∧
      (∀ pass : Pass, pass.frames = s.pass.frames →
        (evaluateFilter f).run { s with pass }
          = .ok (g, { s with memos, pass }.reportAll reports) ∧
        ∀ schema : Schema, (writeFilter schema f).run { s with pass }
          = .ok (g.expression, ({ s with memos, pass }.reportAll reports).reportAll
              (g.findings schema.filterKeywords))) ∧
      ∀ (t : Session) (schema : Schema),
        (writeFilter schema g).run t
          = .ok (g.expression, t.reportAll (g.findings schema.filterKeywords)) ∧
        (memos ≤ t.memos → (writeFilter schema f).run t
          = .ok (g.expression, t.reportAll (g.findings schema.filterKeywords))) := by
  obtain ⟨g, memos, reports, hnormal, hreports, hrun, hagain⟩ :=
    Filter.exists_course ⟨s.sheet, s.pass.frames⟩ h hf
  have hwrites : ∀ pass : Pass, pass.frames = s.pass.frames →
      (evaluateFilter f).run { s with pass }
        = .ok (g, { s with memos, pass }.reportAll reports) := by
    intro pass hframes
    refine run_evaluate_eq_ok_iff.mpr ⟨⟨memos, pass.log.reportAll reports⟩, ?_, rfl⟩
    rw [hframes]
    exact hrun pass.log
  refine ⟨g, memos, reports, hreports, fun _ _ hd => Filter.problem_of_mem_findings hd,
    fun pass hframes => ⟨hwrites pass hframes, run_writeFilter (hwrites pass hframes)⟩,
    fun t schema => ⟨run_writeFilter ?_ schema, fun hle => run_writeFilter ?_ schema⟩⟩
  · exact run_evaluate_eq_ok_iff.mpr ⟨_, Filter.run_evaluate_of_isNormal _ hnormal _, rfl⟩
  · exact run_evaluate_eq_ok_iff.mpr ⟨_, hagain _ ⟨t.memos, t.pass.log⟩ hle, rfl⟩

/-- The stylesheet with a circle, with `@c: wide` in scope. -/
def ofLakes : Session where
  sheet := .circle
  memos := Stylesheet.circleAndCells.2
  pass := (Pass.start {}).push [⟨3⟩]

/-- The filter `[@c = wide]` is written as what it is evaluated to, and where filters may only
use the word `narrow`, both of its words are reported. -/
theorem lakes_filter_written_alike :
    ∃ f g s t, f ∈ Stylesheet.circle.filters ∧ (evaluateFilter f).run ofLakes = .ok (g, s) ∧
      (writeFilter {} f).run ofLakes = .ok ("wide = wide", s) ∧
      (writeFilter { filterKeywords := some ["narrow"] } g).run s = .ok ("wide = wide", t) ∧
      (writeFilter { filterKeywords := some ["narrow"] } f).run s = .ok ("wide = wide", t) ∧
      t.pass.log.errors.map (·.problem) = [.invalidFilterKeyword, .invalidFilterKeyword] := by
  let scope : Scope := ⟨.circle, [⟨3⟩]⟩
  let p : Progress := ⟨ofLakes.memos, ofLakes.pass.log⟩
  let c : Variable :=
    { Stylesheet.refer "@c" with owner := some (.selector ⟨⟨0⟩, 0⟩), cell := some 1 }
  let f : Filter := ⟨.variable c, .equal, .keyword "wide", ⟨none, 0⟩⟩
  let g : Filter := { f with key := .keyword "wide" }
  have hf : f ∈ Stylesheet.circle.filters := List.mem_cons_self
  have hc : scope.binding? c = .ok (some ⟨3⟩) := Scope.Binds.binding?
    ⟨_, _, rfl, ⟨[], [], rfl, by simp, by simp⟩, rfl⟩ Stylesheet.built_circle.linked
    ⟨_, _, rfl, rfl⟩
  have hword : scope.Evaluates [⟨3⟩] p [.keyword "wide"] [.keyword "wide"] [] :=
    .composite (n := .keyword "wide") id .nil .nil
  have hkey : scope.Evaluates [] p [.variable c] [.keyword "wide"] [⟨c, .keyword "wide", none⟩] :=
    .enter rfl hc (by simp) rfl (.composite (n := .value [.keyword "wide"]) id hword .nil) .nil
  have hevaluated : (evaluateFilter f).run ofLakes = .ok (g, _) :=
    run_evaluate_eq_ok_iff.mpr ⟨_, f.run_evaluate (hkey.run_node .nil) rfl, rfl⟩
  obtain ⟨g', memos, reports, -, -, hpass, hwritten⟩ :=
    evaluated_filter_is_written_alike ofLakes Stylesheet.inUse_circle hf
  obtain ⟨hrun, hwrite⟩ := hpass ofLakes.pass rfl
  obtain ⟨rfl, hs⟩ := Prod.mk.inj (Except.ok.inj (hevaluated.symm.trans hrun))
  obtain ⟨hagain, hnext⟩ := hwritten (({ ofLakes with memos } : Session).reportAll reports)
    { filterKeywords := some ["narrow"] }
  refine ⟨f, g, _, _, hf, hrun, hwrite {}, hagain, hnext le_rfl, ?_⟩
  rw [← hs]
  rfl

end Session

end MapStyle
