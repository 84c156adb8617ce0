import MapStyle.Proofs.Reports
import MapStyle.Proofs.Termination
import MapStyle.Proofs.Verdicts
import MapStyle.Session

/-!
# What is written of a declaration with errors

A declaration is refused exactly if checking it finds an error
(`Rule.accepted_check_iff`), and what is refused is written as nothing. Errors
found before that, when the declaration was evaluated, are not looked at again:
where they leave `Node.undefined` as the first component of the value, checking
takes it for reported and lets the value through, and further inside a value it
is not looked for. So of the errors that come up when a declaration of a
property is evaluated and written, only those found in the writing suppress the
text (`Session.text_eq_empty_iff`); after the others the text says `undefined`
(`Session.undefined_width_is_written`).
-/

namespace MapStyle

/-- **A log takes every error**, so it has an error more exactly if there was
one among the reports. -/
theorem Log.exists_isError_filter_takes (log : Log) (ds : List Diagnostic) :
    (∃ d ∈ ds.filter log.takes, d.isError = true) ↔ ∃ d ∈ ds, d.isError = true := by
  constructor
  · rintro ⟨d, hd, herror⟩
    exact ⟨d, (List.mem_filter.mp hd).1, herror⟩
  · rintro ⟨d, hd, herror⟩
    exact ⟨d, List.mem_filter.mpr ⟨hd, by simp [Log.takes, herror]⟩, herror⟩

/-! ## Texts -/

namespace Pass

variable (pass : Pass) (schema : Schema) (form : Form) (r : Rule)

/-- Writing reports what checking finds, and nothing else. -/
theorem log_write : (pass.write schema form r).2.log
    = pass.log.reportAll (r.check schema pass.settings pass.tables).findings := by
  rcases pass.write_cases schema r form with
    ⟨-, hwrite⟩ | ⟨-, ⟨-, s, fontSets, -, hwrite⟩ | ⟨-, hwrite⟩⟩
  · rw [hwrite]
    rfl
  · rw [hwrite]
    rfl
  · rw [hwrite]
    rfl

/-- **What is written does not depend on the log.** -/
theorem write_with_log (log : Log) :
    (Pass.write { pass with log } schema form r).1 = (pass.write schema form r).1 ∧
      (Pass.write { pass with log } schema form r).2.fontSets
        = (pass.write schema form r).2.fontSets := by
  unfold write
  dsimp only [validate]
  split
  · exact ⟨rfl, rfl⟩
  · split
    · exact ⟨rfl, rfl⟩
    · exact ⟨rfl, rfl⟩

/-- An attribute is not the empty text. -/
theorem assignment_ne_empty (name value : String) : assignment name value ≠ "" := by
  simp [assignment]

/-- **What is refused is written as nothing**, and so are variables. -/
theorem text_write_of_refused
    (h : (r.check schema pass.settings pass.tables).accepted = false ∨ r.isVariable = true) :
    (pass.write schema form r).1 = "" := by
  rcases pass.write_cases schema r form with ⟨-, hwrite⟩ | ⟨⟨haccepted, hproperty⟩, -⟩
  · rw [hwrite]
  · have haccepted : (r.check schema pass.settings pass.tables).accepted = true := haccepted
    simp [haccepted, hproperty] at h

/-- **Any other declaration is written as something**, if there is something in
its value. -/
theorem text_write_ne_empty (h : ∃ c ∈ r.value.components, c.text ≠ "")
    (haccepted : ¬(r.check schema pass.settings pass.tables).accepted = false)
    (hvariable : ¬r.isVariable = true) : (pass.write schema form r).1 ≠ "" := by
  rcases pass.write_cases schema r form with
    ⟨hnothing, -⟩ | ⟨-, ⟨-, s, fontSets, -, hwrite⟩ | ⟨-, hwrite⟩⟩
  · exact absurd hnothing (not_or.mpr ⟨haccepted, hvariable⟩)
  · rw [hwrite]
    exact assignment_ne_empty _ _
  · rw [hwrite]
    cases form with
    | assignment => exact assignment_ne_empty _ _
    | content separator =>
      obtain ⟨c, hc, hne⟩ := h
      exact Text.intercalate_ne_empty (List.mem_map_of_mem hc) hne

end Pass

/-! ## Evaluated and written -/

namespace Session

/-- **Something evaluated in a session**: the stylesheet and the rest of the pass
stay as they are. -/
theorem run_evaluate {α : Type} (f : Scope → Evaluation α) (s : Session) :
    (evaluate f).run s
      = (fun x => (x.1, { s with memos := x.2.memos, pass := { s.pass with log := x.2.log } })) <$>
          (f ⟨s.sheet, s.pass.frames⟩).run ⟨s.memos, s.pass.log⟩ := by
  have hget : (get : Step Session).run s = .ok (s, s) := rfl
  rw [evaluate, StateT.run_bind, hget, Fault.ok_bind, StateT.run_bind]
  cases (f ⟨s.sheet, s.pass.frames⟩).run ⟨s.memos, s.pass.log⟩ with
  | error e => rfl
  | ok x => rfl

/-- Something was evaluated in a session. -/
theorem run_evaluate_eq_ok_iff {α : Type} {f : Scope → Evaluation α} {s s' : Session} {a : α} :
    (evaluate f).run s = .ok (a, s') ↔
      ∃ p, (f ⟨s.sheet, s.pass.frames⟩).run ⟨s.memos, s.pass.log⟩ = .ok (a, p) ∧
        { s with memos := p.memos, pass := { s.pass with log := p.log } } = s' := by
  rw [run_evaluate, map_eq_pure_bind, Fault.bind_eq_ok_iff]
  constructor
  · rintro ⟨x, hx, h⟩
    obtain ⟨rfl, rfl⟩ := Prod.mk.inj (Except.ok.inj h)
    exact ⟨x.2, hx, rfl⟩
  · rintro ⟨p, hp, rfl⟩
    exact ⟨(a, p), hp, rfl⟩

/-- The session after reports. -/
def reportAll (s : Session) (ds : List Diagnostic) : Session :=
  { s with pass := { s.pass with log := s.pass.log.reportAll ds } }

/-- **A filter written in a session**: as the expression of what it is evaluated to, with
reports on what is wrong with that. -/
theorem run_writeFilter {f g : Filter} {s s' : Session}
    (h : (evaluateFilter f).run s = .ok (g, s')) (schema : Schema) :
    (writeFilter schema f).run s
      = .ok (g.expression, s'.reportAll (g.findings schema.filterKeywords)) := by
  obtain ⟨p, hp, rfl⟩ := run_evaluate_eq_ok_iff.mp h
  exact run_evaluate_eq_ok_iff.mpr ⟨_, Filter.run_write hp _, rfl⟩

/-- Writing takes place in the pass alone. -/
theorem run_write (schema : Schema) (form : Pass.Form) (r : Rule) (s : Session) :
    (write schema form r).run s
      = .ok ((s.pass.write schema form r).1,
          { s with pass := (s.pass.write schema form r).2 }) := rfl

/-- **Sessions whose passes differ in the log only write alike**, and register the same
font sets. -/
theorem exists_run_write_alike {s₁ s₂ : Session} (pass : Pass) (log₁ log₂ : Log)
    (h₁ : s₁.pass = { pass with log := log₁ }) (h₂ : s₂.pass = { pass with log := log₂ })
    (schema : Schema) (form : Pass.Form) (r : Rule) :
    ∃ text t₁ t₂, (write schema form r).run s₁ = .ok (text, t₁) ∧
      (write schema form r).run s₂ = .ok (text, t₂) ∧ t₁.pass.fontSets = t₂.pass.fontSets := by
  obtain ⟨htext₁, hfonts₁⟩ := pass.write_with_log schema form r log₁
  obtain ⟨htext₂, hfonts₂⟩ := pass.write_with_log schema form r log₂
  rw [← h₁] at htext₁ hfonts₁
  rw [← h₂] at htext₂ hfonts₂
  refine ⟨(pass.write schema form r).1, { s₁ with pass := (s₁.pass.write schema form r).2 },
    { s₂ with pass := (s₂.pass.write schema form r).2 }, ?_, ?_, hfonts₁.trans hfonts₂.symm⟩
  · rw [run_write, htext₁]
  · rw [run_write, htext₂]

/-- **A rule evaluated in a session**: its value is evaluated as a node. -/
theorem run_evaluateRule_eq_ok_iff {s s' : Session} {r r' : Rule} :
    (evaluateRule r).run s = .ok (r', s') ↔
      ∃ m p, (r.value.node.evaluate ⟨s.sheet, s.pass.frames⟩).run ⟨s.memos, s.pass.log⟩
          = .ok (m, p) ∧
        { r with value := .ofNode m } = r' ∧
        { s with memos := p.memos, pass := { s.pass with log := p.log } } = s' := by
  rw [evaluateRule, run_evaluate_eq_ok_iff]
  constructor
  · rintro ⟨p, hp, hs⟩
    rw [Rule.evaluate_eq] at hp
    obtain ⟨m, hm, hr⟩ := Evaluation.exists_of_run_map_eq_ok hp
    exact ⟨m, p, hm, hr, hs⟩
  · rintro ⟨m, p, hm, rfl, hs⟩
    rw [Rule.evaluate_eq]
    exact ⟨p, Evaluation.run_map_of_eq_ok hm, hs⟩

/-- **Which errors suppress the text of a declaration.** In a session a rule is
evaluated, and what comes out is written. If an error was added to the log on
the way, the text is empty exactly if the rule declares a variable, or one of the
errors was found in the writing; errors that evaluation reported suppress
nothing. Writing always comes to an end, and in a stylesheet built with its own
handles so does the evaluation of each of its rules. -/
theorem text_eq_empty_iff (s : Session) (schema : Schema) (form : Pass.Form) (r : Rule) :
    (∀ r' s' text s'', (evaluateRule r).run s = .ok (r', s') →
      (write schema form r').run s' = .ok (text, s'') →
      ∃ evaluated written, s'.pass.log.entries = s.pass.log.entries ++ evaluated ∧
        s''.pass.log.entries = s'.pass.log.entries ++ written ∧
        ((∃ d ∈ evaluated ++ written, d.isError = true) →
          (text = "" ↔ r.isVariable = true ∨ ∃ d ∈ written, d.isError = true))) ∧
    (∀ r' s', ∃ text s'', (write schema form r').run s' = .ok (text, s'')) ∧
    (s.sheet.Built s.memos → r ∈ s.sheet.rules →
      ∃ r' s', (evaluateRule r).run s = .ok (r', s')) := by
  refine ⟨fun r' s' text s'' hevaluate hwrite => ?_,
    fun r' s' => ⟨_, _, run_write schema form r' s'⟩, fun hbuilt hr => ?_⟩
  · obtain ⟨m, p, hm, rfl, rfl⟩ := run_evaluateRule_eq_ok_iff.mp hevaluate
    obtain ⟨-, evaluated, hevaluated⟩ := (Scope.le_of_run .nil hm).2
    let pass : Pass := { s.pass with log := p.log }
    let r' : Rule := { r with value := .ofNode m }
    have hpair := Except.ok.inj ((run_write schema form r' _).symm.trans hwrite)
    obtain rfl : (pass.write schema form r').1 = text := congrArg Prod.fst hpair
    let findings := (r'.check schema pass.settings pass.tables).findings
    have hsuppress : (∃ d ∈ findings.filter pass.log.takes, d.isError = true) ↔
        (r'.check schema pass.settings pass.tables).accepted = false := by
      rw [Log.exists_isError_filter_takes, Rule.accepted_check_iff]
    refine ⟨evaluated, findings.filter pass.log.takes, hevaluated, ?_, fun ⟨d, hd, herror⟩ => ?_⟩
    · rw [← Log.entries_reportAll, ← Pass.log_write pass schema form r']
      exact congrArg (·.2.pass.log.entries) hpair.symm
    · constructor
      · intro hempty
        by_contra hwritten
        obtain ⟨hproperty, hnone⟩ := not_or.mp hwritten
        -- the error was not found in the writing, so it was found in the evaluation
        have hd : d ∈ evaluated :=
          (List.mem_append.mp hd).resolve_right fun hd => hnone ⟨d, hd, herror⟩
        have hlog : p.log.entries ≠ s.pass.log.entries := by
          intro hsame
          rw [List.self_eq_append_right.mp (hsame.symm.trans hevaluated)] at hd
          exact absurd hd List.not_mem_nil
        exact Pass.text_write_ne_empty pass schema form r' (Scope.exists_component_of_ne hm hlog)
          (mt hsuppress.mpr hnone) hproperty hempty
      · intro hcases
        exact Pass.text_write_of_refused pass schema form r'
          (hcases.symm.imp hsuppress.mp id)
  · let scope : Scope := ⟨s.sheet, s.pass.frames⟩
    have hlinked : scope.sheet.Linked := hbuilt.linked
    obtain ⟨m, p, hm⟩ := Scope.exists_run_node hlinked (.rule r) hr ⟨s.memos, s.pass.log⟩
    exact ⟨_, _, run_evaluateRule_eq_ok_iff.mpr ⟨m, p, hm, rfl, rfl⟩⟩

end Session

/-! ## Two faulty widths -/

namespace Stylesheet

/-- The stylesheet `line-width: @nope; line-width: wide;` and its cells. -/
def widthsAndCells : Stylesheet × Memos := ofAdditions [
  .rule (declaring "line-width" false (.variable (refer "@nope"))) none,
  .rule (declaring "line-width" false (.keyword "wide")) none]

/-- **Two faulty widths**, a variable that is declared nowhere and a word. -/
def widths : Stylesheet := widthsAndCells.1

theorem built_widths : widths.Built widthsAndCells.2 := built_ofAdditions rfl

end Stylesheet

namespace Schema

/-- A schema of one property, a number. -/
def ofWidth : Schema :=
  { entries := [⟨"line", "stroke-width", { css := "line-width", type := .named "float" }⟩] }

end Schema

namespace Session

/-- The faulty widths at the start of a pass. -/
def ofWidths : Session :=
  { sheet := .widths, memos := Stylesheet.widthsAndCells.2, pass := .start {} }

/-- The word is refused, and nothing is written. -/
theorem word_is_suppressed :
    ∃ r r' s' text s'', Stylesheet.widths.rules[1]? = some r ∧
      (evaluateRule r).run ofWidths = .ok (r', s') ∧
      (write .ofWidth .assignment r').run s' = .ok (text, s'') ∧
      (∃ d ∈ s''.pass.log.entries, d.isError = true) ∧ text = "" := by
  obtain ⟨r, hr⟩ : ∃ r, Stylesheet.widths.rules[1]? = some r := ⟨_, rfl⟩
  obtain ⟨hspec, -, hends⟩ := text_eq_empty_iff ofWidths .ofWidth .assignment r
  have hrun : (evaluateRule r).run ofWidths = .ok (r, ofWidths) := by
    obtain rfl := Option.some.inj hr
    rfl
  have hwrite := run_write .ofWidth .assignment r ofWidths
  obtain ⟨evaluated, written, hevaluated, hwritten, hiff⟩ := hspec _ _ _ _ hrun hwrite
  have hentries : (ofWidths.pass.write .ofWidth .assignment r).2.log.entries
      = [r.invalidReport .ofWidth] := by
    obtain rfl := Option.some.inj hr
    rfl
  have hmem : r.invalidReport .ofWidth ∈ written := by
    rw [show written = [r.invalidReport .ofWidth] from hwritten.symm.trans hentries]
    exact List.mem_singleton_self _
  have herror := Rule.isError_invalidReport .ofWidth r
  refine ⟨r, r, _, _, _, hr, hrun, hwrite, ⟨r.invalidReport .ofWidth, ?_, herror⟩, ?_⟩
  · exact hentries ▸ List.mem_singleton_self _
  · exact (hiff ⟨_, List.mem_append_right _ hmem, herror⟩).mpr (Or.inr ⟨_, hmem, herror⟩)

/-- The variable that is declared nowhere is reported, and written all the
same. -/
theorem undefined_width_is_written :
    ∃ r r' s' text s'', Stylesheet.widths.rules[0]? = some r ∧
      (evaluateRule r).run ofWidths = .ok (r', s') ∧
      (write .ofWidth .assignment r').run s' = .ok (text, s'') ∧
      (∃ d ∈ s''.pass.log.entries, d.isError = true) ∧ text = "stroke-width=\"undefined\"" := by
  let scope : Scope := ⟨.widths, []⟩
  let p : Progress := ⟨Stylesheet.widthsAndCells.2, (Pass.start {}).log⟩
  let v : Variable := { Stylesheet.refer "@nope" with owner := some (.rule ⟨0⟩), cell := some 0 }
  have hbinding : scope.binding? v = .ok none := Scope.binding?_eq_none
    Stylesheet.built_widths.linked (show 0 < Stylesheet.widths.rules.length by decide)
    fun id hid => absurd hid.declares.1 List.not_mem_nil
  have hvariable : scope.Evaluates [] p [.variable v] [.undefined] _ :=
    .answer (.undefined rfl hbinding) .nil
  have hvalue : scope.Evaluates [] p [.value [.variable v]] [.undefined] _ :=
    .composite (n := .value [.variable v]) id hvariable .nil
  refine ⟨_, _, _, _, _, rfl, run_evaluateRule_eq_ok_iff.mpr ⟨_, _, hvalue.run_node .nil, rfl, rfl⟩,
    run_write _ _ _ _, ⟨v.undefinedReport, ?_, rfl⟩, rfl⟩
  exact List.mem_singleton_self _

end Session

end MapStyle
