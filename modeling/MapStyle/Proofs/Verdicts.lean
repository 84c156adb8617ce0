import MapStyle.Pass
import MapStyle.Proofs.Registration

/-!
# What a verdict leaves behind

Nobody who asks whether a declaration is accepted has to look at the log as well, and nobody
who reads the log has to ask: a refusal adds **one error**, an acceptance none. A warning may
stand in front of it, at most one, and only in a log that takes warnings
(`Pass.exists_validate_eq`).

Writing a declaration asks for the verdict first, and adds nothing else to the log. Of the
pass it may change one thing more, the font sets, and this it does for one kind of
declaration only: a stack of fonts that is accepted (`Pass.write_cases`). A stack that is
refused leaves no set behind, and a set that is written is one of the pass
(`Pass.one_verdict_one_error`).
-/

namespace MapStyle

/-! ## One error or none -/

/-- **A verdict and what was found on the way to it**, warnings and errors apart. -/
structure Verdict.Backed (accepted : Bool) (warnings errors : List Diagnostic) : Prop where
  /-- There is one warning at most. -/
  length_warnings_le : warnings.length ≤ 1
  severity_warning : ∀ d ∈ warnings, d.severity = .warning
  severity_error : ∀ d ∈ errors, d.severity = .error
  /-- There is one error if the declaration is refused, and none if it is accepted. -/
  length_errors : errors.length = if accepted then 0 else 1

namespace Verdict.Backed

variable {accepted : Bool} {warnings errors : List Diagnostic}

/-- A declaration is refused exactly if there is one error. -/
theorem refused_iff (h : Backed accepted warnings errors) :
    accepted = false ↔ errors.length = 1 := by
  rw [h.length_errors]
  cases accepted with
  | false => exact ⟨fun _ => rfl, fun _ => rfl⟩
  | true => exact ⟨fun hfalse => absurd hfalse (by decide), fun hone => absurd hone (by decide)⟩

/-- A declaration is accepted exactly if there is no error. -/
theorem accepted_iff (h : Backed accepted warnings errors) : accepted = true ↔ errors = [] := by
  rw [← List.length_eq_zero_iff, h.length_errors]
  cases accepted with
  | false => exact ⟨fun htrue => absurd htrue (by decide), fun hzero => absurd hzero (by decide)⟩
  | true => exact ⟨fun _ => rfl, fun _ => rfl⟩

/-- A declaration is refused exactly if an error is among what was found. -/
theorem refused_iff_exists (h : Backed accepted warnings errors) :
    accepted = false ↔ ∃ d ∈ warnings ++ errors, d.isError = true := by
  rw [← Bool.not_eq_true, h.accepted_iff]
  constructor
  · intro hne
    obtain ⟨d, hd⟩ := List.exists_mem_of_ne_nil errors hne
    exact ⟨d, List.mem_append_right _ hd, decide_eq_true (h.severity_error d hd)⟩
  · rintro ⟨d, hd, herror⟩ rfl
    rw [List.append_nil] at hd
    rw [Diagnostic.isError, h.severity_warning d hd] at herror
    exact Bool.false_ne_true herror

/-- **A log that drops warnings keeps the error**, so what it takes still backs the
verdict. -/
theorem filter_takes (h : Backed accepted warnings errors) (log : Log) :
    (warnings ++ errors).filter log.takes = warnings.filter log.takes ++ errors ∧
      Verdict.Backed accepted (warnings.filter log.takes) errors := by
  have herrors : errors.filter log.takes = errors := by
    refine List.filter_eq_self.mpr fun d hd => ?_
    rw [Log.takes, Diagnostic.isError, h.severity_error d hd]
    exact Bool.or_true _
  refine ⟨by rw [List.filter_append, herrors], ?_, fun d hd => ?_, h.severity_error,
    h.length_errors⟩
  · exact Nat.le_trans (List.length_filter_le _ _) h.length_warnings_le
  · exact h.severity_warning d (List.mem_filter.mp hd).1

end Verdict.Backed

namespace Rule

variable (schema : Schema) (settings : Settings) (tables : ValidationTables) (r : Rule)

/-- A status draws one warning at most. -/
theorem length_statusReports_le : (r.statusReports schema).length ≤ 1 := by
  unfold statusReports
  rw [List.length_map]
  exact Option.length_toList_le

theorem severity_of_mem_statusReports {d : Diagnostic} (h : d ∈ r.statusReports schema) :
    d.severity = .warning := by
  obtain ⟨message, -, rfl⟩ := List.mem_map.mp h
  rfl

/-- Warnings are all that a status draws. -/
theorem isError_of_mem_statusReports {d : Diagnostic} (h : d ∈ r.statusReports schema) :
    d.isError = false := by
  rw [Diagnostic.isError, severity_of_mem_statusReports schema r h]
  rfl

/-- A property that is not known is an error. -/
theorem isError_unrecognizedReport : (r.unrecognizedReport schema settings).isError = true := by
  unfold unrecognizedReport
  split
  · rfl
  · rfl

/-- A value that is not valid is an error. -/
theorem isError_invalidReport : (r.invalidReport schema).isError = true := by
  unfold invalidReport
  dsimp only
  split
  · rfl
  · rfl

/-- **A verdict comes with an error exactly if it is a refusal**, and the error comes last. -/
theorem exists_findings_check :
    ∃ warnings errors, (r.check schema settings tables).findings = warnings ++ errors ∧
      Verdict.Backed (r.check schema settings tables).accepted warnings errors := by
  have hstatus := r.length_statusReports_le schema
  have hwarning := fun d => r.severity_of_mem_statusReports schema (d := d)
  unfold check
  split
  · -- the name is not known, and its status is not asked for
    refine ⟨[], [r.unrecognizedReport schema settings], rfl, by decide, by simp, ?_, rfl⟩
    intro d hd
    rw [List.mem_singleton.mp hd]
    exact of_decide_eq_true (r.isError_unrecognizedReport schema settings)
  · split
    · exact ⟨r.statusReports schema, [], (List.append_nil _).symm, hstatus, hwarning,
        by simp, rfl⟩
    · refine ⟨r.statusReports schema, [r.invalidReport schema], rfl, hstatus, hwarning, ?_, rfl⟩
      intro d hd
      rw [List.mem_singleton.mp hd]
      exact of_decide_eq_true (r.isError_invalidReport schema)

/-- **A declaration is refused exactly if an error is found.** -/
theorem accepted_check_iff :
    (r.check schema settings tables).accepted = false ↔
      ∃ d ∈ (r.check schema settings tables).findings, d.isError = true := by
  obtain ⟨warnings, errors, hfindings, hbacked⟩ :=
    r.exists_findings_check schema settings tables
  rw [hbacked.refused_iff_exists, hfindings]

end Rule

/-! ## Checked and written -/

namespace Pass

variable (pass : Pass) (schema : Schema) (r : Rule)

/-- **Checking a declaration adds to the log and does nothing else**: what it adds backs the
verdict. -/
theorem exists_validate_eq :
    ∃ accepted warnings errors,
      pass.validate schema r = (accepted, { pass with
        log := { pass.log with entries := pass.log.entries ++ (warnings ++ errors) } }) ∧
      Verdict.Backed accepted warnings errors := by
  obtain ⟨warnings, errors, hfindings, hbacked⟩ :=
    r.exists_findings_check schema pass.settings pass.tables
  obtain ⟨htaken, hkept⟩ := hbacked.filter_takes pass.log
  refine ⟨_, warnings.filter pass.log.takes, errors, ?_, hkept⟩
  unfold validate
  dsimp only
  rw [hfindings, Log.reportAll_eq, htaken]

/-- A declaration is written as a font set if it is a font and has several components. -/
theorem needsFontSet_iff :
    needsFontSet schema r = true ↔
      schema.isFont r.name = true ∧ 1 < r.value.components.length := by
  rw [needsFontSet, Bool.and_eq_true, decide_eq_true_iff]

/-- **How a declaration is written**, after it was checked: not at all, as a font set that is
registered, or as its text. -/
theorem write_cases (form : Form) :
    (((pass.validate schema r).1 = false ∨ r.isVariable = true) ∧
        pass.write schema form r = ("", (pass.validate schema r).2)) ∨
      ((pass.validate schema r).1 = true ∧ r.isVariable = false) ∧
        ((needsFontSet schema r = true ∧ ∃ s fontSets,
            pass.fontSets.register (r.value.components.map Node.text) = (s, fontSets) ∧
            pass.write schema form r = (assignment "fontset-name" s.name,
              { (pass.validate schema r).2 with fontSets })) ∨
          (needsFontSet schema r = false ∧
            pass.write schema form r = (plainText schema r form, (pass.validate schema r).2))) := by
  unfold write
  dsimp only
  split
  · next hrefused =>
    rw [Bool.or_eq_true, Bool.not_eq_true'] at hrefused
    exact Or.inl ⟨hrefused, rfl⟩
  · next haccepted =>
    rw [Bool.or_eq_true, Bool.not_eq_true', not_or, Bool.not_eq_false,
      Bool.not_eq_true] at haccepted
    refine Or.inr ⟨haccepted, ?_⟩
    split
    · next hstack => exact Or.inl ⟨hstack, _, _, rfl, rfl⟩
    · next hplain => exact Or.inr ⟨Bool.not_eq_true _ ▸ hplain, rfl⟩

end Pass

/-- **One verdict, one error.** Checking a declaration changes nothing but the log. It adds
one error exactly if the declaration is refused and none exactly if it is accepted, and in
front of that at most one warning. Writing it adds the same to the log. What is refused is
written as nothing, and so are variables; the font sets stay as they are unless a stack of
fonts was accepted, which is written as the name of the set of its key. -/
theorem Pass.one_verdict_one_error (pass : Pass) (schema : Schema) (r : Rule) :
    ∃ accepted warnings errors,
      pass.validate schema r = (accepted, { pass with
        log := { pass.log with entries := pass.log.entries ++ (warnings ++ errors) } }) ∧
      (accepted = false ↔ errors.length = 1) ∧ (accepted = true ↔ errors = []) ∧
      (∀ d ∈ errors, d.severity = .error) ∧
      warnings.length ≤ 1 ∧ (∀ d ∈ warnings, d.severity = .warning) ∧
      ∀ form, ∃ text fontSets,
        pass.write schema form r = (text, { (pass.validate schema r).2 with fontSets }) ∧
        (accepted = false ∨ r.isVariable = true → text = "") ∧
        (¬(accepted = true ∧ r.isVariable = false ∧
            schema.isFont r.name = true ∧ 1 < r.value.components.length) →
          fontSets = pass.fontSets) ∧
        (accepted = true ∧ r.isVariable = false ∧
            schema.isFont r.name = true ∧ 1 < r.value.components.length →
          ∃ s ∈ fontSets.sets, text = "fontset-name=\"" ++ s.name ++ "\"" ∧
            s.key = FontSet.keyOf (r.value.components.map Node.text)) := by
  obtain ⟨accepted, warnings, errors, hvalidate, hbacked⟩ := pass.exists_validate_eq schema r
  obtain rfl : (pass.validate schema r).1 = accepted := congrArg Prod.fst hvalidate
  refine ⟨_, warnings, errors, hvalidate, hbacked.refused_iff, hbacked.accepted_iff,
    hbacked.severity_error, hbacked.length_warnings_le, hbacked.severity_warning,
    fun form => ?_⟩
  rw [← needsFontSet_iff]
  rcases pass.write_cases schema r form with
    ⟨hnothing, hwrite⟩ | ⟨⟨haccepted, hproperty⟩, ⟨hstack, s, fontSets, hregister, hwrite⟩ |
      ⟨hplain, hwrite⟩⟩
  · refine ⟨"", pass.fontSets, hwrite, fun _ => rfl, fun _ => rfl, ?_⟩
    rintro ⟨haccepted, hproperty, -⟩
    exact absurd hnothing (by simp [haccepted, hproperty])
  · refine ⟨_, fontSets, hwrite, by simp [haccepted, hproperty], fun hnone => ?_, fun _ => ?_⟩
    · exact absurd ⟨haccepted, hproperty, hstack⟩ hnone
    · obtain ⟨hmem, hkey⟩ := pass.fontSets.register_mem (r.value.components.map Node.text)
      rw [hregister] at hmem hkey
      exact ⟨s, hmem, rfl, hkey⟩
  · refine ⟨_, pass.fontSets, hwrite, by simp [haccepted, hproperty], fun _ => rfl, ?_⟩
    rintro ⟨-, -, hstack⟩
    exact absurd (hplain.symm.trans hstack) Bool.false_ne_true

end MapStyle
