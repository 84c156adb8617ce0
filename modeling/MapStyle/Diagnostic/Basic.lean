/-!
# Diagnostics

What a pass has to say about a stylesheet. Nothing in a pass stops at a bad
declaration: each problem becomes a diagnostic, and whoever runs the pass
decides afterwards. Warnings never affect the output.
-/

namespace MapStyle

/-- **A place in the source**: a file, if it has a name, and the index of a
character in it. -/
structure Location where
  file : Option String
  index : Nat
deriving DecidableEq

/-- The text of a place; the input itself stands for a file without a
name. -/
def Location.text (l : Location) : String :=
  l.file.getD "<input>" ++ ":" ++ toString l.index

/-- How grave a problem is. -/
inductive Severity where
  | warning
  | error
deriving DecidableEq

/-- The problems a pass can find. -/
inductive Problem where
  | undefinedVariable
  | circularVariable
  | unrecognizedRule
  | unstableProperty
  | invalidValue
  | unknownFont
  | invalidFilterOperand
  | invalidFilterKeyword
deriving DecidableEq

/-- A way to mend a problem. -/
structure Suggestion where
  message : String
  /-- The text to put in place of the offending one. -/
  replacement : String
  /-- Whether the replacement may be made without asking. -/
  isSafe : Bool
deriving DecidableEq

/-- **A problem at a place**, with its wording and ways to mend it. -/
structure Diagnostic where
  problem : Problem
  severity : Severity
  message : String
  location : Location
  suggestions : List Suggestion := []
deriving DecidableEq

namespace Severity

/-- Every severity, the graver one last. -/
def all : List Severity := [.warning, .error]

/-- The name of a severity. -/
def text : Severity → String
  | .warning => "warning"
  | .error => "error"

end Severity

namespace Problem

/-- Every problem. -/
def all : List Problem :=
  [.undefinedVariable, .circularVariable, .unrecognizedRule, .unstableProperty, .invalidValue,
    .unknownFont, .invalidFilterOperand, .invalidFilterKeyword]

/-- The code of a problem. -/
def code : Problem → String
  | .undefinedVariable => "undefined-variable"
  | .circularVariable => "circular-variable"
  | .unrecognizedRule => "unrecognized-rule"
  | .unstableProperty => "unstable-property"
  | .invalidValue => "invalid-value"
  | .unknownFont => "unknown-font"
  | .invalidFilterOperand => "invalid-filter-operand"
  | .invalidFilterKeyword => "invalid-filter-keyword"

end Problem

namespace Diagnostic

/-- An error without suggestions. -/
def error (problem : Problem) (message : String) (location : Location) : Diagnostic :=
  { problem, severity := .error, message, location }

/-- A warning without suggestions. -/
def warning (problem : Problem) (message : String) (location : Location) : Diagnostic :=
  { problem, severity := .warning, message, location }

/-- Whether a diagnostic is an error. -/
def isError (d : Diagnostic) : Bool := d.severity = .error

/-- **The text of a diagnostic.** -/
def text (d : Diagnostic) : String :=
  d.severity.text ++ "[" ++ d.problem.code ++ "]: " ++ d.message ++ " (" ++ d.location.text ++ ")"

end Diagnostic

/-! ## The log of a pass -/

/-- **The diagnostics of a pass**, in the order they were reported. -/
structure Log where
  entries : List Diagnostic := []
  /-- Whether warnings are dropped. -/
  quiet : Bool := false
deriving DecidableEq

namespace Log

/-- Whether the log takes a diagnostic: a quiet one takes errors only. -/
def takes (log : Log) (d : Diagnostic) : Bool := !log.quiet || d.isError

/-- The log after a report. -/
def report (log : Log) (d : Diagnostic) : Log :=
  if log.takes d then { log with entries := log.entries ++ [d] } else log

/-- The log after several reports. -/
def reportAll (log : Log) (ds : List Diagnostic) : Log := ds.foldl report log

/-- The errors of the log. -/
def errors (log : Log) : List Diagnostic := log.entries.filter (·.isError)

/-- The warnings of the log. -/
def warnings (log : Log) : List Diagnostic := log.entries.filter (!·.isError)

/-- Whether the log has an error. -/
def hasErrors (log : Log) : Bool := log.entries.any (·.isError)

@[simp] theorem quiet_report (log : Log) (d : Diagnostic) : (log.report d).quiet = log.quiet := by
  rw [report]; split <;> rfl

/-- A report adds its diagnostic at the end, if the log takes it. -/
theorem entries_report (log : Log) (d : Diagnostic) :
    (log.report d).entries = log.entries ++ [d].filter log.takes := by
  rw [report]; split <;> simp [*]

/-- Several reports add what the log takes of them. -/
theorem entries_reportAll (log : Log) (ds : List Diagnostic) :
    (log.reportAll ds).entries = log.entries ++ ds.filter log.takes := by
  induction ds generalizing log with
  | nil => simp [reportAll]
  | cons d ds ih =>
    have ht : (log.report d).takes = log.takes := by funext e; simp [takes]
    rw [reportAll, List.foldl_cons, ← reportAll, ih, entries_report, ht, List.append_assoc,
      ← List.filter_append, List.singleton_append]

@[simp] theorem quiet_reportAll (log : Log) (ds : List Diagnostic) :
    (log.reportAll ds).quiet = log.quiet := by
  induction ds generalizing log with
  | nil => rfl
  | cons d ds ih => rw [reportAll, List.foldl_cons, ← reportAll, ih, quiet_report]

/-- **What reports do to the log**: they add to its entries. -/
theorem reportAll_eq (log : Log) (ds : List Diagnostic) :
    log.reportAll ds = { log with entries := log.entries ++ ds.filter log.takes } :=
  calc log.reportAll ds
    _ = ⟨(log.reportAll ds).entries, (log.reportAll ds).quiet⟩ := rfl
    _ = { log with entries := log.entries ++ ds.filter log.takes } := by
      rw [entries_reportAll, quiet_reportAll]

end Log

end MapStyle
