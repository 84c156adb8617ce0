import MapStyle.Proofs.Simulation
import MapStyle.Proofs.Writing

/-!
# Quiet passes

A pass that was asked to be quiet drops warnings. That is all it does differently: what
is evaluated, checked or written never looks at the log, and never asks whether the pass
is quiet. So what a quiet session comes to is what a loud one comes to, **hushed**
(`Session.hush`): without the warnings in its log, and with a log that takes no more of
them.

This is kept by each operation of a session (`Session.unheard_perform`), and therefore by
any number of them, even where one is chosen by what came back from those before
(`Session.unheard_follow`).
-/

namespace MapStyle

/-! ## Hushing -/

/-- The log without its warnings, which takes no more of them. -/
def Log.hush (log : Log) : Log := ⟨log.errors, true⟩

/-- The progress without warnings. -/
def Progress.hush (p : Progress) : Progress := { p with log := p.log.hush }

/-- The pass without warnings, asked to be quiet. -/
def Pass.hush (pass : Pass) : Pass :=
  { pass with settings := { pass.settings with quiet := true }, log := pass.log.hush }

/-- **The session without warnings**, under a quiet pass. -/
def Session.hush (s : Session) : Session := { s with pass := s.pass.hush }

/-- **Of what is reported the errors are left**, whether the log takes warnings or not. -/
theorem Log.hush_report (log : Log) (d : Diagnostic) :
    (log.report d).hush = log.hush.report d := by
  have hquiet : log.hush.takes d = d.isError := rfl
  unfold report
  rw [hquiet]
  -- an error is taken by both logs, a warning at most by the loud one
  by_cases herror : d.isError
  · rw [if_pos herror, if_pos (by rw [takes, herror, Bool.or_true]), hush, errors,
      List.filter_append, List.filter_singleton, herror]
    rfl
  · rw [if_neg herror]
    split
    · rw [hush, errors, List.filter_append, List.filter_singleton,
        Bool.eq_false_iff.mpr herror, Bool.cond_false, List.append_nil]
      rfl
    · rfl

/-- Of several reports the errors are left. -/
theorem Log.hush_reportAll (log : Log) (ds : List Diagnostic) :
    (log.reportAll ds).hush = log.hush.reportAll ds := by
  induction ds generalizing log with
  | nil => rfl
  | cons d ds ih =>
    show ((log.report d).reportAll ds).hush = (log.hush.report d).reportAll ds
    rw [ih, hush_report]

namespace Pass

variable (pass : Pass) (schema : Schema) (r : Rule)

/-- **Whether a declaration is accepted** has nothing to do with being quiet. -/
theorem validate_hush :
    pass.hush.validate schema r
      = ((pass.validate schema r).1, (pass.validate schema r).2.hush) := by
  unfold validate
  dsimp only
  refine Prod.ext rfl ?_
  show Pass.mk _ _ _ (pass.log.hush.reportAll _) _ = Pass.mk _ _ _ (Log.hush _) _
  rw [Log.hush_reportAll]
  rfl

/-- **What a declaration is written as** has nothing to do with being quiet. -/
theorem write_hush (form : Form) :
    pass.hush.write schema form r
      = ((pass.write schema form r).1, (pass.write schema form r).2.hush) := by
  unfold write
  rw [validate_hush]
  dsimp only
  split
  · rfl
  · split
    · rfl
    · rfl

end Pass

/-! ## Evaluation -/

/-- **Evaluation simulates itself**, hushed. -/
def Scope.hushing (scope : Scope) : scope.Simulation scope where
  Nodes := Eq
  States p q := q = p.hush
  congruent := Node.congruent_eq
  undefined := rfl
  declares := rfl
  binds := rfl
  enters id := (Agree.of_eq rfl).imp fun _ _ h => h ▸ rfl
  recalls {p q} cell h := by
    rw [h]
    show Option.Rel Eq (p.memos.get? cell) (p.memos.get? cell)
    cases p.memos.get? cell with
    | none => exact .none
    | some n => exact .some rfl
  reports {p q} d h := by
    show Progress.mk q.memos (q.log.report d) = ⟨p.memos, (p.log.report d).hush⟩
    rw [h, Log.hush_report]
    rfl
  remembers v h hn := by
    rw [h, hn]
    rfl

namespace Session

/-- **The same is done** in a session and in that session hushed. -/
def Unheard {α : Type} (x : Step α) : Prop := InStep (fun s t => t = s.hush) Eq x x

/-- What is done to the pass alone. -/
theorem unheard_onPass {α : Type} {f : Pass → α × Pass}
    (h : ∀ pass, f pass.hush = ((f pass).1, (f pass).2.hush)) : Unheard (onPass f) := by
  rintro s t rfl
  show Agree _ (.ok ((f s.pass).1, _))
    (.ok ((f s.pass.hush).1, { s with pass := (f s.pass.hush).2 }))
  rw [h]
  exact .result ⟨rfl, rfl⟩

/-- What is evaluated. -/
theorem unheard_evaluate {α : Type} {f : Scope → Evaluation α}
    (h : ∀ scope : Scope, scope.hushing.Keeps Eq (f scope) (f scope)) : Unheard (evaluate f) := by
  rintro s t rfl
  rw [run_evaluate, run_evaluate]
  refine (h ⟨s.sheet, s.pass.frames⟩ ⟨s.memos, s.pass.log⟩ _ rfl).map fun a b hab => ?_
  obtain ⟨hresult, hstate⟩ := hab
  refine ⟨hresult, ?_⟩
  rw [show b.2 = a.2.hush from hstate]
  rfl

/-- What is done with each result. -/
theorem Unheard.map {α β : Type} {x : Step α} (h : Unheard x) (f : α → β) : Unheard (f <$> x) :=
  InStep.map h fun _ _ hab => congrArg f hab

/-- A filter is written. -/
theorem unheard_writeFilter (schema : Schema) (f : Filter) : Unheard (writeFilter schema f) := by
  refine unheard_evaluate fun scope => ?_
  unfold Filter.write
  refine (scope.hushing.evaluate_filter rfl rfl).bind fun g g' hg => ?_
  obtain ⟨k, _, o, _, rfl, rfl, rfl, rfl⟩ := hg
  refine (InStep.modify fun p q hpq => ?_).bind fun _ _ _ => .pure rfl
  show Progress.mk q.memos _ = ⟨p.memos, Log.hush _⟩
  rw [show q = p.hush from hpq, Log.hush_reportAll]
  rfl

/-! ## Operations -/

/-- **What can be done in a session** once its stylesheet is built. -/
inductive Operation where
  /-- A declaration is brought into scope. -/
  | pushFrame (id : RuleId)
  /-- The variables of a ruleset are brought into scope. -/
  | pushRuleset (id : RulesetId)
  /-- The variables of the top level are brought into scope. -/
  | pushGlobals
  /-- The innermost declaration is taken out of scope. -/
  | pop
  /-- So many declarations are left in scope. -/
  | truncate (size : ℕ)
  | evaluateRule (r : Rule)
  | evaluateFilter (f : Filter)
  /-- A declaration is checked. -/
  | validate (r : Rule)
  | write (form : Pass.Form) (r : Rule)
  | writeFilter (f : Filter)
  | report (d : Diagnostic)
  /-- A stack of fonts is registered. -/
  | registerFonts (faces : List String)

/-- **What comes back.** -/
inductive Reply where
  | done
  | frame (id : Option RuleId)
  | rule (r : Rule)
  | filter (f : Filter)
  | accepted (accepted : Bool)
  | text (text : String)

/-- **An operation performed.** -/
def perform (schema : Schema) : Operation → Step Reply
  | .pushFrame id => (fun _ => .done) <$> pushFrame id
  | .pushRuleset id => (fun _ => .done) <$> pushRuleset id
  | .pushGlobals => (fun _ => .done) <$> pushGlobals
  | .pop => .frame <$> onPass Pass.pop
  | .truncate size => onPass fun pass => (.done, pass.truncate size)
  | .evaluateRule r => .rule <$> evaluateRule r
  | .evaluateFilter f => .filter <$> evaluateFilter f
  | .validate r => .accepted <$> validate schema r
  | .write form r => .text <$> write schema form r
  | .writeFilter f => .text <$> writeFilter schema f
  | .report d => onPass fun pass => (.done, pass.report d)
  | .registerFonts faces => .text <$> onPass fun pass => pass.registerFonts faces

/-- **What comes back from operations**, one after the other, each of which is chosen by
what came back before. -/
def follow (schema : Schema) (next : List Reply → Operation) : ℕ → List Reply → Step (List Reply)
  | 0, replies => return replies
  | n + 1, replies => do follow schema next n (replies ++ [← perform schema (next replies)])

/-- **Every operation does the same** in a session and in that session hushed. -/
theorem unheard_perform (schema : Schema) (operation : Operation) :
    Unheard (perform schema operation) := by
  cases operation with
  | pushFrame id => exact (unheard_onPass fun _ => rfl).map _
  | pushRuleset id =>
    refine Unheard.map ?_ _
    unfold pushRuleset
    refine InStep.get.bind fun s t hst => ?_
    subst hst
    refine (InStep.lift (Agree.of_eq rfl)).bind fun ids ids' hids => ?_
    subst hids
    show Unheard (onPass fun pass => ((), pass.push ids))
    exact unheard_onPass fun _ => rfl
  | pushGlobals =>
    refine Unheard.map ?_ _
    unfold pushGlobals
    refine InStep.get.bind fun s t hst => ?_
    subst hst
    show Unheard (onPass fun pass => ((), pass.push s.sheet.globalVariables))
    exact unheard_onPass fun _ => rfl
  | pop => exact (unheard_onPass fun _ => rfl).map _
  | truncate size =>
    show Unheard (onPass fun pass => (Reply.done, pass.truncate size))
    exact unheard_onPass fun _ => rfl
  | evaluateRule r =>
    refine Unheard.map (unheard_evaluate fun scope => ?_) _
    refine (scope.hushing.evaluate_rule rfl).imp fun r r' hr => ?_
    obtain ⟨n, _, rfl, rfl, rfl⟩ := hr
    rfl
  | evaluateFilter f =>
    refine Unheard.map (unheard_evaluate fun scope => ?_) _
    refine (scope.hushing.evaluate_filter rfl rfl).imp fun f f' hf => ?_
    obtain ⟨k, _, o, _, rfl, rfl, rfl, rfl⟩ := hf
    rfl
  | validate r => exact (unheard_onPass fun pass => pass.validate_hush schema r).map _
  | write form r => exact (unheard_onPass fun pass => pass.write_hush schema r form).map _
  | writeFilter f => exact (unheard_writeFilter schema f).map _
  | report d =>
    show Unheard (onPass fun pass => (Reply.done, pass.report d))
    refine unheard_onPass fun pass => Prod.ext rfl ?_
    show Pass.mk _ _ _ (pass.log.hush.report d) _ = Pass.mk _ _ _ (Log.hush _) _
    rw [← Log.hush_report]
    rfl
  | registerFonts faces => exact (unheard_onPass fun _ => rfl).map _

/-- **So do operations one after the other.** -/
theorem unheard_follow (schema : Schema) (next : List Reply → Operation) (n : ℕ)
    (replies : List Reply) : Unheard (follow schema next n replies) := by
  induction n generalizing replies with
  | zero => exact .pure rfl
  | succ n ih =>
    refine (unheard_perform schema (next replies)).bind fun reply reply' hreply => ?_
    subst hreply
    exact ih _

/-- **To be quiet is to hide warnings, and nothing else.** Two sessions with the same
stylesheet and cells, under passes whose settings differ in nothing but that one asks to be
quiet, are taken through any operations, the next of which may be chosen by all that came
back so far. Either both meet the same broken handle, or the same comes back from both,
they have the same cells, the same font sets and the same declarations in scope, and the
log of the quiet one has the errors of the other, in the same order. -/
theorem quiet_hides_warnings_only (schema : Schema) (settings : Settings) (sheet : Stylesheet)
    (memos : Memos) (next : List Reply → Operation) (n : ℕ) :
    Agree (fun loud quiet => quiet.1 = loud.1 ∧ quiet.2.memos = loud.2.memos ∧
        quiet.2.pass.fontSets = loud.2.pass.fontSets ∧ quiet.2.pass.frames = loud.2.pass.frames ∧
        quiet.2.pass.log.entries = loud.2.pass.log.entries.filter (·.isError))
      ((follow schema next n []).run
        { sheet, memos, pass := .start { settings with quiet := false } })
      ((follow schema next n []).run
        { sheet, memos, pass := .start { settings with quiet := true } }) := by
  -- a quiet pass starts as a loud one does, hushed
  refine (unheard_follow schema next n [] _ _ rfl).imp fun loud quiet h => ?_
  obtain ⟨hreplies, hsession⟩ := h
  rw [show quiet.2 = loud.2.hush from hsession]
  exact ⟨hreplies.symm, rfl, rfl, rfl, rfl⟩

end Session

end MapStyle
