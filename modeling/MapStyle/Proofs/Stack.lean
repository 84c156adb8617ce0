import MapStyle.Proofs.Course
import MapStyle.Proofs.Simulation
import MapStyle.Proofs.Termination
import MapStyle.Proofs.Writing
import Mathlib.Data.List.Dedup

/-!
# The declarations being evaluated

Evaluation is told which declarations are being evaluated. Whoever evaluates may instead
keep them on a **stack** beside everything else, put a declaration there before its value
is evaluated, and take it off afterwards (`Midst`). Between the two anything may happen
that evaluation does: references that lead nowhere or in a circle are reported, other
declarations are put on the stack, and the cell of the reference that is being settled
may be filled by a reference further in.

The two ways are the same (`Midst.run_evaluate`). So whatever is on the stack when a node
is evaluated is on the stack afterwards, in the same order, and nothing else has changed
either but the cells, each of which is filled once, and the log, which got longer
(`Midst.evaluation_leaves`).
-/

namespace MapStyle

/-! ## Which declarations are entered

Of the declarations entered only those in scope matter, and neither their order nor how
often each was entered. So it may be assumed that they were entered one inside the other.
-/

namespace Scope

variable {scope : Scope} {entered entered' : List RuleId}

/-- Each declaration in scope that is entered is taken once. -/
theorem exists_nested (scope : Scope) (entered : List RuleId) :
    ∃ entered', scope.Nested entered' ∧ scope.SameEntered entered entered' := by
  refine ⟨entered.dedup.filter (· ∈ scope.declarations), ⟨?_, fun id hid => ?_⟩, fun id hid => ?_⟩
  · exact (List.nodup_dedup entered).filter _
  · exact of_decide_eq_true (List.mem_filter.mp hid).2
  · rw [List.mem_filter, List.mem_dedup, decide_eq_true_eq, and_iff_left hid]

/-- References are resolved alike, where at most so many declarations may be entered. -/
theorem resolveWithin_of_sameEntered (h : scope.SameEntered entered entered') (depth : ℕ) :
    scope.resolveWithin depth entered = scope.resolveWithin depth entered' := by
  induction depth generalizing entered entered' with
  | zero => exact congrArg once (settle_congr h fun _ _ _ _ => rfl)
  | succ depth ih =>
    refine congrArg once (settle_congr h fun id _ _ r => ?_)
    rw [ih (h.cons id)]

/-- **References are resolved alike.** -/
theorem resolve_of_sameEntered (h : scope.SameEntered entered entered') :
    scope.resolve entered = scope.resolve entered' := resolveWithin_of_sameEntered h _

/-- Nodes are evaluated alike. -/
theorem Evaluates.of_sameEntered {p : Progress} {ns ms : List Node} {es : List LookUp}
    (hes : scope.Evaluates entered p ns ms es) (h : scope.SameEntered entered entered') :
    scope.Evaluates entered' p ns ms es := by
  induction hes generalizing entered' with
  | nil => exact .nil
  | composite hn _ _ ihparts ihrest => exact .composite hn (ihparts h) (ihrest h)
  | answer hanswer _ ih =>
    refine .answer ?_ (ih h)
    cases hanswer with
    | recalled hcell => exact .recalled hcell
    | undefined hcell hb => exact .undefined hcell hb
    | circular hcell hb hid =>
      have hsame := h _ ((binds_iff_of_binding? hb _).mpr rfl).mem_declarations
      exact .circular hcell hb (hsame.mp hid)
  | enter hcell hb hid hr _ _ ihvalue ihrest =>
    have hsame := h _ ((binds_iff_of_binding? hb _).mpr rfl).mem_declarations
    exact .enter hcell hb (mt hsame.mpr hid) hr (ihvalue (h.cons _)) (ihrest h)

/-- **Evaluation gives what can be derived, and nothing else**, whatever was entered
before. -/
theorem run_evaluateWith_eq_ok_iff {p q : Progress} {n m : Node} :
    (n.evaluateWith (scope.resolve entered)).run p = .ok (m, q) ↔
      ∃ es, scope.Evaluates entered p [n] [m] es ∧ p.after es = q := by
  obtain ⟨entered', hnested, hsame⟩ := scope.exists_nested entered
  rw [resolve_of_sameEntered hsame, run_eq_ok_iff hnested]
  constructor
  · rintro ⟨es, hes, hq⟩
    exact ⟨es, hes.of_sameEntered hsame.symm, hq⟩
  · rintro ⟨es, hes, hq⟩
    exact ⟨es, hes.of_sameEntered hsame, hq⟩

/-- **Evaluation ends**, whatever was entered before, if the owners of the references are
known. -/
theorem exists_run_of_knows (h : scope.sheet.Linked) (entered : List RuleId) {n : Node}
    (hn : ∀ v ∈ n.references, scope.sheet.Knows v.owner) (p : Progress) :
    ∃ m q, (n.evaluateWith (scope.resolve entered)).run p = .ok (m, q) := by
  obtain ⟨entered', hnested, hsame⟩ := scope.exists_nested entered
  rw [resolve_of_sameEntered hsame]
  obtain ⟨m, q, hrun, -⟩ := (scope.knowing h).ends_evaluateWith hnested (p := p) hn trivial
  exact ⟨m, q, hrun⟩

end Scope

/-! ## Cells in the course of an evaluation -/

/-- **A cell is filled at most once**: up to some look-up it is empty, and from then on it
holds what it holds in the end. -/
theorem Progress.exists_get?_after_take (p : Progress) (es : List LookUp) (cell : Option ℕ) :
    ∃ i, ∀ j, (p.after (es.take j)).memos.get? cell
      = if i ≤ j then (p.after es).memos.get? cell else none := by
  induction es generalizing p with
  | nil => exact ⟨0, fun j => by rw [List.take_nil, if_pos j.zero_le]⟩
  | cons e es ih =>
    cases hcell : p.memos.get? cell with
    | some n =>
      refine ⟨0, fun j => ?_⟩
      rw [if_pos j.zero_le, (p.le_after _).1.2 _ _ hcell, (p.le_after _).1.2 _ _ hcell]
    | none =>
      obtain ⟨i, hi⟩ := ih (p.record e)
      refine ⟨i + 1, fun j => ?_⟩
      cases j with
      | zero => rw [List.take_zero, after_nil, hcell, if_neg (by simp)]
      | succ j =>
        rw [List.take_succ_cons, after_cons, after_cons, hi j]
        exact if_congr Nat.add_le_add_iff_right.symm rfl rfl

/-! ## With a stack -/

/-- **A session in the midst of evaluations.** -/
structure Midst where
  session : Session
  /-- The declarations whose values are being evaluated, the innermost last. -/
  resolving : List RuleId

namespace Midst

/-- A step in the midst of evaluations, or a broken handle. -/
abbrev Step (α : Type) := StateT Midst (Except Fault) α

/-- What references are looked up in. -/
def scope (t : Midst) : Scope := ⟨t.session.sheet, t.session.pass.frames⟩

/-- What evaluation changes. -/
def progress (t : Midst) : Progress := ⟨t.session.memos, t.session.pass.log⟩

/-- The same with other cells and another log. -/
def withProgress (t : Midst) (p : Progress) : Midst :=
  { t with session := { t.session with
      memos := p.memos, pass := { t.session.pass with log := p.log } } }

/-- The same with a declaration more on the stack. -/
def push (t : Midst) (id : RuleId) : Midst := { t with resolving := t.resolving ++ [id] }

/-- A declaration is put on the stack, unless it is there already. -/
def begin (id : RuleId) : Step Bool := do
  let t ← get
  if id ∈ t.resolving then return false
  else
    set (t.push id)
    return true

/-- **A declaration is taken off the stack** where it was put there last, if it was. -/
def finish (id : RuleId) : Step Unit :=
  modify fun t => { t with resolving := (t.resolving.reverse.erase id).reverse }

/-- A report. -/
def report (d : Diagnostic) : Step Unit :=
  modify fun t => t.withProgress (t.progress.report d)

/-- The value of a reference that is bound to a declaration or to none. A declaration
stays on the stack for as long as `enter` evaluates it. -/
def answer (enter : Rule → Step Node) (v : Variable) : Option RuleId → Step Node
  | none => do
    report v.undefinedReport
    return .undefined
  | some id => do
    if ← begin id then
      let n ← enter (← (← get).session.sheet.rule id)
      finish id
      return n
    else
      report v.circularReport
      return .undefined

/-- The value of a reference by its declaration. -/
def settle (enter : Rule → Step Node) (v : Variable) : Step Node := do
  answer enter v (← (← get).scope.binding? v)

/-- A reference is settled once. -/
def once (settle : Variable → Step Node) (v : Variable) : Step Node := do
  match (← get).session.memos.get? v.cell with
  | some n => return n
  | none =>
    let n ← settle v
    modify fun t => t.withProgress (t.progress.remember v n)
    return n

/-- The value of a reference, where at most so many declarations may be entered. -/
def resolveWithin : ℕ → Variable → Step Node
  | 0 => once <| settle fun _ => throw .endlessResolution
  | depth + 1 => once <| settle fun declaration =>
    declaration.value.node.walk (resolveWithin depth)

/-- **The node with the values of its references**, in the midst of evaluations. -/
def evaluate (n : Node) : Step Node := do
  n.walk (resolveWithin (← get).scope.declarations.length)

/-! ### The two ways are the same -/

/-- **Evaluation got so far** in the midst of evaluations: everything is as it was but the
cells and the log. -/
def GotTo (t s : Midst) (p : Progress) : Prop := s = t.withProgress p

/-- References are looked up in step: with a stack, and with a list of what is on it. -/
def Mirrors (t : Midst) (lookUp : Variable → Step Node)
    (lookUp' : Variable → Evaluation Node) : Prop :=
  ∀ v, InStep t.GotTo Eq (lookUp v) (lookUp' v)

variable {t : Midst}

/-- The state is looked at first. -/
theorem run_get_bind {α : Type} (f : Midst → Step α) (t : Midst) :
    (get >>= f).run t = (f t).run t := rfl

/-- A declaration that is on the stack is not put there again. -/
theorem run_begin_of_mem {id : RuleId} (h : id ∈ t.resolving) :
    (begin id).run t = .ok (false, t) := by
  rw [begin, run_get_bind, if_pos h]
  rfl

/-- Any other is. -/
theorem run_begin_of_notMem {id : RuleId} (h : id ∉ t.resolving) :
    (begin id).run t = .ok (true, t.push id) := by
  rw [begin, run_get_bind, if_neg h]
  rfl

/-- **What was put on the stack last is taken off**, and what was there before is there. -/
theorem run_finish (t : Midst) (id : RuleId) (p : Progress) :
    (finish id).run ((t.push id).withProgress p) = .ok ((), t.withProgress p) := by
  have herase : ((t.resolving ++ [id]).reverse.erase id).reverse = t.resolving := by
    rw [List.reverse_append, List.reverse_singleton, List.singleton_append, List.erase_cons_head,
      List.reverse_reverse]
  show Except.ok ((), { t.withProgress p with
    resolving := ((t.resolving ++ [id]).reverse.erase id).reverse }) = _
  rw [herase]
  rfl

/-- What a reference is bound to decides. -/
theorem run_settle {v : Variable} {b : Option RuleId} (h : t.scope.binding? v = .ok b)
    (enter : Rule → Step Node) : (settle enter v).run t = (answer enter v b).run t := by
  rw [settle, run_get_bind, h]
  rfl

/-- A declaration is entered and left again. -/
theorem run_answer_of_notMem {id : RuleId} (hid : id ∉ t.resolving) {r : Rule}
    (hr : t.session.sheet.rules[id.index]? = some r) (enter : Rule → Step Node) (v : Variable) :
    (answer enter v (some id)).run t
      = (do let n ← enter r; finish id; return n : Step Node).run (t.push id) := by
  have hrule : (t.push id).session.sheet.rule id = .ok r := Stylesheet.rule_eq_ok_iff.mpr hr
  rw [answer, StateT.run_bind, run_begin_of_notMem hid, Fault.ok_bind, if_pos rfl, run_get_bind,
    hrule]
  rfl

/-- **A declaration decides in step**, if declarations are entered in step. -/
theorem settle_inStep {enter : Rule → Step Node} {enter' : Rule → RuleId → Evaluation Node}
    (h : ∀ id r, InStep (t.push id).GotTo Eq (enter r) (enter' r id)) :
    t.Mirrors (settle enter) (t.scope.settle t.resolving enter') := by
  rintro v s p rfl
  have hscope : (t.withProgress p).scope = t.scope := rfl
  cases hb : t.scope.binding? v with
  | error e =>
    rw [settle, run_get_bind, hscope, Scope.settle, hb]
    exact .fault e
  | ok b =>
    rw [run_settle (hscope ▸ hb)]
    cases b with
    | none =>
      rw [Scope.run_settle_of_none _ p hb]
      exact .result ⟨rfl, rfl⟩
    | some id =>
      by_cases hid : id ∈ t.resolving
      · rw [Scope.run_settle_of_mem _ p hb hid, answer, StateT.run_bind,
          run_begin_of_mem (show id ∈ (t.withProgress p).resolving from hid)]
        exact .result ⟨rfl, rfl⟩
      · obtain ⟨r, hr⟩ := ((Scope.binds_iff_of_binding? hb id).mpr rfl).exists_rule
        rw [Scope.run_settle_of_notMem _ p hb hid hr,
          run_answer_of_notMem (t := t.withProgress p) hid hr, StateT.run_bind]
        -- the declaration is on the stack as long as it is evaluated, and nothing above it
        rw [← bind_pure ((enter' r id).run p)]
        refine (h id r _ p rfl).bind fun a b hab => ?_
        obtain ⟨n, s⟩ := a
        obtain ⟨rfl, rfl⟩ : n = b.1 ∧ s = (t.push id).withProgress b.2 := hab
        rw [StateT.run_bind, run_finish]
        exact .result ⟨rfl, rfl⟩

/-- Cells answer in step, and are filled in step. -/
theorem once_inStep {settle : Variable → Step Node} {settle' : Variable → Evaluation Node}
    (h : t.Mirrors settle settle') : t.Mirrors (once settle) (Scope.once settle') := by
  intro v
  unfold once Scope.once
  refine InStep.get.bind fun s p hs => ?_
  subst hs
  show InStep _ _ (match p.memos.get? v.cell with | some n => _ | none => _) _
  cases p.memos.get? v.cell with
  | some n => exact .pure rfl
  | none =>
    refine (h v).bind fun n n' hn => ?_
    subst hn
    refine (InStep.modify fun s q hs => ?_).bind fun _ _ _ => .pure rfl
    subst hs
    rfl

/-- References are looked up in step, where at most so many declarations may be
entered. -/
theorem resolveWithin_inStep (t : Midst) (depth : ℕ) :
    t.Mirrors (resolveWithin depth) (t.scope.resolveWithin depth t.resolving) := by
  induction depth generalizing t with
  | zero => exact once_inStep (settle_inStep fun _ _ => .fault _)
  | succ depth ih =>
    refine once_inStep (settle_inStep fun id r => ?_)
    -- the stack has the declaration at its end, the list at its front
    have hsame : t.scope.SameEntered (id :: t.resolving) (t.push id).resolving := by
      intro other _
      simp [push, or_comm]
    rw [Scope.resolveWithin_of_sameEntered hsame]
    show InStep _ _ _ (r.value.node.evaluateWith (t.scope.resolveWithin depth _))
    rw [← Node.walk_eq_evaluateWith]
    exact InStep.walk Node.congruent_eq (ih (t.push id)) rfl

/-- **The two ways are the same**: a node is evaluated with a stack as it is with a list
of what is on the stack, and nothing changes but the cells and the log. -/
theorem run_evaluate (t : Midst) (n : Node) :
    (evaluate n).run t = (fun r => (r.1, t.withProgress r.2)) <$>
      (n.evaluateWith (t.scope.resolve t.resolving)).run t.progress := by
  have hstep := InStep.walk Node.congruent_eq
    (t.resolveWithin_inStep t.scope.declarations.length) (rfl : n = n) t t.progress rfl
  rw [Node.walk_eq_evaluateWith, ← Scope.resolve] at hstep
  refine Agree.eq_map (hstep.imp fun a b hab => ?_)
  exact Prod.ext hab.1 (show a.2 = t.withProgress b.2 from hab.2)

/-- With nothing on the stack a node is evaluated as in the session alone. -/
theorem run_evaluate_nil (s : Session) (n : Node) :
    (evaluate n).run ⟨s, []⟩ = (fun r => (r.1, ⟨r.2, []⟩)) <$> (Session.evaluateNode n).run s := by
  rw [run_evaluate, Session.evaluateNode, Session.run_evaluate, Functor.map_map]
  rfl

/-! ### What is left as it was -/

/-- **Evaluation leaves everything but the cells and the log as it was**, whatever is in
scope and on the stack and whatever the cells hold. It is told by look-ups, each of which
may have led nowhere or in a circle, and does what these do: the log has new entries at its
end, no cell was added, and each cell was empty up to one of them and has held what it
holds ever since. With nothing on the stack this is evaluation in a session; and in a
stylesheet built with its own handles it ends, if the owners of the references are
known. -/
theorem evaluation_leaves (t : Midst) (n : Node) :
    (∀ m t', (evaluate n).run t = .ok (m, t') → ∃ es : List LookUp,
      t.scope.Evaluates t.resolving t.progress [n] [m] es ∧
      t' = { session := { t.session with
               memos := t'.session.memos
               pass := { t.session.pass with log := t'.session.pass.log } }
             resolving := t.resolving } ∧
      (∃ new, t'.session.pass.log
        = { t.session.pass.log with entries := t.session.pass.log.entries ++ new }) ∧
      t'.session.memos.next = t.session.memos.next ∧
      ∀ cell, ∃ i, ∀ j, (t.progress.after (es.take j)).memos.get? cell
        = if i ≤ j then t'.session.memos.get? cell else none) ∧
    (∀ s, (evaluate n).run ⟨s, []⟩
      = (fun r => (r.1, ⟨r.2, []⟩)) <$> (Session.evaluateNode n).run s) ∧
    ∀ memos, t.session.sheet.Built memos →
      (∀ v ∈ n.references, t.session.sheet.Knows v.owner) →
      ∃ m t', (evaluate n).run t = .ok (m, t') := by
  refine ⟨fun m t' hrun => ?_, fun s => run_evaluate_nil s n, fun memos hbuilt hknows => ?_⟩
  · rw [run_evaluate, map_eq_pure_bind, Fault.bind_eq_ok_iff] at hrun
    obtain ⟨⟨m', q⟩, hq, hm⟩ := hrun
    obtain ⟨rfl, rfl⟩ := Prod.mk.inj (Except.ok.inj hm)
    obtain ⟨es, hes, rfl⟩ := Scope.run_evaluateWith_eq_ok_iff.mp hq
    obtain ⟨hquiet, new, hnew⟩ := (t.progress.le_after es).2
    refine ⟨es, hes, rfl, ⟨new, ?_⟩, t.progress.next_after es,
      t.progress.exists_get?_after_take es⟩
    show (t.progress.after es).log = ⟨t.progress.log.entries ++ new, t.progress.log.quiet⟩
    rw [← hnew, hquiet]
  · have hlinked : t.scope.sheet.Linked := hbuilt.linked
    obtain ⟨m, q, hq⟩ := Scope.exists_run_of_knows hlinked t.resolving hknows t.progress
    refine ⟨m, t.withProgress q, ?_⟩
    rw [run_evaluate, hq]
    rfl

/-- The stylesheet with a circle, while the second of its variables is being
evaluated. -/
def withinCircle : Midst where
  session.sheet := .circle
  session.memos := Stylesheet.circleAndCells.2
  session.pass := (Pass.start {}).push [⟨0⟩, ⟨1⟩, ⟨3⟩]
  resolving := [⟨1⟩]

/-- A reference that leads nowhere and one that leads in a circle leave the variable on the
stack. -/
theorem withinCircle_is_left :
    ∃ m t', (evaluate (.expression [.variable (Stylesheet.refer "@nope"),
        .variable (Stylesheet.refer "@a")])).run withinCircle = .ok (m, t') ∧
      t'.resolving = [⟨1⟩] ∧ t'.session.pass.frames = [⟨0⟩, ⟨1⟩, ⟨3⟩] ∧
      t'.session.memos.next = 4 := by
  have hleaves := evaluation_leaves withinCircle (.expression
    [.variable (Stylesheet.refer "@nope"), .variable (Stylesheet.refer "@a")])
  obtain ⟨m, t', hrun⟩ := hleaves.2.2 _ Stylesheet.built_circle (by
    intro v hv
    obtain rfl | rfl : v = Stylesheet.refer "@nope" ∨ v = Stylesheet.refer "@a" := by
      simpa [Node.references] using hv
    · trivial
    · trivial)
  obtain ⟨-, -, ht', -, hnext, -⟩ := hleaves.1 m t' hrun
  refine ⟨m, t', hrun, ?_, ?_, hnext⟩
  · rw [ht']
    rfl
  · rw [ht']
    rfl

end Midst

end MapStyle
