import MapStyle.Proofs.Binding
import MapStyle.Proofs.Parts
import Mathlib.Data.List.Perm.Subperm

/-!
# How references are resolved

Looking up a reference enters a declaration, whose references are looked up in
turn. The declarations entered at a time are all different and all in scope
(`Scope.Nested`), so there are never more of them than there are declarations
in scope, and the bound that `Scope.resolve` puts on them is never what stops
an evaluation: with or without it, references are resolved by one and the same
equation (`Scope.resolve_eq`).

A declaration is entered as a node of its own, its value with the components
side by side (`Value.node`), so there is one kind of evaluation only: that of a
node.
-/

namespace MapStyle

/-- **The value as a node**, its components not yet collapsed. -/
def Value.node (v : Value) : Node := .value v.components

namespace Evaluation

/-- A computation in two steps, the first of which succeeded. -/
theorem run_bind_of_eq_ok {α β : Type} {x : Evaluation α} {f : α → Evaluation β}
    {p q : Progress} {a : α} (h : x.run p = .ok (a, q)) : (x >>= f).run p = (f a).run q := by
  rw [StateT.run_bind, h]
  rfl

/-- A computation in two steps succeeded if both did. -/
theorem exists_of_run_bind_eq_ok {α β : Type} {x : Evaluation α} {f : α → Evaluation β}
    {p q : Progress} {b : β} (h : (x >>= f).run p = .ok (b, q)) :
    ∃ a o, x.run p = .ok (a, o) ∧ (f a).run o = .ok (b, q) := by
  rw [StateT.run_bind] at h
  cases hx : x.run p with
  | error e =>
    rw [hx] at h
    cases h
  | ok r =>
    rw [hx] at h
    exact ⟨r.1, r.2, rfl, h⟩

/-- The result of a computation that succeeded, changed. -/
theorem run_map_of_eq_ok {α β : Type} {x : Evaluation α} {f : α → β} {p q : Progress} {a : α}
    (h : x.run p = .ok (a, q)) : (f <$> x).run p = .ok (f a, q) := by
  rw [StateT.run_map, h]
  rfl

/-- A changed result is the change of a result. -/
theorem exists_of_run_map_eq_ok {α β : Type} {x : Evaluation α} {f : α → β} {p q : Progress}
    {b : β} (h : (f <$> x).run p = .ok (b, q)) : ∃ a, x.run p = .ok (a, q) ∧ f a = b := by
  rw [StateT.run_map] at h
  cases hx : x.run p with
  | error e =>
    rw [hx] at h
    cases h
  | ok r =>
    obtain ⟨a, o⟩ := r
    rw [hx] at h
    obtain ⟨rfl, rfl⟩ := Prod.mk.inj (Except.ok.inj h)
    exact ⟨a, rfl, rfl⟩

end Evaluation

namespace Scope

/-! ## One reference -/

/-- A full cell answers. -/
theorem run_once_of_some {settle : Variable → Evaluation Node} {v : Variable} {p : Progress}
    {n : Node} (h : p.memos.get? v.cell = some n) : (once settle v).run p = .ok (n, p) := by
  have hget : (get : Evaluation Progress).run p = .ok (p, p) := rfl
  rw [once, Evaluation.run_bind_of_eq_ok hget, h]
  rfl

/-- A reference whose cell is empty is settled, and its cell filled. -/
theorem run_once_of_none {settle : Variable → Evaluation Node} {v : Variable} {p q : Progress}
    {n : Node} (h : p.memos.get? v.cell = none) (hs : (settle v).run p = .ok (n, q)) :
    (once settle v).run p = .ok (n, q.remember v n) := by
  have hget : (get : Evaluation Progress).run p = .ok (p, p) := rfl
  rw [once, Evaluation.run_bind_of_eq_ok hget, h]
  dsimp only
  rw [Evaluation.run_bind_of_eq_ok hs]
  rfl

/-- A reference whose cell was empty was settled, and its cell filled. -/
theorem exists_run_settle_of_run_once {settle : Variable → Evaluation Node} {v : Variable}
    {p q : Progress} {n : Node} (h : p.memos.get? v.cell = none)
    (hrun : (once settle v).run p = .ok (n, q)) :
    ∃ o, (settle v).run p = .ok (n, o) ∧ o.remember v n = q := by
  have hget : (get : Evaluation Progress).run p = .ok (p, p) := rfl
  rw [once, Evaluation.run_bind_of_eq_ok hget, h] at hrun
  obtain ⟨m, o, hsettle, hrun⟩ := Evaluation.exists_of_run_bind_eq_ok hrun
  obtain ⟨rfl, rfl⟩ :=
    Prod.mk.inj (Except.ok.inj (show Except.ok (m, o.remember v m) = .ok (n, q) from hrun))
  exact ⟨o, hsettle, rfl⟩

/-- **The declarations in scope that are entered are the same.** -/
def SameEntered (scope : Scope) (entered entered' : List RuleId) : Prop :=
  ∀ id ∈ scope.declarations, id ∈ entered ↔ id ∈ entered'

namespace SameEntered

variable {scope : Scope} {entered entered' : List RuleId}

protected theorem rfl : scope.SameEntered entered entered := fun _ _ => Iff.rfl

theorem symm (h : scope.SameEntered entered entered') : scope.SameEntered entered' entered :=
  fun id hid => (h id hid).symm

/-- One declaration more is entered. -/
theorem cons (h : scope.SameEntered entered entered') (id : RuleId) :
    scope.SameEntered (id :: entered) (id :: entered') := by
  intro other hother
  rw [List.mem_cons, List.mem_cons, h other hother]

end SameEntered

section Settling

variable {scope : Scope} {v : Variable} {entered : List RuleId}
  (enter : Rule → RuleId → Evaluation Node) (p : Progress)

/-- What a reference is bound to was found out, if it was settled. -/
theorem exists_binding?_of_run_settle {q : Progress} {n : Node}
    (h : (scope.settle entered enter v).run p = .ok (n, q)) : ∃ b, scope.binding? v = .ok b := by
  cases hb : scope.binding? v with
  | error e =>
    rw [settle, hb] at h
    cases h
  | ok b => exact ⟨b, rfl⟩

/-- A reference without a declaration is reported. -/
theorem run_settle_of_none (h : scope.binding? v = .ok none) :
    (scope.settle entered enter v).run p = .ok (.undefined, p.report v.undefinedReport) := by
  rw [settle, h]
  rfl

/-- A reference to a declaration that is being evaluated is reported. -/
theorem run_settle_of_mem {id : RuleId} (h : scope.binding? v = .ok (some id))
    (hid : id ∈ entered) :
    (scope.settle entered enter v).run p = .ok (.undefined, p.report v.circularReport) := by
  rw [settle, h]
  show (if id ∈ entered then _ else _ : Evaluation Node).run p = _
  rw [if_pos hid]
  rfl

/-- Any other declaration is entered. -/
theorem run_settle_of_notMem {id : RuleId} (h : scope.binding? v = .ok (some id))
    (hid : id ∉ entered) {r : Rule} (hr : scope.sheet.rules[id.index]? = some r) :
    (scope.settle entered enter v).run p = (enter r id).run p := by
  rw [settle, h]
  show (if id ∈ entered then _ else _ : Evaluation Node).run p = _
  rw [if_neg hid, Stylesheet.rule_eq_ok_iff.mpr hr]
  rfl

/-- **Only declarations in scope are entered**, and none inside itself. Of those entered
before, no others matter, and neither does their order. -/
theorem settle_congr {entered' : List RuleId} (hsame : scope.SameEntered entered entered')
    {enter enter' : Rule → RuleId → Evaluation Node}
    (h : ∀ id ∈ scope.declarations, id ∉ entered → ∀ r, enter r id = enter' r id) :
    scope.settle entered enter = scope.settle entered' enter' := by
  funext v
  rw [settle, settle]
  cases hb : scope.binding? v with
  | error e => rfl
  | ok b =>
    cases b with
    | none => rfl
    | some id =>
      have hmem := ((binds_iff_of_binding? hb id).mpr rfl).mem_declarations
      show (if id ∈ entered then _ else _ : Evaluation Node) = if id ∈ entered' then _ else _
      by_cases hid : id ∈ entered
      · rw [if_pos hid, if_pos ((hsame id hmem).mp hid)]
      · rw [if_neg hid, if_neg (mt (hsame id hmem).mpr hid)]
        exact congrArg (liftM (scope.sheet.rule id) >>= ·) (funext (h id hmem hid))

end Settling

/-! ## The declarations entered -/

/-- **Declarations entered one inside the other**: declarations in scope, all
different. -/
structure Nested (scope : Scope) (entered : List RuleId) : Prop where
  nodup : entered.Nodup
  subset : entered ⊆ scope.declarations

namespace Nested

variable {scope : Scope} {entered : List RuleId}

theorem nil : scope.Nested [] := ⟨List.nodup_nil, List.nil_subset _⟩

/-- One declaration more may be entered. -/
theorem cons (h : scope.Nested entered) {id : RuleId} (hid : id ∈ scope.declarations)
    (hnew : id ∉ entered) : scope.Nested (id :: entered) :=
  ⟨List.nodup_cons.mpr ⟨hnew, h.nodup⟩, List.cons_subset.mpr ⟨hid, h.subset⟩⟩

/-- **No more declarations are entered than there are in scope.** -/
theorem length_le (h : scope.Nested entered) : entered.length ≤ scope.declarations.length :=
  (h.nodup.subperm h.subset).length_le

/-- As long as a declaration in scope is not entered, there are fewer. -/
theorem length_lt (h : scope.Nested entered) {id : RuleId} (hid : id ∈ scope.declarations)
    (hnew : id ∉ entered) : entered.length < scope.declarations.length :=
  (h.cons hid hnew).length_le

end Nested

/-- What is done with a declaration that is entered, where at most so many may
be entered. -/
def enterWithin (scope : Scope) : ℕ → List RuleId → Rule → RuleId → Evaluation Node
  | 0, _, _, _ => throw .endlessResolution
  | depth + 1, entered, declaration, id =>
    return .ofComponents
      (← Node.evaluateAllWith (scope.resolveWithin depth (id :: entered))
        declaration.value.components)

theorem resolveWithin_eq (scope : Scope) (depth : ℕ) (entered : List RuleId) :
    scope.resolveWithin depth entered
      = once (scope.settle entered (scope.enterWithin depth entered)) := by
  cases depth with
  | zero => rfl
  | succ depth => rfl

/-- **The bound is never felt**: any two bounds that leave room for the
declarations in scope resolve references alike. -/
theorem resolveWithin_congr {scope : Scope} {entered : List RuleId} (h : scope.Nested entered)
    {depth depth' : ℕ} (hd : scope.declarations.length ≤ depth + entered.length)
    (hd' : scope.declarations.length ≤ depth' + entered.length) :
    scope.resolveWithin depth entered = scope.resolveWithin depth' entered := by
  induction depth generalizing depth' entered with
  | zero =>
    rw [resolveWithin_eq, resolveWithin_eq]
    refine congrArg once (settle_congr .rfl (fun id hid hnew r => ?_))
    -- every declaration in scope is entered already
    have := h.length_lt hid hnew
    omega
  | succ depth ih =>
    rw [resolveWithin_eq, resolveWithin_eq]
    refine congrArg once (settle_congr .rfl (fun id hid hnew r => ?_))
    have hlt := h.length_lt hid hnew
    cases depth' with
    | zero => omega
    | succ depth' =>
      have hinner : scope.resolveWithin depth (id :: entered)
          = scope.resolveWithin depth' (id :: entered) := by
        refine ih (h.cons hid hnew) ?_ ?_
        · rw [List.length_cons]
          omega
        · rw [List.length_cons]
          omega
      rw [enterWithin, enterWithin, hinner]

/-- **How a reference is resolved**, without a bound: what its cell holds, or
what its declaration comes down to when its references are resolved in turn,
inside of it. -/
theorem resolve_eq {scope : Scope} {entered : List RuleId} (h : scope.Nested entered) :
    scope.resolve entered = once (scope.settle entered fun declaration id =>
      declaration.value.node.evaluateWith (scope.resolve (id :: entered))) := by
  have hroom : scope.resolve entered
      = scope.resolveWithin (scope.declarations.length + 1) entered :=
    resolveWithin_congr h (by omega) (by omega)
  rw [hroom, resolveWithin_eq]
  refine congrArg once (settle_congr .rfl (fun id _ _ r => ?_))
  rw [enterWithin, Value.node, Node.evaluateWith]
  rfl

/-- Scopes with the same rules that bind references alike resolve them alike, as
long as at most so many declarations are entered. -/
theorem resolveWithin_of_binding? {scope scope' : Scope}
    (hrules : scope.sheet.rules = scope'.sheet.rules) (hb : scope.binding? = scope'.binding?)
    (depth : ℕ) (entered : List RuleId) :
    scope.resolveWithin depth entered = scope'.resolveWithin depth entered := by
  have hsettle : scope.settle = scope'.settle := by
    funext entered enter v
    rw [settle, settle, hb, show scope.sheet.rule = scope'.sheet.rule by
      funext id
      rw [Stylesheet.rule, Stylesheet.rule, hrules]]
  induction depth generalizing entered with
  | zero => rw [resolveWithin, resolveWithin, hsettle]
  | succ depth ih =>
    rw [resolveWithin, resolveWithin, hsettle]
    simp only [ih]

/-- **Scopes with the same rules that bind references alike resolve them
alike.** -/
theorem resolve_of_binding? {scope scope' : Scope}
    (hrules : scope.sheet.rules = scope'.sheet.rules) (hb : scope.binding? = scope'.binding?)
    {entered : List RuleId} (h : scope.Nested entered) (h' : scope'.Nested entered) :
    scope.resolve entered = scope'.resolve entered := by
  -- the two may not have the same number of declarations, but there is a bound for both
  let depth := max scope.declarations.length scope'.declarations.length
  calc scope.resolve entered
      = scope.resolveWithin depth entered := resolveWithin_congr h (by omega) (by omega)
    _ = scope'.resolveWithin depth entered := resolveWithin_of_binding? hrules hb depth entered
    _ = scope'.resolve entered := resolveWithin_congr h' (by omega) (by omega)

end Scope

end MapStyle
