import MapStyle.Proofs.Growth
import MapStyle.Proofs.Resolution
import Mathlib.Logic.Relation

/-!
# What holds in the course of an evaluation

An evaluation looks up references, which fill cells and add to the log, in an
order that depends on what the cells hold already. What is true of all of them
is shown step by step. An **invariant** (`Scope.Invariant`) says what is known of
the references that are met, of the cells and the log between two steps, and of
what a reference was found to stand for; its conditions are the steps of an
evaluation. From these it follows that a reference, a node or a list of nodes is
evaluated without a fault and that the invariant still holds
(`Scope.Invariant.ends_resolve`, `Scope.Invariant.ends_evaluateWith`).

An evaluation consists of smaller ones, of the parts of a node and of the values
of the declarations that are entered (`Scope.Spawns`). They all satisfy the
conditions that the whole satisfies (`Scope.Invariant.Admits.spawned`), and they
are nested in each other to a finite depth only (`Scope.acc_spawns`).
-/

namespace MapStyle

namespace Scope

/-- **An invariant of evaluation** in a scope. -/
structure Invariant (scope : Scope) where
  /-- The references that are met while declarations are entered. -/
  Meets : List RuleId → Variable → Prop
  /-- The cells and the log between two steps. -/
  Keeps : Progress → Prop
  /-- What a reference was found to stand for. -/
  Finds : Progress → Variable → Node → Prop
  /-- What is found stays found. -/
  grows : ∀ {p q : Progress} {v : Variable} {n : Node}, p ≤ q → Finds p v n → Finds q v n
  /-- What a reference that is met is bound to can be found out. -/
  binds : ∀ {entered : List RuleId} {v : Variable}, Meets entered v →
    ∃ b, scope.binding? v = .ok b
  /-- The references of a declaration that is entered are met. -/
  enters : ∀ {entered : List RuleId} {v : Variable} {id : RuleId} {r : Rule},
    Meets entered v → scope.Binds v.name id → id ∉ entered →
    scope.sheet.rules[id.index]? = some r → ∀ w ∈ r.value.references, Meets (id :: entered) w
  /-- A full cell answers. -/
  recalls : ∀ {entered : List RuleId} {v : Variable} {p : Progress} {n : Node},
    Meets entered v → Keeps p → p.memos.get? v.cell = some n → Finds p v n
  /-- A reference without a declaration is reported. -/
  misses : ∀ {entered : List RuleId} {v : Variable} {p : Progress},
    Meets entered v → Keeps p → (∀ id, ¬scope.Binds v.name id) →
    Keeps (p.report v.undefinedReport) ∧ Finds (p.report v.undefinedReport) v .undefined
  /-- A reference to a declaration that is entered already is reported. -/
  circles : ∀ {entered : List RuleId} {v : Variable} {id : RuleId} {p : Progress},
    Meets entered v → Keeps p → scope.Binds v.name id → id ∈ entered →
    Keeps (p.report v.circularReport) ∧ Finds (p.report v.circularReport) v .undefined
  /-- Any other stands for the value of its declaration. -/
  leaves : ∀ {entered : List RuleId} {v : Variable} {id : RuleId} {r : Rule} {p : Progress}
    {n : Node}, Meets entered v → Keeps p → scope.Binds v.name id → id ∉ entered →
    scope.sheet.rules[id.index]? = some r → Node.Replaced (Finds p) r.value.node n → Finds p v n
  /-- What is found may be remembered. -/
  remembers : ∀ {entered : List RuleId} {v : Variable} {p : Progress} {n : Node},
    Meets entered v → Keeps p → Finds p v n → Keeps (p.remember v n)

namespace Invariant

variable {scope : Scope} (inv : scope.Invariant)

/-- **A computation ends well**: without a fault, having made progress, with the
invariant kept and something found. -/
def Ends {α : Type} (x : Evaluation α) (p : Progress) (Found : Progress → α → Prop) : Prop :=
  ∃ a q, x.run p = .ok (a, q) ∧ p ≤ q ∧ inv.Keeps q ∧ Found q a

/-- What a node was found to stand for stays found. -/
theorem replaced_grows {p q : Progress} (hle : p ≤ q) {n m : Node}
    (h : n.Replaced (inv.Finds p) m) : n.Replaced (inv.Finds q) m :=
  h.imp (fun _ _ _ hk => inv.grows hle hk)

/-- **Several nodes are evaluated** if each of them can be. -/
theorem ends_evaluateAllWith_of {lookUp : Variable → Evaluation Node} {ns : List Node}
    (h : ∀ n ∈ ns, ∀ p, inv.Keeps p →
      inv.Ends (n.evaluateWith lookUp) p fun q m => n.Replaced (inv.Finds q) m)
    {p : Progress} (hp : inv.Keeps p) :
    inv.Ends (Node.evaluateAllWith lookUp ns) p
      fun q ms => List.Forall₂ (Node.Replaced (inv.Finds q)) ns ms := by
  induction ns generalizing p with
  | nil => exact ⟨[], p, rfl, le_refl p, hp, .nil⟩
  | cons n ns ih =>
    obtain ⟨m, q, hrun, hpq, hq, hm⟩ := h n List.mem_cons_self p hp
    obtain ⟨ms, o, hruns, hqo, ho, hms⟩ :=
      ih (fun k hk => h k (List.mem_cons_of_mem _ hk)) hq
    refine ⟨m :: ms, o, ?_, hpq.trans hqo, ho, .cons (inv.replaced_grows hqo hm) hms⟩
    rw [Node.evaluateAllWith, Evaluation.run_bind_of_eq_ok hrun,
      Evaluation.run_bind_of_eq_ok hruns]
    rfl

/-- **A node is evaluated** if its references can be looked up. -/
theorem ends_evaluateWith_of {lookUp : Variable → Evaluation Node} {n : Node}
    (h : ∀ v ∈ n.references, ∀ p, inv.Keeps p →
      inv.Ends (lookUp v) p fun q m => inv.Finds q v m)
    {p : Progress} (hp : inv.Keeps p) :
    inv.Ends (n.evaluateWith lookUp) p fun q m => n.Replaced (inv.Finds q) m := by
  induction n using Node.partInduction generalizing p with
  | reference v =>
    obtain ⟨m, q, hrun, hpq, hq, hm⟩ := h v (by simp [Node.references]) p hp
    exact ⟨m, q, hrun, hpq, hq, .reference hm⟩
  | composite n hn ih =>
    obtain ⟨ms, q, hrun, hpq, hq, hms⟩ := inv.ends_evaluateAllWith_of
      (fun m hm p hp => ih m hm (fun v hv => h v (Node.mem_references_of_mem_parts hm hv)) hp) hp
    refine ⟨n.rebuild ms, q, ?_, hpq, hq, .composite hn hms⟩
    rw [Node.evaluateWith_of_not_isReference lookUp hn, Evaluation.run_map_of_eq_ok hrun]

/-- **A reference is looked up without a fault**, and the invariant is kept.

The references of the declaration that is entered come first. They are not
smaller than the reference, but fewer declarations are left to be entered. -/
theorem ends_resolve {entered : List RuleId} (h : scope.Nested entered) {v : Variable}
    (hv : inv.Meets entered v) {p : Progress} (hp : inv.Keeps p) :
    inv.Ends (scope.resolve entered v) p fun q n => inv.Finds q v n := by
  rw [resolve_eq h]
  cases hcell : p.memos.get? v.cell with
  | some n => exact ⟨n, p, run_once_of_some hcell, le_refl p, hp, inv.recalls hv hp hcell⟩
  | none =>
    -- the declaration that the reference is bound to decides, and then the cell is filled
    have hsettle : inv.Ends (scope.settle entered (fun declaration id =>
        declaration.value.node.evaluateWith (scope.resolve (id :: entered))) v) p
        fun q n => inv.Finds q v n := by
      obtain ⟨b, hb⟩ := inv.binds hv
      have hbinds := binds_iff_of_binding? hb
      cases b with
      | none =>
        obtain ⟨hk, hf⟩ := inv.misses hv hp (fun id hid => absurd ((hbinds id).mp hid) (by simp))
        exact ⟨_, _, run_settle_of_none _ p hb, Progress.le_report p _, hk, hf⟩
      | some id =>
        have hid : scope.Binds v.name id := (hbinds id).mpr rfl
        by_cases hin : id ∈ entered
        · obtain ⟨hk, hf⟩ := inv.circles hv hp hid hin
          exact ⟨_, _, run_settle_of_mem _ p hb hin, Progress.le_report p _, hk, hf⟩
        · -- this is where the recursion jumps out of the node, into another declaration
          obtain ⟨r, hr⟩ := hid.exists_rule
          have hmeets := inv.enters hv hid hin hr
          have hnested := h.cons hid.mem_declarations hin
          have hfewer := h.length_lt hid.mem_declarations hin
          have hvalue : inv.Ends (r.value.node.evaluateWith (scope.resolve (id :: entered))) p
              fun q m => r.value.node.Replaced (inv.Finds q) m := by
            refine inv.ends_evaluateWith_of (fun w hw o ho => ?_) hp
            exact ends_resolve hnested (hmeets w hw) ho
          obtain ⟨m, q, hrun, hpq, hq, hm⟩ := hvalue
          refine ⟨m, q, ?_, hpq, hq, inv.leaves hv hq hid hin hr hm⟩
          rw [run_settle_of_notMem _ p hb hin hr, hrun]
    obtain ⟨n, q, hrun, hpq, hq, hn⟩ := hsettle
    exact ⟨n, q.remember v n, run_once_of_none hcell hrun,
      hpq.trans (Progress.le_remember q v n), inv.remembers hv hq hn,
      inv.grows (Progress.le_remember q v n) hn⟩
termination_by scope.declarations.length - entered.length
decreasing_by
  rw [List.length_cons]
  omega

/-- **A node is evaluated without a fault**, and the invariant is kept. -/
theorem ends_evaluateWith {entered : List RuleId} (h : scope.Nested entered) {n : Node}
    (hn : ∀ v ∈ n.references, inv.Meets entered v) {p : Progress} (hp : inv.Keeps p) :
    inv.Ends (n.evaluateWith (scope.resolve entered)) p
      fun q m => n.Replaced (inv.Finds q) m :=
  inv.ends_evaluateWith_of (fun v hv _ hp => inv.ends_resolve h (hn v hv) hp) hp

/-- **Several nodes are evaluated without a fault**, and the invariant is
kept. -/
theorem ends_evaluateAllWith {entered : List RuleId} (h : scope.Nested entered)
    {ns : List Node} (hns : ∀ n ∈ ns, ∀ v ∈ n.references, inv.Meets entered v) {p : Progress}
    (hp : inv.Keeps p) :
    inv.Ends (Node.evaluateAllWith (scope.resolve entered) ns) p
      fun q ms => List.Forall₂ (Node.Replaced (inv.Finds q)) ns ms :=
  inv.ends_evaluateAllWith_of (fun n hn _ hp => inv.ends_evaluateWith h (hns n hn) hp) hp

end Invariant

/-! ## Evaluations in evaluations -/

/-- **An evaluation to be made**: of a node, while declarations are entered, from
some cells and log. -/
structure Task where
  entered : List RuleId
  node : Node
  start : Progress

/-- What an evaluation comes to. -/
def perform (scope : Scope) (t : Task) : Except Fault (Node × Progress) :=
  (t.node.evaluateWith (scope.resolve t.entered)).run t.start

/-- **An evaluation directly inside another**: that of a part of the node, after
the parts in front of it, or that of the declaration that a reference with an
empty cell is bound to. -/
inductive Spawns (scope : Scope) : Task → Task → Prop
  | part {entered : List RuleId} {n m : Node} {before after ms : List Node} {p q : Progress}
      (hn : n.parts = before ++ m :: after)
      (hrun : (Node.evaluateAllWith (scope.resolve entered) before).run p = .ok (ms, q)) :
      Spawns scope ⟨entered, n, p⟩ ⟨entered, m, q⟩
  | declaration {entered : List RuleId} {v : Variable} {id : RuleId} {r : Rule} {p : Progress}
      (hcell : p.memos.get? v.cell = none) (hb : scope.binding? v = .ok (some id))
      (hid : id ∉ entered) (hr : scope.sheet.rules[id.index]? = some r) :
      Spawns scope ⟨entered, .variable v, p⟩ ⟨id :: entered, r.value.node, p⟩

/-- **An evaluation inside another**, at any depth. -/
abbrev Includes (scope : Scope) : Task → Task → Prop := Relation.ReflTransGen (Spawns scope)

/-- Declarations are entered one inside the other all the way. -/
theorem Nested.spawned {scope : Scope} {t u : Task} (h : scope.Nested t.entered)
    (hs : Spawns scope t u) : scope.Nested u.entered := by
  cases hs with
  | part => exact h
  | declaration _ hb hid hr =>
    exact h.cons ((binds_iff_of_binding? hb _).mpr rfl).mem_declarations hid

/-- Declarations are entered one inside the other all the way. -/
theorem Nested.included {scope : Scope} {t u : Task} (h : scope.Nested t.entered)
    (hi : scope.Includes t u) : scope.Nested u.entered := by
  induction hi with
  | refl => exact h
  | tail _ hs ih => exact ih.spawned hs

/-- **Evaluations are nested to a finite depth.** Either the node gets smaller
or fewer declarations are left to be entered. -/
theorem acc_spawns {scope : Scope} {entered : List RuleId} (h : scope.Nested entered) (n : Node)
    (p : Progress) : Acc (fun u t => Spawns scope t u) ⟨entered, n, p⟩ := by
  refine Acc.intro _ (fun u hs => ?_)
  cases hs with
  | @part _ _ m before after _ _ q hn _ =>
    have hm : m ∈ n.parts := by
      rw [hn]
      simp
    have hlt := Node.sizeOf_lt_of_mem_parts hm
    exact acc_spawns h m q
  | @declaration _ v id r _ _ hb hid _ =>
    have hmem := ((binds_iff_of_binding? hb id).mpr rfl).mem_declarations
    have hfewer := h.length_lt hmem hid
    exact acc_spawns (h.cons hmem hid) r.value.node p
termination_by (scope.declarations.length - entered.length, sizeOf n)
decreasing_by
  · exact Prod.Lex.right _ hlt
  · refine Prod.Lex.left _ _ ?_
    rw [List.length_cons]
    omega

namespace Invariant

variable {scope : Scope} (inv : scope.Invariant)

/-- **An evaluation that the invariant speaks of.** -/
structure Admits (t : Task) : Prop where
  nested : scope.Nested t.entered
  meets : ∀ v ∈ t.node.references, inv.Meets t.entered v
  keeps : inv.Keeps t.start

variable {inv} {t u : Task}

/-- The evaluation comes to an end without a fault. -/
theorem Admits.ends (h : inv.Admits t) : ∃ m q, scope.perform t = .ok (m, q) ∧ t.start ≤ q ∧
    inv.Keeps q ∧ t.node.Replaced (inv.Finds q) m :=
  inv.ends_evaluateWith h.nested h.meets h.keeps

/-- **The invariant speaks of the evaluations directly inside.** -/
theorem Admits.spawned (h : inv.Admits t) (hs : Spawns scope t u) : inv.Admits u := by
  refine ⟨h.nested.spawned hs, ?_, ?_⟩
  · cases hs with
    | @part entered n m before after ms p q hn _ =>
      have hm : m ∈ n.parts := by
        rw [hn]
        simp
      exact fun v hv => h.meets v (Node.mem_references_of_mem_parts hm hv)
    | @declaration entered v id r p _ hb hid hr =>
      have hv := h.meets v (by simp [Node.references])
      exact inv.enters hv ((binds_iff_of_binding? hb _).mpr rfl) hid hr
  · cases hs with
    | @part entered n m before after ms p q hn hrun =>
      have hbefore : ∀ k ∈ before, k ∈ n.parts := by
        intro k hk
        rw [hn]
        exact List.mem_append_left _ hk
      -- the parts in front were evaluated from a state that the invariant speaks of
      obtain ⟨ms', q', hrun', -, hq, -⟩ := inv.ends_evaluateAllWith h.nested
        (fun k hk v hv => h.meets v (Node.mem_references_of_mem_parts (hbefore k hk) hv)) h.keeps
      have heq := Except.ok.inj (hrun.symm.trans hrun')
      rw [show q = q' from congrArg Prod.snd heq]
      exact hq
    | declaration => exact h.keeps

/-- **The invariant speaks of all evaluations inside.** -/
theorem Admits.included (h : inv.Admits t) (hi : scope.Includes t u) : inv.Admits u := by
  induction hi with
  | refl => exact h
  | tail _ hs ih => exact ih.spawned hs

end Invariant

end Scope

/-! ## What the cells hold -/

/-- **Every full cell of the stylesheet holds what its reference may stand
for.** -/
def Stylesheet.Holds (sheet : Stylesheet) (R : Variable → Node → Prop) (m : Memos) : Prop :=
  ∀ v ∈ sheet.references, ∀ n, m.get? v.cell = some n → R v n

/-- **One cell is filled for one reference**, since no two have the same cell. -/
theorem Housed.holds_fill {low high : ℕ} {vs : List Variable} (hhoused : Housed low high vs)
    {R : Variable → Node → Prop} {m : Memos}
    (h : ∀ v ∈ vs, ∀ n, m.get? v.cell = some n → R v n) {v : Variable} (hv : v ∈ vs) {n : Node}
    (hn : R v n) : ∀ w ∈ vs, ∀ k, (m.fill v.cell n).get? w.cell = some k → R w k := by
  intro w hw k hk
  rcases Memos.get?_fill hk with hold | ⟨hcell, rfl⟩
  · exact h w hw k hold
  · rw [hhoused.eq_of_cell_eq hw hv hcell]
    exact hn

/-- The cell of a reference of the stylesheet may be filled with what the reference
stands for. -/
theorem Stylesheet.Holds.fill {sheet : Stylesheet} {R : Variable → Node → Prop} {m : Memos}
    {high : ℕ} (hhoused : Housed 0 high sheet.references) (h : sheet.Holds R m) {v : Variable}
    (hv : v ∈ sheet.references) {n : Node} (hn : R v n) : sheet.Holds R (m.fill v.cell n) :=
  hhoused.holds_fill h hv hn

/-- Empty cells hold nothing. -/
theorem Stylesheet.holds_of_empty {sheet : Stylesheet} {R : Variable → Node → Prop} {m : Memos}
    (h : ∀ v ∈ sheet.references, m.get? v.cell = none) : sheet.Holds R m := by
  intro v hv n hn
  rw [h v hv] at hn
  exact absurd hn (Option.some_ne_none n).symm

end MapStyle
