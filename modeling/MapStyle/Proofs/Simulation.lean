import MapStyle.Proofs.Requests

/-!
# Two evaluations side by side

What does not matter to an evaluation is shown by two of them, made side by side: from
states that are related they come to results that are related, or fail alike
(`InStep`). Steps that are made one after the other go in step if each of them does, and
to go through two nodes is to go through their parts, so it is enough to know that
references are looked up in step (`InStep.walk`).

For that a **simulation** (`Scope.Simulation`) says which nodes and which states are
related. Its conditions are again the steps of an evaluation, as those of an invariant
are, but there are two scopes; from these it follows that references, nodes, filters and
rules are evaluated in step (`Scope.Simulation.evaluate_node`).
-/

namespace MapStyle

/-- **Two outcomes agree**: both are results, which are related, or both are the same
fault. -/
inductive Agree {α β : Type} (R : α → β → Prop) : Except Fault α → Except Fault β → Prop
  | fault (e : Fault) : Agree R (.error e) (.error e)
  | result {a : α} {b : β} (h : R a b) : Agree R (.ok a) (.ok b)

namespace Agree

variable {α β : Type} {R Q : α → β → Prop} {x : Except Fault α} {y : Except Fault β}

/-- Outcomes agree that are the same. -/
theorem of_eq {x y : Except Fault α} (h : x = y) : Agree Eq x y := by
  subst h
  cases x with
  | error e => exact .fault e
  | ok a => exact .result rfl

/-- Results may be related in a weaker way. -/
theorem imp (h : Agree R x y) (hRQ : ∀ a b, R a b → Q a b) : Agree Q x y := by
  cases h with
  | fault e => exact .fault e
  | result h => exact .result (hRQ _ _ h)

/-- Results are changed alike. -/
theorem map {γ δ : Type} {Q : γ → δ → Prop} {f : α → γ} {g : β → δ} (h : Agree R x y)
    (hRQ : ∀ a b, R a b → Q (f a) (g b)) : Agree Q (f <$> x) (g <$> y) := by
  cases h with
  | fault e => exact .fault e
  | result h => exact .result (hRQ _ _ h)

/-- **Something is done with each result.** -/
theorem bind {γ δ : Type} {Q : γ → δ → Prop} {f : α → Except Fault γ} {g : β → Except Fault δ}
    (h : Agree R x y) (hRQ : ∀ a b, R a b → Agree Q (f a) (g b)) : Agree Q (x >>= f) (y >>= g) := by
  cases h with
  | fault e => exact .fault e
  | result h => exact hRQ _ _ h

/-- One outcome is told by the other. -/
theorem eq_map {f : β → α} (h : Agree (fun a b => a = f b) x y) : x = f <$> y := by
  cases h with
  | fault e => rfl
  | result h => exact congrArg Except.ok h

/-- To a fault belongs the same fault. -/
theorem eq_error (h : Agree R x y) {e : Fault} (hx : x = .error e) : y = .error e := by
  cases h with
  | fault e' => rw [Except.error.inj hx]
  | result h => exact absurd hx (by simp)

/-- To a result belongs a result. -/
theorem exists_of_eq_ok (h : Agree R x y) {a : α} (hx : x = .ok a) : ∃ b, y = .ok b ∧ R a b := by
  cases h with
  | fault e => exact absurd hx (by simp)
  | result h => exact ⟨_, rfl, Except.ok.inj hx ▸ h⟩

end Agree

/-- **Two computations go in step**: started from related states they agree, and the
states they leave are related again. -/
def InStep {σ τ α β : Type} (S : σ → τ → Prop) (R : α → β → Prop)
    (x : StateT σ (Except Fault) α) (y : StateT τ (Except Fault) β) : Prop :=
  ∀ s t, S s t → Agree (fun a b => R a.1 b.1 ∧ S a.2 b.2) (x.run s) (y.run t)

/-! ## Going through a node -/

namespace Node

mutual

/-- **The node with its references looked up**, whatever looking up may do. -/
def walk {m : Type → Type} [Monad m] (lookUp : Variable → m Node) : Node → m Node
  | .expression elements => return .ofElements (← walkAll lookUp elements)
  | .filter key comparison operand location =>
    return .filter (← walk lookUp key) comparison (← walk lookUp operand) location
  | .effectCall name arguments => return .effectCall name (← walkAll lookUp arguments)
  | .url target paths => return .url (← walk lookUp target) paths
  | .variable reference => lookUp reference
  | .value components => return .ofComponents (← walkAll lookUp components)
  | n => return n

/-- The nodes with their references looked up, from left to right. -/
def walkAll {m : Type → Type} [Monad m] (lookUp : Variable → m Node) : List Node → m (List Node)
  | [] => return []
  | n :: ns => return (← walk lookUp n) :: (← walkAll lookUp ns)

end

/-- To go through a node is to go through its parts. -/
theorem walk_of_not_isReference {m : Type → Type} [Monad m] [LawfulMonad m]
    (lookUp : Variable → m Node) {n : Node} (hn : ¬n.IsReference) :
    n.walk lookUp = n.rebuild <$> walkAll lookUp n.parts := by
  match n with
  | .variable v => exact absurd trivial hn
  | .filter .. | .url .. => simp [walk, walkAll, parts, rebuild]
  | .expression _ | .effectCall .. | .value _ =>
    simp only [walk, parts, bind_pure_comp]
    rfl
  | .field _ | .effect _ | .keyword _ | .literal _ | .quoted _ | .dimension _ | .color _
  | .undefined => simp [walk, walkAll, parts, rebuild]

/-- **Evaluation goes through a node.** -/
theorem walk_eq_evaluateWith (lookUp : Variable → Evaluation Node) (n : Node) :
    n.walk lookUp = n.evaluateWith lookUp := by
  induction n using partInduction with
  | reference v => rfl
  | composite n hn ih =>
    have hall : ∀ ns : List Node, (∀ m ∈ ns, m.walk lookUp = m.evaluateWith lookUp) →
        walkAll lookUp ns = evaluateAllWith lookUp ns := by
      intro ns hns
      induction ns with
      | nil => rfl
      | cons m ns ihns =>
        obtain ⟨hm, hns⟩ := List.forall_mem_cons.mp hns
        rw [walkAll, evaluateAllWith, hm, ihns hns]
    rw [walk_of_not_isReference lookUp hn, evaluateWith_of_not_isReference lookUp hn, hall _ ih]

/-- **A relation of nodes that evaluation keeps**, if the references are replaced by
related nodes: related nodes have related parts, and with others in place of these they
are still related. A reference is related to itself only. -/
structure Congruent (R : Node → Node → Prop) : Prop where
  eq_of_left : ∀ {v : Variable} {m : Node}, R (.variable v) m → m = .variable v
  eq_of_right : ∀ {n : Node} {v : Variable}, R n (.variable v) → n = .variable v
  parts : ∀ {n m : Node}, R n m → List.Forall₂ R n.parts m.parts
  rebuild : ∀ {n m : Node} {ns ms : List Node}, R n m → List.Forall₂ R ns ms →
    R (n.rebuild ns) (m.rebuild ms)

/-- Every node is related to itself only. -/
theorem congruent_eq : Congruent Eq where
  eq_of_left h := h.symm
  eq_of_right h := h
  parts h := by
    rw [h, List.forall₂_eq_eq_eq]
  rebuild h hs := by
    rw [List.forall₂_eq_eq_eq] at hs
    rw [h, hs]

/-- What a reference is not related to is no reference. -/
theorem Congruent.not_isReference {R : Node → Node → Prop} (hR : Congruent R) {n m : Node}
    (h : R n m) (hn : ¬n.IsReference) : ¬m.IsReference := by
  intro hm
  obtain ⟨v, rfl⟩ := hm.exists_eq
  rw [hR.eq_of_right h] at hn
  exact hn trivial

end Node

/-! ## Steps -/

namespace InStep

variable {σ τ α β γ δ : Type} {S : σ → τ → Prop} {R R' : α → β → Prop} {Q : γ → δ → Prop}

theorem pure {a : α} {b : β} (h : R a b) :
    InStep S R (pure a : StateT σ (Except Fault) α) (pure b : StateT τ (Except Fault) β) :=
  fun _ _ hst => .result ⟨h, hst⟩

/-- **Steps one after the other.** -/
theorem bind {x : StateT σ (Except Fault) α} {y : StateT τ (Except Fault) β}
    {f : α → StateT σ (Except Fault) γ} {g : β → StateT τ (Except Fault) δ}
    (h : InStep S R x y) (hfg : ∀ a b, R a b → InStep S Q (f a) (g b)) :
    InStep S Q (x >>= f) (y >>= g) := by
  intro s t hst
  rw [StateT.run_bind, StateT.run_bind]
  exact (h s t hst).bind fun a b hab => hfg a.1 b.1 hab.1 a.2 b.2 hab.2

/-- Results are changed alike. -/
theorem map {x : StateT σ (Except Fault) α} {y : StateT τ (Except Fault) β} {f : α → γ}
    {g : β → δ} (h : InStep S R x y) (hfg : ∀ a b, R a b → Q (f a) (g b)) :
    InStep S Q (f <$> x) (g <$> y) := by
  rw [map_eq_pure_bind, map_eq_pure_bind]
  exact h.bind fun a b hab => .pure (hfg a b hab)

/-- Results may be related in a weaker way. -/
theorem imp {x : StateT σ (Except Fault) α} {y : StateT τ (Except Fault) β}
    (h : InStep S R x y) (hR : ∀ a b, R a b → R' a b) : InStep S R' x y :=
  fun s t hst => (h s t hst).imp fun _ _ hab => ⟨hR _ _ hab.1, hab.2⟩

/-- The state is looked at. -/
theorem get : InStep S S (get : StateT σ (Except Fault) σ) (get : StateT τ (Except Fault) τ) :=
  fun _ _ hst => .result ⟨hst, hst⟩

/-- The state is changed. -/
theorem modify {f : σ → σ} {g : τ → τ} (h : ∀ s t, S s t → S (f s) (g t)) :
    InStep S Eq (modify f : StateT σ (Except Fault) Unit)
      (modify g : StateT τ (Except Fault) Unit) :=
  fun s t hst => .result ⟨rfl, h s t hst⟩

/-- Something is tried that has to do with no state. -/
theorem lift {x : Except Fault α} {y : Except Fault β} (h : Agree R x y) :
    InStep S R (liftM x : StateT σ (Except Fault) α) (liftM y : StateT τ (Except Fault) β) := by
  intro s t hst
  cases h with
  | fault e => exact .fault e
  | result h => exact .result ⟨h, hst⟩

theorem fault (e : Fault) :
    InStep S R (throw e : StateT σ (Except Fault) α) (throw e : StateT τ (Except Fault) β) :=
  fun _ _ _ => .fault e

section Nodes

variable {R : Node → Node → Prop} {lookUp : Variable → StateT σ (Except Fault) Node}
  {lookUp' : Variable → StateT τ (Except Fault) Node}

/-- Several nodes are gone through one after the other. -/
theorem walkAll {ns ms : List Node}
    (h : List.Forall₂ (fun n m => InStep S R (n.walk lookUp) (m.walk lookUp')) ns ms) :
    InStep S (List.Forall₂ R) (Node.walkAll lookUp ns) (Node.walkAll lookUp' ms) := by
  induction h with
  | nil => exact .pure .nil
  | cons h _ ih =>
    unfold Node.walkAll
    exact h.bind fun n m hnm => ih.bind fun ns ms hns => .pure (.cons hnm hns)

/-- **Related nodes are gone through in step**, if references are looked up in step. -/
theorem walk (hR : Node.Congruent R) (h : ∀ v, InStep S R (lookUp v) (lookUp' v)) {n m : Node}
    (hnm : R n m) : InStep S R (n.walk lookUp) (m.walk lookUp') := by
  induction n using Node.partInduction generalizing m with
  | reference v =>
    rw [hR.eq_of_left hnm]
    exact h v
  | composite n hn ih =>
    -- what is related to it is no reference either, so both are gone through part by part
    rw [Node.walk_of_not_isReference _ hn,
      Node.walk_of_not_isReference _ (hR.not_isReference hnm hn)]
    refine (walkAll ?_).map fun ns ms hns => hR.rebuild hnm hns
    have hparts := (List.forall₂_and_left n.parts m.parts).mpr ⟨fun k hk => hk, hR.parts hnm⟩
    exact hparts.imp fun k l hkl => ih k hkl.1 hkl.2

end Nodes

end InStep

/-! ## References -/

namespace Scope

/-- **A simulation** of the evaluations in a scope by those in another. -/
structure Simulation (scope scope' : Scope) where
  /-- The nodes that are evaluated, and what they are evaluated to. -/
  Nodes : Node → Node → Prop
  /-- The cells and the logs between two steps. -/
  States : Progress → Progress → Prop
  congruent : Node.Congruent Nodes
  /-- What stands for a variable without a value. -/
  undefined : Nodes .undefined .undefined
  /-- The declarations that can be entered are the same. -/
  declares : scope.declarations = scope'.declarations
  /-- References are bound alike. -/
  binds : scope.binding? = scope'.binding?
  /-- The declarations of a handle have related values. -/
  enters : ∀ id, Agree (fun r r' => Nodes r.value.node r'.value.node) (scope.sheet.rule id)
    (scope'.sheet.rule id)
  /-- What cells hold is related. -/
  recalls : ∀ {p q : Progress} (cell : Option ℕ), States p q →
    Option.Rel Nodes (p.memos.get? cell) (q.memos.get? cell)
  /-- The same may be reported. -/
  reports : ∀ {p q : Progress} (d : Diagnostic), States p q → States (p.report d) (q.report d)
  /-- Related nodes may be remembered. -/
  remembers : ∀ {p q : Progress} {n m : Node} (v : Variable), States p q → Nodes n m →
    States (p.remember v n) (q.remember v m)

namespace Simulation

variable {scope scope' : Scope} (sim : scope.Simulation scope')

/-- **Two evaluations go in step.** -/
abbrev Keeps {α β : Type} (R : α → β → Prop) (x : Evaluation α) (y : Evaluation β) : Prop :=
  InStep sim.States R x y

/-- Cells answer alike, and are filled alike. -/
theorem once {settle settle' : Variable → Evaluation Node} {v : Variable}
    (h : sim.Keeps sim.Nodes (settle v) (settle' v)) :
    sim.Keeps sim.Nodes (Scope.once settle v) (Scope.once settle' v) := by
  unfold Scope.once
  refine InStep.get.bind fun p q hpq => ?_
  have hcell := sim.recalls v.cell hpq
  generalize p.memos.get? v.cell = known, q.memos.get? v.cell = known' at hcell ⊢
  cases hcell with
  | some hnm => exact .pure hnm
  | none =>
    refine h.bind fun n m hnm => ?_
    refine (InStep.modify fun p q hpq => ?_).bind fun _ _ _ => .pure hnm
    exact sim.remembers v hpq hnm

/-- A declaration decides alike, if declarations are entered in step. -/
theorem settle {entered : List RuleId} {enter enter' : Rule → RuleId → Evaluation Node}
    (h : ∀ id r r', sim.Nodes r.value.node r'.value.node →
      sim.Keeps sim.Nodes (enter r id) (enter' r' id)) (v : Variable) :
    sim.Keeps sim.Nodes (scope.settle entered enter v) (scope'.settle entered enter' v) := by
  have hreport : ∀ d, sim.Keeps sim.Nodes
      (modify (·.report d) >>= fun _ => Pure.pure .undefined)
      (modify (·.report d) >>= fun _ => Pure.pure .undefined) := by
    intro d
    refine (InStep.modify fun p q hpq => ?_).bind fun _ _ _ => .pure sim.undefined
    exact sim.reports d hpq
  unfold Scope.settle
  rw [← sim.binds]
  refine (InStep.lift (Agree.of_eq rfl)).bind fun b b' hb => ?_
  subst hb
  cases b with
  | none => exact hreport _
  | some id =>
    show sim.Keeps sim.Nodes (if id ∈ entered then _ else _) (if id ∈ entered then _ else _)
    by_cases hid : id ∈ entered
    · rw [if_pos hid, if_pos hid]
      exact hreport _
    · rw [if_neg hid, if_neg hid]
      exact (InStep.lift (sim.enters id)).bind fun r r' hr => h id r r' hr

/-- **Related nodes are evaluated in step**, if references are looked up in step. -/
theorem evaluateWith {lookUp lookUp' : Variable → Evaluation Node}
    (h : ∀ v, sim.Keeps sim.Nodes (lookUp v) (lookUp' v)) {n m : Node} (hnm : sim.Nodes n m) :
    sim.Keeps sim.Nodes (n.evaluateWith lookUp) (m.evaluateWith lookUp') := by
  rw [← Node.walk_eq_evaluateWith, ← Node.walk_eq_evaluateWith]
  exact InStep.walk sim.congruent h hnm

/-- References are looked up in step, where at most so many declarations may be
entered. -/
theorem resolveWithin (depth : ℕ) (entered : List RuleId) (v : Variable) :
    sim.Keeps sim.Nodes (scope.resolveWithin depth entered v)
      (scope'.resolveWithin depth entered v) := by
  induction depth generalizing entered v with
  | zero => exact sim.once (sim.settle (fun _ _ _ _ => .fault _) v)
  | succ depth ih =>
    refine sim.once (sim.settle (fun id r r' hr => ?_) v)
    exact sim.evaluateWith (ih (id :: entered)) hr

/-- **References are looked up in step.** -/
theorem resolve (entered : List RuleId) (v : Variable) :
    sim.Keeps sim.Nodes (scope.resolve entered v) (scope'.resolve entered v) := by
  unfold Scope.resolve
  rw [← sim.declares]
  exact sim.resolveWithin _ entered v

/-- **Related nodes are evaluated in step.** -/
theorem evaluate_node {n m : Node} (h : sim.Nodes n m) :
    sim.Keeps sim.Nodes (n.evaluate scope) (m.evaluate scope') :=
  sim.evaluateWith (sim.resolve []) h

/-- **Filters with related operands are evaluated in step.** -/
theorem evaluate_filter {f g : Filter} (hkey : sim.Nodes f.key g.key)
    (hoperand : sim.Nodes f.operand g.operand) :
    sim.Keeps (fun f' g' => ∃ key key' operand operand', sim.Nodes key key' ∧
        sim.Nodes operand operand' ∧ f' = { f with key, operand } ∧
        g' = { g with key := key', operand := operand' })
      (f.evaluate scope) (g.evaluate scope') := by
  unfold Filter.evaluate
  refine (sim.evaluate_node hkey).bind fun k k' hk => ?_
  refine (sim.evaluate_node hoperand).bind fun o o' ho => ?_
  exact .pure ⟨k, k', o, o', hk, ho, rfl, rfl⟩

/-- **Rules with related values are evaluated in step.** -/
theorem evaluate_rule {r r' : Rule} (h : sim.Nodes r.value.node r'.value.node) :
    sim.Keeps (fun s s' => ∃ n m, sim.Nodes n m ∧ s = { r with value := .ofNode n } ∧
        s' = { r' with value := .ofNode m })
      (r.evaluate scope) (r'.evaluate scope') := by
  rw [Rule.evaluate_eq, Rule.evaluate_eq]
  exact (sim.evaluate_node h).map fun n m hnm => ⟨n, m, hnm, rfl, rfl⟩

end Simulation

end Scope

end MapStyle
