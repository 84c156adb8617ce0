import MapStyle.Evaluation
import Mathlib.Data.List.Forall2

/-!
# The parts of a node

Whatever is done to a node is done to the nodes directly inside it, its
**parts**, from left to right, and the node is then put together again. So a
node is either a reference, or it is what `Node.rebuild` makes of its parts,
and that is the one case split of every induction over nodes
(`Node.partInduction`): looking up references, collecting them and replacing
them each have one equation for the nodes that are no references.

A node in which each reference was replaced by some node is related to the
original by `Node.Replaced`, which says of each *occurrence* what it may be
replaced by. Where that depends on the reference alone it is a function
(`Node.substitute`).
-/

namespace MapStyle

namespace Node

/-- The nodes directly inside a node, in the order they are written. -/
def parts : Node → List Node
  | .expression elements => elements
  | .filter key _ operand _ => [key, operand]
  | .effectCall _ arguments => arguments
  | .url target _ => [target]
  | .value components => components
  | _ => []

/-- **The node with other parts in place of its own.** What comes down to one
part is that part. -/
def rebuild : Node → List Node → Node
  | .expression _, ns => .ofElements ns
  | .filter _ comparison _ location, [key, operand] => .filter key comparison operand location
  | .effectCall name _, ns => .effectCall name ns
  | .url _ paths, [target] => .url target paths
  | .value _, ns => .ofComponents ns
  | n, _ => n

/-- Whether a node is a reference. -/
def IsReference : Node → Prop
  | .variable _ => True
  | _ => False

/-- A reference is what its constructor makes. -/
theorem IsReference.exists_eq {n : Node} (h : n.IsReference) : ∃ v, n = .variable v :=
  match n, h with
  | .variable v, _ => ⟨v, rfl⟩

/-- A part is smaller than its node. -/
theorem sizeOf_lt_of_mem_parts {m n : Node} (h : m ∈ n.parts) : sizeOf m < sizeOf n := by
  cases n with
  | expression ns | effectCall _ ns | value ns =>
    have := List.sizeOf_lt_of_mem (show m ∈ ns from h)
    simp
    omega
  | filter key _ operand _ =>
    rcases List.mem_pair.mp (show m ∈ [key, operand] from h) with rfl | rfl <;> simp <;> omega
  | url target _ =>
    rw [List.mem_singleton.mp (show m ∈ [target] from h)]
    simp
    omega
  | _ => exact absurd h List.not_mem_nil

/-- **Induction over nodes**: a property of references that passes from the
parts of any other node to the node is a property of every node. -/
theorem partInduction {motive : Node → Prop} (reference : ∀ v, motive (.variable v))
    (composite : ∀ n : Node, ¬n.IsReference → (∀ m ∈ n.parts, motive m) → motive n)
    (n : Node) : motive n := by
  by_cases hn : n.IsReference
  · obtain ⟨v, rfl⟩ := hn.exists_eq
    exact reference v
  · exact composite n hn (fun m hm => partInduction reference composite m)
termination_by sizeOf n
decreasing_by exact sizeOf_lt_of_mem_parts hm

/-! ## Looking up and collecting references -/

/-- **Looking up the references of a node** is looking up those of its
parts. -/
theorem evaluateWith_of_not_isReference (lookUp : Variable → Evaluation Node) {n : Node}
    (hn : ¬n.IsReference) :
    n.evaluateWith lookUp = n.rebuild <$> evaluateAllWith lookUp n.parts := by
  match n with
  | .variable v => exact absurd trivial hn
  | .filter .. | .url .. => simp [evaluateWith, evaluateAllWith, parts, rebuild]
  | .expression _ | .effectCall .. | .value _ =>
    simp only [evaluateWith, parts, bind_pure_comp]
    rfl
  | .field _ | .effect _ | .keyword _ | .literal _ | .quoted _ | .dimension _ | .color _
  | .undefined => simp [evaluateWith, evaluateAllWith, parts, rebuild]

/-- The references of a node are those of its parts. -/
theorem references_of_not_isReference {n : Node} (hn : ¬n.IsReference) :
    n.references = n.parts.flatMap references := by
  match n with
  | .variable v => exact absurd trivial hn
  | .filter .. | .url .. | .expression _ | .effectCall .. | .value _ => simp [references, parts]
  | .field _ | .effect _ | .keyword _ | .literal _ | .quoted _ | .dimension _ | .color _
  | .undefined => simp [references, parts]

/-- What a part refers to, its node refers to. -/
theorem mem_references_of_mem_parts {m n : Node} (hm : m ∈ n.parts) {v : Variable}
    (hv : v ∈ m.references) : v ∈ n.references := by
  by_cases hn : n.IsReference
  · obtain ⟨w, rfl⟩ := hn.exists_eq
    exact absurd hm List.not_mem_nil
  · rw [references_of_not_isReference hn]
    exact List.mem_flatMap.mpr ⟨m, hm, hv⟩

/-! ## Replacing references -/

mutual

/-- **The node with its references replaced.** -/
def substitute (f : Variable → Node) : Node → Node
  | .expression elements => .ofElements (substituteAll f elements)
  | .filter key comparison operand location =>
    .filter (substitute f key) comparison (substitute f operand) location
  | .effectCall name arguments => .effectCall name (substituteAll f arguments)
  | .url target paths => .url (substitute f target) paths
  | .variable reference => f reference
  | .value components => .ofComponents (substituteAll f components)
  | n => n

/-- The nodes with their references replaced. -/
def substituteAll (f : Variable → Node) : List Node → List Node
  | [] => []
  | n :: ns => substitute f n :: substituteAll f ns

end

@[simp] theorem substituteAll_eq_map (f : Variable → Node) (ns : List Node) :
    substituteAll f ns = ns.map (substitute f) := by
  induction ns with
  | nil => rfl
  | cons n ns ih => rw [substituteAll, ih, List.map_cons]

/-- Replacing the references of a node is replacing those of its parts. -/
theorem substitute_of_not_isReference (f : Variable → Node) {n : Node} (hn : ¬n.IsReference) :
    n.substitute f = n.rebuild (n.parts.map (substitute f)) := by
  match n with
  | .variable v => exact absurd trivial hn
  | .filter .. | .url .. | .expression _ | .effectCall .. | .value _ =>
    simp [substitute, parts, rebuild]
  | .field _ | .effect _ | .keyword _ | .literal _ | .quoted _ | .dimension _ | .color _
  | .undefined => simp [substitute, rebuild]

/-- **Only the references of the node matter** for what it becomes. -/
theorem substitute_congr {f g : Variable → Node} {n : Node}
    (h : ∀ v ∈ n.references, f v = g v) : n.substitute f = n.substitute g := by
  induction n using partInduction with
  | reference v => exact h v (by simp [references])
  | composite n hn ih =>
    rw [substitute_of_not_isReference f hn, substitute_of_not_isReference g hn]
    refine congrArg n.rebuild (List.map_congr_left (fun m hm => ?_))
    exact ih m hm (fun v hv => h v (mem_references_of_mem_parts hm hv))

/-- **Each reference of the node was replaced by a node that it may be replaced
by**, occurrence by occurrence. -/
inductive Replaced (R : Variable → Node → Prop) : Node → Node → Prop
  | reference {v : Variable} {m : Node} (h : R v m) : Replaced R (.variable v) m
  | composite {n : Node} {ms : List Node} (hn : ¬n.IsReference)
      (h : List.Forall₂ (Replaced R) n.parts ms) : Replaced R n (n.rebuild ms)

@[simp] theorem replaced_variable_iff {R : Variable → Node → Prop} {v : Variable} {m : Node} :
    Replaced R (.variable v) m ↔ R v m := by
  constructor
  · intro h
    cases h with
    | reference h => exact h
    | composite hn => exact absurd trivial hn
  · exact .reference

/-- A node that is no reference was put together from its parts. -/
theorem replaced_iff {R : Variable → Node → Prop} {n m : Node} (hn : ¬n.IsReference) :
    Replaced R n m ↔ ∃ ms, List.Forall₂ (Replaced R) n.parts ms ∧ m = n.rebuild ms := by
  constructor
  · intro h
    cases h with
    | reference => exact absurd trivial hn
    | composite _ h => exact ⟨_, h, rfl⟩
  · rintro ⟨ms, h, rfl⟩
    exact .composite hn h

/-- What a list is related to, seen from one of its members. -/
theorem exists_rel_of_mem {α β : Type} {R : α → β → Prop} {as : List α} {bs : List β}
    (h : List.Forall₂ R as bs) {a : α} (ha : a ∈ as) : ∃ b, R a b := by
  induction h with
  | nil => exact absurd ha List.not_mem_nil
  | @cons a' b as bs hab _ ih =>
    rcases List.mem_cons.mp ha with rfl | ha
    · exact ⟨b, hab⟩
    · exact ih ha

/-- **What a reference may be replaced by may be widened**, for the references
of the node. -/
theorem Replaced.imp {R S : Variable → Node → Prop} {n m : Node} (h : Replaced R n m)
    (hRS : ∀ v ∈ n.references, ∀ k, R v k → S v k) : Replaced S n m := by
  induction n using partInduction generalizing m with
  | reference v =>
    rw [replaced_variable_iff] at h ⊢
    exact hRS v (by simp [references]) m h
  | composite n hn ih =>
    obtain ⟨ms, hms, rfl⟩ := (replaced_iff hn).mp h
    have hmem := (List.forall₂_and_left n.parts ms).mpr ⟨fun a ha => ha, hms⟩
    refine .composite hn (hmem.imp fun a b ⟨ha, hab⟩ => ?_)
    exact ih a ha hab (fun v hv => hRS v (mem_references_of_mem_parts ha hv))

/-- Each reference of the node was replaced by something. -/
theorem Replaced.exists_of_mem {R : Variable → Node → Prop} {n m : Node} (h : Replaced R n m)
    {v : Variable} (hv : v ∈ n.references) : ∃ k, R v k := by
  induction n using partInduction generalizing m with
  | reference w =>
    rw [List.mem_singleton.mp (show v ∈ [w] from hv)]
    exact ⟨m, replaced_variable_iff.mp h⟩
  | composite n hn ih =>
    obtain ⟨ms, hms, rfl⟩ := (replaced_iff hn).mp h
    rw [references_of_not_isReference hn] at hv
    obtain ⟨a, ha, hva⟩ := List.mem_flatMap.mp hv
    obtain ⟨b, hab⟩ := exists_rel_of_mem hms ha
    exact ih a ha hab hva

/-- **Replacing each reference by what a function gives it is substituting.** -/
theorem Replaced.eq_substitute {f : Variable → Node} {n m : Node}
    (h : Replaced (fun v k => f v = k) n m) : n.substitute f = m := by
  induction n using partInduction generalizing m with
  | reference v => exact replaced_variable_iff.mp h
  | composite n hn ih =>
    obtain ⟨ms, hms, rfl⟩ := (replaced_iff hn).mp h
    rw [substitute_of_not_isReference f hn]
    have hmem := (List.forall₂_and_left n.parts ms).mpr ⟨fun a ha => ha, hms⟩
    have heq : List.Forall₂ (· = ·) (n.parts.map (substitute f)) ms :=
      List.forall₂_map_left_iff.mpr (hmem.imp fun a b ⟨ha, hab⟩ => ih a ha hab)
    rw [List.forall₂_eq_eq_eq] at heq
    rw [heq]

end Node

end MapStyle
