import MapStyle.Proofs.Reports

/-!
# Nodes without references

Evaluating a node without references looks nothing up: all it does is to put each
expression and each value of a single part down to that part, at every depth
(`Node.evaluateWith_of_references_eq_nil`).

The node reads as before (`Node.readsAs_collapse`). What it says and whether it is one text or
a list have to be followed through the node together, as it depends on the second whether an
expression puts spaces or commas between its parts. So evaluation, in any scope, leaves both as
they are (`Scope.evaluation_keeps_reading`), and a filter is told apart as before
(`Filter.id_collapse`).
-/

namespace MapStyle

namespace Rendered

/-- Spaced parts are one text if all of them are. -/
theorem isScalar_spaced (rs : List Rendered) : (spaced rs).isScalar = rs.all isScalar := by
  unfold spaced
  split
  · next h => exact h.symm
  · next h => exact (Bool.eq_false_iff.mpr h).symm

/-- Whether listed parts are one text depends on which of them are. -/
theorem isScalar_listed_congr {rs rs' : List Rendered}
    (h : rs.map isScalar = rs'.map isScalar) : (listed rs).isScalar = (listed rs').isScalar := by
  match rs, rs', h with
  | [], [], _ => rfl
  | [_], [_], h => exact List.head_eq_of_cons_eq h
  | _ :: _ :: _, _ :: _ :: _, _ => rfl
  | [_], _ :: _ :: _, h | _ :: _ :: _, [_], h => exact absurd (congrArg List.length h) (by simp)

end Rendered

namespace Node

/-! ## What evaluation does -/

/-- **The node with single parts in place of their lists**, at every depth. -/
def collapse (n : Node) : Node := n.substitute .variable

/-- A node that is no reference is collapsed by its parts. -/
theorem collapse_of_not_isReference {n : Node} (hn : ¬n.IsReference) :
    n.collapse = n.rebuild (n.parts.map collapse) := substitute_of_not_isReference .variable hn

/-- Nodes that are evaluated without looking anything up. -/
theorem evaluateAllWith_eq_pure {lookUp : Variable → Evaluation Node} {g : Node → Node}
    {ns : List Node} (h : ∀ n ∈ ns, n.evaluateWith lookUp = pure (g n)) :
    evaluateAllWith lookUp ns = pure (ns.map g) := by
  induction ns with
  | nil => rfl
  | cons n ns ih =>
    obtain ⟨hn, hns⟩ := List.forall_mem_cons.mp h
    rw [evaluateAllWith, hn, ih hns, pure_bind, pure_bind, List.map_cons]

/-- **A node without references is evaluated without looking anything up.** -/
theorem evaluateWith_of_references_eq_nil (lookUp : Variable → Evaluation Node) {n : Node}
    (h : n.references = []) : n.evaluateWith lookUp = pure n.collapse := by
  induction n using partInduction with
  | reference v => exact absurd h (by simp [references])
  | composite n hn ih =>
    rw [references_of_not_isReference hn, List.flatMap_eq_nil_iff] at h
    rw [evaluateWith_of_not_isReference lookUp hn,
      evaluateAllWith_eq_pure fun m hm => ih m hm (h m hm), map_pure,
      collapse_of_not_isReference hn]

/-! ## How nodes read -/

/-- **Two nodes read alike**: they say the same, and either both as one text or both as a
list. -/
structure ReadsAs (n m : Node) : Prop where
  text : n.text = m.text
  isScalar : n.render.isScalar = m.render.isScalar

theorem ReadsAs.refl (n : Node) : n.ReadsAs n := ⟨rfl, rfl⟩

theorem ReadsAs.trans {n m k : Node} (h : n.ReadsAs m) (h' : m.ReadsAs k) : n.ReadsAs k :=
  ⟨h.text.trans h'.text, h.isScalar.trans h'.isScalar⟩

/-- An element alone reads as its expression. -/
theorem readsAs_ofElements (ns : List Node) : (ofElements ns).ReadsAs (.expression ns) := by
  match ns with
  | [n] =>
    refine ⟨?_, ?_⟩
    · rw [text, text, render, Rendered.text_spaced]
      exact (String.intercalate_singleton ..).symm
    · rw [render, Rendered.isScalar_spaced]
      exact (Bool.and_true _).symm
  | [] | _ :: _ :: _ => exact .refl _

/-- A component alone reads as its value. -/
theorem readsAs_ofComponents (ns : List Node) : (ofComponents ns).ReadsAs (.value ns) := by
  match ns with
  | [_] => exact ⟨rfl, rfl⟩
  | [] | _ :: _ :: _ => exact .refl _

section

variable {g : Node → Node} {ns : List Node}

/-- The renderings of nodes that read as others say the same. -/
theorem map_text_renderAll_map (h : ∀ n ∈ ns, (g n).ReadsAs n) :
    (renderAll (ns.map g)).map Rendered.text = (renderAll ns).map Rendered.text := by
  rw [renderAll_eq_map, renderAll_eq_map, List.map_map, List.map_map, List.map_map]
  exact List.map_congr_left fun n hn => (h n hn).text

/-- The renderings of nodes that read as others are single texts where theirs are. -/
theorem map_isScalar_renderAll_map (h : ∀ n ∈ ns, (g n).ReadsAs n) :
    (renderAll (ns.map g)).map Rendered.isScalar = (renderAll ns).map Rendered.isScalar := by
  rw [renderAll_eq_map, renderAll_eq_map, List.map_map, List.map_map, List.map_map]
  exact List.map_congr_left fun n hn => (h n hn).isScalar

/-- An expression reads as its elements do. -/
theorem readsAs_expression (h : ∀ n ∈ ns, (g n).ReadsAs n) :
    (expression (ns.map g)).ReadsAs (.expression ns) := by
  have hall : (renderAll (ns.map g)).all Rendered.isScalar
      = (renderAll ns).all Rendered.isScalar := by
    have hmap := congrArg (List.all · id) (map_isScalar_renderAll_map h)
    simpa only [List.all_map, Function.id_comp] using hmap
  refine ⟨?_, ?_⟩
  · rw [text, text, render, render, Rendered.text_spaced, Rendered.text_spaced,
      Rendered.spacing, Rendered.spacing, hall, map_text_renderAll_map h]
  · rw [render, render, Rendered.isScalar_spaced, Rendered.isScalar_spaced, hall]

/-- A value reads as its components do. -/
theorem readsAs_value (h : ∀ n ∈ ns, (g n).ReadsAs n) :
    (value (ns.map g)).ReadsAs (.value ns) := by
  refine ⟨?_, ?_⟩
  · rw [text, text, render, render, Rendered.text_listed, Rendered.text_listed,
      map_text_renderAll_map h]
  · exact Rendered.isScalar_listed_congr (map_isScalar_renderAll_map h)

end

/-- **A node put together from parts that read as its own reads as before.** -/
theorem readsAs_rebuild {n : Node} {g : Node → Node} (h : ∀ m ∈ n.parts, (g m).ReadsAs m) :
    (n.rebuild (n.parts.map g)).ReadsAs n := by
  cases n with
  | expression ns => exact (readsAs_ofElements _).trans (readsAs_expression h)
  | value ns => exact (readsAs_ofComponents _).trans (readsAs_value h)
  | effectCall name arguments =>
    refine ⟨?_, rfl⟩
    have htexts : (renderAll (arguments.map g)).map Rendered.text
        = (renderAll arguments).map Rendered.text := map_text_renderAll_map h
    show name ++ "(" ++ ",".intercalate (Rendered.texts (renderAll (arguments.map g))) ++ ")"
      = name ++ "(" ++ ",".intercalate (Rendered.texts (renderAll arguments)) ++ ")"
    rw [Rendered.texts_eq_map, Rendered.texts_eq_map, htexts]
  | filter key comparison operand location =>
    refine ⟨?_, rfl⟩
    have hkey : (g key).text = key.text := (h key (List.mem_pair.mpr (.inl rfl))).text
    have hoperand : (g operand).text = operand.text :=
      (h operand (List.mem_pair.mpr (.inr rfl))).text
    show "[" ++ (g key).text ++ comparison.text ++ (g operand).text ++ "]"
      = "[" ++ key.text ++ comparison.text ++ operand.text ++ "]"
    rw [hkey, hoperand]
  | url target paths =>
    have htarget : (g target).ReadsAs target := h target (List.mem_singleton_self _)
    exact ⟨htarget.text, htarget.isScalar⟩
  | _ => exact .refl _

/-- **A collapsed node reads as before.** -/
theorem readsAs_collapse (n : Node) : n.collapse.ReadsAs n := by
  induction n using partInduction with
  | reference v => exact .refl _
  | composite n hn ih =>
    rw [collapse_of_not_isReference hn]
    exact readsAs_rebuild ih

end Node

/-! ## Filters -/

namespace Filter

/-- **The filter with its operands collapsed.** -/
def collapse (f : Filter) : Filter :=
  { f with key := f.key.collapse, operand := f.operand.collapse }

/-- A collapsed filter is told apart as before. -/
theorem id_collapse (f : Filter) : f.collapse.id = f.id := by
  rw [id, id, collapse, f.key.readsAs_collapse.text, f.operand.readsAs_collapse.text]

/-- **A filter without references is evaluated without looking anything up.** -/
theorem run_evaluate_of_references_eq_nil (scope : Scope) {f : Filter} (h : f.references = [])
    (p : Progress) : (f.evaluate scope).run p = .ok (f.collapse, p) := by
  obtain ⟨hkey, hoperand⟩ := List.append_eq_nil_iff.mp h
  rw [evaluate, Node.evaluate, Node.evaluate, Node.evaluateWith_of_references_eq_nil _ hkey,
    Node.evaluateWith_of_references_eq_nil _ hoperand, pure_bind, pure_bind]
  rfl

end Filter

/-! ## Evaluated and read -/

namespace Scope

/-- **Evaluation does not change how a node reads** that contains no reference at any depth. In
any scope, whichever declarations are being evaluated already and whatever is in the cells and
in the log, the evaluation comes to an end. The node that comes out says the same, and is one
text exactly if the node was; and the cells and the log stay as they are, so nothing is
reported. -/
theorem evaluation_keeps_reading (scope : Scope) (entered : List RuleId) {n : Node}
    (h : ∀ v, ¬n.Contains (.variable v)) (p : Progress) :
    ∃ m, (n.evaluateWith (scope.resolve entered)).run p = .ok (m, p) ∧ m.text = n.text ∧
      (m.render.isScalar = true ↔ n.render.isScalar = true) := by
  have hreferences : n.references = [] :=
    List.eq_nil_iff_forall_not_mem.mpr fun v hv => h v (Node.contains_variable_iff.mpr hv)
  have hreads := n.readsAs_collapse
  refine ⟨n.collapse, ?_, hreads.text, ?_⟩
  · rw [Node.evaluateWith_of_references_eq_nil _ hreferences]
    rfl
  · rw [hreads.isScalar]

/-- A word in front of a stack of two fonts, of which the first is a value of its own. -/
def captioned : Node :=
  .expression [.keyword "x", .value [.value [.quoted "A"], .expression [.quoted "B"]]]

/-- The word and the stack are a list, and so they are when the lists of one are gone. -/
theorem captioned_reads_as_before :
    (∀ v, ¬captioned.Contains (.variable v)) ∧
      ∃ m, (captioned.evaluate ⟨{}, []⟩).run ⟨.empty, {}⟩ = .ok (m, ⟨.empty, {}⟩) ∧
        m.text = "x, A, B" ∧ m.render.isScalar = false := by
  have hnone : ∀ v, ¬captioned.Contains (.variable v) := fun v hv =>
    absurd (Node.contains_variable_iff.mp hv) List.not_mem_nil
  obtain ⟨m, hrun, htext, hscalar⟩ := evaluation_keeps_reading ⟨{}, []⟩ [] hnone ⟨.empty, {}⟩
  refine ⟨hnone, m, hrun, htext.trans (by decide), ?_⟩
  exact Bool.eq_false_iff.mpr fun hm => absurd (hscalar.mp hm) (by decide)

end Scope

end MapStyle
