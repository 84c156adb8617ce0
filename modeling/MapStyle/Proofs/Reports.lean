import MapStyle.Proofs.Course
import Mathlib.Logic.Relation

/-!
# Reports leave a mark

An evaluation goes on after it reported a reference, which then stands for
`Node.undefined`. Nothing of what is evaluated is dropped on the way: a node is
put together from all of its evaluated parts, and a reference stands for all of
its declaration's value. So a report can be read off the outcome: a node whose
evaluation reported anything **contains** `Node.undefined` at some depth
(`Scope.Evaluates.contains_undefined`), and such a node is never written as the
empty text (`Node.text_ne_empty_of_contains_undefined`).
-/

namespace MapStyle

namespace Node

/-! ## What nodes contain -/

/-- **A node contains another**: at some depth, or it is the other. -/
def Contains (n m : Node) : Prop := Relation.ReflTransGen (fun a b => b ∈ a.parts) n m

theorem Contains.refl (n : Node) : n.Contains n := Relation.ReflTransGen.refl

/-- What a part contains, its node contains. -/
theorem contains_of_mem_parts {n m k : Node} (hm : m ∈ n.parts) (h : m.Contains k) :
    n.Contains k := Relation.ReflTransGen.head hm h

/-- A node contains itself and what its parts contain. -/
theorem contains_iff {n k : Node} : n.Contains k ↔ n = k ∨ ∃ m ∈ n.parts, m.Contains k := by
  unfold Contains
  rw [Relation.ReflTransGen.cases_head_iff]

/-- **The references of a node are the references it contains**, at any depth. -/
theorem contains_variable_iff {n : Node} {v : Variable} :
    n.Contains (.variable v) ↔ v ∈ n.references := by
  induction n using partInduction with
  | reference w =>
    rw [contains_iff]
    simp [parts, references, eq_comm]
  | composite n hn ih =>
    rw [contains_iff, references_of_not_isReference hn, List.mem_flatMap]
    constructor
    · rintro (rfl | ⟨m, hm, h⟩)
      · exact absurd trivial hn
      · exact ⟨m, hm, (ih m hm).mp h⟩
    · rintro ⟨m, hm, h⟩
      exact Or.inr ⟨m, hm, (ih m hm).mpr h⟩

/-- Elements are contained in the node they make up. -/
theorem contains_ofElements {ns : List Node} {m : Node} (hm : m ∈ ns) :
    (ofElements ns).Contains m := by
  unfold ofElements
  split
  · rw [List.mem_singleton.mp hm]
    exact .refl _
  · exact contains_of_mem_parts (n := .expression ns) hm (.refl m)

/-- Components are contained in the node they make up. -/
theorem contains_ofComponents {ns : List Node} {m : Node} (hm : m ∈ ns) :
    (ofComponents ns).Contains m := by
  unfold ofComponents
  split
  · rw [List.mem_singleton.mp hm]
    exact .refl _
  · exact contains_of_mem_parts (n := .value ns) hm (.refl m)

/-- **No part gets lost when a node is put together.** -/
theorem contains_rebuild {n : Node} {ms : List Node} (hlength : ms.length = n.parts.length)
    {m : Node} (hm : m ∈ ms) : (n.rebuild ms).Contains m := by
  cases n with
  | expression _ => exact contains_ofElements hm
  | value _ => exact contains_ofComponents hm
  | effectCall name _ => exact contains_of_mem_parts (n := .effectCall name ms) hm (.refl m)
  | filter _ comparison _ location =>
    obtain ⟨key, operand, rfl⟩ := List.length_eq_two.mp hlength
    exact contains_of_mem_parts (n := .filter key comparison operand location) hm (.refl m)
  | url _ paths =>
    obtain ⟨target, rfl⟩ := List.length_eq_one_iff.mp hlength
    exact contains_of_mem_parts (n := .url target paths) hm (.refl m)
  | _ =>
    rw [List.length_eq_zero_iff.mp hlength] at hm
    exact absurd hm List.not_mem_nil

/-- If a node contains `Node.undefined`, so does a component of its value. -/
theorem exists_mem_components_ofNode {n : Node} (h : n.Contains .undefined) :
    ∃ c ∈ (Value.ofNode n).components, c.Contains .undefined := by
  cases n with
  | value ns =>
    rcases contains_iff.mp h with h | ⟨c, hc, hck⟩
    · cases h
    · exact ⟨c, hc, hck⟩
  | _ => exact ⟨_, List.mem_singleton_self _, h⟩

end Node

/-! ## What nodes look like -/

/-- Texts of which one is not empty are not empty with a separator between
them. -/
theorem Text.intercalate_ne_empty {separator t : String} {ts : List String} (ht : t ∈ ts)
    (hne : t ≠ "") : separator.intercalate ts ≠ "" := by
  induction ts with
  | nil => exact absurd ht List.not_mem_nil
  | cons u us ih =>
    cases us with
    | nil =>
      rw [← List.mem_singleton.mp ht, String.intercalate_singleton]
      exact hne
    | cons u' us =>
      rw [String.intercalate_cons_cons]
      intro hempty
      obtain ⟨hfront, hrest⟩ := String.append_eq_empty_iff.mp hempty
      obtain ⟨rfl, -⟩ := String.append_eq_empty_iff.mp hfront
      rcases List.mem_cons.mp ht with rfl | ht
      · exact hne rfl
      · exact ih ht hrest

namespace Rendered

/-- Between the texts of listed renderings there are commas, however many there
are. -/
theorem text_listed (rs : List Rendered) :
    (listed rs).text = ", ".intercalate (rs.map text) := by
  match rs with
  | [] => rfl
  | [r] => rw [List.map_singleton, String.intercalate_singleton, listed]
  | r :: r' :: rs => simp [listed, text]

/-- What stands between the texts of spaced renderings: a list among them has commas. -/
def spacing (rs : List Rendered) : String := if rs.all isScalar then " " else ", "

/-- Between the texts of spaced renderings there are spaces or commas. -/
theorem text_spaced (rs : List Rendered) :
    (spaced rs).text = (spacing rs).intercalate (rs.map text) := by
  unfold spaced spacing
  split
  · rw [text, texts_eq_map]
  · rw [text, texts_eq_map]

end Rendered

namespace Node

/-- **A node is not written as the empty text if one of its parts is not.** -/
theorem text_ne_empty_of_mem_parts {n m : Node} (hm : m ∈ n.parts) (h : m.text ≠ "") :
    n.text ≠ "" := by
  have htexts : ∀ ns : List Node, m ∈ ns → m.text ∈ (renderAll ns).map Rendered.text := by
    intro ns hns
    rw [renderAll_eq_map, List.map_map]
    exact List.mem_map_of_mem hns
  cases n with
  | expression ns =>
    rw [text, render, Rendered.text_spaced]
    exact Text.intercalate_ne_empty (htexts ns hm) h
  | filter key comparison operand location => simp [text, render, Rendered.text]
  | effectCall name arguments => simp [text, render, Rendered.text]
  | url target _ =>
    rw [← List.mem_singleton.mp (show m ∈ [target] from hm)] at *
    exact h
  | value ns =>
    rw [text, render, Rendered.text_listed]
    exact Text.intercalate_ne_empty (htexts ns hm) h
  | _ => exact absurd hm List.not_mem_nil

/-- **A node that contains `Node.undefined` is not written as the empty text.** -/
theorem text_ne_empty_of_contains_undefined {n : Node} (h : n.Contains .undefined) :
    n.text ≠ "" := by
  induction h using Relation.ReflTransGen.head_induction_on with
  | refl => decide
  | head hm _ ih => exact text_ne_empty_of_mem_parts hm ih

end Node

/-! ## What an evaluation leaves behind -/

namespace Scope

variable {scope : Scope} {entered : List RuleId} {p : Progress} {ns ms : List Node}
  {es : List LookUp}

/-- A reference that is reported stands for `Node.undefined`. -/
theorem Answers.value_of_report {e : LookUp} (h : scope.Answers entered p e) {d : Diagnostic}
    (hd : e.report? = some d) : e.value = .undefined := by
  cases h with
  | recalled => cases hd
  | undefined | circular => rfl

/-- **A report can be read off what comes out.** -/
theorem Evaluates.contains_undefined (h : scope.Evaluates entered p ns ms es) {e : LookUp}
    (he : e ∈ es) {d : Diagnostic} (hd : e.report? = some d) :
    ∃ m ∈ ms, m.Contains .undefined := by
  induction h with
  | nil => exact absurd he List.not_mem_nil
  | composite _ hparts _ ihparts ihrest =>
    rcases List.mem_append.mp he with he | he
    · obtain ⟨m, hm, hundefined⟩ := ihparts he
      exact ⟨_, List.mem_cons_self, (Node.contains_rebuild hparts.length_eq hm).trans hundefined⟩
    · obtain ⟨m, hm, hundefined⟩ := ihrest he
      exact ⟨m, List.mem_cons_of_mem _ hm, hundefined⟩
  | answer hanswer _ ih =>
    rcases List.mem_cons.mp he with rfl | he
    · obtain rfl := hanswer.value_of_report hd
      exact ⟨_, List.mem_cons_self, .refl _⟩
    · obtain ⟨m, hm, hundefined⟩ := ih he
      exact ⟨m, List.mem_cons_of_mem _ hm, hundefined⟩
  | enter _ _ _ _ _ _ ihvalue ihrest =>
    rcases List.mem_append.mp he with he | he
    · obtain ⟨m, hm, hundefined⟩ := ihvalue he
      rw [List.mem_singleton.mp hm] at hundefined
      exact ⟨_, List.mem_cons_self, hundefined⟩
    · rcases List.mem_cons.mp he with rfl | he
      · cases hd
      · obtain ⟨m, hm, hundefined⟩ := ihrest he
        exact ⟨m, List.mem_cons_of_mem _ hm, hundefined⟩

/-- **A node whose evaluation added anything to the log comes out containing
`Node.undefined`.** -/
theorem contains_undefined_of_ne {n m : Node} {q : Progress}
    (h : (n.evaluate scope).run p = .ok (m, q)) (hlog : q.log.entries ≠ p.log.entries) :
    m.Contains .undefined := by
  obtain ⟨es, hes, rfl⟩ := (run_eq_ok_iff Nested.nil).mp h
  by_cases hreports : es.filterMap (·.report?) = []
  · rw [Progress.log_after, hreports] at hlog
    exact absurd rfl hlog
  · obtain ⟨d, hd⟩ := List.exists_mem_of_ne_nil _ hreports
    obtain ⟨e, he, hed⟩ := List.mem_filterMap.mp hd
    obtain ⟨k, hk, hundefined⟩ := hes.contains_undefined he hed
    rw [List.mem_singleton.mp hk] at hundefined
    exact hundefined

/-- A value whose evaluation added anything to the log has a component that is
not written as the empty text. -/
theorem exists_component_of_ne {n m : Node} {q : Progress}
    (h : (n.evaluate scope).run p = .ok (m, q)) (hlog : q.log.entries ≠ p.log.entries) :
    ∃ c ∈ (Value.ofNode m).components, c.text ≠ "" := by
  obtain ⟨c, hc, hundefined⟩ :=
    Node.exists_mem_components_ofNode (contains_undefined_of_ne h hlog)
  exact ⟨c, hc, Node.text_ne_empty_of_contains_undefined hundefined⟩

end Scope

end MapStyle
