import MapStyle.Proofs.Cycles
import MapStyle.Proofs.Requests

/-!
# Circular references are reported

Where a cycle is reached from a rule, evaluating the rule reports a circular
reference, and nowhere else (`Scope.circular_iff_reachesCycle`).

Nothing is reported without reason, since a reference is reported as circular
when its declaration is entered already, and then it is on a cycle. That no
cycle is missed is less obvious, since a cell that is full ends the search. But
what a cell says about cycles is right as long as nothing was reported: the
reference was settled then, by a declaration from whose references no cycle is
reached, or there would have been a report already. So what is known of the
cells between two steps (`Scope.watching`) speaks of the reports as well.
-/

namespace MapStyle

/-- **The diagnostics of one log that another has not**, one of them an error
about a circular reference. -/
def Log.Circles (start log : Log) : Prop :=
  ∃ new, log.entries = start.entries ++ new ∧
    ∃ d ∈ new, d.problem = .circularVariable ∧ d.isError = true

namespace Log

/-- A log has nothing that it has not. -/
theorem not_circles_self (log : Log) : ¬log.Circles log := by
  rintro ⟨new, hnew, d, hd, -⟩
  rw [List.self_eq_append_right.mp hnew] at hd
  exact absurd hd List.not_mem_nil

/-- What is reported stays reported. -/
theorem Circles.mono {start log log' : Log} (h : start.Circles log) (hle : log ≤ log') :
    start.Circles log' := by
  obtain ⟨new, hnew, d, hd, hcircular⟩ := h
  obtain ⟨-, more, hmore⟩ := hle
  refine ⟨new ++ more, ?_, d, List.mem_append_left _ hd, hcircular⟩
  rw [hmore, hnew, List.append_assoc]

/-- **What a report tells about circles**: only an error about a circular
reference tells anything new. -/
theorem circles_report_iff {start log : Log} (hle : start ≤ log) {d : Diagnostic}
    (hd : d.isError = true) :
    start.Circles (log.report d) ↔ start.Circles log ∨ d.problem = .circularVariable := by
  obtain ⟨-, new, hnew⟩ := hle
  have hentries : (log.report d).entries = start.entries ++ (new ++ [d]) := by
    rw [entries_report_of_isError log hd, hnew, List.append_assoc]
  constructor
  · rintro ⟨new', hnew', d', hd', hcircular⟩
    rw [hentries] at hnew'
    rw [← List.append_cancel_left hnew'] at hd'
    rcases List.mem_append.mp hd' with hd' | hd'
    · exact Or.inl ⟨new, hnew, d', hd', hcircular⟩
    · rw [List.mem_singleton.mp hd'] at hcircular
      exact Or.inr hcircular.1
  · rintro (hcircles | hcircular)
    · exact hcircles.mono (le_report log d)
    · exact ⟨new ++ [d], hentries, d, by simp, hcircular, hd⟩

end Log

namespace Scope

/-- **As long as no circular reference is reported, the references that were
settled reach no cycle**; and there is a report only if the node that is
evaluated reaches one. -/
def watching (scope : Scope) (hlinked : scope.sheet.Linked) {high : ℕ}
    (hhoused : Housed 0 high scope.sheet.references) (start : Log) (root : Node) :
    scope.Invariant where
  Meets entered v := v ∈ scope.sheet.references ∧ scope.Trails entered v ∧
    (scope.Cyclic v → scope.ReachesCycle root)
  Keeps p := start ≤ p.log ∧ (start.Circles p.log → scope.ReachesCycle root) ∧
    scope.sheet.Holds (fun v _ => scope.Cyclic v → start.Circles p.log) p.memos
  Finds p v _ := scope.Cyclic v → start.Circles p.log
  grows hle hn := fun hcyclic => (hn hcyclic).mono hle.2
  binds hv := exists_binding? hlinked (hlinked.knows_owner hv.1)
  enters hv hid _ hr w hw :=
    ⟨Stylesheet.mem_references_of_rule (List.mem_of_getElem? hr) hw, hv.2.1.cons hid hr hw,
      fun hcyclic => hv.2.2 ((cyclic_iff hid hr).mpr ⟨w, hw, hcyclic⟩)⟩
  recalls hv hp hn := hp.2.2 _ hv.1 _ hn
  misses := by
    intro entered v p hv ⟨hle, hroot, hholds⟩ hnone
    have hcircles := Log.circles_report_iff hle (d := v.undefinedReport) rfl
    refine ⟨⟨hle.trans (Log.le_report _ _), fun h => ?_, fun w hw n hn hcyclic => ?_⟩,
      fun hcyclic => absurd hcyclic (not_cyclic_of_unbound hnone)⟩
    · rcases hcircles.mp h with h | h
      · exact hroot h
      · exact absurd (show Problem.undefinedVariable = .circularVariable from h) (by decide)
    · exact (hholds w hw n hn hcyclic).mono (Log.le_report _ _)
  -- from now on there is a report, so nothing needs to be known of the cells any more
  circles := by
    intro entered v id p hv ⟨hle, hroot, hholds⟩ hid hin
    have hreported : start.Circles (p.log.report v.circularReport) :=
      (Log.circles_report_iff hle rfl).mpr (Or.inr rfl)
    exact ⟨⟨hle.trans (Log.le_report _ _), fun _ => hv.2.2 (hv.2.1.cyclic hid hin),
      fun _ _ _ _ _ => hreported⟩, fun _ => hreported⟩
  leaves := by
    intro entered v id r p n hv hp hid _ hr hn hcyclic
    obtain ⟨w, hw, hwcyclic⟩ := (cyclic_iff hid hr).mp hcyclic
    obtain ⟨k, hk⟩ := hn.exists_of_mem (v := w) hw
    exact hk hwcyclic
  remembers hv hp hn := ⟨hp.1, hp.2.1, hp.2.2.fill hhoused hv.1 hn⟩

/-- **Circular references are reported exactly where there are cycles.** In a
stylesheet built with its own handles, with all cells empty and whatever is in
scope, the evaluation of a rule adds an error about a circular reference to the
log if and only if a cycle is reached from the references in the value of the
rule. -/
theorem circular_iff_reachesCycle (scope : Scope) {memos : Memos}
    (hbuilt : scope.sheet.Built memos)
    (hempty : ∀ v ∈ scope.sheet.references, memos.get? v.cell = none) (log : Log) {r : Rule}
    (hr : r ∈ scope.sheet.rules) :
    ∃ r' q new, (r.evaluate scope).run ⟨memos, log⟩ = .ok (r', q) ∧
      q.log.entries = log.entries ++ new ∧
      ((∃ d ∈ new, d.problem = .circularVariable ∧ d.isError = true) ↔
        ∃ v ∈ r.value.references, ∃ id, scope.Binds v.name id ∧
          ∃ id', Relation.ReflTransGen scope.Uses id id' ∧
            Relation.TransGen scope.Uses id' id') := by
  let inv := scope.watching hbuilt.linked hbuilt.housed log r.value.node
  have hstart : inv.Keeps ⟨memos, log⟩ :=
    ⟨le_refl log, fun h => absurd h (Log.not_circles_self log), Stylesheet.holds_of_empty hempty⟩
  have hadmits : inv.Admits ⟨[], r.value.node, ⟨memos, log⟩⟩ :=
    ⟨Nested.nil, fun v hv => ⟨Stylesheet.mem_references_of_rule hr hv, Trails.nil,
      fun hcyclic => ⟨v, hv, hcyclic⟩⟩, hstart⟩
  obtain ⟨m, q, hrun, hle, ⟨-, hroot, -⟩, hm⟩ := hadmits.ends
  obtain ⟨-, new, hnew⟩ := hle.2
  obtain ⟨r', hr', -⟩ := Evaluation.exists_of_run_map_eq_ok (Request.run_answer (.rule r) hrun)
  refine ⟨r', q, new, hr', hnew, fun ⟨d, hd, hcircular⟩ => ?_, fun ⟨v, hv, hcyclic⟩ => ?_⟩
  · exact hroot ⟨new, hnew, d, hd, hcircular⟩
  · obtain ⟨k, hk⟩ := hm.exists_of_mem (v := v) hv
    obtain ⟨new', hnew', hcircular⟩ := hk hcyclic
    rw [hnew] at hnew'
    rw [List.append_cancel_left hnew']
    exact hcircular

/-- `@a` is defined by `@b`, and `@b` by `@a`. -/
theorem circle_is_reported :
    ∃ r ∈ Stylesheet.circle.rules, ∃ r' q,
      (r.evaluate ⟨.circle, [⟨0⟩, ⟨1⟩]⟩).run ⟨Stylesheet.circleAndCells.2, {}⟩ = .ok (r', q) ∧
        ∃ d ∈ q.log.entries, d.problem = .circularVariable := by
  let scope : Scope := ⟨.circle, [⟨0⟩, ⟨1⟩]⟩
  have ha : scope.Binds "@a" ⟨0⟩ := ⟨_, _, rfl, ⟨[], [], rfl, by simp, by simp⟩, rfl⟩
  have hb : scope.Binds "@b" ⟨1⟩ := ⟨_, _, rfl, ⟨[], [], rfl, by simp, by simp⟩, rfl⟩
  have hab : scope.Uses ⟨0⟩ ⟨1⟩ := ⟨_, rfl, _, List.mem_cons_self, hb⟩
  have hba : scope.Uses ⟨1⟩ ⟨0⟩ := ⟨_, rfl, _, List.mem_cons_self, ha⟩
  obtain ⟨r', q, new, hrun, hnew, hiff⟩ := circular_iff_reachesCycle scope
    Stylesheet.built_circle Stylesheet.get?_circle {} (List.mem_of_getElem? (i := 0) rfl)
  obtain ⟨d, hd, hcircular, -⟩ := hiff.mpr ⟨_, List.mem_cons_self, ⟨1⟩, hb, ⟨1⟩, .refl,
    (Relation.TransGen.single hba).tail hab⟩
  refine ⟨_, List.mem_of_getElem? (i := 0) rfl, r', q, hrun, d, ?_, hcircular⟩
  rw [hnew]
  exact List.mem_append_right _ hd

end Scope

end MapStyle
