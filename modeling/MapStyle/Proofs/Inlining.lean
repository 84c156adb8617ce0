import MapStyle.Proofs.NormalForm
import MapStyle.Proofs.Outline
import MapStyle.Proofs.Substitution
import MapStyle.Proofs.Writing

/-!
# Variables written in place

Instead of a reference to a variable its value can be written: a **copy** of it, with
cells of its own and owned by what it is written in (`Node.Copies`). The rule comes
to the same, however the reference was wrapped into expressions and values of one
part, and so what is found wrong with it, and its text
(`Session.variable_written_in_place`); and so does a filter whose operand is the
reference.

Two things could stand in the way. The copy is a value inside a value, and has to
collapse as the reference did; and its references are looked up on behalf of
something else than those of the original. But what a reference stands for depends
on its name alone, and evaluation gives what a reference stands for, as long as no
cycle is reached. A copy outside of the stylesheet is no exception, so the invariant
of `Scope.substituting` is stated for more references than those of the stylesheet
(`Scope.substitutingAmong`), and the copy comes to the same as the reference
(`Scope.WrittenOut.exists_run_alike`). Nor does it matter if the stylesheet was edited:
a copy that leads back to what it is written in would be of a declaration on a cycle
(`Scope.WrittenOut.not_leadsTo`).
-/

namespace MapStyle

namespace Node

/-! ## Wrapped nodes -/

/-- **A node wrapped in another**: the other is put around it as expressions and
values of one part, if anything is. -/
inductive WrappedIn (n : Node) : Node → Prop
  | here : WrappedIn n n
  | expression {m : Node} (h : WrappedIn n m) : WrappedIn n (.expression [m])
  | value {m : Node} (h : WrappedIn n m) : WrappedIn n (.value [m])

/-- **What is wrapped around a node does not count** when it is evaluated. -/
theorem WrappedIn.evaluate_eq {n m : Node} (h : n.WrappedIn m) (scope : Scope) :
    m.evaluate scope = n.evaluate scope := by
  induction h with
  | here => rfl
  | expression _ ih => rw [evaluate, evaluateWith_expression_singleton, ← ih, evaluate]
  | value _ ih => rw [evaluate, evaluateWith_value_singleton, ← ih, evaluate]

/-- What is wrapped around a node refers to nothing. -/
theorem WrappedIn.references_eq {n m : Node} (h : n.WrappedIn m) :
    m.references = n.references := by
  induction h with
  | here => rfl
  | expression _ ih | value _ ih => simp [references, ih]

/-- A value of one component is wrapped around it. -/
theorem toNode_wrappedIn_node (v : Value) : v.toNode.WrappedIn v.node := by
  obtain ⟨ns⟩ := v
  match ns with
  | [n] => exact .value .here
  | [] | _ :: _ :: _ => exact .here

/-- **A node in which a value is wrapped is evaluated as the value**, and refers to the
same. -/
theorem WrappedIn.of_value {v : Value} {m : Node} (h : v.toNode.WrappedIn m) (scope : Scope) :
    m.evaluate scope = v.node.evaluate scope ∧ m.references = v.references := by
  have hvalue := toNode_wrappedIn_node v
  exact ⟨(h.evaluate_eq scope).trans (hvalue.evaluate_eq scope).symm,
    h.references_eq.trans hvalue.references_eq.symm⟩

/-! ## Copies -/

/-- **A copy of a node**: the same node, with references of the same names in the same
places. -/
inductive Copies : Node → Node → Prop
  | reference {v w : Variable} (hname : v.name = w.name) : Copies (.variable v) (.variable w)
  | composite {n m : Node} (hn : ¬n.IsReference) (hm : ¬m.IsReference)
      (hrebuild : ∀ ms : List Node, ms.length = m.parts.length → m.rebuild ms = n.rebuild ms)
      (hparts : List.Forall₂ Copies n.parts m.parts) : Copies n m

mutual

/-- **A placed node is a copy.** -/
theorem copies_place (owner : Option Owner) (n : Node) (m : Memos) :
    n.Copies ((n.place owner).run m).1 := by
  match n with
  | .expression ns | .effectCall _ ns | .value ns =>
    exact .composite id id (fun _ _ => rfl) (forall₂_copies_placeAll owner ns m)
  | .filter key _ operand _ =>
    refine .composite id id (fun ms hms => ?_) (.cons (copies_place owner key m)
      (.cons (copies_place owner operand _) .nil))
    obtain ⟨_, _, rfl⟩ := List.length_eq_two.mp hms
    rfl
  | .url target _ =>
    refine .composite id id (fun ms hms => ?_) (.cons (copies_place owner target m) .nil)
    obtain ⟨_, rfl⟩ := List.length_eq_one_iff.mp hms
    rfl
  | .variable _ => exact .reference rfl
  | .field _ | .effect _ | .keyword _ | .literal _ | .quoted _ | .dimension _ | .color _
  | .undefined => exact .composite id id (fun _ _ => rfl) .nil

/-- Placed nodes are copies. -/
theorem forall₂_copies_placeAll (owner : Option Owner) (ns : List Node) (m : Memos) :
    List.Forall₂ Copies ns ((placeAll owner ns).run m).1 := by
  match ns with
  | [] => exact .nil
  | n :: ns => exact .cons (copies_place owner n m) (forall₂_copies_placeAll owner ns _)

end

/-- Two relations of lists one after the other, member by member. -/
theorem forall₂_comp {α β γ : Type} {R : α → β → Prop} {S : β → γ → Prop} {as : List α}
    {bs : List β} {cs : List γ} (hR : List.Forall₂ R as bs) (hS : List.Forall₂ S bs cs) :
    List.Forall₂ (fun a c => ∃ b, R a b ∧ S b c) as cs := by
  induction hR generalizing cs with
  | nil =>
    cases hS
    exact .nil
  | cons hab _ ih =>
    cases hS with
    | cons hbc hrest => exact .cons ⟨_, hab, hbc⟩ (ih hrest)

/-- **What a copy comes to, the original may come to as well**, if what references may
be replaced by depends on their names. -/
theorem Replaced.of_copies {R : Variable → Node → Prop}
    (hR : ∀ v w k, v.name = w.name → R w k → R v k) {n m k : Node} (h : n.Copies m)
    (hm : m.Replaced R k) : n.Replaced R k := by
  induction n using partInduction generalizing m k with
  | reference v =>
    cases h with
    | reference hname => exact .reference (hR _ _ _ hname (replaced_variable_iff.mp hm))
    | composite hn => exact absurd trivial hn
  | composite n hn ih =>
    cases h with
    | reference => exact absurd trivial hn
    | composite _ hreference hrebuild hparts =>
      obtain ⟨ks, hks, rfl⟩ := (replaced_iff hreference).mp hm
      rw [hrebuild ks hks.length_eq.symm]
      have hmem := (List.forall₂_and_left n.parts _).mpr ⟨fun a ha => ha, hparts⟩
      refine .composite hn ((forall₂_comp hmem hks).imp fun a c ⟨b, ⟨ha, hab⟩, hbc⟩ => ?_)
      exact ih a ha hab hbc

/-- A copy refers to the names that the original refers to. -/
theorem Copies.exists_name_eq {n m : Node} (h : n.Copies m) {w : Variable}
    (hw : w ∈ m.references) : ∃ v ∈ n.references, v.name = w.name := by
  induction n using partInduction generalizing m with
  | reference v =>
    cases h with
    | reference hname =>
      rw [List.mem_singleton.mp (show w ∈ [_] from hw)]
      exact ⟨v, List.mem_cons_self, hname⟩
    | composite hn => exact absurd trivial hn
  | composite n hn ih =>
    cases h with
    | reference => exact absurd trivial hn
    | composite _ hreference hrebuild hparts =>
      rw [references_of_not_isReference hreference] at hw
      obtain ⟨b, hb, hw⟩ := List.mem_flatMap.mp hw
      have hmem := (List.forall₂_and_left n.parts _).mpr ⟨fun a ha => ha, hparts⟩
      obtain ⟨a, ha, hab⟩ := exists_rel_of_mem hmem.flip hb
      obtain ⟨v, hv, hname⟩ := ih a ha hab hw
      exact ⟨v, mem_references_of_mem_parts ha hv, hname⟩

end Node

/-! ## What references outside of the stylesheet stand for -/

namespace Scope

/-- What a reference stands for depends on its name. -/
theorem StandsFor.of_name_eq {scope : Scope} {v w : Variable} {m : Node} (h : scope.StandsFor w m)
    (hname : v.name = w.name) : scope.StandsFor v m := by
  cases h with
  | undefined h => exact .undefined (hname ▸ h)
  | value h hr hf => exact .value (hname ▸ h) hr hf

/-- Whether a reference reaches a cycle depends on its name. -/
theorem Cyclic.of_name_eq {scope : Scope} {v w : Variable} (h : scope.Cyclic w)
    (hname : v.name = w.name) : scope.Cyclic v := by
  obtain ⟨id, hid, hcycle⟩ := h
  exact ⟨id, hname ▸ hid, hcycle⟩

/-- **What is remembered of references**: the cell of one that reaches no cycle holds
what the reference stands for. -/
def Remembers (scope : Scope) (vs : List Variable) (m : Memos) : Prop :=
  ∀ v ∈ vs, ∀ n, m.get? v.cell = some n → ¬scope.Cyclic v → scope.StandsFor v n

/-- Of empty cells nothing is remembered. -/
theorem remembers_of_empty {scope : Scope} {vs : List Variable} {m : Memos}
    (h : ∀ v ∈ vs, m.get? v.cell = none) : scope.Remembers vs m := by
  intro v hv n hn
  rw [h v hv] at hn
  exact absurd hn (Option.some_ne_none n).symm

/-- **What is remembered of references** of the stylesheet, and of others, is kept by
evaluation. -/
def substitutingAmong (scope : Scope) (hlinked : scope.sheet.Linked) {high : ℕ}
    {vs : List Variable} (hhoused : Housed 0 high vs)
    (hvs : ∀ v ∈ scope.sheet.references, v ∈ vs) (hknows : ∀ v ∈ vs, scope.sheet.Knows v.owner) :
    scope.Invariant where
  Meets entered v := v ∈ vs ∧ scope.Trails entered v
  Keeps p := scope.Remembers vs p.memos
  Finds _ v n := ¬scope.Cyclic v → scope.StandsFor v n
  grows _ hn := hn
  binds hv := exists_binding? hlinked (hknows _ hv.1)
  enters hv hid _ hr w hw :=
    ⟨hvs w (Stylesheet.mem_references_of_rule (List.mem_of_getElem? hr) hw), hv.2.cons hid hr hw⟩
  recalls hv hp hn := hp _ hv.1 _ hn
  misses _ hp hnone := ⟨hp, fun _ => .undefined hnone⟩
  circles hv hp hid hin := ⟨hp, fun hacyclic => absurd (hv.2.cyclic hid hin) hacyclic⟩
  leaves _ _ hid _ hr hn := standsFor_of_replaced hid hr hn
  remembers hv hp hn := hhoused.holds_fill hp hv.1 hn

/-! ## References that are written out -/

/-- **A reference that is written out**: the value of the declaration that it is bound
to, from which no cycle is reached, and a copy of this value outside of the
stylesheet, with cells of its own. -/
structure WrittenOut (scope : Scope) (v : Variable) (declaration : Rule) (copy : Node) : Prop where
  linked : scope.sheet.Linked
  binds : ∃ id, scope.Binds v.name id ∧ scope.sheet.rules[id.index]? = some declaration
  acyclic : ¬scope.Cyclic v
  copies : declaration.value.node.Copies copy
  housed : ∃ high, Housed 0 high (scope.sheet.references ++ copy.references)
  knows : ∀ w ∈ copy.references, scope.sheet.Knows w.owner

namespace WrittenOut

variable {scope : Scope} {v : Variable} {declaration : Rule} {copy : Node}
  (h : scope.WrittenOut v declaration copy)
include h

/-- **What is remembered of the references** of the stylesheet and the copy is kept. -/
theorem exists_invariant : ∃ inv : scope.Invariant,
    (∀ w ∈ scope.sheet.references ++ copy.references, inv.Meets [] w) ∧
    (∀ p, inv.Keeps p ↔ scope.Remembers (scope.sheet.references ++ copy.references) p.memos) ∧
    ∀ p w n, inv.Finds p w n ↔ (¬scope.Cyclic w → scope.StandsFor w n) := by
  obtain ⟨high, hhoused⟩ := h.housed
  have hknows : ∀ w ∈ scope.sheet.references ++ copy.references, scope.sheet.Knows w.owner :=
    fun w hw => (List.mem_append.mp hw).elim h.linked.knows_owner (h.knows w)
  exact ⟨substitutingAmong scope h.linked hhoused (fun w hw => List.mem_append_left _ hw) hknows,
    fun w hw => ⟨hw, .nil⟩, fun _ => Iff.rfl, fun _ _ _ => Iff.rfl⟩

/-- **Any node of the stylesheet is evaluated**, and what is remembered is kept. -/
theorem exists_run {n : Node} (hn : ∀ w ∈ n.references, w ∈ scope.sheet.references)
    {p : Progress} (hp : scope.Remembers (scope.sheet.references ++ copy.references) p.memos) :
    ∃ m q, (n.evaluate scope).run p = .ok (m, q) ∧
      scope.Remembers (scope.sheet.references ++ copy.references) q.memos := by
  obtain ⟨inv, hmeets, hkeeps, -⟩ := h.exists_invariant
  obtain ⟨m, q, hrun, -, hq, -⟩ := inv.ends_evaluateWith .nil
    (fun w hw => hmeets w (List.mem_append_left _ (hn w hw))) ((hkeeps p).mpr hp)
  exact ⟨m, q, hrun, (hkeeps q).mp hq⟩

/-- **The copy comes to the same as the reference**, if not to the same cells and
reports. -/
theorem exists_run_alike (hv : v ∈ scope.sheet.references) {p : Progress}
    (hp : scope.Remembers (scope.sheet.references ++ copy.references) p.memos) :
    ∃ m q q', ((Node.variable v).evaluate scope).run p = .ok (m, q) ∧
      (copy.evaluate scope).run p = .ok (m, q') := by
  obtain ⟨inv, hmeets, hkeeps, hfinds⟩ := h.exists_invariant
  obtain ⟨id, hid, hr⟩ := h.binds
  obtain ⟨m, q, hrun, -, -, hm⟩ := inv.ends_evaluateWith .nil (n := .variable v)
    (List.forall_mem_singleton.mpr (hmeets v (List.mem_append_left _ hv))) ((hkeeps p).mpr hp)
  obtain ⟨m', q', hrun', -, -, hm'⟩ := inv.ends_evaluateWith .nil
    (fun w hw => hmeets w (List.mem_append_right _ hw)) ((hkeeps p).mpr hp)
  have hstands : scope.StandsFor v m :=
    (hfinds _ _ _).mp (Node.replaced_variable_iff.mp hm) h.acyclic
  -- the original might have come to what the copy came to
  have horiginal : declaration.value.node.Replaced
      (fun w k => ¬scope.Cyclic w → scope.StandsFor w k) m' := by
    refine Node.Replaced.of_copies (fun u w k hname hk hu => ?_) h.copies
      (hm'.imp fun w _ k => (hfinds _ w k).mp)
    exact (hk fun hw => hu (hw.of_name_eq hname)).of_name_eq hname
  obtain rfl := hstands.unique (standsFor_of_replaced hid hr horiginal h.acyclic)
  exact ⟨m, q, q', hrun, hrun'⟩

/-- **The copy does not lead back** to a declaration with the reference in its
value. -/
theorem not_leadsTo {i : RuleId} {r : Rule} (hr : scope.sheet.rules[i.index]? = some r)
    (hv : v ∈ r.value.references) {w : Variable} (hw : w ∈ copy.references) :
    ¬scope.LeadsTo w i := by
  rintro ⟨next, hnext, hreach⟩
  obtain ⟨d, hd, hdeclaration⟩ := h.binds
  obtain ⟨u, hu, hname⟩ := h.copies.exists_name_eq hw
  have hfirst : scope.Uses d next := ⟨declaration, hdeclaration, u, hu, hname ▸ hnext⟩
  have hback : scope.Uses i d := ⟨r, hr, v, hv, hd⟩
  exact h.acyclic (cyclic_of_transGen hd (.tail' (.head hfirst hreach) hback))

end WrittenOut

/-! ## Rules and filters with a copy in them -/

namespace WrittenOut

variable {scope : Scope} {v : Variable} {declaration : Rule} {copy : Value}
  (h : scope.WrittenOut v declaration copy.node) {sheet' : Stylesheet}
  (houtline : sheet'.outline = scope.sheet.outline) {p o : Progress}
  (hp : scope.Remembers (scope.sheet.references ++ copy.references) p.memos)
  (hmemos : o.memos = p.memos)
include h houtline hp hmemos

/-- **A rule with the reference for a value and one with the copy** come to the same,
in the stylesheet as it is and with the rule edited. -/
theorem exists_run_rule {i : ℕ} {r : Rule} {w : Value} (hr : scope.sheet.rules[i]? = some r)
    (hv : (Node.variable v).WrappedIn r.value.node) (hw : copy.toNode.WrappedIn w.node)
    (hrules : ∀ j, j ≠ i → sheet'.rules[j]? = scope.sheet.rules[j]?) :
    ∃ m q o', (r.value.node.evaluate scope).run p = .ok (m, q) ∧
      (w.node.evaluate ⟨sheet', scope.frames⟩).run o = .ok (m, o') := by
  have hreference : v ∈ r.value.references := by
    rw [show r.value.references = [v] from hv.references_eq]
    exact List.mem_singleton_self v
  obtain ⟨hcopy, hreferences⟩ := hw.of_value scope
  obtain ⟨m, q, q', hrun, hrun'⟩ := h.exists_run_alike
    (Stylesheet.mem_references_of_rule (List.mem_of_getElem? hr) hreference) hp
  rw [← hv.evaluate_eq] at hrun
  rw [← hcopy] at hrun'
  -- the copy leads to declarations that were not edited
  have hsame : ∀ u ∈ w.node.references, ∀ id, scope.LeadsTo u id →
      sheet'.rules[id.index]? = scope.sheet.rules[id.index]? := by
    intro u hu id hid
    refine hrules id.index fun heq => ?_
    exact h.not_leadsTo (i := ⟨i⟩) hr hreference (hreferences ▸ hu) (heq ▸ hid)
  obtain ⟨o', hedited⟩ := exists_run_of_outline hrun' houtline hsame hmemos
  exact ⟨m, q, o', hrun, hedited⟩

/-- **A filter with the reference for an operand and one with the copy** come to the
same. -/
theorem exists_run_filter {f : Filter} {n : Node} (hf : f ∈ scope.sheet.filters)
    (hv : (Node.variable v).WrappedIn f.operand) (hn : copy.toNode.WrappedIn n)
    (hrules : sheet'.rules = scope.sheet.rules) :
    ∃ g q o', (f.evaluate scope).run p = .ok (g, q) ∧
      (Filter.evaluate ⟨sheet', scope.frames⟩ { f with operand := n }).run o = .ok (g, o') := by
  have hreferences : f.references = f.key.references ++ [v] := by
    rw [Filter.references, hv.references_eq]
    rfl
  have hmem : ∀ u ∈ f.key.references ++ [v], u ∈ scope.sheet.references :=
    fun u hu => Stylesheet.mem_references_of_filter hf (hreferences ▸ hu)
  obtain ⟨k, q, hkey, hq⟩ := h.exists_run (fun u hu => hmem u (List.mem_append_left _ hu)) hp
  obtain ⟨m, q', q'', hrun, hrun'⟩ := h.exists_run_alike
    (hmem v (List.mem_append_right _ (List.mem_singleton_self v))) hq
  rw [← hv.evaluate_eq] at hrun
  rw [← (hn.of_value scope).1] at hrun'
  have hwritten := Filter.run_evaluate (f := { f with operand := n }) hkey hrun'
  obtain ⟨o', hedited⟩ := exists_run_of_outline (Filter.run_evaluate_eq_ok_iff.mp hwritten)
    houtline (fun _ _ _ _ => by rw [hrules]) hmemos
  exact ⟨_, q', o', f.run_evaluate hkey hrun, Filter.run_evaluate_eq_ok_iff.mpr hedited⟩

end WrittenOut

/-- **A value is written out where it is placed**, under any owner that the stylesheet
knows. -/
theorem writtenOut_place {scope : Scope} {memos : Memos} (hbuilt : scope.sheet.Built memos)
    {v : Variable} {id : RuleId} {declaration : Rule} (hid : scope.Binds v.name id)
    (hdeclaration : scope.sheet.rules[id.index]? = some declaration) (hacyclic : ¬scope.Cyclic v)
    {owner : Option Owner} (howner : scope.sheet.Knows owner) :
    scope.WrittenOut v declaration ((declaration.value.place owner).run memos).1.node := by
  obtain ⟨hplaced, howners⟩ := declaration.value.placed_place owner memos
  have hlinked := hbuilt.linked
  refine ⟨hlinked, ⟨id, hid, hdeclaration⟩, hacyclic, ?_, ⟨_, hbuilt.housed.append hplaced.housed
    (Nat.zero_le _) (Memos.next_le hplaced.grown)⟩, fun w hw => ?_⟩
  · exact .composite not_false not_false (fun _ _ => rfl)
      (Node.forall₂_copies_placeAll owner _ memos)
  · obtain ⟨u, hu, hw⟩ := howners w hw
    rw [hw]
    cases owner with
    | none =>
      have hmem := List.mem_of_getElem? hdeclaration
      exact hlinked.knows_owner (Stylesheet.mem_references_of_rule hmem hu)
    | some owner => exact howner

end Scope

/-! ## Written in place -/

namespace Session

/-- **A session with an edited stylesheet**, and with another log. -/
def edit (s : Session) (sheet : Stylesheet) (log : Log) : Session :=
  { s with sheet, pass := { s.pass with log } }

/-- **A variable may be written in place.** In a stylesheet built with its own handles,
with all cells empty, a reference is bound to a declaration that reaches no cycle, and
the declaration's value is copied: placed once more, under any owner that the stylesheet
knows. If the value of a rule is the reference, in any nesting of expressions and values
of one part, it may be the copy instead, in any such nesting. In the stylesheet as it is
and in one where this rule was edited, whatever the log, both are evaluated to the same
rule, which is accepted or refused alike, with the same findings, and written alike. If
the right-hand operand of a filter is the reference, it may be the copy as well: both
are evaluated to the same filter, with the same text and the same findings. -/
theorem variable_written_in_place (s : Session) {memos : Memos} (hbuilt : s.sheet.Built memos)
    {v : Variable} {d : RuleId} {declaration : Rule}
    (hbinds : (Scope.mk s.sheet s.pass.frames).Binds v.name d)
    (hdeclaration : s.sheet.rules[d.index]? = some declaration)
    (hacyclic : ¬(Scope.mk s.sheet s.pass.frames).Cyclic v) (owner : Option Owner)
    (howner : s.sheet.Knows owner) {copy : Value}
    (hcopy : ((declaration.value.place owner).run memos).1 = copy)
    (hempty : ∀ w ∈ s.sheet.references ++ copy.references, s.memos.get? w.cell = none)
    {sheet' : Stylesheet} (houtline : sheet'.outline = s.sheet.outline) (log : Log) :
    (∀ (i : ℕ) (r : Rule) (w : Value), s.sheet.rules[i]? = some r →
      (Node.variable v).WrappedIn r.value.node → copy.toNode.WrappedIn w.node →
      (∀ j, j ≠ i → sheet'.rules[j]? = s.sheet.rules[j]?) →
      ∃ r' s₁ s₂, (evaluateRule r).run s = .ok (r', s₁) ∧
        (evaluateRule { r with value := w }).run (s.edit sheet' log) = .ok (r', s₂) ∧
        (∀ schema, ∃ accepted ds,
          (validate schema r').run s₁ = .ok (accepted, s₁.reportAll ds) ∧
          (validate schema r').run s₂ = .ok (accepted, s₂.reportAll ds)) ∧
        ∀ schema form, ∃ text t₁ t₂, (write schema form r').run s₁ = .ok (text, t₁) ∧
          (write schema form r').run s₂ = .ok (text, t₂) ∧ t₁.pass.fontSets = t₂.pass.fontSets) ∧
    (∀ f ∈ s.sheet.filters, ∀ n, (Node.variable v).WrappedIn f.operand →
      copy.toNode.WrappedIn n → sheet'.rules = s.sheet.rules →
      ∃ g s₁ s₂, (evaluateFilter f).run s = .ok (g, s₁) ∧
        (evaluateFilter { f with operand := n }).run (s.edit sheet' log) = .ok (g, s₂) ∧
        ∀ schema, ∃ text ds, (writeFilter schema f).run s = .ok (text, s₁.reportAll ds) ∧
          (writeFilter schema { f with operand := n }).run (s.edit sheet' log)
            = .ok (text, s₂.reportAll ds)) := by
  subst hcopy
  have hout := Scope.writtenOut_place hbuilt hbinds hdeclaration hacyclic howner
  have hremembers : (Scope.mk s.sheet s.pass.frames).Remembers _ s.memos :=
    Scope.remembers_of_empty hempty
  refine ⟨fun i r w hr hv hw hrules => ?_, fun f hf n hv hn hrules => ?_⟩
  · obtain ⟨m, p, q, hrun, hedited⟩ := hout.exists_run_rule houtline (p := ⟨s.memos, s.pass.log⟩)
      (o := ⟨s.memos, log⟩) hremembers rfl hr hv hw hrules
    refine ⟨_, _, _, run_evaluateRule_eq_ok_iff.mpr ⟨m, p, hrun, rfl, rfl⟩,
      run_evaluateRule_eq_ok_iff.mpr ⟨m, q, hedited, rfl, rfl⟩, fun schema => ⟨_, _, rfl, rfl⟩,
      fun schema form => ?_⟩
    exact exists_run_write_alike s.pass p.log q.log rfl rfl schema form _
  · obtain ⟨g, p, q, hrun, hedited⟩ := hout.exists_run_filter houtline
      (p := ⟨s.memos, s.pass.log⟩) (o := ⟨s.memos, log⟩) hremembers rfl hf hv hn hrules
    refine ⟨g, _, _, run_evaluate_eq_ok_iff.mpr ⟨p, hrun, rfl⟩,
      run_evaluate_eq_ok_iff.mpr ⟨q, hedited, rfl⟩, fun schema =>
        ⟨g.expression, g.findings schema.filterKeywords, ?_, ?_⟩⟩
    · exact run_evaluate_eq_ok_iff.mpr ⟨_, Filter.run_write hrun _, rfl⟩
    · exact run_evaluate_eq_ok_iff.mpr ⟨_, Filter.run_write hedited _, rfl⟩

end Session

/-! ## A stack of fonts -/

namespace Stylesheet

/-- The stylesheet `@c: serif; @fonts: "A", @c; text-face-name: @fonts; #lake[name = @c] {}`
and its cells. -/
def fontsAndCells : Stylesheet × Memos := ofAdditions [
  .rule (declaring "@c" true (.keyword "serif")) none,
  .rule { declaring "@fonts" true .undefined with
    value := ⟨[.quoted "A", .variable (refer "@c")]⟩ } none,
  .rule (declaring "text-face-name" false (.expression [.variable (refer "@fonts")])) none,
  .ruleset [{ lakes with filters := [⟨.field "name", .equal, .variable (refer "@c"), ⟨none, 0⟩⟩] }]
    none]

/-- **A stack of fonts**, by a variable for the stack and one for a font. -/
def fonts : Stylesheet := fontsAndCells.1

theorem built_fonts : fonts.Built fontsAndCells.2 := built_ofAdditions rfl

end Stylesheet

namespace Session

/-- The stack of fonts at the start of a pass, with its variables in scope. -/
def ofFonts : Session where
  sheet := .fonts
  memos := Stylesheet.fontsAndCells.2
  pass := (Pass.start {}).push [⟨0⟩, ⟨1⟩]

/-- The two ways to write `text-face-name`, and the filter. -/
theorem fonts_written_in_place :
    (∃ (r r' : Rule) (w : Value) (s₁ s₂ : Session), Stylesheet.fonts.rules[2]? = some r ∧
      w.components.length = 2 ∧ (evaluateRule r).run ofFonts = .ok (r', s₁) ∧
      (evaluateRule { r with value := w }).run (ofFonts.edit
        { Stylesheet.fonts with rules := Stylesheet.fonts.rules.set 2 { r with value := w } } {})
        = .ok (r', s₂)) ∧
    ∃ (f g : Filter) (s₁ s₂ : Session), f ∈ Stylesheet.fonts.filters ∧
      (evaluateFilter f).run ofFonts = .ok (g, s₁) ∧
      (evaluateFilter { f with operand := .keyword "serif" }).run ofFonts = .ok (g, s₂) := by
  let scope : Scope := ⟨.fonts, [⟨0⟩, ⟨1⟩]⟩
  let memos := Stylesheet.fontsAndCells.2
  have hc : scope.Binds "@c" ⟨0⟩ := ⟨_, _, rfl, ⟨[], [], rfl, by simp, by simp⟩, rfl⟩
  have hfonts : scope.Binds "@fonts" ⟨1⟩ := ⟨_, _, rfl, ⟨[], [], rfl, by simp, by simp⟩, rfl⟩
  have hacyclic : ∀ v : Variable, v.name = "@c" → ¬scope.Cyclic v := by
    intro v hname hcyclic
    obtain ⟨w, hw, -⟩ := (Scope.cyclic_iff (hname ▸ hc) rfl).mp hcyclic
    exact absurd hw List.not_mem_nil
  have hempty : ∀ v : Variable, v.cell ∈ [some 0, some 1, some 2, some 3] →
      memos.get? v.cell = none := by
    have hcells : memos.cells = #[none, none, none] := rfl
    intro v hv
    simp only [List.mem_cons, List.not_mem_nil, or_false] at hv
    rcases hv with h | h | h | h <;> simp [Memos.get?, hcells, h]
  constructor
  · obtain ⟨r, hr⟩ : ∃ r, Stylesheet.fonts.rules[2]? = some r := ⟨_, rfl⟩
    obtain ⟨declaration, hdeclaration⟩ : ∃ r, Stylesheet.fonts.rules[1]? = some r := ⟨_, rfl⟩
    let v : Variable := { Stylesheet.refer "@fonts" with owner := some (.rule ⟨2⟩), cell := some 1 }
    have hv : r.value.node = .value [.expression [.variable v]] := by
      obtain rfl := Option.some.inj hr
      rfl
    have hv' : ¬scope.Cyclic v := by
      intro hcyclic
      obtain ⟨w, hw, hcyclic⟩ := (Scope.cyclic_iff hfonts hdeclaration).mp hcyclic
      obtain rfl := Option.some.inj hdeclaration
      exact hacyclic w (List.mem_singleton.mp hw ▸ rfl) hcyclic
    let copy := ((declaration.value.place (some (.rule ⟨2⟩))).run memos).1
    have hcopy : ∀ w ∈ Stylesheet.fonts.references ++ copy.references,
        w.cell ∈ [some 0, some 1, some 2, some 3] := by
      obtain rfl := Option.some.inj hdeclaration
      decide
    obtain ⟨hrule, -⟩ := variable_written_in_place (v := v) ofFonts Stylesheet.built_fonts hfonts
      hdeclaration hv' (some (.rule ⟨2⟩)) (show 2 < 3 by decide) rfl
      (fun w hw => hempty w (hcopy w hw)) (Stylesheet.outline_set _ hr copy) {}
    obtain ⟨r', s₁, s₂, hrun, hrun', -⟩ := hrule 2 r copy hr
      (hv ▸ .value (.expression .here)) (Node.toNode_wrappedIn_node copy)
      fun j hj => List.getElem?_set_ne hj.symm
    exact ⟨r, r', copy, s₁, s₂, hr, by obtain rfl := Option.some.inj hdeclaration; rfl, hrun, hrun'⟩
  · obtain ⟨f, hf⟩ : ∃ f, Stylesheet.fonts.filters = [f] := ⟨_, rfl⟩
    let v : Variable :=
      { Stylesheet.refer "@c" with owner := some (.selector ⟨⟨0⟩, 0⟩), cell := some 2 }
    have hv : f.operand = .variable v := by
      obtain rfl := (List.cons.inj hf).1
      rfl
    have hcells : ∀ w ∈ Stylesheet.fonts.references ++ [],
        w.cell ∈ [some 0, some 1, some 2, some 3] := by
      decide
    obtain ⟨-, hfilter⟩ := variable_written_in_place (v := v) ofFonts Stylesheet.built_fonts hc rfl
      (hacyclic v rfl) none trivial rfl (fun w hw => hempty w (hcells w hw)) rfl ofFonts.pass.log
    obtain ⟨g, s₁, s₂, hrun, hrun', -⟩ := hfilter f (hf ▸ List.mem_singleton_self f)
      (.keyword "serif") (hv ▸ .here) .here rfl
    exact ⟨f, g, s₁, s₂, hf ▸ List.mem_singleton_self f, hrun, hrun'⟩

end Session

end MapStyle
