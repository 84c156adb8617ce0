import MapStyle.Proofs.Listing
import MapStyle.Proofs.Reports
import Mathlib.Data.List.Nodup

/-!
# The links of a built stylesheet

The parts of a stylesheet are linked three times over: a rule knows the ruleset it is
made in, a ruleset lists the rules made in it, and a reference knows the rule or the
selector it is written in. In what is built with its own handles the three say the same
(`Stylesheet.links_agree`).

The first link is the one to compute with: what a ruleset lists is a filter of all rules
by their parents, in the order in which they were added (`Stylesheet.Built.rules_eq`). So
the lists of different rulesets have nothing in common, they are in order, and together
with the rules of the top level they are all rules there are.
-/

namespace MapStyle

namespace Stylesheet

/-! ## Rules by their parents -/

/-- The ruleset that a rule is made in, or the top level. -/
def parent? (sheet : Stylesheet) (id : RuleId) : Option (Option RulesetId) :=
  (sheet.rules[id.index]?).map (·.parent)

/-- **The rules made in a ruleset**, or at the top level, in the order in which they were
added. -/
def madeIn (sheet : Stylesheet) (parent : Option RulesetId) : List RuleId :=
  sheet.ruleIds.filter fun id => sheet.parent? id = some parent

variable {sheet : Stylesheet} {parent : Option RulesetId} {id : RuleId}

theorem parent?_eq_some_iff :
    sheet.parent? id = some parent ↔
      ∃ r, sheet.rules[id.index]? = some r ∧ r.parent = parent := Option.map_eq_some_iff

/-- A handle is one of those of the rules if there is a rule of it. -/
theorem mem_ruleIds_iff : id ∈ sheet.ruleIds ↔ id.index < sheet.rules.length := by
  unfold ruleIds
  rw [List.mem_map]
  constructor
  · rintro ⟨i, hi, rfl⟩
    exact List.mem_range.mp hi
  · intro h
    exact ⟨id.index, List.mem_range.mpr h, rfl⟩

theorem mem_madeIn_iff : id ∈ sheet.madeIn parent ↔
    ∃ r, sheet.rules[id.index]? = some r ∧ r.parent = parent := by
  unfold madeIn
  rw [List.mem_filter, decide_eq_true_eq, mem_ruleIds_iff, parent?_eq_some_iff,
    and_iff_right_of_imp]
  rintro ⟨r, hr, -⟩
  exact (List.getElem?_eq_some_iff.mp hr).1

/-- The handles of the rules are in order. -/
theorem pairwise_ruleIds (sheet : Stylesheet) : sheet.ruleIds.Pairwise (·.index < ·.index) := by
  unfold ruleIds
  exact List.pairwise_map.mpr List.pairwise_lt_range

/-- **Rules made in one place are in order.** -/
theorem pairwise_madeIn (sheet : Stylesheet) (parent : Option RulesetId) :
    (sheet.madeIn parent).Pairwise (·.index < ·.index) := sheet.pairwise_ruleIds.filter _

/-- What is in order has no repetitions. -/
theorem nodup_of_pairwise {ids : List RuleId} (h : ids.Pairwise (·.index < ·.index)) :
    ids.Nodup := by
  refine h.imp fun {a b} hlt heq => ?_
  rw [heq] at hlt
  exact Nat.lt_irrefl _ hlt

/-! ## What a ruleset lists -/

/-- **A rule is listed in the ruleset that it is made in**, and in no other. -/
theorem getElem?_listRule (id : RuleId) (parent : Option RulesetId) (rulesets : List Ruleset)
    (i : ℕ) : (listRule id parent rulesets)[i]? = rulesets[i]?.map fun rs =>
      if parent = some ⟨i⟩ then { rs with rules := rs.rules ++ [id] } else rs := by
  cases parent with
  | none => simp [listRule]
  | some p =>
    have hp : some p = some (⟨i⟩ : RulesetId) ↔ p.index = i := by
      rw [Option.some.injEq, ← RulesetId.mk.injEq]
    rw [listRule, List.getElem?_modify]
    simp only [hp]
    rfl

/-- The rules made in a place after a rule was added: it comes last, if it was made
there. -/
theorem madeIn_addRule (rulesets : List Ruleset) (rules : List Rule) (r : Rule)
    (parent : Option RulesetId) :
    madeIn ⟨rulesets, rules ++ [r]⟩ parent
      = madeIn ⟨rulesets, rules⟩ parent ++ if r.parent = parent then [⟨rules.length⟩] else [] := by
  have hnew : parent? ⟨rulesets, rules ++ [r]⟩ ⟨rules.length⟩ = some r.parent := by
    simp [parent?]
  have hold : ∀ id ∈ ruleIds ⟨rulesets, rules⟩,
      parent? ⟨rulesets, rules ++ [r]⟩ id = parent? ⟨rulesets, rules⟩ id := by
    intro id hid
    unfold parent?
    rw [List.getElem?_append_left (mem_ruleIds_iff.mp hid)]
  have hids : ruleIds ⟨rulesets, rules ++ [r]⟩ = ruleIds ⟨rulesets, rules⟩ ++ [⟨rules.length⟩] := by
    simp [ruleIds, List.range_succ]
  unfold madeIn
  rw [hids, List.filter_append, List.filter_congr fun id hid => by rw [hold id hid]]
  simp [List.filter_singleton, hnew]

/-- **What a ruleset lists are the rules made in it**, in the order in which they were
added. -/
theorem Built.rules_eq {memos : Memos} (h : sheet.Built memos) {i : ℕ} {rs : Ruleset}
    (hrs : sheet.rulesets[i]? = some rs) : rs.rules = sheet.madeIn (some ⟨i⟩) := by
  induction h generalizing rs with
  | empty => exact absurd hrs (by simp)
  | @addRuleset sheet m h selectors parent _ ih =>
    rw [run_addRuleset] at hrs ⊢
    rcases getElem?_concat_eq_some hrs with hrs | ⟨rfl, rfl⟩
    · exact ih hrs
    · -- a rule in the new ruleset would have been made before the ruleset was there
      refine (List.filter_eq_nil_iff.mpr fun id _ hid => ?_).symm
      obtain ⟨r, hr, hparent⟩ := parent?_eq_some_iff.mp (of_decide_eq_true hid)
      exact Nat.lt_irrefl _ (h.linked.rule_parent r (List.mem_of_getElem? hr) _ hparent)
  | @addRule sheet m h r parent _ ih =>
    rw [run_addRule] at hrs ⊢
    rw [getElem?_listRule] at hrs
    obtain ⟨rs', hrs', rfl⟩ := Option.map_eq_some_iff.mp hrs
    rw [madeIn_addRule]
    by_cases hparent : parent = some ⟨i⟩
    · rw [if_pos hparent, if_pos hparent]
      exact congrArg (· ++ _) (ih hrs')
    · rw [if_neg hparent, if_neg hparent, List.append_nil]
      exact ih hrs'
  | grow _ _ ih => exact ih hrs

/-! ## Variables by their parents -/

/-- The variables of the top level are variables made there. -/
theorem globalVariables_eq (sheet : Stylesheet) :
    sheet.globalVariables = (sheet.madeIn none).filter sheet.declaresVariable := by
  unfold globalVariables madeIn
  rw [List.filter_filter]
  refine List.filter_congr fun id _ => ?_
  unfold declaresVariable parent?
  cases sheet.rules[id.index]? with
  | none => rfl
  | some r => cases hparent : r.parent <;> simp [hparent]

/-- The variables of a ruleset are variables made in it. -/
theorem Built.variablesIn_eq {memos : Memos} (h : sheet.Built memos) {i : ℕ}
    (hi : i < sheet.rulesets.length) :
    sheet.variablesIn ⟨i⟩ = .ok ((sheet.madeIn (some ⟨i⟩)).filter sheet.declaresVariable) := by
  have hrs : sheet.rulesets[i]? = some sheet.rulesets[i] := List.getElem?_eq_getElem hi
  refine variablesIn_eq_ok_iff.mpr ⟨_, hrs, ?_⟩
  rw [h.rules_eq hrs]

/-- **Sorted by the places they are made in, there are as many rules as before**, if all
places are gone through and none twice. -/
theorem perm_flatMap_madeIn {parents : List (Option RulesetId)} (hnodup : parents.Nodup)
    (hall : ∀ r ∈ sheet.rules, r.parent ∈ parents) (p : RuleId → Bool) :
    (parents.flatMap fun parent => (sheet.madeIn parent).filter p).Perm
      (sheet.ruleIds.filter p) := by
  refine (List.perm_ext_iff_of_nodup ?_ ?_).mpr fun id => ?_
  · refine List.nodup_flatMap.mpr ⟨fun parent _ =>
      (nodup_of_pairwise (sheet.pairwise_madeIn parent)).filter p, hnodup.imp fun hne => ?_⟩
    intro id hid hid'
    obtain ⟨r, hr, rfl⟩ := mem_madeIn_iff.mp (List.mem_filter.mp hid).1
    obtain ⟨r', hr', rfl⟩ := mem_madeIn_iff.mp (List.mem_filter.mp hid').1
    exact hne (congrArg Rule.parent (Option.some.inj (hr.symm.trans hr')))
  · exact (nodup_of_pairwise sheet.pairwise_ruleIds).filter p
  · rw [List.mem_flatMap, List.mem_filter]
    constructor
    · rintro ⟨parent, -, hid⟩
      obtain ⟨hid, hp⟩ := List.mem_filter.mp hid
      exact ⟨(List.mem_filter.mp hid).1, hp⟩
    · rintro ⟨hid, hp⟩
      have hr := List.getElem?_eq_getElem (mem_ruleIds_iff.mp hid)
      exact ⟨_, hall _ (List.mem_of_getElem? hr),
        List.mem_filter.mpr ⟨mem_madeIn_iff.mpr ⟨_, hr, rfl⟩, hp⟩⟩

/-! ## The links agree -/

/-- **The links of a built stylesheet agree.** Rulesets and rules are added to an empty
stylesheet, each at the top level or in a ruleset that is there already, and anything may
be evaluated in between. Then a ruleset lists a rule exactly if the rule was made in it,
and lists its rules in the order in which they were added; a ruleset is nested in an
earlier one; a reference at any depth of a filter is owned by the selector of the filter,
and one at any depth of a value by the rule of the value. The variables of all rulesets
can be asked for, and together with those of the top level they are all variables of the
stylesheet, each once; each of these lists is in the order of addition. -/
theorem links_agree {sheet : Stylesheet} {memos : Memos} (h : sheet.Built memos) :
    (∀ (i : ℕ) (rs : Ruleset), sheet.rulesets[i]? = some rs →
      (∀ id, id ∈ rs.rules ↔ ∃ r, sheet.rules[id.index]? = some r ∧ r.parent = some ⟨i⟩) ∧
      rs.rules.Pairwise (·.index < ·.index) ∧
      (∀ p ∈ rs.parent, p.index < i) ∧
      ∀ (j : ℕ) (s : Selector), rs.selectors[j]? = some s → ∀ f ∈ s.filters,
        ∀ v, f.toNode.Contains (.variable v) → v.owner = some (.selector ⟨⟨i⟩, j⟩)) ∧
    (∀ (i : ℕ) (r : Rule), sheet.rules[i]? = some r →
      ∀ v, r.value.node.Contains (.variable v) → v.owner = some (.rule ⟨i⟩)) ∧
    ∃ lists, (List.range sheet.rulesets.length).mapM (fun i => sheet.variablesIn ⟨i⟩) = .ok lists ∧
      (sheet.globalVariables ++ lists.flatten).Perm (sheet.ruleIds.filter sheet.declaresVariable) ∧
      ∀ ids ∈ sheet.globalVariables :: lists, ids.Pairwise (·.index < ·.index) := by
  have hlinked := h.linked
  refine ⟨fun i rs hrs => ⟨fun id => ?_, ?_, hlinked.ruleset_parent i rs hrs,
    fun j s hs f hf v hv => ?_⟩, fun i r hr v hv => ?_, _,
    Fault.mapM_eq_ok fun i hi => h.variablesIn_eq (List.mem_range.mp hi), ?_, fun ids hids => ?_⟩
  · rw [h.rules_eq hrs, mem_madeIn_iff]
  · rw [h.rules_eq hrs]
    exact sheet.pairwise_madeIn _
  · have hmem : v ∈ f.references := Node.contains_variable_iff.mp hv
    exact hlinked.selector_owner i rs hrs j s hs v (List.mem_flatMap.mpr ⟨f, hf, hmem⟩)
  · exact hlinked.rule_owner i r hr v (Node.contains_variable_iff.mp hv)
  · -- the places that rules are made in: the top level, and each of the rulesets
    let parents := none :: (List.range sheet.rulesets.length).map fun i => some (⟨i⟩ : RulesetId)
    have hnodup : parents.Nodup := by
      refine List.nodup_cons.mpr ⟨by simp, List.nodup_range.map fun i j hij => ?_⟩
      exact congrArg RulesetId.index (Option.some.inj hij)
    have hall : ∀ r ∈ sheet.rules, r.parent ∈ parents := by
      intro r hr
      cases hparent : r.parent with
      | none => exact List.mem_cons_self
      | some p =>
        have hp := hlinked.rule_parent r hr p hparent
        exact List.mem_cons_of_mem _ (List.mem_map.mpr ⟨p.index, List.mem_range.mpr hp, rfl⟩)
    have hperm := perm_flatMap_madeIn hnodup hall sheet.declaresVariable
    rw [List.flatMap_cons, List.flatMap_map, ← globalVariables_eq, List.flatMap_def] at hperm
    exact hperm
  · have hsorted : ∀ parent, ((sheet.madeIn parent).filter sheet.declaresVariable).Pairwise
        (·.index < ·.index) := fun parent => (sheet.pairwise_madeIn parent).filter _
    rcases List.mem_cons.mp hids with rfl | hids
    · rw [globalVariables_eq]
      exact hsorted none
    · obtain ⟨i, -, rfl⟩ := List.mem_map.mp hids
      exact hsorted _

/-- The second and the third rule of the stylesheet with a circle were made in its ruleset,
and the second is a variable. -/
theorem circle_links_agree :
    (∃ rs, circle.rulesets[0]? = some rs ∧ rs.rules = [⟨1⟩, ⟨2⟩] ∧
      ∃ r, circle.rules[2]? = some r ∧ r.parent = some ⟨0⟩) ∧
    ([⟨0⟩, ⟨3⟩] ++ [⟨1⟩] : List RuleId).Perm (circle.ruleIds.filter circle.declaresVariable) := by
  obtain ⟨hrulesets, -, lists, hlists, hperm, -⟩ := links_agree built_circle
  obtain ⟨rs, hrs⟩ : ∃ rs, circle.rulesets[0]? = some rs := ⟨_, rfl⟩
  have hrules : rs.rules = [⟨1⟩, ⟨2⟩] := by
    obtain rfl := Option.some.inj hrs
    rfl
  refine ⟨⟨rs, hrs, hrules, ((hrulesets 0 rs hrs).1 ⟨2⟩).mp (by simp [hrules])⟩, ?_⟩
  obtain rfl := Except.ok.inj (show Except.ok [[(⟨1⟩ : RuleId)]] = .ok lists from hlists)
  exact hperm

end Stylesheet

end MapStyle
