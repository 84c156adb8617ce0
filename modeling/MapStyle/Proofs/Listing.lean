import MapStyle.Proofs.Building

/-!
# Rules are listed where they were made

A ruleset lists the rules made in it, and a rule knows the ruleset it was made
in. In whatever way a stylesheet was put together, a rule that a ruleset lists
was made in that ruleset (`Stylesheet.Assembled.parent_of_mem_rules`). The
converse fails for a rule that was made in a ruleset which was not there yet.

So the variables of a ruleset and those of the top level speak as the
declarations of a ruleset, or of the top level, do.
-/

namespace MapStyle

/-- A selector speaks with its own weights. -/
theorem Selector.specificity_withWeights_self (s : Selector) :
    s.specificity.withWeights s.weights.ids s.weights.classes = s.specificity := by
  unfold Selector.specificity
  cases s.zoom with
  | none => rfl
  | some z => rfl

namespace Stylesheet

/-- What a ruleset is after a rule was listed in the one it is made in: a rule is
listed that was listed before, or it is the new one. -/
theorem mem_rules_of_getElem?_listRule {id : RuleId} {parent : Option RulesetId}
    {rulesets : List Ruleset} {i : ℕ} {rs : Ruleset}
    (h : (listRule id parent rulesets)[i]? = some rs) {id' : RuleId} (hid : id' ∈ rs.rules) :
    (∃ rs', rulesets[i]? = some rs' ∧ id' ∈ rs'.rules) ∨ parent = some ⟨i⟩ ∧ id' = id := by
  cases parent with
  | none => exact Or.inl ⟨rs, h, hid⟩
  | some p =>
    rw [listRule, List.getElem?_modify] at h
    obtain ⟨rs', hrs', rfl⟩ := Option.map_eq_some_iff.mp h
    by_cases hp : p.index = i
    · rw [if_pos hp] at hid
      rcases List.mem_append.mp hid with hid | hid
      · exact Or.inl ⟨rs', hrs', hid⟩
      · exact Or.inr ⟨hp ▸ rfl, List.mem_singleton.mp hid⟩
    · rw [if_neg hp] at hid
      exact Or.inl ⟨rs', hrs', hid⟩

/-- **A rule that a ruleset lists was made in the ruleset.** -/
theorem Assembled.parent_of_mem_rules {sheet : Stylesheet} {m : Memos} (h : Assembled sheet m)
    {i : ℕ} {rs : Ruleset} (hrs : sheet.rulesets[i]? = some rs) {id : RuleId}
    (hid : id ∈ rs.rules) : ∃ r, sheet.rules[id.index]? = some r ∧ r.parent = some ⟨i⟩ := by
  induction h generalizing rs with
  | empty => exact absurd hrs (by simp)
  | @addRuleset sheet m _ selectors parent ih =>
    rw [run_addRuleset] at hrs
    rcases getElem?_concat_eq_some hrs with hrs | ⟨-, rfl⟩
    · exact ih hrs hid
    · exact absurd hid List.not_mem_nil
  | @addRule sheet m _ r parent ih =>
    rw [run_addRule] at hrs ⊢
    rcases mem_rules_of_getElem?_listRule hrs hid with ⟨rs', hrs', hid'⟩ | ⟨rfl, rfl⟩
    · obtain ⟨r', hr', hparent⟩ := ih hrs' hid'
      have hlt := (List.getElem?_eq_some_iff.mp hr').1
      exact ⟨r', (List.getElem?_append_left hlt).trans hr', hparent⟩
    · exact ⟨_, List.getElem?_concat_length, rfl⟩
  | grow _ _ ih => exact ih hrs hid

/-- The variables of a ruleset are rules that it lists. -/
theorem variablesIn_eq_ok_iff {sheet : Stylesheet} {id : RulesetId} {ids : List RuleId} :
    sheet.variablesIn id = .ok ids ↔
      ∃ rs, sheet.rulesets[id.index]? = some rs ∧ rs.rules.filter sheet.declaresVariable = ids := by
  unfold variablesIn
  rw [Fault.bind_eq_ok_iff]
  constructor
  · rintro ⟨rs, hrs, h⟩
    exact ⟨rs, ruleset_eq_ok_iff.mp hrs, Except.ok.inj h⟩
  · rintro ⟨rs, hrs, rfl⟩
    exact ⟨rs, ruleset_eq_ok_iff.mpr hrs, rfl⟩

/-- **The variables of a ruleset were made in it.** -/
theorem Assembled.parent_of_mem_variablesIn {sheet : Stylesheet} {m : Memos}
    (h : Assembled sheet m) {id : RulesetId} {ids : List RuleId}
    (hids : sheet.variablesIn id = .ok ids) {x : RuleId} (hx : x ∈ ids) :
    ∃ r, sheet.rules[x.index]? = some r ∧ r.parent = some id := by
  obtain ⟨rs, hrs, rfl⟩ := variablesIn_eq_ok_iff.mp hids
  exact h.parent_of_mem_rules hrs (List.mem_filter.mp hx).1

/-- **The variables of the top level were made there.** -/
theorem parent_of_mem_globalVariables {sheet : Stylesheet} {x : RuleId}
    (hx : x ∈ sheet.globalVariables) : ∃ r, sheet.rules[x.index]? = some r ∧ r.parent = none := by
  have hany := (List.mem_filter.mp hx).2
  cases hr : sheet.rules[x.index]? with
  | none =>
    rw [hr] at hany
    exact absurd hany Bool.false_ne_true
  | some r =>
    rw [hr] at hany
    simp only [Option.any_some, Bool.and_eq_true, Option.isNone_iff_eq_none] at hany
    exact ⟨r, rfl, hany.2⟩

/-! ## How strongly they speak -/

/-- The position of a rule in the source. -/
def sourceIndex (sheet : Stylesheet) (id : RuleId) : ℕ :=
  ((sheet.rules[id.index]?).map (·.location.index)).getD 0

/-- **A declaration of the top level speaks by its position alone.** -/
theorem declarationRank_of_top {sheet : Stylesheet} {id : RuleId} {r : Rule}
    (hr : sheet.rules[id.index]? = some r) (hparent : r.parent = none) :
    sheet.declarationRank id = .ok (.unscoped (sheet.sourceIndex id)) := by
  unfold declarationRank sourceIndex
  rw [rule_eq_ok_iff.mpr hr, Fault.ok_bind, hparent, hr]
  rfl

/-- **The nearest selector of a ruleset whose leading selector has elements** is
that one. -/
theorem nearestSelector_of_voice {sheet : Stylesheet} {id : RulesetId} {rs : Ruleset}
    {s : Selector} (hrs : sheet.rulesets[id.index]? = some rs) (hs : rs.voice? = some s) :
    sheet.nearestSelector id = .ok (some s) := by
  rw [nearestSelector, nearestWithin, ruleset_eq_ok_iff.mpr hrs, Fault.ok_bind, hs]
  rfl

/-- **The nearest selector of a ruleset directly inside** such a ruleset is the
same one, if its own leading selector has no elements. -/
theorem nearestSelector_of_outer_voice {sheet : Stylesheet} {id outer : RulesetId}
    {rs rsOuter : Ruleset} {s : Selector} (hrs : sheet.rulesets[id.index]? = some rs)
    (hnone : rs.voice? = none) (hparent : rs.parent = some outer)
    (houter : sheet.rulesets[outer.index]? = some rsOuter) (hs : rsOuter.voice? = some s) :
    sheet.nearestSelector id = .ok (some s) := by
  obtain ⟨n, hn⟩ : ∃ n, sheet.rulesets.length = n + 1 :=
    Nat.exists_eq_add_one_of_ne_zero
      (Nat.ne_zero_of_lt (List.getElem?_eq_some_iff.mp houter).1)
  rw [nearestSelector, nearestWithin, ruleset_eq_ok_iff.mpr hrs, Fault.ok_bind, hnone, hparent]
  dsimp only
  rw [hn, nearestWithin, ruleset_eq_ok_iff.mpr houter, Fault.ok_bind, hs]
  rfl

/-- **How strongly a declaration in a ruleset speaks**, by the nearest selector
and the leading selector of the ruleset. -/
theorem declarationRank_of_nearest {sheet : Stylesheet} {id : RuleId} {r : Rule}
    (hr : sheet.rules[id.index]? = some r) {parent : RulesetId} (hparent : r.parent = some parent)
    {found own : Selector} (hfound : sheet.nearestSelector parent = .ok (some found))
    {rs : Ruleset} (hrs : sheet.rulesets[parent.index]? = some rs)
    (hown : rs.selectors.head? = some own) :
    sheet.declarationRank id = .ok (if found.zoom.isSome then found.specificity
      else own.specificity.withWeights found.weights.ids found.weights.classes) := by
  unfold declarationRank
  rw [rule_eq_ok_iff.mpr hr, Fault.ok_bind, hparent]
  dsimp only
  rw [hfound, Fault.ok_bind]
  dsimp only
  split
  · rfl
  · rw [ruleset_eq_ok_iff.mpr hrs, Fault.ok_bind, hown]
    rfl

/-- **Declarations made in a ruleset whose leading selector has elements speak
as that selector does**, all alike. -/
theorem declarationRank_of_voice {sheet : Stylesheet} {id : RuleId} {r : Rule}
    (hr : sheet.rules[id.index]? = some r) {parent : RulesetId} (hparent : r.parent = some parent)
    {rs : Ruleset} (hrs : sheet.rulesets[parent.index]? = some rs) {s : Selector}
    (hs : rs.voice? = some s) : sheet.declarationRank id = .ok s.specificity := by
  have hhead : rs.selectors.head? = some s := (Option.filter_eq_some_iff.mp hs).1
  rw [declarationRank_of_nearest hr hparent (nearestSelector_of_voice hrs hs) hrs hhead,
    s.specificity_withWeights_self, ite_self]

end Stylesheet

end MapStyle
