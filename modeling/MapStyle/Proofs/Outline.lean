import MapStyle.Proofs.Course
import MapStyle.Proofs.Cycles

/-!
# The outline of a stylesheet

What a reference is bound to depends on which names are declared where, and never
on what is written in values and filters. Without these a stylesheet is an
**outline** (`Stylesheet.outline`), and stylesheets with the same outline bind every
reference alike (`Scope.binding?_of_outline`). The selectors that a declaration was
instanced for say nothing about it either, so its **heading** is enough
(`Scope.binding?_headings`).

So a value may be edited and no reference is bound differently, and what leads to
other declarations only is evaluated as it was before
(`Scope.Evaluates.of_outline`).
-/

namespace MapStyle

/-- The selector without its filters. -/
def Selector.outline (s : Selector) : Selector := { s with filters := [] }

/-- The ruleset without the filters of its selectors. -/
def Ruleset.outline (ruleset : Ruleset) : Ruleset :=
  { ruleset with selectors := ruleset.selectors.map Selector.outline }

/-- The declaration without its value. -/
def Rule.outline (r : Rule) : Rule := { r with value := ⟨[]⟩ }

/-- **The stylesheet without values and filters.** -/
def Stylesheet.outline (sheet : Stylesheet) : Stylesheet where
  rulesets := sheet.rulesets.map Ruleset.outline
  rules := sheet.rules.map Rule.outline

/-- The declaration without its value and the selectors it was instanced for. -/
def Rule.heading (r : Rule) : Rule := { r with value := ⟨[]⟩, selectors := none }

/-- **The stylesheet by its headings**: without values, filters and the selectors that
declarations were instanced for. -/
def Stylesheet.headings (sheet : Stylesheet) : Stylesheet where
  rulesets := sheet.rulesets.map Ruleset.outline
  rules := sheet.rules.map Rule.heading

/-- A ruleset speaks by its outline. -/
theorem Ruleset.voice?_outline (ruleset : Ruleset) :
    ruleset.outline.voice? = ruleset.voice?.map Selector.outline := by
  rw [voice?, voice?, outline, List.head?_map]
  cases ruleset.selectors.head? with
  | none => rfl
  | some s =>
    cases hs : s.isTrivial <;> simp [Option.filter, Selector.outline, Selector.isTrivial, ← hs]

namespace Stylesheet

variable (sheet : Stylesheet)

theorem rule_headings (id : RuleId) : sheet.headings.rule id = Rule.heading <$> sheet.rule id := by
  rw [rule, rule, headings, List.getElem?_map]
  cases sheet.rules[id.index]? with
  | none => rfl
  | some r => rfl

theorem ruleset_headings (id : RulesetId) :
    sheet.headings.ruleset id = Ruleset.outline <$> sheet.ruleset id := by
  rw [ruleset, ruleset, headings, List.getElem?_map]
  cases sheet.rulesets[id.index]? with
  | none => rfl
  | some rs => rfl

/-- The nearest selector is found by the headings as well. -/
theorem nearestWithin_headings (n : ℕ) (id : RulesetId) :
    sheet.headings.nearestWithin n id
      = Option.map Selector.outline <$> sheet.nearestWithin n id := by
  induction n generalizing id with
  | zero => rfl
  | succ n ih =>
    rw [nearestWithin, nearestWithin, ruleset_headings, bind_map_left, map_bind]
    refine bind_congr fun rs => ?_
    rw [Ruleset.voice?_outline, show rs.outline.parent = rs.parent from rfl]
    cases rs.voice? with
    | some s => rfl
    | none =>
      cases rs.parent with
      | none => rfl
      | some outer => exact ih outer

theorem nearestSelector_headings (id : RulesetId) :
    sheet.headings.nearestSelector id
      = Option.map Selector.outline <$> sheet.nearestSelector id := by
  have hlength : sheet.headings.rulesets.length = sheet.rulesets.length := List.length_map _
  rw [nearestSelector, nearestSelector, hlength, nearestWithin_headings]

/-- **How strongly a declaration speaks is said by the headings.** -/
theorem declarationRank_headings (id : RuleId) :
    sheet.headings.declarationRank id = sheet.declarationRank id := by
  rw [declarationRank, declarationRank, rule_headings, bind_map_left]
  refine bind_congr fun r => ?_
  dsimp only [Rule.heading]
  cases r.parent with
  | none => rfl
  | some parent =>
    dsimp only
    rw [nearestSelector_headings, bind_map_left]
    refine bind_congr fun found => ?_
    cases found with
    | none => rfl
    | some found =>
      dsimp only [Option.map_some]
      rw [ruleset_headings, bind_map_left]
      refine if_congr Iff.rfl rfl (bind_congr fun rs => ?_)
      rw [Ruleset.outline, List.head?_map]
      cases rs.selectors.head? with
      | none => rfl
      | some own => rfl

/-- How strongly the value of a rule speaks is said by the headings. -/
theorem ruleRank_headings (id : RuleId) : sheet.headings.ruleRank id = sheet.ruleRank id := by
  rw [ruleRank, ruleRank, rule_headings, bind_map_left]
  refine bind_congr fun r => ?_
  dsimp only [Rule.heading]
  cases r.parent with
  | none => rfl
  | some parent =>
    dsimp only
    rw [ruleset_headings, bind_map_left]
    refine bind_congr fun rs => ?_
    rw [Ruleset.outline, List.head?_map]
    cases rs.selectors.head? with
    | none => rfl
    | some own =>
      dsimp only [Option.map_some]
      rw [nearestSelector_headings, bind_map_left]
      refine bind_congr fun found => ?_
      cases found with
      | none => rfl
      | some found => rfl

/-- **How strongly a reference speaks is said by the headings.** -/
theorem referenceRank_headings (v : Variable) :
    sheet.headings.referenceRank v = sheet.referenceRank v := by
  rw [referenceRank, referenceRank]
  cases v.owner with
  | none => rfl
  | some owner =>
    cases owner with
    | rule id => exact sheet.ruleRank_headings id
    | selector ref =>
      dsimp only
      rw [selector, selector, ruleset_headings, bind_map_left, bind_assoc, bind_assoc]
      refine bind_congr fun rs => ?_
      rw [Ruleset.outline, List.getElem?_map]
      cases rs.selectors[ref.position]? with
      | none => rfl
      | some s => rfl

/-- The headings tell the declarations of the stylesheet. -/
theorem any_headings (id : RuleId) {p : Rule → Bool} (hp : ∀ r : Rule, p r.heading = p r) :
    (sheet.headings.rules[id.index]?).any p = (sheet.rules[id.index]?).any p := by
  rw [headings, List.getElem?_map]
  cases sheet.rules[id.index]? with
  | none => rfl
  | some r => exact hp r

/-- The headings of a stylesheet are those of its outline. -/
theorem headings_outline : sheet.outline.headings = sheet.headings := by
  unfold headings outline
  rw [List.map_map, List.map_map]
  refine congrArg₂ Stylesheet.mk (List.map_congr_left fun rs _ => ?_) rfl
  show { rs with selectors := (rs.selectors.map Selector.outline).map Selector.outline } = _
  rw [List.map_map]
  rfl

/-- **To edit a value is to keep the outline.** -/
theorem outline_set {i : ℕ} {r : Rule} (h : sheet.rules[i]? = some r) (w : Value) :
    outline { sheet with rules := sheet.rules.set i { r with value := w } } = sheet.outline := by
  obtain ⟨hi, hr⟩ := List.getElem?_eq_some_iff.mp h
  have hsame : (sheet.rules.map Rule.outline).set i { r with value := w : Rule }.outline
      = sheet.rules.map Rule.outline := by
    rw [show { r with value := w : Rule }.outline = (sheet.rules[i]).outline from by rw [hr]; rfl,
      ← List.map_set, List.set_getElem_self]
  rw [outline, outline, List.map_set, hsame]

end Stylesheet

namespace Scope

variable {sheet sheet' : Stylesheet} {frames : List RuleId}

/-- **What references are bound to is said by the headings.** -/
theorem binding?_headings (sheet : Stylesheet) (frames : List RuleId) :
    (Scope.mk sheet.headings frames).binding? = (Scope.mk sheet frames).binding? := by
  funext v
  have hdeclares : (Scope.mk sheet.headings frames).declares v.name
      = (Scope.mk sheet frames).declares v.name :=
    funext fun id => sheet.any_headings id fun _ => rfl
  have hcandidates : (Scope.mk sheet.headings frames).candidates v.name
      = (Scope.mk sheet frames).candidates v.name := by
    rw [candidates, candidates, hdeclares]
    simp only [Stylesheet.declarationRank_headings]
  rw [binding?, binding?, hcandidates, Stylesheet.referenceRank_headings]

/-- Which declarations can be entered is said by the headings. -/
theorem declarations_headings (sheet : Stylesheet) (frames : List RuleId) :
    (Scope.mk sheet.headings frames).declarations = (Scope.mk sheet frames).declarations := by
  have hdeclares : sheet.headings.declaresVariable = sheet.declaresVariable :=
    funext fun id => sheet.any_headings id fun _ => rfl
  rw [declarations, declarations, hdeclares]

/-- **Stylesheets with the same outline bind references alike.** -/
theorem binding?_of_outline (h : sheet'.outline = sheet.outline) (frames : List RuleId) :
    (Scope.mk sheet' frames).binding? = (Scope.mk sheet frames).binding? := by
  rw [← binding?_headings sheet', ← sheet'.headings_outline, h, sheet.headings_outline,
    binding?_headings]

/-- A reference leads to a declaration: what it is bound to is, or uses, it. -/
def LeadsTo (scope : Scope) (v : Variable) (id : RuleId) : Prop :=
  ∃ id', scope.Binds v.name id' ∧ Relation.ReflTransGen scope.Uses id' id

/-- **Nodes are evaluated alike if the declarations that they lead to are the same**,
from the same cells and with any log. -/
theorem Evaluates.of_outline {entered : List RuleId} {p q : Progress} {ns ms : List Node}
    {es : List LookUp} (h : (Scope.mk sheet frames).Evaluates entered p ns ms es)
    (houtline : sheet'.outline = sheet.outline)
    (hrules : ∀ n ∈ ns, ∀ v ∈ n.references, ∀ id, (Scope.mk sheet frames).LeadsTo v id →
      sheet'.rules[id.index]? = sheet.rules[id.index]?)
    (hmemos : q.memos = p.memos) : (Scope.mk sheet' frames).Evaluates entered q ns ms es := by
  have hb := binding?_of_outline houtline frames
  induction h generalizing q with
  | nil => exact .nil
  | @composite entered p n ns ms ks es fs hn _ _ ihparts ihrest =>
    refine .composite hn (ihparts (fun m hm v hv => ?_) hmemos)
      (ihrest (fun k hk => hrules k (List.mem_cons_of_mem _ hk))
        (Progress.memos_after_congr hmemos es))
    exact hrules n List.mem_cons_self v (Node.mem_references_of_mem_parts hm hv)
  | @answer entered p v m report? ns ks fs hanswer _ ih =>
    refine .answer ?_ (ih (fun k hk => hrules k (List.mem_cons_of_mem _ hk))
      (Progress.memos_after_congr hmemos [⟨v, m, report?⟩]))
    cases hanswer with
    | recalled hcell => exact .recalled (hmemos ▸ hcell)
    | undefined hcell hv => exact .undefined (hmemos ▸ hcell) (hb ▸ hv)
    | circular hcell hv hid => exact .circular (hmemos ▸ hcell) (hb ▸ hv) hid
  | @enter entered p v id r m ns ks es fs hcell hv hid hr _ _ ihvalue ihrest =>
    have hbinds : (Scope.mk sheet frames).Binds v.name id :=
      (binds_iff_of_binding? hv id).mpr rfl
    have hleads := hrules _ List.mem_cons_self v List.mem_cons_self
    refine .enter (hmemos ▸ hcell) (hb ▸ hv) hid ((hleads id ⟨id, hbinds, .refl⟩).trans hr)
      (ihvalue (List.forall_mem_singleton.mpr fun w hw next hnext => ?_) hmemos)
      (ihrest (fun k hk => hrules k (List.mem_cons_of_mem _ hk)) ?_)
    · obtain ⟨id', hid', hreach⟩ := hnext
      exact hleads next ⟨id, hbinds, .head ⟨r, hr, w, hw, hid'⟩ hreach⟩
    · have hafter := Progress.memos_after_congr hmemos (es ++ [⟨v, m, none⟩])
      rwa [Progress.after_append, Progress.after_append] at hafter

/-- **What a node is evaluated to is not changed by an edit** of declarations that it
does not lead to. -/
theorem exists_run_of_outline {n m : Node} {p q o : Progress}
    (h : (n.evaluate ⟨sheet, frames⟩).run p = .ok (m, q))
    (houtline : sheet'.outline = sheet.outline)
    (hrules : ∀ v ∈ n.references, ∀ id, (Scope.mk sheet frames).LeadsTo v id →
      sheet'.rules[id.index]? = sheet.rules[id.index]?)
    (hmemos : o.memos = p.memos) : ∃ o', (n.evaluate ⟨sheet', frames⟩).run o = .ok (m, o') := by
  obtain ⟨es, hes, -⟩ := (run_eq_ok_iff .nil).mp h
  have hes' := hes.of_outline houtline (List.forall_mem_singleton.mpr hrules) hmemos
  exact ⟨_, hes'.run_node .nil⟩

end Scope

end MapStyle
