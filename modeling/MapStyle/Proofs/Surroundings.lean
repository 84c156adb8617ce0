import MapStyle.Proofs.Listing
import MapStyle.Proofs.Outline

/-!
# What is around a declaration

How strongly a declaration speaks is said by the rulesets around it, from the one it is made
in outwards to the top level (`Stylesheet.WayOut`). At most two of their selectors count: the
leading selector of the first ruleset on the way where that has elements, and, unless that one
has a window, the leading selector of the ruleset that the declaration is made in
(`Stylesheet.WayOut.declarationRank`).

All else may be changed: what is outside of the first of these rulesets, how many blocks
without elements stand in between and which windows they have, the other selectors of all
rulesets, and the filters. Two ways out that agree on the rest are **alike**
(`Ruleset.Alike`), and declarations at the same position then speak equally strongly, be it in
one stylesheet or in two (`Stylesheet.rank_by_surroundings`).
-/

namespace MapStyle

/-! ## Along a way out -/

namespace Selector

@[simp] theorem specificity_outline (s : Selector) : s.outline.specificity = s.specificity := rfl

@[simp] theorem weights_outline (s : Selector) : s.outline.weights = s.weights := rfl

@[simp] theorem zoom_outline (s : Selector) : s.outline.zoom = s.zoom := rfl

end Selector

namespace Ruleset

/-- The leading selector of a ruleset, without its filters. -/
def leading? (rs : Ruleset) : Option Selector := rs.selectors.head?.map Selector.outline

/-- **How strongly a declaration speaks** that is made at a position, by the rulesets around
it, the innermost first. -/
def rankAlong (index : ℕ) (path : List Ruleset) : Specificity :=
  match path.findSome? voice? with
  | none => .unscoped index
  | some found =>
    if found.zoom.isSome then found.specificity
    else match path.head?.bind leading? with
      | none => found.specificity
      | some own => own.specificity.withWeights found.weights.ids found.weights.classes

/-- A ruleset has a voice if its leading selector has elements. -/
theorem map_outline_voice? (rs : Ruleset) :
    rs.voice?.map Selector.outline = rs.leading?.filter (!·.isTrivial) := by
  rw [← voice?_outline, voice?, outline, List.head?_map]
  rfl

variable {path inner outer : List Ruleset} {around : Ruleset} {found own : Selector} {index : ℕ}

/-- Where no ruleset has a voice there is no selector to be found. -/
theorem findSome?_voice?_of_silent (h : ∀ rs ∈ path, rs.voice? = none) :
    path.findSome? voice? = none := List.findSome?_eq_none_iff.mpr h

/-- **The first voice on the way** is that of the first ruleset that has one. -/
theorem findSome?_voice?_append (hinner : ∀ rs ∈ inner, rs.voice? = none)
    (haround : around.voice? = some found) :
    (inner ++ around :: outer).findSome? voice? = some found := by
  rw [List.findSome?_append, findSome?_voice?_of_silent hinner, List.findSome?_cons, haround]
  rfl

/-! ### What counts -/

/-- Where no ruleset has a voice, a declaration speaks by its position. -/
theorem rankAlong_of_silent (h : ∀ rs ∈ path, rs.voice? = none) :
    rankAlong index path = .unscoped index := by
  rw [rankAlong, findSome?_voice?_of_silent h]

/-- A voice with a window speaks alone. -/
theorem rankAlong_of_window (h : path.findSome? voice? = some found)
    (hwindow : found.zoom.isSome = true) : rankAlong index path = found.specificity := by
  rw [rankAlong, h]
  exact if_pos hwindow

/-- So does a voice, where the innermost ruleset has no selectors. -/
theorem rankAlong_of_no_leading (h : path.findSome? voice? = some found)
    (hnone : path.head?.bind leading? = none) : rankAlong index path = found.specificity := by
  rw [rankAlong, h, hnone]
  exact ite_self _

/-- **Otherwise it lends its weights** to the leading selector of the innermost ruleset. -/
theorem rankAlong_of_leading (h : path.findSome? voice? = some found)
    (hnone : found.zoom = none) (hown : path.head?.bind leading? = some own) :
    rankAlong index path
      = own.specificity.withWeights found.weights.ids found.weights.classes := by
  rw [rankAlong, h, hown]
  exact if_neg (by rw [hnone]; decide)

/-! ### What does not count -/

/-- **Two ways out are alike** for a declaration: no ruleset on either has a voice, or they begin
with the same leading selector and the first ruleset with a voice on each has the same leading
selector too. Selectors are compared without their filters. -/
inductive Alike : List Ruleset → List Ruleset → Prop
  | silent {path path' : List Ruleset} (h : ∀ rs ∈ path, rs.voice? = none)
      (h' : ∀ rs ∈ path', rs.voice? = none) : Alike path path'
  | heard {inner inner' outer outer' : List Ruleset} {around around' : Ruleset}
      (hinner : ∀ rs ∈ inner, rs.voice? = none) (hinner' : ∀ rs ∈ inner', rs.voice? = none)
      (hvoice : around.voice?.isSome = true) (haround : around'.leading? = around.leading?)
      (hfirst : (inner' ++ around' :: outer').head?.bind leading?
        = (inner ++ around :: outer).head?.bind leading?) :
      Alike (inner ++ around :: outer) (inner' ++ around' :: outer')

/-- The rank is known from the first voice and the innermost leading selector, both without
their filters. -/
theorem rankAlong_congr {path path' : List Ruleset} {found found' : Selector}
    (h : path.findSome? voice? = some found) (h' : path'.findSome? voice? = some found')
    (hfound : found'.outline = found.outline)
    (hfirst : path'.head?.bind leading? = path.head?.bind leading?) :
    rankAlong index path' = rankAlong index path := by
  -- nothing that is read of a selector here is in its filters
  have hspecificity : found'.outline.specificity = found.outline.specificity := by rw [hfound]
  have hweights : found'.outline.weights = found.outline.weights := by rw [hfound]
  have hzoom : found'.outline.zoom = found.outline.zoom := by rw [hfound]
  rw [Selector.specificity_outline, Selector.specificity_outline] at hspecificity
  rw [Selector.weights_outline, Selector.weights_outline] at hweights
  rw [Selector.zoom_outline, Selector.zoom_outline] at hzoom
  rw [rankAlong, rankAlong, h, h', hfirst]
  dsimp only
  rw [hspecificity, hweights, hzoom]

/-- **Along ways out that are alike declarations speak equally strongly.** -/
theorem Alike.rankAlong_eq {path path' : List Ruleset} (h : Alike path path') (index : ℕ) :
    rankAlong index path' = rankAlong index path := by
  cases h with
  | silent h h' => rw [rankAlong_of_silent h, rankAlong_of_silent h']
  | @heard inner inner' outer outer' around around' hinner hinner' hvoice haround hfirst =>
    obtain ⟨found, hfound⟩ := Option.isSome_iff_exists.mp hvoice
    have hoverheard : around'.voice?.map Selector.outline = some found.outline := by
      rw [map_outline_voice?, haround, ← map_outline_voice?, hfound, Option.map_some]
    obtain ⟨found', hfound', houtline⟩ := Option.map_eq_some_iff.mp hoverheard
    exact rankAlong_congr (findSome?_voice?_append hinner hfound)
      (findSome?_voice?_append hinner' hfound') houtline hfirst

end Ruleset

namespace Stylesheet

/-! ## Ways out -/

/-- **The way out of a ruleset**: the ruleset, the one that it is nested in, and so on, up to
one at the top level. -/
inductive WayOut (sheet : Stylesheet) : RulesetId → List Ruleset → Prop
  | top {id : RulesetId} {rs : Ruleset} (hrs : sheet.rulesets[id.index]? = some rs)
      (hparent : rs.parent = none) : WayOut sheet id [rs]
  | nested {id outer : RulesetId} {rs : Ruleset} {path : List Ruleset}
      (hrs : sheet.rulesets[id.index]? = some rs) (hparent : rs.parent = some outer)
      (h : WayOut sheet outer path) : WayOut sheet id (rs :: path)

variable {sheet : Stylesheet} {id : RulesetId} {path : List Ruleset}

/-- The way out begins with the ruleset itself. -/
theorem WayOut.head?_eq (h : sheet.WayOut id path) : path.head? = sheet.rulesets[id.index]? := by
  cases h with
  | top hrs | nested hrs => exact hrs.symm

/-- **The way out is no longer than the number of the ruleset**, since a ruleset is nested in an
earlier one. -/
theorem Linked.length_le (hlinked : sheet.Linked) (h : sheet.WayOut id path) :
    path.length ≤ id.index + 1 := by
  induction h with
  | top => exact Nat.le_add_left 1 _
  | @nested id outer rs path hrs hparent _ ih =>
    have houter : outer.index < id.index := hlinked.ruleset_parent id.index rs hrs outer hparent
    rw [List.length_cons]
    omega

/-- **There is a way out of every ruleset.** -/
theorem Linked.exists_wayOut (hlinked : sheet.Linked) {id : RulesetId}
    (hid : id.index < sheet.rulesets.length) : ∃ path, sheet.WayOut id path := by
  have hrs : sheet.rulesets[id.index]? = some sheet.rulesets[id.index] :=
    List.getElem?_eq_getElem hid
  cases hparent : sheet.rulesets[id.index].parent with
  | none => exact ⟨_, .top hrs hparent⟩
  | some outer =>
    have houter : outer.index < id.index := hlinked.ruleset_parent id.index _ hrs outer hparent
    obtain ⟨path, hpath⟩ := hlinked.exists_wayOut (Nat.lt_trans houter hid)
    exact ⟨_, .nested hrs hparent hpath⟩
termination_by id.index

/-- **The nearest selector is the first voice on the way out.** -/
theorem WayOut.nearestWithin (h : sheet.WayOut id path) {n : ℕ} (hn : path.length ≤ n) :
    sheet.nearestWithin n id = .ok (path.findSome? Ruleset.voice?) := by
  induction h generalizing n with
  | @top id rs hrs hparent =>
    obtain ⟨n, rfl⟩ := Nat.exists_eq_add_one_of_ne_zero (Nat.ne_zero_of_lt hn)
    rw [Stylesheet.nearestWithin, ruleset_eq_ok_iff.mpr hrs, Fault.ok_bind, hparent,
      List.findSome?_cons]
    cases rs.voice? with
    | none => rfl
    | some s => rfl
  | @nested id outer rs path hrs hparent _ ih =>
    obtain ⟨n, rfl⟩ := Nat.exists_eq_add_one_of_ne_zero (Nat.ne_zero_of_lt hn)
    rw [Stylesheet.nearestWithin, ruleset_eq_ok_iff.mpr hrs, Fault.ok_bind, hparent,
      List.findSome?_cons]
    cases rs.voice? with
    | none => exact ih (Nat.le_of_succ_le_succ hn)
    | some s => rfl

/-- **How strongly a declaration speaks** is said along the way out. -/
theorem WayOut.declarationRank (hlinked : sheet.Linked) (h : sheet.WayOut id path) {rule : RuleId}
    {r : Rule} (hr : sheet.rules[rule.index]? = some r) (hparent : r.parent = some id) :
    sheet.declarationRank rule = .ok (Ruleset.rankAlong r.location.index path) := by
  obtain ⟨rs, hrs⟩ : ∃ rs, sheet.rulesets[id.index]? = some rs := by
    cases h with
    | top hrs | nested hrs => exact ⟨_, hrs⟩
  have hlength : path.length ≤ sheet.rulesets.length + 1 := by
    have hle := hlinked.length_le h
    have hlt := (List.getElem?_eq_some_iff.mp hrs).1
    omega
  have hfound : sheet.nearestSelector id = .ok (path.findSome? Ruleset.voice?) :=
    h.nearestWithin hlength
  rw [Stylesheet.declarationRank, rule_eq_ok_iff.mpr hr, Fault.ok_bind, hparent]
  dsimp only
  rw [hfound, Fault.ok_bind, Ruleset.rankAlong, h.head?_eq, hrs, Option.bind_some]
  cases path.findSome? Ruleset.voice? with
  | none => rfl
  | some found =>
    dsimp only
    rw [ruleset_eq_ok_iff.mpr hrs, Fault.ok_bind, Ruleset.leading?]
    split
    · rfl
    · cases rs.selectors.head? with
      | none => rfl
      | some own => rfl

/-! ## What a declaration owes to its surroundings -/

/-- **A declaration in a ruleset speaks by its surroundings.** In a built stylesheet there is a
way out of the ruleset. If no ruleset on the way has a voice, the declaration speaks by its own
position. Otherwise let `around` be the first one that has: the declaration speaks as the
leading selector of `around` does, if that has a window or the ruleset of the declaration has no
selectors, and else with the weights of that selector and the window and the position of the
leading selector of its own ruleset.

Nothing else counts: in any built stylesheet a declaration at the same position, whose way out
is alike, speaks equally strongly. -/
theorem rank_by_surroundings {memos : Memos} (hbuilt : sheet.Built memos) {rule : RuleId}
    {r : Rule} (hr : sheet.rules[rule.index]? = some r) (hparent : r.parent = some id) :
    (∃ path, sheet.WayOut id path) ∧
    ∀ path, sheet.WayOut id path →
      ((∀ rs ∈ path, rs.voice? = none) →
        sheet.declarationRank rule = .ok (.unscoped r.location.index)) ∧
      (∀ (inner outer : List Ruleset) (around block : Ruleset) (found : Selector),
        path = inner ++ around :: outer → (∀ rs ∈ inner, rs.voice? = none) →
        around.voice? = some found → sheet.rulesets[id.index]? = some block →
        (found.zoom.isSome = true ∨ block.selectors = [] →
          sheet.declarationRank rule = .ok found.specificity) ∧
        ∀ own, found.zoom = none → block.selectors.head? = some own →
          sheet.declarationRank rule
            = .ok (own.specificity.withWeights found.weights.ids found.weights.classes)) ∧
      ∀ (sheet' : Stylesheet) (memos' : Memos) (rule' : RuleId) (r' : Rule) (id' : RulesetId)
        (path' : List Ruleset), sheet'.Built memos' → sheet'.rules[rule'.index]? = some r' →
        r'.parent = some id' → sheet'.WayOut id' path' →
        r'.location.index = r.location.index → Ruleset.Alike path path' →
        sheet'.declarationRank rule' = sheet.declarationRank rule := by
  have hlinked := hbuilt.linked
  have hid := hlinked.rule_parent r (List.mem_of_getElem? hr) id hparent
  refine ⟨hlinked.exists_wayOut hid, fun path hpath => ?_⟩
  have hrank := hpath.declarationRank hlinked hr hparent
  refine ⟨fun hsilent => ?_, fun inner outer around block found hsplit hinner hfound hblock => ?_,
    fun sheet' memos' rule' r' id' path' hbuilt' hr' hparent' hpath' hindex halike => ?_⟩
  · rw [hrank, Ruleset.rankAlong_of_silent hsilent]
  · have hvoice : path.findSome? Ruleset.voice? = some found := by
      rw [hsplit]
      exact Ruleset.findSome?_voice?_append hinner hfound
    have hleading : path.head?.bind Ruleset.leading? = block.leading? := by
      rw [hpath.head?_eq, hblock, Option.bind_some]
    refine ⟨?_, fun own hnone hown => ?_⟩
    · rintro (hwindow | hempty)
      · rw [hrank, Ruleset.rankAlong_of_window hvoice hwindow]
      · rw [Ruleset.leading?, hempty] at hleading
        rw [hrank, Ruleset.rankAlong_of_no_leading hvoice hleading]
    · rw [Ruleset.leading?, hown] at hleading
      rw [hrank, Ruleset.rankAlong_of_leading hvoice hnone hleading, Selector.specificity_outline]
  · rw [hrank, hpath'.declarationRank hbuilt'.linked hr' hparent', hindex, halike.rankAlong_eq]

/-- The selector `#road`. -/
def road : Selector := { elements := ["#road"], index := 0 }

/-- The stylesheet `#road { [zoom >= 10] { [zoom >= 14] { @w: a; } } }` and its cells. -/
def blocksAndCells : Stylesheet × Memos := ofAdditions [
  .ruleset [road] none,
  .ruleset [{ elements := [], zoom := some (.range 10 22), index := 1 }] (some ⟨0⟩),
  .ruleset [{ elements := [], zoom := some (.range 14 22), index := 2 }] (some ⟨1⟩),
  .rule (declaring "@w" true (.keyword "a")) (some ⟨2⟩)]

/-- **Blocks in blocks.** -/
def blocks : Stylesheet := blocksAndCells.1

theorem built_blocks : blocks.Built blocksAndCells.2 := built_ofAdditions rfl

/-- The stylesheet `Map { #road { [zoom >= 14], .minor { @w: b; } } }` and its cells. -/
def innermostAndCells : Stylesheet × Memos := ofAdditions [
  .ruleset [{ elements := ["Map"], index := 7 }] none,
  .ruleset [road] (some ⟨0⟩),
  .ruleset [{ elements := [], zoom := some (.range 14 22), index := 2 },
    { elements := [".minor"], index := 3 }] (some ⟨1⟩),
  .rule (declaring "@w" true (.keyword "b")) (some ⟨2⟩)]

/-- **The innermost of the blocks**, with another selector beside its own and something around
the road. -/
def innermost : Stylesheet := innermostAndCells.1

theorem built_innermost : innermost.Built innermostAndCells.2 := built_ofAdditions rfl

/-- The road lends its weights to the innermost block, and the block in between has no say; nor
has the map around the road. -/
theorem road_lends_its_weights :
    blocks.declarationRank ⟨0⟩ = .ok ⟨1, 0, 14, 22, 2⟩ ∧
      innermost.declarationRank ⟨0⟩ = .ok ⟨1, 0, 14, 22, 2⟩ := by
  have hpath : blocks.WayOut ⟨2⟩ blocks.rulesets.reverse :=
    .nested rfl rfl (.nested rfl rfl (.top rfl rfl))
  have hpath' : innermost.WayOut ⟨2⟩ innermost.rulesets.reverse :=
    .nested rfl rfl (.nested rfl rfl (.top rfl rfl))
  have hmiddle : ∀ rs ∈ blocks.rulesets.reverse.take 2, rs.voice? = none :=
    List.forall_mem_cons.mpr ⟨rfl, List.forall_mem_singleton.mpr rfl⟩
  have hblock : ∀ rs ∈ innermost.rulesets.reverse.take 1, rs.voice? = none :=
    List.forall_mem_singleton.mpr rfl
  have hrule : blocks.rules[RuleId.index ⟨0⟩]? = some blocks.rules[0] := rfl
  obtain ⟨-, hvoices, halike⟩ := (rank_by_surroundings built_blocks hrule rfl).2 _ hpath
  have hrank : blocks.declarationRank ⟨0⟩ = .ok ⟨1, 0, 14, 22, 2⟩ :=
    (hvoices _ [] ⟨[road], [], none⟩ _ road rfl hmiddle rfl rfl).2 _ rfl rfl
  have hsame := halike innermost _ ⟨0⟩ _ ⟨2⟩ _ built_innermost rfl rfl hpath' rfl
    (.heard hmiddle hblock rfl rfl rfl)
  exact ⟨hrank, hsame.trans hrank⟩

end Stylesheet

end MapStyle
