import MapStyle.Proofs.Binding
import MapStyle.Proofs.Listing

/-!
# Declarations of one name

Where a name is declared more than once, the strongest declaration counts, and
of equally strong ones the first in scope. How strongly a declaration speaks
depends on where it was made:

* At the top level it speaks by its position, so the **last** declaration counts.
  In a ruleset whose leading selector has elements all declarations speak as that
  selector does, so the **first** one counts (`Scope.binding_of_redeclared`).
* A block without elements, such as a bare zoom block, takes the weights of the
  selector around it and keeps its own window. A window that starts above the
  lowest level is stronger than none, so a declaration in the block counts and not
  the one around it. A window from the lowest level on is weaker than none, and if
  the selector around has a window itself, that one speaks for both declarations
  alike. In both cases the outer one, which comes first, counts
  (`Scope.binding_in_block`).
-/

namespace MapStyle

/-! ## Strengths -/

namespace Specificity

/-- Places outside every selector speak by their positions. -/
theorem unscoped_le_iff {i j : ℕ} : unscoped i ≤ unscoped j ↔ i ≤ j := by
  simp [le_iff, unscoped]

/-- **A higher lowest level decides** between weights of which none is less. -/
theorem not_le_of_zoomMin_lt {s t : Specificity} (hids : s.ids ≤ t.ids)
    (hclasses : s.classes ≤ t.classes) (hzoom : s.zoomMin < t.zoomMin) : ¬t ≤ s := by
  rw [le_iff]
  omega

/-- **A higher highest level decides** where weights and lowest level agree. -/
theorem le_of_zoomMax_lt {s t : Specificity} (hids : s.ids = t.ids)
    (hclasses : s.classes = t.classes) (hmin : s.zoomMin = t.zoomMin)
    (hmax : s.zoomMax < t.zoomMax) : s ≤ t := by
  rw [le_iff]
  omega

end Specificity

namespace Zoom

/-- **A window that has a level, but not the lowest, starts above it.** -/
theorem minLevel?_pos {z : Zoom} (hne : z ≠ .empty) (hzero : z.contains 0 = false) :
    0 < z.minLevel?.getD 0 := by
  cases hmin : z.minLevel? with
  | none =>
    refine absurd (ext_contains fun l hl => ?_) hne
    have hnone := List.find?_eq_none.mp hmin l (List.mem_range.mpr hl)
    rw [Bool.not_eq_true] at hnone
    rw [hnone]
    simp [contains, empty]
  | some m =>
    have hm : z.contains m = true := List.find?_some hmin
    refine Nat.pos_of_ne_zero fun hm0 => ?_
    rw [show m = 0 from hm0, hzero] at hm
    exact Bool.false_ne_true hm

/-- A window that has the lowest level starts there. -/
theorem minLevel?_of_contains_zero {z : Zoom} (h : z.contains 0 = true) :
    z.minLevel? = some 0 := by
  unfold minLevel?
  rw [show List.range zoomLevels = 0 :: (List.range maxZoom).map Nat.succ from
    List.range_succ_eq_map]
  exact List.find?_cons_of_pos h

/-- **No level is as high as the number of the window of all levels.** -/
theorem maxLevel?_lt_bits_all (z : Zoom) : z.maxLevel?.getD 0 < all.bits := by
  have hall : zoomLevels < all.bits := by decide
  cases hmax : z.maxLevel? with
  | none => exact Nat.zero_lt_of_lt hall
  | some m =>
    have hm : m ∈ (List.range zoomLevels).reverse := List.mem_of_find?_eq_some hmax
    exact Nat.lt_trans (List.mem_range.mp (List.mem_reverse.mp hm)) hall

end Zoom

namespace Selector

/-- A selector without a window speaks as for all levels. -/
theorem specificity_of_no_zoom {s : Selector} (h : s.zoom = none) :
    s.specificity = ⟨s.weights.ids, s.weights.classes, 0, Zoom.all.bits, s.index⟩ := by
  unfold specificity
  rw [h]

/-- A selector with a window speaks for its outermost levels. -/
theorem specificity_of_zoom {s : Selector} {z : Zoom} (h : s.zoom = some z) :
    s.specificity = ⟨s.weights.ids, s.weights.classes, z.minLevel?.getD 0, z.maxLevel?.getD 0,
      s.index⟩ := by
  unfold specificity
  rw [h]

/-- **A window from the lowest level on is weaker than none**, under the same
weights. -/
theorem specificity_withWeights_le {own around : Selector} {z : Zoom} (hz : own.zoom = some z)
    (hzero : z.contains 0 = true) (hnone : around.zoom = none) :
    own.specificity.withWeights around.weights.ids around.weights.classes ≤ around.specificity := by
  rw [specificity_of_zoom hz, specificity_of_no_zoom hnone, Zoom.minLevel?_of_contains_zero hzero]
  exact Specificity.le_of_zoomMax_lt rfl rfl rfl (Zoom.maxLevel?_lt_bits_all z)

end Selector

namespace Scope

variable {scope : Scope} {name : String}

/-! ## What references of a name are bound to -/

/-- **References of a name are bound to a declaration**: it is what such a
reference is found to be bound to, and in a stylesheet whose handles point into
it this is always found, if the owner of the reference is known. -/
def RefersTo (scope : Scope) (name : String) (id : RuleId) : Prop :=
  ∀ v : Variable, v.name = name →
    (∀ b, scope.binding? v = .ok b → b = some id) ∧
      (scope.sheet.Linked → scope.sheet.Knows v.owner → scope.binding? v = .ok (some id))

/-- References of a name are bound to what the name is bound to. -/
theorem Binds.refersTo {id : RuleId} (h : scope.Binds name id) : scope.RefersTo name id := by
  rintro v rfl
  exact ⟨fun b hb => (binds_iff_of_binding? hb id).mp h, fun hlinked hv => h.binding? hlinked hv⟩

/-! ## In one place -/

/-- Where the rest of the scope does not declare the name, the declarations are
those among the variables in between. -/
theorem filter_declares_of_others {before vars after : List RuleId}
    (hframes : scope.frames = before ++ vars ++ after)
    (hothers : ∀ x ∈ before ++ after, scope.declares name x = false) :
    scope.frames.filter (scope.declares name) = vars.filter (scope.declares name) := by
  have hnone : ∀ xs : List RuleId, (∀ x ∈ xs, x ∈ before ++ after) →
      xs.filter (scope.declares name) = [] := by
    intro xs hxs
    refine List.filter_eq_nil_iff.mpr fun x hx => ?_
    rw [hothers x (hxs x hx)]
    exact Bool.false_ne_true
  rw [hframes, List.filter_append, List.filter_append,
    hnone before fun x hx => List.mem_append_left _ hx,
    hnone after fun x hx => List.mem_append_right _ hx, List.nil_append, List.append_nil]

/-- **Which of the declarations made in one place counts**, where the rest of the
scope does not declare the name: of those at the top level, made in the order of
the source, the last; of those made directly in a ruleset whose leading selector
has elements, the first. -/
theorem binding_of_redeclared (scope : Scope) {memos : Memos}
    (h : scope.sheet.Assembled memos) {name : String} {before vars after declared : List RuleId}
    (hframes : scope.frames = before ++ vars ++ after)
    (hothers : ∀ x ∈ before ++ after, scope.declares name x = false)
    (hdeclared : vars.filter (scope.declares name) = declared) :
    (vars = scope.sheet.globalVariables →
      (declared.map scope.sheet.sourceIndex).Pairwise (· < ·) →
      ∀ last, declared.getLast? = some last → scope.RefersTo name last) ∧
    (∀ (id : RulesetId) (rs : Ruleset) (s : Selector),
      scope.sheet.rulesets[id.index]? = some rs → rs.voice? = some s →
      scope.sheet.variablesIn id = .ok vars →
      ∀ first, declared.head? = some first → scope.RefersTo name first) := by
  have hall : scope.frames.filter (scope.declares name) = declared :=
    (filter_declares_of_others hframes hothers).trans hdeclared
  have hvars : ∀ x ∈ declared, x ∈ vars := by
    intro x hx
    rw [← hdeclared] at hx
    exact (List.mem_filter.mp hx).1
  refine ⟨fun hglobal hincreasing last hlast => ?_, fun id rs s hrs hs hin first hfirst => ?_⟩
  · have hrank : ∀ x ∈ declared,
        scope.sheet.declarationRank x = .ok (.unscoped (scope.sheet.sourceIndex x)) := by
      intro x hx
      obtain ⟨r, hr, hparent⟩ := Stylesheet.parent_of_mem_globalVariables (hglobal ▸ hvars x hx)
      exact Stylesheet.declarationRank_of_top hr hparent
    obtain ⟨front, rfl⟩ := List.getLast?_eq_some_iff.mp hlast
    rw [List.map_append, List.pairwise_append] at hincreasing
    refine (binds_of_split hall (hrank last (by simp)) (fun x hx => ?_) (by simp)).refersTo
    refine ⟨_, hrank x (List.mem_append_left _ hx), ?_⟩
    rw [Specificity.unscoped_le_iff]
    exact Nat.not_le.mpr (hincreasing.2.2 _ (List.mem_map_of_mem hx) _ (by simp))
  · have hrank : ∀ x ∈ declared, scope.sheet.declarationRank x = .ok s.specificity := by
      intro x hx
      obtain ⟨r, hr, hparent⟩ := h.parent_of_mem_variablesIn hin (hvars x hx)
      exact Stylesheet.declarationRank_of_voice hr hparent hrs hs
    obtain ⟨back, rfl⟩ := List.head?_eq_some_iff.mp hfirst
    have hsplit : scope.frames.filter (scope.declares name) = [] ++ first :: back := hall
    refine (binds_of_split hsplit (hrank first List.mem_cons_self) (by simp)
      fun x hx => ?_).refersTo
    exact ⟨_, hrank x (List.mem_cons_of_mem _ hx), Specificity.le_refl _⟩

end Scope

/-! ### A name declared twice and twice again -/

namespace Stylesheet

/-- A declaration by a single word at a position. -/
def declaringAt (index : ℕ) (name word : String) : Rule :=
  { declaring name true (.keyword word) with location := ⟨none, index⟩ }

/-- The stylesheet `@w: a; @w: b; #road { @w: c; @w: d; line-cap: @w; }` and its cells. -/
def twiceAndCells : Stylesheet × Memos := ofAdditions [
  .rule (declaringAt 0 "@w" "a") none,
  .rule (declaringAt 1 "@w" "b") none,
  .ruleset [{ elements := ["#road"], index := 2 }] none,
  .rule (declaringAt 3 "@w" "c") (some ⟨0⟩),
  .rule (declaringAt 4 "@w" "d") (some ⟨0⟩),
  .rule (declaring "line-cap" false (.variable (refer "@w"))) (some ⟨0⟩)]

/-- **A name declared twice** at the top level and twice in a ruleset. -/
def twice : Stylesheet := twiceAndCells.1

theorem built_twice : twice.Built twiceAndCells.2 := built_ofAdditions rfl

end Stylesheet

namespace Scope

/-- At the top level the second declaration counts. -/
theorem last_of_top_counts :
    ∃ r v, Stylesheet.twice.rules[4]? = some r ∧ r.value.references = [v] ∧
      (⟨.twice, Stylesheet.twice.globalVariables⟩ : Scope).binding? v = .ok (some ⟨1⟩) := by
  let scope : Scope := ⟨.twice, Stylesheet.twice.globalVariables⟩
  have hcounts : scope.RefersTo "@w" ⟨1⟩ :=
    (binding_of_redeclared scope Stylesheet.built_twice.assembled
      (show scope.frames = [] ++ scope.sheet.globalVariables ++ [] by rfl)
      (fun _ hx => absurd hx List.not_mem_nil) rfl).1 rfl (by decide) _ rfl
  refine ⟨_, _, rfl, rfl, (hcounts _ rfl).2 Stylesheet.built_twice.linked ?_⟩
  show 4 < Stylesheet.twice.rules.length
  decide

/-- **In a ruleset the first declaration counts**, though the second one is the
later in the source. -/
theorem first_of_ruleset_counts :
    ∃ r v rs s, Stylesheet.twice.rules[4]? = some r ∧ r.value.references = [v] ∧
      Stylesheet.twice.rulesets[0]? = some rs ∧ rs.voice? = some s ∧
      Stylesheet.twice.variablesIn ⟨0⟩ = .ok [⟨2⟩, ⟨3⟩] ∧
      Stylesheet.twice.sourceIndex ⟨2⟩ < Stylesheet.twice.sourceIndex ⟨3⟩ ∧
      (⟨.twice, [⟨2⟩, ⟨3⟩]⟩ : Scope).declares v.name ⟨2⟩ = true ∧
      (⟨.twice, [⟨2⟩, ⟨3⟩]⟩ : Scope).declares v.name ⟨3⟩ = true ∧
      (⟨.twice, [⟨2⟩, ⟨3⟩]⟩ : Scope).binding? v = .ok (some ⟨2⟩) := by
  let scope : Scope := ⟨.twice, [⟨2⟩, ⟨3⟩]⟩
  have hbinds : scope.Binds "@w" ⟨2⟩ := ⟨_, _, rfl, ⟨[], [_], rfl, by simp, by decide⟩, rfl⟩
  refine ⟨_, _, _, _, rfl, rfl, rfl, rfl, rfl, by decide, by decide, by decide,
    hbinds.binding? Stylesheet.built_twice.linked ?_⟩
  show 4 < Stylesheet.twice.rules.length
  decide

end Scope

/-! ## In a block and around it -/

namespace Stylesheet

/-- **A block without elements directly inside a ruleset** whose leading selector
has some. -/
structure BlockIn (sheet : Stylesheet) (inner outer : RulesetId) (own around : Selector) :
    Prop where
  outer_voice : ∃ rs, sheet.rulesets[outer.index]? = some rs ∧ rs.voice? = some around
  inner_block : ∃ rs, sheet.rulesets[inner.index]? = some rs ∧ rs.selectors = [own] ∧
    rs.parent = some outer
  isTrivial : own.isTrivial = true

variable {sheet : Stylesheet} {memos : Memos} {inner outer : RulesetId} {own around : Selector}
  {ids : List RuleId} {x : RuleId}

/-- What is declared around the block speaks as the selector there. -/
theorem BlockIn.declarationRank_outer (h : sheet.BlockIn inner outer own around)
    (hbuilt : sheet.Assembled memos) (hids : sheet.variablesIn outer = .ok ids) (hx : x ∈ ids) :
    sheet.declarationRank x = .ok around.specificity := by
  obtain ⟨rs, hrs, hvoice⟩ := h.outer_voice
  obtain ⟨r, hr, hparent⟩ := hbuilt.parent_of_mem_variablesIn hids hx
  exact declarationRank_of_voice hr hparent hrs hvoice

/-- **What is declared in the block** speaks as the selector around if that has a
window, and otherwise with its weights. -/
theorem BlockIn.declarationRank_inner (h : sheet.BlockIn inner outer own around)
    (hbuilt : sheet.Assembled memos) (hids : sheet.variablesIn inner = .ok ids) (hx : x ∈ ids) :
    sheet.declarationRank x = .ok (if around.zoom.isSome then around.specificity
      else own.specificity.withWeights around.weights.ids around.weights.classes) := by
  obtain ⟨rsOuter, hrsOuter, hvoice⟩ := h.outer_voice
  obtain ⟨rs, hrs, hown, hparent⟩ := h.inner_block
  obtain ⟨r, hr, hrparent⟩ := hbuilt.parent_of_mem_variablesIn hids hx
  have hnone : rs.voice? = none := by
    unfold Ruleset.voice?
    rw [hown, List.head?_cons, Option.filter_some, h.isTrivial]
    rfl
  have hhead : rs.selectors.head? = some own := by rw [hown, List.head?_cons]
  exact declarationRank_of_nearest hr hrparent
    (nearestSelector_of_outer_voice hrs hnone hparent hrsOuter hvoice) hrs hhead

end Stylesheet

namespace Scope

/-- **Which of two declarations counts, one in a block without elements and one
directly around it.** If the selector around has no window and that of the block
starts above the lowest level, the declaration in the block counts, also where
the name is declared at the top level. If the selector around has a window, or
that of the block has the lowest level, the declaration around the block counts,
where the rest of the scope does not declare the name. -/
theorem binding_in_block (scope : Scope) {memos : Memos} (hbuilt : scope.sheet.Assembled memos)
    {inner outer : RulesetId} {own around : Selector}
    (h : scope.sheet.BlockIn inner outer own around) {name : String}
    {before outerVars innerVars after : List RuleId}
    (hframes : scope.frames = before ++ (outerVars ++ innerVars) ++ after)
    (houterVars : scope.sheet.variablesIn outer = .ok outerVars)
    (hinnerVars : scope.sheet.variablesIn inner = .ok innerVars) {id id' : RuleId}
    (hid : outerVars.filter (scope.declares name) = [id])
    (hid' : innerVars.filter (scope.declares name) = [id']) :
    (around.zoom = none → ∀ z, own.zoom = some z → z ≠ .empty → z.contains 0 = false →
      (∀ x ∈ before ++ after, scope.declares name x = true →
        ∃ r, scope.sheet.rules[x.index]? = some r ∧ r.parent = none) →
      scope.RefersTo name id') ∧
    ((around.zoom.isSome = true ∨ ∃ z, own.zoom = some z ∧ z.contains 0 = true) →
      (∀ x ∈ before ++ after, scope.declares name x = false) → scope.RefersTo name id) := by
  have hmem : ∀ {ids : List RuleId} {x : RuleId}, ids.filter (scope.declares name) = [x] →
      x ∈ ids := fun heq => (List.mem_filter.mp (heq ▸ List.mem_singleton_self _)).1
  have houter := h.declarationRank_outer hbuilt houterVars (hmem hid)
  have hinner := h.declarationRank_inner hbuilt hinnerVars (hmem hid')
  refine ⟨fun hnone z hz hne hzero htop => ?_, fun hcases hothers => ?_⟩
  · let t : Specificity := own.specificity.withWeights around.weights.ids around.weights.classes
    have ht : scope.sheet.declarationRank id' = .ok t := by
      rw [hinner, hnone]
      rfl
    have hwindow : 0 < t.zoomMin := by
      show 0 < own.specificity.zoomMin
      rw [Selector.specificity_of_zoom hz]
      exact Zoom.minLevel?_pos hne hzero
    have haround : ¬t ≤ around.specificity := by
      rw [Selector.specificity_of_no_zoom hnone]
      exact Specificity.not_le_of_zoomMin_lt (Nat.le_refl _) (Nat.le_refl _) hwindow
    -- what is declared at the top level is weaker as well
    have hothers : ∀ xs : List RuleId, (∀ x ∈ xs, x ∈ before ++ after) →
        ∀ x ∈ xs.filter (scope.declares name),
          ∃ s, scope.sheet.declarationRank x = .ok s ∧ ¬t ≤ s := by
      intro xs hxs x hx
      obtain ⟨hx, hdeclares⟩ := List.mem_filter.mp hx
      obtain ⟨r, hr, hparent⟩ := htop x (hxs x hx) hdeclares
      exact ⟨_, Stylesheet.declarationRank_of_top hr hparent,
        Specificity.not_le_of_zoomMin_lt (Nat.zero_le _) (Nat.zero_le _) hwindow⟩
    have hsplit : scope.frames.filter (scope.declares name)
        = (before.filter (scope.declares name) ++ [id]) ++
          id' :: after.filter (scope.declares name) := by
      rw [hframes, List.filter_append, List.filter_append, List.filter_append, hid, hid']
      simp
    refine (binds_of_split hsplit ht (fun x hx => ?_) fun x hx => ?_).refersTo
    · rcases List.mem_append.mp hx with hx | hx
      · exact hothers before (fun x hx => List.mem_append_left _ hx) x hx
      · rw [List.mem_singleton.mp hx]
        exact ⟨_, houter, haround⟩
    · obtain ⟨s, hs, hlt⟩ := hothers after (fun x hx => List.mem_append_right _ hx) x hx
      exact ⟨s, hs, (Specificity.le_total s t).resolve_right hlt⟩
  · have hall := filter_declares_of_others hframes hothers
    rw [List.filter_append, hid, hid'] at hall
    have hsplit : scope.frames.filter (scope.declares name) = [] ++ id :: [id'] := hall
    refine (binds_of_split hsplit houter (by simp)
      (List.forall_mem_singleton.mpr ⟨_, hinner, ?_⟩)).refersTo
    split
    · exact Specificity.le_refl _
    · next hwindow =>
      obtain ⟨z, hz, hzero⟩ := hcases.resolve_left hwindow
      have hnone : around.zoom = none := Option.not_isSome_iff_eq_none.mp hwindow
      exact Selector.specificity_withWeights_le hz hzero hnone

end Scope

/-! ### A zoom block in a ruleset -/

namespace Stylesheet

/-- The stylesheet `#road { @w: a; [zoom] { @w: b; line-cap: @w; } }`, where the road may
be restricted to a window as well, and its cells. -/
def blockAndCells (around? : Option Zoom) (window : Zoom) : Stylesheet × Memos := ofAdditions [
  .ruleset [{ elements := ["#road"], zoom := around?, index := 0 }] none,
  .rule (declaringAt 1 "@w" "a") (some ⟨0⟩),
  .ruleset [{ elements := [], zoom := some window, index := 2 }] (some ⟨0⟩),
  .rule (declaringAt 3 "@w" "b") (some ⟨1⟩),
  .rule (declaring "line-cap" false (.variable (refer "@w"))) (some ⟨1⟩)]

/-- **A zoom block in a ruleset**, with a declaration in each. -/
def block (around? : Option Zoom) (window : Zoom) : Stylesheet := (blockAndCells around? window).1

theorem built_block (around? : Option Zoom) (window : Zoom) :
    (block around? window).Built (blockAndCells around? window).2 := built_ofAdditions rfl

/-- The block is one. -/
theorem blockIn_block (around? : Option Zoom) (window : Zoom) :
    (block around? window).BlockIn ⟨1⟩ ⟨0⟩ { elements := [], zoom := some window, index := 2 }
      { elements := ["#road"], zoom := around?, index := 0 } where
  outer_voice := ⟨_, rfl, rfl⟩
  inner_block := ⟨_, rfl, rfl, rfl⟩
  isTrivial := rfl

end Stylesheet

namespace Scope

/-- In a block from level 14 on the declaration in the block counts. -/
theorem inner_of_block_counts :
    ∃ r v, (Stylesheet.block none (.range 14 22)).rules[2]? = some r ∧ r.value.references = [v] ∧
      (⟨.block none (.range 14 22), [⟨0⟩, ⟨1⟩]⟩ : Scope).binding? v = .ok (some ⟨1⟩) := by
  let scope : Scope := ⟨.block none (.range 14 22), [⟨0⟩, ⟨1⟩]⟩
  have hbuilt := Stylesheet.built_block none (.range 14 22)
  have hcounts : scope.RefersTo "@w" ⟨1⟩ :=
    (binding_in_block scope hbuilt.assembled (Stylesheet.blockIn_block _ _)
      (show scope.frames = [] ++ ([⟨0⟩] ++ [⟨1⟩]) ++ [] by rfl) rfl rfl rfl rfl).1
      rfl _ rfl (by decide) (by decide) fun _ hx => absurd hx List.not_mem_nil
  refine ⟨_, _, rfl, rfl, (hcounts _ rfl).2 hbuilt.linked ?_⟩
  show 2 < (Stylesheet.block none (.range 14 22)).rules.length
  decide

/-- **In a block within a window the declaration around it counts**: the road has
the levels from 5 on, and the block those from 10 to 14. -/
theorem outer_of_block_counts :
    ∃ own around r v,
      (Stylesheet.block (some (.range 5 22)) (.range 10 14)).BlockIn ⟨1⟩ ⟨0⟩ own around ∧
      around.index < own.index ∧ own.zoom = some (.range 10 14) ∧
      around.zoom = some (.range 5 22) ∧
      Zoom.range 10 14 ≠ .empty ∧ Zoom.range 10 14 ≠ .all ∧
      (Zoom.range 10 14).intersect (.range 5 22) = .range 10 14 ∧
      (Stylesheet.block (some (.range 5 22)) (.range 10 14)).variablesIn ⟨0⟩ = .ok [⟨0⟩] ∧
      (Stylesheet.block (some (.range 5 22)) (.range 10 14)).variablesIn ⟨1⟩ = .ok [⟨1⟩] ∧
      (Stylesheet.block (some (.range 5 22)) (.range 10 14)).rules[2]? = some r ∧
      r.value.references = [v] ∧
      (⟨.block (some (.range 5 22)) (.range 10 14), [⟨0⟩, ⟨1⟩]⟩ : Scope).binding? v
        = .ok (some ⟨0⟩) := by
  let scope : Scope := ⟨.block (some (.range 5 22)) (.range 10 14), [⟨0⟩, ⟨1⟩]⟩
  have hbuilt := Stylesheet.built_block (some (.range 5 22)) (.range 10 14)
  have hbinds : scope.Binds "@w" ⟨0⟩ := ⟨_, _, rfl, ⟨[], [_], rfl, by simp, by decide⟩, rfl⟩
  refine ⟨_, _, _, _, Stylesheet.blockIn_block _ _, by decide, rfl, rfl, by decide, by decide,
    by decide, rfl, rfl, rfl, rfl, hbinds.binding? hbuilt.linked ?_⟩
  show 2 < (Stylesheet.block (some (.range 5 22)) (.range 10 14)).rules.length
  decide

end Scope

end MapStyle
