import MapStyle.Named
import MapStyle.Proofs.Placing
import MapStyle.Stylesheet.Scope
import Mathlib.Data.List.Forall2

/-!
# Built stylesheets

A stylesheet is **built** by adding rulesets and rules to the empty one, each
at the top level or in a ruleset that is there already, while the cells may be
filled in between (`Stylesheet.Built`). In what is built all handles hold:
rulesets are nested in earlier ones, rules are made in rulesets that are there,
and every reference is owned by the rule or the selector it is written in
(`Stylesheet.Linked`), and has a cell of its own (`Stylesheet.Built.housed`).
What is said of references holds whatever handles the rulesets and rules are
added under (`Stylesheet.Assembled`).

So no handle that is followed to find out how strongly a declaration or a
reference speaks is stale, and the way outwards from a ruleset ends, since it
goes to earlier rulesets only (`Stylesheet.Linked.exists_declarationRank`,
`Stylesheet.Linked.exists_referenceRank`).
-/

namespace MapStyle

/-! ## Computations that may fail -/

namespace Fault

/-- What succeeds hands on its result. -/
theorem ok_bind {α β : Type} (a : α) (f : α → Except Fault β) : (Except.ok a >>= f) = f a := rfl

/-- A computation in two steps succeeds when both do. -/
theorem bind_eq_ok_iff {α β : Type} {x : Except Fault α} {f : α → Except Fault β} {b : β} :
    (x >>= f) = .ok b ↔ ∃ a, x = .ok a ∧ f a = .ok b := by
  cases x with
  | error e =>
    constructor
    · intro h
      cases h
    · rintro ⟨_, h, -⟩
      cases h
  | ok a => exact ⟨fun h => ⟨a, rfl, h⟩, fun ⟨_, ha, h⟩ => Except.ok.inj ha ▸ h⟩

/-- What gives a result for each member of a list gives the list of the
results. -/
theorem mapM_eq_ok {α β : Type} {f : α → Except Fault β} {g : α → β} {as : List α}
    (h : ∀ a ∈ as, f a = .ok (g a)) : as.mapM f = .ok (as.map g) := by
  induction as with
  | nil => rfl
  | cons a as ih =>
    rw [List.mapM_cons, h a List.mem_cons_self, ok_bind,
      ih (fun b hb => h b (List.mem_cons_of_mem _ hb)), ok_bind]
    rfl

/-- What succeeds for each member of a list succeeds for the list. -/
theorem exists_mapM {α β : Type} {f : α → Except Fault β} {as : List α}
    (h : ∀ a ∈ as, ∃ b, f a = .ok b) : ∃ bs, as.mapM f = .ok bs := by
  induction as with
  | nil => exact ⟨[], rfl⟩
  | cons a as ih =>
    obtain ⟨b, hb⟩ := h a List.mem_cons_self
    obtain ⟨bs, hbs⟩ := ih (fun a ha => h a (List.mem_cons_of_mem _ ha))
    rw [List.mapM_cons, hb, ok_bind, hbs, ok_bind]
    exact ⟨b :: bs, rfl⟩

/-- What succeeded for a list succeeded for its members, one by one. -/
theorem forall₂_of_mapM {α β : Type} {f : α → Except Fault β} {as : List α} {bs : List β}
    (h : as.mapM f = .ok bs) : List.Forall₂ (fun a b => f a = .ok b) as bs := by
  induction as generalizing bs with
  | nil =>
    rw [← Except.ok.inj (show (Except.ok [] : Except Fault (List β)) = .ok bs from h)]
    exact .nil
  | cons a as ih =>
    rw [List.mapM_cons] at h
    obtain ⟨b, hb, h⟩ := bind_eq_ok_iff.mp h
    obtain ⟨bs', hbs', h⟩ := bind_eq_ok_iff.mp h
    rw [← Except.ok.inj (show Except.ok (b :: bs') = .ok bs from h)]
    exact .cons hb (ih hbs')

end Fault

namespace Stylesheet

/-! ## Building -/

/-- The filters of all selectors. -/
def filters (sheet : Stylesheet) : List Filter :=
  sheet.rulesets.flatMap fun ruleset => ruleset.selectors.flatMap (·.filters)

/-- **The references of a stylesheet**, in the values of its rules and in the
filters of its selectors. -/
def references (sheet : Stylesheet) : List Variable :=
  sheet.rules.flatMap (·.value.references) ++
    sheet.rulesets.flatMap fun ruleset => ruleset.selectors.flatMap Selector.references

/-- **A stylesheet built with its own handles**, and the store of cells at the
time. Whatever is evaluated in between makes the store grow. -/
inductive Built : Stylesheet → Memos → Prop
  | empty (m : Memos) : Built {} m
  | addRuleset {sheet : Stylesheet} {m : Memos} (h : Built sheet m) (selectors : List Selector)
      (parent : Option RulesetId) (hp : ∀ p ∈ parent, p.index < sheet.rulesets.length) :
      Built ((sheet.addRuleset selectors parent).run m).1.2
        ((sheet.addRuleset selectors parent).run m).2
  | addRule {sheet : Stylesheet} {m : Memos} (h : Built sheet m) (r : Rule)
      (parent : Option RulesetId) (hp : ∀ p ∈ parent, p.index < sheet.rulesets.length) :
      Built ((sheet.addRule r parent).run m).1.2 ((sheet.addRule r parent).run m).2
  | grow {sheet : Stylesheet} {m m' : Memos} (h : Built sheet m) (hm : m ≤ m') : Built sheet m'

/-- **A stylesheet put together from rulesets and rules**, each added under any
handle, stale ones included. -/
inductive Assembled : Stylesheet → Memos → Prop
  | empty (m : Memos) : Assembled {} m
  | addRuleset {sheet : Stylesheet} {m : Memos} (h : Assembled sheet m)
      (selectors : List Selector) (parent : Option RulesetId) :
      Assembled ((sheet.addRuleset selectors parent).run m).1.2
        ((sheet.addRuleset selectors parent).run m).2
  | addRule {sheet : Stylesheet} {m : Memos} (h : Assembled sheet m) (r : Rule)
      (parent : Option RulesetId) :
      Assembled ((sheet.addRule r parent).run m).1.2 ((sheet.addRule r parent).run m).2
  | grow {sheet : Stylesheet} {m m' : Memos} (h : Assembled sheet m) (hm : m ≤ m') :
      Assembled sheet m'

/-- What is built is put together. -/
theorem Built.assembled {sheet : Stylesheet} {m : Memos} (h : Built sheet m) :
    Assembled sheet m := by
  induction h with
  | empty m => exact .empty m
  | addRuleset _ selectors parent _ ih => exact ih.addRuleset selectors parent
  | addRule _ r parent _ ih => exact ih.addRule r parent
  | grow _ hm ih => exact ih.grow hm

/-- **Every reference is owned by what it is written in.** -/
structure Owned (sheet : Stylesheet) : Prop where
  rule_owner : ∀ (i : ℕ) (r : Rule), sheet.rules[i]? = some r →
    ∀ v ∈ r.value.references, v.owner = some (.rule ⟨i⟩)
  selector_owner : ∀ (i : ℕ) (rs : Ruleset), sheet.rulesets[i]? = some rs →
    ∀ (j : ℕ) (s : Selector), rs.selectors[j]? = some s →
      ∀ v ∈ s.references, v.owner = some (.selector ⟨⟨i⟩, j⟩)

/-- **Every handle in the stylesheet points into it**, and rulesets are nested
in earlier ones. -/
structure Linked (sheet : Stylesheet) : Prop extends Owned sheet where
  ruleset_parent : ∀ (i : ℕ) (rs : Ruleset), sheet.rulesets[i]? = some rs →
    ∀ p ∈ rs.parent, p.index < i
  rule_parent : ∀ r ∈ sheet.rules, ∀ p ∈ r.parent, p.index < sheet.rulesets.length

/-! ## Adding keeps the links -/

/-- The rulesets after a rule was listed in the one it is made in. -/
def listRule (id : RuleId) (parent : Option RulesetId) (rulesets : List Ruleset) : List Ruleset :=
  match parent with
  | none => rulesets
  | some p => rulesets.modify p.index fun rs => { rs with rules := rs.rules ++ [id] }

@[simp] theorem length_listRule (id : RuleId) (parent : Option RulesetId)
    (rulesets : List Ruleset) : (listRule id parent rulesets).length = rulesets.length := by
  cases parent with
  | none => rfl
  | some p => exact List.length_modify _ _ _

/-- What a ruleset is, apart from the rules it lists, does not change when a
rule is added. -/
theorem exists_of_getElem?_listRule {id : RuleId} {parent : Option RulesetId}
    {rulesets : List Ruleset} {i : ℕ} {rs : Ruleset}
    (h : (listRule id parent rulesets)[i]? = some rs) :
    ∃ rs', rulesets[i]? = some rs' ∧ rs'.selectors = rs.selectors ∧ rs'.parent = rs.parent := by
  cases parent with
  | none => exact ⟨rs, h, rfl, rfl⟩
  | some p =>
    rw [listRule, List.getElem?_modify] at h
    obtain ⟨rs', hrs', rfl⟩ := Option.map_eq_some_iff.mp h
    refine ⟨rs', hrs', ?_⟩
    split
    · exact ⟨rfl, rfl⟩
    · exact ⟨rfl, rfl⟩

/-- A rule more does not change the selectors. -/
theorem map_selectors_listRule (id : RuleId) (parent : Option RulesetId)
    (rulesets : List Ruleset) :
    (listRule id parent rulesets).map Ruleset.selectors = rulesets.map Ruleset.selectors := by
  refine List.ext_getElem? (fun i => ?_)
  rw [List.getElem?_map, List.getElem?_map]
  cases hi : (listRule id parent rulesets)[i]? with
  | none =>
    have hlen := List.getElem?_eq_none_iff.mp hi
    rw [length_listRule] at hlen
    rw [List.getElem?_eq_none hlen]
  | some rs =>
    obtain ⟨rs', hrs', hsel, -⟩ := exists_of_getElem?_listRule hi
    rw [hrs', Option.map_some, Option.map_some, hsel]

/-- The empty stylesheet has no handles. -/
theorem linked_empty : Linked {} where
  ruleset_parent i rs h := absurd h (by simp)
  rule_parent r h := absurd h List.not_mem_nil
  rule_owner i r h := absurd h (by simp)
  selector_owner i rs h := absurd h (by simp)

/-- A stylesheet after a ruleset was added, and the cells after its references
were placed. -/
theorem run_addRuleset (sheet : Stylesheet) (selectors : List Selector)
    (parent : Option RulesetId) (m : Memos) :
    (sheet.addRuleset selectors parent).run m
      = ((⟨sheet.rulesets.length⟩,
          { sheet with rulesets := sheet.rulesets ++ [{
              selectors := ((Selector.placeFrom ⟨sheet.rulesets.length⟩ 0 selectors).run m).1
              parent }] }),
        ((Selector.placeFrom ⟨sheet.rulesets.length⟩ 0 selectors).run m).2) := rfl

/-- A stylesheet after a rule was added, and the cells after its references were
placed. -/
theorem run_addRule (sheet : Stylesheet) (r : Rule) (parent : Option RulesetId) (m : Memos) :
    (sheet.addRule r parent).run m
      = ((⟨sheet.rules.length⟩,
          { rulesets := listRule ⟨sheet.rules.length⟩ parent sheet.rulesets
            rules := sheet.rules ++ [{ r with
              parent
              value := ((r.value.place (some (.rule ⟨sheet.rules.length⟩))).run m).1 }] }),
        ((r.value.place (some (.rule ⟨sheet.rules.length⟩))).run m).2) := rfl

/-- A ruleset more keeps the owners. -/
theorem Owned.addRuleset {sheet : Stylesheet} (h : sheet.Owned) (selectors : List Selector)
    (parent : Option RulesetId) (m : Memos) :
    ((sheet.addRuleset selectors parent).run m).1.2.Owned := by
  rw [run_addRuleset]
  refine ⟨h.rule_owner, fun i rs hi j s hs => ?_⟩
  rcases getElem?_concat_eq_some hi with hi | ⟨rfl, rfl⟩
  · exact h.selector_owner i rs hi j s hs
  · have howner := (Selector.placed_placeFrom ⟨sheet.rulesets.length⟩ 0 selectors m).2 j s hs
    rw [Nat.zero_add] at howner
    exact howner

/-- A rule more keeps the owners. -/
theorem Owned.addRule {sheet : Stylesheet} (h : sheet.Owned) (r : Rule)
    (parent : Option RulesetId) (m : Memos) :
    ((sheet.addRule r parent).run m).1.2.Owned := by
  rw [run_addRule]
  refine ⟨fun i r' hi v hv => ?_, fun i rs hi j s hs => ?_⟩
  · rcases getElem?_concat_eq_some hi with hi | ⟨rfl, rfl⟩
    · exact h.rule_owner i r' hi v hv
    · obtain ⟨w, -, hw⟩ := (r.value.placed_place (some (.rule ⟨sheet.rules.length⟩)) m).2 v hv
      exact hw
  · obtain ⟨rs', hi', hselectors, -⟩ := exists_of_getElem?_listRule hi
    exact h.selector_owner i rs' hi' j s (hselectors ▸ hs)

/-- **In what is put together every reference is owned by what it is written
in.** -/
theorem Assembled.owned {sheet : Stylesheet} {m : Memos} (h : Assembled sheet m) :
    sheet.Owned := by
  induction h with
  | empty m => exact linked_empty.toOwned
  | @addRuleset sheet m _ selectors parent ih => exact ih.addRuleset selectors parent m
  | @addRule sheet m _ r parent ih => exact ih.addRule r parent m
  | grow _ _ ih => exact ih

/-- **A ruleset more keeps the links.** -/
theorem Linked.addRuleset {sheet : Stylesheet} (h : sheet.Linked) (selectors : List Selector)
    {parent : Option RulesetId} (hp : ∀ p ∈ parent, p.index < sheet.rulesets.length)
    (m : Memos) : ((sheet.addRuleset selectors parent).run m).1.2.Linked := by
  refine ⟨h.toOwned.addRuleset selectors parent m, fun i rs hi p hpp => ?_, fun r hr p hpp => ?_⟩
  · rw [run_addRuleset] at hi
    rcases getElem?_concat_eq_some hi with hi | ⟨rfl, rfl⟩
    · exact h.ruleset_parent i rs hi p hpp
    · exact hp p hpp
  · rw [run_addRuleset, List.length_append]
    exact Nat.lt_add_right _ (h.rule_parent r hr p hpp)

/-- **A rule more keeps the links.** -/
theorem Linked.addRule {sheet : Stylesheet} (h : sheet.Linked) (r : Rule)
    {parent : Option RulesetId} (hp : ∀ p ∈ parent, p.index < sheet.rulesets.length)
    (m : Memos) : ((sheet.addRule r parent).run m).1.2.Linked := by
  refine ⟨h.toOwned.addRule r parent m, fun i rs hi p hpp => ?_, fun r' hr p hpp => ?_⟩
  · rw [run_addRule] at hi
    obtain ⟨rs', hi', -, hparent⟩ := exists_of_getElem?_listRule hi
    exact h.ruleset_parent i rs' hi' p (hparent ▸ hpp)
  · rw [run_addRule] at hr ⊢
    rw [length_listRule]
    rcases List.mem_append.mp hr with hr | hr
    · exact h.rule_parent r' hr p hpp
    · rw [List.mem_singleton.mp hr] at hpp
      exact hp p hpp

/-- **In what is built every handle points into it.** -/
theorem Built.linked {sheet : Stylesheet} {m : Memos} (h : Built sheet m) : sheet.Linked := by
  induction h with
  | empty m => exact linked_empty
  | @addRuleset sheet m h selectors parent hp ih => exact ih.addRuleset selectors hp m
  | @addRule sheet m h r parent hp ih => exact ih.addRule r hp m
  | grow h hm ih => exact ih

/-! ## Cells -/

/-- **In what is put together every reference has a cell of its own.** -/
theorem Assembled.housed {sheet : Stylesheet} {m : Memos} (h : Assembled sheet m) :
    Housed 0 m.next sheet.references := by
  induction h with
  | empty m => exact Housed.nil 0 m.next
  | @addRuleset sheet m h selectors parent ih =>
    have hplaced := (Selector.placed_placeFrom ⟨sheet.rulesets.length⟩ 0 selectors m).1
    have hrefs : ((sheet.addRuleset selectors parent).run m).1.2.references
        = sheet.references ++
          ((Selector.placeFrom ⟨sheet.rulesets.length⟩ 0 selectors).run m).1.flatMap
            Selector.references := by
      rw [run_addRuleset, references, references, List.flatMap_append, List.flatMap_singleton,
        List.append_assoc]
    rw [hrefs]
    exact ih.append hplaced.housed (Nat.zero_le _) (Memos.next_le hplaced.grown)
  | @addRule sheet m h r parent ih =>
    have hplaced := (r.value.placed_place (some (.rule ⟨sheet.rules.length⟩)) m).1
    have hselectors : ∀ rulesets : List Ruleset,
        (rulesets.flatMap fun rs => rs.selectors.flatMap Selector.references)
          = (rulesets.map Ruleset.selectors).flatMap (List.flatMap Selector.references) :=
      fun rulesets => (List.flatMap_map _ _ _).symm
    -- the references of rules come before those of selectors, so the new ones stand in between
    have hrefs : ((sheet.addRule r parent).run m).1.2.references.Perm (sheet.references ++
        ((r.value.place (some (.rule ⟨sheet.rules.length⟩))).run m).1.references) := by
      rw [run_addRule, references, references, List.flatMap_append, List.flatMap_singleton,
        hselectors, hselectors, map_selectors_listRule, List.append_assoc, List.append_assoc]
      exact List.Perm.append_left _ List.perm_append_comm
    exact (ih.append hplaced.housed (Nat.zero_le _) (Memos.next_le hplaced.grown)).perm hrefs.symm
  | grow h hm ih => exact ih.mono (Memos.next_le hm)

/-- **In what is built every reference has a cell of its own.** -/
theorem Built.housed {sheet : Stylesheet} {m : Memos} (h : Built sheet m) :
    Housed 0 m.next sheet.references := h.assembled.housed

/-- The references of a rule are references of its stylesheet. -/
theorem mem_references_of_rule {sheet : Stylesheet} {r : Rule} (hr : r ∈ sheet.rules)
    {v : Variable} (hv : v ∈ r.value.references) : v ∈ sheet.references :=
  List.mem_append_left _ (List.mem_flatMap.mpr ⟨r, hr, hv⟩)

/-- The references of a selector's filter are references of its stylesheet. -/
theorem mem_references_of_filter {sheet : Stylesheet} {f : Filter} (hf : f ∈ sheet.filters)
    {v : Variable} (hv : v ∈ f.references) : v ∈ sheet.references := by
  obtain ⟨rs, hrs, hf⟩ := List.mem_flatMap.mp hf
  obtain ⟨s, hs, hf⟩ := List.mem_flatMap.mp hf
  refine List.mem_append_right _ (List.mem_flatMap.mpr ⟨rs, hrs, List.mem_flatMap.mpr ⟨s, hs, ?_⟩⟩)
  exact List.mem_flatMap.mpr ⟨f, hf, hv⟩

/-- The references of a filter are owned by its selector. -/
theorem Owned.exists_selector_owner {sheet : Stylesheet} (h : sheet.Owned) {f : Filter}
    (hf : f ∈ sheet.filters) {v : Variable} (hv : v ∈ f.references) :
    ∃ ref, v.owner = some (.selector ref) := by
  obtain ⟨rs, hrs, hf⟩ := List.mem_flatMap.mp hf
  obtain ⟨s, hs, hf⟩ := List.mem_flatMap.mp hf
  obtain ⟨i, hi⟩ := List.mem_iff_getElem?.mp hrs
  obtain ⟨j, hj⟩ := List.mem_iff_getElem?.mp hs
  exact ⟨_, h.selector_owner i rs hi j s hj v (List.mem_flatMap.mpr ⟨f, hf, hv⟩)⟩

/-! ## How strongly places speak -/

/-- **An owner the stylesheet knows**: none, or a handle that points into it. -/
def Knows (sheet : Stylesheet) : Option Owner → Prop
  | none => True
  | some (.rule id) => id.index < sheet.rules.length
  | some (.selector ref) => ∃ rs s, sheet.rulesets[ref.ruleset.index]? = some rs ∧
      rs.selectors[ref.position]? = some s

/-- **A stylesheet knows the owners of its references.** -/
theorem Linked.knows_owner {sheet : Stylesheet} (h : sheet.Linked) {v : Variable}
    (hv : v ∈ sheet.references) : sheet.Knows v.owner := by
  rcases List.mem_append.mp hv with hv | hv
  · obtain ⟨r, hr, hv⟩ := List.mem_flatMap.mp hv
    obtain ⟨i, hi⟩ := List.mem_iff_getElem?.mp hr
    rw [h.rule_owner i r hi v hv]
    exact (List.getElem?_eq_some_iff.mp hi).1
  · obtain ⟨rs, hrs, hv⟩ := List.mem_flatMap.mp hv
    obtain ⟨s, hs, hv⟩ := List.mem_flatMap.mp hv
    obtain ⟨i, hi⟩ := List.mem_iff_getElem?.mp hrs
    obtain ⟨j, hj⟩ := List.mem_iff_getElem?.mp hs
    rw [h.selector_owner i rs hi j s hj v hv]
    exact ⟨rs, s, hi, hj⟩

theorem rule_eq_ok_iff {sheet : Stylesheet} {id : RuleId} {r : Rule} :
    sheet.rule id = .ok r ↔ sheet.rules[id.index]? = some r := by
  unfold rule
  cases sheet.rules[id.index]? with
  | none => simp
  | some r' => simp

theorem ruleset_eq_ok_iff {sheet : Stylesheet} {id : RulesetId} {rs : Ruleset} :
    sheet.ruleset id = .ok rs ↔ sheet.rulesets[id.index]? = some rs := by
  unfold ruleset
  cases sheet.rulesets[id.index]? with
  | none => simp
  | some rs' => simp

/-- The ruleset of a handle that points into the stylesheet. -/
theorem exists_ruleset {sheet : Stylesheet} {id : RulesetId}
    (h : id.index < sheet.rulesets.length) : ∃ rs, sheet.ruleset id = .ok rs :=
  ⟨_, ruleset_eq_ok_iff.mpr (List.getElem?_eq_getElem h)⟩

/-- **The way outwards ends**: it goes to earlier rulesets only, so it is no
longer than the number of the ruleset it starts from. -/
theorem Linked.exists_nearestWithin {sheet : Stylesheet} (h : sheet.Linked) {n : ℕ}
    {id : RulesetId} (hn : id.index < n) (hid : id.index < sheet.rulesets.length) :
    ∃ s, sheet.nearestWithin n id = .ok s := by
  induction n generalizing id with
  | zero => exact absurd hn (Nat.not_lt_zero _)
  | succ n ih =>
    obtain ⟨rs, hrs⟩ := exists_ruleset hid
    rw [nearestWithin, hrs, Fault.ok_bind]
    cases hvoice : rs.voice? with
    | some s => exact ⟨_, rfl⟩
    | none =>
      cases hparent : rs.parent with
      | none => exact ⟨_, rfl⟩
      | some outer =>
        have houter : outer.index < id.index :=
          h.ruleset_parent id.index rs (ruleset_eq_ok_iff.mp hrs) outer hparent
        exact ih (by omega) (by omega)

/-- **Looking for the nearest selector ends**, and meets no stale handle. -/
theorem Linked.exists_nearestSelector {sheet : Stylesheet} (h : sheet.Linked) {id : RulesetId}
    (hid : id.index < sheet.rulesets.length) : ∃ s, sheet.nearestSelector id = .ok s :=
  h.exists_nearestWithin (by omega) hid

/-- **How strongly a declaration speaks is always found out.** -/
theorem Linked.exists_declarationRank {sheet : Stylesheet} (h : sheet.Linked) {id : RuleId}
    {r : Rule} (hr : sheet.rules[id.index]? = some r) : ∃ s, sheet.declarationRank id = .ok s := by
  unfold declarationRank
  rw [rule_eq_ok_iff.mpr hr, Fault.ok_bind]
  cases hparent : r.parent with
  | none => exact ⟨_, rfl⟩
  | some parent =>
    have hlt := h.rule_parent r (List.mem_of_getElem? hr) parent hparent
    obtain ⟨found, hfound⟩ := h.exists_nearestSelector hlt
    obtain ⟨rs, hrs⟩ := exists_ruleset hlt
    dsimp only
    rw [hfound, Fault.ok_bind]
    cases found with
    | none => exact ⟨_, rfl⟩
    | some found =>
      dsimp only
      split
      · exact ⟨_, rfl⟩
      · rw [hrs, Fault.ok_bind]
        cases rs.selectors.head? with
        | none => exact ⟨_, rfl⟩
        | some own => exact ⟨_, rfl⟩

/-- How strongly the value of a rule speaks is always found out. -/
theorem Linked.exists_ruleRank {sheet : Stylesheet} (h : sheet.Linked) {id : RuleId}
    (hid : id.index < sheet.rules.length) : ∃ s, sheet.ruleRank id = .ok s := by
  have hr : sheet.rules[id.index]? = some sheet.rules[id.index] := List.getElem?_eq_getElem hid
  unfold ruleRank
  rw [rule_eq_ok_iff.mpr hr, Fault.ok_bind]
  cases hparent : sheet.rules[id.index].parent with
  | none => exact ⟨_, rfl⟩
  | some parent =>
    have hlt := h.rule_parent _ (List.mem_of_getElem? hr) parent hparent
    obtain ⟨found, hfound⟩ := h.exists_nearestSelector hlt
    obtain ⟨rs, hrs⟩ := exists_ruleset hlt
    dsimp only
    rw [hrs, Fault.ok_bind]
    cases rs.selectors.head? with
    | none => exact ⟨_, rfl⟩
    | some own =>
      dsimp only
      rw [hfound]
      exact ⟨_, rfl⟩

/-- **How strongly a reference speaks is always found out**, if its owner is
known. -/
theorem Linked.exists_referenceRank {sheet : Stylesheet} (h : sheet.Linked) {v : Variable}
    (hv : sheet.Knows v.owner) : ∃ s, sheet.referenceRank v = .ok s := by
  unfold referenceRank
  cases howner : v.owner with
  | none => exact ⟨_, rfl⟩
  | some owner =>
    rw [howner] at hv
    cases owner with
    | rule id => exact h.exists_ruleRank hv
    | selector ref =>
      obtain ⟨rs, s, hrs, hs⟩ := hv
      show ∃ t, (sheet.selector ref >>= fun s => pure s.specificity) = .ok t
      rw [selector, ruleset_eq_ok_iff.mpr hrs, Fault.ok_bind, hs]
      exact ⟨_, rfl⟩

/-! ## Stylesheets from lists -/

/-- What can be added to a stylesheet, and the ruleset that it is added in. -/
inductive Addition where
  | ruleset (selectors : List Selector) (parent : Option RulesetId)
  | rule (r : Rule) (parent : Option RulesetId)

namespace Addition

/-- A stylesheet and its cells after an addition. -/
def perform (b : Stylesheet × Memos) : Addition → Stylesheet × Memos
  | .ruleset selectors parent =>
    let ((_, sheet), memos) := (b.1.addRuleset selectors parent).run b.2
    (sheet, memos)
  | .rule r parent =>
    let ((_, sheet), memos) := (b.1.addRule r parent).run b.2
    (sheet, memos)

/-- Whether each addition is made at the top level or in a ruleset that is there
by then, where there are so many to begin with. -/
def fit : ℕ → List Addition → Bool
  | _, [] => true
  | n, .ruleset _ parent :: as => parent.all (·.index < n) && fit (n + 1) as
  | n, .rule _ parent :: as => parent.all (·.index < n) && fit n as

end Addition

/-- **The stylesheet of a list of additions**, and its cells. -/
def ofAdditions (as : List Addition) : Stylesheet × Memos := as.foldl Addition.perform ({}, .empty)

/-- Fitting additions to what is built give something built. -/
theorem Built.foldl_perform {b : Stylesheet × Memos} (h : b.1.Built b.2) {as : List Addition}
    (hfit : Addition.fit b.1.rulesets.length as) :
    (as.foldl Addition.perform b).1.Built (as.foldl Addition.perform b).2 := by
  induction as generalizing b with
  | nil => exact h
  | cons a as ih =>
    cases a with
    | ruleset selectors parent =>
      obtain ⟨hparent, hrest⟩ := Bool.and_eq_true_iff.mp hfit
      refine ih (h.addRuleset selectors parent ?_) ?_
      · simpa [Option.all_eq_true] using hparent
      · rw [Addition.perform, run_addRuleset, List.length_append]
        exact hrest
    | rule r parent =>
      obtain ⟨hparent, hrest⟩ := Bool.and_eq_true_iff.mp hfit
      refine ih (h.addRule r parent ?_) ?_
      · simpa [Option.all_eq_true] using hparent
      · rw [Addition.perform, run_addRule, length_listRule]
        exact hrest

/-- **Fitting additions build a stylesheet.** -/
theorem built_ofAdditions {as : List Addition} (h : Addition.fit 0 as) :
    (ofAdditions as).1.Built (ofAdditions as).2 :=
  (Built.empty .empty).foldl_perform h

/-! ## A stylesheet with a circle -/

/-- A reference as it is written. -/
def refer (name : String) : Variable := { name, location := ⟨none, 0⟩ }

/-- A declaration by a single node, as it is written. -/
def declaring (name : String) (isVariable : Bool) (n : Node) : Rule where
  name := name
  instanceName := Rule.defaultInstance
  value := ⟨[n]⟩
  location := ⟨none, 0⟩
  isVariable := isVariable
  symbolizer := none

/-- The selector `#lake[@c = wide]`. -/
def lakes : Selector where
  elements := ["#lake"]
  filters := [⟨.variable (refer "@c"), .equal, .keyword "wide", ⟨none, 0⟩⟩]
  index := 0

/-- The stylesheet `@a: @b; #lake[@c = wide] { @b: @a; line-cap: @c; } @c: wide;` and its
cells, built step by step. -/
def circleAndCells : Stylesheet × Memos :=
  let first := (({} : Stylesheet).addRule (declaring "@a" true (.variable (refer "@b"))) none).run
    .empty
  let lake := (first.1.2.addRuleset [lakes] none).run first.2
  let second := (lake.1.2.addRule (declaring "@b" true (.variable (refer "@a"))) (some ⟨0⟩)).run
    lake.2
  let property :=
    (second.1.2.addRule (declaring "line-cap" false (.variable (refer "@c"))) (some ⟨0⟩)).run
      second.2
  let last := (property.1.2.addRule (declaring "@c" true (.keyword "wide")) none).run property.2
  (last.1.2, last.2)

/-- **A stylesheet with a circle**: two variables are defined in terms of each
other, a property and a filter by a third. -/
def circle : Stylesheet := circleAndCells.1

theorem built_circle : circle.Built circleAndCells.2 := by
  have hfirst := (Built.empty .empty).addRule (declaring "@a" true (.variable (refer "@b"))) none
    (by simp)
  have hlake := hfirst.addRuleset [lakes] none (by simp)
  have hsecond := hlake.addRule (declaring "@b" true (.variable (refer "@a"))) (some ⟨0⟩)
    (by rintro p ⟨⟩; decide)
  have hproperty := hsecond.addRule (declaring "line-cap" false (.variable (refer "@c")))
    (some ⟨0⟩) (by rintro p ⟨⟩; decide)
  exact hproperty.addRule (declaring "@c" true (.keyword "wide")) none (by simp)

/-- Nothing is remembered of the references yet. -/
theorem get?_circle : ∀ v ∈ circle.references, circleAndCells.2.get? v.cell = none := by
  have hcells : circleAndCells.2.cells = #[none, none, none, none] := rfl
  intro v hv
  have hcell : v.cell = some 0 ∨ v.cell = some 1 ∨ v.cell = some 2 ∨ v.cell = some 3 := by
    revert v
    decide
  rcases hcell with h | h | h | h <;> simp [Memos.get?, hcells, h]

end Stylesheet

end MapStyle
