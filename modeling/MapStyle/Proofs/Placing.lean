import MapStyle.Stylesheet.Basic
import MapStyle.Proofs.Growth
import Mathlib.Data.List.Nodup

/-!
# Placed references

To place a node, a filter or a selector is to place its references one after
the other, from left to right, and to change nothing else
(`Node.references_place`). So what is true of placed references is shown for
lists of them: their cells are fresh and no two are the same (`Placed`), and
their owner is the one they were placed under.

That each reference has a **cell of its own** (`Housed`) is what lets a full
cell be read as something known of one reference.
-/

namespace MapStyle

/-- **References with cells of their own**: no two have the same cell, and all
cells are numbered from one number up to another. -/
structure Housed (low high : ℕ) (vs : List Variable) : Prop where
  nodup : (vs.map Variable.cell).Nodup
  range : ∀ v ∈ vs, ∃ c, v.cell = some c ∧ low ≤ c ∧ c < high

namespace Housed

theorem nil (low high : ℕ) : Housed low high [] :=
  ⟨List.nodup_nil, fun _ hv => absurd hv List.not_mem_nil⟩

/-- References housed side by side are housed together. -/
theorem append {low mid high : ℕ} {vs ws : List Variable} (hv : Housed low mid vs)
    (hw : Housed mid high ws) (hlow : low ≤ mid) (hhigh : mid ≤ high) :
    Housed low high (vs ++ ws) := by
  refine ⟨?_, fun v h => ?_⟩
  · rw [List.map_append, List.nodup_append]
    refine ⟨hv.nodup, hw.nodup, fun c hc d hd hcd => ?_⟩
    obtain ⟨v, hvs, rfl⟩ := List.mem_map.mp hc
    obtain ⟨w, hws, rfl⟩ := List.mem_map.mp hd
    obtain ⟨c, hvc, -, hc⟩ := hv.range v hvs
    obtain ⟨d, hwd, hd, -⟩ := hw.range w hws
    rw [hvc, hwd] at hcd
    have := Option.some.inj hcd
    omega
  · rcases List.mem_append.mp h with h | h
    · obtain ⟨c, hc, hlc, hcm⟩ := hv.range v h
      exact ⟨c, hc, hlc, by omega⟩
    · obtain ⟨c, hc, hmc, hch⟩ := hw.range v h
      exact ⟨c, hc, by omega, hch⟩

/-- Where references are listed does not matter. -/
theorem perm {low high : ℕ} {vs ws : List Variable} (h : Housed low high vs)
    (hp : vs.Perm ws) : Housed low high ws :=
  ⟨(hp.map _).nodup_iff.mp h.nodup, fun v hv => h.range v (hp.mem_iff.mpr hv)⟩

/-- There may be more cells than are needed. -/
theorem mono {low high high' : ℕ} {vs : List Variable} (h : Housed low high vs)
    (hle : high ≤ high') : Housed low high' vs := by
  refine ⟨h.nodup, fun v hv => ?_⟩
  obtain ⟨c, hc, hlc, hch⟩ := h.range v hv
  exact ⟨c, hc, hlc, by omega⟩

/-- **A cell belongs to one reference.** -/
theorem eq_of_cell_eq {low high : ℕ} {vs : List Variable} (h : Housed low high vs)
    {v w : Variable} (hv : v ∈ vs) (hw : w ∈ vs) (hcell : v.cell = w.cell) : v = w :=
  List.inj_on_of_nodup_map h.nodup hv hw hcell

end Housed

/-- **References that were placed** while one store grew into another: each has
a fresh cell. -/
structure Placed (m : Memos) (vs : List Variable) (m' : Memos) : Prop where
  grown : m ≤ m'
  housed : Housed m.next m'.next vs

namespace Placed

theorem nil (m : Memos) : Placed m [] m := ⟨le_refl m, Housed.nil _ _⟩

/-- References that were placed one after the other. -/
theorem append {m m' m'' : Memos} {vs ws : List Variable} (hv : Placed m vs m')
    (hw : Placed m' ws m'') : Placed m (vs ++ ws) m'' :=
  ⟨hv.grown.trans hw.grown,
    hv.housed.append hw.housed (Memos.next_le hv.grown) (Memos.next_le hw.grown)⟩

end Placed

/-! ## One reference after the other -/

/-- Doing something to the members of a list one after the other, the state
passed on. -/
theorem run_mapM_cons {σ α β : Type} (f : α → StateM σ β) (a : α) (as : List α) (s : σ) :
    ((a :: as).mapM f).run s
      = (((f a).run s).1 :: ((as.mapM f).run ((f a).run s).2).1,
        ((as.mapM f).run ((f a).run s).2).2) := by
  rw [List.mapM_cons]
  rfl

/-- **Placed references have fresh cells, and the owner they were placed under**, if
any. -/
theorem Variable.placed_mapM_place (owner : Option Owner) (vs : List Variable) (m : Memos) :
    Placed m ((vs.mapM (place owner)).run m).1 ((vs.mapM (place owner)).run m).2 ∧
      ∀ v ∈ ((vs.mapM (place owner)).run m).1, ∃ w ∈ vs, v.owner = owner.or w.owner := by
  induction vs generalizing m with
  | nil => exact ⟨Placed.nil m, fun _ hv => absurd hv List.not_mem_nil⟩
  | cons v vs ih =>
    obtain ⟨ih, ihowner⟩ := ih (m.grow (m.get? v.cell))
    have hone : Placed m [{ v with owner := owner.or v.owner, cell := some m.next }]
        (m.grow (m.get? v.cell)) := by
      refine ⟨Memos.le_grow m _, List.nodup_singleton _, fun w hw => ?_⟩
      rw [List.mem_singleton.mp hw]
      exact ⟨m.next, rfl, Nat.le_refl _, by simp⟩
    rw [run_mapM_cons]
    refine ⟨hone.append ih, fun w hw => ?_⟩
    rcases List.mem_cons.mp hw with rfl | hw
    · exact ⟨v, List.mem_cons_self, rfl⟩
    · obtain ⟨u, hu, howner⟩ := ihowner w hw
      exact ⟨u, List.mem_cons_of_mem _ hu, howner⟩

/-- What is done to the members of a list, one after the other, is done to
their references. -/
theorem flatMap_map_mapM {α : Type} {references : α → List Variable} {place : α → StateM Memos α}
    {placeOne : Variable → StateM Memos Variable}
    (h : ∀ a, references <$> place a = (references a).mapM placeOne) (as : List α) :
    List.flatMap references <$> as.mapM place = (as.flatMap references).mapM placeOne := by
  induction as with
  | nil => rfl
  | cons a as ih =>
    rw [List.mapM_cons, List.flatMap_cons, List.mapM_append, ← ih, ← h a]
    simp only [map_bind, bind_map_left, List.flatMap_cons, bind_pure_comp, Functor.map_map]

namespace Node

mutual

/-- **Placing a node is placing its references**, one after the other. -/
theorem references_place (owner : Option Owner) (n : Node) :
    references <$> n.place owner = n.references.mapM (Variable.place owner) := by
  match n with
  | .expression ns | .effectCall _ ns | .value ns =>
    rw [references, ← referencesAll_placeAll owner ns, place]
    simp only [bind_pure_comp, Functor.map_map, references]
  | .filter key _ operand _ =>
    rw [references, List.mapM_append, ← references_place owner key,
      ← references_place owner operand, place]
    simp only [map_bind, bind_pure_comp, bind_map_left, Functor.map_map, references]
  | .url target _ =>
    rw [references, ← references_place owner target, place]
    simp only [bind_pure_comp, Functor.map_map, references]
  | .variable v =>
    rw [references, place, List.mapM_cons]
    simp only [map_bind, map_pure, references, List.mapM_nil, pure_bind]
  | .field _ | .effect _ | .keyword _ | .literal _ | .quoted _ | .dimension _ | .color _
  | .undefined => rfl

/-- Placing nodes is placing their references, one after the other. -/
theorem referencesAll_placeAll (owner : Option Owner) (ns : List Node) :
    referencesAll <$> placeAll owner ns = (referencesAll ns).mapM (Variable.place owner) := by
  match ns with
  | [] => rfl
  | n :: ns =>
    rw [referencesAll, List.mapM_append, ← references_place owner n,
      ← referencesAll_placeAll owner ns, placeAll]
    simp only [map_bind, bind_pure_comp, bind_map_left, Functor.map_map, referencesAll]

end

end Node

/-- Placing a value is placing its references, one after the other. -/
theorem Value.references_place (owner : Option Owner) (v : Value) :
    Value.references <$> v.place owner = v.references.mapM (Variable.place owner) := by
  rw [references, ← Node.referencesAll_placeAll owner v.components, place]
  simp only [bind_pure_comp, Functor.map_map, references]

/-- Placing a filter is placing its references, one after the other. -/
theorem Filter.references_place (owner : Option Owner) (f : Filter) :
    Filter.references <$> f.place owner = f.references.mapM (Variable.place owner) := by
  rw [references, List.mapM_append, ← Node.references_place owner f.key,
    ← Node.references_place owner f.operand, place]
  simp only [map_bind, bind_pure_comp, bind_map_left, Functor.map_map, references]

/-- What a computation returns and leaves, read off one that returns less. -/
theorem run_of_map_eq {σ α β : Type} {f : α → β} {x : StateM σ α} {y : StateM σ β}
    (h : f <$> x = y) (s : σ) : f (x.run s).1 = (y.run s).1 ∧ (x.run s).2 = (y.run s).2 := by
  subst h
  exact ⟨rfl, rfl⟩

/-- **The references of a placed value.** -/
theorem Value.placed_place (owner : Option Owner) (v : Value) (m : Memos) :
    Placed m ((v.place owner).run m).1.references ((v.place owner).run m).2 ∧
      ∀ w ∈ ((v.place owner).run m).1.references,
        ∃ u ∈ v.references, w.owner = owner.or u.owner := by
  obtain ⟨hrefs, hm⟩ := run_of_map_eq (v.references_place owner) m
  rw [hrefs, hm]
  exact Variable.placed_mapM_place owner v.references m

namespace Selector

/-- The references in the filters of a selector. -/
def references (s : Selector) : List Variable := s.filters.flatMap Filter.references

/-- Placing a selector is placing its references, one after the other. -/
theorem references_place (owner : Owner) (s : Selector) :
    references <$> s.place owner = s.references.mapM (Variable.place (some owner)) := by
  rw [references, ← flatMap_map_mapM (Filter.references_place (some owner)), place]
  simp only [bind_pure_comp, Functor.map_map, references]

/-- **The references of a placed selector.** -/
theorem placed_place (owner : Owner) (s : Selector) (m : Memos) :
    Placed m ((s.place owner).run m).1.references ((s.place owner).run m).2 ∧
      ∀ w ∈ ((s.place owner).run m).1.references, w.owner = some owner := by
  obtain ⟨hrefs, hm⟩ := run_of_map_eq (s.references_place owner) m
  rw [hrefs, hm]
  obtain ⟨hplaced, howner⟩ := Variable.placed_mapM_place (some owner) s.references m
  refine ⟨hplaced, fun v hv => ?_⟩
  obtain ⟨w, -, hw⟩ := howner v hv
  exact hw

/-- The selectors of a ruleset placed one after the other, each under its own
handle, the positions counted from a number on. -/
def placeFrom (id : RulesetId) (k : ℕ) (ss : List Selector) : StateM Memos (List Selector) :=
  (ss.zipIdx k).mapM fun (s, position) => s.place (.selector ⟨id, position⟩)

/-- **The references of placed selectors**: each is owned by the selector at its
position. -/
theorem placed_placeFrom (id : RulesetId) (k : ℕ) (ss : List Selector) (m : Memos) :
    Placed m (((placeFrom id k ss).run m).1.flatMap references) ((placeFrom id k ss).run m).2 ∧
      ∀ (j : ℕ) (s : Selector), ((placeFrom id k ss).run m).1[j]? = some s →
        ∀ v ∈ s.references, v.owner = some (.selector ⟨id, k + j⟩) := by
  induction ss generalizing k m with
  | nil =>
    refine ⟨Placed.nil m, fun j s hs => ?_⟩
    rw [show ((placeFrom id k []).run m).1 = [] from rfl, List.getElem?_nil] at hs
    exact absurd hs (Option.some_ne_none s).symm
  | cons s ss ih =>
    obtain ⟨hplaced, howner⟩ := s.placed_place (.selector ⟨id, k⟩) m
    obtain ⟨ihplaced, ihowner⟩ := ih (k + 1) ((s.place (.selector ⟨id, k⟩)).run m).2
    rw [placeFrom, List.zipIdx_cons, run_mapM_cons]
    refine ⟨?_, fun j s' hs' => ?_⟩
    · rw [List.flatMap_cons]
      exact hplaced.append ihplaced
    · cases j with
      | zero =>
        rw [List.getElem?_cons_zero] at hs'
        rw [← Option.some.inj hs']
        exact howner
      | succ j =>
        rw [List.getElem?_cons_succ] at hs'
        rw [show k + (j + 1) = k + 1 + j from by omega]
        exact ihowner j s' hs'

end Selector

end MapStyle
