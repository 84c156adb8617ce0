import MapStyle.FontSet
import Mathlib.Data.List.Forall2

/-!
# The font sets that are registered

The name of a font set is written as soon as its stack is registered, and the set itself only
at the end. So a name is good for something only if the set stays where it is and its stack
goes on leading there, whatever is registered later.

A call finds the set of its key or puts a new one behind the others
(`FontSets.register_cases`). What else is known of the font sets between two calls is one
invariant (`FontSets.Records`): each set is named for its position, and has the faces of the
first stack with its key. A call keeps it, and so does a run of calls, in which no set that was
there is moved (`FontSets.Records.registerAll`, `FontSets.registerAll_keeps`).

The registry itself gives a set only if its table leads to one. From a new registry it always
does: a run goes as it goes with font sets, whose tables are in step (`FontSets.registerAll?_eq`).
So the names stay valid (`FontRegistry.names_stay_valid`). Stacks with the same key are one stack
to the registry, and nothing here depends on keys telling stacks apart.
-/

namespace MapStyle

namespace FontSets

variable {r : FontSets} {past : List (List String)} {s : FontSet}

/-! ## A call -/

/-- **How a stack is registered**: the set of its key is found, or there is none and it is
added at the end. -/
theorem register_cases (r : FontSets) (faces : List String) :
    (∃ s ∈ r.sets, s.key = FontSet.keyOf faces ∧ r.register faces = (s, r)) ∨
      (∀ s ∈ r.sets, s.key ≠ FontSet.keyOf faces) ∧
        (r.register faces).1 = ⟨FontSet.nameAt r.sets.length, faces⟩ ∧
        (r.register faces).2.sets = r.sets ++ [⟨FontSet.nameAt r.sets.length, faces⟩] := by
  rcases r.inStep.register?_cases faces with ⟨i, s, hs, hkey, hregister⟩ | ⟨hnew, hregister⟩
  · rw [r.register?_eq faces] at hregister
    obtain ⟨hset, hrest⟩ := Prod.mk.inj (Option.some.inj hregister)
    exact Or.inl ⟨s, List.mem_of_getElem? hs, hkey, Prod.ext hset (FontSets.ext hrest)⟩
  · rw [r.register?_eq faces] at hregister
    obtain ⟨hset, hrest⟩ := Prod.mk.inj (Option.some.inj hregister)
    exact Or.inr ⟨hnew, hset, congrArg FontRegistry.sets hrest⟩

/-- **What a call leaves**: the sets that were there, or these and one of the stack's faces
behind them. -/
theorem register_keeps (r : FontSets) (faces : List String) :
    (r.register faces).2 = r ∨
      (r.register faces).2.sets = r.sets ++ [(r.register faces).1] ∧
        (r.register faces).1.faces = faces := by
  rcases r.register_cases faces with ⟨s, -, -, hregister⟩ | ⟨-, hset, hsets⟩
  · exact Or.inl (congrArg Prod.snd hregister)
  · rw [← hset] at hsets
    exact Or.inr ⟨hsets, congrArg FontSet.faces hset⟩

/-- **The set of a stack is among the sets** after it was registered. -/
theorem register_mem (r : FontSets) (faces : List String) :
    (r.register faces).1 ∈ (r.register faces).2.sets ∧
      (r.register faces).1.key = FontSet.keyOf faces := by
  rcases r.register_cases faces with ⟨s, hs, hkey, hregister⟩ | ⟨-, hset, hsets⟩
  · rw [hregister]
    exact ⟨hs, hkey⟩
  · rw [hset, hsets]
    exact ⟨List.mem_append_right _ (List.mem_singleton_self _), rfl⟩

/-- **Font sets that have recorded some stacks.** -/
structure Records (r : FontSets) (stackList : List (List String)) : Prop where
  /-- The sets are named for their positions. -/
  name_eq : ∀ i s, r.sets[i]? = some s → s.name = FontSet.nameAt i
  /-- Each set has the faces of the first stack with its key. -/
  first : ∀ s ∈ r.sets, stackList.find? (FontSet.keyOf · = s.key) = some s.faces
  /-- Each stack has a set. -/
  complete : ∀ faces ∈ stackList, ∃ s ∈ r.sets, s.key = FontSet.keyOf faces

/-- At first nothing is recorded. -/
theorem records_nil : Records {} [] where
  name_eq _ _ h := absurd (List.mem_of_getElem? h) List.not_mem_nil
  first _ h := absurd h List.not_mem_nil
  complete _ h := absurd h List.not_mem_nil

namespace Records

/-- A stack whose key is there is recorded without a new set. -/
theorem known (h : r.Records past) {faces : List String} (hs : s ∈ r.sets)
    (hkey : s.key = FontSet.keyOf faces) : r.Records (past ++ [faces]) where
  name_eq := h.name_eq
  first t ht := by rw [List.find?_append, h.first t ht, Option.some_or]
  complete faces' hfaces' := by
    rcases List.mem_append.mp hfaces' with hfaces' | hfaces'
    · exact h.complete faces' hfaces'
    · rw [List.mem_singleton.mp hfaces']
      exact ⟨s, hs, hkey⟩

/-- A stack whose key is not there is recorded with a set of its own. -/
theorem new (h : r.Records past) {faces : List String}
    (hnew : ∀ s ∈ r.sets, s.key ≠ FontSet.keyOf faces) {r' : FontSets}
    (hsets : r'.sets = r.sets ++ [⟨FontSet.nameAt r.sets.length, faces⟩]) :
    r'.Records (past ++ [faces]) where
  name_eq i s hs := by
    rw [hsets] at hs
    rcases getElem?_concat_eq_some hs with hs | ⟨rfl, rfl⟩
    · exact h.name_eq i s hs
    · rfl
  first s hs := by
    rw [hsets] at hs
    rw [List.find?_append]
    rcases List.mem_append.mp hs with hs | hs
    · rw [h.first s hs, Option.some_or]
    · -- none of the stacks before has this key, as its set would be there
      have hpast : past.find? (FontSet.keyOf · = s.key) = none := by
        refine List.find?_eq_none.mpr fun faces' hfaces' hkey => ?_
        obtain ⟨t, ht, htkey⟩ := h.complete faces' hfaces'
        refine hnew t ht ?_
        rw [htkey, of_decide_eq_true hkey, List.mem_singleton.mp hs]
        rfl
      rw [hpast, Option.none_or, List.mem_singleton.mp hs]
      exact List.find?_cons_of_pos (decide_eq_true rfl)
  complete faces' hfaces' := by
    rw [hsets]
    rcases List.mem_append.mp hfaces' with hfaces' | hfaces'
    · obtain ⟨s, hs, hkey⟩ := h.complete faces' hfaces'
      exact ⟨s, List.mem_append_left _ hs, hkey⟩
    · rw [List.mem_singleton.mp hfaces']
      exact ⟨_, List.mem_append_right _ (List.mem_singleton_self _), rfl⟩

/-- **One stack more** is recorded by a call. -/
theorem register (h : r.Records past) (faces : List String) :
    (r.register faces).2.Records (past ++ [faces]) := by
  rcases r.register_cases faces with ⟨s, hs, hkey, hregister⟩ | ⟨hnew, -, hsets⟩
  · rw [hregister]
    exact h.known hs hkey
  · exact h.new hnew hsets

end Records

/-! ## A run -/

/-- **Stacks registered one after the other**: the sets that are returned, and the font sets
afterwards. -/
def registerAll (r : FontSets) : List (List String) → List FontSet × FontSets
  | [] => ([], r)
  | faces :: stackList =>
    let (s, r) := r.register faces
    let (sets, r) := r.registerAll stackList
    (s :: sets, r)

/-- **What a run records**: all its stacks. -/
theorem Records.registerAll (h : r.Records past) (stackList : List (List String)) :
    (r.registerAll stackList).2.Records (past ++ stackList) := by
  induction stackList generalizing r past with
  | nil => exact (List.append_nil past).symm ▸ h
  | cons faces stackList ih =>
    have hrecords := ih (h.register faces)
    rwa [List.append_assoc] at hrecords

/-- **What a run leaves**: the sets that were there at their places, and among all sets the one
of each stack's key, which is the one that was returned. -/
theorem registerAll_keeps (r : FontSets) (stackList : List (List String)) :
    r.sets <+: (r.registerAll stackList).2.sets ∧
      List.Forall₂ (fun faces s => s ∈ (r.registerAll stackList).2.sets ∧
        s.key = FontSet.keyOf faces) stackList (r.registerAll stackList).1 := by
  induction stackList generalizing r with
  | nil => exact ⟨List.prefix_rfl, List.Forall₂.nil⟩
  | cons faces stackList ih =>
    obtain ⟨hplaces, hsets⟩ := ih (r.register faces).2
    obtain ⟨hmem, hkey⟩ := r.register_mem faces
    refine ⟨List.IsPrefix.trans ?_ hplaces, List.Forall₂.cons ⟨hplaces.subset hmem, hkey⟩ hsets⟩
    rcases r.register_keeps faces with hsame | ⟨hconcat, -⟩
    · exact hsame.symm ▸ List.prefix_rfl
    · exact hconcat.symm ▸ List.prefix_append _ _

end FontSets

/-! ## The registry -/

namespace FontRegistry

/-- **Stacks registered one after the other**, if each gets a set. -/
def registerAll? (r : FontRegistry) : List (List String) → Option (List FontSet × FontRegistry)
  | [] => some ([], r)
  | faces :: stackList => do
    let (s, r) ← r.register? faces
    let (sets, r) ← r.registerAll? stackList
    return (s :: sets, r)

/-- **A key that is there leads to its set**, and nothing is registered. -/
theorem InStep.register?_of_mem {r : FontRegistry} (h : r.InStep) {s : FontSet} (hs : s ∈ r.sets)
    {faces : List String} (hkey : s.key = FontSet.keyOf faces) :
    r.register? faces = some (s, r) := by
  obtain ⟨i, hi⟩ := List.mem_iff_getElem?.mp hs
  have hfind : Named.find? (FontSet.keyOf faces) r.positions = some i :=
    hkey ▸ h.find?_key i s hi
  unfold register?
  rw [hfind]
  exact congrArg (Option.map (·, r)) hi

end FontRegistry

/-- **If the table is in step, every stack of a run gets a set**, and the run goes as it goes
with font sets. -/
theorem FontSets.registerAll?_eq (r : FontSets) (stackList : List (List String)) :
    r.toFontRegistry.registerAll? stackList
      = some ((r.registerAll stackList).1, (r.registerAll stackList).2.toFontRegistry) := by
  induction stackList generalizing r with
  | nil => rfl
  | cons faces stackList ih =>
    simp only [FontRegistry.registerAll?, r.register?_eq faces, Option.bind_eq_bind,
      Option.bind_some, ih]
    rfl

/-- **Names of font sets stay valid**. Whatever stacks are registered one after the other, all
of them get a set. Afterwards the set at a position has the name of the position, and the table
has the position of each set under its key and nothing else, so that a look-up never leads
where no set is. Whatever is registered next gets a set of its key as well. The registry stays
as it is or has this set more, with the faces of the stack, behind all others; it stays as it is
for a stack that was registered before, which gets the set that it got then. So the sets that are
there stay at their places however many stacks are registered later. -/
theorem FontRegistry.names_stay_valid (stackList : List (List String)) :
    ∃ sets r, FontRegistry.registerAll? {} stackList = some (sets, r) ∧
      sets.length = stackList.length ∧
      (∀ i s, r.sets[i]? = some s → s.name = "fontset-" ++ toString i ∧
        Named.find? ("\x1f".intercalate s.faces) r.positions = some i) ∧
      (∀ key i, (key, i) ∈ r.positions → i < r.sets.length ∧
        ∃ s, r.sets[i]? = some s ∧ "\x1f".intercalate s.faces = key) ∧
      (∀ faces, ∃ s r', r.register? faces = some (s, r') ∧
        s ∈ r'.sets ∧ "\x1f".intercalate s.faces = "\x1f".intercalate faces ∧
        (r' = r ∨ r'.sets = r.sets ++ [s] ∧ s.faces = faces) ∧
        ∀ s₀, (faces, s₀) ∈ stackList.zip sets → s = s₀ ∧ r' = r) ∧
      ∀ later, ∃ sets' r', r.registerAll? later = some (sets', r') ∧ r.sets <+: r'.sets := by
  have hrecords := FontSets.records_nil.registerAll stackList
  obtain ⟨-, hsets⟩ := FontSets.registerAll_keeps {} stackList
  have hrun := FontSets.registerAll?_eq {} stackList
  generalize FontSets.registerAll {} stackList = run at hrecords hsets hrun
  obtain ⟨sets, r⟩ := run
  refine ⟨sets, r.toFontRegistry, hrun, hsets.length_eq.symm,
    fun i s hs => ⟨hrecords.name_eq i s hs, r.inStep.find?_key i s hs⟩, fun key i hp => ?_,
    fun faces => ?_, fun later => ⟨_, _, r.registerAll?_eq later, (r.registerAll_keeps later).1⟩⟩
  · obtain ⟨s, hs, hkey⟩ := r.inStep.exists_set (key, i) hp
    exact ⟨(List.getElem?_eq_some_iff.mp hs).1, s, hs, hkey⟩
  · obtain ⟨hmem, hkey⟩ := r.register_mem faces
    refine ⟨_, _, r.register?_eq faces, hmem, hkey,
      (r.register_keeps faces).imp_left (congrArg FontSets.toFontRegistry), fun s₀ hs₀ => ?_⟩
    obtain ⟨hmem₀, hkey₀⟩ := (List.forall₂_iff_zip.mp hsets).2 hs₀
    have hagain := (r.register?_eq faces).symm.trans (r.inStep.register?_of_mem hmem₀ hkey₀)
    exact Prod.mk.inj (Option.some.inj hagain)

/-- The third stack is the first again and the fourth looks like it, so there are three sets.
The second stack still has its set at the end. -/
theorem FontRegistry.three_names_stay_valid :
    ∃ sets r, FontRegistry.registerAll? {} [["A", "B"], ["C"], ["A", "B"], ["A\x1fB"], ["D"]]
        = some (sets, r) ∧
      sets.map FontSet.name = ["fontset-0", "fontset-1", "fontset-0", "fontset-0", "fontset-2"] ∧
      r.sets = [⟨"fontset-0", ["A", "B"]⟩, ⟨"fontset-1", ["C"]⟩, ⟨"fontset-2", ["D"]⟩] ∧
      r.positions = [("A\x1fB", 0), ("C", 1), ("D", 2)] ∧
      r.register? ["C"] = some (⟨"fontset-1", ["C"]⟩, r) := by
  obtain ⟨sets, r, hrun, -, -, -, hnext, -⟩ :=
    names_stay_valid [["A", "B"], ["C"], ["A", "B"], ["A\x1fB"], ["D"]]
  have hresult : FontRegistry.registerAll? {} [["A", "B"], ["C"], ["A", "B"], ["A\x1fB"], ["D"]]
      = some ([⟨"fontset-0", ["A", "B"]⟩, ⟨"fontset-1", ["C"]⟩, ⟨"fontset-0", ["A", "B"]⟩,
          ⟨"fontset-0", ["A", "B"]⟩, ⟨"fontset-2", ["D"]⟩],
        ⟨[⟨"fontset-0", ["A", "B"]⟩, ⟨"fontset-1", ["C"]⟩, ⟨"fontset-2", ["D"]⟩],
          [("A\x1fB", 0), ("C", 1), ("D", 2)]⟩) := by decide
  obtain ⟨rfl, rfl⟩ := Prod.mk.inj (Option.some.inj (hrun.symm.trans hresult))
  obtain ⟨s, r', hregister, -, -, -, hagain⟩ := hnext ["C"]
  obtain ⟨rfl, rfl⟩ := hagain ⟨"fontset-1", ["C"]⟩ (by decide)
  exact ⟨_, _, hrun, rfl, rfl, rfl, hregister⟩

end MapStyle
