import MapStyle.Named

/-!
# Font sets

A text property given a stack of fonts cannot be written as one attribute.
The stack is registered as a named **font set** instead, and the property
refers to it by name. Stacks are told apart by their **key**, the faces joined
by a control character, and each key is registered once.

The sets are kept in order of registration, beside a table of the positions of
their keys (`FontRegistry`). The set of a key is taken from the position that
the table says, so the table has to be **in step** with the sets. This is part
of what the font sets of a pass are (`FontSets`): there every stack gets a set.
-/

namespace MapStyle

/-- **A named stack of fonts.** -/
structure FontSet where
  name : String
  faces : List String
deriving DecidableEq

namespace FontSet

/-- What stands between the faces in a key. -/
def separator : String := "\x1f"

/-- **What a stack is told apart by.** -/
def keyOf (faces : List String) : String := separator.intercalate faces

/-- The key of a font set. -/
def key (s : FontSet) : String := keyOf s.faces

/-- The name of the font set registered at a position. -/
def nameAt (position : Nat) : String := "fontset-" ++ toString position

/-- The element that declares a font set. Faces are written as they are. -/
def toXml (s : FontSet) : String :=
  let font (face : String) := "  <Font face-name=\"" ++ face ++ "\"/>"
  "<FontSet name=\"" ++ s.name ++ "\">\n" ++ "\n".intercalate (s.faces.map font) ++ "\n</FontSet>"

end FontSet

/-- **The sets that are registered**, in order of registration. -/
structure FontRegistry where
  sets : List FontSet := []
  /-- The position of the set of each key. -/
  positions : List (String × Nat) := []
deriving DecidableEq

namespace FontRegistry

/-- **The set of a stack**, registered if it is new. It cannot be told if the table has a
position for the key where there is no set. -/
def register? (r : FontRegistry) (faces : List String) : Option (FontSet × FontRegistry) :=
  match Named.find? (FontSet.keyOf faces) r.positions with
  | some position => (r.sets[position]?).map (·, r)
  | none =>
    let position := r.sets.length
    let set : FontSet := ⟨FontSet.nameAt position, faces⟩
    some (set, ⟨r.sets ++ [set], Named.set (FontSet.keyOf faces) position r.positions⟩)

/-- **The table is in step with the sets.** -/
structure InStep (r : FontRegistry) : Prop where
  /-- The key of a set leads to its position. -/
  find?_key : ∀ i s, r.sets[i]? = some s → Named.find? s.key r.positions = some i
  /-- The table says nothing else. -/
  exists_set : ∀ p ∈ r.positions, ∃ s, r.sets[p.2]? = some s ∧ s.key = p.1

theorem inStep_empty : InStep {} where
  find?_key i _ h := absurd h (by simp)
  exists_set _ h := absurd h List.not_mem_nil

namespace InStep

variable {r : FontRegistry}

/-- **A key is found exactly where there is a set with it.** -/
theorem find?_eq_some_iff (h : r.InStep) {key : String} {i : Nat} :
    Named.find? key r.positions = some i ↔ ∃ s, r.sets[i]? = some s ∧ s.key = key := by
  constructor
  · intro hfind
    exact h.exists_set (key, i) (Named.mem_of_find? hfind)
  · rintro ⟨s, hs, rfl⟩
    exact h.find?_key i s hs

/-- **No key is there twice.** -/
theorem eq_of_key_eq (h : r.InStep) {s t : FontSet} (hs : s ∈ r.sets) (ht : t ∈ r.sets)
    (hkey : s.key = t.key) : s = t := by
  obtain ⟨i, hi⟩ := List.mem_iff_getElem?.mp hs
  obtain ⟨j, hj⟩ := List.mem_iff_getElem?.mp ht
  have hfind := h.find?_key i s hi
  rw [hkey, h.find?_key j t hj] at hfind
  obtain rfl := Option.some.inj hfind
  exact Option.some.inj (hi.symm.trans hj)

/-- **A stack is registered**: the set of its key is found, or it is the first with its key and
its set comes to the end. -/
theorem register?_cases (h : r.InStep) (faces : List String) :
    (∃ (i : Nat) (s : FontSet), r.sets[i]? = some s ∧ s.key = FontSet.keyOf faces ∧
        r.register? faces = some (s, r)) ∨
      (∀ s ∈ r.sets, s.key ≠ FontSet.keyOf faces) ∧
        r.register? faces = some (⟨FontSet.nameAt r.sets.length, faces⟩,
          ⟨r.sets ++ [⟨FontSet.nameAt r.sets.length, faces⟩],
            Named.set (FontSet.keyOf faces) r.sets.length r.positions⟩) := by
  unfold register?
  cases hfind : Named.find? (FontSet.keyOf faces) r.positions with
  | some i =>
    obtain ⟨s, hs, hkey⟩ := h.find?_eq_some_iff.mp hfind
    exact Or.inl ⟨i, s, hs, hkey, congrArg (Option.map (·, r)) hs⟩
  | none =>
    refine Or.inr ⟨fun s hs hkey => ?_, rfl⟩
    obtain ⟨i, hi⟩ := List.mem_iff_getElem?.mp hs
    rw [← hkey, h.find?_key i s hi] at hfind
    exact nomatch hfind

/-- **With a set more at the end**, the table is in step if the position of its key is set. -/
theorem concat (h : r.InStep) {s : FontSet} (hnew : ∀ t ∈ r.sets, t.key ≠ s.key) :
    InStep ⟨r.sets ++ [s], Named.set s.key r.sets.length r.positions⟩ where
  find?_key i t ht := by
    rcases getElem?_concat_eq_some ht with ht | ⟨rfl, rfl⟩
    · rw [Named.find?_set_of_ne (hnew t (List.mem_of_getElem? ht)).symm]
      exact h.find?_key i t ht
    · exact Named.find?_set_self _ _ _
  exists_set p hp := by
    rcases Named.eq_or_mem_of_mem_set hp with rfl | hp
    · exact ⟨s, List.getElem?_concat_length, rfl⟩
    · obtain ⟨t, ht, hkey⟩ := h.exists_set p hp
      obtain ⟨hlt, -⟩ := List.getElem?_eq_some_iff.mp ht
      exact ⟨t, (List.getElem?_append_left hlt).trans ht, hkey⟩

/-- **Registering keeps the table in step.** -/
theorem of_register? (h : r.InStep) {faces : List String} {out : FontSet × FontRegistry}
    (hout : r.register? faces = some out) : out.2.InStep := by
  rcases h.register?_cases faces with ⟨i, s, -, -, hregister⟩ | ⟨hnew, hregister⟩
  · obtain rfl := Option.some.inj (hregister.symm.trans hout)
    exact h
  · obtain rfl := Option.some.inj (hregister.symm.trans hout)
    exact h.concat hnew

/-- **Every stack gets a set.** -/
theorem isSome_register? (h : r.InStep) (faces : List String) : (r.register? faces).isSome := by
  rcases h.register?_cases faces with ⟨i, s, -, -, hregister⟩ | ⟨-, hregister⟩
  · rw [hregister, Option.isSome_some]
  · rw [hregister, Option.isSome_some]

end InStep

end FontRegistry

/-- **The font sets of a pass**: what is registered, with a table that is in step. -/
structure FontSets extends FontRegistry where
  inStep : toFontRegistry.InStep := by exact FontRegistry.inStep_empty
deriving DecidableEq

namespace FontSets

/-- **The set of a stack**, registered if it is new. -/
def register (r : FontSets) (faces : List String) : FontSet × FontSets :=
  let out := (r.register? faces).get (r.inStep.isSome_register? faces)
  (out.1, ⟨out.2, r.inStep.of_register? (Option.some_get _).symm⟩)

/-- Font sets are the same if the same is registered. -/
theorem ext {r r' : FontSets} (h : r.toFontRegistry = r'.toFontRegistry) : r = r' := by
  cases r
  cases r'
  obtain rfl := h
  rfl

/-- It is the set that the registry gives. -/
theorem register?_eq (r : FontSets) (faces : List String) :
    r.register? faces = some ((r.register faces).1, (r.register faces).2.toFontRegistry) :=
  (Option.some_get _).symm

end FontSets

end MapStyle
