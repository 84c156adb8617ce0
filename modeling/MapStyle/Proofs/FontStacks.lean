import MapStyle.Proofs.Registration

/-!
# Which stacks share a font set

Of the stacks that are registered one after the other two are given the same name exactly if
their **keys** agree: a set is named for its position, and no key is there twice
(`FontSets.Records.name_eq_iff`).

Whether that tells the stacks apart depends on what the faces say. Where the separator is in
none of them the key can be taken apart again (`FontSet.keyOf_inj`), and different stacks
have different sets (`FontSets.stacks_told_apart`). A face with the separator in it looks
like two, so that different stacks may have one key; the later one is then given the set of
the earlier (`FontSets.separator_conflates`).
-/

namespace MapStyle

/-! ## Keys -/

namespace FontSet

/-- **A stack is plain** if the separator is in none of its faces. -/
def IsPlain (faces : List String) : Prop := ∀ face ∈ faces, '\x1f' ∉ face.toList

instance (faces : List String) : Decidable (IsPlain faces) :=
  inferInstanceAs (Decidable (∀ face ∈ faces, '\x1f' ∉ face.toList))

/-- The characters of a key. -/
theorem toList_keyOf (faces : List String) :
    (keyOf faces).toList = ['\x1f'].intercalate (faces.map String.toList) := by
  rw [keyOf, String.toList_intercalate]
  rfl

/-- **The key of a plain stack falls into its faces** again. -/
theorem splitOn_keyOf {faces : List String} (hplain : IsPlain faces) (hne : faces ≠ []) :
    (keyOf faces).toList.splitOn '\x1f' = faces.map String.toList := by
  rw [toList_keyOf]
  refine List.splitOn_intercalate '\x1f' (fun cs hcs => ?_) (by simpa using hne)
  obtain ⟨face, hface, rfl⟩ := List.mem_map.mp hcs
  exact hplain face hface

/-- **Plain stacks are told apart by their keys**, unless one has no faces at all. -/
theorem keyOf_inj {faces faces' : List String} (hplain : IsPlain faces)
    (hplain' : IsPlain faces') (hne : faces ≠ []) (hne' : faces' ≠ []) :
    keyOf faces = keyOf faces' ↔ faces = faces' := by
  constructor
  · intro h
    have hlists : faces.map String.toList = faces'.map String.toList := by
      rw [← splitOn_keyOf hplain hne, h, splitOn_keyOf hplain' hne']
    exact List.map_injective_iff.mpr (fun _ _ => String.toList_inj.mp) hlists
  · rintro rfl
    rfl

/-- Different positions have different names. -/
theorem nameAt_injective : Function.Injective nameAt := by
  intro i j h
  have hrepr : i.repr = j.repr := (String.append_right_inj _).mp h
  have hdigits : Nat.toDigits 10 i = Nat.toDigits 10 j := by
    rw [← Nat.toList_repr, hrepr, Nat.toList_repr]
  rw [← Nat.ofDigitChars_ten_toDigits (n := i), hdigits, Nat.ofDigitChars_ten_toDigits]

end FontSet

/-! ## A run -/

namespace FontSets

variable {r : FontSets} {stackList : List (List String)} {s t : FontSet}

/-- **Sets are told apart by their names** as by their keys. -/
theorem Records.name_eq_iff (h : r.Records stackList) (hs : s ∈ r.sets) (ht : t ∈ r.sets) :
    s.name = t.name ↔ s.key = t.key := by
  constructor
  · intro hname
    obtain ⟨i, hi⟩ := List.mem_iff_getElem?.mp hs
    obtain ⟨j, hj⟩ := List.mem_iff_getElem?.mp ht
    rw [h.name_eq i s hi, h.name_eq j t hj] at hname
    obtain rfl := FontSet.nameAt_injective hname
    rw [Option.some.inj (hi.symm.trans hj)]
  · intro hkey
    rw [r.inStep.eq_of_key_eq hs ht hkey]

/-- **The sets that stacks are given**, registered with a new registry. -/
def setsOf (stackList : List (List String)) : List FontSet := (registerAll {} stackList).1

/-- **Font stacks are told apart by their keys**. Stacks are registered one after the other,
none of them empty. Two of them are given one name exactly if their keys agree, which for plain
stacks is if they are the same. The set that a stack is given has the faces of the first stack
with its key, and if all stacks are plain, these are its own. -/
theorem stacks_told_apart (stackList : List (List String))
    (hne : ∀ faces ∈ stackList, faces ≠ []) :
    (setsOf stackList).length = stackList.length ∧
      (∀ faces s faces' s', (faces, s) ∈ stackList.zip (setsOf stackList) →
        (faces', s') ∈ stackList.zip (setsOf stackList) →
        (s.name = s'.name ↔ FontSet.keyOf faces = FontSet.keyOf faces') ∧
          (FontSet.IsPlain faces → FontSet.IsPlain faces' →
            (s.name = s'.name ↔ faces = faces'))) ∧
      ∀ faces s, (faces, s) ∈ stackList.zip (setsOf stackList) →
        stackList.find? (FontSet.keyOf · = FontSet.keyOf faces) = some s.faces ∧
          ((∀ faces' ∈ stackList, FontSet.IsPlain faces') → s.faces = faces) := by
  have hrecords : (registerAll {} stackList).2.Records stackList :=
    records_nil.registerAll stackList
  obtain ⟨-, hsets⟩ := registerAll_keeps {} stackList
  have hpair {faces : List String} {s : FontSet}
      (h : (faces, s) ∈ stackList.zip (setsOf stackList)) :
      s ∈ (registerAll {} stackList).2.sets ∧ s.key = FontSet.keyOf faces :=
    (List.forall₂_iff_zip.mp hsets).2 h
  refine ⟨hsets.length_eq.symm, fun faces s faces' s' h h' => ?_, fun faces s h => ?_⟩
  · have hname : s.name = s'.name ↔ FontSet.keyOf faces = FontSet.keyOf faces' := by
      rw [hrecords.name_eq_iff (hpair h).1 (hpair h').1, (hpair h).2, (hpair h').2]
    refine ⟨hname, fun hplain hplain' => hname.trans ?_⟩
    exact FontSet.keyOf_inj hplain hplain' (hne _ (List.of_mem_zip h).1)
      (hne _ (List.of_mem_zip h').1)
  · have hfind : stackList.find? (FontSet.keyOf · = FontSet.keyOf faces) = some s.faces :=
      (hpair h).2 ▸ hrecords.first s (hpair h).1
    have hmem : s.faces ∈ stackList := List.mem_of_find?_eq_some hfind
    refine ⟨hfind, fun hplain => ?_⟩
    exact (FontSet.keyOf_inj (hplain _ hmem) (hplain _ (List.of_mem_zip h).1) (hne _ hmem)
      (hne _ (List.of_mem_zip h).1)).mp (hpair h).2

/-- Two stacks, and the first of them again. -/
def stackAgain : List (List String) :=
  [["DejaVu Sans Book", "Unifont Medium"], ["Noto Sans", "Unifont Medium"],
    ["DejaVu Sans Book", "Unifont Medium"]]

/-- The second stack has a set of its own, the third the set of the first. -/
theorem first_stack_again :
    (∀ faces ∈ stackAgain, faces ≠ []) ∧ (∀ faces ∈ stackAgain, FontSet.IsPlain faces) ∧
      (setsOf stackAgain).length = 3 ∧
      (setsOf stackAgain).map FontSet.name = ["fontset-0", "fontset-1", "fontset-0"] ∧
      ∀ s, (setsOf stackAgain)[2]? = some s → s.faces = ["DejaVu Sans Book", "Unifont Medium"] := by
  have hne : ∀ faces ∈ stackAgain, faces ≠ [] := by decide
  have hplain : ∀ faces ∈ stackAgain, FontSet.IsPlain faces := by decide
  obtain ⟨hlength, -, hfaces⟩ := stacks_told_apart stackAgain hne
  refine ⟨hne, hplain, hlength, by decide, fun s hs => ?_⟩
  have hpair : (stackAgain.zip (setsOf stackAgain))[2]? = some (stackAgain[2], s) :=
    List.getElem?_zip_eq_some.mpr ⟨rfl, hs⟩
  exact (hfaces _ s (List.mem_of_getElem? hpair)).2 hplain

/-- **A separator in a face looks like two faces.** The two stacks differ in the place where
it stands in a face and not between two; they are given one name, and the set of the later has
the faces of the earlier. -/
theorem separator_conflates :
    ["A\x1fB", "C"] ≠ ["A", "B\x1fC"] ∧ setsOf [["A\x1fB", "C"], ["A", "B\x1fC"]]
      = [⟨"fontset-0", ["A\x1fB", "C"]⟩, ⟨"fontset-0", ["A\x1fB", "C"]⟩] := by
  decide

end FontSets

end MapStyle
