import MapStyle.Zoom

/-!
# Specificity

How strongly a place in a stylesheet speaks: first the identifiers its
selector names, then the classes, then its zoom window by its lowest and its
highest level, and last its position in the source. Two places are compared
in this order of the fields, and the later one wins where all else is equal.

A place without a zoom window counts as lowest level `0` and as highest
"level" the number of the window of all levels, which is above every level.
-/

namespace MapStyle

/-- **How strongly a place speaks**; the fields are compared in order. -/
structure Specificity where
  /-- Identifiers in the selector. -/
  ids : Nat
  /-- Classes in the selector. -/
  classes : Nat
  /-- Lowest level of the window. -/
  zoomMin : Nat
  /-- Highest level of the window, or the number of the window of all. -/
  zoomMax : Nat
  /-- Position in the source. -/
  index : Nat
deriving DecidableEq

namespace Specificity

/-- A place outside every selector. -/
def unscoped (index : Nat) : Specificity := ⟨0, 0, 0, Zoom.all.bits, index⟩

/-- The same window and position under another selector. -/
def withWeights (s : Specificity) (ids classes : Nat) : Specificity :=
  { s with ids, classes }

/-- **The lexicographic comparison** of the five fields. -/
def order (s t : Specificity) : Ordering :=
  (compare s.ids t.ids).then <| (compare s.classes t.classes).then <|
    (compare s.zoomMin t.zoomMin).then <| (compare s.zoomMax t.zoomMax).then <|
      compare s.index t.index

instance : Ord Specificity := ⟨order⟩

instance : LE Specificity := ⟨fun s t => s.order t ≠ .gt⟩

instance (s t : Specificity) : Decidable (s ≤ t) :=
  inferInstanceAs (Decidable (s.order t ≠ .gt))

/-- **The order, field by field.** -/
theorem le_iff {s t : Specificity} :
    s ≤ t ↔ s.ids < t.ids ∨ s.ids = t.ids ∧ (s.classes < t.classes ∨ s.classes = t.classes ∧
      (s.zoomMin < t.zoomMin ∨ s.zoomMin = t.zoomMin ∧
        (s.zoomMax < t.zoomMax ∨ s.zoomMax = t.zoomMax ∧ s.index ≤ t.index))) := by
  show s.order t ≠ .gt ↔ _
  have step (a b : Nat) (o : Ordering) :
      (compare a b).then o ≠ .gt ↔ a < b ∨ a = b ∧ o ≠ .gt := by
    rcases Nat.lt_trichotomy a b with h | h | h
    · simp [Nat.compare_eq_lt.mpr h, h]
    · simp [h]
    · simp [Nat.compare_eq_gt.mpr h, Nat.lt_asymm h, Nat.ne_of_gt h]
  rw [order, step, step, step, step, ← Nat.isLE_compare]
  cases compare s.index t.index <;> simp

theorem le_refl (s : Specificity) : s ≤ s := by
  rw [le_iff]
  omega

theorem le_trans {s t u : Specificity} (h : s ≤ t) (k : t ≤ u) : s ≤ u := by
  rw [le_iff] at h k ⊢
  omega

theorem le_total (s t : Specificity) : s ≤ t ∨ t ≤ s := by
  rw [le_iff, le_iff]
  omega

theorem le_antisymm {s t : Specificity} (h : s ≤ t) (k : t ≤ s) : s = t := by
  rw [le_iff] at h k
  rcases s with ⟨a, b, c, d, e⟩
  rcases t with ⟨a', b', c', d', e'⟩
  simp only [mk.injEq] at h k ⊢
  omega

/-- The five fields in brackets. -/
def text (s : Specificity) : String :=
  "[" ++ ", ".intercalate (List.map toString [s.ids, s.classes, s.zoomMin, s.zoomMax, s.index])
    ++ "]"

end Specificity

end MapStyle
