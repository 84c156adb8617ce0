import MapStyle.StyleError

/-!
# Zoom windows

The renderer draws at the zoom levels `0` to `22`, and a style applies at a
set of them: its **window**. A window is a word of 23 bits, one a level, so
the window of all levels is also the greatest number a window can be, and
`Zoom.contains` reads one bit.

A window comes from a mask (`Zoom.ofBits`), from two bounds (`Zoom.range`),
from a condition such as `[zoom >= 5]` (`Zoom.ofCondition?`), or from two
windows (`Zoom.intersect`). A level beyond `22` counts as `22`, both as an
upper bound and in a condition.
-/

namespace MapStyle

/-- The highest zoom level. -/
def maxZoom : Nat := 22

/-- The number of zoom levels. -/
def zoomLevels : Nat := maxZoom + 1

/-- **A zoom window**: the levels at which something applies. -/
structure Zoom where
  /-- Bit `l` says whether the window has level `l`. -/
  mask : BitVec zoomLevels
deriving DecidableEq

namespace Zoom

/-- The window of all levels. -/
def all : Zoom := ⟨BitVec.allOnes zoomLevels⟩

/-- The window of no level. -/
def empty : Zoom := ⟨0⟩

/-- The number whose binary digits are the window. -/
def bits (z : Zoom) : Nat := z.mask.toNat

/-- The window of a mask; the bits beyond the last level are dropped. -/
def ofBits (n : Nat) : Zoom := ⟨BitVec.ofNat zoomLevels n⟩

/-- The mask of the given levels. -/
def maskOf (levels : List Nat) : BitVec zoomLevels :=
  levels.foldl (fun mask l => mask ||| BitVec.twoPow zoomLevels l) 0

/-- The window between two levels, both included. -/
def range (low high : Nat) : Zoom :=
  let high := min high maxZoom
  if high < low then empty else ⟨maskOf (List.range' low (high + 1 - low))⟩

/-- **Whether the window has the level.** -/
def contains (z : Zoom) (level : Nat) : Bool := z.mask.getLsbD level

/-- The levels of both windows. -/
def intersect (z w : Zoom) : Zoom := ⟨z.mask &&& w.mask⟩

/-- Whether the window has every level. -/
def isAll (z : Zoom) : Bool := z = all

/-- Whether the window has no level. -/
def isEmpty (z : Zoom) : Bool := z = empty

/-- The lowest level of the window. -/
def minLevel? (z : Zoom) : Option Nat := (List.range zoomLevels).find? z.contains

/-- The highest level of the window. -/
def maxLevel? (z : Zoom) : Option Nat := (List.range zoomLevels).reverse.find? z.contains

/-- **The window of a condition** on the zoom level. -/
def ofCondition? (operator : String) (bound : Nat) : Except StyleError Zoom :=
  let bound := min bound maxZoom
  match operator with
  | "=" => .ok (range bound bound)
  | ">" => .ok (if bound = maxZoom then empty else range (bound + 1) maxZoom)
  | ">=" => .ok (range bound maxZoom)
  | "<" => .ok (if bound = 0 then empty else range 0 (bound - 1))
  | "<=" => .ok (range 0 bound)
  | _ => .error (.invalidOperator operator)

/-- One character a level: `X` where the window has it, `.` where not. -/
def text (z : Zoom) : String :=
  String.ofList ((List.range zoomLevels).map fun l => if z.contains l then 'X' else '.')

/-! ## Scale denominators -/

/-- The scale denominator at which each level begins; the last entry closes
the last level. -/
def scaleDenominators : List Nat :=
  [1000000000, 500000000, 200000000, 100000000, 50000000, 25000000, 12500000, 6500000,
   3000000, 1500000, 750000, 400000, 200000, 100000, 50000, 25000, 12500, 5000, 2500, 1500,
   750, 500, 250, 100]

/-- A bound on the scale that the renderer is to keep. -/
inductive ScaleBound where
  /-- Draw only below this denominator. -/
  | max (denominator : Nat)
  /-- Draw only from this denominator on. -/
  | min (denominator : Nat)
deriving DecidableEq

/-- The element that states a bound. -/
def ScaleBound.element : ScaleBound → String
  | .max _ => "MaxScaleDenominator"
  | .min _ => "MinScaleDenominator"

/-- The denominator of a bound. -/
def ScaleBound.denominator : ScaleBound → Nat
  | .max d | .min d => d

/-- **The bounds on the scale of a window.** Only its outermost levels show:
a lower bound on the level is an upper bound on the denominator. A window
that reaches an end of the range is not bounded there. -/
def scaleBounds (z : Zoom) : List ScaleBound :=
  match z.minLevel?, z.maxLevel? with
  | some low, some high =>
    (if low > 0 then [.max (scaleDenominators.getD low 0)] else [])
      ++ if high < maxZoom then [.min (scaleDenominators.getD (high + 1) 0)] else []
  | _, _ => []

/-! ## Levels of the constructions -/

/-- A mask has the bits of its levels. -/
theorem getLsbD_maskOf (levels : List Nat) {l : Nat} (hl : l < zoomLevels) :
    (maskOf levels).getLsbD l = true ↔ l ∈ levels := by
  have hfold (mask : BitVec zoomLevels) :
      (levels.foldl (fun mask l => mask ||| BitVec.twoPow zoomLevels l) mask).getLsbD l = true ↔
        mask.getLsbD l = true ∨ l ∈ levels := by
    induction levels generalizing mask with
    | nil => exact (or_iff_left List.not_mem_nil).symm
    | cons k levels ih =>
      rw [List.foldl_cons, ih, BitVec.getLsbD_or, BitVec.getLsbD_twoPow, Bool.or_eq_true,
        Bool.and_eq_true, decide_eq_true_eq, decide_eq_true_eq, or_assoc, List.mem_cons]
      grind
  rw [maskOf, hfold, or_iff_right]
  exact ne_true_of_eq_false BitVec.getLsbD_zero

/-- A window has none of the levels beyond the last. -/
theorem le_maxZoom_of_contains {z : Zoom} {l : Nat} (h : z.contains l = true) : l ≤ maxZoom :=
  Nat.le_of_lt_succ (BitVec.lt_of_getLsbD h)

@[simp] theorem contains_empty (l : Nat) : empty.contains l = false :=
  BitVec.getLsbD_zero

@[simp] theorem contains_all (l : Nat) : all.contains l = decide (l ≤ maxZoom) := by
  rw [contains, all, BitVec.getLsbD_allOnes, decide_eq_decide]
  exact Nat.lt_succ_iff

/-- A range has the levels between its bounds. -/
@[simp] theorem contains_range (low high l : Nat) :
    (range low high).contains l = true ↔ l ≤ maxZoom ∧ low ≤ l ∧ l ≤ high := by
  by_cases hl : l ≤ maxZoom
  · rw [range]
    split
    · rw [contains_empty]
      grind
    · rw [contains, getLsbD_maskOf _ (Nat.lt_succ_of_le hl), List.mem_range'_1]
      omega
  · exact iff_of_false (fun h => hl (le_maxZoom_of_contains h)) fun h => hl h.1

@[simp] theorem contains_intersect (z w : Zoom) (l : Nat) :
    (z.intersect w).contains l = (z.contains l && w.contains l) :=
  BitVec.getLsbD_and

@[simp] theorem contains_ofBits (n l : Nat) :
    (ofBits n).contains l = (decide (l < zoomLevels) && n.testBit l) :=
  BitVec.getLsbD_ofNat ..

/-- Two windows with the same levels are one. -/
theorem ext_contains {z w : Zoom} (h : ∀ l < zoomLevels, z.contains l = w.contains l) : z = w := by
  rcases z with ⟨a⟩
  rcases w with ⟨b⟩
  exact congrArg Zoom.mk (BitVec.eq_of_getLsbD_eq h)

end Zoom

end MapStyle
