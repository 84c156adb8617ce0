import MapStyle.Zoom
import Mathlib.Order.Bounds.Basic

/-!
# What a window says

A window is made of masks, ranges and conditions, and of windows that hold together. Whatever
it is made of (`Window`), it has exactly the levels that every part admits, and its lowest and
highest level, and whether it is empty or has all levels, are those of this set
(`Window.build_describes`).

The levels end with `22`, and a condition counts a higher bound as that. So `[zoom < 30]` asks
for the levels below `22`, and `[zoom >= 30]` for `22` itself: the bound is brought among the
levels before the operator is looked at.
-/

namespace MapStyle

namespace Zoom

/-! ## The set of levels -/

/-- **The window has exactly these levels**, and what it says about its levels as a whole is true
of them. -/
structure Describes (z : Zoom) (levels : Set Nat) : Prop where
  contains_iff : ∀ l, z.contains l = true ↔ l ∈ levels
  minLevel?_iff : ∀ l, z.minLevel? = some l ↔ IsLeast levels l
  maxLevel?_iff : ∀ l, z.maxLevel? = some l ↔ IsGreatest levels l
  minLevel?_eq_none_iff : z.minLevel? = none ↔ levels = ∅
  maxLevel?_eq_none_iff : z.maxLevel? = none ↔ levels = ∅
  isEmpty_iff : z.isEmpty = true ↔ levels = ∅
  isAll_iff : z.isAll = true ↔ levels = Set.Iic maxZoom

/-- In a list in order, what is found first is in front of everything that could be found. -/
theorem find?_eq_some_iff_of_pairwise {α : Type} {R : α → α → Prop} [Std.Refl R] [Std.Antisymm R]
    {p : α → Bool} {ls : List α} (hls : ls.Pairwise R) {a : α} :
    ls.find? p = some a ↔ (a ∈ ls ∧ p a = true) ∧ ∀ b ∈ ls, p b = true → R a b := by
  have hfirst {a : α} (h : ls.find? p = some a) :
      (a ∈ ls ∧ p a = true) ∧ ∀ b ∈ ls, p b = true → R a b := by
    obtain ⟨ha, before, after, hsplit, hbefore⟩ := List.find?_eq_some_iff_append.mp h
    subst hsplit
    refine ⟨⟨List.mem_append_right _ List.mem_cons_self, ha⟩, fun b hb hpb => ?_⟩
    rcases List.mem_append.mp hb with hb | hb
    · exact absurd hpb (Bool.eq_false_iff.mp (Bool.not_eq_true' _ ▸ hbefore b hb))
    · rcases List.mem_cons.mp hb with rfl | hb
      · exact Std.Refl.refl b
      · exact List.rel_of_pairwise_cons (List.pairwise_append.mp hls).2.1 hb
  refine ⟨hfirst, fun ⟨⟨ha, hpa⟩, hle⟩ => ?_⟩
  obtain ⟨b, hb⟩ := Option.isSome_iff_exists.mp (List.find?_isSome.mpr ⟨a, ha, hpa⟩)
  obtain ⟨⟨hbmem, hpb⟩, hbfirst⟩ := hfirst hb
  rw [hb, Std.Antisymm.antisymm a b (hle b hbmem hpb) (hbfirst a ha hpa)]

variable (z : Zoom)

/-- A search of the levels in some order finds the first level of the window. -/
theorem find?_contains_eq_some_iff {R : Nat → Nat → Prop} [Std.Refl R] [Std.Antisymm R]
    {ls : List Nat} (hls : ls.Pairwise R) (hall : ∀ l, z.contains l = true → l ∈ ls) {l : Nat} :
    ls.find? z.contains = some l ↔
      z.contains l = true ∧ ∀ k, z.contains k = true → R l k := by
  rw [find?_eq_some_iff_of_pairwise hls, and_iff_right_of_imp (hall l)]
  exact and_congr_right fun _ => ⟨fun h k hk => h k (hall k hk) hk, fun h k _ => h k⟩

/-- A search of the levels finds none if the window has none. -/
theorem find?_contains_eq_none_iff {ls : List Nat} (hall : ∀ l, z.contains l = true → l ∈ ls) :
    ls.find? z.contains = none ↔ {l | z.contains l = true} = ∅ := by
  rw [List.find?_eq_none, Set.eq_empty_iff_forall_notMem]
  exact ⟨fun h l hl => h l (hall l hl) hl, fun h l _ => h l⟩

/-- **What a window says about its levels is true of them.** -/
theorem describes_contains : z.Describes {l | z.contains l = true} := by
  have hrange : ∀ l, z.contains l = true → l ∈ List.range zoomLevels := fun l h =>
    List.mem_range.mpr (Nat.lt_succ_of_le (le_maxZoom_of_contains h))
  have hreverse : ∀ l, z.contains l = true → l ∈ (List.range zoomLevels).reverse := fun l h =>
    List.mem_reverse.mpr (hrange l h)
  have hdown : (List.range zoomLevels).reverse.Pairwise (· ≥ ·) :=
    List.pairwise_reverse.mpr List.pairwise_le_range
  have hext (w : Zoom) : z = w ↔ {l | z.contains l = true} = {l | w.contains l = true} := by
    refine ⟨fun h => h ▸ rfl, fun h => ext_contains fun l _ => ?_⟩
    exact Bool.eq_iff_iff.mpr (Set.ext_iff.mp h l)
  exact {
    contains_iff := fun l => Iff.rfl
    minLevel?_iff := fun l => z.find?_contains_eq_some_iff List.pairwise_le_range hrange
    maxLevel?_iff := fun l => z.find?_contains_eq_some_iff hdown hreverse
    minLevel?_eq_none_iff := z.find?_contains_eq_none_iff hrange
    maxLevel?_eq_none_iff := z.find?_contains_eq_none_iff hreverse
    isEmpty_iff := by
      rw [isEmpty, decide_eq_true_eq, hext]
      simp only [contains_empty, Bool.false_eq_true, Set.ofPred_false]
    isAll_iff := by
      rw [isAll, decide_eq_true_eq, hext]
      simp only [contains_all, decide_eq_true_eq]
      rfl }

end Zoom

/-! ## Windows and what they are made of -/

/-- **The operator of a condition** on the zoom level. -/
inductive Zoom.Operator where
  | equal
  | greater
  | atLeast
  | less
  | atMost

namespace Zoom.Operator

/-- The text of an operator in a stylesheet. -/
def text : Operator → String
  | equal => "="
  | greater => ">"
  | atLeast => ">="
  | less => "<"
  | atMost => "<="

/-- What the operator says of a level and a bound. -/
def Holds : Operator → Nat → Nat → Prop
  | equal, l, n => l = n
  | greater, l, n => n < l
  | atLeast, l, n => n ≤ l
  | less, l, n => l < n
  | atMost, l, n => l ≤ n

/-- **A condition has a window**, that of the levels which satisfy it. A bound beyond the last
level counts as the last level. -/
theorem exists_ofCondition? (o : Operator) (n : Nat) : ∃ z, ofCondition? o.text n = .ok z ∧
    ∀ l, z.contains l = true ↔ l ≤ maxZoom ∧ o.Holds l (min n maxZoom) := by
  cases o with
  | equal | atLeast | atMost =>
    refine ⟨_, rfl, fun l => ?_⟩
    rw [contains_range, Holds]
    omega
  | greater | less =>
    -- at one end of the levels there is nothing beyond the bound
    refine ⟨_, rfl, fun l => ?_⟩
    rw [Holds]
    split
    · rw [contains_empty]
      grind
    · rw [contains_range]
      omega

/-- Only the five operators make a condition. -/
theorem exists_ofCondition?_iff {t : String} {n : Nat} :
    (∃ z, ofCondition? t n = .ok z) ↔ ∃ o : Operator, o.text = t := by
  constructor
  · rintro ⟨z, h⟩
    rw [ofCondition?.eq_def] at h
    split at h
    · exact ⟨equal, rfl⟩
    · exact ⟨greater, rfl⟩
    · exact ⟨atLeast, rfl⟩
    · exact ⟨less, rfl⟩
    · exact ⟨atMost, rfl⟩
    · exact nomatch h
  · rintro ⟨o, rfl⟩
    obtain ⟨z, hz, -⟩ := o.exists_ofCondition? n
    exact ⟨z, hz⟩

end Zoom.Operator

/-- **What a window is made of.** -/
inductive Window where
  /-- The levels whose bits are set. -/
  | mask (bits : Nat)
  /-- The levels between two bounds. -/
  | range (low high : Nat)
  /-- The levels that satisfy a condition. -/
  | condition (operator : Zoom.Operator) (bound : Nat)
  /-- The levels of two windows. -/
  | both (w v : Window)

namespace Window

/-- The window that is made. -/
def build : Window → Except StyleError Zoom
  | mask bits => .ok (.ofBits bits)
  | range low high => .ok (.range low high)
  | condition operator bound => Zoom.ofCondition? operator.text bound
  | both w v => return (← w.build).intersect (← v.build)

/-- **The level satisfies every part**, where the bound of a condition counts as what is made of
it. -/
def Admits (counts : Nat → Nat) : Window → Nat → Prop
  | mask bits, l => bits.testBit l = true
  | range low high, l => low ≤ l ∧ l ≤ high
  | condition operator bound, l => operator.Holds l (counts bound)
  | both w v, l => w.Admits counts l ∧ v.Admits counts l

/-- The levels that satisfy every part, where a bound beyond the last level counts as that. -/
def levels (w : Window) : Set Nat := {l | l ≤ maxZoom ∧ w.Admits (min · maxZoom) l}

/-- **A window has the levels that satisfy every part.** -/
theorem exists_build (w : Window) :
    ∃ z, w.build = .ok z ∧ ∀ l, z.contains l = true ↔ l ∈ w.levels := by
  induction w with
  | mask bits =>
    refine ⟨_, rfl, fun l => ?_⟩
    rw [Zoom.contains_ofBits, Bool.and_eq_true, decide_eq_true_eq]
    exact and_congr_left' Nat.lt_succ_iff
  | range low high => exact ⟨_, rfl, Zoom.contains_range low high⟩
  | condition operator bound => exact operator.exists_ofCondition? bound
  | both w v ihw ihv =>
    obtain ⟨z, hz, hzl⟩ := ihw
    obtain ⟨y, hy, hyl⟩ := ihv
    refine ⟨z.intersect y, ?_, fun l => ?_⟩
    · rw [build, hz, hy]
      rfl
    · rw [Zoom.contains_intersect, Bool.and_eq_true, hzl, hyl]
      exact and_and_left.symm

/-- **Windows mean what they say.** Whatever a window is made of, it is made, it has exactly the
levels from `0` to `22` that satisfy every part, and its lowest and highest level and whether it
is empty or has all levels are those of this set. In a condition, a level above `22` counts as
`22`. -/
theorem build_describes (w : Window) : ∃ z, w.build = .ok z ∧ z.Describes w.levels := by
  obtain ⟨z, hz, hlevels⟩ := w.exists_build
  refine ⟨z, hz, ?_⟩
  rw [show w.levels = {l | z.contains l = true} from Set.ext fun l => (hlevels l).symm]
  exact z.describes_contains

/-- **A bound beyond the last level is not taken as written.** Level `22` is below `30`, but the
window of `[zoom < 30]` ends with level `21`. -/
theorem bound_beyond_last_level :
    (condition .less 30).build = .ok (.range 0 21) ∧
      ¬((Zoom.range 0 21).contains 22 = true ↔ (condition .less 30).Admits id 22) := by
  refine ⟨rfl, fun h => ?_⟩
  exact absurd (h.mpr (by decide : 22 < 30)) (by decide)

end Window

end MapStyle
