import Mathlib.Data.List.Basic
import Mathlib.Tactic.SplitIfs

/-!
# Which comes first

Of the members of a list the one comes first that occurs first. That does not change when
others are left out, when repetitions are, or when two neighbours change places, unless it
is those two that are asked about. Nor does it matter in which order members and repetitions
are left out.
-/

namespace MapStyle

variable {α : Type} [DecidableEq α] {a b : α}

/-- Leaving out others does not change which of two comes first. -/
theorem idxOf_filter_lt_iff {p : α → Bool} (ha : p a = true) (hb : p b = true)
    (as : List α) :
    (as.filter p).idxOf a < (as.filter p).idxOf b ↔ as.idxOf a < as.idxOf b := by
  induction as with
  | nil => rfl
  | cons c as ih =>
    by_cases hc : p c = true
    · rw [List.filter_cons_of_pos hc, List.idxOf_cons, List.idxOf_cons, List.idxOf_cons,
        List.idxOf_cons]
      cases hca : c == a <;> cases hcb : c == b <;> simp [ih]
    · have hca : c ≠ a := fun h => hc (h ▸ ha)
      have hcb : c ≠ b := fun h => hc (h ▸ hb)
      rw [List.filter_cons_of_neg hc, ih, List.idxOf_cons_ne _ hca, List.idxOf_cons_ne _ hcb]
      omega

/-- **It does not matter what is left out first**, some members or all repetitions. -/
theorem filter_eraseDups (p : α → Bool) (as : List α) :
    as.eraseDups.filter p = (as.filter p).eraseDups := by
  cases as with
  | nil => rfl
  | cons a as =>
    rw [List.eraseDups_cons]
    by_cases ha : p a = true
    · rw [List.filter_cons_of_pos ha, List.filter_cons_of_pos ha, List.eraseDups_cons,
        filter_eraseDups p, List.filter_filter, List.filter_filter]
      simp only [Bool.and_comm]
    · rw [List.filter_cons_of_neg ha, List.filter_cons_of_neg ha, filter_eraseDups p,
        List.filter_filter]
      refine congrArg _ (List.filter_congr fun b _ => ?_)
      by_cases hb : b = a
      · simp [hb, ha]
      · simp [hb]
termination_by as.length
decreasing_by
  all_goals
    have := List.length_filter_le (fun d => !d == a) as
    rw [List.length_cons]
    omega

/-- Leaving out repetitions does not change which of two comes first. -/
theorem idxOf_eraseDups_lt_iff (as : List α) :
    as.eraseDups.idxOf a < as.eraseDups.idxOf b ↔ as.idxOf a < as.idxOf b := by
  cases as with
  | nil => rfl
  | cons c as =>
    rw [List.eraseDups_cons]
    by_cases hca : c = a
    · subst hca
      by_cases hcb : c = b
      · simp [hcb]
      · simp [List.idxOf_cons_ne _ hcb]
    · by_cases hcb : c = b
      · simp [hcb]
      · have hothers := idxOf_filter_lt_iff (p := fun d => !d == c)
          (by simpa using Ne.symm hca) (by simpa using Ne.symm hcb) as
        rw [List.idxOf_cons_ne _ hca, List.idxOf_cons_ne _ hcb, List.idxOf_cons_ne _ hca,
          List.idxOf_cons_ne _ hcb, Nat.succ_lt_succ_iff, Nat.succ_lt_succ_iff,
          idxOf_eraseDups_lt_iff _, hothers]
termination_by as.length
decreasing_by
  have := List.length_filter_le (fun d => !d == c) as
  rw [List.length_cons]
  omega

/-- When two neighbours change places, no other two change their order. -/
theorem idxOf_swap_lt_iff {c d : α} (hcd : ¬(a = c ∧ b = d)) (hdc : ¬(a = d ∧ b = c))
    (front back : List α) :
    (front ++ c :: d :: back).idxOf a < (front ++ c :: d :: back).idxOf b ↔
      (front ++ d :: c :: back).idxOf a < (front ++ d :: c :: back).idxOf b := by
  induction front with
  | nil =>
    simp only [List.nil_append, List.idxOf_cons, beq_iff_eq, cond_eq_ite]
    split_ifs <;> grind
  | cons e front ih =>
    simp only [List.cons_append, List.idxOf_cons, beq_iff_eq, cond_eq_ite]
    split_ifs <;> omega

end MapStyle
