import MapStyle.Evaluation
import Mathlib.Order.Basic

/-!
# Growth

Cells are only ever added and filled, and diagnostics only ever added, so the
stores, the logs and the progress of an evaluation are each ordered: one is
below another that it can have **grown** into. Everything done on the way of an
evaluation goes up in this order (`Progress.le_report`, `Progress.le_remember`),
and so do the steps that build a stylesheet (`Memos.le_grow`).
-/

namespace MapStyle

namespace Memos

/-- **A store grows**: no cell goes, and what a full cell holds stays. -/
instance : Preorder Memos where
  le m m' := m.next ≤ m'.next ∧ ∀ cell n, m.get? cell = some n → m'.get? cell = some n
  le_refl _ := ⟨Nat.le_refl _, fun _ _ h => h⟩
  le_trans _ _ _ h k :=
    ⟨Nat.le_trans h.1 k.1, fun cell n hn => k.2 cell n (h.2 cell n hn)⟩

/-- No cell goes. -/
theorem next_le {m m' : Memos} (h : m ≤ m') : m.next ≤ m'.next := h.1

/-- Filling a cell adds none. -/
@[simp] theorem next_fill (m : Memos) (cell : Option Nat) (n : Node) :
    (m.fill cell n).next = m.next := by
  cases cell with
  | none => rfl
  | some c =>
    rw [fill]
    split
    · rfl
    · simp [next]

/-- Filling a cell leaves the others alone, also where there is no cell. -/
theorem get?_fill_of_cell_ne {m : Memos} {cell cell' : Option Nat} (h : cell ≠ cell') (n : Node) :
    (m.fill cell n).get? cell' = m.get? cell' := by
  cases cell with
  | none => rfl
  | some c =>
    cases cell' with
    | none => rfl
    | some d => exact get?_fill_of_ne (fun hcd => h (congrArg some hcd)) n

/-- **What a cell holds after a cell was filled**: what it held, or it is the
one that was filled. -/
theorem get?_fill {m : Memos} {cell cell' : Option Nat} {n k : Node}
    (h : (m.fill cell n).get? cell' = some k) :
    m.get? cell' = some k ∨ cell' = cell ∧ k = n := by
  cases cell with
  | none => exact Or.inl h
  | some c =>
    by_cases hfull : (m.get? (some c)).isSome
    · rw [fill, if_pos hfull] at h
      exact Or.inl h
    · cases cell' with
      | none => exact absurd h (by simp)
      | some d =>
        by_cases hcd : c = d
        · subst hcd
          refine Or.inr ⟨rfl, ?_⟩
          by_cases hc : c < m.cells.size
          · rw [get?_fill_self hc (by simpa using hfull)] at h
            exact (Option.some.inj h).symm
          · rw [fill, if_neg hfull] at h
            exact absurd h (by simp [get?, hc])
        · rw [get?_fill_of_ne hcd] at h
          exact Or.inl h

/-- Filling a cell is growth. -/
theorem le_fill (m : Memos) (cell : Option Nat) (n : Node) : m ≤ m.fill cell n := by
  refine ⟨by simp, fun cell' k hk => ?_⟩
  cases cell with
  | none => exact hk
  | some c =>
    cases cell' with
    | none => exact absurd hk (by simp)
    | some d =>
      by_cases hcd : c = d
      · subst hcd
        rw [fill_of_full hk]
        exact hk
      · rw [get?_fill_of_ne hcd]
        exact hk

/-- Adding a cell adds one. -/
@[simp] theorem next_grow (m : Memos) (content : Option Node) :
    (m.grow content).next = m.next + 1 := by
  simp [next, grow]

/-- A full cell is one of the cells of the store. -/
theorem lt_next_of_get? {m : Memos} {c : Nat} {n : Node} (h : m.get? (some c) = some n) :
    c < m.next := by
  by_contra hc
  rw [next] at hc
  exact absurd h (by simp [get?, hc])

/-- Adding a cell is growth. -/
theorem le_grow (m : Memos) (content : Option Node) : m ≤ m.grow content := by
  refine ⟨by simp, fun cell k hk => ?_⟩
  cases cell with
  | none => exact absurd hk (by simp)
  | some c =>
    rw [get?_grow_of_lt (lt_next_of_get? hk)]
    exact hk

end Memos

namespace Log

/-- **A log grows**: what it holds stays in front, and it takes the same
diagnostics. -/
instance : Preorder Log where
  le l l' := l.quiet = l'.quiet ∧ ∃ new, l'.entries = l.entries ++ new
  le_refl _ := ⟨rfl, [], (List.append_nil _).symm⟩
  le_trans _ _ _ h k := by
    obtain ⟨hq, new, hnew⟩ := h
    obtain ⟨kq, new', knew⟩ := k
    exact ⟨hq.trans kq, new ++ new', by rw [knew, hnew, List.append_assoc]⟩

/-- A report is growth. -/
theorem le_report (l : Log) (d : Diagnostic) : l ≤ l.report d :=
  ⟨(quiet_report l d).symm, _, entries_report l d⟩

/-- **Every log takes an error.** -/
theorem entries_report_of_isError (l : Log) {d : Diagnostic} (h : d.isError) :
    (l.report d).entries = l.entries ++ [d] := by
  rw [entries_report, List.filter_cons_of_pos (by simp [takes, h]), List.filter_nil]

end Log

namespace Progress

/-- **Progress is made**: the cells and the log have grown. -/
instance : Preorder Progress where
  le p q := p.memos ≤ q.memos ∧ p.log ≤ q.log
  le_refl p := ⟨le_refl p.memos, le_refl p.log⟩
  le_trans _ _ _ h k := ⟨h.1.trans k.1, h.2.trans k.2⟩

/-- Reporting is progress. -/
theorem le_report (p : Progress) (d : Diagnostic) : p ≤ p.report d :=
  ⟨le_refl p.memos, Log.le_report p.log d⟩

/-- Remembering is progress. -/
theorem le_remember (p : Progress) (v : Variable) (n : Node) : p ≤ p.remember v n :=
  ⟨Memos.le_fill p.memos v.cell n, le_refl p.log⟩

end Progress

end MapStyle
