import MapStyle.Cascade

/-!
# The leading candidate

Ranking puts candidates in descending order and keeps equals in the order of
the scope, so what stands first is the **earliest of the strongest**. That
candidate can be said without any sorting (`Candidate.Leads`): what stands in
front of it is weaker, and what stands behind it is not stronger.

The winner is found by going down the ranks to the first candidate that speaks
no less strongly than the reference. The first of all is the strongest, so it
is that candidate if there is one, and what is taken instead if there is none:
**the strength of the reference never matters** (`winner?_rank`).
-/

namespace MapStyle

namespace Candidate

/-- **The earliest of the strongest candidates.** -/
def Leads (c : Candidate) (cs : List Candidate) : Prop :=
  ∃ before after, cs = before ++ c :: after ∧
    (∀ d ∈ before, ¬c.specificity ≤ d.specificity) ∧
    ∀ d ∈ after, d.specificity ≤ c.specificity

/-- The leader is one of the candidates. -/
theorem Leads.mem {c : Candidate} {cs : List Candidate} (h : c.Leads cs) : c ∈ cs := by
  obtain ⟨before, after, rfl, -, -⟩ := h
  exact List.mem_append_right _ List.mem_cons_self

/-- No candidate is stronger than the leader. -/
theorem Leads.le {c : Candidate} {cs : List Candidate} (h : c.Leads cs) :
    ∀ d ∈ cs, d.specificity ≤ c.specificity := by
  obtain ⟨before, after, rfl, hbefore, hafter⟩ := h
  intro d hd
  rcases List.mem_append.mp hd with hd | hd
  · exact (Specificity.le_total d.specificity c.specificity).resolve_right (hbefore d hd)
  · rcases List.mem_cons.mp hd with rfl | hd
    · exact Specificity.le_refl _
    · exact hafter d hd

/-- **There is one leader at most.** Of two, the one that stands first would be
weaker than the other, or the same candidate. -/
theorem Leads.unique {c d : Candidate} {cs : List Candidate} (hc : c.Leads cs)
    (hd : d.Leads cs) : c = d := by
  have hle : c.specificity ≤ d.specificity := hd.le c hc.mem
  have hge : d.specificity ≤ c.specificity := hc.le d hd.mem
  obtain ⟨before, after, rfl, hbefore, -⟩ := hc
  obtain ⟨before', after', heq, hbefore', -⟩ := hd
  rcases List.append_eq_append_iff.mp heq with ⟨l, rfl, hl⟩ | ⟨l, rfl, hl⟩
  · cases l with
    | nil => exact (List.cons.inj hl).1
    | cons x l =>
      have hx : c = x := (List.cons.inj hl).1
      exact absurd hge (hbefore' c (by simp [hx]))
  · cases l with
    | nil => exact (List.cons.inj hl).1.symm
    | cons x l =>
      have hx : d = x := (List.cons.inj hl).1
      exact absurd hle (hbefore d (by simp [hx]))

/-- **Ranking is stable**: the candidates of one strength keep their order. -/
theorem filter_rank (cs : List Candidate) (s : Specificity) :
    (rank cs).filter (·.specificity = s) = cs.filter (·.specificity = s) := by
  have hall : ∀ c ∈ cs.filter (·.specificity = s), c.specificity = s := fun c hc =>
    of_decide_eq_true (List.mem_filter.mp hc).2
  have hsorted : (cs.filter (·.specificity = s)).Pairwise fun c d => c.precedes d := by
    refine List.pairwise_of_forall_mem_list (fun c hc d hd => ?_)
    simp only [precedes, hall c hc, hall d hd, decide_eq_true_eq]
    exact Specificity.le_refl s
  have hsub : (cs.filter (·.specificity = s)).Sublist (rank cs) :=
    List.sublist_mergeSort precedes_trans precedes_total hsorted List.filter_sublist
  have hsub' := hsub.filter (·.specificity = s)
  simp only [List.filter_filter, Bool.and_self] at hsub'
  exact (hsub'.eq_of_length ((rank_perm cs).filter _).length_eq.symm).symm

/-- **What is ranked first leads.** -/
theorem leads_of_head?_rank {c : Candidate} {cs : List Candidate}
    (h : (rank cs).head? = some c) : c.Leads cs := by
  obtain ⟨rest, hrank⟩ : ∃ rest, rank cs = c :: rest := List.head?_eq_some_iff.mp h
  have hle : ∀ d ∈ cs, d.specificity ≤ c.specificity := by
    intro d hd
    have hd' : d ∈ c :: rest := by rw [← hrank]; exact (rank_perm cs).mem_iff.mpr hd
    rcases List.mem_cons.mp hd' with rfl | hd'
    · exact Specificity.le_refl _
    · have hsorted := pairwise_rank cs
      rw [hrank] at hsorted
      exact List.rel_of_pairwise_cons hsorted hd'
  -- the first of its equals in the ranks is the first of them in the list
  have hfirst := filter_rank cs c.specificity
  rw [hrank, List.filter_cons_of_pos (by simp)] at hfirst
  obtain ⟨before, after, rfl, hbefore, -, -⟩ := List.filter_eq_cons_iff.mp hfirst.symm
  refine ⟨before, after, rfl, fun d hd hcd => ?_, fun d hd => hle d (by simp [hd])⟩
  have heq : d.specificity = c.specificity :=
    Specificity.le_antisymm (hle d (by simp [hd])) hcd
  exact hbefore d hd (by simp [heq])

/-- **The strength of the reference never matters**: the winner is what is
ranked first. -/
theorem winner?_rank (cs : List Candidate) (reference : Specificity) :
    winner? (rank cs) reference = (rank cs).head? := by
  unfold winner?
  cases hfind : (rank cs).find? (reference ≤ ·.specificity) with
  | none => rfl
  | some c =>
    obtain ⟨hc, before, after, hrank, hbefore⟩ := List.find?_eq_some_iff_append.mp hfind
    cases before with
    | nil => rw [hrank]; rfl
    | cons d before =>
      -- what stands first would speak no less strongly than `c`, so no less
      -- strongly than the reference
      have hsorted := pairwise_rank cs
      rw [hrank] at hsorted
      have hcd : c.specificity ≤ d.specificity :=
        List.rel_of_pairwise_cons hsorted (by simp)
      have hd : reference ≤ d.specificity := Specificity.le_trans (by simpa using hc) hcd
      exact absurd hd (by simpa using hbefore d List.mem_cons_self)

/-- **The winner is the earliest of the strongest.** -/
theorem winner?_rank_eq_some_iff {cs : List Candidate} {reference : Specificity}
    {c : Candidate} : winner? (rank cs) reference = some c ↔ c.Leads cs := by
  rw [winner?_rank]
  constructor
  · exact leads_of_head?_rank
  · intro hc
    cases hhead : (rank cs).head? with
    | none =>
      have hnil : rank cs = [] := List.head?_eq_none_iff.mp hhead
      exact absurd ((rank_perm cs).mem_iff.mpr hc.mem) (by simp [hnil])
    | some d => rw [(leads_of_head?_rank hhead).unique hc]

/-- There is a winner unless there is no candidate. -/
theorem winner?_rank_eq_none_iff {cs : List Candidate} {reference : Specificity} :
    winner? (rank cs) reference = none ↔ cs = [] := by
  rw [winner?_rank, List.head?_eq_none_iff]
  constructor
  · intro hnil
    exact ((hnil ▸ rank_perm cs : ([] : List Candidate).Perm cs)).nil_eq.symm
  · rintro rfl
    exact List.mergeSort_nil

end Candidate

end MapStyle
