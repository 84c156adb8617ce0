import MapStyle.Stylesheet.Scope

/-!
# The cascade

Which declaration a reference is bound to. The declarations of the name that
are in scope are its **candidates**; they are ranked by how strongly they
speak, the strongest first and equals in the order of the scope. The winner
is the first that speaks no less strongly than the reference, and the first
of all if none does.
-/

namespace MapStyle

/-- **A declaration in scope**, and how strongly it speaks. -/
structure Candidate where
  rule : RuleId
  specificity : Specificity
deriving DecidableEq

namespace Candidate

/-- Whether a candidate may stand before another: it speaks no less
strongly. -/
def precedes (c d : Candidate) : Bool := d.specificity ≤ c.specificity

/-- **The candidates, strongest first**; equals keep their order. -/
def rank (cs : List Candidate) : List Candidate := cs.mergeSort precedes

/-- Ranking loses no candidate and adds none. -/
theorem rank_perm (cs : List Candidate) : (rank cs).Perm cs := List.mergeSort_perm ..

/-- A candidate precedes what those it precedes do. -/
theorem precedes_trans (a b c : Candidate) (hab : a.precedes b) (hbc : b.precedes c) :
    a.precedes c := by
  simp only [precedes, decide_eq_true_eq] at hab hbc ⊢
  exact Specificity.le_trans hbc hab

/-- Of two candidates one precedes the other. -/
theorem precedes_total (a b : Candidate) : a.precedes b || b.precedes a := by
  simp only [precedes, Bool.or_eq_true, decide_eq_true_eq]
  exact Specificity.le_total ..

/-- **Ranked candidates are in descending order.** -/
theorem pairwise_rank (cs : List Candidate) :
    (rank cs).Pairwise fun c d => d.specificity ≤ c.specificity := by
  have sorted : (rank cs).Pairwise fun c d => c.precedes d :=
    List.pairwise_mergeSort precedes_trans precedes_total cs
  exact sorted.imp fun hcd => by simpa [precedes] using hcd

/-- **The winner** among ranked candidates, for a reference that speaks as
strongly as given. -/
def winner? (ranked : List Candidate) (reference : Specificity) : Option Candidate :=
  (ranked.find? fun c => reference ≤ c.specificity).or ranked.head?

end Candidate

/-- **What references are looked up in**: a stylesheet and the declarations
in scope, outermost first. -/
structure Scope where
  sheet : Stylesheet
  frames : List RuleId

namespace Scope

/-- Whether a handle is that of a declaration of the variable. Stale handles
and other rules declare nothing. -/
def declares (scope : Scope) (name : String) (id : RuleId) : Bool :=
  (scope.sheet.rules[id.index]?).any fun r => r.isVariable && r.name = name

/-- The declarations of variables in scope, each once. -/
def declarations (scope : Scope) : List RuleId :=
  (scope.frames.filter scope.sheet.declaresVariable).eraseDups

/-- The candidates for a name. -/
def candidates (scope : Scope) (name : String) : Except Fault (List Candidate) :=
  (scope.frames.filter (scope.declares name)).mapM fun id =>
    return ⟨id, ← scope.sheet.declarationRank id⟩

/-- **The declaration a reference is bound to.** -/
def binding? (scope : Scope) (v : Variable) : Except Fault (Option RuleId) := do
  let candidates ← scope.candidates v.name
  let reference ← scope.sheet.referenceRank v
  return (Candidate.winner? (Candidate.rank candidates) reference).map Candidate.rule

end Scope

end MapStyle
