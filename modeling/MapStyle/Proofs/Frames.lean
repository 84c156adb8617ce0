import MapStyle.Proofs.Order
import MapStyle.Proofs.Termination

/-!
# Which frames matter

Of the declarations in scope, a reference is bound to the earliest of the
strongest that declare its name. So all that matters about a scope is which
variables are in it, and which of two **rivals**, variables of one name that
speak equally strongly, comes first (`Stylesheet.FramesAlike`). Where these agree
nodes are evaluated alike (`Scope.evaluation_of_framesAlike`), from the same cells
and with the same reports.

A scope as it is pushed together may hold much else: handles that point nowhere,
properties, variables brought in twice. It may as well hold the declarations
only, each once (`Stylesheet.framesAlike_declarations`), and two neighbours that
are no rivals may change places (`Stylesheet.framesAlike_swap`).
-/

namespace MapStyle

/-! ## Bound to the first of the strongest -/

namespace Scope

variable {scope : Scope} {name : String} {id : RuleId}

/-- A candidate speaks as strongly as its declaration. -/
theorem declarationRank_of_mem_candidates {cs : List Candidate}
    (h : scope.candidates name = .ok cs) {c : Candidate} (hc : c ∈ cs) :
    scope.sheet.declarationRank c.rule = .ok c.specificity := by
  obtain ⟨x, hx⟩ := Node.exists_rel_of_mem (Fault.forall₂_of_mapM h).flip hc
  obtain ⟨s, hs, hxs⟩ := Fault.bind_eq_ok_iff.mp hx
  rw [← Except.ok.inj (show Except.ok (⟨x, s⟩ : Candidate) = .ok c from hxs)]
  exact hs

/-- **A name is bound to the first of its strongest declarations.** -/
theorem binds_iff : scope.Binds name id ↔
    id ∈ scope.frames ∧ scope.declares name id = true ∧
      ∃ t, scope.sheet.declarationRank id = .ok t ∧
        ∀ x ∈ scope.frames, scope.declares name x = true →
          ∃ s, scope.sheet.declarationRank x = .ok s ∧ s ≤ t ∧
            (s = t → scope.frames.idxOf id ≤ scope.frames.idxOf x) := by
  constructor
  · intro h
    have hleader := h.declares.2
    refine ⟨h.declares.1, hleader, ?_⟩
    obtain ⟨cs, c, hcs, hc, rfl⟩ := h
    have hle := hc.le
    obtain ⟨before, after, rfl, hbefore, -⟩ := hc
    have hrank := @declarationRank_of_mem_candidates scope name _ hcs
    have hfilter := map_rule_of_candidates hcs
    rw [List.map_append, List.map_cons] at hfilter
    refine ⟨c.specificity, hrank (by simp), fun x hx hname => ?_⟩
    have hmem : x ∈ (before ++ c :: after).map Candidate.rule := by
      rw [map_rule_of_candidates hcs]
      exact List.mem_filter.mpr ⟨hx, hname⟩
    obtain ⟨d, hd, rfl⟩ := List.mem_map.mp hmem
    refine ⟨d.specificity, hrank hd, hle d hd, fun hsame => Nat.le_of_not_lt fun hlt => ?_⟩
    have hweaker : ∀ y ∈ before.map Candidate.rule,
        scope.sheet.declarationRank y ≠ .ok c.specificity := by
      intro y hy hequal
      obtain ⟨e, he, rfl⟩ := List.mem_map.mp hy
      rw [hrank (by simp [he])] at hequal
      exact hbefore e he (Except.ok.inj hequal ▸ Specificity.le_refl _)
    have hc : c.rule ∉ before.map Candidate.rule := fun hc => hweaker _ hc (hrank (by simp))
    have hd' : d.rule ∉ before.map Candidate.rule := fun hd' =>
      hweaker _ hd' (hsame ▸ hrank hd)
    rw [← idxOf_filter_lt_iff hname hleader, ← hfilter, List.idxOf_append_of_notMem hc,
      List.idxOf_append_of_notMem hd', List.idxOf_cons_self] at hlt
    omega
  · rintro ⟨hframes, hname, t, ht, hall⟩
    obtain ⟨front, back, hsplit, hfront⟩ :=
      List.eq_append_cons_of_mem (List.mem_filter.mpr ⟨hframes, hname⟩)
    have hrest : ∀ x, x ∈ front ∨ x ∈ back → x ∈ scope.frames ∧ scope.declares name x = true := by
      intro x hx
      refine List.mem_filter.mp ?_
      rw [hsplit]
      simp [or_left_comm, hx]
    refine binds_of_split hsplit ht (fun x hx => ?_) fun x hx => ?_
    · obtain ⟨hx', hxname⟩ := hrest x (Or.inl hx)
      obtain ⟨s, hs, hle, hfirst⟩ := hall x hx' hxname
      refine ⟨s, hs, fun hts => ?_⟩
      -- an equally strong one in front would come first
      have hfirst := hfirst (Specificity.le_antisymm hle hts)
      have hlt : (front ++ id :: back).idxOf x < (front ++ id :: back).idxOf id := by
        rw [List.idxOf_append_of_mem hx, List.idxOf_append_of_notMem hfront, List.idxOf_cons_self]
        have := List.idxOf_lt_length_of_mem hx
        omega
      rw [← hsplit, idxOf_filter_lt_iff hxname hname] at hlt
      omega
    · obtain ⟨hx', hxname⟩ := hrest x (Or.inr hx)
      obtain ⟨s, hs, hle, -⟩ := hall x hx' hxname
      exact ⟨s, hs, hle⟩

end Scope

/-! ## Scopes that agree on what matters -/

namespace Stylesheet

/-- **Rivals**: variables of one name that speak equally strongly. -/
def Rivals (sheet : Stylesheet) (id id' : RuleId) : Prop :=
  ∃ r r', sheet.rules[id.index]? = some r ∧ sheet.rules[id'.index]? = some r' ∧
    r.isVariable = true ∧ r'.isVariable = true ∧ r.name = r'.name ∧
    sheet.declarationRank id = sheet.declarationRank id'

/-- **Two scopes agree on what matters**: the same variables are in scope, and of
two rivals the same comes first. -/
structure FramesAlike (sheet : Stylesheet) (F G : List RuleId) : Prop where
  mem_iff : ∀ id, sheet.declaresVariable id = true → (id ∈ F ↔ id ∈ G)
  order : ∀ id id', sheet.Rivals id id' → id ∈ F → id' ∈ F →
    (F.idxOf id < F.idxOf id' ↔ G.idxOf id < G.idxOf id')

variable {sheet : Stylesheet} {F G : List RuleId}

theorem Rivals.declaresVariable {id id' : RuleId} (h : sheet.Rivals id id') :
    sheet.declaresVariable id = true ∧ sheet.declaresVariable id' = true := by
  obtain ⟨r, r', hr, hr', hvariable, hvariable', -⟩ := h
  simp [Stylesheet.declaresVariable, hr, hr', hvariable, hvariable']

theorem FramesAlike.symm (h : sheet.FramesAlike F G) : sheet.FramesAlike G F := by
  refine ⟨fun id hid => (h.mem_iff id hid).symm, fun id id' hrivals hid hid' => ?_⟩
  obtain ⟨hvariable, hvariable'⟩ := hrivals.declaresVariable
  exact (h.order id id' hrivals ((h.mem_iff id hvariable).mpr hid)
    ((h.mem_iff id' hvariable').mpr hid')).symm

/-- **A scope agrees with its declarations, each once.** -/
theorem framesAlike_declarations (sheet : Stylesheet) (F : List RuleId) :
    sheet.FramesAlike F (Scope.mk sheet F).declarations := by
  refine ⟨fun id hid => ?_, fun id id' hrivals _ _ => ?_⟩
  · simp [Scope.declarations, hid]
  · obtain ⟨hid, hid'⟩ := hrivals.declaresVariable
    rw [Scope.declarations, idxOf_eraseDups_lt_iff, idxOf_filter_lt_iff hid hid']

/-- **Neighbours that are no rivals may change places.** -/
theorem framesAlike_swap {id id' : RuleId} (h : ¬sheet.Rivals id id') (front back : List RuleId) :
    sheet.FramesAlike (front ++ id :: id' :: back) (front ++ id' :: id :: back) := by
  refine ⟨fun x _ => by simp [or_left_comm], fun x y hxy _ _ => idxOf_swap_lt_iff ?_ ?_ front back⟩
  · rintro ⟨rfl, rfl⟩
    exact h hxy
  · rintro ⟨rfl, rfl⟩
    obtain ⟨r, r', hr, hr', hvariable, hvariable', hname, hrank⟩ := hxy
    exact h ⟨r', r, hr', hr, hvariable', hvariable, hname.symm, hrank.symm⟩

end Stylesheet

/-! ## Evaluated alike -/

namespace Scope

variable {sheet : Stylesheet} {F G : List RuleId}

/-- Where scopes agree, they bind each name to the same declaration. -/
theorem Binds.of_framesAlike (h : sheet.FramesAlike F G) {name : String} {id : RuleId}
    (hid : (Scope.mk sheet F).Binds name id) : (Scope.mk sheet G).Binds name id := by
  obtain ⟨hF, hname, t, ht, hall⟩ := binds_iff.mp hid
  have hvariable : ∀ x, (Scope.mk sheet F).declares name x = true → (x ∈ F ↔ x ∈ G) := by
    intro x hx
    obtain ⟨r, hr, hr', -⟩ := declares_eq_true_iff.mp hx
    replace hr : sheet.rules[x.index]? = some r := hr
    exact h.mem_iff x (by simp [Stylesheet.declaresVariable, hr, hr'])
  refine binds_iff.mpr ⟨(hvariable id hname).mp hF, hname, t, ht, fun x hx hxname => ?_⟩
  have hxF := (hvariable x hxname).mpr hx
  obtain ⟨s, hs, hle, hfirst⟩ := hall x hxF hxname
  refine ⟨s, hs, hle, fun hst => ?_⟩
  obtain ⟨r, hr, hrvariable, hrname⟩ := declares_eq_true_iff.mp hname
  obtain ⟨r', hr', hrvariable', hrname'⟩ := declares_eq_true_iff.mp hxname
  have hrivals : sheet.Rivals x id := ⟨r', r, hr', hr, hrvariable', hrvariable,
    hrname'.trans hrname.symm, (hst ▸ hs).trans ht.symm⟩
  have horder := h.order x id hrivals hxF hF
  have hle : F.idxOf id ≤ F.idxOf x := hfirst hst
  show G.idxOf id ≤ G.idxOf x
  omega

/-- **Where scopes agree, they bind references alike**, and fail alike if the
owner of a reference is not known. -/
theorem binding?_of_framesAlike (hlinked : sheet.Linked) (h : sheet.FramesAlike F G) :
    (Scope.mk sheet F).binding? = (Scope.mk sheet G).binding? := by
  funext v
  have hcandidates : ∀ frames, ∃ cs, (Scope.mk sheet frames).candidates v.name = .ok cs :=
    fun frames => exists_candidates hlinked v.name
  obtain ⟨cs, hcs⟩ := hcandidates F
  obtain ⟨cs', hcs'⟩ := hcandidates G
  have hrun : ∀ {frames cs}, (Scope.mk sheet frames).candidates v.name = .ok cs →
      (Scope.mk sheet frames).binding? v = (do
        let reference ← sheet.referenceRank v
        return (Candidate.winner? (Candidate.rank cs) reference).map Candidate.rule) := by
    intro frames cs hcs
    rw [binding?, hcs, Fault.ok_bind]
  cases hrank : sheet.referenceRank v with
  | error fault => rw [hrun hcs, hrun hcs', hrank]; rfl
  | ok reference =>
    have hF := hrun hcs
    have hG := hrun hcs'
    rw [hrank, Fault.ok_bind] at hF hG
    rw [hF, hG]
    refine congrArg Except.ok (Option.ext fun id => ?_)
    rw [← binds_iff_of_binding? hF, ← binds_iff_of_binding? hG]
    exact ⟨Binds.of_framesAlike h, Binds.of_framesAlike h.symm⟩

/-- **Only the variables in scope and the order of rivals matter.** In a stylesheet
built with its own handles, nodes are evaluated alike in scopes that agree on
these: from the same cells and log to the same node, cells and log, whatever the
cells hold; and they are evaluated if the owners of their references are none or
known to the stylesheet. So it makes no difference whether a scope holds stale
handles, rules that are no variables and repetitions, or the declarations only,
each once; nor in which order two neighbours stand that have different names or
speak differently strongly. -/
theorem evaluation_of_framesAlike (sheet : Stylesheet) {memos : Memos} (h : sheet.Built memos) :
    (∀ F G, sheet.FramesAlike F G → ∀ n : Node,
      n.evaluate ⟨sheet, F⟩ = n.evaluate ⟨sheet, G⟩ ∧
      ((∀ v ∈ n.references, sheet.Knows v.owner) → ∀ p : Progress, ∃ m q,
        (n.evaluate ⟨sheet, F⟩).run p = .ok (m, q) ∧
        (n.evaluate ⟨sheet, G⟩).run p = .ok (m, q))) ∧
    (∀ F (n : Node), n.evaluate ⟨sheet, F⟩ = n.evaluate ⟨sheet, (Scope.mk sheet F).declarations⟩) ∧
    (∀ front back id id', ¬sheet.Rivals id id' → ∀ n : Node,
      n.evaluate ⟨sheet, front ++ id :: id' :: back⟩
        = n.evaluate ⟨sheet, front ++ id' :: id :: back⟩) := by
  have halike : ∀ {F G}, sheet.FramesAlike F G → ∀ n : Node,
      n.evaluate ⟨sheet, F⟩ = n.evaluate ⟨sheet, G⟩ := by
    intro F G hFG n
    have hb := binding?_of_framesAlike h.linked hFG
    have hresolve : (Scope.mk sheet F).resolve [] = (Scope.mk sheet G).resolve [] := by
      refine resolve_of_binding? ?_ hb .nil .nil
      rfl
    rw [Node.evaluate, hresolve, Node.evaluate]
  refine ⟨fun F G hFG n => ⟨halike hFG n, fun hn p => ?_⟩,
    fun F n => halike (Stylesheet.framesAlike_declarations sheet F) n,
    fun front back id id' hrivals n => halike (Stylesheet.framesAlike_swap hrivals front back) n⟩
  obtain ⟨m, q, hrun, -⟩ :=
    ((Scope.mk sheet F).knowing h.linked).ends_evaluateWith .nil hn (p := p) trivial
  exact ⟨m, q, hrun, halike hFG n ▸ hrun⟩

/-- With `@c` in scope twice, a property and a handle that points nowhere, and with
two variables in either order. -/
theorem circle_evaluates_alike :
    (∃ m q, ((Node.variable (Stylesheet.refer "@c")).evaluate
          ⟨.circle, [⟨3⟩, ⟨2⟩, ⟨7⟩, ⟨3⟩]⟩).run ⟨Stylesheet.circleAndCells.2, {}⟩ = .ok (m, q) ∧
        ((Node.variable (Stylesheet.refer "@c")).evaluate
          ⟨.circle, [⟨3⟩]⟩).run ⟨Stylesheet.circleAndCells.2, {}⟩ = .ok (m, q)) ∧
      ∀ n : Node,
        n.evaluate ⟨.circle, [⟨1⟩, ⟨3⟩, ⟨0⟩]⟩ = n.evaluate ⟨.circle, [⟨1⟩, ⟨0⟩, ⟨3⟩]⟩ := by
  obtain ⟨halike, -, hswap⟩ := evaluation_of_framesAlike .circle Stylesheet.built_circle
  constructor
  · have hframes : Stylesheet.circle.FramesAlike [⟨3⟩, ⟨2⟩, ⟨7⟩, ⟨3⟩] [⟨3⟩] :=
      Stylesheet.framesAlike_declarations .circle [⟨3⟩, ⟨2⟩, ⟨7⟩, ⟨3⟩]
    refine (halike _ _ hframes (.variable (Stylesheet.refer "@c"))).2 (fun v hv => ?_) _
    rw [List.mem_singleton.mp (show v ∈ [Stylesheet.refer "@c"] from hv)]
    trivial
  · have hnames : ¬Stylesheet.circle.Rivals ⟨3⟩ ⟨0⟩ := by
      rintro ⟨r, r', hr, hr', -, -, hname, -⟩
      obtain rfl := Option.some.inj hr
      obtain rfl := Option.some.inj hr'
      exact absurd hname (by decide)
    exact hswap [⟨1⟩] [] ⟨3⟩ ⟨0⟩ hnames

end Scope

end MapStyle
