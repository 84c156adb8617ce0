import MapStyle.Proofs.Building
import MapStyle.Proofs.Ranking

/-!
# What a name is bound to

A scope **binds** a name to the declaration that leads those of the name in
scope (`Scope.Binds`): the earliest of the strongest. Nothing about the
reference enters into that but its name. How strongly the reference speaks is
found out all the same, which can only fail where its owner is not known, and
never changes the outcome (`Scope.binds_iff_of_binding?`).

So in a built stylesheet two references of one name are bound to the same
declaration, wherever each is written.
-/

namespace MapStyle

namespace Scope

/-- A rule in scope declares a name when it is a variable of that name. -/
theorem declares_eq_true_iff {scope : Scope} {name : String} {id : RuleId} :
    scope.declares name id = true ↔
      ∃ r, scope.sheet.rules[id.index]? = some r ∧ r.isVariable = true ∧ r.name = name := by
  unfold declares
  cases scope.sheet.rules[id.index]? with
  | none => simp
  | some r => simp

/-- **The candidates for a name** are the declarations of the name in scope, in
the order of the scope. -/
theorem map_rule_of_candidates {scope : Scope} {name : String} {cs : List Candidate}
    (h : scope.candidates name = .ok cs) :
    cs.map Candidate.rule = scope.frames.filter (scope.declares name) := by
  have hall := Fault.forall₂_of_mapM h
  have heq : List.Forall₂ (fun id c => Candidate.rule c = id)
      (scope.frames.filter (scope.declares name)) cs := by
    refine hall.imp fun id c hc => ?_
    obtain ⟨s, -, hs⟩ := Fault.bind_eq_ok_iff.mp hc
    rw [← Except.ok.inj (show Except.ok (⟨id, s⟩ : Candidate) = .ok c from hs)]
  have hmap : List.Forall₂ (· = ·) (cs.map Candidate.rule)
      (scope.frames.filter (scope.declares name)) :=
    List.forall₂_map_left_iff.mpr heq.flip
  rwa [List.forall₂_eq_eq_eq] at hmap

/-- **The candidates for a name can always be found out.** -/
theorem exists_candidates {scope : Scope} (h : scope.sheet.Linked) (name : String) :
    ∃ cs, scope.candidates name = .ok cs := by
  refine Fault.exists_mapM (fun id hid => ?_)
  obtain ⟨r, hr, -⟩ := declares_eq_true_iff.mp (List.mem_filter.mp hid).2
  obtain ⟨s, hs⟩ := h.exists_declarationRank hr
  rw [hs]
  exact ⟨_, rfl⟩

/-- **A scope binds a name to a declaration** that leads those of the name in
scope: the earliest of the strongest. -/
def Binds (scope : Scope) (name : String) (id : RuleId) : Prop :=
  ∃ (cs : List Candidate) (c : Candidate),
    scope.candidates name = .ok cs ∧ c.Leads cs ∧ c.rule = id

/-- A name is bound to one declaration at most. -/
theorem Binds.unique {scope : Scope} {name : String} {id id' : RuleId} (h : scope.Binds name id)
    (h' : scope.Binds name id') : id = id' := by
  obtain ⟨cs, c, hcs, hc, rfl⟩ := h
  obtain ⟨cs', c', hcs', hc', rfl⟩ := h'
  rw [hcs] at hcs'
  rw [← Except.ok.inj hcs'] at hc'
  rw [hc.unique hc']

/-- What a name is bound to is in scope, and declares the name. -/
theorem Binds.declares {scope : Scope} {name : String} {id : RuleId} (h : scope.Binds name id) :
    id ∈ scope.frames ∧ scope.declares name id = true := by
  obtain ⟨cs, c, hcs, hc, rfl⟩ := h
  have hmem : c.rule ∈ cs.map Candidate.rule := List.mem_map_of_mem hc.mem
  rw [map_rule_of_candidates hcs] at hmem
  exact List.mem_filter.mp hmem

/-- What a name is bound to is a rule of the stylesheet. -/
theorem Binds.exists_rule {scope : Scope} {name : String} {id : RuleId}
    (h : scope.Binds name id) : ∃ r, scope.sheet.rules[id.index]? = some r := by
  obtain ⟨r, hr, -⟩ := declares_eq_true_iff.mp h.declares.2
  exact ⟨r, hr⟩

/-- What a name is bound to is one of the declarations in scope. -/
theorem Binds.mem_declarations {scope : Scope} {name : String} {id : RuleId}
    (h : scope.Binds name id) : id ∈ scope.declarations := by
  obtain ⟨hframes, hdeclares⟩ := h.declares
  obtain ⟨r, hr, hvariable, -⟩ := declares_eq_true_iff.mp hdeclares
  unfold declarations
  rw [List.mem_eraseDups]
  refine List.mem_filter.mpr ⟨hframes, ?_⟩
  unfold Stylesheet.declaresVariable
  rw [hr]
  exact hvariable

/-- **A declaration counts if those in front of it are weaker and those behind it
are not stronger.** -/
theorem binds_of_split {scope : Scope} {name : String} {id : RuleId} {front back : List RuleId}
    {t : Specificity}
    (hdeclared : scope.frames.filter (scope.declares name) = front ++ id :: back)
    (hid : scope.sheet.declarationRank id = .ok t)
    (hfront : ∀ x ∈ front, ∃ s, scope.sheet.declarationRank x = .ok s ∧ ¬t ≤ s)
    (hback : ∀ x ∈ back, ∃ s, scope.sheet.declarationRank x = .ok s ∧ s ≤ t) :
    scope.Binds name id := by
  have hexists : ∀ x ∈ front ++ id :: back, ∃ s, scope.sheet.declarationRank x = .ok s := by
    intro x hx
    rcases List.mem_append.mp hx with hx | hx
    · exact (hfront x hx).imp fun _ h => h.1
    · rcases List.mem_cons.mp hx with rfl | hx
      · exact ⟨t, hid⟩
      · exact (hback x hx).imp fun _ h => h.1
  have : Nonempty Specificity := ⟨t⟩
  choose! strength hstrength using hexists
  have hcandidates : scope.candidates name
      = .ok ((front ++ id :: back).map fun x => ⟨x, strength x⟩) := by
    unfold candidates
    rw [hdeclared]
    refine Fault.mapM_eq_ok fun x hx => ?_
    rw [hstrength x hx]
    rfl
  have heq : ∀ x ∈ front ++ id :: back, ∀ s, scope.sheet.declarationRank x = .ok s →
      strength x = s := fun x hx s hs => Except.ok.inj ((hstrength x hx).symm.trans hs)
  have ht : strength id = t := heq id (by simp) t hid
  refine ⟨_, ⟨id, strength id⟩, hcandidates, ⟨_, _, List.map_append, ?_, ?_⟩, rfl⟩
  · intro c hc
    obtain ⟨x, hx, rfl⟩ := List.mem_map.mp hc
    obtain ⟨s, hs, hlt⟩ := hfront x hx
    rw [ht, heq x (by simp [hx]) s hs]
    exact hlt
  · intro c hc
    obtain ⟨x, hx, rfl⟩ := List.mem_map.mp hc
    obtain ⟨s, hs, hle⟩ := hback x hx
    rw [ht, heq x (by simp [hx]) s hs]
    exact hle

/-- Every name declared in scope is bound. -/
theorem exists_binds {scope : Scope} (h : scope.sheet.Linked) {name : String} {id : RuleId}
    (hid : id ∈ scope.frames) (hname : scope.declares name id = true) :
    ∃ id', scope.Binds name id' := by
  obtain ⟨cs, hcs⟩ := exists_candidates h name
  have hmem : id ∈ cs.map Candidate.rule := by
    rw [map_rule_of_candidates hcs]
    exact List.mem_filter.mpr ⟨hid, hname⟩
  cases hwinner : Candidate.winner? (Candidate.rank cs) (.unscoped 0) with
  | none =>
    rw [Candidate.winner?_rank_eq_none_iff.mp hwinner] at hmem
    exact absurd hmem List.not_mem_nil
  | some c => exact ⟨c.rule, cs, c, hcs, Candidate.winner?_rank_eq_some_iff.mp hwinner, rfl⟩

/-- **What a reference is bound to is what its name is bound to.** -/
theorem binds_iff_of_binding? {scope : Scope} {v : Variable} {b : Option RuleId}
    (h : scope.binding? v = .ok b) (id : RuleId) : scope.Binds v.name id ↔ b = some id := by
  obtain ⟨cs, hcs, h⟩ := Fault.bind_eq_ok_iff.mp h
  obtain ⟨s, -, h⟩ := Fault.bind_eq_ok_iff.mp h
  rw [← Except.ok.inj (show Except.ok _ = .ok b from h), Option.map_eq_some_iff]
  constructor
  · rintro ⟨cs', c, hcs', hc, rfl⟩
    rw [hcs] at hcs'
    rw [← Except.ok.inj hcs'] at hc
    exact ⟨c, Candidate.winner?_rank_eq_some_iff.mpr hc, rfl⟩
  · rintro ⟨c, hc, rfl⟩
    exact ⟨cs, c, hcs, Candidate.winner?_rank_eq_some_iff.mp hc, rfl⟩

/-- **Two references of one name are bound alike.** -/
theorem binding?_unique {scope : Scope} {v w : Variable} (hname : v.name = w.name)
    {b b' : Option RuleId} (hv : scope.binding? v = .ok b) (hw : scope.binding? w = .ok b') :
    b = b' := by
  refine Option.ext (fun id => ?_)
  rw [← binds_iff_of_binding? hv, ← binds_iff_of_binding? hw, hname]

/-- **What a reference is bound to can always be found out**, if its owner is
known. -/
theorem exists_binding? {scope : Scope} (h : scope.sheet.Linked) {v : Variable}
    (hv : scope.sheet.Knows v.owner) : ∃ b, scope.binding? v = .ok b := by
  obtain ⟨cs, hcs⟩ := exists_candidates h v.name
  obtain ⟨s, hs⟩ := h.exists_referenceRank hv
  unfold binding?
  rw [hcs, Fault.ok_bind, hs, Fault.ok_bind]
  exact ⟨_, rfl⟩

/-- A reference whose owner is known is bound to what its name is bound to. -/
theorem Binds.binding? {scope : Scope} {v : Variable} {id : RuleId} (hid : scope.Binds v.name id)
    (h : scope.sheet.Linked) (hv : scope.sheet.Knows v.owner) :
    scope.binding? v = .ok (some id) := by
  obtain ⟨b, hb⟩ := exists_binding? h hv
  rw [hb, (binds_iff_of_binding? hb id).mp hid]

/-- A reference whose owner is known is bound to nothing if its name is. -/
theorem binding?_eq_none {scope : Scope} (h : scope.sheet.Linked) {v : Variable}
    (hv : scope.sheet.Knows v.owner) (hnone : ∀ id, ¬scope.Binds v.name id) :
    scope.binding? v = .ok none := by
  obtain ⟨b, hb⟩ := exists_binding? h hv
  cases b with
  | none => exact hb
  | some id => exact absurd ((binds_iff_of_binding? hb id).mpr rfl) (hnone id)

/-- **What a reference is bound to depends on its name alone.** Ranking is a
stable sort, strongest first. The winner among ranked candidates is the earliest
of the strongest, however strongly the reference speaks, and there is one unless
there is no candidate. So two references of one name are never bound differently,
and in a stylesheet built with its own handles both are bound, wherever they are
written: to the earliest of the strongest declarations of the name in scope, and to
none only if there is none. -/
theorem binding_by_name_alone :
    (∀ cs : List Candidate, (Candidate.rank cs).Perm cs ∧
      (Candidate.rank cs).Pairwise (fun c d => d.specificity ≤ c.specificity) ∧
      ∀ s, (Candidate.rank cs).filter (·.specificity = s) = cs.filter (·.specificity = s)) ∧
    (∀ (cs : List Candidate) (reference : Specificity),
      (∀ c, Candidate.winner? (Candidate.rank cs) reference = some c ↔ c.Leads cs) ∧
      (Candidate.winner? (Candidate.rank cs) reference = none ↔ cs = [])) ∧
    (∀ (scope : Scope) (v w : Variable), v.name = w.name → ∀ b b',
      scope.binding? v = .ok b → scope.binding? w = .ok b' → b = b') ∧
    (∀ (scope : Scope) (memos : Memos), scope.sheet.Built memos →
      ∀ v w : Variable, v.name = w.name →
        scope.sheet.Knows v.owner → scope.sheet.Knows w.owner →
        ∃ b, scope.binding? v = .ok b ∧ scope.binding? w = .ok b ∧
          (∀ id, b = some id ↔ scope.Binds v.name id) ∧
          (b = none ↔ ∀ id ∈ scope.frames, scope.declares v.name id = false)) := by
  refine ⟨fun cs => ⟨Candidate.rank_perm cs, Candidate.pairwise_rank cs, Candidate.filter_rank cs⟩,
    fun cs reference => ⟨fun c => Candidate.winner?_rank_eq_some_iff,
      Candidate.winner?_rank_eq_none_iff⟩,
    fun scope v w hname b b' hv hw => binding?_unique hname hv hw,
    fun scope memos hbuilt v w hname hv hw => ?_⟩
  obtain ⟨b, hb⟩ := exists_binding? hbuilt.linked hv
  obtain ⟨b', hb'⟩ := exists_binding? hbuilt.linked hw
  obtain rfl := binding?_unique hname hb hb'
  have hbinds := binds_iff_of_binding? hb
  refine ⟨b, hb, hb', fun id => (hbinds id).symm, ?_, fun hnone => ?_⟩
  · rintro rfl id hid
    by_contra hdeclares
    obtain ⟨id', hid'⟩ := exists_binds hbuilt.linked hid (Bool.not_eq_false _ ▸ hdeclares)
    exact Option.some_ne_none id' ((hbinds id').mp hid').symm
  · refine Option.eq_none_iff_forall_ne_some.mpr fun id hid => ?_
    obtain ⟨hframes, hdeclares⟩ := ((hbinds id).mpr hid).declares
    exact Bool.false_ne_true ((hnone id hframes).symm.trans hdeclares)

/-- A reference in the filter of a selector and one that is written nowhere. -/
theorem circle_binds_alike :
    (⟨.circle, [⟨0⟩, ⟨1⟩, ⟨1⟩]⟩ : Scope).binding? (Stylesheet.refer "@b") = .ok (some ⟨1⟩) ∧
      (⟨.circle, [⟨0⟩, ⟨1⟩, ⟨1⟩]⟩ : Scope).binding?
        { Stylesheet.refer "@b" with owner := some (.selector ⟨⟨0⟩, 0⟩) } = .ok (some ⟨1⟩) := by
  obtain ⟨b, hb, hb', hbinds, -⟩ := binding_by_name_alone.2.2.2 ⟨.circle, [⟨0⟩, ⟨1⟩, ⟨1⟩]⟩ _
    Stylesheet.built_circle (Stylesheet.refer "@b")
    { Stylesheet.refer "@b" with owner := some (.selector ⟨⟨0⟩, 0⟩) } rfl trivial ⟨_, _, rfl, rfl⟩
  obtain rfl : b = some ⟨1⟩ :=
    (hbinds ⟨1⟩).mpr ⟨_, _, rfl, ⟨[], [_], rfl, by simp, by decide⟩, rfl⟩
  exact ⟨hb, hb'⟩

end Scope

end MapStyle
