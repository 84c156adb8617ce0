import MapStyle.Proofs.Binding
import Mathlib.Logic.Relation

/-!
# Declarations that use each other

A declaration **uses** another if a name in its value is bound to the other
(`Scope.Uses`). A reference is **cyclic** if the declaration it is bound to leads
to one that leads back to itself (`Scope.Cyclic`): not only the declarations on
a cycle are concerned, but all from which a cycle is reached.

A reference is cyclic exactly if one of the references in its declaration's
value is (`Scope.cyclic_iff`). When declarations are entered one inside the
other, each leads to what the references met inside are bound to
(`Scope.Trails`), so a reference to a declaration that is entered already is on a
cycle. These two facts are all that evaluation has to do with cycles.
-/

namespace MapStyle

namespace Scope

/-- **A declaration uses another**: a name in its value is bound to it. -/
def Uses (scope : Scope) (id id' : RuleId) : Prop :=
  ∃ r, scope.sheet.rules[id.index]? = some r ∧
    ∃ w ∈ r.value.references, scope.Binds w.name id'

/-- **A cycle is reached from a reference**: what it is bound to leads to a
declaration that leads back to itself. -/
def Cyclic (scope : Scope) (v : Variable) : Prop :=
  ∃ id, scope.Binds v.name id ∧
    ∃ id', Relation.ReflTransGen scope.Uses id id' ∧ Relation.TransGen scope.Uses id' id'

/-- **A cycle is reached from a node**: from one of its references. -/
def ReachesCycle (scope : Scope) (n : Node) : Prop :=
  ∃ v ∈ n.references, scope.Cyclic v

variable {scope : Scope} {v w : Variable} {id : RuleId} {r : Rule} {entered : List RuleId}

/-- A reference without a declaration reaches no cycle. -/
theorem not_cyclic_of_unbound (h : ∀ id, ¬scope.Binds v.name id) : ¬scope.Cyclic v := by
  rintro ⟨id, hid, -⟩
  exact h id hid

/-- **A reference that leads back to its own declaration is cyclic.** -/
theorem cyclic_of_transGen (h : scope.Binds v.name id)
    (hcycle : Relation.TransGen scope.Uses id id) : scope.Cyclic v :=
  ⟨id, h, id, Relation.ReflTransGen.refl, hcycle⟩

/-- **Cycles are reached through the declaration**: a reference is cyclic exactly
if one in the value it stands for is. -/
theorem cyclic_iff (h : scope.Binds v.name id) (hr : scope.sheet.rules[id.index]? = some r) :
    scope.Cyclic v ↔ ∃ w ∈ r.value.references, scope.Cyclic w := by
  constructor
  · rintro ⟨id₀, h₀, id', hreach, hcycle⟩
    obtain rfl := h₀.unique h
    -- the way to the cycle and once around it has a first step
    obtain ⟨next, ⟨r', hr', w, hw, hbinds⟩, hrest⟩ :=
      Relation.TransGen.head'_iff.mp (Relation.TransGen.trans_right hreach hcycle)
    rw [hr] at hr'
    obtain rfl := Option.some.inj hr'
    exact ⟨w, hw, next, hbinds, id', hrest, hcycle⟩
  · rintro ⟨w, hw, id₀, h₀, id', hreach, hcycle⟩
    exact ⟨id, h, id', Relation.ReflTransGen.head ⟨r, hr, w, hw, h₀⟩ hreach, hcycle⟩

/-- **Every declaration entered leads to what the reference is bound to.** -/
def Trails (scope : Scope) (entered : List RuleId) (v : Variable) : Prop :=
  ∀ id ∈ entered, ∀ id', scope.Binds v.name id' → Relation.TransGen scope.Uses id id'

theorem Trails.nil : scope.Trails [] v := fun _ hid => absurd hid List.not_mem_nil

/-- The declarations entered lead on to what the value of the last one refers
to. -/
theorem Trails.cons (h : scope.Trails entered v) (hid : scope.Binds v.name id)
    (hr : scope.sheet.rules[id.index]? = some r) (hw : w ∈ r.value.references) :
    scope.Trails (id :: entered) w := by
  intro id₀ hid₀ id' hid'
  have huses : scope.Uses id id' := ⟨r, hr, w, hw, hid'⟩
  rcases List.mem_cons.mp hid₀ with rfl | hid₀
  · exact Relation.TransGen.single huses
  · exact (h id₀ hid₀ id hid).tail huses

/-- **What is entered already is on a cycle.** -/
theorem Trails.cyclic (h : scope.Trails entered v) (hid : scope.Binds v.name id)
    (hin : id ∈ entered) : scope.Cyclic v :=
  cyclic_of_transGen hid (h id hin id hid)

end Scope

end MapStyle
