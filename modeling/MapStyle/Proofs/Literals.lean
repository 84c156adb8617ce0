import MapStyle.Proofs.Blotting
import MapStyle.Proofs.FontStacks
import MapStyle.Proofs.Passages
import MapStyle.Proofs.Termination
import MapStyle.Proofs.Writing

/-!
# String literals

A string literal is escaped wherever it is written: in an expression, a list, a resource, the
arguments of an effect, a filter, and in the declarations and filters that a reference to it
leads to. What a node is written as has one passage for each of its literals, and blotting the
node is blotting these (`Node.passages_blot`); the same is true of the expression of a filter
and of a declaration that is accepted (`Filter.passages_blot`, `Pass.passages_blot`), but that
a stack of fonts is replaced by the number of its font set.

As evaluation keeps what is the same when blotted, literals bring no markup into what is
written, whatever they say and wherever they come from (`Scope.literals_bring_no_markup`).
-/

namespace MapStyle

/-! ## What is written -/

namespace Node

mutual

/-- **The passages that a node is written as.** -/
def passages : Node → List Passage
  | .expression elements =>
    Passage.separated (Rendered.spacing (renderAll elements)) (passagesAll elements)
  | .filter key comparison operand _ =>
    .fixed "[" :: passages key ++ .fixed comparison.text :: passages operand ++ [.fixed "]"]
  | .effectCall name arguments =>
    .fixed (name ++ "(") :: Passage.separated "," (passagesAll arguments) ++ [.fixed ")"]
  | .url target _ => passages target
  | .value components => Passage.separated ", " (passagesAll components)
  | .quoted text => [.escaped text]
  | n => [.fixed n.text]

/-- The passages that nodes are written as. -/
def passagesAll : List Node → List (List Passage)
  | [] => []
  | n :: ns => passages n :: passagesAll ns

end

@[simp] theorem passagesAll_eq_map (ns : List Node) : passagesAll ns = ns.map passages := by
  induction ns with
  | nil => rfl
  | cons n ns ih => rw [passagesAll, ih, List.map_cons]

/-- The passages that a node is written as on the right of a filter. -/
def filterPassages : Node → List Passage
  | .quoted text => [.quoted text]
  | n => n.passages

/-- **A node is written as its passages.** -/
theorem text_eq_join (n : Node) : n.text = Passage.join n.passages := by
  induction n using partInduction with
  | reference v => exact (Passage.join_singleton (.fixed v.name)).symm
  | composite n hn ih =>
    have hall : ∀ ns : List Node, (∀ m ∈ ns, m ∈ n.parts) →
        (renderAll ns).map Rendered.text = (passagesAll ns).map Passage.join := by
      intro ns hns
      rw [renderAll_eq_map, passagesAll_eq_map, List.map_map, List.map_map]
      exact List.map_congr_left fun m hm => ih m (hns m hm)
    match n with
    | .expression ns =>
      rw [text, render, passages, Rendered.text_spaced, Passage.join_separated,
        hall ns fun _ hm => hm]
    | .value ns =>
      rw [text, render, passages, Rendered.text_listed, Passage.join_separated,
        hall ns fun _ hm => hm]
    | .effectCall name ns =>
      rw [text, render, passages, Rendered.text, Rendered.texts_eq_map, hall ns fun _ hm => hm,
        List.cons_append, Passage.join, Passage.join_append, Passage.join_separated,
        Passage.join_singleton, String.append_assoc]
      rfl
    | .filter key comparison operand location =>
      have hkey : key.render.text = Passage.join key.passages := ih key List.mem_cons_self
      have hoperand : operand.render.text = Passage.join operand.passages :=
        ih operand (List.mem_cons_of_mem _ List.mem_cons_self)
      rw [text, render, passages, Rendered.text, hkey, hoperand]
      simp only [List.cons_append, Passage.join, Passage.join_append, Passage.text,
        String.append_assoc, String.append_empty]
    | .url target paths => exact ih target List.mem_cons_self
    | .quoted _ => exact (Passage.join_singleton (.escaped _)).symm
    | .variable _ | .field _ | .effect _ | .keyword _ | .literal _ | .dimension _ | .color _
    | .undefined => exact (Passage.join_singleton (.fixed _)).symm

/-- On the right of a filter a node is written as its passages there. -/
theorem filterText_eq_join (n : Node) : n.filterText = Passage.join n.filterPassages := by
  match n with
  | .quoted _ => exact (Passage.join_singleton (.quoted _)).symm
  | .expression _ | .effectCall .. | .value _ | .filter .. | .url .. | .variable _ | .field _
  | .effect _ | .keyword _ | .literal _ | .dimension _ | .color _ | .undefined =>
    exact text_eq_join _

/-- Whether nodes are all written as one text each. -/
theorem all_isScalar_blot {ns : List Node}
    (h : ∀ m ∈ ns, m.blot.render.isScalar = m.render.isScalar) :
    (renderAll (ns.map blot)).all Rendered.isScalar = (renderAll ns).all Rendered.isScalar := by
  rw [renderAll_eq_map, renderAll_eq_map, List.map_map, List.all_map, List.all_map,
    Bool.eq_iff_iff, List.all_eq_true, List.all_eq_true]
  exact forall₂_congr fun m hm => iff_of_eq (congrArg (· = true) (h m hm))

/-- **Whether a node is written as one text** does not depend on literals. -/
theorem isScalar_render_blot (n : Node) : n.blot.render.isScalar = n.render.isScalar := by
  induction n using partInduction with
  | reference v => rfl
  | composite n hn ih =>
    cases n with
    | expression ns =>
      have hall := all_isScalar_blot (show ∀ m ∈ ns, _ from ih)
      rw [blot, blotAll_eq_map, render, render, Rendered.spaced, Rendered.spaced, hall]
      split
      · rfl
      · rfl
    | value ns =>
      rw [blot, blotAll_eq_map, render, render, renderAll_eq_map, renderAll_eq_map]
      cases ns with
      | nil => rfl
      | cons m ns =>
        cases ns with
        | nil => exact ih m List.mem_cons_self
        | cons m' ns => rfl
    | url target _ => exact ih target List.mem_cons_self
    | _ => rfl

/-- **To blot a node is to blot its passages.** -/
theorem passages_blot (n : Node) : n.blot.passages = n.passages.map Passage.blot := by
  induction n using partInduction with
  | reference v => rfl
  | composite n hn ih =>
    have hall : ∀ ns : List Node, (∀ m ∈ ns, m ∈ n.parts) →
        passagesAll (blotAll ns) = (passagesAll ns).map (List.map Passage.blot) := by
      intro ns hns
      rw [blotAll_eq_map, passagesAll_eq_map, passagesAll_eq_map, List.map_map, List.map_map]
      exact List.map_congr_left fun m hm => ih m (hns m hm)
    match n with
    | .expression ns =>
      have hspacing : Rendered.spacing (renderAll (blotAll ns))
          = Rendered.spacing (renderAll ns) := by
        rw [Rendered.spacing, Rendered.spacing, blotAll_eq_map,
          all_isScalar_blot fun m _ => isScalar_render_blot m]
      rw [blot, passages, passages, hspacing, hall ns fun _ hm => hm, Passage.map_blot_separated]
    | .value ns =>
      rw [blot, passages, passages, hall ns fun _ hm => hm, Passage.map_blot_separated]
    | .effectCall name ns =>
      rw [blot, passages, passages, hall ns fun _ hm => hm, List.map_append, List.map_cons,
        Passage.map_blot_separated]
      rfl
    | .filter key comparison operand location =>
      rw [blot, passages, passages, ih key List.mem_cons_self,
        ih operand (List.mem_cons_of_mem _ List.mem_cons_self)]
      simp only [List.map_append, List.map_cons, List.map_nil, Passage.blot]
    | .url target paths => exact ih target List.mem_cons_self
    | .variable _ | .field _ | .effect _ | .keyword _ | .literal _ | .quoted _ | .dimension _
    | .color _ | .undefined => rfl

/-- On the right of a filter as well. -/
theorem filterPassages_blot (n : Node) :
    n.blot.filterPassages = n.filterPassages.map Passage.blot := by
  match n with
  | .quoted _ => rfl
  | .expression _ | .effectCall .. | .value _ | .filter .. | .url .. | .variable _ | .field _
  | .effect _ | .keyword _ | .literal _ | .dimension _ | .color _ | .undefined =>
    exact passages_blot _

end Node

/-! ### Values, filters and declarations -/

/-- The passages that the components are written as, with a separator between them. -/
def Value.joinPassages (v : Value) (separator : String) : List Passage :=
  Passage.separated separator (v.components.map Node.passages)

/-- The passages that a value is written as. -/
def Value.passages (v : Value) : List Passage := v.joinPassages ", "

/-- **The passages of the renderer's expression** for a filter. -/
def Filter.passages (f : Filter) : List Passage :=
  f.key.passages ++ .fixed f.comparison.between :: f.operand.filterPassages
    ++ [.fixed f.comparison.behind]

/-- **The passages that an accepted declaration is written as.** The number is that of its
font set, if it is written as one. -/
def Pass.passages (schema : Schema) (form : Form) (r : Rule) (number : ℕ) : List Passage :=
  if r.isVariable then []
  else if needsFontSet schema r then
    [.fixed "fontset-name=\"fontset-", .number number, .fixed "\""]
  else match form with
    | .content separator => r.value.joinPassages separator
    | .assignment =>
      .fixed ((schema.xmlName? r.name).getD r.name ++ "=\"") :: r.value.passages ++ [.fixed "\""]

theorem Value.join_eq_join (v : Value) (separator : String) :
    v.join separator = Passage.join (v.joinPassages separator) := by
  rw [join, joinPassages, Passage.join_separated, List.map_map]
  exact congrArg _ (List.map_congr_left fun n _ => n.text_eq_join)

theorem Value.text_eq_join (v : Value) : v.text = Passage.join v.passages := by
  show (Rendered.listed (Node.renderAll v.components)).text = _
  rw [Rendered.text_listed, Node.renderAll_eq_map, List.map_map]
  exact v.join_eq_join ", "

theorem Filter.expression_eq_join (f : Filter) : f.expression = Passage.join f.passages := by
  rw [expression, passages, Passage.join_append, Passage.join_append, Passage.join,
    Passage.join_singleton, ← f.key.text_eq_join, ← f.operand.filterText_eq_join,
    ← String.append_assoc]
  rfl

theorem Value.joinPassages_blot (v : Value) (separator : String) :
    v.blot.joinPassages separator = (v.joinPassages separator).map Passage.blot := by
  rw [joinPassages, joinPassages, Passage.map_blot_separated, blot, List.map_map, List.map_map]
  exact congrArg _ (List.map_congr_left fun n _ => n.passages_blot)

theorem Filter.passages_blot (f : Filter) : f.blot.passages = f.passages.map Passage.blot := by
  rw [passages, passages, blot, List.map_append, List.map_append, List.map_cons,
    Node.passages_blot, Node.filterPassages_blot]
  rfl

/-- **To blot a declaration is to blot the passages that it is written as.** -/
theorem Pass.passages_blot (schema : Schema) (form : Form) (r : Rule) (number : ℕ) :
    passages schema form r.blot 0 = (passages schema form r number).map Passage.blot := by
  have hfonts : needsFontSet schema r.blot = needsFontSet schema r := by
    rw [needsFontSet, needsFontSet, show r.blot.value.components = r.value.components.map Node.blot
      from rfl, List.length_map]
    rfl
  unfold passages
  rw [hfonts, show r.blot.isVariable = r.isVariable from rfl]
  split
  · rfl
  · split
    · rfl
    · cases form with
      | content separator => exact r.value.joinPassages_blot separator
      | assignment =>
        show _ :: r.value.blot.joinPassages ", " ++ _ = _
        rw [Value.joinPassages_blot, List.map_append, List.map_cons]
        rfl

/-! ### Font sets -/

namespace FontSets

/-- **Each font set has the name that its registration gave it.** -/
def Numbered (r : FontSets) : Prop := ∀ s ∈ r.sets, ∃ number, s.name = FontSet.nameAt number

theorem numbered_empty : Numbered {} := fun _ h => absurd h List.not_mem_nil

/-- **A font set is registered with a number**, and the others keep theirs. -/
theorem Numbered.register {r : FontSets} (h : r.Numbered) (faces : List String) :
    (∃ number, (r.register faces).1.name = FontSet.nameAt number) ∧
      (r.register faces).2.Numbered := by
  rcases r.register_cases faces with ⟨s, hs, -, hregister⟩ | ⟨-, hset, hsets⟩
  · rw [hregister]
    exact ⟨h s hs, h⟩
  · refine ⟨⟨_, congrArg FontSet.name hset⟩, fun s hs => ?_⟩
    rw [hsets] at hs
    rcases List.mem_append.mp hs with hs | hs
    · exact h s hs
    · rw [List.mem_singleton.mp hs]
      exact ⟨_, rfl⟩

end FontSets

namespace Pass

variable {schema : Schema} {r : Rule}

/-- **An accepted declaration is written as its passages**, and font sets keep their
numbers. -/
theorem exists_write_eq_join (form : Form) {pass : Pass} (hfonts : pass.fontSets.Numbered)
    (haccepted : (pass.validate schema r).1 = true) :
    (∃ number, (pass.write schema form r).1 = Passage.join (passages schema form r number)) ∧
      (pass.write schema form r).2.fontSets.Numbered := by
  rcases pass.write_cases schema r form with
    ⟨hnothing, hwrite⟩ | ⟨⟨-, hproperty⟩, ⟨hset, s, fontSets, hregister, hwrite⟩ | ⟨hset, hwrite⟩⟩
  · have hvariable : r.isVariable = true := hnothing.resolve_left (by simp [haccepted])
    rw [hwrite]
    refine ⟨⟨0, ?_⟩, hfonts⟩
    unfold passages
    rw [if_pos hvariable]
    rfl
  · obtain ⟨⟨number, hname⟩, hnumbered⟩ := hfonts.register (r.value.components.map Node.text)
    rw [hregister] at hname hnumbered
    rw [hwrite]
    refine ⟨⟨number, ?_⟩, hnumbered⟩
    unfold passages
    rw [hname, if_neg (Bool.not_eq_true _ ▸ hproperty), if_pos hset]
    simp only [assignment, FontSet.nameAt, Passage.join, Passage.text, String.append_empty,
      ← String.append_assoc]
    rfl
  · rw [hwrite]
    refine ⟨⟨0, ?_⟩, hfonts⟩
    unfold passages
    rw [if_neg (Bool.not_eq_true _ ▸ hproperty), if_neg (Bool.not_eq_true _ ▸ hset)]
    cases form with
    | content separator => exact r.value.join_eq_join separator
    | assignment =>
      show assignment _ r.value.text = _
      rw [assignment, Value.text_eq_join, Passage.join_append, Passage.join,
        Passage.join_singleton]
      rfl

end Pass

/-! ## No markup -/

/-- **String literals bring no markup** into two texts that differ in nothing else. The texts
consist of passages, which are the same but for literals and numbers; there are as many quotes
and angle brackets in one as in the other, and each ampersand in a literal begins an
entity. -/
structure Harmless (ps qs : List Passage) (a b : String) : Prop where
  left : a = Passage.join ps
  right : b = Passage.join qs
  blot : ps.map Passage.blot = qs.map Passage.blot
  count : ∀ c ∈ ['"', '<', '>'], a.toList.count c = b.toList.count c
  entity : ∀ p ∈ ps ++ qs, p.isLiteral → Text.OnlyEntities p.text.toList

/-- **Passages that are the same when blotted are harmless.** -/
theorem harmless_of_blot {ps qs : List Passage} {a b : String} (ha : a = Passage.join ps)
    (hb : b = Passage.join qs) (h : ps.map Passage.blot = qs.map Passage.blot) :
    Harmless ps qs a b where
  left := ha
  right := hb
  blot := h
  count c hc := by
    rw [ha, hb, ← Passage.count_join_blot ps hc, h, Passage.count_join_blot qs hc]
  entity _ _ hp := Passage.onlyEntities_text hp

namespace Node

/-- **Either node may stand for the other** without bringing markup into what is written, in an
attribute and on the right of a filter. -/
def Inert (n m : Node) : Prop :=
  Harmless n.passages m.passages n.text m.text ∧
    Harmless n.filterPassages m.filterPassages n.filterText m.filterText

/-- **Nodes that are the same when blotted may stand for each other.** -/
theorem inert_of_blot {n m : Node} (h : n.blot = m.blot) : n.Inert m := by
  constructor
  · refine harmless_of_blot n.text_eq_join m.text_eq_join ?_
    rw [← passages_blot, ← passages_blot, h]
  · refine harmless_of_blot n.filterText_eq_join m.filterText_eq_join ?_
    rw [← filterPassages_blot, ← filterPassages_blot, h]

end Node

/-- **Either declaration may stand for the other** without bringing markup into what is written,
in any form and under any passes that accept them. -/
def Rule.Inert (r r' : Rule) : Prop :=
  ∀ (schema : Schema) (form : Pass.Form) (pass pass' : Pass), pass.fontSets.Numbered →
    pass'.fontSets.Numbered → (pass.validate schema r).1 = true →
    (pass'.validate schema r').1 = true →
    ((pass.write schema form r).2.fontSets.Numbered ∧
        (pass'.write schema form r').2.fontSets.Numbered) ∧
      ∃ number number', Harmless (Pass.passages schema form r number)
        (Pass.passages schema form r' number') (pass.write schema form r).1
        (pass'.write schema form r').1

/-- **Declarations that are the same when blotted may stand for each other.** -/
theorem Rule.inert_of_blot {r r' : Rule} (h : r.blot = r'.blot) : r.Inert r' := by
  intro schema form pass pass' hfonts hfonts' haccepted haccepted'
  obtain ⟨⟨number, hwrite⟩, hkept⟩ := Pass.exists_write_eq_join form hfonts haccepted
  obtain ⟨⟨number', hwrite'⟩, hkept'⟩ := Pass.exists_write_eq_join form hfonts' haccepted'
  refine ⟨⟨hkept, hkept'⟩, number, number', harmless_of_blot hwrite hwrite' ?_⟩
  rw [← Pass.passages_blot, ← Pass.passages_blot, h]

/-- **The expressions of filters that are the same when blotted are harmless.** -/
theorem Filter.harmless_of_blot {f g : Filter} (h : f.blot = g.blot) :
    Harmless f.passages g.passages f.expression g.expression := by
  refine MapStyle.harmless_of_blot f.expression_eq_join g.expression_eq_join ?_
  rw [← passages_blot, ← passages_blot, h]

namespace Scope

variable {sheet sheet' : Stylesheet} {p q : Progress}

/-- **String literals bring no markup into what is written.** Two stylesheets, and what is
remembered of their references, differ in nothing but the texts of string literals. Then so do
the results of evaluating what differs in nothing else: nodes, rules and filters. All of these
are harmless: nodes in an attribute and on the right of a filter, evaluated or not;
declarations that are both accepted, whatever the passes, with a number in place of a stack of
fonts; and the expressions of filters, whose evaluated operands make them up. -/
theorem literals_bring_no_markup (hsheet : sheet.blot = sheet'.blot) (frames : List RuleId)
    (hmemos : p.memos.blot = q.memos.blot) :
    (∀ n m : Node, n.blot = m.blot → n.Inert m ∧
      Agree (fun x y => x.1.blot = y.1.blot ∧ x.2.memos.blot = y.2.memos.blot ∧ x.1.Inert y.1)
        ((n.evaluate ⟨sheet, frames⟩).run p) ((m.evaluate ⟨sheet', frames⟩).run q)) ∧
    (∀ r r' : Rule, r.blot = r'.blot → r.Inert r' ∧
      Agree (fun x y => x.1.blot = y.1.blot ∧ x.2.memos.blot = y.2.memos.blot ∧ x.1.Inert y.1)
        ((r.evaluate ⟨sheet, frames⟩).run p) ((r'.evaluate ⟨sheet', frames⟩).run q)) ∧
    ∀ (f g : Filter) (keywords : Option (List String)), f.blot = g.blot →
      Agree (fun x y => x.2.memos.blot = y.2.memos.blot ∧ ∃ f' o g' o',
          (f.evaluate ⟨sheet, frames⟩).run p = .ok (f', o) ∧
          (g.evaluate ⟨sheet', frames⟩).run q = .ok (g', o') ∧ f'.blot = g'.blot ∧
          Harmless f'.passages g'.passages x.1 y.1)
        ((f.write keywords ⟨sheet, frames⟩).run p) ((g.write keywords ⟨sheet', frames⟩).run q) := by
  refine ⟨fun n m h => ⟨Node.inert_of_blot h, ?_⟩, fun r r' h => ⟨Rule.inert_of_blot h, ?_⟩,
    fun f g keywords h => ?_⟩
  · exact (evaluate_node_of_blot hsheet frames hmemos h).imp fun x y hxy =>
      ⟨hxy.1, hxy.2, Node.inert_of_blot hxy.1⟩
  · exact (evaluate_rule_of_blot hsheet frames hmemos h).imp fun x y hxy =>
      ⟨hxy.1, hxy.2, Rule.inert_of_blot hxy.1⟩
  · have hfg := evaluate_filter_of_blot hsheet frames hmemos h
    cases hf : (f.evaluate ⟨sheet, frames⟩).run p with
    | error e =>
      have hg := hfg.eq_error hf
      rw [Filter.write, StateT.run_bind, hf, Filter.write, StateT.run_bind, hg]
      exact .fault e
    | ok x =>
      obtain ⟨⟨g', o'⟩, hg, hblot, hstate⟩ := hfg.exists_of_eq_ok hf
      rw [Filter.run_write hf, Filter.run_write hg]
      exact .result ⟨hstate, x.1, x.2, g', o', rfl, hg, hblot, Filter.harmless_of_blot hblot⟩

end Scope

/-- A schema of one property, a string. -/
def Schema.ofLabel : Schema :=
  { entries := [⟨"text", "name", { css := "text-name", type := .named "string" }⟩] }

namespace Stylesheet

/-- The stylesheet `@label: "…"; text-name: @label "…"; text-name: "…";` with a text in place
of the dots. -/
def labels (text : String) : Stylesheet × Memos := ofAdditions [
  .rule (declaring "@label" true (.quoted text)) none,
  .rule (declaring "text-name" false
    (.expression [.variable (refer "@label"), .quoted text])) none,
  .rule (declaring "text-name" false (.quoted text)) none]

theorem built_labels (text : String) : (labels text).1.Built (labels text).2 :=
  built_ofAdditions rfl

/-- A label with a bracket has no more brackets than one with a quote and an ampersand, and an
attribute with it has no more quotes. -/
theorem labels_bring_no_markup :
    (∃ r r' n m o o', (labels "x<y").1.rules[1]? = some r ∧ (labels "\"&").1.rules[1]? = some r' ∧
      (r.value.node.evaluate ⟨(labels "x<y").1, [⟨0⟩]⟩).run ⟨(labels "x<y").2, {}⟩ = .ok (n, o) ∧
      (r'.value.node.evaluate ⟨(labels "\"&").1, [⟨0⟩]⟩).run ⟨(labels "\"&").2, {}⟩
        = .ok (m, o') ∧
      n.text.toList.count '<' = m.text.toList.count '<') ∧
    ∃ r r', (labels "x<y").1.rules[2]? = some r ∧ (labels "\"&").1.rules[2]? = some r' ∧
      (Pass.write (.start {}) .ofLabel .assignment r).1.toList.count '"'
        = (Pass.write (.start {}) .ofLabel .assignment r').1.toList.count '"' := by
  have hsheet : (labels "x<y").1.blot = (labels "\"&").1.blot := rfl
  have hmemos : (labels "x<y").2.blot = (labels "\"&").2.blot := congrArg Memos.blot rfl
  obtain ⟨hnodes, hrules, -⟩ := Scope.literals_bring_no_markup hsheet [⟨0⟩]
    (p := ⟨(labels "x<y").2, {}⟩) (q := ⟨(labels "\"&").2, {}⟩) hmemos
  constructor
  · obtain ⟨r, hr⟩ : ∃ r, (labels "x<y").1.rules[1]? = some r := ⟨_, rfl⟩
    obtain ⟨r', hr'⟩ : ∃ r', (labels "\"&").1.rules[1]? = some r' := ⟨_, rfl⟩
    have hblot : r.value.node.blot = r'.value.node.blot := by
      obtain rfl := Option.some.inj hr
      obtain rfl := Option.some.inj hr'
      rfl
    obtain ⟨n, o, hn⟩ : ∃ n o, (r.value.node.evaluate ⟨(labels "x<y").1, [⟨0⟩]⟩).run
        ⟨(labels "x<y").2, {}⟩ = .ok (n, o) :=
      Scope.exists_run_node (built_labels _).linked (.rule r) (List.mem_of_getElem? hr) _
    obtain ⟨⟨m, o'⟩, hm, -, -, ⟨htext, -⟩⟩ := (hnodes _ _ hblot).2.exists_of_eq_ok hn
    exact ⟨r, r', n, m, o, o', hr, hr', hn, hm, htext.count '<' (by decide)⟩
  · obtain ⟨r, hr⟩ : ∃ r, (labels "x<y").1.rules[2]? = some r := ⟨_, rfl⟩
    obtain ⟨r', hr'⟩ : ∃ r', (labels "\"&").1.rules[2]? = some r' := ⟨_, rfl⟩
    refine ⟨r, r', hr, hr', ?_⟩
    obtain rfl := Option.some.inj hr
    obtain rfl := Option.some.inj hr'
    have hblot : ((labels "x<y").1.rules[2]).blot = ((labels "\"&").1.rules[2]).blot := rfl
    obtain ⟨-, number, number', hwritten⟩ := (hrules _ _ hblot).1 .ofLabel .assignment (.start {})
      (.start {}) FontSets.numbered_empty FontSets.numbered_empty rfl rfl
    exact hwritten.count '"' (by decide)

end Stylesheet

end MapStyle
