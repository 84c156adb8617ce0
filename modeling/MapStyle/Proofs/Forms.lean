import MapStyle.Proofs.Reports
import MapStyle.Proofs.Verdicts

/-!
# One value in two forms

A declaration is written as an attribute, with its value between quotes, or as its content
alone, the components of the value with a text between them. The two are made in different
ways: the attribute shows the rendering of the whole value, in which lists may stand in lists,
and the content joins the texts of the components.

With commas between the components this is one text. A rendering has commas between the items
of a list at any depth, so it shows its single texts one after the other, however they are
nested (`Rendered.ReadsFlat`), and an item that is put in as a text leaves the same behind as one
that is put in as a rendering (`Value.join_eq_text`). So a declaration that is accepted says the
same in both forms, and everything else that is done about it is done before the form is looked
at (`Pass.forms_write_alike`). Only a stack of fonts has no content to speak of: it is written as
the name of its set in either form.
-/

namespace MapStyle

/-! ## Lists in lists -/

namespace Rendered

mutual

/-- **The single texts of a rendering**, from left to right and at any depth. -/
def singles : Rendered → List String
  | .scalar text => [text]
  | .list items => singlesAll items

/-- The single texts of several renderings. -/
def singlesAll : List Rendered → List String
  | [] => []
  | r :: rs => r.singles ++ singlesAll rs

end

@[simp] theorem singlesAll_eq_flatMap (rs : List Rendered) :
    singlesAll rs = rs.flatMap singles := by
  induction rs with
  | nil => rfl
  | cons r rs ih => rw [singlesAll, ih, List.flatMap_cons]

/-- **A rendering reads flat** if its text is its single texts with commas between them. -/
structure ReadsFlat (r : Rendered) : Prop where
  singles_ne_nil : r.singles ≠ []
  text_eq : r.text = ", ".intercalate r.singles

theorem readsFlat_scalar (text : String) : (scalar text).ReadsFlat where
  singles_ne_nil := List.cons_ne_nil _ _
  text_eq := String.intercalate_singleton.symm

/-- **A list reads flat if its items do.** -/
theorem readsFlat_list {rs : List Rendered} (hne : rs ≠ []) (h : ∀ r ∈ rs, r.ReadsFlat) :
    (list rs).ReadsFlat := by
  have hflat : rs.flatMap singles ≠ [] ∧
      ", ".intercalate (rs.map text) = ", ".intercalate (rs.flatMap singles) := by
    induction rs with
    | nil => exact absurd rfl hne
    | cons r rs ih =>
      obtain ⟨⟨hsingles, htext⟩, hrest⟩ := List.forall_mem_cons.mp h
      refine ⟨by simp [hsingles], ?_⟩
      rw [List.map_cons, List.flatMap_cons, htext]
      by_cases hrs : rs = []
      · rw [hrs, List.map_nil, List.flatMap_nil, List.append_nil, String.intercalate_singleton]
      · obtain ⟨hne', heq⟩ := ih hrs hrest
        rw [String.intercalate_cons_of_ne_nil (by simpa using hrs), heq,
          String.intercalate_append_of_ne_nil hsingles hne']
  constructor
  · rw [singles, singlesAll_eq_flatMap]
    exact hflat.1
  · rw [singles, singlesAll_eq_flatMap, text, texts_eq_map]
    exact hflat.2

/-- So do renderings set off by spaces, where a list among them brings in commas. -/
theorem readsFlat_spaced {rs : List Rendered} (h : ∀ r ∈ rs, r.ReadsFlat) :
    (spaced rs).ReadsFlat := by
  unfold spaced
  split
  · exact readsFlat_scalar _
  · next hlist =>
    refine readsFlat_list ?_ h
    rintro rfl
    exact hlist rfl

/-- So do renderings set off by commas. -/
theorem readsFlat_listed {rs : List Rendered} (h : ∀ r ∈ rs, r.ReadsFlat) :
    (listed rs).ReadsFlat := by
  match rs with
  | [] => exact readsFlat_scalar _
  | [r] => exact h r (List.mem_singleton_self r)
  | r :: r' :: rs => exact readsFlat_list (List.cons_ne_nil _ _) h

end Rendered

/-- **Every node reads flat.** -/
theorem Node.readsFlat_render (n : Node) : n.render.ReadsFlat := by
  induction n using partInduction with
  | reference v => exact Rendered.readsFlat_scalar _
  | composite n hn ih =>
    have hall (ns : List Node) (hns : ∀ m ∈ ns, m.render.ReadsFlat) :
        ∀ r ∈ renderAll ns, r.ReadsFlat := by
      rw [renderAll_eq_map]
      exact List.forall_mem_map.mpr hns
    match n with
    | .expression ns => exact Rendered.readsFlat_spaced (hall ns ih)
    | .value ns => exact Rendered.readsFlat_listed (hall ns ih)
    | .url target paths => exact ih target List.mem_cons_self
    | .filter .. | .effectCall .. | .variable _ | .field _ | .effect _ | .keyword _ | .literal _
    | .quoted _ | .dimension _ | .color _ | .undefined => exact Rendered.readsFlat_scalar _

/-! ## Values -/

namespace Value

variable (v : Value)

/-- **Every value reads flat.** -/
theorem readsFlat_render : v.render.ReadsFlat := v.node.readsFlat_render

/-- **The components with commas between them are the text of the value.** -/
theorem join_eq_text : v.join ", " = v.text := by
  rw [text, render, Rendered.text_listed, Node.renderAll_eq_map, List.map_map]
  rfl

end Value

/-! ## Declarations -/

namespace Pass

variable {pass : Pass} {schema : Schema} {r : Rule}

/-- **The property of a declaration that is accepted is known**, unless it declares a
variable. -/
theorem exists_entry?_of_accepted (haccepted : (pass.validate schema r).1 = true)
    (hproperty : r.isVariable = false) : ∃ e, schema.entry? r.name = some e := by
  have hknows : schema.knows r.name = true := by
    by_contra hunknown
    rw [Bool.not_eq_true] at hunknown
    have hcheck : r.check schema pass.settings pass.tables
        = ⟨false, [r.unrecognizedReport schema pass.settings]⟩ := by
      rw [Rule.check, if_pos (by rw [hproperty, hunknown]; rfl)]
    rw [validate, hcheck] at haccepted
    exact Bool.false_ne_true haccepted
  rw [Schema.knows, Schema.property?, Option.isSome_map] at hknows
  exact Option.isSome_iff_exists.mp hknows

/-- **Both forms write the same value**. A declaration that is accepted, declares no variable and
is no stack of fonts is written as the name that its property has for the renderer and, between
quotes, its content with commas between the components. Either way the pass is the same
afterwards, reports included. The content is the text of the value: as for any value, its single
texts at any depth with commas between them. -/
theorem forms_write_alike (pass : Pass) (schema : Schema) (r : Rule)
    (haccepted : (pass.validate schema r).1 = true) (hproperty : r.isVariable = false)
    (hplain : ¬(schema.isFont r.name = true ∧ 1 < r.value.components.length)) :
    (∃ name content after,
      schema.xmlName? r.name = some name ∧
      pass.write schema (.content Form.defaultSeparator) r = (content, after) ∧
      pass.write schema .assignment r = (name ++ "=\"" ++ content ++ "\"", after) ∧
      content = r.value.text) ∧
    ∀ v : Value, v.join Form.defaultSeparator = v.text ∧
      v.text = ", ".intercalate v.render.singles := by
  refine ⟨?_, fun v => ⟨v.join_eq_text, v.readsFlat_render.text_eq⟩⟩
  obtain ⟨e, he⟩ := exists_entry?_of_accepted haccepted hproperty
  have hname : schema.xmlName? r.name = some e.xmlName := by
    rw [Schema.xmlName?, he, Option.map_some]
  have hwrite (form : Form) :
      pass.write schema form r = (plainText schema r form, (pass.validate schema r).2) := by
    rcases pass.write_cases schema r form with
      ⟨hnothing, -⟩ | ⟨-, ⟨hstack, -⟩ | ⟨-, hwrite⟩⟩
    · exact absurd hnothing (by simp [haccepted, hproperty])
    · exact absurd ((needsFontSet_iff schema r).mp hstack) hplain
    · exact hwrite
  refine ⟨e.xmlName, r.value.text, (pass.validate schema r).2, hname, ?_, ?_, rfl⟩
  · rw [hwrite, plainText]
    exact congrArg (·, _) r.value.join_eq_text
  · rw [hwrite, plainText, hname]
    rfl

end Pass

/-- A schema of one property, which is not settled and takes any expression. -/
def Schema.ofNames : Schema where
  entries := [⟨"text", "name",
    { css := "text-name", type := .named "string", status := .unstable, expression := true }⟩]

/-- The declaration of a string and an expression with a list in it. -/
def Rule.nested : Rule :=
  .declare Schema.ofNames.symbolizer? "text-name"
    ⟨[.quoted "a", .expression [.value [.quoted "b", .keyword "c"], .field "d"]]⟩ ⟨none, 0⟩

/-- The declaration is accepted with a warning, and what is in its lists is written one after the
other in both forms. -/
theorem Pass.nested_forms_write_alike :
    ((Pass.start {}).validate .ofNames .nested).1 = true ∧ Rule.nested.isVariable = false ∧
      ¬(Schema.ofNames.isFont Rule.nested.name = true ∧
        1 < Rule.nested.value.components.length) ∧
      ∃ after, Pass.write (.start {}) .ofNames (.content Form.defaultSeparator) .nested
          = ("a, b, c, [d]", after) ∧
        Pass.write (.start {}) .ofNames .assignment .nested
          = ("name=\"a, b, c, [d]\"", after) ∧ after.log.entries.length = 1 := by
  have haccepted : ((Pass.start {}).validate .ofNames .nested).1 = true := by decide
  have hproperty : Rule.nested.isVariable = false := by decide
  have hplain : ¬(Schema.ofNames.isFont Rule.nested.name = true ∧
      1 < Rule.nested.value.components.length) := by decide
  obtain ⟨⟨name, content, after, hname, hcontent, hassignment, htext⟩, -⟩ :=
    forms_write_alike (.start {}) .ofNames .nested haccepted hproperty hplain
  obtain rfl : "name" = name := Option.some.inj hname
  obtain rfl : content = "a, b, c, [d]" := htext.trans (by decide)
  refine ⟨haccepted, hproperty, hplain, after, hcontent, hassignment, ?_⟩
  obtain rfl := congrArg Prod.snd hcontent
  rfl

end MapStyle
