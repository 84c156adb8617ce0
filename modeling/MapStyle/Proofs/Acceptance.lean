import MapStyle.Proofs.Passages
import MapStyle.Session

/-!
# Fonts that are known and words that are listed

Two kinds of properties list what they take: one is checked against the fonts of the settings,
the other enumerates words. What is listed is taken, with an exception in each case.

* Fonts are listed by their names and looked up by what is **written** for them. So a stack is
  taken exactly if the escaped text of one of its faces is listed
  (`Schema.configured_font_accepted_iff`). For most faces that is the name, but a font with an
  ampersand in its name is refused although it is listed (`Schema.ampersand_is_refused`).
* A word is looked for in an enumeration if it **counts** as a word. Three words do not: one
  counts as a colour and two count as booleans. These are refused although they are listed,
  unless the property takes anything (`Schema.option_accepted_iff`,
  `Schema.truth_is_refused`).

Both are left to the last of the rules for values, `Property.fits`, which is asked when none of
the special ones decides (`Property.accepts_eq_fits`).
-/

namespace MapStyle

/-! ## The last of the rules -/

namespace Property

variable {property : Property} {tables : ValidationTables}

/-- **When the special rules have nothing to say**: the value has a first component that is no
bare word, and the type looks at no more than its kind. -/
theorem accepts_eq_fits (first : Node) (rest : List Node) (hvalue : first.kind ≠ .undefined)
    (hword : first.kind ≠ .keyword)
    (htype : ∀ name ∈ ["numbers", "unsigned", "functions"], property.type ≠ .named name) :
    property.accepts tables (first :: rest) = property.fits tables first rest := by
  unfold accepts
  dsimp only
  split
  · next hkind => exact absurd hkind hvalue
  · next hkind => exact absurd hkind hword
  · split
    · next hnumbers => exact absurd hnumbers (htype _ (by decide))
    · next hunsigned => exact absurd hunsigned (htype _ (by decide))
    · next hfunctions => exact absurd hfunctions (htype _ (by decide))
    · rfl

/-- **What fits**: anything where expressions are taken, else what the table has if there is
one to be checked against, else what is of the right kind. -/
theorem fits_iff {first : Node} {rest : List Node} :
    property.fits tables first rest = true ↔
      property.expression = true ∨
        (∃ name, property.validate = some name ∧
          ∀ table, tables.table? name = some table →
            property.inTable table (first :: rest) = true) ∨
        (property.validate = none ∧ property.type.takesKind first.kind = true) := by
  unfold fits
  split
  · next hexpression => simp [hexpression]
  · next hexpression =>
    cases hvalidate : property.validate with
    | none => simp [hexpression]
    | some name => cases htable : tables.table? name <;> simp [hexpression, htable]

/-- A value is in a table if one of its components is. -/
theorem inTable_iff {table : List String} {components : List Node} :
    property.inTable table components = true ↔
      ∃ c ∈ components, c.kind.text = property.type.tableKind ∧ c.text ∈ table := by
  simp [inTable]

/-- **A stack of string literals** is in a table if the escaped text of one is. -/
theorem inTable_stack_iff (htype : property.type = .named "string") {table faces : List String} :
    property.inTable table (faces.map .quoted) = true ↔
      ∃ face ∈ faces, Text.escaped face ∈ table := by
  rw [inTable_iff, htype]
  constructor
  · rintro ⟨c, hc, -, htext⟩
    obtain ⟨face, hface, rfl⟩ := List.mem_map.mp hc
    exact ⟨face, hface, htext⟩
  · rintro ⟨face, hface, htext⟩
    exact ⟨.quoted face, List.mem_map_of_mem hface, rfl, htext⟩

end Property

/-! ## Fonts -/

namespace Text

/-- Most characters are escaped as themselves. -/
theorem escapeChar_of_notMem {c : Char} (h : c ∉ ['&', '"', '<', '>']) : escapeChar c = [c] := by
  unfold escapeChar
  split
  · exact absurd (by decide) h
  · exact absurd (by decide) h
  · exact absurd (by decide) h
  · exact absurd (by decide) h
  · rfl

/-- Where there is nothing to be escaped the characters stay as they are. -/
theorem escapeChars_eq_self {cs : List Char} (h : ∀ c ∈ cs, c ∉ ['&', '"', '<', '>']) :
    escapeChars cs = cs := by
  induction cs with
  | nil => rfl
  | cons c cs ih =>
    obtain ⟨hc, hcs⟩ := List.forall_mem_cons.mp h
    rw [escapeChars_cons, escapeChar_of_notMem hc, ih hcs, List.singleton_append]

/-- **Escaping leaves a text alone** that has nothing to be escaped. -/
theorem escaped_eq_self {s : String} (h : ∀ c ∈ s.toList, c ∉ ['&', '"', '<', '>']) :
    escaped s = s := by
  rw [escaped, escapeChars_eq_self h, String.ofList_toList]

end Text

namespace Schema

/-- A value is accepted by the property of its name. -/
theorem accepts_of_property {schema : Schema} {css : String} {property : Property}
    (h : schema.property? css = some property) (tables : ValidationTables) (v : Value) :
    schema.accepts tables css v = property.accepts tables v.components := by
  rw [Schema.accepts, h, Option.any_some]

/-- **A stack of string literals is looked up by its escaped faces**: where fonts are checked,
one of them must be among those of the settings. -/
theorem accepts_stack_iff (settings : Settings) {schema : Schema} {css : String}
    {property : Property} (hproperty : schema.property? css = some property)
    (htype : property.type = .named "string") (hvalidate : property.validate = some "font")
    {faces : List String} (hfaces : faces ≠ []) (hfonts : settings.fonts ≠ []) :
    schema.accepts (Pass.start settings).tables css ⟨faces.map .quoted⟩ = true ↔
      property.expression = true ∨ ∃ face ∈ faces, Text.escaped face ∈ settings.fonts := by
  obtain ⟨face, faces, rfl⟩ := List.exists_cons_of_ne_nil hfaces
  have htable : (Pass.start settings).tables.table? "font" = some settings.fonts := by
    show (if settings.fonts.isEmpty then none else some settings.fonts) = _
    rw [if_neg (by simpa using hfonts)]
  rw [accepts_of_property hproperty, List.map_cons, Property.accepts_eq_fits (.quoted face) _
      (show NodeKind.string ≠ .undefined by decide) (show NodeKind.string ≠ .keyword by decide)
      (by simp [htype]),
    Property.fits_iff, hvalidate]
  simp only [Option.some.injEq, reduceCtorEq, false_and, or_false, exists_eq_left', htable,
    forall_eq']
  rw [← Property.inTable_stack_iff htype, List.map_cons]

/-- **Which stacks of a configured font are accepted.** A property of type `string` is checked
against the fonts, and `face` is one of those in the settings. A stack of string literals with
this face in it is accepted exactly if the property takes expressions, or the escaped text of
one of its faces is among the fonts. If none of the four characters that are escaped is in the
face, all its stacks are accepted; and all are accepted at all only if the property takes
expressions or the escaped text of the face is among the fonts too. -/
theorem configured_font_accepted_iff (settings : Settings) (schema : Schema) (css : String)
    (property : Property) (hproperty : schema.property? css = some property)
    (htype : property.type = .named "string") (hvalidate : property.validate = some "font")
    (face : String) (hface : face ∈ settings.fonts) :
    ((∀ c ∈ face.toList, c ∉ ['&', '"', '<', '>']) → ∀ faces : List String, face ∈ faces →
        schema.accepts (Pass.start settings).tables css ⟨faces.map .quoted⟩ = true) ∧
      (∀ faces : List String, face ∈ faces →
        (schema.accepts (Pass.start settings).tables css ⟨faces.map .quoted⟩ = true ↔
          property.expression = true ∨ ∃ t ∈ faces, Text.escaped t ∈ settings.fonts)) ∧
      ((∀ faces : List String, face ∈ faces →
          schema.accepts (Pass.start settings).tables css ⟨faces.map .quoted⟩ = true) ↔
        property.expression = true ∨ Text.escaped face ∈ settings.fonts) := by
  have haccepts (faces : List String) (h : face ∈ faces) :
      schema.accepts (Pass.start settings).tables css ⟨faces.map .quoted⟩ = true ↔
        property.expression = true ∨ ∃ t ∈ faces, Text.escaped t ∈ settings.fonts :=
    accepts_stack_iff settings hproperty htype hvalidate (List.ne_nil_of_mem h)
      (List.ne_nil_of_mem hface)
  refine ⟨fun hplain faces h => ?_, haccepts, fun hall => ?_, fun hlisted faces h => ?_⟩
  · refine (haccepts faces h).mpr (Or.inr ⟨face, h, ?_⟩)
    rw [Text.escaped_eq_self hplain]
    exact hface
  · -- the stack of the face alone has no other face to be found by
    have hsingle := (haccepts [face] List.mem_cons_self).mp (hall [face] List.mem_cons_self)
    simpa using hsingle
  · exact (haccepts faces h).mpr (hlisted.imp_right fun hfont => ⟨face, h, hfont⟩)

/-- A schema of one property, the face of a text. -/
def ofFace : Schema where
  entries := [⟨"text", "face-name",
    { css := "text-face-name", type := .named "string", validate := some "font" }⟩]

end Schema

/-- Two fonts, one with an ampersand in its name. -/
def Settings.twoFonts : Settings := { fonts := ["Fell & Son", "DejaVu Sans Book"] }

namespace Schema

/-- A stack with a font that is known is accepted, although it begins with one that is not. -/
theorem known_font_is_accepted :
    "DejaVu Sans Book" ∈ Settings.twoFonts.fonts ∧
      (∀ c ∈ "DejaVu Sans Book".toList, c ∉ ['&', '"', '<', '>']) ∧
      ofFace.accepts (Pass.start .twoFonts).tables "text-face-name"
        ⟨["Comic Sans", "DejaVu Sans Book"].map .quoted⟩ = true := by
  have hface : "DejaVu Sans Book" ∈ Settings.twoFonts.fonts := by decide
  have hplain : ∀ c ∈ "DejaVu Sans Book".toList, c ∉ ['&', '"', '<', '>'] := by simp
  obtain ⟨haccepted, -, -⟩ :=
    configured_font_accepted_iff .twoFonts ofFace "text-face-name" _ rfl rfl rfl _ hface
  exact ⟨hface, hplain, haccepted hplain _ (by decide)⟩

/-- **A font with an ampersand in its name is refused**, although it is configured: it is
looked up as `Fell &amp; Son`. -/
theorem ampersand_is_refused :
    "Fell & Son" ∈ Settings.twoFonts.fonts ∧
      ofFace.accepts (Pass.start .twoFonts).tables "text-face-name"
        ⟨["Fell & Son"].map .quoted⟩ = false := by
  decide

end Schema

/-! ## Words -/

/-- **The words that count as words** are all but three. -/
theorem NodeKind.ofWord_eq_keyword_iff (word : String) :
    ofWord word = .keyword ↔ word ∉ ["transparent", "true", "false"] := by
  unfold ofWord
  split
  · next htransparent => simp [htransparent]
  · next htransparent =>
    split
    · next hboolean => rcases hboolean with rfl | rfl <;> simp
    · next hboolean =>
      obtain ⟨htrue, hfalse⟩ := not_or.mp hboolean
      simp [htransparent, htrue, hfalse]

/-- A word stands for something. -/
theorem NodeKind.ofWord_ne_undefined (word : String) : ofWord word ≠ .undefined := by
  unfold ofWord
  split
  · decide
  · split <;> decide

/-- No other kind has the name of the kind of words. -/
theorem NodeKind.eq_keyword_of_text {k : NodeKind} (h : k.text = "keyword") : k = .keyword := by
  cases k with
  | keyword => rfl
  | _ => exact absurd h (by decide)

namespace Property

variable {property : Property} {tables : ValidationTables} {options : List String}
  {word : String}

/-- A word that counts as one is accepted exactly if it is listed. -/
theorem accepts_word_iff (htype : property.type = .keywords options)
    (hword : (Node.keyword word).kind = .keyword) :
    property.accepts tables [.keyword word] = true ↔ word ∈ options := by
  unfold accepts
  dsimp only
  rw [hword, htype]
  exact List.contains_iff_mem

/-- **A word that counts as something else** is accepted if any value is. -/
theorem accepts_other_word_iff (htype : property.type = .keywords options)
    (hword : (Node.keyword word).kind ≠ .keyword) :
    property.accepts tables [.keyword word] = true ↔
      property.expression = true ∨
        ∃ name, property.validate = some name ∧ tables.table? name = none := by
  -- components of another kind are not looked up in a table
  have htable (table : List String) : property.inTable table [.keyword word] = false := by
    refine Bool.eq_false_iff.mpr fun h => ?_
    obtain ⟨c, hc, hkind, -⟩ := inTable_iff.mp h
    rw [List.mem_singleton.mp hc, htype] at hkind
    exact hword (NodeKind.eq_keyword_of_text hkind)
  rw [accepts_eq_fits (.keyword word) [] (NodeKind.ofWord_ne_undefined word) hword
    (by simp [htype]), fits_iff]
  simp only [htable, htype, PropertyType.takesKind, Bool.false_eq_true, and_false, or_false]
  refine or_congr_right (exists_congr fun name => and_congr_right fun _ => ?_)
  exact Option.eq_none_iff_forall_ne_some.symm

end Property

namespace Schema

/-- **Which options of an enumeration are accepted.** A property enumerates words, and `word`
is one of them. As the only component of a value it is accepted, whatever else is asked of the
property and whatever tables there are, unless it is one of the three words that do not count
as words. Those are accepted exactly if the property takes expressions or names a table that is
not there. -/
theorem option_accepted_iff (schema : Schema) (tables : ValidationTables) (css : String)
    (property : Property) (hproperty : schema.property? css = some property)
    (options : List String) (htype : property.type = .keywords options) (word : String)
    (hword : word ∈ options) :
    schema.accepts tables css ⟨[.keyword word]⟩ = true ↔
      word ∉ ["transparent", "true", "false"] ∨ property.expression = true ∨
        ∃ name, property.validate = some name ∧ tables.table? name = none := by
  rw [accepts_of_property hproperty, ← NodeKind.ofWord_eq_keyword_iff]
  by_cases hkind : NodeKind.ofWord word = .keyword
  · rw [Property.accepts_word_iff htype hkind]
    exact iff_of_true hword (Or.inl hkind)
  · rw [Property.accepts_other_word_iff htype hkind]
    exact (or_iff_right hkind).symm

/-- A schema of one property, three ways to draw a line. -/
def ofClip : Schema where
  entries := [⟨"line", "clip", { css := "line-clip", type := .keywords ["true", "auto"] }⟩]

/-- The word that counts as a word is accepted. -/
theorem auto_is_accepted :
    "auto" ∈ ["true", "auto"] ∧ ofClip.accepts {} "line-clip" ⟨[.keyword "auto"]⟩ = true :=
  ⟨by decide, (option_accepted_iff ofClip {} "line-clip" _ rfl ["true", "auto"] rfl "auto"
    (by decide)).mpr (Or.inl (by decide))⟩

/-- **The word `true` is refused**, although it is an option: it counts as a boolean. -/
theorem truth_is_refused :
    "true" ∈ ["true", "auto"] ∧ ofClip.accepts {} "line-clip" ⟨[.keyword "true"]⟩ = false := by
  decide

end Schema

end MapStyle
