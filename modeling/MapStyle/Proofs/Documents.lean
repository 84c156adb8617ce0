import MapStyle.Proofs.Order
import MapStyle.Schema.Decoding
import Mathlib.Data.List.Induction

/-!
# Schemas of documents

The document of a schema groups properties by symbolizer and by XML name, and a stylesheet
name may stand in it more than once. A schema lists each name where the document has it first
(`Schema.names_of_ofDocument`), and whatever is asked about a name is answered from the first
property that has it (`Schema.found_of_ofDocument`). A document in which some property has no
name at all is refused as a whole, even if nobody would ever look at that property.

All of this is said of the document as one list. A document can be read through in one go as
well, symbolizer by symbolizer and property by property, and what is read then is kept unless
its name is taken (`Schema.takeUp`): that stops at the first property without a name, and
otherwise ends with the same entries (`Schema.readThrough_eq`).
-/

namespace MapStyle

namespace Schema

/-! ## The first entry of each name -/

/-- The names of a document, each once, where it stands first. -/
theorem css_firsts_cons (e : Entry) (es : List Entry) :
    (firsts (e :: es)).map Entry.css
      = e.css :: ((firsts es).map Entry.css).filter (· ≠ e.css) := by
  rw [firsts, List.map_cons, List.filter_map]
  rfl

/-- **No name is repeated, and none gets lost** or changes its place. -/
theorem css_firsts (es : List Entry) :
    (firsts es).map Entry.css = (es.map Entry.css).eraseDups := by
  induction es with
  | nil => rfl
  | cons e es ih =>
    rw [css_firsts_cons, ih, filter_eraseDups, List.map_cons, List.eraseDups_cons]
    refine congrArg (e.css :: ·) (congrArg List.eraseDups (List.filter_congr fun css _ => ?_))
    by_cases h : css = e.css
    · simp [h]
    · simp [h]

/-- **What is found under a name** is its first entry, among the first entries as among
all. -/
theorem find?_firsts (es : List Entry) (css : String) :
    (firsts es).find? (·.css = css) = es.find? (·.css = css) := by
  induction es with
  | nil => rfl
  | cons e es ih =>
    rw [firsts, List.find?_cons, List.find?_cons]
    by_cases he : e.css = css
    · simp [he]
    · rw [decide_eq_false he, List.find?_filter, ← ih]
      refine congrArg (List.find? · (firsts es)) (funext fun d => ?_)
      by_cases hd : d.css = css
      · simp [hd, Ne.symm he]
      · simp [hd]

/-- The first entries have all the names. -/
theorem mem_css_firsts_iff (es : List Entry) (css : String) :
    css ∈ (firsts es).map Entry.css ↔ css ∈ es.map Entry.css := by
  rw [css_firsts, List.mem_eraseDups]

/-- An entry with a new name is the first of its name. -/
theorem firsts_concat_of_notMem {es : List Entry} {e : Entry} (h : e.css ∉ es.map Entry.css) :
    firsts (es ++ [e]) = firsts es ++ [e] := by
  induction es with
  | nil => rfl
  | cons d es ih =>
    obtain ⟨hd, hes⟩ := not_or.mp (mt List.mem_cons.mpr h)
    rw [List.cons_append, firsts, firsts, ih hes, List.filter_append, List.filter_singleton,
      decide_eq_true hd]
    rfl

/-- An entry whose name was there before is not. -/
theorem firsts_concat_of_mem {es : List Entry} {e : Entry} (h : e.css ∈ es.map Entry.css) :
    firsts (es ++ [e]) = firsts es := by
  induction es with
  | nil => exact absurd h List.not_mem_nil
  | cons d es ih =>
    rw [List.cons_append, firsts, firsts]
    by_cases hes : e.css ∈ es.map Entry.css
    · rw [ih hes]
    · -- the name was that of the entry in front, and is left out behind it
      have hd : e.css = d.css := (List.mem_cons.mp h).resolve_right hes
      rw [firsts_concat_of_notMem hes, List.filter_append, List.filter_singleton,
        decide_eq_false (not_not.mpr hd), Bool.cond_false, List.append_nil]

/-! ## Documents read through -/

/-- **One entry more** when a document is read through: it is refused if it has no name, and
passed over if its name is taken. -/
def takeUp (known : List Entry) (e : Entry) : Except StyleError (List Entry) :=
  if e.css.isEmpty then .error (namelessError e)
  else if known.any (·.css = e.css) then .ok known
  else .ok (known ++ [e])

/-- **The entries of a document read through**, symbolizer by symbolizer and property by
property. -/
def readThrough (document : Document) : Except StyleError (List Entry) :=
  document.foldlM (fun known (symbolizer, properties) =>
    properties.foldlM (fun known (xmlName, property) =>
      takeUp known ⟨symbolizer, xmlName, property⟩) known) []

/-- **A step of the reading**: of what was read the first entries are known. -/
theorem takeUp_firsts (es : List Entry) (e : Entry) :
    takeUp (firsts es) e
      = if e.css.isEmpty then .error (namelessError e) else .ok (firsts (es ++ [e])) := by
  have hknown : (firsts es).any (·.css = e.css) = true ↔ e.css ∈ es.map Entry.css := by
    rw [← mem_css_firsts_iff, List.any_eq_true, List.mem_map]
    simp only [decide_eq_true_eq]
  unfold takeUp
  by_cases hmem : e.css ∈ es.map Entry.css
  · rw [if_pos (hknown.mpr hmem), firsts_concat_of_mem hmem]
  · rw [if_neg (mt hknown.mp hmem), firsts_concat_of_notMem hmem]

/-- **The entries read one after the other**: the first entries of all are known in the end,
unless one has no name, and then the first such one is refused. -/
theorem foldlM_takeUp (es : List Entry) :
    es.foldlM takeUp [] = match es.find? (·.css.isEmpty) with
      | some e => .error (namelessError e)
      | none => .ok (firsts es) := by
  induction es using List.reverseRecOn with
  | nil => rfl
  | append_singleton es e ih =>
    rw [List.foldlM_append, ih, List.find?_append]
    cases es.find? (·.css.isEmpty) with
    | some d => rfl
    | none =>
      show [e].foldlM takeUp (firsts es) = _
      rw [List.foldlM_cons, takeUp_firsts, Option.none_or, List.find?_cons]
      cases e.css.isEmpty with
      | true => rfl
      | false => rfl

/-- Reading a document through is reading its entries one after the other. -/
theorem foldlM_entriesOf (document : Document) (known : List Entry) :
    document.foldlM (fun known (symbolizer, properties) =>
      properties.foldlM (fun known (xmlName, property) =>
        takeUp known ⟨symbolizer, xmlName, property⟩) known) known
      = (entriesOf document).foldlM takeUp known := by
  induction document generalizing known with
  | nil => rfl
  | cons group document ih =>
    rw [entriesOf, List.flatMap_cons, List.foldlM_append, List.foldlM_map, List.foldlM_cons]
    exact congrArg _ (funext ih)

/-- **The schema of a document** is what is known when it was read through. -/
theorem readThrough_eq (document : Document) (keywords : Option (List String)) :
    (readThrough document).map (fun entries => { entries, filterKeywords := keywords })
      = ofDocument document keywords := by
  rw [readThrough, foldlM_entriesOf, foldlM_takeUp, ofDocument]
  cases (entriesOf document).find? (·.css.isEmpty) with
  | some e => rfl
  | none => rfl

/-! ## What a schema says of its document -/

/-- **The first entry of a name** in a document: none in front of it has the name. -/
structure IsFirst (es : List Entry) (css : String) (e : Entry) : Prop where
  css_eq : e.css = css
  exists_split : ∃ before after, es = before ++ e :: after ∧ ∀ d ∈ before, d.css ≠ css

/-- The first entry of a name is the one that is found. -/
theorem isFirst_iff {es : List Entry} {css : String} {e : Entry} :
    IsFirst es css e ↔ es.find? (·.css = css) = some e := by
  rw [List.find?_eq_some_iff_append, decide_eq_true_iff]
  constructor
  · rintro ⟨hcss, before, after, hes, hbefore⟩
    exact ⟨hcss, before, after, hes, fun d hd => by simpa using hbefore d hd⟩
  · rintro ⟨hcss, before, after, hes, hbefore⟩
    exact ⟨hcss, before, after, hes, fun d hd => by simpa using hbefore d hd⟩

/-- **When a document has a schema**: each of its properties has a name. -/
theorem ofDocument_cases (document : Document) (keywords : Option (List String)) :
    (∃ e ∈ entriesOf document, e.css = "" ∧
        ofDocument document keywords = .error (namelessError e)) ∨
      (∀ e ∈ entriesOf document, e.css ≠ "") ∧ ofDocument document keywords
        = .ok { entries := firsts (entriesOf document), filterKeywords := keywords } := by
  unfold ofDocument
  dsimp only
  cases hfind : (entriesOf document).find? (·.css.isEmpty) with
  | some e =>
    have hempty := List.find?_some hfind
    exact Or.inl ⟨e, List.mem_of_find?_eq_some hfind, String.isEmpty_iff.mp hempty, rfl⟩
  | none =>
    refine Or.inr ⟨fun e he hcss => ?_, rfl⟩
    exact List.find?_eq_none.mp hfind e he (String.isEmpty_iff.mpr hcss)

/-- The schema of a document has the first entry of each name. -/
theorem entries_of_ofDocument {document : Document} {keywords : Option (List String)}
    {schema : Schema} (h : ofDocument document keywords = .ok schema) :
    schema.entries = firsts (entriesOf document) := by
  rcases ofDocument_cases document keywords with ⟨e, -, -, herror⟩ | ⟨-, hok⟩
  · cases herror.symm.trans h
  · cases hok.symm.trans h
    rfl

variable {document : Document} {keywords : Option (List String)} {schema : Schema}

/-- **A schema lists each name** where its document has it first. -/
theorem names_of_ofDocument (h : ofDocument document keywords = .ok schema) :
    schema.names = ((entriesOf document).map Entry.css).eraseDups := by
  rw [names, entries_of_ofDocument h, css_firsts]

/-- **A schema finds under a name** the first entry of its document with that name. -/
theorem found_of_ofDocument (h : ofDocument document keywords = .ok schema) (css : String) :
    schema.entry? css = (entriesOf document).find? (·.css = css) := by
  unfold entry?
  rw [entries_of_ofDocument h, find?_firsts]

/-- **What a schema knows of a name**, if anything: all that can be asked is told by one
entry. -/
structure Describes (schema : Schema) (css : String) (e : Option Entry) : Prop where
  entry : schema.entry? css = e
  property : schema.property? css = e.map (·.property)
  symbolizer : schema.symbolizer? css = e.map (·.symbolizer)
  xmlName : schema.xmlName? css = e.map (·.xmlName)

/-- What is found under a name tells all. -/
theorem describes_of_found {css : String} {e : Option Entry} (h : schema.entry? css = e) :
    schema.Describes css e where
  entry := h
  property := by rw [property?, h]
  symbolizer := by rw [symbolizer?, h]
  xmlName := by rw [xmlName?, h]

/-- **The first property counts.** A text spells a document, a list of symbolizers with the
properties of each. It is read property by property: a property is refused if it has no
stylesheet name, passed over if the name was there before, and taken up at the end if not. So
reading fails exactly if some property has no name, also if it would have been passed over.
Otherwise the schema lists the names of the document in its order, without repetitions, and
each way of asking about a name is answered from the first property that has it, or not at all
if none has. -/
theorem first_property_counts {text : String}
    (hdecode : (JsonSource.read? text).bind partsOfJson? = some (document, keywords)) :
    ofJson text = (readThrough document).map
        (fun entries => { entries, filterKeywords := keywords }) ∧
      ((∃ message, ofJson text = .error (.schema message)) ↔
        ∃ e ∈ entriesOf document, e.css = "") ∧
      ((∀ e ∈ entriesOf document, e.css ≠ "") → ∃ schema, ofJson text = .ok schema ∧
        schema.names = ((entriesOf document).map Entry.css).eraseDups ∧
        (∀ css ∈ (entriesOf document).map Entry.css,
          ∃ e, IsFirst (entriesOf document) css e ∧ schema.Describes css (some e)) ∧
        ∀ css ∉ (entriesOf document).map Entry.css, schema.Describes css none) := by
  have hdocument : ofJson text = ofDocument document keywords := by rw [ofJson, hdecode]
  rw [hdocument]
  refine ⟨(readThrough_eq document keywords).symm, ?_, fun hnamed => ?_⟩
  · rcases ofDocument_cases document keywords with ⟨e, he, hcss, herror⟩ | ⟨hnamed, hok⟩
    · exact iff_of_true ⟨_, herror⟩ ⟨e, he, hcss⟩
    · rw [hok]
      exact iff_of_false (fun ⟨_, h⟩ => nomatch h) fun ⟨e, he, hcss⟩ => hnamed e he hcss
  · rcases ofDocument_cases document keywords with ⟨e, he, hcss, -⟩ | ⟨-, hok⟩
    · exact absurd hcss (hnamed e he)
    · refine ⟨_, hok, names_of_ofDocument hok, fun css hcss => ?_, fun css hcss => ?_⟩
      · obtain ⟨e, he, rfl⟩ := List.mem_map.mp hcss
        have hsome : ((entriesOf document).find? (·.css = e.css)).isSome :=
          List.find?_isSome.mpr ⟨e, he, decide_eq_true rfl⟩
        obtain ⟨d, hd⟩ := Option.isSome_iff_exists.mp hsome
        exact ⟨d, isFirst_iff.mpr hd, describes_of_found ((found_of_ofDocument hok _).trans hd)⟩
      · refine describes_of_found ((found_of_ofDocument hok css).trans ?_)
        refine List.find?_eq_none.mpr fun e he h => hcss ?_
        exact List.mem_map.mpr ⟨e, he, of_decide_eq_true h⟩

/-- Two offsets, of which one is a property of two symbolizers. -/
def offsets : Document := [
  ("text", [("dx", { css := "text-dx", type := .named "float" }),
    ("dy", { css := "text-dy", type := .named "float" })]),
  ("shield", [("dx", { css := "text-dx", type := .named "float" })])]

/-- The offsets as they are written. -/
def offsetsText : String :=
  "\x7b\"symbolizers\": \x7b" ++
    "\"text\": \x7b\"dx\": \x7b\"css\": \"text-dx\", \"type\": \"float\"\x7d, " ++
      "\"dy\": \x7b\"css\": \"text-dy\", \"type\": \"float\"\x7d\x7d, " ++
    "\"shield\": \x7b\"dx\": \x7b\"css\": \"text-dx\", \"type\": \"float\"\x7d\x7d" ++
  "\x7d\x7d"

/-- What the written offsets say before their strings are read. -/
def offsetsSource : JsonSource :=
  let spelt (text : String) : List Glyph := text.toList.map .char
  let offset (css : String) : JsonSource :=
    .object [(spelt "css", .string (spelt css)), (spelt "type", .string (spelt "float"))]
  .object [(spelt "symbolizers", .object [
    (spelt "text", .object [(spelt "dx", offset "text-dx"), (spelt "dy", offset "text-dy")]),
    (spelt "shield", .object [(spelt "dx", offset "text-dx")])])]

/-- The offset of two symbolizers is that of the first. -/
theorem shared_offset_is_of_text :
    (JsonSource.read? offsetsText).bind partsOfJson? = some (offsets, none) ∧
      (∀ e ∈ entriesOf offsets, e.css ≠ "") ∧
      ∃ schema, ofJson offsetsText = .ok schema ∧ schema.names = ["text-dx", "text-dy"] ∧
        schema.symbolizer? "text-dx" = some "text" ∧ schema.xmlName? "dx" = none := by
  have hread : JsonSource.read? offsetsText = some offsetsSource := by cbv
  have hdecode : (JsonSource.read? offsetsText).bind partsOfJson? = some (offsets, none) := by
    rw [hread]
    rfl
  have hnamed : ∀ e ∈ entriesOf offsets, e.css ≠ "" := by decide
  obtain ⟨-, -, hschema⟩ := first_property_counts hdecode
  obtain ⟨schema, hok, hnames, hfirst, hnone⟩ := hschema hnamed
  obtain ⟨e, he, hdescribes⟩ := hfirst "text-dx" (by decide)
  obtain rfl := Option.some.inj (isFirst_iff.mp he)
  exact ⟨hdecode, hnamed, schema, hok, hnames, hdescribes.symbolizer,
    (hnone "dx" (by decide)).xmlName⟩

end Schema

end MapStyle
