import MapStyle.Proofs.Documents
import MapStyle.Proofs.Edits
import MapStyle.Proofs.Writing
import Mathlib.Data.List.Induction

/-!
# What is suggested for an unknown name

A property that the schema does not know is refused, and nothing but that is reported
(`Pass.unknown_name_is_refused`). The report suggests a name where one is near enough: the
**first of the nearest** (`Schema.FirstNearest`), that is, a name that no other is nearer
than, and of several such names the one that is declared first.

The scan through the names keeps the nearest name so far and gives it up only for one that is
nearer still, so what it ends with is the first of the nearest (`Schema.closest?_eq_some_iff`).
A schema lists each name once, where the document has it first. So the first of the nearest
names of the schema is that of the document (`Schema.firstNearest_of_document`).
-/

namespace MapStyle

namespace Schema

/-! ## The first of the nearest -/

/-- **The first of the nearest names** among those declared, and its distance. -/
structure FirstNearest (declared : List String) (name m : String) (n : ℕ) : Prop where
  /-- It is declared. -/
  mem : m ∈ declared
  distance : Text.IsDistance name m n
  /-- No name is nearer. -/
  le : ∀ k ∈ declared, ∀ l, Text.IsDistance name k l → n ≤ l
  /-- None that is as near is declared earlier. -/
  first : ∀ k ∈ declared, Text.IsDistance name k n → declared.idxOf m ≤ declared.idxOf k

variable {declared declared' : List String} {name m m' : String} {n n' : ℕ}

/-- There is one such name at most. -/
theorem FirstNearest.unique (h : FirstNearest declared name m n)
    (h' : FirstNearest declared name m' n') : m = m' ∧ n = n' := by
  have hn : n = n' := le_antisymm (h.le m' h'.mem n' h'.distance) (h'.le m h.mem n h.distance)
  subst hn
  have hindex : declared.idxOf m = declared.idxOf m' :=
    le_antisymm (h.first m' h'.mem h'.distance) (h'.first m h.mem h.distance)
  exact ⟨(List.idxOf_inj h.mem).mp hindex, rfl⟩

/-- Which names there are and which comes first is all that matters. -/
theorem FirstNearest.of_order (h : FirstNearest declared name m n)
    (hmem : ∀ k, k ∈ declared ↔ k ∈ declared')
    (horder : ∀ j k, declared.idxOf j < declared.idxOf k ↔ declared'.idxOf j < declared'.idxOf k) :
    FirstNearest declared' name m n where
  mem := (hmem m).mp h.mem
  distance := h.distance
  le k hk := h.le k ((hmem k).mpr hk)
  first k hk hdistance := by
    have hle := h.first k ((hmem k).mpr hk) hdistance
    exact le_of_not_gt fun hlt => hle.not_gt ((horder k m).mpr hlt)

/-! ## The scan -/

/-- A name that is not nearer does not count if it is declared later. -/
theorem FirstNearest.concat (h : FirstNearest declared name m n) {k : String}
    (hk : n ≤ Text.editDistance name k) : FirstNearest (declared ++ [k]) name m n where
  mem := List.mem_append_left _ h.mem
  distance := h.distance
  le j hj l hl := by
    rcases List.mem_append.mp hj with hj | hj
    · exact h.le j hj l hl
    · rw [Text.isDistance_iff.mp hl, List.mem_singleton.mp hj]
      exact hk
  first j hj hdistance := by
    rw [List.idxOf_append_of_mem h.mem]
    by_cases hmem : j ∈ declared
    · rw [List.idxOf_append_of_mem hmem]
      exact h.first j hmem hdistance
    · rw [List.idxOf_append_of_notMem hmem]
      exact (List.idxOf_lt_length_of_mem h.mem).le.trans (Nat.le_add_right _ _)

/-- A name that is nearer than all declared before is the nearest, and there is no other. -/
theorem firstNearest_concat {k : String}
    (hk : ∀ j ∈ declared, Text.editDistance name k < Text.editDistance name j) :
    FirstNearest (declared ++ [k]) name k (Text.editDistance name k) where
  mem := List.mem_append_right _ (List.mem_singleton_self k)
  distance := Text.isDistance_iff.mpr rfl
  le j hj l hl := by
    rw [Text.isDistance_iff.mp hl]
    rcases List.mem_append.mp hj with hj | hj
    · exact (hk j hj).le
    · rw [List.mem_singleton.mp hj]
  first j hj hdistance := by
    rcases List.mem_append.mp hj with hj | hj
    · exact absurd (Text.isDistance_iff.mp hdistance) (hk j hj).ne
    · rw [List.mem_singleton.mp hj]

/-- A name at its distance from another. -/
def neighbour (name k : String) : Neighbour := ⟨k, Text.editDistance name k⟩

/-- **The scan ends with the first of the nearest**, unless there is no name at all. -/
theorem foldl_nearer (declared : List String) (name : String) :
    (declared = [] ∧ (declared.map (neighbour name)).foldl Neighbour.nearer none = none) ∨
      ∃ b, (declared.map (neighbour name)).foldl Neighbour.nearer none = some b ∧
        FirstNearest declared name b.name b.distance := by
  induction declared using List.reverseRecOn with
  | nil => exact Or.inl ⟨rfl, rfl⟩
  | append_singleton declared k ih =>
    refine Or.inr ?_
    rw [List.map_append, List.map_singleton, List.foldl_append, List.foldl_cons, List.foldl_nil]
    rcases ih with ⟨rfl, hnone⟩ | ⟨b, hb, hfirst⟩
    · rw [hnone]
      exact ⟨_, rfl, firstNearest_concat fun j hj => absurd hj List.not_mem_nil⟩
    · rw [hb, Neighbour.nearer]
      split
      · next hlt =>
        refine ⟨_, rfl, firstNearest_concat fun j hj => ?_⟩
        exact lt_of_lt_of_le hlt (hfirst.le j hj _ (Text.isDistance_iff.mpr rfl))
      · next hge => exact ⟨b, rfl, hfirst.concat (not_lt.mp hge)⟩

/-- **The closest name is the first of the nearest.** -/
theorem closest?_eq_some_iff {schema : Schema} :
    schema.closest? name = some ⟨m, n⟩ ↔ FirstNearest schema.names name m n := by
  rcases foldl_nearer schema.names name with ⟨hnames, hnone⟩ | ⟨b, hb, hfirst⟩
  · constructor
    · intro h
      exact absurd (hnone.symm.trans h) (Option.some_ne_none _).symm
    · intro h
      exact absurd (hnames ▸ h.mem) List.not_mem_nil
  · constructor
    · intro h
      obtain rfl : b = ⟨m, n⟩ := Option.some.inj (hb.symm.trans h)
      exact hfirst
    · intro h
      obtain ⟨rfl, rfl⟩ := hfirst.unique h
      exact hb

/-! ## Schemas of documents -/

/-- **The first of the nearest names of a schema** is that of its document. -/
theorem firstNearest_of_document {document : Document} {keywords : Option (List String)}
    {schema : Schema} (h : ofDocument document keywords = .ok schema) :
    FirstNearest schema.names name m n ↔
      FirstNearest ((entriesOf document).map Entry.css) name m n := by
  rw [names_of_ofDocument h]
  constructor
  · intro hfirst
    exact hfirst.of_order (fun _ => List.mem_eraseDups) fun _ _ => idxOf_eraseDups_lt_iff _
  · intro hfirst
    exact hfirst.of_order (fun _ => List.mem_eraseDups.symm)
      fun _ _ => (idxOf_eraseDups_lt_iff _).symm

/-- The names that a schema knows are those that it lists. -/
theorem knows_eq_true_iff {schema : Schema} : schema.knows name = true ↔ name ∈ schema.names := by
  rw [knows, property?, entry?, Option.isSome_map, List.find?_isSome, names, List.mem_map]
  simp

end Schema

/-! ## The report -/

namespace Rule

variable (schema : Schema) (settings : Settings) (r : Rule)

/-- **What is suggested** is the first of the nearest names, if it is near enough. -/
theorem suggestion?_eq_some_iff {name m : String} :
    suggestion? schema settings name = some m ↔
      ∃ n, Schema.FirstNearest schema.names name m n ∧ n < settings.suggestionDistance := by
  unfold suggestion?
  rw [Option.map_eq_some_iff]
  constructor
  · rintro ⟨b, hb, rfl⟩
    obtain ⟨hclosest, hnear⟩ := Option.filter_eq_some_iff.mp hb
    exact ⟨b.distance, Schema.closest?_eq_some_iff.mp hclosest, of_decide_eq_true hnear⟩
  · rintro ⟨n, hfirst, hnear⟩
    exact ⟨⟨m, n⟩, Option.filter_eq_some_iff.mpr
      ⟨Schema.closest?_eq_some_iff.mpr hfirst, decide_eq_true hnear⟩, rfl⟩

/-- The report of a name that is not known carries what is suggested, and nothing else. -/
theorem replacements_unrecognizedReport :
    (r.unrecognizedReport schema settings).suggestions.map Suggestion.replacement
      = (suggestion? schema settings r.name).toList := by
  unfold unrecognizedReport
  cases suggestion? schema settings r.name with
  | none => rfl
  | some m => rfl

/-- A property that is not known is reported as that. -/
theorem problem_unrecognizedReport :
    (r.unrecognizedReport schema settings).problem = .unrecognizedRule := by
  unfold unrecognizedReport
  split
  · rfl
  · rfl

end Rule

/-- A log takes an error, whether it is quiet or not. -/
theorem Log.reportAll_of_isError (log : Log) {d : Diagnostic} (hd : d.isError = true) :
    log.reportAll [d] = { log with entries := log.entries ++ [d] } := by
  rw [reportAll_eq, List.filter_singleton, takes, hd, Bool.or_true, cond_true]

/-- **A property whose name is not known is refused**, and one diagnostic is added: the error
that the rule is not recognized. It has a single suggestion, to write `m` instead, exactly if
`m` is the first of the nearest names and its distance is below the threshold of the settings.
If there is no such name, there is no suggestion. Where the schema is that of a document, the
names come in the order of the document. -/
theorem Pass.unknown_name_is_refused (pass : Pass) (schema : Schema) (r : Rule)
    (hproperty : r.isVariable = false) (hunknown : r.name ∉ schema.names) :
    ∃ d, pass.validate schema r
        = (false, { pass with log := { pass.log with entries := pass.log.entries ++ [d] } }) ∧
      d.problem = .unrecognizedRule ∧ d.severity = .error ∧
      (∀ m, (∃ s, d.suggestions = [s] ∧ s.replacement = m) ↔
        ∃ n, Schema.FirstNearest schema.names r.name m n ∧
          n < pass.settings.suggestionDistance) ∧
      ((¬∃ m n, Schema.FirstNearest schema.names r.name m n ∧
        n < pass.settings.suggestionDistance) → d.suggestions = []) ∧
      ∀ document keywords, Schema.ofDocument document keywords = .ok schema →
        ∀ m n, Schema.FirstNearest schema.names r.name m n ↔
          Schema.FirstNearest ((Schema.entriesOf document).map Schema.Entry.css) r.name m n := by
  let d := r.unrecognizedReport schema pass.settings
  have hreplacements : d.suggestions.map Suggestion.replacement
      = (Rule.suggestion? schema pass.settings r.name).toList :=
    r.replacements_unrecognizedReport schema pass.settings
  have herror : d.isError = true := r.isError_unrecognizedReport schema pass.settings
  have hcheck : r.check schema pass.settings pass.tables = ⟨false, [d]⟩ := by
    have hknows : schema.knows r.name = false :=
      Bool.eq_false_iff.mpr fun h => hunknown (Schema.knows_eq_true_iff.mp h)
    rw [Rule.check, if_pos (by rw [hproperty, hknows]; rfl)]
  refine ⟨d, ?_, r.problem_unrecognizedReport schema pass.settings, of_decide_eq_true herror,
    fun m => ?_, fun hnone => ?_, fun document keywords h m n => Schema.firstNearest_of_document h⟩
  · rw [validate, hcheck, Log.reportAll_of_isError _ herror]
  · rw [← Rule.suggestion?_eq_some_iff, ← Option.toList_eq_singleton_iff, ← hreplacements,
      List.map_eq_singleton_iff]
  · rw [← List.map_eq_nil_iff (f := Suggestion.replacement), hreplacements,
      Option.toList_eq_nil_iff, Option.eq_none_iff_forall_ne_some]
    intro m hm
    exact hnone ⟨m, (Rule.suggestion?_eq_some_iff schema pass.settings).mp hm⟩

/-! ## A tie -/

/-- `text-d: 1;` may be meant for the one offset or the other. -/
def Rule.offset : Rule := .declare (fun _ => none) "text-d" ⟨[.dimension 1]⟩ ⟨none, 0⟩

/-- Of two names that are equally near, the first in the document is suggested. -/
theorem Pass.tie_goes_to_first :
    Rule.offset.isVariable = false ∧
      ∃ schema, Schema.ofDocument Schema.offsets none = .ok schema ∧
        Rule.offset.name ∉ schema.names ∧
        ∃ d s, (start {}).validate schema .offset
            = (false, { start {} with log := { entries := [d] } }) ∧
          d.suggestions = [s] ∧ s.replacement = "text-dx" := by
  let schema : Schema := { entries := Schema.firsts (Schema.entriesOf Schema.offsets) }
  have hnames : schema.names = ["text-dx", "text-dy"] := by decide
  have hname : Rule.offset.name = "text-d" := by decide
  have hunknown : Rule.offset.name ∉ schema.names := by
    rw [hname, hnames]
    decide
  obtain ⟨d, hvalidate, -, -, hsuggestion, -, -⟩ :=
    unknown_name_is_refused (start {}) schema .offset (by decide) hunknown
  have hfirst : Schema.FirstNearest schema.names Rule.offset.name "text-dx" 1 := by
    rw [hname, ← Schema.closest?_eq_some_iff]
    decide
  obtain ⟨s, hs, hreplacement⟩ := (hsuggestion "text-dx").mpr ⟨1, hfirst, by decide⟩
  exact ⟨by decide, schema, rfl, hunknown, d, s, hvalidate, hs, hreplacement⟩

end MapStyle
