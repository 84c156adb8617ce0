import MapStyle.Proofs.Reports

/-!
# Passages

What is written for the renderer consists of **passages** (`Passage`): those that are the
same whatever string literals say, and one for each literal. A passage of a literal has none
of the characters that end or open something in an attribute
(`Passage.notMem_text_of_ne_fixed`), and each ampersand in it begins an entity
(`Passage.onlyEntities_text`).

So it does not matter to the markup what the literals say. Without it passages are
**blotted** (`Passage.blot`), and two texts with the same blotted passages have the same
number of quotes and angle brackets (`Passage.count_join_blot`).
-/

namespace MapStyle

namespace Text

/-! ## Markup -/

/-- The characters that end or open something in an attribute. -/
def marks : List Char := ['"', '<', '>']

/-- What follows the ampersand of an entity. -/
def entities : List (List Char) :=
  [['a', 'm', 'p', ';'], ['q', 'u', 'o', 't', ';'], ['l', 't', ';'], ['g', 't', ';']]

/-- **Every ampersand begins an entity.** -/
def OnlyEntities (cs : List Char) : Prop :=
  ∀ before after, cs = before ++ '&' :: after → ∃ e ∈ entities, e <+: after

/-- Where there are no ampersands there are none that begin nothing. -/
theorem onlyEntities_of_notMem {cs : List Char} (h : '&' ∉ cs) : OnlyEntities cs := by
  intro before after hcs
  exact absurd (hcs ▸ List.mem_append_right _ List.mem_cons_self) h

/-- The ampersand of an entity begins it. -/
theorem onlyEntities_entity {e : List Char} (h : e ∈ entities) : OnlyEntities ('&' :: e) := by
  have hnone : ∀ e ∈ entities, '&' ∉ e := by decide
  intro before after hcs
  cases before with
  | nil => exact ⟨e, h, (List.cons.inj hcs).2 ▸ List.prefix_rfl⟩
  | cons c before =>
    rw [(List.cons.inj hcs).2] at h
    exact absurd (List.mem_append_right _ List.mem_cons_self) (hnone _ h)

/-- An entity does not reach from one text into another. -/
theorem OnlyEntities.append {cs ds : List Char} (hcs : OnlyEntities cs) (hds : OnlyEntities ds) :
    OnlyEntities (cs ++ ds) := by
  intro before after h
  rcases List.append_eq_append_iff.mp h with ⟨between, -, hd⟩ | ⟨between, hc, hrest⟩
  · exact hds between after hd
  · cases between with
    | nil => exact hds [] after hrest.symm
    | cons c between =>
      obtain ⟨rfl, rfl⟩ := List.cons.inj hrest
      obtain ⟨e, he, hafter⟩ := hcs before between hc
      exact ⟨e, he, hafter.trans (List.prefix_append _ _)⟩

/-- What is written character by character has only entities if each character is
written so. -/
theorem onlyEntities_flatMap {f : Char → List Char} (h : ∀ c, OnlyEntities (f c))
    (cs : List Char) : OnlyEntities (cs.flatMap f) := by
  induction cs with
  | nil => exact onlyEntities_of_notMem List.not_mem_nil
  | cons c cs ih =>
    rw [List.flatMap_cons]
    exact (h c).append ih

/-- **How a character is escaped**: as an entity, or it is no mark and no ampersand and
stays as it is. -/
theorem escapeChar_cases (c : Char) :
    (∃ e ∈ entities, escapeChar c = '&' :: e) ∨
      (c ∉ marks ∧ c ≠ '&' ∧ escapeChar c = [c]) := by
  unfold escapeChar
  split
  · exact .inl ⟨_, by decide, rfl⟩
  · exact .inl ⟨_, by decide, rfl⟩
  · exact .inl ⟨_, by decide, rfl⟩
  · exact .inl ⟨_, by decide, rfl⟩
  · next hamp hquote hless hgreater =>
    refine .inr ⟨?_, hamp, rfl⟩
    simp only [marks, List.mem_cons, List.not_mem_nil, or_false, not_or]
    exact ⟨hquote, hless, hgreater⟩

/-- How an escaped character is written in a filter: with a backslash, if it is a single
quote. -/
theorem guarded_escapeChar_cases (c : Char) :
    (escapeChar c).flatMap guardQuote = escapeChar c ∨
      (escapeChar c).flatMap guardQuote = ['\\', '\''] := by
  have hentities : ∀ e ∈ entities, ('&' :: e).flatMap guardQuote = '&' :: e := by decide
  rcases escapeChar_cases c with ⟨e, he, hc⟩ | ⟨-, -, hc⟩
  · rw [hc]
    exact .inl (hentities e he)
  · rw [hc, List.flatMap_singleton]
    unfold guardQuote
    split
    · exact .inr rfl
    · exact .inl rfl

/-- An escaped character is no mark. -/
theorem notMem_escapeChar {m : Char} (hm : m ∈ marks) (c : Char) : m ∉ escapeChar c := by
  have hentities : ∀ m ∈ marks, ∀ e ∈ entities, m ∉ '&' :: e := by simp [marks, entities]
  rcases escapeChar_cases c with ⟨e, he, hc⟩ | ⟨hmark, -, hc⟩
  · rw [hc]
    exact hentities m hm e he
  · rw [hc, List.mem_singleton]
    rintro rfl
    exact hmark hm

/-- **No mark is left in an escaped text.** -/
theorem notMem_escapeChars {m : Char} (hm : m ∈ marks) (cs : List Char) : m ∉ escapeChars cs := by
  unfold escapeChars
  rw [List.mem_flatMap]
  rintro ⟨c, -, hc⟩
  exact notMem_escapeChar hm c hc

/-- An escaped character has only entities. -/
theorem onlyEntities_escapeChar (c : Char) : OnlyEntities (escapeChar c) := by
  rcases escapeChar_cases c with ⟨e, he, hc⟩ | ⟨-, hamp, hc⟩
  · rw [hc]
    exact onlyEntities_entity he
  · rw [hc]
    exact onlyEntities_of_notMem fun h => hamp (List.mem_singleton.mp h).symm

/-- **No mark is left in a quoted text.** -/
theorem notMem_quoteChars {m : Char} (hm : m ∈ marks) (cs : List Char) : m ∉ quoteChars cs := by
  have hquotes : ∀ m ∈ marks, m ∉ ['\\', '\''] ∧ m ≠ '\'' := by simp [marks]
  unfold quoteChars escapeChars
  rw [List.flatMap_assoc, List.mem_append, List.mem_cons, List.mem_flatMap, List.mem_singleton]
  rintro ((h | ⟨c, -, hc⟩) | h)
  · exact (hquotes m hm).2 h
  · rcases guarded_escapeChar_cases c with hguarded | hguarded
    · rw [hguarded] at hc
      exact notMem_escapeChar hm c hc
    · rw [hguarded] at hc
      exact (hquotes m hm).1 hc
  · exact (hquotes m hm).2 h

/-- **Every ampersand of an escaped text begins an entity.** -/
theorem onlyEntities_escapeChars (cs : List Char) : OnlyEntities (escapeChars cs) :=
  onlyEntities_flatMap onlyEntities_escapeChar cs

/-- **Every ampersand of a quoted text begins an entity.** -/
theorem onlyEntities_quoteChars (cs : List Char) : OnlyEntities (quoteChars cs) := by
  have hquote : OnlyEntities ['\''] := onlyEntities_of_notMem (by decide)
  unfold quoteChars escapeChars
  rw [List.flatMap_assoc]
  refine (hquote.append (onlyEntities_flatMap (fun c => ?_) cs)).append hquote
  rcases guarded_escapeChar_cases c with hguarded | hguarded
  · rw [hguarded]
    exact onlyEntities_escapeChar c
  · rw [hguarded]
    exact onlyEntities_of_notMem (by decide)

end Text

/-! ## Passages of a text -/

/-- **A passage of a text.** -/
inductive Passage where
  /-- A text that no string literal has a part in. -/
  | fixed (text : String)
  /-- A number that was given to something. -/
  | number (n : ℕ)
  /-- A string literal in an attribute. -/
  | escaped (literal : String)
  /-- A string literal in a filter. -/
  | quoted (literal : String)

namespace Passage

/-- What is written. -/
def text : Passage → String
  | .fixed text => text
  | .number n => toString n
  | .escaped literal => Text.escaped literal
  | .quoted literal => Text.quoted literal

/-- Whether a string literal is written. -/
def isLiteral : Passage → Bool
  | .escaped _ | .quoted _ => true
  | _ => false

/-- **The passage without what its literal says**, and without its number. -/
def blot : Passage → Passage
  | .fixed text => .fixed text
  | .number _ => .number 0
  | .escaped _ => .escaped ""
  | .quoted _ => .quoted ""

/-- **The text of passages.** -/
def join : List Passage → String
  | [] => ""
  | p :: ps => p.text ++ join ps

/-- Passages with a text between them. -/
def separated (separator : String) (pss : List (List Passage)) : List Passage :=
  [Passage.fixed separator].intercalate pss

theorem join_append (ps qs : List Passage) : join (ps ++ qs) = join ps ++ join qs := by
  induction ps with
  | nil => rw [List.nil_append, join, String.empty_append]
  | cons p ps ih => rw [List.cons_append, join, join, ih, String.append_assoc]

@[simp] theorem join_singleton (p : Passage) : join [p] = p.text := by
  rw [join, join, String.append_empty]

/-- The text of passages with a text between them. -/
theorem join_separated (separator : String) (pss : List (List Passage)) :
    join (separated separator pss) = separator.intercalate (pss.map join) := by
  unfold separated
  induction pss with
  | nil => rfl
  | cons ps pss ih =>
    cases pss with
    | nil => rw [List.intercalate_singleton, List.map_singleton, String.intercalate_singleton]
    | cons qs pss =>
      rw [List.intercalate_cons_cons, join_append, join_append, ih, join_singleton]
      simp only [List.map_cons, String.intercalate_cons_cons]
      rfl

theorem map_blot_separated (separator : String) (pss : List (List Passage)) :
    (separated separator pss).map blot = separated separator (pss.map (List.map blot)) := by
  unfold separated
  induction pss with
  | nil => rfl
  | cons ps pss ih =>
    cases pss with
    | nil => rw [List.intercalate_singleton, List.map_singleton, List.intercalate_singleton]
    | cons qs pss =>
      rw [List.intercalate_cons_cons, List.map_append, List.map_append, ih]
      simp only [List.map_cons, List.intercalate_cons_cons]
      rfl

/-- **A literal has no marks**, and a number has none. -/
theorem notMem_text_of_ne_fixed {p : Passage} (h : ∀ text, p ≠ .fixed text) {m : Char}
    (hm : m ∈ Text.marks) : m ∉ p.text.toList := by
  cases p with
  | fixed text => exact absurd rfl (h text)
  | number n =>
    have hdigits : ∀ m ∈ Text.marks, m.isDigit = false := by simp [Text.marks]
    intro hmem
    rw [text, Nat.toString_eq_repr, Nat.toList_repr] at hmem
    exact absurd (Nat.isDigit_of_mem_toDigits (by decide) (by decide) hmem) (by simp [hdigits m hm])
  | escaped literal => simpa [text, Text.escaped] using Text.notMem_escapeChars hm literal.toList
  | quoted literal => simpa [text, Text.quoted] using Text.notMem_quoteChars hm literal.toList

/-- **Every ampersand of a literal begins an entity.** -/
theorem onlyEntities_text {p : Passage} (h : p.isLiteral) : Text.OnlyEntities p.text.toList := by
  cases p with
  | escaped literal =>
    rw [text, Text.escaped, String.toList_ofList]
    exact Text.onlyEntities_escapeChars _
  | quoted literal =>
    rw [text, Text.quoted, String.toList_ofList]
    exact Text.onlyEntities_quoteChars _
  | fixed text => exact absurd h (by simp [isLiteral])
  | number n => exact absurd h (by simp [isLiteral])

/-- To blot a passage leaves its marks. -/
theorem count_blot (p : Passage) {m : Char} (hm : m ∈ Text.marks) :
    p.blot.text.toList.count m = p.text.toList.count m := by
  by_cases hfixed : ∃ text, p = .fixed text
  · obtain ⟨text, rfl⟩ := hfixed
    rfl
  · have hp : ∀ text, p ≠ .fixed text := fun text h => hfixed ⟨text, h⟩
    have hblot : ∀ text, p.blot ≠ .fixed text := by
      intro text h
      cases p with
      | fixed text => exact hp text rfl
      | number n => exact Passage.noConfusion h
      | escaped literal => exact Passage.noConfusion h
      | quoted literal => exact Passage.noConfusion h
    rw [List.count_eq_zero_of_not_mem (notMem_text_of_ne_fixed hp hm),
      List.count_eq_zero_of_not_mem (notMem_text_of_ne_fixed hblot hm)]

/-- **To blot passages leaves the marks of their text.** -/
theorem count_join_blot (ps : List Passage) {m : Char} (hm : m ∈ Text.marks) :
    (join (ps.map blot)).toList.count m = (join ps).toList.count m := by
  induction ps with
  | nil => rfl
  | cons p ps ih =>
    rw [List.map_cons, join, join, String.toList_append, String.toList_append, List.count_append,
      List.count_append, ih, count_blot p hm]

end Passage

end MapStyle
