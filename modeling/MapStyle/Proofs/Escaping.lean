import MapStyle.Proofs.Passages

/-!
# Escaped texts are read back

To escape a text is to replace four characters by their entities, one character after the
other and each wherever it stands (`Text.escapeChars_eq_replaceAll`). The ampersand comes
first, so the ampersands that the entities bring in are not replaced in turn. A text that has
entities already is escaped like any other: its ampersands are.

So one pass from the left reads an escaped text back (`Text.unescapeChars_escapeChars`): at an
ampersand it finds the whole entity that was put there, and everywhere else the text as it was.
In a quoted text there is one layer more, the backslashes in front of single quotes, and it can
be taken off because no other backslash stands in front of a single quote
(`Text.unguardQuotes_flatMap_guardQuote`).
-/

namespace MapStyle.Text

/-! ## Replacing -/

/-- **The text with a character replaced** wherever it stands. -/
def replaceChar (c : Char) (ds : List Char) (cs : List Char) : List Char :=
  cs.flatMap fun b => if b = c then ds else [b]

/-- The text with characters replaced, one character after the other. -/
def replaceAll (rs : List (Char × List Char)) (cs : List Char) : List Char :=
  rs.foldl (fun ds r => replaceChar r.1 r.2 ds) cs

/-- The characters that are escaped, in the order in which they are replaced. -/
def replacements : List (Char × List Char) :=
  [('&', "&amp;".toList), ('"', "&quot;".toList), ('<', "&lt;".toList), ('>', "&gt;".toList)]

/-- Any other character is left. -/
theorem replaceChar_singleton_of_ne {b c : Char} (h : b ≠ c) (ds : List Char) :
    replaceChar c ds [b] = [b] := by
  rw [replaceChar, List.flatMap_singleton, if_neg h]

/-- Where texts are put together from parts, the replacements are made in each part. -/
theorem replaceAll_flatMap (rs : List (Char × List Char)) (f : Char → List Char)
    (cs : List Char) :
    replaceAll rs (cs.flatMap f) = cs.flatMap fun c => replaceAll rs (f c) := by
  induction rs generalizing f with
  | nil => rfl
  | cons r rs ih =>
    show replaceAll rs (replaceChar r.1 r.2 (cs.flatMap f)) = _
    rw [replaceChar, List.flatMap_assoc, ih]
    rfl

/-- **Replacements are made character by character.** -/
theorem replaceAll_eq_flatMap (rs : List (Char × List Char)) (cs : List Char) :
    replaceAll rs cs = cs.flatMap fun c => replaceAll rs [c] := by
  have hsplit := replaceAll_flatMap rs (fun c => [c]) cs
  rwa [List.flatMap_singleton'] at hsplit

/-- A character is escaped by the replacements. -/
theorem escapeChar_eq_replaceAll (c : Char) : escapeChar c = replaceAll replacements [c] := by
  unfold escapeChar
  split
  · rfl
  · rfl
  · rfl
  · rfl
  · next hamp hquote hless hgreater =>
    simp only [replaceAll, replacements, List.foldl_cons, List.foldl_nil,
      replaceChar_singleton_of_ne hamp, replaceChar_singleton_of_ne hquote,
      replaceChar_singleton_of_ne hless, replaceChar_singleton_of_ne hgreater]

/-- **To escape a text is to make the replacements**, the ampersand first. -/
theorem escapeChars_eq_replaceAll (cs : List Char) :
    escapeChars cs = replaceAll replacements cs := by
  rw [replaceAll_eq_flatMap, escapeChars]
  exact congrArg cs.flatMap (funext escapeChar_eq_replaceAll)

/-- What is no single quote is not guarded. -/
theorem guardQuote_of_ne {c : Char} (hc : c ≠ '\'') : guardQuote c = [c] := by
  unfold guardQuote
  split
  · next => exact absurd rfl hc
  · rfl

/-- **To guard the quotes of a text is to replace them.** -/
theorem flatMap_guardQuote_eq_replaceChar (cs : List Char) :
    cs.flatMap guardQuote = replaceChar '\'' ['\\', '\''] cs := by
  refine congrArg cs.flatMap (funext fun c => ?_)
  by_cases hc : c = '\''
  · rw [hc, if_pos rfl]
    rfl
  · rw [guardQuote_of_ne hc, if_neg hc]

/-! ## Reading back -/

/-- **The text with its entities read**, in one pass from the left: each of the four stands for
its character, and everything else for itself. -/
def unescapeChars : List Char → List Char
  | '&' :: 'a' :: 'm' :: 'p' :: ';' :: cs => '&' :: unescapeChars cs
  | '&' :: 'q' :: 'u' :: 'o' :: 't' :: ';' :: cs => '"' :: unescapeChars cs
  | '&' :: 'l' :: 't' :: ';' :: cs => '<' :: unescapeChars cs
  | '&' :: 'g' :: 't' :: ';' :: cs => '>' :: unescapeChars cs
  | c :: cs => c :: unescapeChars cs
  | [] => []

/-- What is no ampersand stands for itself. -/
theorem unescapeChars_cons {c : Char} (hc : c ≠ '&') (cs : List Char) :
    unescapeChars (c :: cs) = c :: unescapeChars cs := by
  rw [unescapeChars]
  all_goals
    rintro _ rfl
    exact absurd rfl hc

/-- An escaped character is read back, whatever follows. -/
theorem unescapeChars_escapeChar_append (c : Char) (cs : List Char) :
    unescapeChars (escapeChar c ++ cs) = c :: unescapeChars cs := by
  unfold escapeChar
  split
  · rfl
  · rfl
  · rfl
  · rfl
  · next hamp _ _ _ => exact unescapeChars_cons hamp cs

/-- **An escaped text is read back.** -/
theorem unescapeChars_escapeChars (cs : List Char) : unescapeChars (escapeChars cs) = cs := by
  induction cs with
  | nil => rfl
  | cons c cs ih => rw [escapeChars_cons, unescapeChars_escapeChar_append, ih]

/-- **The text without the backslashes** that stand in front of single quotes. -/
def unguardQuotes : List Char → List Char
  | '\\' :: '\'' :: cs => '\'' :: unguardQuotes cs
  | c :: cs => c :: unguardQuotes cs
  | [] => []

/-- A character stands for itself, if no single quote follows. -/
theorem unguardQuotes_cons {cs : List Char} (hcs : cs.head? ≠ some '\'') (c : Char) :
    unguardQuotes (c :: cs) = c :: unguardQuotes cs := by
  rw [unguardQuotes]
  rintro cs' - rfl
  exact absurd rfl hcs

/-- A guarded text does not begin with a single quote. -/
theorem head?_flatMap_guardQuote_ne (cs : List Char) :
    (cs.flatMap guardQuote).head? ≠ some '\'' := by
  cases cs with
  | nil => exact (Option.some_ne_none _).symm
  | cons c cs =>
    rw [List.flatMap_cons]
    by_cases hc : c = '\''
    · subst hc
      exact fun h => absurd (Option.some.inj h) (by decide)
    · rw [guardQuote_of_ne hc]
      exact fun h => hc (Option.some.inj h)

/-- **The quotes of a guarded text can be told from its backslashes**: none of the others stands
in front of a single quote. -/
theorem unguardQuotes_flatMap_guardQuote (cs : List Char) :
    unguardQuotes (cs.flatMap guardQuote) = cs := by
  induction cs with
  | nil => rfl
  | cons c cs ih =>
    rw [List.flatMap_cons]
    by_cases hc : c = '\''
    · subst hc
      show '\'' :: unguardQuotes (cs.flatMap guardQuote) = _
      rw [ih]
    · rw [guardQuote_of_ne hc, List.singleton_append,
        unguardQuotes_cons (head?_flatMap_guardQuote_ne cs), ih]

/-! ## Nothing is lost -/

/-- The characters of an escaped text. -/
theorem toList_escaped (t : String) : (escaped t).toList = escapeChars t.toList :=
  String.toList_ofList

/-- The characters of a quoted text. -/
theorem toList_quoted (t : String) : (quoted t).toList
    = '\'' :: (escaped t).toList.flatMap guardQuote ++ ['\''] := by
  rw [toList_escaped]
  exact String.toList_ofList

/-- No mark is left in an escaped text. -/
theorem notMem_escaped {m : Char} (hm : m ∈ marks) (t : String) : m ∉ (escaped t).toList := by
  rw [toList_escaped]
  exact notMem_escapeChars hm _

/-- An escaped text is read back. -/
theorem unescapeChars_escaped (t : String) : unescapeChars (escaped t).toList = t.toList := by
  rw [toList_escaped, unescapeChars_escapeChars]

/-- What is quoted is read back. -/
theorem unescapeChars_unguardQuotes (t : String) :
    unescapeChars (unguardQuotes ((escaped t).toList.flatMap guardQuote)) = t.toList := by
  rw [unguardQuotes_flatMap_guardQuote, unescapeChars_escaped]

/-- **Escaping loses nothing.** The escaped form of a text is what replacing the four characters
gives, one after the other; none of the angle brackets and double quotes is left, every
ampersand begins an entity, and the text comes back when the entities are read in one pass. The
quoted form has a backslash put in front of each single quote of the escaped form, and a single
quote around it; the text comes back when these are taken off and then the entities are read. So
different texts have different forms of either kind. -/
theorem escaping_is_lossless :
    (∀ t : String, (escaped t).toList = replaceAll replacements t.toList ∧
      ('<' ∉ (escaped t).toList ∧ '>' ∉ (escaped t).toList ∧ '"' ∉ (escaped t).toList) ∧
      OnlyEntities (escaped t).toList ∧
      unescapeChars (escaped t).toList = t.toList ∧
      ∃ inner, (quoted t).toList = '\'' :: inner ++ ['\''] ∧
        inner = replaceChar '\'' ['\\', '\''] (escaped t).toList ∧
        unescapeChars (unguardQuotes inner) = t.toList) ∧
    Function.Injective escaped ∧ Function.Injective quoted := by
  refine ⟨fun t => ⟨?_, ⟨?_, ?_, ?_⟩, ?_, unescapeChars_escaped t, _, toList_quoted t, ?_,
    unescapeChars_unguardQuotes t⟩, ?_, ?_⟩
  · rw [toList_escaped, escapeChars_eq_replaceAll]
  · exact notMem_escaped (by decide) t
  · exact notMem_escaped (by decide) t
  · exact notMem_escaped (by decide) t
  · rw [toList_escaped]
    exact onlyEntities_escapeChars _
  · exact flatMap_guardQuote_eq_replaceChar _
  · intro s t h
    rw [← String.toList_inj, ← unescapeChars_escaped s, ← unescapeChars_escaped t, h]
  · intro s t h
    have hchars := congrArg String.toList h
    rw [toList_quoted, toList_quoted] at hchars
    have hinner := List.append_cancel_right (List.cons.inj hchars).2
    rw [← String.toList_inj, ← unescapeChars_unguardQuotes s, ← unescapeChars_unguardQuotes t,
      hinner]

/-- An entity in the text is escaped as any text is. -/
example : escaped "&lt;" = "&amp;lt;" := by decide

end MapStyle.Text
