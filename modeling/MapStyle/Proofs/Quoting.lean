import MapStyle.Proofs.Escaping
import MapStyle.Proofs.Identity

/-!
# Where a quoted text ends

A string literal in a filter stands between two single quotes, and the single quotes of its
text have a backslash in front, so that they do not end it. Inside of a quoted text there is
no other single quote (`Text.getLast?_of_quote_inside`). But nothing is put in front of a
backslash, and if the text ends in one, that backslash stands in front of the closing quote and
makes it a quote of the text.

So a quoted text is a whole literal exactly if the text does not end in a backslash
(`Text.isLiteral_quoted_iff`), and that is what decides where a reader finds its end
(`Text.readLiteral?_quoted`): right behind it, or at the next single quote of whatever follows.
-/

namespace MapStyle

namespace Text

/-! ## Literals -/

/-- **A whole literal**: it begins and ends with a single quote, and these two are the single
quotes that have no backslash directly in front of them. -/
structure IsLiteral (cs : List Char) : Prop where
  ends : ∃ inner, cs = '\'' :: inner ++ ['\'']
  bare_iff : ∀ before after, cs = before ++ '\'' :: after →
    (before.getLast? ≠ some '\\' ↔ before = [] ∨ after = [])

/-- More that was read, in front of what was read and what is left. -/
def readBefore (cs : List Char) : List Char × List Char → List Char × List Char :=
  Prod.map (cs ++ ·) id

/-- **What is read of a literal** behind its first quote, and what follows the literal. A
backslash in front of a single quote says that the quote belongs to the text. -/
def readInner? : List Char → Option (List Char × List Char)
  | '\\' :: '\'' :: cs => (readInner? cs).map (readBefore ['\''])
  | '\'' :: cs => some ([], cs)
  | c :: cs => (readInner? cs).map (readBefore [c])
  | [] => none

/-- **The literal that a text begins with**, without its quotes and backslashes, and what
follows it. -/
def readLiteral? : List Char → Option (List Char × List Char)
  | '\'' :: cs => readInner? cs
  | _ => none

theorem readBefore_comp (cs ds : List Char) :
    readBefore cs ∘ readBefore ds = readBefore (cs ++ ds) :=
  funext fun _ => Prod.ext (List.append_assoc ..).symm rfl

/-- A character is read as itself, unless a single quote follows or it is one. -/
theorem readInner?_cons {c : Char} (hc : c ≠ '\'') {cs : List Char}
    (hcs : c = '\\' → cs.head? ≠ some '\'') :
    readInner? (c :: cs) = (readInner? cs).map (readBefore [c]) := by
  rw [readInner?]
  · rintro cs' rfl rfl
    exact hcs rfl rfl
  · rintro rfl
    exact hc rfl

/-! ## Backslashes at the end -/

/-- Whether a text ends in a backslash can be seen from what is written for it, where something
is written for each character, and a backslash last for a backslash only. -/
theorem getLast?_flatMap_eq_backslash_iff {f : Char → List Char} (hne : ∀ c, f c ≠ [])
    (hf : ∀ c, (f c).getLast? = some '\\' ↔ c = '\\') (cs : List Char) :
    (cs.flatMap f).getLast? = some '\\' ↔ cs.getLast? = some '\\' := by
  rcases cs.eq_nil_or_concat with rfl | ⟨cs, c, rfl⟩
  · rfl
  · rw [List.concat_eq_append, List.flatMap_append, List.flatMap_singleton,
      List.getLast?_append_of_ne_nil _ (hne c), List.getLast?_concat, hf, Option.some_inj]

/-- An escaped text ends in a backslash if the text does. -/
theorem getLast?_escapeChars_eq_backslash_iff (cs : List Char) :
    (escapeChars cs).getLast? = some '\\' ↔ cs.getLast? = some '\\' := by
  have hentities : ∀ e ∈ entities, ('&' :: e).getLast? ≠ some '\\' := by decide
  refine getLast?_flatMap_eq_backslash_iff (fun c => ?_) (fun c => ?_) cs
  · rcases escapeChar_cases c with ⟨e, -, hc⟩ | ⟨-, -, hc⟩
    · rw [hc]
      exact List.cons_ne_nil _ _
    · rw [hc]
      exact List.cons_ne_nil _ _
  · rcases escapeChar_cases c with ⟨e, he, hc⟩ | ⟨-, -, hc⟩
    · refine iff_of_false (hc ▸ hentities e he) ?_
      rintro rfl
      exact absurd (List.cons.inj hc).1 (by decide)
    · rw [hc, List.getLast?_singleton, Option.some_inj]

/-- A guarded text ends in a backslash if the text does. -/
theorem getLast?_guarded_eq_backslash_iff (cs : List Char) :
    (cs.flatMap guardQuote).getLast? = some '\\' ↔ cs.getLast? = some '\\' := by
  refine getLast?_flatMap_eq_backslash_iff (fun c => ?_) (fun c => ?_) cs
  · by_cases hc : c = '\''
    · rw [hc]
      exact List.cons_ne_nil _ _
    · rw [guardQuote_of_ne hc]
      exact List.cons_ne_nil _ _
  · by_cases hc : c = '\''
    · rw [hc]
      decide
    · rw [guardQuote_of_ne hc, List.getLast?_singleton, Option.some_inj]

/-! ## Quotes inside -/

/-- **Every single quote of a guarded text has a backslash in front.** -/
theorem getLast?_of_quote_guarded {cs before after : List Char}
    (h : cs.flatMap guardQuote = before ++ '\'' :: after) : before.getLast? = some '\\' := by
  induction cs generalizing before with
  | nil => exact absurd h.symm (List.append_ne_nil_of_right_ne_nil _ (List.cons_ne_nil _ _))
  | cons c cs ih =>
    rw [List.flatMap_cons] at h
    by_cases hc : c = '\''
    · -- the quote is that of the first character, or a later one
      rw [hc] at h
      match before with
      | [] => exact absurd (List.cons.inj h).1 (by decide)
      | [b] => rw [← (List.cons.inj h).1, List.getLast?_singleton]
      | b :: b' :: before =>
        rw [List.getLast?_cons, List.getLast?_cons, ih (List.cons.inj (List.cons.inj h).2).2]
        rfl
    · rw [guardQuote_of_ne hc] at h
      match before with
      | [] => exact absurd (List.cons.inj h).1 hc
      | b :: before => rw [List.getLast?_cons, ih (List.cons.inj h).2, Option.getD_some]

/-- **Every single quote inside of a quoted text has a backslash in front.** -/
theorem getLast?_of_quote_inside {t : String} {before after : List Char}
    (h : (quoted t).toList = before ++ '\'' :: after) (hbefore : before ≠ [])
    (hafter : after ≠ []) : before.getLast? = some '\\' := by
  obtain ⟨b, before, rfl⟩ := List.exists_cons_of_ne_nil hbefore
  obtain ⟨after, a, rfl⟩ := (List.eq_nil_or_concat after).resolve_left hafter
  have hinner : (escaped t).toList.flatMap guardQuote ++ ['\'']
      = (before ++ '\'' :: after) ++ [a] := by
    rw [toList_quoted, List.concat_eq_append] at h
    rw [List.append_assoc]
    exact (List.cons.inj h).2
  rw [List.getLast?_cons, getLast?_of_quote_guarded (List.append_inj_left' hinner rfl),
    Option.getD_some]

/-- **A quoted text is a whole literal** exactly if the text does not end in a backslash. -/
theorem isLiteral_quoted_iff (t : String) :
    IsLiteral (quoted t).toList ↔ t.toList.getLast? ≠ some '\\' := by
  have hguarded : ((escaped t).toList.flatMap guardQuote).getLast? = some '\\' ↔
      t.toList.getLast? = some '\\' := by
    rw [getLast?_guarded_eq_backslash_iff, toList_escaped, getLast?_escapeChars_eq_backslash_iff]
  -- what stands in front of the closing quote ends as the text does
  have hclosing : ('\'' :: (escaped t).toList.flatMap guardQuote).getLast? = some '\\' ↔
      t.toList.getLast? = some '\\' := by
    rw [← hguarded, List.getLast?_cons]
    cases ((escaped t).toList.flatMap guardQuote).getLast? with
    | none => decide
    | some c => rfl
  rw [ne_eq, ← hclosing]
  refine ⟨fun h => (h.bare_iff _ [] (toList_quoted t)).mpr (Or.inr rfl), fun hlast =>
    ⟨⟨_, toList_quoted t⟩, fun before after h => ⟨fun hbare => ?_, ?_⟩⟩⟩
  · by_contra hends
    obtain ⟨hbefore, hafter⟩ := not_or.mp hends
    exact hbare (getLast?_of_quote_inside h hbefore hafter)
  · rintro (rfl | rfl)
    · exact (Option.some_ne_none _).symm
    · rw [← List.append_inj_left' ((toList_quoted t).symm.trans h) rfl]
      exact hlast

/-! ## Reading -/

/-- A guarded character is read as itself, unless it is a backslash and a single quote follows. -/
theorem readInner?_guardQuote_append {c : Char} {cs : List Char}
    (h : c = '\\' → cs.head? ≠ some '\'') :
    readInner? (guardQuote c ++ cs) = (readInner? cs).map (readBefore [c]) := by
  by_cases hc : c = '\''
  · rw [hc]
    rfl
  · rw [guardQuote_of_ne hc, List.singleton_append, readInner?_cons hc h]

/-- A guarded text does not begin with a single quote, whatever follows. -/
theorem head?_guarded_append_ne {cs ds : List Char} (h : cs = [] → ds.head? ≠ some '\'') :
    (cs.flatMap guardQuote ++ ds).head? ≠ some '\'' := by
  cases cs with
  | nil => exact h rfl
  | cons c cs =>
    have hguarded := head?_flatMap_guardQuote_ne (c :: cs)
    rw [List.flatMap_cons] at hguarded ⊢
    by_cases hc : c = '\''
    · rw [hc]
      exact fun hquote => absurd (Option.some.inj hquote) (by decide)
    · rw [guardQuote_of_ne hc] at hguarded ⊢
      exact hguarded

/-- **A guarded text is read as itself**, and reading goes on behind it, unless it ends in a
backslash and a single quote follows. -/
theorem readInner?_guarded_append {cs ds : List Char}
    (h : cs.getLast? = some '\\' → ds.head? ≠ some '\'') :
    readInner? (cs.flatMap guardQuote ++ ds) = (readInner? ds).map (readBefore cs) := by
  induction cs with
  | nil => exact (congrFun Option.map_id _).symm
  | cons c cs ih =>
    have hhead : c = '\\' → (cs.flatMap guardQuote ++ ds).head? ≠ some '\'' := by
      rintro rfl
      exact head?_guarded_append_ne fun hcs => h (hcs ▸ rfl)
    have hrest : cs.getLast? = some '\\' → ds.head? ≠ some '\'' := by
      intro hcs
      rw [List.getLast?_cons, hcs] at h
      exact h rfl
    rw [List.flatMap_cons, List.append_assoc, readInner?_guardQuote_append hhead, ih hrest,
      Option.map_map, readBefore_comp, List.singleton_append]

/-- **Where a quoted text is taken to end.** If it does not end in a backslash, the literal is
read as the escaped text and ends with the closing quote. If it does, that backslash and the
closing quote are read as a quote of the text, and reading goes on behind it. -/
theorem readLiteral?_quoted (t : String) (rest : List Char) :
    readLiteral? ((quoted t).toList ++ rest) =
      if t.toList.getLast? = some '\\' then
        (readInner? rest).map (readBefore ((escaped t).toList.dropLast ++ ['\'']))
      else some ((escaped t).toList, rest) := by
  have hescaped : (escaped t).toList.getLast? = some '\\' ↔ t.toList.getLast? = some '\\' := by
    rw [toList_escaped, getLast?_escapeChars_eq_backslash_iff]
  rw [toList_quoted, List.append_assoc]
  show readInner? ((escaped t).toList.flatMap guardQuote ++ '\'' :: rest) = _
  split
  · next hlast =>
    -- the backslash is set apart, so that it is followed by the closing quote
    have hsplit := List.dropLast_append_getLast? _ (hescaped.mpr hlast)
    have hguarded : (escaped t).toList.flatMap guardQuote ++ '\'' :: rest
        = (escaped t).toList.dropLast.flatMap guardQuote ++ '\\' :: '\'' :: rest := by
      conv_lhs => rw [← hsplit, List.flatMap_append, List.append_assoc]
      rfl
    have hbackslash : ('\\' :: '\'' :: rest).head? ≠ some '\'' := fun h =>
      absurd (Option.some.inj h) (by decide)
    rw [hguarded, readInner?_guarded_append fun _ => hbackslash]
    show ((readInner? rest).map _).map _ = _
    rw [Option.map_map, readBefore_comp]
  · next hlast =>
    rw [readInner?_guarded_append fun h => absurd (hescaped.mp h) hlast]
    show some ((escaped t).toList ++ [], rest) = _
    rw [List.append_nil]

end Text

/-! ## Operands -/

namespace Filter

/-- What stands behind the operand of a filter has no single quote. -/
theorem readInner?_behind (c : Comparison) : Text.readInner? c.behind.toList = none := by
  cases c <;> rfl

/-- **Where a quoted operand ends.** The quoted form of a text is a whole literal exactly if the
text does not end in a backslash. Every single quote inside of it has a backslash in front, in
any case. A reader finds the escaped text and stops right behind the quoted form, or it takes the
closing quote for one of the text and reads on in what follows.

A filter whose evaluated operand is the string is written with the quoted form for an operand:
there the reader finds the escaped text and stops in front of what belongs behind the operand, or
it finds no end. -/
theorem quoted_operand_ends (t : String) :
    (Text.IsLiteral (Text.quoted t).toList ↔ t.toList.getLast? ≠ some '\\') ∧
    (∀ before after, (Text.quoted t).toList = before ++ '\'' :: after → before ≠ [] →
      after ≠ [] → before.getLast? = some '\\') ∧
    (∀ rest, Text.readLiteral? ((Text.quoted t).toList ++ rest) =
      if t.toList.getLast? = some '\\' then
        (Text.readInner? rest).map
          (Text.readBefore ((Text.escaped t).toList.dropLast ++ ['\'']))
      else some ((Text.escaped t).toList, rest)) ∧
    ∀ (keywords : Option (List String)) (scope : Scope) (f g : Filter) (p q : Progress),
      (f.evaluate scope).run p = .ok (g, q) → g.operand = .quoted t →
      ∃ text o, (f.write keywords scope).run p = .ok (text, o) ∧
        ∃ operand, text.toList = (g.key.text ++ g.comparison.between).toList ++ operand ∧
          Text.readLiteral? operand =
            if t.toList.getLast? = some '\\' then none
            else some ((Text.escaped t).toList, g.comparison.behind.toList) := by
  refine ⟨Text.isLiteral_quoted_iff t, fun before after => Text.getLast?_of_quote_inside,
    Text.readLiteral?_quoted t, fun keywords scope f g p q hrun hoperand => ?_⟩
  have htext : g.expression.toList = (g.key.text ++ g.comparison.between).toList
      ++ ((Text.quoted t).toList ++ g.comparison.behind.toList) := by
    rw [toList_expression, hoperand, String.toList_append, List.append_assoc]
    rfl
  refine ⟨g.expression, _, run_write hrun keywords, _, htext, ?_⟩
  rw [Text.readLiteral?_quoted, readInner?_behind]
  rfl

/-- The filter `[kind] = 'it\'s'` is written with a whole literal. -/
theorem apostrophe_ends_nothing :
    "it's".toList.getLast? ≠ some '\\' ∧ Text.IsLiteral (Text.quoted "it's").toList ∧
      ((Session.ofKind (.quoted "it's")).evaluate ⟨{}, []⟩).run ⟨.empty, {}⟩
        = .ok (Session.ofKind (.quoted "it's"), ⟨.empty, {}⟩) ∧
      (Session.ofKind (.quoted "it's")).operand = .quoted "it's" ∧
      ∃ text o, ((Session.ofKind (.quoted "it's")).write none ⟨{}, []⟩).run ⟨.empty, {}⟩
          = .ok (text, o) ∧
        ∃ operand, text.toList = "[kind] = ".toList ++ operand ∧
          Text.readLiteral? operand = some ("it's".toList, []) := by
  obtain ⟨hliteral, -, -, hwritten⟩ := quoted_operand_ends "it's"
  have hlast : "it's".toList.getLast? ≠ some '\\' := by decide
  have hrun := run_evaluate_of_references_eq_nil ⟨{}, []⟩ (f := Session.ofKind (.quoted "it's")) rfl
    ⟨.empty, {}⟩
  obtain ⟨text, o, hwrite, operand, htext, hread⟩ := hwritten none _ _ _ _ _ hrun rfl
  exact ⟨hlast, hliteral.mpr hlast, hrun, rfl, text, o, hwrite, operand, htext, hread⟩

/-- **A backslash at the end takes the quote with it.** The filter `[kind] = 'C:\'` is written with
a literal that has no end, and that goes on in whatever filter is written behind it. -/
theorem trailing_backslash_hides_end :
    ¬Text.IsLiteral (Text.quoted "C:\\").toList ∧
      (Session.ofKind (.quoted "C:\\")).expression = "[kind] = 'C:\\'" ∧
      Text.readLiteral? "'C:\\'".toList = none ∧
      Text.readLiteral? "'C:\\' and [kind] = 'road'".toList
        = some ("C:' and [kind] = ".toList, "road'".toList) := by
  refine ⟨fun h => ?_, by decide, by decide, by decide⟩
  exact (h.bare_iff "'C:\\".toList [] rfl).mpr (Or.inr rfl) (by decide)

end Filter

end MapStyle
