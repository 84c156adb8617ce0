import MapStyle.Proofs.Closed
import MapStyle.Proofs.Requests
import MapStyle.Proofs.Writing

/-!
# What an id tells of a filter

The id of a filter is the texts of its three parts, one right after the other. The expression
that the filter is written as has the same parts, with the renderer's text for the operator.
So two filters with one id are written alike exactly if the id falls into the same parts for
both, and either both have a string on the right or neither
(`Session.written_alike_iff`).

Neither is seen from the id. A string has the same text as the bare word, but only a string is
quoted in the expression (`Session.word_and_string_differ`); and what follows an operator in
the id may be the rest of a longer one, or the operator itself a piece of the key. If the key
has no such character and the text on the right does not begin with one (`Filter.IsPlain`),
the parts of an id are what they seem.
-/

namespace MapStyle

/-! ## Strings on the right -/

namespace Text

/-- Quoting makes a text longer. -/
theorem length_lt_length_quoteChars (cs : List Char) :
    (escapeChars cs).length < (quoteChars cs).length := by
  have hguard : ∀ ds : List Char, ds.length ≤ (ds.flatMap guardQuote).length := by
    intro ds
    induction ds with
    | nil => exact Nat.le_refl _
    | cons d ds ih =>
      have hd : 1 ≤ (guardQuote d).length := by
        unfold guardQuote
        split
        · decide
        · exact Nat.le_refl _
      rw [List.flatMap_cons, List.length_append, List.length_cons]
      omega
  have hle := hguard (escapeChars cs)
  rw [quoteChars, List.cons_append, List.length_cons, List.length_append]
  omega

/-- What is escaped alike is quoted alike. -/
theorem quoted_congr {s t : String} (h : escaped s = escaped t) : quoted s = quoted t := by
  have hchars : escapeChars s.toList = escapeChars t.toList := String.ofList_injective h
  rw [quoted, quoted, quoteChars, quoteChars, hchars]

/-- A quoted text is not the escaped one. -/
theorem quoted_ne_escaped (s : String) : quoted s ≠ escaped s := by
  intro h
  have hchars : quoteChars s.toList = escapeChars s.toList := String.ofList_injective h
  have hlt := length_lt_length_quoteChars s.toList
  rw [hchars] at hlt
  exact Nat.lt_irrefl _ hlt

end Text

namespace Node

variable {n m : Node}

/-- A bare word is no string. -/
theorem kind_keyword_ne_string (word : String) : (keyword word).kind ≠ .string := by
  rw [kind]
  unfold NodeKind.ofWord
  split_ifs <;> exact NodeKind.noConfusion

/-- The nodes that are quoted on the right of a filter are the strings. -/
theorem exists_eq_quoted_of_kind (h : n.kind = .string) : ∃ t, n = .quoted t := by
  cases n with
  | quoted t => exact ⟨t, rfl⟩
  | keyword word => exact absurd h (kind_keyword_ne_string word)
  | _ => exact NodeKind.noConfusion h

/-- What is no string has its own text there. -/
theorem filterText_of_kind_ne (h : n.kind ≠ .string) : n.filterText = n.text := by
  cases n with
  | quoted t => exact absurd rfl h
  | _ => rfl

/-- **Nodes with the same text read alike on the right of a filter** if both are strings, or
neither is. -/
theorem filterText_eq_iff (h : n.text = m.text) :
    n.filterText = m.filterText ↔ (n.kind = .string ↔ m.kind = .string) := by
  by_cases hn : n.kind = .string
  · obtain ⟨s, rfl⟩ := exists_eq_quoted_of_kind hn
    by_cases hm : m.kind = .string
    · obtain ⟨t, rfl⟩ := exists_eq_quoted_of_kind hm
      exact iff_of_true (Text.quoted_congr h) Iff.rfl
    · rw [filterText_of_kind_ne hm, ← h]
      exact iff_of_false (Text.quoted_ne_escaped s) fun hkind => hm (hkind.mp rfl)
  · rw [filterText_of_kind_ne hn]
    by_cases hm : m.kind = .string
    · obtain ⟨t, rfl⟩ := exists_eq_quoted_of_kind hm
      rw [h]
      exact iff_of_false (Text.quoted_ne_escaped t).symm fun hkind => hn (hkind.mpr rfl)
    · rw [filterText_of_kind_ne hm]
      exact iff_of_true h (iff_of_false hn hm)

end Node

/-! ## Operators -/

namespace Comparison

variable {c d : Comparison}

/-- The characters that an operator may begin with. -/
def heads : List Char := ['<', '>', '=', '!']

/-- The characters that an operator may go on with. -/
def tails : List Char := ['=', '~']

/-- An operator begins with a character of its own in a stylesheet, and with something else
for the renderer. -/
theorem exists_text_between_eq_cons (c : Comparison) :
    ∃ a as b bs, c.text.toList = a :: as ∧ a ∈ heads ∧
      c.between.toList = b :: bs ∧ b ∉ heads := by
  cases c <;> exact ⟨_, _, _, _, rfl, by decide, rfl, by decide⟩

/-- No operator is the beginning of another for the renderer. -/
theorem eq_of_between_isPrefix (h : c.between.toList <+: d.between.toList) : c = d := by
  cases c <;> cases d <;> first | rfl | exact absurd h (by decide)

/-- An operator that another begins with has one character less. -/
theorem text_isPrefix_cases (h : c.text.toList <+: d.text.toList) :
    c = d ∨ ∃ a ∈ tails, d.text.toList = c.text.toList ++ [a] := by
  cases c <;> cases d <;> first
    | exact .inl rfl
    | exact .inr ⟨'=', List.mem_cons_self, rfl⟩
    | exact .inr ⟨'~', List.mem_cons_of_mem _ List.mem_cons_self, rfl⟩
    | exact absurd h (by decide)

/-- **The renderer's operator is known** from a text that begins with it. -/
theorem eq_of_between_append_eq {xs ys : List Char}
    (h : c.between.toList ++ xs = d.between.toList ++ ys) : c = d := by
  rcases List.prefix_or_prefix_of_prefix (List.prefix_append _ xs)
    (h ▸ List.prefix_append _ ys) with hcd | hdc
  · exact eq_of_between_isPrefix hcd
  · exact (eq_of_between_isPrefix hdc).symm

/-- An operator that another begins with is that one, unless what follows it could belong to
it. -/
theorem eq_of_text_isPrefix {xs ys : List Char} (hxs : ∀ a ∈ tails, xs.head? ≠ some a)
    (h : c.text.toList ++ xs = d.text.toList ++ ys) (hcd : c.text.toList <+: d.text.toList) :
    c = d := by
  rcases text_isPrefix_cases hcd with rfl | ⟨a, ha, hd⟩
  · rfl
  · rw [hd, List.append_assoc] at h
    exact absurd (congrArg List.head? (List.append_cancel_left h)) (hxs a ha)

/-- **An operator is known** from a text that begins with it, unless what follows it could
belong to it. -/
theorem eq_of_text_append_eq {xs ys : List Char} (hxs : ∀ a ∈ tails, xs.head? ≠ some a)
    (hys : ∀ a ∈ tails, ys.head? ≠ some a)
    (h : c.text.toList ++ xs = d.text.toList ++ ys) : c = d := by
  rcases List.prefix_or_prefix_of_prefix (List.prefix_append _ xs)
    (h ▸ List.prefix_append _ ys) with hcd | hdc
  · exact eq_of_text_isPrefix hxs h hcd
  · exact (eq_of_text_isPrefix hys h.symm hdc).symm

end Comparison

/-! ## Filters with one id -/

section

variable {α : Type} {ks ls as as' bs bs' : List α} {a a' b b' : α}

/-- Lists with different heads have no beginning in common. -/
theorem eq_nil_of_cons_eq_append (h : a :: as = ks ++ ls) (h' : b :: bs = ks ++ as')
    (hab : a ≠ b) : ks = [] := by
  cases ks with
  | nil => rfl
  | cons k ks =>
    have ha : a = k := List.head_eq_of_cons_eq h
    have hb : b = k := List.head_eq_of_cons_eq h'
    exact absurd (ha.trans hb.symm) hab

/-- **A front is known** from two lists that begin with it and go on differently. -/
theorem eq_of_append_cons_eq (h : ks ++ a :: as = ls ++ a' :: as')
    (h' : ks ++ b :: bs = ls ++ b' :: bs') (hab : a ≠ b) (hab' : a' ≠ b') : ks = ls := by
  rcases List.append_eq_append_iff.mp h with ⟨xs, rfl, hxs⟩ | ⟨xs, rfl, hxs⟩
  · rw [List.append_assoc] at h'
    rw [eq_nil_of_cons_eq_append hxs (List.append_cancel_left h') hab, List.append_nil]
  · rw [List.append_assoc] at h'
    rw [eq_nil_of_cons_eq_append hxs (List.append_cancel_left h').symm hab', List.append_nil]

end

namespace Filter

variable {f g : Filter}

/-- The characters of an id. -/
theorem toList_id (f : Filter) : f.id.toList
    = f.key.text.toList ++ (f.comparison.text.toList ++ f.operand.text.toList) := by
  rw [id, String.toList_append, String.toList_append, List.append_assoc]

/-- The characters of an expression. -/
theorem toList_expression (f : Filter) : f.expression.toList
    = f.key.text.toList ++ (f.comparison.between.toList
        ++ (f.operand.filterText.toList ++ f.comparison.behind.toList)) := by
  rw [expression, String.toList_append, String.toList_append, String.toList_append,
    List.append_assoc, List.append_assoc]

/-- Filters with one id and one expression have the same key: behind it the id goes on as an
operator does, and the expression does not. -/
theorem key_text_eq (hid : f.id = g.id) (h : f.expression = g.expression) :
    f.key.text = g.key.text := by
  have hids := congrArg String.toList hid
  have hexpressions := congrArg String.toList h
  rw [toList_id, toList_id] at hids
  rw [toList_expression, toList_expression] at hexpressions
  obtain ⟨a, as, b, bs, htext, ha, hbetween, hb⟩ := f.comparison.exists_text_between_eq_cons
  obtain ⟨a', as', b', bs', htext', ha', hbetween', hb'⟩ :=
    g.comparison.exists_text_between_eq_cons
  rw [htext, htext', List.cons_append, List.cons_append] at hids
  rw [hbetween, hbetween', List.cons_append, List.cons_append] at hexpressions
  exact String.toList_inj.mp (eq_of_append_cons_eq hids hexpressions
    (ne_of_mem_of_not_mem ha hb) (ne_of_mem_of_not_mem ha' hb'))

/-- What is on the right of filters with one id, if the rest is the same. -/
theorem operand_text_eq (hid : f.id = g.id) (hkey : f.key.text = g.key.text)
    (hcomparison : f.comparison = g.comparison) : f.operand.text = g.operand.text := by
  have hids := congrArg String.toList hid
  rw [toList_id, toList_id, hkey, hcomparison] at hids
  exact String.toList_inj.mp (List.append_cancel_left (List.append_cancel_left hids))

/-- **Filters with one id have the same expression** exactly if the id falls into the same
parts, and either both have a string on the right or neither. -/
theorem expression_eq_iff (hid : f.id = g.id) : f.expression = g.expression ↔
    f.key.text = g.key.text ∧ f.comparison = g.comparison ∧
      (f.operand.kind = .string ↔ g.operand.kind = .string) := by
  constructor
  · intro h
    have hkey := key_text_eq hid h
    have hrest := congrArg String.toList h
    rw [toList_expression, toList_expression, hkey] at hrest
    have hcomparison := Comparison.eq_of_between_append_eq (List.append_cancel_left hrest)
    rw [hcomparison] at hrest
    have hoperand : f.operand.filterText = g.operand.filterText := String.toList_inj.mp
      (List.append_cancel_right (List.append_cancel_left (List.append_cancel_left hrest)))
    exact ⟨hkey, hcomparison,
      (Node.filterText_eq_iff (operand_text_eq hid hkey hcomparison)).mp hoperand⟩
  · rintro ⟨hkey, hcomparison, hkind⟩
    have hoperand := (Node.filterText_eq_iff (operand_text_eq hid hkey hcomparison)).mpr hkind
    rw [expression, expression, hkey, hcomparison, hoperand]

/-! ## Filters whose ids fall into parts -/

/-- **A plain filter**: no character of the key could begin an operator, and what is on the
right does not begin with one that could belong to the operator before. -/
def IsPlain (f : Filter) : Prop :=
  (∀ c ∈ f.key.text.toList, c ∉ Comparison.heads) ∧
    ∀ a ∈ Comparison.tails, f.operand.text.toList.head? ≠ some a

instance : Decidable f.IsPlain :=
  @instDecidableAnd _ _ (List.decidableBAll _ _) (List.decidableBAll _ _)

/-- The key of a plain filter ends where its id has the first character that could begin an
operator. -/
theorem IsPlain.takeWhile_id (h : f.IsPlain) :
    f.id.toList.takeWhile (· ∉ Comparison.heads) = f.key.text.toList := by
  obtain ⟨a, as, -, -, htext, ha, -, -⟩ := f.comparison.exists_text_between_eq_cons
  rw [toList_id, List.takeWhile_append_of_pos fun c hc => decide_eq_true (h.1 c hc), htext,
    List.cons_append, List.takeWhile_cons_of_neg (by simpa using ha), List.append_nil]

/-- **The id of plain filters falls into the same parts.** -/
theorem IsPlain.parts_eq (hf : f.IsPlain) (hg : g.IsPlain) (hid : f.id = g.id) :
    f.key.text = g.key.text ∧ f.comparison = g.comparison := by
  have hkey : f.key.text = g.key.text := by
    rw [← String.toList_inj, ← hf.takeWhile_id, hid, hg.takeWhile_id]
  have hids := congrArg String.toList hid
  rw [toList_id, toList_id, hkey] at hids
  exact ⟨hkey, Comparison.eq_of_text_append_eq hf.2 hg.2 (List.append_cancel_left hids)⟩

end Filter

/-! ## What is written -/

namespace Session

variable {f g : Filter}

/-- A filter without references is evaluated in a session, and the session stays as it is. -/
theorem run_evaluateFilter (hf : f.references = []) (s : Session) :
    (evaluateFilter f).run s = .ok (f.collapse, s) :=
  run_evaluate_eq_ok_iff.mpr ⟨_, Filter.run_evaluate_of_references_eq_nil _ hf _, rfl⟩

/-- A filter without references is written in a session, as the expression of what it is
evaluated to. -/
theorem exists_run_writeFilter (schema : Schema) (hf : f.references = []) (s : Session) :
    ∃ t, (writeFilter schema f).run s = .ok (f.collapse.expression, t) :=
  ⟨_, run_writeFilter (run_evaluateFilter hf s) schema⟩

/-- **What is written of two filters with one id.** Two filters without references, with the
same id, are evaluated and written, each in any session and under any schema. This comes to an
end, and the texts agree exactly if the id falls into the same parts for both, and either both
are evaluated to have a string on the right or neither. If both are plain, the id does fall
into the same parts. -/
theorem written_alike_iff (f g : Filter) (hf : f.references = []) (hg : g.references = [])
    (hid : f.id = g.id) (schema schema' : Schema) (s s' : Session) :
    ∃ f' g' text text' t t', (evaluateFilter f).run s = .ok (f', s) ∧
      (evaluateFilter g).run s' = .ok (g', s') ∧
      (writeFilter schema f).run s = .ok (text, t) ∧
      (writeFilter schema' g).run s' = .ok (text', t') ∧
      (text = text' ↔ f.key.text = g.key.text ∧ f.comparison = g.comparison ∧
        (f'.operand.kind = .string ↔ g'.operand.kind = .string)) ∧
      (f.IsPlain → g.IsPlain →
        (text = text' ↔ (f'.operand.kind = .string ↔ g'.operand.kind = .string))) := by
  obtain ⟨t, hwrite⟩ := exists_run_writeFilter schema hf s
  obtain ⟨t', hwrite'⟩ := exists_run_writeFilter schema' hg s'
  have hids : f.collapse.id = g.collapse.id := by rw [f.id_collapse, g.id_collapse, hid]
  have htexts : f.collapse.expression = g.collapse.expression ↔
      f.key.text = g.key.text ∧ f.comparison = g.comparison ∧
        (f.collapse.operand.kind = .string ↔ g.collapse.operand.kind = .string) := by
    rw [← f.key.readsAs_collapse.text, ← g.key.readsAs_collapse.text]
    exact Filter.expression_eq_iff hids
  refine ⟨_, _, _, _, t, t', run_evaluateFilter hf s, run_evaluateFilter hg s', hwrite, hwrite',
    htexts, fun hplain hplain' => ?_⟩
  obtain ⟨hkey, hcomparison⟩ := hplain.parts_eq hplain' hid
  rw [htexts]
  exact ⟨fun h => h.2.2, fun h => ⟨hkey, hcomparison, h⟩⟩

/-- A condition on the column `kind`. -/
def ofKind (operand : Node) : Filter := ⟨.field "kind", .equal, operand, ⟨none, 0⟩⟩

/-- `[kind] = 'road'`, the string by itself and alone in an expression. -/
theorem lone_string_written_alike :
    (ofKind (.quoted "road")).references = [] ∧
      (ofKind (.expression [.quoted "road"])).references = [] ∧
      (ofKind (.quoted "road")).id = (ofKind (.expression [.quoted "road"])).id ∧
      (ofKind (.quoted "road")).IsPlain ∧ (ofKind (.expression [.quoted "road"])).IsPlain ∧
      ∃ text t t', (writeFilter {} (ofKind (.quoted "road"))).run (.start {}) = .ok (text, t) ∧
        (writeFilter {} (ofKind (.expression [.quoted "road"]))).run (.start {})
          = .ok (text, t') := by
  have hplain : (ofKind (.quoted "road")).IsPlain := by decide
  have hplain' : (ofKind (.expression [.quoted "road"])).IsPlain := by decide
  have hid : (ofKind (.quoted "road")).id = (ofKind (.expression [.quoted "road"])).id := by decide
  obtain ⟨f', g', text, text', t, t', hevaluate, hevaluate', hwrite, hwrite', -, htexts⟩ :=
    written_alike_iff (ofKind (.quoted "road")) (ofKind (.expression [.quoted "road"])) rfl rfl
      hid {} {} (.start {}) (.start {})
  obtain ⟨rfl, -⟩ := Prod.mk.inj (Except.ok.inj hevaluate)
  obtain ⟨rfl, -⟩ := Prod.mk.inj (Except.ok.inj hevaluate')
  obtain rfl := (htexts hplain hplain').mpr Iff.rfl
  exact ⟨rfl, rfl, hid, hplain, hplain', text, t, t', hwrite, hwrite'⟩

/-- **A word and a string** with the same text: `[kind] = road` and `[kind] = 'road'` have one
id, and both are plain, but only the string is quoted. -/
theorem word_and_string_differ :
    (ofKind (.keyword "road")).references = [] ∧ (ofKind (.quoted "road")).references = [] ∧
      (ofKind (.keyword "road")).id = (ofKind (.quoted "road")).id ∧
      (ofKind (.keyword "road")).IsPlain ∧ (ofKind (.quoted "road")).IsPlain ∧
      (∃ t, (writeFilter {} (ofKind (.keyword "road"))).run (.start {})
        = .ok ("[kind] = road", t)) ∧
      ∃ t, (writeFilter {} (ofKind (.quoted "road"))).run (.start {})
        = .ok ("[kind] = 'road'", t) := by
  have hword : (ofKind (.keyword "road")).collapse.expression = "[kind] = road" := by decide
  have hstring : (ofKind (.quoted "road")).collapse.expression = "[kind] = 'road'" := by decide
  refine ⟨rfl, rfl, by decide, by decide, by decide, ?_, ?_⟩
  · exact hword ▸ exists_run_writeFilter {} rfl _
  · exact hstring ▸ exists_run_writeFilter {} rfl _

end Session

end MapStyle
