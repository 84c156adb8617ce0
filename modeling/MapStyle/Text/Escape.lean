/-!
# Text inside XML and inside filters

A string literal reaches the renderer in two places. In an attribute its
text is **escaped**: the four characters that end or open something there
become entities. In a filter it is **quoted**: escaped, with a backslash in
front of each single quote, between two single quotes.

Both are written character by character, so a law about them is an induction
on the text.
-/

namespace MapStyle.Text

/-- The entity of a character, or the character itself. -/
def escapeChar : Char → List Char
  | '&' => ['&', 'a', 'm', 'p', ';']
  | '"' => ['&', 'q', 'u', 'o', 't', ';']
  | '<' => ['&', 'l', 't', ';']
  | '>' => ['&', 'g', 't', ';']
  | c => [c]

/-- A single quote gets a backslash in front. -/
def guardQuote : Char → List Char
  | '\'' => ['\\', '\'']
  | c => [c]

/-- The escaped characters of a text. -/
def escapeChars (cs : List Char) : List Char := cs.flatMap escapeChar

/-- The quoted characters of a text. -/
def quoteChars (cs : List Char) : List Char :=
  '\'' :: (escapeChars cs).flatMap guardQuote ++ ['\'']

/-- **The text of a string literal in an attribute.** -/
def escaped (s : String) : String := String.ofList (escapeChars s.toList)

/-- **The text of a string literal in a filter.** -/
def quoted (s : String) : String := String.ofList (quoteChars s.toList)

@[simp] theorem escapeChars_nil : escapeChars [] = [] := rfl

@[simp] theorem escapeChars_cons (c : Char) (cs : List Char) :
    escapeChars (c :: cs) = escapeChar c ++ escapeChars cs := rfl

@[simp] theorem escapeChars_append (cs ds : List Char) :
    escapeChars (cs ++ ds) = escapeChars cs ++ escapeChars ds := by
  simp [escapeChars]

end MapStyle.Text
