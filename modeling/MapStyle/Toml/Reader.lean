import MapStyle.Toml.Scalar

/-!
# Reading TOML

A text is read line by line into statements, which write a table
(`Toml.ofStatements?`). Strings come in four forms: between quotes, where a
backslash escapes, or between single quotes, where nothing does; and each of
these on one line or, between three marks, on several.
-/

namespace MapStyle.Toml

/-! ## Blanks and comments -/

/-- A text without the spaces and tabs in front. -/
def skipBlanks (cs : List Char) : List Char := cs.dropWhile fun c => c = ' ' || c = '\t'

/-- Whether a character is a control character that no text may hold. -/
def isControl (c : Char) : Bool := (c.toNat < 0x20 && c ≠ '\t') || c.toNat = 0x7F

/-- What follows the end of a line, which the text must be at. -/
def endLine? : List Char → Option (List Char)
  | [] => some []
  | '\n' :: rest => some rest
  | '\r' :: '\n' :: rest => some rest
  | _ => none

/-- A text without the comment in front, if there is one. -/
def skipComment : List Char → List Char
  | '#' :: rest => rest.dropWhile fun c => !isControl c
  | cs => cs

/-- What follows the rest of a line that has nothing more to say. -/
def finishLine? (cs : List Char) : Option (List Char) := endLine? (skipComment (skipBlanks cs))

/-- A text without the blanks, comments and line ends in front, of which at most
so many lines are looked at. -/
def skipLines : Nat → List Char → List Char
  | 0, cs => cs
  | n + 1, cs =>
    let bare := skipBlanks cs
    match bare with
    | '#' :: _ | '\n' :: _ | '\r' :: _ =>
      match endLine? (skipComment bare) with
      | some rest => skipLines n rest
      | none => bare
    | _ => bare

/-! ## Strings -/

/-- The character of a number of hexadecimal digits. -/
def scalarValue? (ds : List Char) : Option Char := do
  let n ← ds.foldlM (fun n d => return 16 * n + (← Text.hexValue? d)) 0
  if n < 0xD800 ∨ 0xDFFF < n ∧ n < 0x110000 then return Char.ofNat n else none

/-- The character that an escape stands for, after its backslash, and what
follows it. -/
def escape? : List Char → Option (Char × List Char)
  | 'b' :: rest => some ('\x08', rest)
  | 't' :: rest => some ('\t', rest)
  | 'n' :: rest => some ('\n', rest)
  | 'f' :: rest => some ('\x0c', rest)
  | 'r' :: rest => some ('\r', rest)
  | '"' :: rest => some ('"', rest)
  | '\\' :: rest => some ('\\', rest)
  | 'u' :: rest =>
    if 4 ≤ rest.length then (scalarValue? (rest.take 4)).map (·, rest.drop 4) else none
  | 'U' :: rest =>
    if 8 ≤ rest.length then (scalarValue? (rest.take 8)).map (·, rest.drop 8) else none
  | _ => none

/-- A character put in front of a string that was read. -/
def withChar (c : Char) (found : List Char × List Char) : List Char × List Char :=
  (c :: found.1, found.2)

/-- A string on one line after its opening quote, and what follows it. -/
def basicString? : Nat → List Char → Option (List Char × List Char)
  | 0, _ | _, [] => none
  | n + 1, c :: rest =>
    if c = '"' then some ([], rest)
    else if c = '\\' then do
      let (d, rest) ← escape? rest
      return withChar d (← basicString? n rest)
    else if isControl c then none
    else (basicString? n rest).map (withChar c)

/-- A string on one line after its opening single quote, and what follows
it. -/
def literalString? : List Char → Option (List Char × List Char)
  | [] => none
  | c :: rest =>
    if c = '\'' then some ([], rest)
    else if isControl c then none
    else (literalString? rest).map (withChar c)

/-- A text without the white space and line ends in front. -/
def skipFold (cs : List Char) : List Char :=
  cs.dropWhile fun c => c = ' ' || c = '\t' || c = '\n' || c = '\r'

/-- What a backslash at the end of a line stands for: nothing, up to the next
character that is no white space. -/
def foldLine? (cs : List Char) : Option (List Char) :=
  match skipBlanks cs with
  | '\n' :: rest | '\r' :: '\n' :: rest => some (skipFold rest)
  | _ => none

/-- The end of a string on several lines, whose mark is given three times: up to
two more marks in front belong to the string. -/
def closing? (mark : Char) : List Char → Option (List Char × List Char)
  | a :: b :: c :: rest =>
    if a = mark ∧ b = mark ∧ c = mark then
      match rest with
      | d :: e :: rest' =>
        if d = mark ∧ e = mark then some ([mark, mark], rest')
        else if d = mark then some ([mark], e :: rest')
        else some ([], rest)
      | [d] => if d = mark then some ([mark], []) else some ([], [d])
      | [] => some ([], [])
    else none
  | _ => none

/-- A string on several lines after its opening, and what follows it: `escapes`
says whether a backslash escapes. -/
def longString? (mark : Char) (escapes : Bool) : Nat → List Char → Option (List Char × List Char)
  | 0, _ => none
  | n + 1, cs =>
    match closing? mark cs with
    | some found => some found
    | none =>
      match cs with
      | [] => none
      | '\r' :: '\n' :: rest =>
        (longString? mark escapes n rest).map fun found => withChar '\r' (withChar '\n' found)
      | c :: rest =>
        if c = '\\' ∧ escapes then
          match foldLine? rest with
          | some rest => longString? mark escapes n rest
          | none => do
            let (d, rest) ← escape? rest
            return withChar d (← longString? mark escapes n rest)
        else if isControl c ∧ c ≠ '\n' then none
        else (longString? mark escapes n rest).map (withChar c)

/-- A text without the line end in front, if there is one. -/
def skipLineEnd : List Char → List Char
  | '\n' :: rest | '\r' :: '\n' :: rest => rest
  | cs => cs

/-- **A string in any of its forms**, and what follows it. -/
def string? (cs : List Char) : Option (String × List Char) :=
  let found := match cs with
    | '"' :: '"' :: '"' :: rest => longString? '"' true (rest.length + 1) (skipLineEnd rest)
    | '\'' :: '\'' :: '\'' :: rest => longString? '\'' false (rest.length + 1) (skipLineEnd rest)
    | '"' :: rest => basicString? (rest.length + 1) rest
    | '\'' :: rest => literalString? rest
    | _ => none
  found.map fun (text, rest) => (String.ofList text, rest)

/-! ## Keys -/

/-- Whether a character can be part of a key without quotes. -/
def isKeyChar (c : Char) : Bool := c.isAlphanum || c = '-' || c = '_'

/-- One part of a key, and what follows it. -/
def keyPart? (cs : List Char) : Option (String × List Char) :=
  match cs with
  | '"' :: rest =>
    (basicString? (rest.length + 1) rest).map fun (text, rest) => (String.ofList text, rest)
  | '\'' :: rest => (literalString? rest).map fun (text, rest) => (String.ofList text, rest)
  | cs =>
    let (part, rest) := cs.span isKeyChar
    if part.isEmpty then none else some (String.ofList part, rest)

/-- **A key**, whose parts have dots between them, and what follows it and the
blanks around it. -/
def key? : Nat → List Char → Option (List String × List Char)
  | 0, _ => none
  | n + 1, cs => do
    let (part, rest) ← keyPart? (skipBlanks cs)
    match skipBlanks rest with
    | '.' :: rest =>
      let (parts, rest) ← key? n rest
      return (part :: parts, rest)
    | rest => return ([part], rest)

/-! ## Values -/

/-- How many brackets and braces may be open at once in a value. -/
def depthLimit : Nat := 80

mutual

/-- A value with blanks in front, and what follows it. `depth` brackets and
braces are open around it, and the number bounds the calls nested in this
one. -/
def value? (depth : Nat) : Nat → List Char → Option (Toml × List Char)
  | 0, _ => none
  | n + 1, cs =>
    match skipBlanks cs with
    | '"' :: rest => (string? ('"' :: rest)).map fun (s, rest) => (.string s, rest)
    | '\'' :: rest => (string? ('\'' :: rest)).map fun (s, rest) => (.string s, rest)
    | '[' :: rest =>
      if depth < depthLimit then
        (items? (depth + 1) n rest).map fun (items, rest) => (.array items, rest)
      else none
    | '\x7b' :: rest =>
      if depth < depthLimit then
        match skipBlanks rest with
        | '\x7d' :: rest => some (.table [], rest)
        | rest => do
          let (pairs, rest) ← pairs? (depth + 1) n rest
          return (← inlineTable? pairs, rest)
      else none
    | rest => scalar? rest

/-- The items of an array up to its closing bracket. Lines may end anywhere
between them, and a comma may follow the last. -/
def items? (depth : Nat) : Nat → List Char → Option (List Toml × List Char)
  | 0, _ => none
  | n + 1, cs =>
    match skipLines (cs.length + 1) cs with
    | ']' :: rest => some ([], rest)
    | cs => do
      let (item, rest) ← value? depth n cs
      match skipLines (rest.length + 1) rest with
      | ']' :: rest => return ([item], rest)
      | ',' :: rest =>
        let (items, rest) ← items? depth n rest
        return (item :: items, rest)
      | _ => none

/-- The keys and values of a table up to its closing brace, at least one, all on
one line. -/
def pairs? (depth : Nat) : Nat → List Char → Option (List (List String × Toml) × List Char)
  | 0, _ => none
  | n + 1, cs => do
    let (key, rest) ← key? (cs.length + 1) cs
    let '=' :: rest := rest | none
    let (v, rest) ← value? depth n rest
    match skipBlanks rest with
    | '\x7d' :: rest => return ([(key, v)], rest)
    | ',' :: rest =>
      let (pairs, rest) ← pairs? depth n rest
      return ((key, v) :: pairs, rest)
    | _ => none

end

/-! ## Documents -/

/-- A statement at the start of a line, and what follows it. -/
def statement? (cs : List Char) : Option (Statement × List Char) := do
  match cs with
  | '[' :: '[' :: rest =>
    let (key, rest) ← key? (rest.length + 1) rest
    let ']' :: ']' :: rest := rest | none
    return (.openItem key, rest)
  | '[' :: rest =>
    let (key, rest) ← key? (rest.length + 1) rest
    let ']' :: rest := rest | none
    return (.openTable key, rest)
  | cs =>
    let (key, rest) ← key? (cs.length + 1) cs
    let '=' :: rest := rest | none
    let (v, rest) ← value? 0 (2 * rest.length + 2) rest
    return (.assign key v, rest)

/-- The statements of a text of at most so many lines. -/
def statements? : Nat → List Char → Option (List Statement)
  | 0, _ => none
  | n + 1, cs =>
    match skipLines (cs.length + 1) cs with
    | [] => some []
    | cs => do
      let (s, rest) ← statement? cs
      let rest ← finishLine? rest
      return s :: (← statements? n rest)

/-- **The table of a TOML text.** A mark of the byte order in front means
nothing. -/
def read? (text : String) : Option (List (String × Toml)) := do
  let cs := match text.toList with
    | '\uFEFF' :: rest => rest
    | cs => cs
  ofStatements? (← statements? (cs.length + 1) cs)

end MapStyle.Toml
