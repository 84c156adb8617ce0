import MapStyle.Text.Pieces

/-!
# Paths

A path is a text; what it means are its **components**. Empty pieces between
slashes mean nothing, and neither does a `.`, except at the start of a
relative path, where it is kept. A `..` is kept everywhere: what it leads to
is the file system's to say.
-/

namespace MapStyle

/-- One step of a path. -/
inductive PathStep where
  /-- The root, at the start of an absolute path. -/
  | root
  /-- A `.` at the start of a relative path. -/
  | here
  /-- A `..`. -/
  | up
  /-- The entry of a directory. -/
  | entry (name : String)
deriving DecidableEq

/-- **A path**, as it is written. -/
structure Path where
  text : String
deriving DecidableEq

namespace Path

/-- The step a piece of a path stands for, if it stands for one: `first` says
whether the piece starts a relative path. -/
def stepOf? (first : Bool) (piece : List Char) : Option PathStep :=
  match String.ofList piece with
  | "" => none
  | "." => if first then some .here else none
  | ".." => some .up
  | name => some (.entry name)

/-- **The steps of a path.** -/
def steps (p : Path) : List PathStep :=
  match Text.pieces '/' p.text.toList with
  | [] => []
  | first :: rest =>
    let rooted := first.isEmpty && !rest.isEmpty
    let start := if rooted then some .root else stepOf? true first
    start.toList ++ rest.filterMap (stepOf? false)

/-- Whether two paths have the same steps. -/
def same (p q : Path) : Bool := p.steps = q.steps

/-- Whether the path starts at the root. -/
def isAbsolute (p : Path) : Bool := p.text.toList.head? = some '/'

/-- A path behind another. An absolute one stands alone. -/
def join (p q : Path) : Path :=
  if q.isAbsolute || p.text.isEmpty then q
  else if p.text.toList.getLast? = some '/' then ⟨p.text ++ q.text⟩
  else ⟨p.text ++ "/" ++ q.text⟩

/-- The name of the entry the path leads to, if its last step is one. -/
def fileName? (p : Path) : Option String :=
  match p.steps.getLast? with
  | some (.entry name) => some name
  | _ => none

/-- **The extension of a path**: what follows the last dot of its file name,
unless the name only starts with it. -/
def extension? (p : Path) : Option String := do
  let name ← p.fileName?
  match (Text.pieces '.' name.toList).reverse with
  | [] | [_] | [_, []] => none
  | last :: _ => some (String.ofList last)

end Path

end MapStyle
