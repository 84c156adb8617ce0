/-!
# Errors outside a pass

A problem inside a stylesheet – an undefined variable, a bad value, an
unknown property – is a diagnostic, and the walk goes on. What stands here
is the rest: a schema or a configuration that cannot be read, an operator
that is none, a handle that points nowhere.

An error is its *cause*. Its wording is in `StyleError.message`, its family
in `StyleError.kind`, and `StyleError.recoverable` says whether a caller may
skip the offending input and go on: only the two families that stem from a
single bad input may be skipped.
-/

namespace MapStyle

/-- The families of errors. -/
inductive ErrorKind where
  | schema
  | config
  | grammar
  | tree
  | io
  | internal
deriving DecidableEq

/-- What a handle of a stylesheet points at. -/
inductive HandleKind where
  | rule
  | ruleset
deriving DecidableEq

/-- The word a message uses for the target of a handle. -/
def HandleKind.text : HandleKind → String
  | .rule => "rule"
  | .ruleset => "ruleset"

/-- **The cause of a failure** outside a pass. -/
inductive StyleError where
  /-- The schema is inconsistent. -/
  | schema (message : String)
  /-- The configuration cannot be found or loaded. -/
  | config (message : String)
  /-- The text of an operator is not in the operator table. -/
  | invalidOperator (operator : String)
  /-- A handle does not point into the stylesheet it is used with. -/
  | staleHandle (kind : HandleKind) (index : Nat)
  /-- The file system refuses a path. -/
  | io (path : String) (reason : String)
  /-- A JSON text does not describe the value it should. -/
  | json
  /-- Anything else. -/
  | internal (message : String)
deriving DecidableEq

namespace StyleError

/-- The family of an error. A JSON text is only read for a schema, so its
failure belongs there. -/
def kind : StyleError → ErrorKind
  | .schema _ | .json => .schema
  | .config _ => .config
  | .invalidOperator _ => .grammar
  | .staleHandle _ _ => .tree
  | .io _ _ => .io
  | .internal _ => .internal

/-- **A caller may skip the offending input** exactly when the error stems
from one operator or one handle. -/
def recoverable (e : StyleError) : Bool :=
  e.kind = .grammar || e.kind = .tree

/-- The wording of an error. A JSON failure has no wording of its own. -/
def message : StyleError → String
  | .schema message => "Reference schema error: " ++ message
  | .config message => "Configuration error: " ++ message
  | .invalidOperator operator => "Invalid filter operator: '" ++ operator ++ "'"
  | .staleHandle kind index => "Unknown " ++ kind.text ++ " handle: " ++ toString index
  | .io path reason => "IO error for path '" ++ path ++ "': " ++ reason
  | .json => "JSON error"
  | .internal message => "Internal error: " ++ message

end StyleError

end MapStyle
