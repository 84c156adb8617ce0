import MapStyle.Named

/-!
# TOML values

A TOML document is a table: names with values under them, some of which are
tables again. A text writes it in pieces. Each line gives a value to a key, or
opens a table for the lines that follow, and both can reach into tables written
before. What has been written how decides what may still be added, so the
tables under construction (`Branch`) remember it:

* a table that only lies on the way to another can still be opened;
* a table that was opened, or that the key of a value went through, cannot be
  opened, and one that was opened takes no key of a value through it;
* a value is finished, a table or an array written as one included.
-/

namespace MapStyle

/-- **A TOML value.** -/
inductive Toml where
  | string (s : String)
  | integer (n : Int)
  | float (x : Float)
  | bool (b : Bool)
  /-- A date, a time or both, as it is written. -/
  | moment (text : String)
  | array (items : List Toml)
  | table (entries : List (String × Toml))

namespace Toml

/-- How a table came to be. -/
inductive Origin where
  /-- It lies on the way to a table that was opened. -/
  | passed
  /-- It was opened. -/
  | opened
  /-- The key of a value went through it. -/
  | keyed
deriving DecidableEq

/-- **What is under a name** of a table under construction. -/
inductive Branch where
  | value (v : Toml)
  | table (origin : Origin) (entries : List (String × Branch))
  /-- An array of opened tables, the last of them still open. -/
  | tables (earlier : List (List (String × Branch))) (last : List (String × Branch))

/-- The entries of a table under construction. -/
abbrev Branches := List (String × Branch)

/-- One piece of a document. -/
inductive Statement where
  /-- A value for a key of the open table. -/
  | assign (key : List String) (value : Toml)
  /-- Opens a table. -/
  | openTable (key : List String)
  /-- Opens one more table of an array of tables. -/
  | openItem (key : List String)

namespace Branches

/-- The table after a change further inside: `keyed` says whether the way there
is the key of a value. -/
def within (keyed : Bool) (change : Branches → Option Branches) :
    List String → Branches → Option Branches
  | [], entries => change entries
  | name :: rest, entries => do
    match Named.find? name entries with
    | none =>
      let origin := if keyed then Origin.keyed else .passed
      return Named.set name (.table origin (← within keyed change rest [])) entries
    | some (.value _) => none
    | some (.table origin sub) =>
      if keyed ∧ origin = .opened then none
      else return Named.set name (.table origin (← within keyed change rest sub)) entries
    | some (.tables earlier last) =>
      if keyed then none
      else return Named.set name (.tables earlier (← within keyed change rest last)) entries

/-- The table with a value for a key. A key has one value. -/
def assign (key : List String) (v : Toml) (entries : Branches) : Option Branches :=
  let insert (name : String) (inner : Branches) : Option Branches :=
    if (Named.find? name inner).isSome then none else some (Named.set name (.value v) inner)
  match key.getLast? with
  | none => none
  | some name => within true (insert name) key.dropLast entries

/-- The table with an opened table under a name. -/
def openAt (name : String) (entries : Branches) : Option Branches :=
  match Named.find? name entries with
  | none => some (Named.set name (.table .opened []) entries)
  | some (.table .passed sub) => some (Named.set name (.table .opened sub) entries)
  | _ => none

/-- The table with one more table in the array of tables under a name. -/
def openItemAt (name : String) (entries : Branches) : Option Branches :=
  match Named.find? name entries with
  | none => some (Named.set name (.tables [] []) entries)
  | some (.tables earlier last) => some (Named.set name (.tables (earlier ++ [last]) []) entries)
  | _ => none

/-- The root after a statement, and the key of the table that is open then. -/
def perform (state : List String × Branches) (s : Statement) : Option (List String × Branches) :=
  let (current, root) := state
  match s with
  | .assign key v => do return (current, ← within false (assign key v) current root)
  | .openTable key => do
    return (key, ← within false (openAt (← key.getLast?)) key.dropLast root)
  | .openItem key => do
    return (key, ← within false (openItemAt (← key.getLast?)) key.dropLast root)

end Branches

mutual

/-- The value of a finished branch. -/
def ofBranch : Branch → Toml
  | .value v => v
  | .table _ entries => .table (ofBranches entries)
  | .tables earlier last => .array (ofTables earlier ++ [.table (ofBranches last)])

/-- The values of finished branches. -/
def ofBranches : Branches → List (String × Toml)
  | [] => []
  | (name, b) :: rest => (name, ofBranch b) :: ofBranches rest

/-- The values of finished tables. -/
def ofTables : List Branches → List Toml
  | [] => []
  | entries :: rest => .table (ofBranches entries) :: ofTables rest

end

/-- **The table that a text's statements write.** -/
def ofStatements? (statements : List Statement) : Option (List (String × Toml)) :=
  (statements.foldlM Branches.perform ([], [])).map fun (_, root) => ofBranches root

/-- The table written as one value, from its keys and values. -/
def inlineTable? (pairs : List (List String × Toml)) : Option Toml :=
  (pairs.foldlM (fun entries (key, v) => Branches.assign key v entries) ([] : Branches)).map
    fun entries => .table (ofBranches entries)

end Toml

end MapStyle
