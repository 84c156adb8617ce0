import MapStyle.Named
import MapStyle.Path

/-!
# File systems

A finite tree of directories and files. A **location** is a way into it from the
root, as a list of names. A path leads to a location if each of its steps leads
on from an entry that exists, and only a directory has steps beyond it.
-/

namespace MapStyle

/-- **A file or a directory.** -/
inductive FileEntry where
  | file (content : ByteArray)
  | directory (entries : List (String × FileEntry))

/-- Why a path cannot be used. -/
inductive FileError where
  | notFound
  | notDirectory
  | isDirectory
  | notText
  | zeroByte
deriving DecidableEq

/-- The wording of a reason. -/
def FileError.message : FileError → String
  | .notFound => "No such file or directory (os error 2)"
  | .notDirectory => "Not a directory (os error 20)"
  | .isDirectory => "Is a directory (os error 21)"
  | .notText => "stream did not contain valid UTF-8"
  | .zeroByte => "file name contained an unexpected NUL byte"

namespace FileEntry

/-- What is at a location. -/
def at? : FileEntry → List String → Option FileEntry
  | e, [] => some e
  | .file _, _ :: _ => none
  | .directory entries, name :: rest => (Named.find? name entries).bind (at? · rest)

/-- Whether an entry is a regular file. -/
def isFile : FileEntry → Bool
  | .file _ => true
  | .directory _ => false

/-- The contents of a directory; anything else has none. -/
def entries : Option FileEntry → List (String × FileEntry)
  | some (.directory entries) => entries
  | _ => []

/-- The entry after what is at a location was replaced, with the directories on
the way made where they are missing. -/
def update (f : Option FileEntry → FileEntry) : List String → Option FileEntry → FileEntry
  | [], e => f e
  | name :: rest, e =>
    .directory (Named.set name (update f rest (Named.find? name (entries e))) (entries e))

/-- The entry with a directory at a location. -/
def makeDirectory (e : FileEntry) (location : List String) : FileEntry :=
  update (fun old => old.getD (.directory [])) location (some e)

/-- The entry with a file at a location. -/
def write (e : FileEntry) (location : List String) (content : ByteArray) : FileEntry :=
  update (fun _ => .file content) location (some e)

end FileEntry

/-- **A file system**: what is at its root, and where relative paths start. -/
structure FileSystem where
  root : FileEntry := .directory []
  workingDirectory : List String := []

namespace FileSystem

/-- The location one step further. -/
def step (fs : FileSystem) (location : List String) (step : PathStep) :
    Except FileError (List String) :=
  match fs.root.at? location with
  | none => .error .notFound
  | some (.file _) => .error .notDirectory
  | some (.directory entries) =>
    match step with
    | .root => .ok []
    | .here => .ok location
    | .up => .ok location.dropLast
    | .entry name =>
      if (Named.find? name entries).isSome then .ok (location ++ [name]) else .error .notFound

/-- Whether a path can only mean a directory: it ends in a slash or in a `.`. -/
def meansDirectory (p : Path) : Bool :=
  match (Text.pieces '/' p.text.toList).reverse with
  | [] :: _ :: _ | ['.'] :: _ => true
  | _ => false

/-- **The location that a path leads to**, and what is there. -/
def locate (fs : FileSystem) (p : Path) : Except FileError (List String × FileEntry) := do
  if p.text.toList.contains '\x00' then throw .zeroByte
  if p.text.isEmpty then throw .notFound
  let start := if p.isAbsolute then [] else fs.workingDirectory
  let location ← p.steps.foldlM fs.step start
  match fs.root.at? location with
  | none => throw .notFound
  | some (.file content) =>
    if meansDirectory p then throw .notDirectory else return (location, .file content)
  | some e => return (location, e)

/-- Whether a path leads anywhere. -/
def pathExists (fs : FileSystem) (p : Path) : Bool := (fs.locate p).isOk

/-- **The text of the file that a path leads to.** -/
def readText (fs : FileSystem) (p : Path) : Except FileError String := do
  match (← fs.locate p).2 with
  | .directory _ => throw .isDirectory
  | .file content =>
    match String.fromUTF8? content with
    | some text => return text
    | none => throw .notText

/-- Whether there is a regular file at a location. -/
def isFile (fs : FileSystem) (location : List String) : Bool :=
  (fs.root.at? location).any (·.isFile)

/-- The absolute path of a location. -/
def pathOf (location : List String) : Path := ⟨"/" ++ "/".intercalate location⟩

end FileSystem

end MapStyle
