import MapStyle.FileSystem
import MapStyle.Schema.Decoding
import MapStyle.Settings.Basic

/-!
# Finding settings

Settings are read from a file that is named, or else from the nearest settings
file: the first one met on the way from a directory to the root. A directory may
hold several, under names of different priority, and any of them in a nearer
directory comes before all those further out. Without any file the settings are
the defaults.
-/

namespace MapStyle.Settings

/-- **The names of settings files**, the first before the others. -/
def fileNames : List String := [".cartorc.toml", ".cartorc.json", "carto.toml", "carto.json"]

/-- The locations from one outwards, the root last. -/
def outwards (location : List String) : List (List String) :=
  (List.range (location.length + 1)).reverse.map location.take

/-- The settings file in a directory. -/
def fileIn? (fs : FileSystem) (directory : List String) : Option (List String) :=
  (fileNames.map fun name => directory ++ [name]).find? fs.isFile

/-- **The nearest settings file** from a location outwards. -/
def nearestFile? (fs : FileSystem) (start : List String) : Option (List String) :=
  (outwards start).findSome? (fileIn? fs)

/-- **The path of the nearest settings file** from where another path leads. -/
def discover (fs : FileSystem) (start : Path) : Except StyleError (Option Path) :=
  match fs.locate start with
  | .error reason => .error (.config ("Invalid path: " ++ reason.message))
  | .ok (location, _) => .ok ((nearestFile? fs location).map FileSystem.pathOf)

/-- The text of a file. -/
def readText (fs : FileSystem) (p : Path) : Except StyleError String :=
  match fs.readText p with
  | .ok text => .ok text
  | .error reason => .error (.io p.text reason.message)

/-- The error of a file that holds no settings. Of what is wrong with its text
nothing is said. -/
def loadError (p : Path) (reason : String) : StyleError :=
  .config ("Failed to load config from '" ++ p.text ++ "': " ++ reason)

/-- **The settings of a file**, in the format that its extension names. -/
def loadFile (fs : FileSystem) (p : Path) : Except StyleError Settings := do
  let text ← readText fs p
  match p.extension? with
  | some "toml" => (readToml? text).elim (.error (loadError p "")) .ok
  | some "json" => (readJson? text).elim (.error (loadError p "")) .ok
  | _ => throw (loadError p "unsupported file extension (expected .toml or .json)")

/-- The directory that discovery starts in unless it is told another. -/
def defaultStart : Path := ⟨"."⟩

/-- **The settings for a pass**: of the file that is named, of the nearest
settings file, or the defaults. -/
def load (fs : FileSystem) (named start : Option Path) : Except StyleError Settings := do
  match named with
  | some p =>
    if fs.pathExists p then loadFile fs p
    else throw (.config ("Config file not found: " ++ p.text))
  | none =>
    match ← discover fs (start.getD defaultStart) with
    | some p => loadFile fs p
    | none => return {}

end MapStyle.Settings

namespace MapStyle.Schema

/-- **The schema of a file.** -/
def load (fs : FileSystem) (p : Path) : Except StyleError Schema := do
  ofJson (← Settings.readText fs p)

end MapStyle.Schema
