import MapStyle.Proofs.Locations
import MapStyle.Settings.Discovery

/-!
# Which settings count

A settings file is looked for in two searches, one inside the other: through the directories from
a start outwards, and in each of them through the names of settings files. So a file in a nearer
directory comes before any file further out, whatever their names, and among the files in one
directory the name decides (`Settings.IsNearest`). Entries under such a name that are no regular
files do not count, and a start that is a file is no directory to look in.

What is found is a path, which is then read. It leads to the file that was found and to no other
(`FileSystem.locate_pathOf`), so that the settings are those of the nearest file; without any
they are the defaults. A file that is named is read without looking for others
(`Settings.nearest_file_counts`).
-/

namespace MapStyle.Settings

variable {fs : FileSystem} {start directory : List String} {name : String} {content : ByteArray}

/-! ## One directory -/

/-- **No settings file is in the directory.** -/
def HoldsNone (fs : FileSystem) (directory : List String) : Prop :=
  ∀ name ∈ fileNames, ∀ content, fs.root.at? (directory ++ [name]) ≠ some (.file content)

/-- **The settings file in a directory**: a regular file under the first name under which there is
any. -/
structure IsFileIn (fs : FileSystem) (directory : List String) (name : String)
    (content : ByteArray) : Prop where
  at?_eq : fs.root.at? (directory ++ [name]) = some (.file content)
  first : ∃ before after, fileNames = before ++ name :: after ∧
    ∀ other ∈ before, ∀ content, fs.root.at? (directory ++ [other]) ≠ some (.file content)

theorem IsFileIn.mem_fileNames (h : IsFileIn fs directory name content) : name ∈ fileNames := by
  obtain ⟨before, after, hsplit, -⟩ := h.first
  rw [hsplit]
  exact List.mem_append_right _ List.mem_cons_self

/-- **The search through the names** finds the settings file of the directory. -/
theorem fileIn?_eq_some_iff {location : List String} : fileIn? fs directory = some location ↔
    ∃ name content, IsFileIn fs directory name content ∧ location = directory ++ [name] := by
  unfold fileIn?
  rw [List.find?_map, Option.map_eq_some_iff]
  constructor
  · rintro ⟨name, hname, rfl⟩
    obtain ⟨hfile, before, after, hsplit, hbefore⟩ := List.find?_eq_some_iff_append.mp hname
    obtain ⟨content, hcontent⟩ := FileSystem.isFile_eq_true_iff.mp hfile
    refine ⟨name, content, ⟨hcontent, before, after, hsplit, fun other hother => ?_⟩, rfl⟩
    exact FileSystem.isFile_eq_false_iff.mp (Bool.not_eq_true' _ ▸ hbefore other hother)
  · rintro ⟨name, content, ⟨hcontent, before, after, hsplit, hbefore⟩, rfl⟩
    refine ⟨name, List.find?_eq_some_iff_append.mpr ⟨?_, before, after, hsplit, ?_⟩, rfl⟩
    · exact FileSystem.isFile_eq_true_iff.mpr ⟨content, hcontent⟩
    · intro other hother
      rw [Function.comp_apply, FileSystem.isFile_eq_false_iff.mpr (hbefore other hother)]
      rfl

/-- It finds none if there is none. -/
theorem fileIn?_eq_none_iff : fileIn? fs directory = none ↔ HoldsNone fs directory := by
  unfold fileIn? HoldsNone
  rw [List.find?_eq_none, List.forall_mem_map]
  exact forall₂_congr fun name _ => by rw [Bool.not_eq_true, FileSystem.isFile_eq_false_iff]

/-! ## The way out -/

/-- The way from a location to the root goes through the locations in front of it. -/
theorem mem_outwards_iff : directory ∈ outwards start ↔ directory <+: start := by
  unfold outwards
  rw [List.mem_map]
  constructor
  · rintro ⟨i, -, rfl⟩
    exact List.take_prefix i start
  · intro h
    refine ⟨directory.length, ?_, (List.prefix_iff_eq_take.mp h).symm⟩
    rw [List.mem_reverse, List.mem_range]
    exact Nat.lt_succ_of_le h.length_le

/-- **The way goes outwards.** -/
theorem pairwise_outwards (start : List String) :
    (outwards start).Pairwise fun inner outer => outer.length < inner.length := by
  unfold outwards
  rw [List.pairwise_map, List.pairwise_reverse]
  refine List.pairwise_lt_range.imp_of_mem fun {i j} hi hj hij => ?_
  rw [List.mem_range] at hi hj
  rw [List.length_take, List.length_take]
  omega

/-- **The nearest settings file** from a location outwards. -/
structure IsNearest (fs : FileSystem) (start directory : List String) (name : String)
    (content : ByteArray) : Prop where
  /-- The directory is on the way from the start to the root. -/
  onWay : directory <+: start
  /-- The file is the settings file there. -/
  isFileIn : IsFileIn fs directory name content
  /-- No directory that is nearer has one. -/
  holdsNone : ∀ nearer, nearer <+: start → directory.length < nearer.length → HoldsNone fs nearer

/-- **The search on the way out** finds the nearest settings file. -/
theorem nearestFile?_eq_some_iff {location : List String} :
    nearestFile? fs start = some location ↔ ∃ directory name content,
      IsNearest fs start directory name content ∧ location = directory ++ [name] := by
  unfold nearestFile?
  constructor
  · intro h
    obtain ⟨inside, directory, outside, hsplit, hfile, hinside⟩ := List.findSome?_eq_some_iff.mp h
    obtain ⟨name, content, hname, rfl⟩ := fileIn?_eq_some_iff.mp hfile
    have hpairwise := hsplit ▸ pairwise_outwards start
    refine ⟨directory, name, content, ⟨?_, hname, fun nearer hnearer hlength => ?_⟩, rfl⟩
    · rw [← mem_outwards_iff, hsplit]
      exact List.mem_append_right _ List.mem_cons_self
    · -- behind the directory the way is only shorter
      rw [← mem_outwards_iff, hsplit] at hnearer
      refine fileIn?_eq_none_iff.mp (hinside nearer ?_)
      rcases List.mem_append.mp hnearer with hmem | hmem
      · exact hmem
      · rcases List.mem_cons.mp hmem with rfl | hmem
        · exact absurd hlength (Nat.lt_irrefl _)
        · have := List.rel_of_pairwise_cons (List.pairwise_append.mp hpairwise).2.1 hmem
          exact absurd hlength (Nat.lt_asymm this)
  · rintro ⟨directory, name, content, h, rfl⟩
    obtain ⟨inside, outside, hsplit⟩ := List.append_of_mem (mem_outwards_iff.mpr h.onWay)
    have hpairwise := hsplit ▸ pairwise_outwards start
    refine List.findSome?_eq_some_iff.mpr ⟨inside, directory, outside, hsplit, ?_, ?_⟩
    · exact fileIn?_eq_some_iff.mpr ⟨name, content, h.isFileIn, rfl⟩
    · intro nearer hnearer
      refine fileIn?_eq_none_iff.mpr (h.holdsNone nearer ?_ ?_)
      · rw [← mem_outwards_iff, hsplit]
        exact List.mem_append_left _ hnearer
      · exact (List.pairwise_append.mp hpairwise).2.2 nearer hnearer directory List.mem_cons_self

/-- It finds none if there is none on the way. -/
theorem nearestFile?_eq_none_iff :
    nearestFile? fs start = none ↔ ∀ directory, directory <+: start → HoldsNone fs directory := by
  unfold nearestFile?
  rw [List.findSome?_eq_none_iff]
  exact forall_congr' fun directory => by rw [mem_outwards_iff, fileIn?_eq_none_iff]

/-! ## What is read -/

/-- **The settings in a file of a name**, which says the format. -/
def inFile? (name : String) (content : ByteArray) : Option Settings := do
  let text ← String.fromUTF8? content
  if name ∈ [".cartorc.toml", "carto.toml"] then readToml? text else readJson? text

/-- The extension of a settings file is that of its format. -/
theorem extension?_of_mem_fileNames {p : Path} (hp : p.fileName? = some name)
    (hname : name ∈ fileNames) :
    p.extension? = some (if name ∈ [".cartorc.toml", "carto.toml"] then "toml" else "json") := by
  unfold Path.extension?
  rw [hp]
  simp only [fileNames, List.mem_cons, List.not_mem_nil, or_false] at hname
  rcases hname with rfl | rfl | rfl | rfl
  · rfl
  · rfl
  · rfl
  · rfl

/-- What is read is loaded, and nothing else is. -/
theorem elim_eq_ok_iff {o : Option Settings} {error : StyleError} {s : Settings} :
    o.elim (.error error) .ok = Except.ok s ↔ o = some s := by
  cases o with
  | none => exact ⟨(nomatch ·), (nomatch ·)⟩
  | some s' => rw [Option.elim_some, Except.ok.injEq, Option.some.injEq]

/-- **A settings file that is found is read** in the format of its name. -/
theorem loadFile_pathOf (hfs : fs.root.WellNamed) (hname : name ∈ fileNames)
    (hfile : fs.root.at? (directory ++ [name]) = some (.file content)) (s : Settings) :
    loadFile fs (FileSystem.pathOf (directory ++ [name])) = .ok s ↔
      inFile? name content = some s := by
  have hextension := extension?_of_mem_fileNames
    (FileSystem.fileName?_pathOf (hfs.isName_of_at? hfile)) hname
  have hentry : fs.entryAt (FileSystem.pathOf (directory ++ [name])) = .ok (.file content) := by
    rw [FileSystem.entryAt, FileSystem.locate_pathOf hfs (by simp) hfile]
    rfl
  unfold loadFile readText inFile?
  rw [FileSystem.readText_eq, hentry, hextension]
  dsimp only [bind, Except.bind, FileEntry.text]
  cases String.fromUTF8? content with
  | none => exact ⟨(nomatch ·), (nomatch ·)⟩
  | some text =>
    by_cases hformat : name ∈ [".cartorc.toml", "carto.toml"]
    · simp only [if_pos hformat]
      exact elim_eq_ok_iff
    · simp only [if_neg hformat]
      exact elim_eq_ok_iff

/-- **What a path leads to decides what is loaded from it.** -/
theorem load_named_congr {fs fs' : FileSystem} {p : Path} (h : fs.entryAt p = fs'.entryAt p)
    (start? start?' : Option Path) : load fs (some p) start? = load fs' (some p) start?' := by
  have hexists : fs.pathExists p = fs'.pathExists p := by
    rw [FileSystem.pathExists_eq, FileSystem.pathExists_eq, h]
  have hread : readText fs p = readText fs' p := by
    rw [readText, readText, FileSystem.readText_eq, FileSystem.readText_eq, h]
  unfold load loadFile
  dsimp only
  rw [hexists, hread]

/-- **The nearest settings file counts**. From a start that exists, the file is found that has
the first of the names in the first directory on the way to the root that has any, and none is
found exactly if no directory on the way has one. What is found is loaded, and the defaults if
nothing is: the path that is found leads to the nearest file, so the settings are those in it,
and if there are none in it there are none. Of a file that is named, what is loaded depends on
what its path leads to, and on nothing else in the file system and no start. -/
theorem nearest_file_counts (fs : FileSystem) (hfs : fs.root.WellNamed) :
    (∀ (start? : Option Path) (location : List String) (e : FileEntry),
      fs.locate (start?.getD defaultStart) = .ok (location, e) →
        (∃ found, discover fs (start?.getD defaultStart) = .ok found ∧
          (∀ p, found = some p ↔ ∃ directory name content,
            IsNearest fs location directory name content ∧
              p = FileSystem.pathOf (directory ++ [name])) ∧
          (found = none ↔ ∀ directory, directory <+: location → HoldsNone fs directory) ∧
          load fs none start? = found.elim (.ok {}) (loadFile fs)) ∧
        ∀ directory name content, IsNearest fs location directory name content →
          fs.locate (FileSystem.pathOf (directory ++ [name]))
              = .ok (directory ++ [name], .file content) ∧
            ∀ s, load fs none start? = .ok s ↔ inFile? name content = some s) ∧
    ∀ (p : Path) (start? start?' : Option Path) (fs' : FileSystem),
      fs.entryAt p = fs'.entryAt p → load fs (some p) start? = load fs' (some p) start?' := by
  refine ⟨fun start? location e hstart => ?_, fun p start? start?' fs' h =>
    load_named_congr h start? start?'⟩
  have hdiscover : discover fs (start?.getD defaultStart)
      = .ok ((nearestFile? fs location).map FileSystem.pathOf) := by
    rw [discover, hstart]
  have hload : load fs none start?
      = ((nearestFile? fs location).map FileSystem.pathOf).elim (.ok {}) (loadFile fs) := by
    unfold load
    dsimp only [bind, Except.bind]
    rw [hdiscover]
    cases nearestFile? fs location with
    | none => rfl
    | some file => rfl
  refine ⟨⟨_, hdiscover, fun p => ?_, ?_, hload⟩, fun directory name content h => ?_⟩
  · simp only [Option.map_eq_some_iff, nearestFile?_eq_some_iff]
    constructor
    · rintro ⟨file, ⟨directory, name, content, h, rfl⟩, rfl⟩
      exact ⟨directory, name, content, h, rfl⟩
    · rintro ⟨directory, name, content, h, rfl⟩
      exact ⟨_, ⟨directory, name, content, h, rfl⟩, rfl⟩
  · rw [Option.map_eq_none_iff, nearestFile?_eq_none_iff]
  · have hfile := h.isFileIn.at?_eq
    refine ⟨FileSystem.locate_pathOf hfs (by simp) hfile, fun s => ?_⟩
    rw [hload, nearestFile?_eq_some_iff.mpr ⟨directory, name, content, h, rfl⟩, Option.map_some,
      Option.elim_some]
    exact loadFile_pathOf hfs h.isFileIn.mem_fileNames hfile s

/-- A project inside another. Its directory has two settings files, and further inside there is a
directory under the name of one. -/
def projects : FileSystem where
  root := .directory [
    (".cartorc.toml", .file "".toUTF8),
    ("maps", .directory [
      ("carto.json", .file "[]".toUTF8),
      ("carto.toml", .file "quiet = true".toUTF8),
      ("styles", .directory [
        (".cartorc.toml", .directory []),
        ("roads.mss", .file "".toUTF8)])])]
  workingDirectory := ["maps"]

theorem wellNamed_projects : projects.root.WellNamed := by
  refine .directory (by decide) (List.forall_mem_cons.mpr ⟨.file _, ?_⟩)
  refine List.forall_mem_singleton.mpr (.directory (by decide) ?_)
  refine List.forall_mem_cons.mpr ⟨.file _, List.forall_mem_cons.mpr ⟨.file _, ?_⟩⟩
  refine List.forall_mem_singleton.mpr (.directory (by decide) ?_)
  exact List.forall_mem_cons.mpr ⟨.directory (by simp) (by simp),
    List.forall_mem_singleton.mpr (.file _)⟩

/-- The settings file next to the inner project's other one is the nearest. -/
theorem isNearest_projects : IsNearest projects ["maps", "styles", "roads.mss"] ["maps"]
    "carto.toml" "quiet = true".toUTF8 := by
  obtain ⟨directory, name, content, h, hfile⟩ := nearestFile?_eq_some_iff.mp
    (show nearestFile? projects ["maps", "styles", "roads.mss"]
      = some (["maps"] ++ ["carto.toml"]) by decide)
  obtain ⟨rfl, hname⟩ := List.append_inj' hfile rfl
  obtain rfl := List.singleton_inj.mp hname
  have hcontent : some (FileEntry.file "quiet = true".toUTF8) = some (.file content) :=
    h.isFileIn.at?_eq
  obtain rfl := FileEntry.file.inj (Option.some.inj hcontent)
  exact h

/-- From a file in the inner project the settings of this project are found. A file that is named
is read instead, as it would be if it were alone. -/
theorem inner_project_counts :
    projects.root.WellNamed ∧
      projects.locate ⟨"styles/roads.mss"⟩
        = .ok (["maps", "styles", "roads.mss"], .file "".toUTF8) ∧
      discover projects ⟨"styles/roads.mss"⟩ = .ok (some ⟨"/maps/carto.toml"⟩) ∧
      load projects none (some ⟨"styles/roads.mss"⟩) = .ok { quiet := true } ∧
      load projects (some ⟨"carto.json"⟩) none
        = load { root := .directory [("carto.json", .file "[]".toUTF8)] } (some ⟨"carto.json"⟩)
          (some ⟨"nowhere"⟩) := by
  obtain ⟨hsearch, hnamed⟩ := nearest_file_counts projects wellNamed_projects
  have hstart : projects.locate ⟨"styles/roads.mss"⟩
      = .ok (["maps", "styles", "roads.mss"], .file "".toUTF8) := rfl
  obtain ⟨⟨found, hdiscover, hfound, -, -⟩, hnearest⟩ :=
    hsearch (some ⟨"styles/roads.mss"⟩) _ _ hstart
  have htable : Toml.read? "quiet = true" = some [("quiet", .bool true)] := by
    unfold Toml.read?
    rw [show "quiet = true".toList = ['q', 'u', 'i', 'e', 't', ' ', '=', ' ', 't', 'r', 'u', 'e']
      from rfl]
    rfl
  have hin : inFile? "carto.toml" "quiet = true".toUTF8 = some { quiet := true } := by
    rw [inFile?, show String.fromUTF8? "quiet = true".toUTF8 = some "quiet = true" from
      dif_pos (String.isValidUTF8 _), Option.bind_eq_bind, Option.bind_some,
      if_pos (by decide), readToml?, htable]
    rfl
  refine ⟨wellNamed_projects, hstart, ?_, ?_, hnamed _ _ _ _ rfl⟩
  · obtain rfl := (hfound ⟨"/maps/carto.toml"⟩).mpr ⟨_, _, _, isNearest_projects, rfl⟩
    exact hdiscover
  · exact ((hnearest _ _ _ isNearest_projects).2 _).mpr hin

end MapStyle.Settings
