import MapStyle.FileSystem
import Mathlib.Data.List.Basic

/-!
# The paths of locations

A path is a text, and where it leads is found step by step. From the root outwards a location has
a path of its own (`FileSystem.pathOf`), with its names between slashes. It leads back to the
location, whatever there is besides (`FileSystem.locate_pathOf`), if the names can be told from
the rest of a path: none is empty, `.` or `..`, and none has a slash in it. Names in a file system
are like that (`FileEntry.WellNamed`).
-/

namespace MapStyle

/-! ## Names -/

namespace FileEntry

/-- **A name that an entry can have.** -/
def IsName (name : String) : Prop :=
  name ∉ ["", ".", ".."] ∧ '/' ∉ name.toList ∧ '\x00' ∉ name.toList

instance (name : String) : Decidable (IsName name) :=
  inferInstanceAs (Decidable (_ ∧ _ ∧ _))

/-- **Every entry has a name that entries can have**, at any depth. -/
inductive WellNamed : FileEntry → Prop
  | file (content : ByteArray) : WellNamed (.file content)
  | directory {entries : List (String × FileEntry)} (hnames : ∀ p ∈ entries, IsName p.1)
      (hentries : ∀ p ∈ entries, WellNamed p.2) : WellNamed (.directory entries)

/-! ## What is at a location -/

variable {e e' : FileEntry} {name : String} {location rest : List String}

/-- What is further on is found from what is on the way. -/
theorem at?_append (e : FileEntry) (location rest : List String) :
    e.at? (location ++ rest) = (e.at? location).bind (·.at? rest) := by
  induction location generalizing e with
  | nil => rw [List.nil_append, at?, Option.bind_some]
  | cons name location ih =>
    cases e with
    | file content => rfl
    | directory entries =>
      rw [List.cons_append, at?, at?, Option.bind_assoc]
      exact congrArg _ (funext ih)

/-- **Only a directory has anything behind it**, under a name. -/
theorem exists_directory_of_at? (h : e.at? (location ++ name :: rest) = some e') :
    ∃ entries, e.at? location = some (.directory entries) ∧
      (Named.find? name entries).isSome = true := by
  rw [at?_append] at h
  obtain ⟨d, hd, hrest⟩ := Option.bind_eq_some_iff.mp h
  cases d with
  | file content => exact nomatch hrest
  | directory entries =>
    rw [at?] at hrest
    obtain ⟨d', hd', -⟩ := Option.bind_eq_some_iff.mp hrest
    exact ⟨entries, hd, Option.isSome_of_eq_some hd'⟩

/-- **The names on the way to an entry** are names that entries can have. -/
theorem WellNamed.isName_of_at? (he : e.WellNamed) (h : e.at? location = some e') :
    ∀ name ∈ location, IsName name := by
  induction location generalizing e with
  | nil => exact fun _ hname => absurd hname List.not_mem_nil
  | cons name location ih =>
    cases he with
    | file content => exact nomatch h
    | directory hnames hentries =>
      rw [at?] at h
      obtain ⟨d, hd, hrest⟩ := Option.bind_eq_some_iff.mp h
      have hmem := Named.mem_of_find? hd
      exact List.forall_mem_cons.mpr ⟨hnames _ hmem, ih (hentries _ hmem) hrest⟩

/-- The text in an entry. -/
def text : FileEntry → Except FileError String
  | .file content => (String.fromUTF8? content).elim (.error .notText) .ok
  | .directory _ => .error .isDirectory

end FileEntry

namespace FileSystem

variable {fs : FileSystem} {e : FileEntry} {location rest : List String}

/-- There is a regular file at a location exactly if it has a content. -/
theorem isFile_eq_true_iff :
    fs.isFile location = true ↔ ∃ content, fs.root.at? location = some (.file content) := by
  unfold isFile
  cases h : fs.root.at? location with
  | none => simp
  | some e =>
    cases e with
    | file content => simp [FileEntry.isFile]
    | directory entries => simp [FileEntry.isFile]

/-- There is none exactly if it has no content. -/
theorem isFile_eq_false_iff :
    fs.isFile location = false ↔ ∀ content, fs.root.at? location ≠ some (.file content) := by
  rw [← Bool.not_eq_true, isFile_eq_true_iff, not_exists]

/-! ## What a path leads to -/

/-- **What a path leads to**, wherever it is. -/
def entryAt (fs : FileSystem) (p : Path) : Except FileError FileEntry :=
  (fs.locate p).map Prod.snd

/-- Whether a path leads anywhere can be seen from what it leads to. -/
theorem pathExists_eq (fs : FileSystem) (p : Path) :
    fs.pathExists p = (fs.entryAt p).isOk := by
  unfold pathExists entryAt
  cases fs.locate p with
  | error reason => rfl
  | ok found => rfl

/-- **The text that is read** is that of what the path leads to. -/
theorem readText_eq (fs : FileSystem) (p : Path) :
    fs.readText p = (fs.entryAt p).bind FileEntry.text := by
  unfold readText entryAt
  cases fs.locate p with
  | error reason => rfl
  | ok found =>
    obtain ⟨location, e⟩ := found
    cases e with
    | directory entries => rfl
    | file content =>
      show _ = (String.fromUTF8? content).elim _ _
      simp only [bind, Except.bind]
      cases String.fromUTF8? content with
      | none => rfl
      | some text => rfl

/-! ## The path of a location -/

/-- A name is one step as it stands. -/
theorem stepOf?_of_isName {name : String} (h : FileEntry.IsName name) :
    Path.stepOf? false name.toList = some (.entry name) := by
  obtain ⟨hname, -⟩ := h
  unfold Path.stepOf?
  rw [String.ofList_toList]
  split
  · exact absurd (by decide) hname
  · exact absurd (by decide) hname
  · exact absurd (by decide) hname
  · rfl

theorem toList_pathOf (location : List String) :
    (pathOf location).text.toList = '/' :: ['/'].intercalate (location.map String.toList) := by
  rw [pathOf, String.toList_append, String.toList_intercalate]
  rfl

/-- **The pieces of the path of a location** are nothing and its names. -/
theorem pieces_pathOf (hne : location ≠ []) (hnames : ∀ name ∈ location, FileEntry.IsName name) :
    Text.pieces '/' (pathOf location).text.toList = [] :: location.map String.toList := by
  rw [toList_pathOf, Text.pieces, if_pos rfl, Text.pieces_intercalate (by simpa using hne)]
  exact List.forall_mem_map.mpr fun name hname => (hnames name hname).2.1

/-- **The steps of the path of a location** go to the root and from there by its names. -/
theorem steps_pathOf (hne : location ≠ []) (hnames : ∀ name ∈ location, FileEntry.IsName name) :
    (pathOf location).steps = .root :: location.map .entry := by
  have hsteps : (location.map String.toList).filterMap (Path.stepOf? false)
      = location.map PathStep.entry := by
    rw [List.filterMap_map, ← List.filterMap_eq_map]
    exact List.filterMap_congr fun name hname => stepOf?_of_isName (hnames name hname)
  rw [Path.steps, pieces_pathOf hne hnames]
  simp [hne, hsteps]

/-- The file name in the path of a location is its last name. -/
theorem fileName?_pathOf {directory : List String} {name : String}
    (hnames : ∀ n ∈ directory ++ [name], FileEntry.IsName n) :
    (pathOf (directory ++ [name])).fileName? = some name := by
  rw [Path.fileName?, steps_pathOf (by simp) hnames, List.map_append, List.map_singleton,
    ← List.cons_append, List.getLast?_concat]

/-- A path with names only goes by what is there. -/
theorem foldlM_step_of_at? (h : fs.root.at? (location ++ rest) = some e) :
    (rest.map PathStep.entry).foldlM fs.step location = .ok (location ++ rest) := by
  induction rest generalizing location with
  | nil => rw [List.append_nil]; rfl
  | cons name rest ih =>
    obtain ⟨entries, hdirectory, hname⟩ := FileEntry.exists_directory_of_at? h
    have hstep : fs.step location (.entry name) = .ok (location ++ [name]) := by
      rw [step, hdirectory]
      exact if_pos hname
    rw [List.append_cons] at h ⊢
    rw [List.map_cons, List.foldlM_cons, hstep]
    exact ih h

/-- The path of a location ends in a name, so it may lead to a file. -/
theorem meansDirectory_pathOf (hne : location ≠ [])
    (hnames : ∀ name ∈ location, FileEntry.IsName name) :
    meansDirectory (pathOf location) = false := by
  obtain ⟨directory, name, rfl⟩ := (List.eq_nil_or_concat location).resolve_left hne
  obtain ⟨hname, -⟩ := hnames name (by simp)
  unfold meansDirectory
  rw [pieces_pathOf hne hnames, List.concat_eq_append, List.map_append, List.map_singleton,
    ← List.cons_append, List.reverse_append, List.reverse_singleton, List.singleton_append]
  split
  · next hpieces =>
    have hempty : name = "" := String.toList_inj.mp (List.cons.inj hpieces).1
    exact absurd (by simp [hempty]) hname
  · next hpieces =>
    have hhere : name = "." := String.toList_inj.mp (List.cons.inj hpieces).1
    exact absurd (by simp [hhere]) hname
  · rfl

/-- A character that is in no text is not in the texts with another between them. -/
theorem notMem_intercalate {c separator : Char} (hc : c ≠ separator) {ps : List (List Char)}
    (h : ∀ p ∈ ps, c ∉ p) : c ∉ [separator].intercalate ps := by
  induction ps with
  | nil => exact List.not_mem_nil
  | cons p ps ih =>
    obtain ⟨hp, hps⟩ := List.forall_mem_cons.mp h
    cases ps with
    | nil =>
      rw [List.intercalate_singleton]
      exact hp
    | cons q qs =>
      rw [List.intercalate_cons_cons, List.append_assoc, List.singleton_append]
      simpa [hp, hc] using ih hps

/-- **The path of a location leads to it.** -/
theorem locate_pathOf (hfs : fs.root.WellNamed) (hne : location ≠ [])
    (h : fs.root.at? location = some e) : fs.locate (pathOf location) = .ok (location, e) := by
  have hnames := hfs.isName_of_at? h
  have hzero : (pathOf location).text.toList.contains '\x00' = false := by
    rw [← Bool.not_eq_true, List.contains_iff_mem, toList_pathOf, List.mem_cons, not_or]
    refine ⟨by decide, notMem_intercalate (by decide) (List.forall_mem_map.mpr ?_)⟩
    exact fun name hname => (hnames name hname).2.2
  have hempty : (pathOf location).text.isEmpty = false := by
    rw [String.isEmpty_eq_false_iff]
    intro hempty
    have hlist := toList_pathOf location
    rw [hempty] at hlist
    exact nomatch hlist
  have habsolute : (pathOf location).isAbsolute = true := by
    rw [Path.isAbsolute, toList_pathOf]
    rfl
  have hsteps : (pathOf location).steps.foldlM fs.step [] = .ok location := by
    obtain ⟨name, rest, rfl⟩ := List.exists_cons_of_ne_nil hne
    have hfrom : fs.root.at? ([] ++ name :: rest) = some e := h
    obtain ⟨entries, hroot, -⟩ := FileEntry.exists_directory_of_at? hfrom
    have hstep : fs.step [] .root = .ok [] := by rw [step, hroot]
    rw [steps_pathOf hne hnames, List.foldlM_cons, hstep]
    exact foldlM_step_of_at? hfrom
  unfold locate
  rw [hzero, hempty, habsolute]
  simp only [Bool.false_eq_true, if_false, if_true, hsteps, bind, Except.bind, h,
    meansDirectory_pathOf hne hnames]
  cases e with
  | file content => rfl
  | directory entries => rfl

end FileSystem

end MapStyle
