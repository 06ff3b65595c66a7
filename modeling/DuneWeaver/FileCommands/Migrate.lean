import Mathlib.Data.List.AList
import DuneWeaver.Blocks.Copy
import DuneWeaver.Settings.Setting

namespace DuneWeaver.FileCommands

open Blocks

/-- The result codes of the migration. -/
inductive Result where
  | Ok
  | InvalidValue
  | FsFailedMount
  | FsFailedOpenDir
  | FsFailedCreateFile
  | FsFailedFormat
  deriving DecidableEq

/-- What a directory has under a name: a file, or a subdirectory with the files
below it under their paths. -/
inductive Node where
  | file (content : Bytes)
  | directory (files : List (List Bytes × Bytes))
  deriving DecidableEq

/-- A directory has one entry for a name. -/
abbrev Directory := AList fun _ : Bytes => Node

/-- The content of the file `name` or, with a path, of a file below the
subdirectory `name`. -/
def Directory.content (dir : Directory) (name : Bytes) (path : List Bytes) : Option Bytes :=
  match dir.lookup name, path with
  | some (.file content), [] => some content
  | some (.directory files), _ :: _ => files.lookup path
  | _, _ => none

/-- How the constructor of a `FileStream` ends. `copyFile` catches an `Error`, but
not the `filesystem_error` of a volume that cannot be mounted. -/
inductive Opening where
  | opened
  | error
  | filesystem_error
  deriving DecidableEq

/-- What the volumes do in one run of `copyFile`. -/
structure Copying extends Device where
  outFile : Opening := .opened
  inFile : Opening := .opened

/-- `copyFile` from a file with `content` to `name` in `dir`. No code means that an
exception leaves it. A file that cannot be read any further looks like one that ends there,
and nobody looks at what the writes return. -/
def copyFile (c : Copying) (name content : Bytes) (dir : Directory) : Option Result × Directory :=
  match c.outFile, dir.lookup name with
  | .filesystem_error, _ => (none, dir)
  | .error, _ => (some .FsFailedCreateFile, dir)
  | .opened, some (.directory _) => (some .FsFailedCreateFile, dir)
  | .opened, _ =>
    -- opening for writing empties the file
    match c.inFile with
    | .filesystem_error => (none, dir.insert name (.file []))
    | .error => (some .FsFailedCreateFile, dir.insert name (.file []))
    | .opened => (some .Ok, dir.insert name (.file (copied 512 c.toDevice 0 content)))

/-- What the volumes do in one run of `copyDir`: whether the output directory can
be mounted and created, the input directory mounted and opened, and the iterator moved on past
each of its entries. -/
structure Copies where
  outDir : Bool := true
  create_directory : Bool := true
  fpath : Bool := true
  directory_iterator : Bool := true
  increment : Bytes → Bool := fun _ => true
  copyFile : Bytes → Copying

/-- One turn of the loop over the entries. -/
def copyEntry (c : Copies) (name : Bytes) (node : Node) (err : Result) (dir : Directory) :
    Option Result × Directory :=
  match node with
  | .directory _ => (some err, dir)
  | .file content =>
    match copyFile (c.copyFile name) name content dir with
    | (none, dir) => (none, dir)
    | (some .Ok, dir) => (some err, dir)
    | (some err1, dir) => (some err1, dir)

/-- The loop over the entries. -/
def copyEntries (c : Copies) : List (Sigma fun _ : Bytes => Node) → Result → Directory → Option Result × Directory
  | [], err, dir => (some err, dir)
  | ⟨name, node⟩ :: rest, err, dir =>
    match copyEntry c name node err dir with
    | (none, dir) => (none, dir)
    | (some err, dir) => if c.increment name then copyEntries c rest err dir else (none, dir)

/-- `copyDir` from one directory into another, whose path may have a tail behind
the mount point. -/
def copyDir (c : Copies) (hasTail : Bool) (iDir oDir : Directory) : Option Result × Directory :=
  if ¬ c.outDir then (some .FsFailedMount, oDir)
  else if hasTail ∧ ¬ c.create_directory then (some .FsFailedOpenDir, oDir)
  else if ¬ c.fpath then (some .FsFailedMount, oDir)
  else if ¬ c.directory_iterator then (some .FsFailedMount, oDir)
  else copyEntries c iDir.entries .Ok oDir

def spiffsName : Bytes := bytes "spiffs"
def littlefsName : Bytes := bytes "littlefs"
def defaultLocalfsName : Bytes := littlefsName

/-- The drivers of the local filesystems, which return true for a failure. -/
structure Drivers where
  spiffs_format : Bool := false
  spiffs_mount : Bool := false
  littlefs_format : Bytes → Bool := fun _ => false
  littlefs_mount : Bytes → Bool := fun _ => false

/-- `localfs_format`, which returns true for a failure. What a driver formats is
empty then. -/
def localfs_format (d : Drivers) (fsname : Bytes) (files : Directory) : Bool × Directory :=
  let fsname :=
    if sameLetters fsname (bytes "format") ∨ sameLetters fsname (bytes "localfs") then defaultLocalfsName else fsname
  if sameLetters fsname spiffsName then
    if d.spiffs_format then (true, files) else (d.spiffs_mount, ∅)
  else if sameLetters fsname littlefsName then
    if d.littlefs_format littlefsName ∨ d.littlefs_mount littlefsName then
      if d.littlefs_format spiffsName then (true, if d.littlefs_format littlefsName then files else ∅)
      else (d.littlefs_mount spiffsName, ∅)
    else (false, ∅)
  else (true, files)

/-- How a migration ends: its result, both volumes after it, and both as
`localfs_format` finds them, if it is called. -/
structure Migrated where
  result : Option Result
  localfs : Directory
  sd : Directory
  formats : Option (Directory × Directory) := none

/-- What the volumes do in one migration. -/
structure Volumes extends Drivers where
  backup : Copies
  restore : Copies

/-- The filesystem that a command asks for. -/
def newfs : Option Bytes → Bytes
  | some (c :: name) => c :: name
  | _ => bytes "littlefs"

/-- `migrateLocalFS`; `sd` is the directory `/sd/localfs`. -/
def migrateLocalFS (v : Volumes) (localfsName : Bytes) (parameter : Option Bytes) (localfs sd : Directory) : Migrated :=
  if newfs parameter = localfsName then ⟨some .InvalidValue, localfs, sd, none⟩
  else
    match copyDir v.backup true localfs sd with
    | (some .Ok, sd) =>
      match localfs_format v.toDrivers (newfs parameter) localfs with
      | (true, formatted) => ⟨some .FsFailedFormat, formatted, sd, some (localfs, sd)⟩
      | (false, formatted) =>
        let (result, restored) := copyDir v.restore false sd formatted
        ⟨result, restored, sd, some (localfs, sd)⟩
    | (result, sd) => ⟨result, localfs, sd, none⟩

namespace Copies

/-- What reaches the target of a file. -/
def copy (c : Copies) (name content : Bytes) : Bytes := copied 512 (c.copyFile name).toDevice 0 content

/-- The source of a file can be opened, and its target be created. -/
structure Opens (c : Copies) (dir : Directory) (name : Bytes) : Prop where
  outFile : (c.copyFile name).outFile = .opened
  inFile : (c.copyFile name).inFile = .opened
  free : ∀ files, dir.lookup name ≠ some (.directory files)

/-- The loop gets past an entry without an error. -/
def Takes (c : Copies) (dir : Directory) (name : Bytes) (node : Node) : Prop :=
  c.increment name = true ∧ ∀ content, node = .file content → c.Opens dir name

variable {c : Copies} {dir : Directory} {name : Bytes} {err : Result}

theorem Opens.copyFile_eq (h : c.Opens dir name) (content : Bytes) :
    FileCommands.copyFile (c.copyFile name) name content dir =
      (some .Ok, dir.insert name (.file (c.copy name content))) := by
  obtain ⟨hout, hin, hfree⟩ := h
  unfold FileCommands.copyFile
  rw [hout]
  cases hentry : dir.lookup name with
  | none => simp only [hin, copy]
  | some node =>
    cases node with
    | file old => simp only [hin, copy]
    | directory files => exact absurd hentry (hfree files)

theorem opens_of_copyFile {content : Bytes}
    (h : (FileCommands.copyFile (c.copyFile name) name content dir).1 = some .Ok) : c.Opens dir name := by
  unfold FileCommands.copyFile at h
  split at h
  · cases h
  · cases h
  · cases h
  next hout hdirectory =>
    split at h
    · cases h
    · cases h
    next hin => exact ⟨hout, hin, hdirectory⟩

/-- What one turn of the loop makes of an entry. -/
theorem copyEntry_cases (c : Copies) (name : Bytes) (node : Node) (err : Result) (dir : Directory) :
    (∃ files, node = .directory files ∧ copyEntry c name node err dir = (some err, dir)) ∨
    (∃ content, node = .file content ∧ c.Opens dir name ∧
      copyEntry c name node err dir = (some err, dir.insert name (.file (c.copy name content)))) ∨
    (∃ content, node = .file content ∧ ¬ c.Opens dir name ∧ (copyEntry c name node err dir).1 ≠ some .Ok) := by
  cases node with
  | directory files => exact .inl ⟨files, rfl, rfl⟩
  | file content =>
    right
    by_cases hopens : c.Opens dir name
    · refine .inl ⟨content, rfl, hopens, ?_⟩
      simp only [copyEntry, hopens.copyFile_eq content]
    · refine .inr ⟨content, rfl, hopens, ?_⟩
      have hfails : (FileCommands.copyFile (c.copyFile name) name content dir).1 ≠ some .Ok := fun h =>
        hopens (opens_of_copyFile h)
      unfold copyEntry
      simp only
      split
      · simp
      next heq => exact absurd (congrArg Prod.fst heq) hfails
      next heq =>
        intro hok
        rw [heq] at hfails
        exact hfails hok

/-- A file written under another name does not change what becomes of an entry. -/
theorem takes_insert {other : Bytes} (hne : other ≠ name) (content : Bytes) (node : Node) :
    c.Takes (dir.insert name (.file content)) other node ↔ c.Takes dir other node := by
  have hsame : (dir.insert name (.file content)).lookup other = dir.lookup other := AList.lookup_insert_ne hne
  constructor
  · rintro ⟨hnext, hopens⟩
    refine ⟨hnext, fun content hnode => ?_⟩
    obtain ⟨hout, hin, hfree⟩ := hopens content hnode
    exact ⟨hout, hin, hsame ▸ hfree⟩
  · rintro ⟨hnext, hopens⟩
    refine ⟨hnext, fun content hnode => ?_⟩
    obtain ⟨hout, hin, hfree⟩ := hopens content hnode
    exact ⟨hout, hin, hsame.symm ▸ hfree⟩

/-- A code of an earlier file is not lost. -/
theorem ok_of_copyEntries (c : Copies) (l : List (Sigma fun _ : Bytes => Node))
    (h : (copyEntries c l err dir).1 = some .Ok) : err = .Ok := by
  induction l generalizing err dir with
  | nil => exact Option.some.inj h
  | cons entry rest ih =>
    obtain ⟨name, node⟩ := entry
    unfold copyEntries at h
    obtain ⟨files, hnode, hturn⟩ | ⟨content, hnode, -, hturn⟩ | ⟨content, hnode, -, hfails⟩ :=
      copyEntry_cases c name node err dir
    · rw [hturn] at h
      simp only at h
      split at h
      · exact ih h
      · cases h
    · rw [hturn] at h
      simp only at h
      split at h
      · exact ih h
      · cases h
    · split at h
      · cases h
      next err' dir' hturn =>
        split at h
        · have hok := ih h
          rw [hturn, hok] at hfails
          exact absurd rfl hfails
        · cases h

/-- The loop reports no error only if it gets past every entry. -/
theorem takes_of_copyEntries (c : Copies) (l : List (Sigma fun _ : Bytes => Node)) (hunique : l.NodupKeys)
    (h : (copyEntries c l err dir).1 = some .Ok) : ∀ entry ∈ l, c.Takes dir entry.1 entry.2 := by
  induction l generalizing err dir with
  | nil => exact List.forall_mem_nil _
  | cons entry rest ih =>
    obtain ⟨name, node⟩ := entry
    obtain ⟨hnew, hrest⟩ := List.nodupKeys_cons.mp hunique
    unfold copyEntries at h
    rw [List.forall_mem_cons]
    obtain ⟨files, hnode, hturn⟩ | ⟨content, hnode, hopens, hturn⟩ | ⟨content, hnode, -, hfails⟩ :=
      copyEntry_cases c name node err dir
    · rw [hturn] at h
      by_cases hnext : c.increment name = true
      · simp only [if_pos hnext] at h
        refine ⟨⟨hnext, fun content hfile => ?_⟩, ih hrest h⟩
        rw [hnode] at hfile
        cases hfile
      · simp only [if_neg hnext] at h
        cases h
    · rw [hturn] at h
      by_cases hnext : c.increment name = true
      · simp only [if_pos hnext] at h
        refine ⟨⟨hnext, fun _ _ => hopens⟩, fun entry hentry => ?_⟩
        have hne : entry.1 ≠ name := ne_of_mem_of_not_mem (List.mem_map_of_mem hentry) hnew
        exact (takes_insert hne _ _).mp (ih hrest h entry hentry)
      · simp only [if_neg hnext] at h
        cases h
    · split at h
      · cases h
      next err' dir' hturn =>
        split at h
        · have hok := ok_of_copyEntries c rest h
          rw [hturn, hok] at hfails
          exact absurd rfl hfails
        · cases h

/-- Where it gets past every entry, the loop leaves a copy of each file, and
everything else as it was. -/
theorem copyEntries_of_takes (c : Copies) (l : List (Sigma fun _ : Bytes => Node)) (hunique : l.NodupKeys)
    (htakes : ∀ entry ∈ l, c.Takes dir entry.1 entry.2) :
    ∃ copies, copyEntries c l err dir = (some err, copies) ∧
      (∀ name content, l.dlookup name = some (.file content) →
        copies.lookup name = some (.file (c.copy name content))) ∧
      ∀ name, (∀ content, l.dlookup name ≠ some (.file content)) → copies.lookup name = dir.lookup name := by
  induction l generalizing dir with
  | nil =>
    refine ⟨dir, rfl, fun name content h => ?_, fun _ _ => rfl⟩
    cases h
  | cons entry rest ih =>
    obtain ⟨name, node⟩ := entry
    obtain ⟨hnew, hrest⟩ := List.nodupKeys_cons.mp hunique
    rw [List.forall_mem_cons] at htakes
    obtain ⟨⟨hnext, hopens⟩, htakes⟩ := htakes
    have hlast : rest.dlookup name = none := List.dlookup_eq_none.mpr hnew
    cases node with
    | directory files =>
      obtain ⟨copies, hloop, hcopied, hkept⟩ := ih hrest htakes
      refine ⟨copies, ?_, fun other content hfile => ?_, fun other hother => ?_⟩
      · unfold copyEntries
        simp only [copyEntry, if_pos hnext, hloop]
      · by_cases heq : other = name
        · rw [heq, List.dlookup_cons_eq] at hfile
          cases hfile
        · rw [List.dlookup_cons_ne _ _ heq] at hfile
          exact hcopied other content hfile
      · by_cases heq : other = name
        · apply hkept
          rw [heq, hlast]
          simp
        · rw [List.dlookup_cons_ne _ _ heq] at hother
          exact hkept other hother
    | file content =>
      have hlater : ∀ entry ∈ rest, c.Takes (dir.insert name (.file (c.copy name content))) entry.1 entry.2 := by
        intro entry hentry
        have hne : entry.1 ≠ name := ne_of_mem_of_not_mem (List.mem_map_of_mem hentry) hnew
        exact (takes_insert hne _ _).mpr (htakes entry hentry)
      obtain ⟨copies, hloop, hcopied, hkept⟩ := ih hrest hlater
      refine ⟨copies, ?_, fun other content' hfile => ?_, fun other hother => ?_⟩
      · unfold copyEntries
        simp only [copyEntry, (hopens content rfl).copyFile_eq, if_pos hnext, hloop]
      · by_cases heq : other = name
        · rw [heq, List.dlookup_cons_eq] at hfile
          cases hfile
          rw [heq, hkept name (by simp [hlast]), AList.lookup_insert]
        · rw [List.dlookup_cons_ne _ _ heq] at hfile
          exact hcopied other content' hfile
      · by_cases heq : other = name
        · rw [heq, List.dlookup_cons_eq] at hother
          exact absurd rfl (hother content)
        · rw [List.dlookup_cons_ne _ _ heq] at hother
          rw [hkept other hother, AList.lookup_insert_ne heq]

/-- The whole of `copyDir` goes without an error. -/
structure Passes (c : Copies) (hasTail : Bool) (iDir oDir : Directory) : Prop where
  outDir : c.outDir = true
  create_directory : hasTail = true → c.create_directory = true
  fpath : c.fpath = true
  directory_iterator : c.directory_iterator = true
  takes : ∀ name node, iDir.lookup name = some node → c.Takes oDir name node

theorem passes_of_copyDir {hasTail : Bool} {iDir oDir : Directory}
    (h : (copyDir c hasTail iDir oDir).1 = some .Ok) : c.Passes hasTail iDir oDir := by
  unfold copyDir at h
  split at h
  · cases h
  next hout =>
  split at h
  · cases h
  next hcreate =>
  split at h
  · cases h
  next hin =>
  split at h
  · cases h
  next hiter =>
  refine ⟨by simpa using hout, fun htail => by simpa [htail] using hcreate, by simpa using hin,
    by simpa using hiter, fun name node hentry => ?_⟩
  exact takes_of_copyEntries c _ iDir.nodupKeys h ⟨name, node⟩ (AList.mem_lookup_iff.mp hentry)

theorem Passes.copyDir_eq {hasTail : Bool} {iDir oDir : Directory} (h : c.Passes hasTail iDir oDir) :
    ∃ copies, copyDir c hasTail iDir oDir = (some .Ok, copies) ∧
      (∀ name content, iDir.lookup name = some (.file content) →
        copies.lookup name = some (.file (c.copy name content))) ∧
      ∀ name, (∀ content, iDir.lookup name ≠ some (.file content)) → copies.lookup name = oDir.lookup name := by
  obtain ⟨hout, hcreate, hin, hiter, htakes⟩ := h
  obtain ⟨copies, hloop, hcopies⟩ := copyEntries_of_takes c iDir.entries iDir.nodupKeys
    fun entry hentry => htakes entry.1 entry.2 (AList.mem_lookup_iff.mpr hentry)
  refine ⟨copies, ?_, hcopies⟩
  unfold copyDir
  rw [if_neg (by simp [hout]), if_neg (by simpa using hcreate), if_neg (by simp [hin]), if_neg (by simp [hiter])]
  exact hloop

end Copies

/-- Every file of a directory is also in another one, with the same content. -/
def Directory.Holds (copies dir : Directory) : Prop :=
  ∀ name path content, dir.content name path = some content → copies.content name path = some content

theorem Directory.content_nil_iff {dir : Directory} {name content : Bytes} :
    dir.content name [] = some content ↔ dir.lookup name = some (.file content) := by
  unfold Directory.content
  cases dir.lookup name with
  | none => simp
  | some node => cases node <;> simp

theorem Directory.content_cons_iff {dir : Directory} {name step content : Bytes} {path : List Bytes} :
    dir.content name (step :: path) = some content ↔
      ∃ files, dir.lookup name = some (.directory files) ∧ files.lookup (step :: path) = some content := by
  unfold Directory.content
  cases dir.lookup name with
  | none => simp
  | some node => cases node <;> simp

namespace Copies

/-- Nothing goes wrong with the blocks of any file. -/
def Whole (c : Copies) (dir : Directory) : Prop :=
  ∀ name content, dir.lookup name = some (.file content) → Faultless 512 (c.copyFile name).toDevice 0 content

/-- The copies that a loop has made hold all files precisely when each copy is
complete, and what is below the subdirectories was there before. -/
theorem holds_iff (c : Copies) {dir copies : Directory} (oDir : Directory)
    (hcopied : ∀ name content, dir.lookup name = some (.file content) →
      copies.lookup name = some (.file (c.copy name content)))
    (hbelow : ∀ name, (∀ content, dir.lookup name ≠ some (.file content)) →
      ∀ step path, copies.content name (step :: path) = oDir.content name (step :: path)) :
    copies.Holds dir ↔ c.Whole dir ∧ ∀ name step path content,
      dir.content name (step :: path) = some content → oDir.content name (step :: path) = some content := by
  have hdirectory {name step : Bytes} {path : List Bytes} {content : Bytes}
      (h : dir.content name (step :: path) = some content) : ∀ other, dir.lookup name ≠ some (.file other) := by
    obtain ⟨files, hfiles, -⟩ := Directory.content_cons_iff.mp h
    intro other hfile
    rw [hfiles] at hfile
    cases hfile
  constructor
  · intro hholds
    refine ⟨fun name content hfile => ?_, fun name step path content hcontent => ?_⟩
    · have hcopy := Directory.content_nil_iff.mp (hholds name [] content (Directory.content_nil_iff.mpr hfile))
      rw [hcopied name content hfile] at hcopy
      exact (copied_eq_iff _ _ _ _).mp (Node.file.inj (Option.some.inj hcopy))
    · rw [← hbelow name (hdirectory hcontent)]
      exact hholds name (step :: path) content hcontent
  · rintro ⟨hwhole, hbefore⟩ name path content hcontent
    cases path with
    | nil =>
      have hfile := Directory.content_nil_iff.mp hcontent
      have hcopy : c.copy name content = content := (hwhole name content hfile).copied_eq
      rw [Directory.content_nil_iff, hcopied name content hfile, hcopy]
    | cons step path =>
      rw [hbelow name (hdirectory hcontent)]
      exact hbefore name step path content hcontent

end Copies

/-- What a migration owes the files of the local filesystem. -/
structure Migrated.LosesNothing (m : Migrated) (localfs : Directory) : Prop where
  backed_up : ∀ found copies, m.formats = some (found, copies) → copies.Holds localfs
  restored : m.result = some .Ok → m.localfs.Holds localfs

theorem localfs_format_empty {d : Drivers} {fsname : Bytes} {files : Directory}
    (h : (localfs_format d fsname files).1 = false) : (localfs_format d fsname files).2 = ∅ := by
  unfold localfs_format at h ⊢
  dsimp only at h ⊢
  generalize (if sameLetters fsname (bytes "format") = true ∨ sameLetters fsname (bytes "localfs") = true then
    defaultLocalfsName else fsname) = asked at h ⊢
  by_cases hspiffs : sameLetters asked spiffsName = true
  · rw [if_pos hspiffs] at h ⊢
    split at h
    · cases h
    next hformat => rw [if_neg hformat]
  · rw [if_neg hspiffs] at h ⊢
    split at h
    next hlittlefs =>
      rw [if_pos hlittlefs]
      split at h
      next hfails =>
        rw [if_pos hfails]
        split at h
        · cases h
        next hformat => rw [if_neg hformat]
      next hformat => rw [if_neg hformat]
    · cases h

/-- The backup goes without an error, every file of it is complete, and what is
below the subdirectories is on the card already. -/
structure Volumes.BacksUp (v : Volumes) (localfs sd : Directory) : Prop where
  whole : v.backup.Whole localfs
  below : ∀ name step path content,
    localfs.content name (step :: path) = some content → sd.content name (step :: path) = some content

/-- The restore goes without an error: it finds the files of the backup, and
beside them what was on the card before. -/
structure Volumes.Restores (v : Volumes) (localfs sd : Directory) : Prop where
  outDir : v.restore.outDir = true
  fpath : v.restore.fpath = true
  directory_iterator : v.restore.directory_iterator = true
  increment : ∀ name, (∃ content, localfs.lookup name = some (.file content)) ∨ name ∈ sd →
    v.restore.increment name = true
  opened : ∀ name, (∃ content, localfs.lookup name = some (.file content)) ∨
    (∃ content, sd.lookup name = some (.file content)) →
      (v.restore.copyFile name).outFile = .opened ∧ (v.restore.copyFile name).inFile = .opened

/-- The directories of a copy that passed: the files that were copied, and
beside them what was there before. -/
theorem restores_iff {v : Volumes} {localfs sd copies : Directory}
    (hcopied : ∀ name content, localfs.lookup name = some (.file content) →
      copies.lookup name = some (.file (v.backup.copy name content)))
    (hkept : ∀ name, (∀ content, localfs.lookup name ≠ some (.file content)) → copies.lookup name = sd.lookup name) :
    v.restore.Passes false copies ∅ ↔ v.Restores localfs sd := by
  have hfree (name : Bytes) : ∀ files, (∅ : Directory).lookup name ≠ some (.directory files) := by
    intro files hentry
    cases hentry
  constructor
  · rintro ⟨hout, -, hin, hiter, htakes⟩
    refine ⟨hout, hin, hiter, fun name hlisted => ?_, fun name hfile => ?_⟩
    · by_cases hlocal : ∃ content, localfs.lookup name = some (.file content)
      · obtain ⟨content, hcontent⟩ := hlocal
        exact (htakes name _ (hcopied name content hcontent)).1
      · have hmem : name ∈ sd := hlisted.resolve_left hlocal
        obtain ⟨node, hnode⟩ := Option.isSome_iff_exists.mp (AList.lookup_isSome.mpr hmem)
        rw [← hkept name (not_exists.mp hlocal)] at hnode
        exact (htakes name node hnode).1
    · have hcopy : ∃ content, copies.lookup name = some (.file content) := by
        by_cases hlocal : ∃ content, localfs.lookup name = some (.file content)
        · obtain ⟨content, hcontent⟩ := hlocal
          exact ⟨_, hcopied name content hcontent⟩
        · obtain ⟨content, hcontent⟩ := hfile.resolve_left hlocal
          exact ⟨content, (hkept name (not_exists.mp hlocal)).trans hcontent⟩
      obtain ⟨content, hcontent⟩ := hcopy
      obtain ⟨houtFile, hinFile, -⟩ := (htakes name _ hcontent).2 content rfl
      exact ⟨houtFile, hinFile⟩
  · rintro ⟨hout, hin, hiter, hnext, hopened⟩
    refine ⟨hout, fun htail => Bool.noConfusion htail, hin, hiter, fun name node hnode => ?_⟩
    by_cases hlocal : ∃ content, localfs.lookup name = some (.file content)
    · obtain ⟨houtFile, hinFile⟩ := hopened name (.inl hlocal)
      exact ⟨hnext name (.inl hlocal), fun _ _ => ⟨houtFile, hinFile, hfree name⟩⟩
    · rw [hkept name (not_exists.mp hlocal)] at hnode
      refine ⟨hnext name (.inr (AList.lookup_isSome.mp (Option.isSome_of_mem hnode))), fun content hfile => ?_⟩
      obtain ⟨houtFile, hinFile⟩ := hopened name (.inr ⟨content, hfile ▸ hnode⟩)
      exact ⟨houtFile, hinFile, hfree name⟩

/-- What is restored holds all files precisely when each of them is restored whole,
and none was below a subdirectory. -/
theorem restored_holds_iff {v : Volumes} {localfs copies restored : Directory} (hcopies : copies.Holds localfs)
    (hrestored : ∀ name content, copies.lookup name = some (.file content) →
      restored.lookup name = some (.file (v.restore.copy name content)))
    (hnew : ∀ name, (∀ content, copies.lookup name ≠ some (.file content)) →
      restored.lookup name = (∅ : Directory).lookup name) :
    restored.Holds localfs ↔
      v.restore.Whole localfs ∧ ∀ name step path, localfs.content name (step :: path) = none := by
  have hback (name content : Bytes) (hfile : localfs.lookup name = some (.file content)) :
      restored.lookup name = some (.file (v.restore.copy name content)) := by
    have hcopy := hcopies name [] content (Directory.content_nil_iff.mpr hfile)
    exact hrestored name content (Directory.content_nil_iff.mp hcopy)
  have hnone (name step : Bytes) (path : List Bytes) : restored.content name (step :: path) = none := by
    rw [Option.eq_none_iff_forall_ne_some]
    intro content hcontent
    obtain ⟨files, hfiles, -⟩ := Directory.content_cons_iff.mp hcontent
    by_cases hcopy : ∃ other, copies.lookup name = some (.file other)
    · obtain ⟨other, hother⟩ := hcopy
      rw [hrestored name other hother] at hfiles
      cases hfiles
    · rw [hnew name (not_exists.mp hcopy)] at hfiles
      cases hfiles
  rw [v.restore.holds_iff ∅ hback fun name _ step path => hnone name step path]
  refine and_congr_right fun _ => forall₃_congr fun name step path => ?_
  rw [Option.eq_none_iff_forall_ne_some]
  refine forall_congr' fun content => imp_congr_right fun _ => iff_of_false (fun h => ?_) id
  cases h

/-- A migration that stops before it formats has lost nothing. -/
theorem loses_nothing_of_unformatted {localfs left sd : Directory} {result : Option Result}
    (hfails : result ≠ some .Ok) :
    Migrated.LosesNothing ⟨result, left, sd, none⟩ localfs := by
  refine ⟨fun _ _ h => ?_, fun h => absurd h hfails⟩
  cases h

/-- A migration loses nothing precisely when it is refused or stops at an error of
the backup, or else every copy of the backup is complete and, where the filesystem could be
formatted and restored without an error, every copy of the restore is complete, too. Files
below subdirectories are never copied: they must be on the card already, and never come back. -/
theorem migrate_loses_nothing_iff (v : Volumes) (localfsName : Bytes) (parameter : Option Bytes)
    (localfs sd : Directory) :
    (migrateLocalFS v localfsName parameter localfs sd).LosesNothing localfs ↔
      newfs parameter = localfsName ∨ ¬ v.backup.Passes true localfs sd ∨
        v.BacksUp localfs sd ∧
          ((localfs_format v.toDrivers (newfs parameter) localfs).1 = true ∨ ¬ v.Restores localfs sd ∨
            v.restore.Whole localfs ∧ ∀ name step path, localfs.content name (step :: path) = none) := by
  unfold migrateLocalFS
  by_cases hsame : newfs parameter = localfsName
  · rw [if_pos hsame]
    exact iff_of_true (loses_nothing_of_unformatted (by simp)) (.inl hsame)
  rw [if_neg hsame]
  by_cases hpasses : v.backup.Passes true localfs sd
  case neg =>
    have hfails : (copyDir v.backup true localfs sd).1 ≠ some .Ok := fun h => hpasses (Copies.passes_of_copyDir h)
    refine iff_of_true ?_ (.inr (.inl hpasses))
    split
    next hback =>
      rw [hback] at hfails
      exact absurd rfl hfails
    next hback =>
      rw [hback] at hfails
      exact loses_nothing_of_unformatted hfails
  obtain ⟨copies, hback, hcopied, hkept⟩ := hpasses.copyDir_eq
  have hbelow : ∀ name, (∀ content, localfs.lookup name ≠ some (.file content)) →
      ∀ step path, copies.content name (step :: path) = sd.content name (step :: path) := by
    intro name hother step path
    unfold Directory.content
    rw [hkept name hother]
  have hholds : copies.Holds localfs ↔ v.BacksUp localfs sd := by
    rw [v.backup.holds_iff sd hcopied hbelow]
    exact ⟨fun ⟨hwhole, hbefore⟩ => ⟨hwhole, hbefore⟩, fun ⟨hwhole, hbefore⟩ => ⟨hwhole, hbefore⟩⟩
  have hrestores := restores_iff hcopied hkept (v := v)
  have hempty := @localfs_format_empty v.toDrivers (newfs parameter) localfs
  rw [hback]
  dsimp only
  cases hformat : localfs_format v.toDrivers (newfs parameter) localfs with
  | mk failed formatted =>
    rw [hformat] at hempty
    cases failed with
    | true =>
      constructor
      · intro hkeeps
        exact .inr (.inr ⟨hholds.mp (hkeeps.backed_up _ _ rfl), .inl rfl⟩)
      · rintro (hrefused | hstops | ⟨hbacked, -⟩)
        · exact absurd hrefused hsame
        · exact absurd hpasses hstops
        · refine ⟨fun found saved h => ?_, fun h => ?_⟩
          · cases h
            exact hholds.mpr hbacked
          · cases h
    | false =>
      have hformatted : formatted = ∅ := hempty rfl
      subst hformatted
      dsimp only
      by_cases hback : v.restore.Passes false copies ∅
      · obtain ⟨restored, hrestore, hrestored, hnew⟩ := hback.copyDir_eq
        rw [hrestore]
        constructor
        · rintro ⟨hsaved, hkeeps⟩
          have hcopies := hsaved _ _ rfl
          refine .inr (.inr ⟨hholds.mp hcopies, .inr (.inr ?_)⟩)
          exact (restored_holds_iff hcopies hrestored hnew).mp (hkeeps rfl)
        · rintro (hrefused | hstops | ⟨hbacked, hends⟩)
          · exact absurd hrefused hsame
          · exact absurd hpasses hstops
          · have hcopies := hholds.mpr hbacked
            refine ⟨fun found saved h => ?_, fun _ => ?_⟩
            · cases h
              exact hcopies
            · obtain hfailed | hstops | hwhole := hends
              · cases hfailed
              · exact absurd (hrestores.mp hback) hstops
              · exact (restored_holds_iff hcopies hrestored hnew).mpr hwhole
      · have hfails : (copyDir v.restore false copies ∅).1 ≠ some .Ok := fun h =>
          hback (Copies.passes_of_copyDir h)
        constructor
        · rintro ⟨hsaved, -⟩
          exact .inr (.inr ⟨hholds.mp (hsaved _ _ rfl), .inr (.inl fun h => hback (hrestores.mpr h))⟩)
        · rintro (hrefused | hstops | ⟨hbacked, -⟩)
          · exact absurd hrefused hsame
          · exact absurd hpasses hstops
          · refine ⟨fun found saved h => ?_, fun h => absurd h hfails⟩
            cases h
            exact hholds.mpr hbacked

/-- A local filesystem with one file, and a full card that takes the file but none
of its bytes. -/
def oneFile : Directory := AList.singleton (bytes "config.yaml") (.file [48])

def fullCard : Volumes where
  backup := { copyFile := fun _ => { read := fun _ => 512, keep := fun _ => 0 } }
  restore := { copyFile := fun _ => { read := fun _ => 512, keep := fun _ => 512 } }

/-- The writes to the card come back short, and still the filesystem is formatted. -/
theorem full_card_loses_file :
    ¬ (migrateLocalFS fullCard littlefsName (some spiffsName) oneFile ∅).LosesNothing oneFile := by
  intro hkeeps
  have hcopy := hkeeps.backed_up _ _ rfl (bytes "config.yaml") [] [48] rfl
  have hempty : copied 512 ⟨fun _ => 512, fun _ => 0⟩ 0 ([48] : Bytes) = [] := by
    rw [copied, copied]
    simp [Device.len]
  change some (copied 512 ⟨fun _ => 512, fun _ => 0⟩ 0 ([48] : Bytes)) = some [48] at hcopy
  rw [hempty] at hcopy
  cases hcopy

end DuneWeaver.FileCommands
