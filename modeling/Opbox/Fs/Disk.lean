import Opbox.Foundation.Table
import Opbox.Fs.LocalFileIO

/-!
# Disks

A disk has nodes at locations: directories, files, symbolic links and others.  A path is resolved
one component after the other, each in a directory that can be searched; a link on the way is
followed to the location the operating system resolves it to, which may lie outside the sync root.
The reading calls leave the disk as it is.
-/

namespace Opbox

/-- Where something is on the machine: the names from the top, with no link among them. -/
abbrev Location := List OsName

/-- What a location holds. -/
inductive Node where
  | directory (readable searchable : Bool)
  | file (stat : FileStatFingerprint) (bytes : Bytes) (readable : Bool)
  /-- A symbolic link, with the location it resolves to. -/
  | symlink (target : Except IoErrorKind Location)
  /-- A pipe, a socket or a device. -/
  | other

/-- A location and what it holds. -/
structure DiskEntry where
  /-- The location. -/
  location : Location
  /-- What it holds. -/
  node : Node

/-- The metadata of a node. -/
def Node.metadata : Node → Metadata
  | directory _ _ => .directory
  | file stat _ _ => .file stat
  | _ => .other

/-- A disk with a sync root. -/
structure Disk where
  /-- What is on the disk. -/
  entries : Table DiskEntry.location
  /-- The location of the sync root. -/
  root : Location

/-- The names of a path. -/
def RelativePath.names (path : RelativePath) : List OsName := path.components.map .utf8

namespace Disk

/-- What a location holds. -/
def node? (disk : Disk) (location : Location) : Option Node :=
  (disk.entries.find? location).map DiskEntry.node

/-- Look a name up in a directory. -/
def lookup (disk : Disk) (dir : Location) (name : OsName) : Except IoErrorKind Node :=
  match disk.node? dir with
  | some (.directory _ searchable) =>
    if searchable then
      match disk.node? (dir ++ [name]) with
      | some node => .ok node
      | none => .error .notFound
    else .error .permissionDenied
  | some _ => .error .notADirectory
  | none => .error .notFound

/-- Follow a link. -/
def follow (location : Location) : Node → Except IoErrorKind Location
  | .symlink target => target
  | _ => .ok location

/-- Resolve names from a location on, links included. -/
def resolve (disk : Disk) : Location → List OsName → Except IoErrorKind Location
  | location, [] => .ok location
  | location, name :: names => do
    let node ← disk.lookup location name
    let next ← follow (location ++ [name]) node
    disk.resolve next names

/-- The directory that a path is in. -/
def parentOf (disk : Disk) (path : RelativePath) : Except IoErrorKind Location :=
  disk.resolve disk.root path.names.dropLast

/-- The metadata of a path, a link at its end not followed. -/
def metadata (disk : Disk) (path : RelativePath) : Except IoErrorKind Metadata := do
  let parent ← disk.parentOf path
  let node ← disk.lookup parent (.utf8 path.fileName)
  return node.metadata

/-- The names in a directory. -/
def names (disk : Disk) (dir : Location) : List OsName :=
  disk.entries.rows.filterMap fun e =>
    e.location.getLast?.filter fun name => decide (e.location = dir ++ [name])

/-- List the directory at a location. -/
def list (disk : Disk) (location : Location) : Except IoErrorKind (List OsName) :=
  match disk.node? location with
  | some (.directory readable _) =>
    if readable then .ok (disk.names location) else .error .permissionDenied
  | some _ => .error .notADirectory
  | none => .error .notFound

/-- Open a directory. -/
def openDir (disk : Disk) (dir : Option RelativePath) : Except IoErrorKind (List OsName) := do
  let location ← disk.resolve disk.root ((dir.map RelativePath.names).getD [])
  disk.list location

/-- The bytes of the file at a location. -/
def contents (disk : Disk) (location : Location) : Except IoErrorKind Bytes :=
  match disk.node? location with
  | some (.file _ bytes readable) => if readable then .ok bytes else .error .permissionDenied
  | some (.directory _ _) => .error .isADirectory
  | some (.symlink _) => .error .filesystemLoop
  | some .other => .error (.other 0)
  | none => .error .notFound

/-- Read a file. -/
def readFile (disk : Disk) (path : RelativePath) : Except IoErrorKind Bytes := do
  let location ← disk.resolve disk.root path.names
  disk.contents location

/-- What a path leads to, links followed to its end. -/
def target? (disk : Disk) (path : RelativePath) : Option Node :=
  match disk.resolve disk.root path.names with
  | .ok location => disk.node? location
  | .error _ => none

/-- `Path::exists`. -/
def exists? (disk : Disk) (path : RelativePath) : Bool := (disk.target? path).isSome

/-- `Path::is_dir`. -/
def isDir (disk : Disk) (path : RelativePath) : Bool :=
  match disk.target? path with
  | some (.directory _ _) => true
  | _ => false

/-- `Path::is_file`. -/
def isFile (disk : Disk) (path : RelativePath) : Bool :=
  match disk.target? path with
  | some (.file _ _ _) => true
  | _ => false

end Disk

/-- A disk answers the reading calls and stays as it is. -/
instance : Syscalls Disk where
  Handle := List OsName
  symlinkMetadata path disk := (disk.metadata path, disk)
  readDir dir disk := (disk.openDir dir, disk)
  nextEntry names disk :=
    (.ok (match names with
      | [] => none
      | name :: names => some (name, names)), disk)
  read path disk := (disk.readFile path, disk)
  pathExists path disk := (disk.exists? path, disk)

namespace Disk

variable {disk : Disk} {path : RelativePath}

/-! ## Directories and what is in them -/

theorem mem_names {dir : Location} {name : OsName} :
    name ∈ disk.names dir ↔ disk.node? (dir ++ [name]) ≠ none := by
  rw [names, List.mem_filterMap, node?, Ne, Option.map_eq_none_iff, ← Ne,
    Option.ne_none_iff_exists']
  constructor
  · rintro ⟨e, he, hname⟩
    obtain ⟨-, hlocation⟩ := Option.filter_eq_some_iff.mp hname
    exact ⟨e, Table.find?_eq_some_iff.mpr ⟨he, of_decide_eq_true hlocation⟩⟩
  · rintro ⟨e, he⟩
    obtain ⟨hmem, hlocation⟩ := Table.find?_eq_some_iff.mp he
    refine ⟨e, hmem, Option.filter_eq_some_iff.mpr ⟨?_, decide_eq_true hlocation⟩⟩
    rw [hlocation, List.getLast?_concat]

theorem lookup_eq_ok {dir : Location} {name : OsName} {node : Node}
    (h : disk.lookup dir name = .ok node) :
    (∃ readable, disk.node? dir = some (.directory readable true)) ∧
      disk.node? (dir ++ [name]) = some node := by
  unfold lookup at h
  split at h
  next readable searchable hdir =>
    split_ifs at h with hsearch
    split at h
    next found hfound =>
      cases h
      exact ⟨⟨readable, by rw [hdir, hsearch]⟩, hfound⟩
    · cases h
  · cases h
  · cases h

end Disk

namespace RelativePath

theorem names_dropLast (path : RelativePath) :
    path.names.dropLast = (path.parent.map names).getD [] := by
  unfold parent names
  split_ifs with h
  · rw [← List.map_dropLast, h]
    rfl
  · rw [← List.map_dropLast]
    rfl

end RelativePath

namespace Disk

variable {disk : Disk} {path : RelativePath}

/-- Where there is metadata, there is a node in a directory. -/
theorem metadata_eq_ok {metadata : Metadata} (h : disk.metadata path = .ok metadata) :
    ∃ dir readable node, disk.parentOf path = .ok dir ∧
      disk.node? dir = some (.directory readable true) ∧
      disk.node? (dir ++ [.utf8 path.fileName]) = some node ∧ node.metadata = metadata := by
  unfold Disk.metadata at h
  cases hparent : disk.parentOf path with
  | error e => rw [hparent] at h; cases h
  | ok dir =>
    rw [hparent] at h
    cases hlookup : disk.lookup dir (.utf8 path.fileName) with
    | error e =>
      simp only [bind, Except.bind, hlookup] at h
      cases h
    | ok node =>
      simp only [bind, Except.bind, hlookup] at h
      cases h
      obtain ⟨⟨readable, hdir⟩, hnode⟩ := lookup_eq_ok hlookup
      exact ⟨dir, readable, node, rfl, hdir, hnode, rfl⟩

/-- What is at a path is listed in its directory, if that can be read. -/
theorem openDir_of_metadata {metadata : Metadata} (h : disk.metadata path = .ok metadata) :
    (∃ names, disk.openDir path.parent = .ok names ∧ .utf8 path.fileName ∈ names) ∨
      disk.openDir path.parent = .error .permissionDenied := by
  obtain ⟨dir, readable, node, hparent, hdir, hnode, -⟩ := metadata_eq_ok h
  have hopen : disk.openDir path.parent = disk.list dir := by
    rw [parentOf, RelativePath.names_dropLast] at hparent
    rw [openDir, hparent]
    rfl
  rw [hopen, list, hdir]
  cases readable with
  | true => exact .inl ⟨_, rfl, mem_names.mpr (by rw [hnode]; exact Option.some_ne_none _)⟩
  | false => exact .inr rfl

end Disk

end Opbox
