import Opbox.Fs.GuardedDelete
import Opbox.Fs.Termination

/-!
# Volumes

A disk that the file layer writes to.  The calls that change it are those of the operating system: a
path is resolved as in a look, a new directory needs its parent, and a rename replaces a file but not a
directory.  A file that is written is stamped with the time of the volume.

A plain volume holds directories and files only, all of them accessible.  What its calls do is told by
the file and the directory at each path.
-/

namespace Opbox

/-- A disk with the time that the next write is stamped with. -/
structure Volume where
  /-- The disk. -/
  disk : Disk
  /-- The time. -/
  clock : Nat

namespace Disk

/-- Put a node at a location. -/
def putNode (disk : Disk) (location : Location) (node : Node) : Disk :=
  { disk with entries := disk.entries.put ⟨location, node⟩ }

/-- Take away what is at a location. -/
def removeNode (disk : Disk) (location : Location) : Disk :=
  { disk with entries := disk.entries.deleteWhere fun e => decide (e.location = location) }

/-- Find a path in its directory: the directory, and what the path has there. -/
def find (disk : Disk) (path : RelativePath) :
    Except IoErrorKind (Location × Except IoErrorKind Node) := do
  let dir ← disk.parentOf path
  return (dir ++ [.utf8 path.fileName], disk.lookup dir (.utf8 path.fileName))

/-- `mkdir`. -/
def mkdir (disk : Disk) (path : RelativePath) : Except IoErrorKind Unit × Disk :=
  match disk.find path with
  | .ok (location, .error .notFound) => (.ok (), disk.putNode location (.directory true true))
  | .ok (_, .ok _) => (.error (.other 17), disk)
  | .ok (_, .error kind) => (.error kind, disk)
  | .error kind => (.error kind, disk)

/-- `create_dir_all` below a sync root that is there, with one unit of fuel for each component. -/
def createDirs : Nat → RelativePath → Disk → Except IoErrorKind Unit × Disk
  | 0, _, disk => (.error .notFound, disk)
  | fuel + 1, path, disk =>
    match disk.mkdir path with
    | (.ok (), disk) => (.ok (), disk)
    | (.error .notFound, disk) =>
      match path.parent with
      | none => (.error .notFound, disk)
      | some parent =>
        match createDirs fuel parent disk with
        | (.error kind, disk) => (.error kind, disk)
        | (.ok (), disk) =>
          match disk.mkdir path with
          | (.ok (), disk) => (.ok (), disk)
          | (.error kind, disk) => (if disk.isDir path then .ok () else .error kind, disk)
    | (.error kind, disk) => (if disk.isDir path then .ok () else .error kind, disk)

/-- `remove_file`. -/
def unlink (disk : Disk) (path : RelativePath) : Except IoErrorKind Unit × Disk :=
  match disk.find path with
  | .ok (_, .ok (.directory _ _)) => (.error .isADirectory, disk)
  | .ok (location, .ok _) => (.ok (), disk.removeNode location)
  | .ok (_, .error kind) => (.error kind, disk)
  | .error kind => (.error kind, disk)

/-- `rename` of a file. -/
def renameFile (disk : Disk) (source target : RelativePath) : Except IoErrorKind Unit × Disk :=
  match disk.find source, disk.find target with
  | .ok (old, .ok node), .ok (new, found) =>
    match found with
    | .ok (.directory _ _) => (.error .isADirectory, disk)
    | .ok _ => (.ok (), (disk.removeNode old).putNode new node)
    | .error .notFound => (.ok (), (disk.removeNode old).putNode new node)
    | .error kind => (.error kind, disk)
  | .ok (_, .error kind), _ => (.error kind, disk)
  | .error kind, _ => (.error kind, disk)
  | _, .error kind => (.error kind, disk)

end Disk

namespace Volume

/-- `write`: the file is made, or its bytes are replaced. -/
def writeFile (volume : Volume) (path : RelativePath) (bytes : Bytes) :
    Except IoErrorKind Unit × Volume :=
  match volume.disk.find path with
  | .ok (location, .error .notFound) =>
    (.ok (), ⟨volume.disk.putNode location
      (.file ⟨⟨0, volume.clock⟩, bytes.length, volume.clock⟩ bytes true), volume.clock + 1⟩)
  | .ok (location, .ok (.file stat _ readable)) =>
    (.ok (), ⟨volume.disk.putNode location
      (.file ⟨stat.fileKey, bytes.length, volume.clock⟩ bytes readable), volume.clock + 1⟩)
  | .ok (_, .ok (.directory _ _)) => (.error .isADirectory, volume)
  | .ok (_, .ok _) => (.error (.other 0), volume)
  | .ok (_, .error kind) => (.error kind, volume)
  | .error kind => (.error kind, volume)

/-- A call that changes the disk. -/
def change (f : Disk → Except IoErrorKind Unit × Disk) (volume : Volume) :
    Except IoErrorKind Unit × Volume :=
  ((f volume.disk).1, { volume with disk := (f volume.disk).2 })

instance : FileCalls Volume where
  Handle := List OsName
  symlinkMetadata path volume := (volume.disk.metadata path, volume)
  readDir dir volume := (volume.disk.openDir dir, volume)
  nextEntry names volume :=
    (.ok (match names with
      | [] => none
      | name :: names => some (name, names)), volume)
  read path volume := (volume.disk.readFile path, volume)
  pathExists path volume := (volume.disk.exists? path, volume)
  createDirAll dir :=
    change fun disk => match dir with
      | none => (if disk.node? disk.root = none then .error .notFound else .ok (), disk)
      | some path => disk.createDirs path.components.length path
  write path bytes volume := volume.writeFile path bytes
  rename source target := change fun disk => disk.renameFile source target
  removeFile path := change fun disk => disk.unlink path

end Volume

/-! ## Names and paths -/

namespace RelativePath

variable {path other : RelativePath}

theorem names_injective : Function.Injective names := fun _ _ h =>
  components_injective (List.map_injective_iff.mpr (fun _ _ => OsName.utf8.inj) h)

theorem names_ne_nil (path : RelativePath) : path.names ≠ [] :=
  fun h => path.nonempty (List.map_eq_nil_iff.mp h)

theorem dropLast_names_append (path : RelativePath) :
    path.names.dropLast ++ [.utf8 path.fileName] = path.names := by
  rw [names, ← List.map_dropLast, ← List.map_singleton, ← List.map_append,
    dropLast_append_fileName]

/-- The names above a path are those of the paths above it. -/
theorem isAbove_iff_names : other.IsAbove path ↔ other.names <+: path.names.dropLast := by
  rw [IsAbove, names, names, ← List.map_dropLast]
  constructor
  · exact fun h => h.map _
  · rintro ⟨rest, hrest⟩
    obtain ⟨a, b, heq, ha, hb⟩ := List.map_eq_append_iff.mp hrest.symm
    refine ⟨b, ?_⟩
    rw [heq, List.map_injective_iff.mpr (fun _ _ => OsName.utf8.inj) ha]

/-- The first names of a path are those of a path. -/
theorem exists_of_prefix_names {names : List OsName} (h : names <+: path.names) (hne : names ≠ []) :
    ∃ other : RelativePath, other.names = names := by
  obtain ⟨rest, hrest⟩ := h
  obtain ⟨a, b, heq, rfl, -⟩ := List.map_eq_append_iff.mp hrest.symm
  refine ⟨⟨a, fun hnil => hne (by rw [hnil, List.map_nil]), fun c hc => path.valid c ?_⟩, rfl⟩
  rw [heq]
  exact List.mem_append_left _ hc

end RelativePath

/-! ## Plain disks -/

/-- The stat and the bytes of a file. -/
def Node.data : Node → Option (FileStatFingerprint × Bytes)
  | file stat bytes _ => some (stat, bytes)
  | _ => none

/-- The node is a directory. -/
def Node.isDirectory : Node → Bool
  | directory _ _ => true
  | _ => false

namespace Disk

/-- The location of a path that has no link on its way. -/
def place (disk : Disk) (path : RelativePath) : Location := disk.root ++ path.names

/-- The file at a path. -/
def fileAt (disk : Disk) (path : RelativePath) : Option (FileStatFingerprint × Bytes) :=
  (disk.node? (disk.place path)).bind Node.data

/-- A directory is at the path. -/
def dirAt (disk : Disk) (path : RelativePath) : Bool :=
  (disk.node? (disk.place path)).any Node.isDirectory

/-- The disk below the sync root holds directories and files only, all of them accessible. -/
structure Plain (disk : Disk) : Prop where
  /-- The sync root is a directory. -/
  root : disk.node? disk.root = some (.directory true true)
  /-- What is below is a directory or a file. -/
  node : ∀ names found, names ≠ [] → disk.node? (disk.root ++ names) = some found →
    found = .directory true true ∨ ∃ stat bytes, found = .file stat bytes true
  /-- What is in something is in a directory. -/
  above : ∀ names name, disk.node? (disk.root ++ (names ++ [name])) ≠ none →
    disk.node? (disk.root ++ names) = some (.directory true true)

variable {disk : Disk}

theorem lookup_of_dir {dir : Location} {name : OsName}
    (h : disk.node? dir = some (.directory true true)) :
    disk.lookup dir name = match disk.node? (dir ++ [name]) with
      | some node => .ok node
      | none => .error .notFound := by
  rw [lookup, h]
  rfl

theorem lookup_of_file {location : Location} {name : OsName} {stat : FileStatFingerprint}
    {bytes : Bytes} {readable : Bool} (h : disk.node? location = some (.file stat bytes readable)) :
    disk.lookup location name = .error .notADirectory := by
  rw [lookup, h]

/-- What is above something on a plain disk is a directory. -/
theorem Plain.dir_of_prefix (hplain : disk.Plain) {names more : List OsName} (hne : more ≠ [])
    (h : disk.node? (disk.root ++ (names ++ more)) ≠ none) :
    disk.node? (disk.root ++ names) = some (.directory true true) := by
  induction more using List.reverseRecOn with
  | nil => exact absurd rfl hne
  | append_singleton more name ih =>
    rw [← List.append_assoc names] at h
    have hdir := hplain.above _ _ h
    cases more with
    | nil => rwa [List.append_nil] at hdir
    | cons first more =>
      apply ih (List.cons_ne_nil first more)
      rw [hdir]
      exact Option.some_ne_none _

/-- No link is followed on a plain disk. -/
theorem Plain.follow_eq (hplain : disk.Plain) {names : List OsName} {node : Node} (hne : names ≠ [])
    (h : disk.node? (disk.root ++ names) = some node) (location : Location) :
    follow location node = .ok location := by
  obtain rfl | ⟨stat, bytes, rfl⟩ := hplain.node names node hne h
  · rfl
  · rfl

/-- What is there is found where its names say. -/
theorem Plain.resolve_of_node (hplain : disk.Plain) (names : List OsName) : ∀ before : List OsName,
    disk.node? (disk.root ++ (before ++ names)) ≠ none →
      disk.resolve (disk.root ++ before) names = .ok (disk.root ++ (before ++ names)) := by
  induction names with
  | nil =>
    intro before _
    rw [resolve, List.append_nil]
  | cons name names ih =>
    intro before h
    have hdir := hplain.dir_of_prefix (List.cons_ne_nil name names) h
    have hnext : ∃ node, disk.node? (disk.root ++ (before ++ [name])) = some node := by
      apply Option.ne_none_iff_exists'.mp
      cases names with
      | nil => exact h
      | cons second names =>
        rw [hplain.dir_of_prefix (List.cons_ne_nil second names) (by simpa using h)]
        exact Option.some_ne_none _
    obtain ⟨node, hnode⟩ := hnext
    have hfollow := hplain.follow_eq (by simp) hnode (disk.root ++ (before ++ [name]))
    rw [← List.append_assoc] at hnode hfollow
    rw [resolve, lookup_of_dir hdir, hnode]
    simp only [bind, Except.bind, hfollow]
    rw [List.append_assoc, ih _ (by simpa using h), List.append_assoc]
    rfl

/-- Nothing is found below a file. -/
theorem Plain.resolve_of_file (hplain : disk.Plain) {names more : List OsName} (hne : more ≠ [])
    {stat : FileStatFingerprint} {bytes : Bytes} {readable : Bool}
    (h : disk.node? (disk.root ++ names) = some (.file stat bytes readable)) :
    disk.resolve disk.root (names ++ more) = .error .notADirectory := by
  have hfile := hplain.resolve_of_node names []
    (by rw [List.nil_append, h]; exact Option.some_ne_none _)
  rw [List.append_nil, List.nil_append] at hfile
  rw [resolve_append, hfile]
  cases more with
  | nil => exact absurd rfl hne
  | cons name more =>
    simp only [Except.bind, resolve, lookup_of_file h, bind]

/-- Names that stop at nothing, with no file on the way, are not found. -/
theorem Plain.resolve_of_missing (hplain : disk.Plain) (names : List OsName) :
    ∀ before : List OsName, disk.node? (disk.root ++ before) = some (.directory true true) →
      disk.node? (disk.root ++ (before ++ names)) = none →
      (∀ first more stat bytes, names = first ++ more →
        disk.node? (disk.root ++ (before ++ first)) ≠ some (.file stat bytes true)) →
      disk.resolve (disk.root ++ before) names = .error .notFound := by
  induction names with
  | nil =>
    intro before hdir hnone _
    rw [List.append_nil, hdir] at hnone
    cases hnone
  | cons name names ih =>
    intro before hdir hnone hfile
    rw [resolve, lookup_of_dir hdir]
    cases hnode : disk.node? (disk.root ++ before ++ [name]) with
    | none => rfl
    | some node =>
      rw [List.append_assoc] at hnode
      obtain rfl | ⟨stat, bytes, rfl⟩ := hplain.node _ _ (by simp) hnode
      · have hrest := ih (before ++ [name]) hnode (by simpa using hnone)
          fun first more stat bytes heq => by
            have := hfile (name :: first) more stat bytes (by rw [heq]; rfl)
            simpa using this
        rw [← List.append_assoc] at hrest
        exact hrest
      · exact absurd hnode (hfile [name] names stat bytes rfl)

/-! ## What is at a path -/

section Paths

variable {path : RelativePath}

/-- The directory of the path is there. -/
def InDir (disk : Disk) (path : RelativePath) : Prop :=
  disk.node? (disk.root ++ path.names.dropLast) = some (.directory true true)

/-- A file is where the path needs a directory. -/
def Blocked (disk : Disk) (path : RelativePath) : Prop :=
  ∃ other : RelativePath, other.IsAbove path ∧ disk.fileAt other ≠ none

theorem place_eq (disk : Disk) (path : RelativePath) :
    disk.root ++ path.names.dropLast ++ [.utf8 path.fileName] = disk.place path := by
  rw [List.append_assoc, RelativePath.dropLast_names_append, place]

theorem place_injective {other : RelativePath} (h : disk.place path = disk.place other) :
    path = other :=
  RelativePath.names_injective (List.append_cancel_left h)

theorem Plain.fileAt_eq_some_iff (hplain : disk.Plain) {stat : FileStatFingerprint} {bytes : Bytes} :
    disk.fileAt path = some (stat, bytes) ↔
      disk.node? (disk.place path) = some (.file stat bytes true) := by
  unfold fileAt
  cases hnode : disk.node? (disk.place path) with
  | none => simp
  | some node =>
    obtain rfl | ⟨found, held, rfl⟩ := hplain.node _ _ path.names_ne_nil hnode
    · simp [Node.data]
    · simp [Node.data]

theorem Plain.dirAt_iff (hplain : disk.Plain) :
    disk.dirAt path = true ↔ disk.node? (disk.place path) = some (.directory true true) := by
  unfold dirAt
  cases hnode : disk.node? (disk.place path) with
  | none => simp
  | some node =>
    obtain rfl | ⟨found, held, rfl⟩ := hplain.node _ _ path.names_ne_nil hnode
    · simp [Node.isDirectory]
    · simp [Node.isDirectory]

theorem Plain.node?_eq_none_iff (hplain : disk.Plain) :
    disk.node? (disk.place path) = none ↔ disk.fileAt path = none ∧ disk.dirAt path = false := by
  unfold fileAt dirAt
  cases hnode : disk.node? (disk.place path) with
  | none => simp
  | some node =>
    obtain rfl | ⟨found, held, rfl⟩ := hplain.node _ _ path.names_ne_nil hnode
    · simp [Node.data, Node.isDirectory]
    · simp [Node.data, Node.isDirectory]

/-- What is there is in a directory. -/
theorem Plain.inDir_of_node (hplain : disk.Plain) (h : disk.node? (disk.place path) ≠ none) :
    disk.InDir path := by
  apply hplain.above path.names.dropLast (.utf8 path.fileName)
  rwa [RelativePath.dropLast_names_append]

/-- A path is in the sync root or in its parent. -/
theorem Plain.inDir_iff (hplain : disk.Plain) :
    disk.InDir path ↔ ∀ parent, path.parent = some parent → disk.dirAt parent = true := by
  have hnames := RelativePath.names_dropLast path
  rw [InDir, hnames]
  cases path.parent with
  | none => simpa using hplain.root
  | some parent =>
    simp only [Option.map_some, Option.getD_some, Option.some.injEq, forall_eq']
    exact hplain.dirAt_iff.symm

theorem Plain.not_blocked_of_inDir (hplain : disk.Plain) (h : disk.InDir path) :
    ¬disk.Blocked path := by
  rintro ⟨other, habove, hfile⟩
  obtain ⟨⟨stat, bytes⟩, hfile⟩ := Option.ne_none_iff_exists'.mp hfile
  rw [hplain.fileAt_eq_some_iff] at hfile
  obtain ⟨rest, hrest⟩ := RelativePath.isAbove_iff_names.mp habove
  rw [InDir, ← hrest] at h
  by_cases hnil : rest = []
  · rw [hnil, List.append_nil, ← place, hfile] at h
    cases h
  · have hdir := hplain.dir_of_prefix hnil (by rw [h]; exact Option.some_ne_none _)
    rw [← place, hfile] at hdir
    cases hdir

/-- In a directory a path is found as it is. -/
theorem Plain.find_of_inDir (hplain : disk.Plain) (h : disk.InDir path) :
    disk.find path = .ok (disk.place path, match disk.node? (disk.place path) with
      | some node => .ok node
      | none => .error .notFound) := by
  have hparent := hplain.resolve_of_node path.names.dropLast []
    (by rw [List.nil_append, h]; exact Option.some_ne_none _)
  rw [List.append_nil, List.nil_append] at hparent
  rw [find, parentOf, hparent]
  simp only [bind, Except.bind, lookup_of_dir h, place_eq]
  rfl

/-- Below a file nothing is found. -/
theorem Plain.find_of_blocked (hplain : disk.Plain) (h : disk.Blocked path) :
    (∃ location, disk.find path = .ok (location, .error .notADirectory)) ∨
      disk.find path = .error .notADirectory := by
  obtain ⟨other, habove, hfile⟩ := h
  obtain ⟨⟨stat, bytes⟩, hfile⟩ := Option.ne_none_iff_exists'.mp hfile
  rw [hplain.fileAt_eq_some_iff] at hfile
  obtain ⟨rest, hrest⟩ := RelativePath.isAbove_iff_names.mp habove
  by_cases hnil : rest = []
  · rw [hnil, List.append_nil] at hrest
    have hparent := hplain.resolve_of_node path.names.dropLast []
      (by rw [List.nil_append, ← hrest, ← place, hfile]; exact Option.some_ne_none _)
    rw [List.append_nil, List.nil_append, ← hrest, ← place] at hparent
    refine .inl ⟨disk.place other ++ [.utf8 path.fileName], ?_⟩
    rw [find, parentOf, ← hrest, hparent]
    simp only [bind, Except.bind, lookup_of_file hfile]
    rfl
  · refine .inr ?_
    rw [find, parentOf, ← hrest, hplain.resolve_of_file hnil hfile]
    rfl

/-- Where the directory is missing, and no file is in its place, nothing is found. -/
theorem Plain.find_of_missing (hplain : disk.Plain) (hblocked : ¬disk.Blocked path)
    (h : ¬disk.InDir path) : disk.find path = .error .notFound := by
  have hfile : ∀ first more stat bytes, path.names.dropLast = first ++ more →
      disk.node? (disk.root ++ first) ≠ some (.file stat bytes true) := by
    intro first more stat bytes heq hnode
    have hne : first ≠ [] := by
      rintro rfl
      rw [List.append_nil, hplain.root] at hnode
      cases hnode
    have hfirst : first <+: path.names.dropLast := ⟨more, heq.symm⟩
    obtain ⟨other, rfl⟩ :=
      RelativePath.exists_of_prefix_names (hfirst.trans (List.dropLast_prefix _)) hne
    refine hblocked ⟨other, RelativePath.isAbove_iff_names.mpr hfirst, ?_⟩
    rw [hplain.fileAt_eq_some_iff.mpr hnode]
    exact Option.some_ne_none _
  have hnone : disk.node? (disk.root ++ path.names.dropLast) = none := by
    by_contra hsome
    obtain ⟨node, hnode⟩ := Option.ne_none_iff_exists'.mp hsome
    by_cases hnil : path.names.dropLast = []
    · rw [InDir, hnil, List.append_nil] at h
      exact h hplain.root
    · obtain rfl | ⟨stat, bytes, rfl⟩ := hplain.node _ _ hnil hnode
      · exact h hnode
      · exact hfile _ [] stat bytes (List.append_nil _).symm hnode
  have hmissing := hplain.resolve_of_missing path.names.dropLast []
    (by rw [List.append_nil]; exact hplain.root) hnone hfile
  rw [List.append_nil] at hmissing
  rw [find, parentOf, hmissing]
  rfl

theorem metadata_eq_find (disk : Disk) (path : RelativePath) :
    disk.metadata path = (disk.find path).bind fun found => found.2.map Node.metadata := by
  rw [metadata, find]
  cases disk.parentOf path with
  | error kind => rfl
  | ok dir =>
    simp only [bind, Except.bind]
    cases disk.lookup dir (.utf8 path.fileName) with
    | error kind => rfl
    | ok node => rfl

theorem Plain.metadata_of_file (hplain : disk.Plain) {file : FileStatFingerprint × Bytes}
    (h : disk.fileAt path = some file) : disk.metadata path = .ok (.file file.1) := by
  have hnode : disk.node? (disk.place path) = some (.file file.1 file.2 true) :=
    hplain.fileAt_eq_some_iff.mp h
  rw [metadata_eq_find, hplain.find_of_inDir (hplain.inDir_of_node
    (by rw [hnode]; exact Option.some_ne_none _)), hnode]
  rfl

theorem Plain.metadata_of_dir (hplain : disk.Plain) (h : disk.dirAt path = true) :
    disk.metadata path = .ok .directory := by
  have hnode := hplain.dirAt_iff.mp h
  rw [metadata_eq_find, hplain.find_of_inDir (hplain.inDir_of_node
    (by rw [hnode]; exact Option.some_ne_none _)), hnode]
  rfl

theorem Plain.metadata_of_blocked (hplain : disk.Plain) (h : disk.Blocked path) :
    disk.metadata path = .error .notADirectory := by
  rw [metadata_eq_find]
  obtain ⟨location, hfind⟩ | hfind := hplain.find_of_blocked h
  · rw [hfind]
    rfl
  · rw [hfind]
    rfl

theorem Plain.metadata_of_missing (hplain : disk.Plain) (hblocked : ¬disk.Blocked path)
    (hfile : disk.fileAt path = none) (hdir : disk.dirAt path = false) :
    disk.metadata path = .error .notFound := by
  rw [metadata_eq_find]
  by_cases h : disk.InDir path
  · rw [hplain.find_of_inDir h, hplain.node?_eq_none_iff.mpr ⟨hfile, hdir⟩]
    rfl
  · rw [hplain.find_of_missing hblocked h]
    rfl

theorem Plain.readFile_of_file (hplain : disk.Plain) {file : FileStatFingerprint × Bytes}
    (h : disk.fileAt path = some file) : disk.readFile path = .ok file.2 := by
  have hnode : disk.node? (disk.place path) = some (.file file.1 file.2 true) :=
    hplain.fileAt_eq_some_iff.mp h
  have hresolve := hplain.resolve_of_node path.names []
    (by rw [List.nil_append, ← place, hnode]; exact Option.some_ne_none _)
  rw [List.append_nil, List.nil_append, ← place] at hresolve
  rw [readFile, hresolve]
  simp only [bind, Except.bind, contents, hnode]
  rfl

end Paths

/-! ## Changes of a plain disk -/

section Changes

variable {path other : RelativePath}

theorem node?_putNode (disk : Disk) (location l : Location) (node : Node) :
    (disk.putNode location node).node? l = if location = l then some node else disk.node? l := by
  rw [node?, putNode, Table.find?_put]
  split_ifs
  · rfl
  · rfl

theorem node?_removeNode (disk : Disk) (location l : Location) :
    (disk.removeNode location).node? l = if location = l then none else disk.node? l := by
  rw [node?, removeNode, Table.find?_deleteWhere, node?]
  cases hfind : disk.entries.find? l with
  | none => simp
  | some e =>
    have hkey := Table.key_of_find? hfind
    by_cases heq : location = l
    · simp [heq, hkey]
    · simp [Option.filter, hkey, heq, Ne.symm heq]

theorem fileAt_putNode (disk : Disk) (path other : RelativePath) (node : Node) :
    (disk.putNode (disk.place path) node).fileAt other =
      if path = other then node.data else disk.fileAt other := by
  change ((disk.putNode (disk.place path) node).node? (disk.place other)).bind Node.data = _
  rw [node?_putNode]
  by_cases h : path = other
  · rw [h, if_pos rfl, if_pos rfl]
    rfl
  · rw [if_neg h, if_neg fun hplace => h (place_injective hplace)]
    rfl

theorem dirAt_putNode (disk : Disk) (path other : RelativePath) (node : Node) :
    (disk.putNode (disk.place path) node).dirAt other =
      if path = other then node.isDirectory else disk.dirAt other := by
  change ((disk.putNode (disk.place path) node).node? (disk.place other)).any Node.isDirectory = _
  rw [node?_putNode]
  by_cases h : path = other
  · rw [h, if_pos rfl, if_pos rfl]
    rfl
  · rw [if_neg h, if_neg fun hplace => h (place_injective hplace)]
    rfl

theorem fileAt_removeNode (disk : Disk) (path other : RelativePath) :
    (disk.removeNode (disk.place path)).fileAt other =
      if path = other then none else disk.fileAt other := by
  change ((disk.removeNode (disk.place path)).node? (disk.place other)).bind Node.data = _
  rw [node?_removeNode]
  by_cases h : path = other
  · rw [h, if_pos rfl, if_pos rfl]
    rfl
  · rw [if_neg h, if_neg fun hplace => h (place_injective hplace)]
    rfl

theorem dirAt_removeNode (disk : Disk) (path other : RelativePath) :
    (disk.removeNode (disk.place path)).dirAt other =
      if path = other then false else disk.dirAt other := by
  change ((disk.removeNode (disk.place path)).node? (disk.place other)).any Node.isDirectory = _
  rw [node?_removeNode]
  by_cases h : path = other
  · rw [h, if_pos rfl, if_pos rfl]
    rfl
  · rw [if_neg h, if_neg fun hplace => h (place_injective hplace)]
    rfl

/-- A plain disk stays plain when a directory is made, or a file is put where no directory is. -/
theorem Plain.putNode (hplain : disk.Plain) (hin : disk.InDir path) {node : Node}
    (hnode : node = .directory true true ∨
      disk.dirAt path = false ∧ ∃ stat bytes, node = .file stat bytes true) :
    (disk.putNode (disk.place path) node).Plain := by
  have hroot : ∀ names : List OsName, disk.place path = disk.root ++ names → names = path.names :=
    fun names h => (List.append_cancel_left h).symm
  have hdir : ∀ names, names ≠ path.names →
      disk.node? (disk.root ++ names) = some (.directory true true) →
      (disk.putNode (disk.place path) node).node? (disk.root ++ names) =
        some (.directory true true) := by
    intro names hne h
    rw [node?_putNode, if_neg fun heq => hne (hroot names heq), h]
  constructor
  · have := hdir [] path.names_ne_nil.symm
    rw [List.append_nil] at this
    exact this hplain.root
  · intro names found hne hfound
    change (disk.putNode (disk.place path) node).node? (disk.root ++ names) = some found at hfound
    rw [node?_putNode] at hfound
    split_ifs at hfound with heq
    · cases hfound
      exact hnode.imp id And.right
    · exact hplain.node names found hne hfound
  · intro names name hsome
    change (disk.putNode (disk.place path) node).node? (disk.root ++ (names ++ [name])) ≠ none at hsome
    change (disk.putNode (disk.place path) node).node? (disk.root ++ names) = _
    rw [node?_putNode] at hsome
    split_ifs at hsome with heq
    · have hnames := hroot _ heq
      apply hdir names
      · intro hsame
        rw [hsame] at hnames
        simp at hnames
      · rwa [InDir, ← hnames, List.dropLast_concat] at hin
    · have habove := hplain.above names name hsome
      by_cases hsame : names = path.names
      · rw [hsame, ← place, node?_putNode, if_pos rfl]
        rw [hsame, ← place] at habove
        obtain rfl | ⟨hnodir, -⟩ := hnode
        · rfl
        · rw [hplain.dirAt_iff.mpr habove] at hnodir
          cases hnodir
      · exact hdir names hsame habove

/-- A plain disk stays plain when a file is taken away. -/
theorem Plain.removeNode (hplain : disk.Plain) (hfile : disk.fileAt path ≠ none) :
    (disk.removeNode (disk.place path)).Plain := by
  obtain ⟨⟨stat, bytes⟩, hfile⟩ := Option.ne_none_iff_exists'.mp hfile
  rw [hplain.fileAt_eq_some_iff] at hfile
  have hdir : ∀ names, disk.node? (disk.root ++ names) = some (.directory true true) →
      (disk.removeNode (disk.place path)).node? (disk.root ++ names) =
        some (.directory true true) := by
    intro names h
    rw [node?_removeNode, if_neg, h]
    intro heq
    rw [heq, h] at hfile
    cases hfile
  constructor
  · have := hdir []
    rw [List.append_nil] at this
    exact this hplain.root
  · intro names found hne hfound
    change (disk.removeNode (disk.place path)).node? (disk.root ++ names) = some found at hfound
    rw [node?_removeNode] at hfound
    split_ifs at hfound
    exact hplain.node names found hne hfound
  · intro names name hsome
    change (disk.removeNode (disk.place path)).node? (disk.root ++ (names ++ [name])) ≠ none at hsome
    change (disk.removeNode (disk.place path)).node? (disk.root ++ names) = _
    rw [node?_removeNode] at hsome
    split_ifs at hsome
    · exact absurd rfl hsome
    · exact hdir names (hplain.above names name hsome)

end Changes

/-! ## Calls on a plain disk -/

section Calls

variable {path other : RelativePath}

/-- The directories above a path whose directory is there are there. -/
theorem Plain.dirAt_of_inDir (hplain : disk.Plain) (hin : disk.InDir path)
    (habove : other.IsAbove path) : disk.dirAt other = true := by
  rw [hplain.dirAt_iff, place]
  obtain ⟨rest, hrest⟩ := RelativePath.isAbove_iff_names.mp habove
  rw [InDir, ← hrest] at hin
  by_cases hnil : rest = []
  · rwa [hnil, List.append_nil] at hin
  · apply hplain.dir_of_prefix hnil
    rw [hin]
    exact Option.some_ne_none _

theorem Plain.node?_ne_none_of_fileAt (hplain : disk.Plain) (h : disk.fileAt path ≠ none) :
    disk.node? (disk.place path) ≠ none :=
  fun hnone => h (hplain.node?_eq_none_iff.mp hnone).1

theorem Plain.node?_ne_none_of_dirAt (hplain : disk.Plain) (h : disk.dirAt path = true) :
    disk.node? (disk.place path) ≠ none := by
  rw [hplain.dirAt_iff.mp h]
  exact Option.some_ne_none _

theorem Plain.fileAt_of_dirAt (hplain : disk.Plain) (h : disk.dirAt path = true) :
    disk.fileAt path = none := by
  rw [fileAt, hplain.dirAt_iff.mp h]
  rfl

theorem Plain.isDir_of_dirAt (hplain : disk.Plain) (h : disk.dirAt path = true) :
    disk.isDir path = true := by
  have hresolve := hplain.resolve_of_node path.names []
    (by rw [List.nil_append, ← place]; exact hplain.node?_ne_none_of_dirAt h)
  rw [List.append_nil, List.nil_append, ← place] at hresolve
  simp only [isDir, target?, hresolve, hplain.dirAt_iff.mp h]

/-- A directory is made in a directory that is there. -/
theorem Plain.mkdir_of_inDir (hplain : disk.Plain) (hin : disk.InDir path)
    (hnone : disk.node? (disk.place path) = none) :
    disk.mkdir path = (.ok (), disk.putNode (disk.place path) (.directory true true)) := by
  rw [mkdir, hplain.find_of_inDir hin, hnone]

/-- Over a directory no directory is made. -/
theorem Plain.mkdir_of_dirAt (hplain : disk.Plain) (h : disk.dirAt path = true) :
    disk.mkdir path = (.error (.other 17), disk) := by
  rw [mkdir, hplain.find_of_inDir (hplain.inDir_of_node (hplain.node?_ne_none_of_dirAt h)),
    hplain.dirAt_iff.mp h]

theorem Plain.mkdir_of_missing (hplain : disk.Plain) (hblocked : ¬disk.Blocked path)
    (h : ¬disk.InDir path) : disk.mkdir path = (.error .notFound, disk) := by
  rw [mkdir, hplain.find_of_missing hblocked h]

/-- The second disk has the files of the first one, and these directories beside its own. -/
structure DirsMade (made : RelativePath → Prop) (disk disk' : Disk) : Prop where
  /-- It is a plain disk. -/
  plain : disk'.Plain
  /-- The files are the same. -/
  fileAt : ∀ other, disk'.fileAt other = disk.fileAt other
  /-- The directories are these besides. -/
  dirAt : ∀ other, disk'.dirAt other = true ↔ disk.dirAt other = true ∨ made other

/-- Where the directory is there, making one makes that. -/
theorem Plain.dirsMade_mkdir (hplain : disk.Plain) (hin : disk.InDir path)
    (hnone : disk.node? (disk.place path) = none) :
    DirsMade (· = path) disk (disk.putNode (disk.place path) (.directory true true)) := by
  constructor
  · exact hplain.putNode hin (.inl rfl)
  · intro other
    rw [fileAt_putNode]
    split_ifs with h
    · rw [← h, (hplain.node?_eq_none_iff.mp hnone).1]
      rfl
    · rfl
  · intro other
    rw [dirAt_putNode]
    split_ifs with h
    · simp [h, Node.isDirectory]
    · simp [Ne.symm h]

/-- Below directories and nothing, all missing directories are made. -/
theorem Plain.createDirs (fuel : Nat) : ∀ {disk : Disk} {path : RelativePath}, disk.Plain →
    ¬disk.Blocked path → disk.fileAt path = none → path.components.length ≤ fuel →
    ∃ disk', createDirs fuel path disk = (.ok (), disk') ∧
      DirsMade (fun other => other = path ∨ other.IsAbove path) disk disk' := by
  induction fuel with
  | zero =>
    intro disk path _ _ _ hfuel
    exact absurd (List.length_eq_zero_iff.mp (Nat.le_zero.mp hfuel)) path.nonempty
  | succ fuel ih =>
    intro disk path hplain hblocked hfile hfuel
    by_cases hin : disk.InDir path
    · have habove : ∀ other, other.IsAbove path → disk.dirAt other = true :=
        fun other => hplain.dirAt_of_inDir hin
      by_cases hdir : disk.dirAt path = true
      · refine ⟨disk, ?_, hplain, fun other => rfl, fun other => ⟨.inl, ?_⟩⟩
        · rw [Disk.createDirs, hplain.mkdir_of_dirAt hdir]
          simp only [hplain.isDir_of_dirAt hdir, if_true]
        · rintro (h | rfl | h)
          · exact h
          · exact hdir
          · exact habove other h
      · have hnone := hplain.node?_eq_none_iff.mpr ⟨hfile, Bool.eq_false_of_not_eq_true hdir⟩
        have hmade := hplain.dirsMade_mkdir hin hnone
        refine ⟨_, ?_, hmade.plain, hmade.fileAt, fun other => ?_⟩
        · rw [Disk.createDirs, hplain.mkdir_of_inDir hin hnone]
        · rw [hmade.dirAt]
          constructor
          · exact Or.imp_right .inl
          · rintro (h | h | h)
            · exact .inl h
            · exact .inr h
            · exact .inl (habove other h)
    · -- The directory of the path is missing: it is made first, then the path in it.
      cases hparent : path.parent with
      | none =>
        refine absurd (hplain.inDir_iff.mpr fun parent h => ?_) hin
        rw [hparent] at h
        cases h
      | some parent =>
        have habove : ∀ other, other.IsAbove path ↔ other = parent ∨ other.IsAbove parent :=
          fun other => RelativePath.isAbove_iff_of_parent hparent
        have hlength : parent.components.length ≤ fuel := by
          have hlt := RelativePath.IsAbove.length_lt ((habove parent).mpr (.inl rfl))
          omega
        have hfileParent : disk.fileAt parent = none := by
          by_contra hsome
          exact hblocked ⟨parent, (habove parent).mpr (.inl rfl), hsome⟩
        have hblockedParent : ¬disk.Blocked parent := by
          rintro ⟨other, hother, hsome⟩
          exact hblocked ⟨other, (habove other).mpr (.inr hother), hsome⟩
        obtain ⟨disk₁, hcreate, hmade⟩ := ih hplain hblockedParent hfileParent hlength
        have hin₁ : disk₁.InDir path := hmade.plain.inDir_iff.mpr fun p hp => by
          rw [hparent, Option.some.injEq] at hp
          exact (hmade.dirAt p).mpr (.inr (.inl hp.symm))
        have hself : ¬path.IsAbove path := fun h => absurd h.length_lt (lt_irrefl _)
        have hnodir : disk₁.dirAt path = false := by
          apply Bool.eq_false_of_not_eq_true
          rw [hmade.dirAt, ← habove]
          rintro (h | h)
          · exact hin (hplain.inDir_of_node (hplain.node?_ne_none_of_dirAt h))
          · exact hself h
        have hnone := hmade.plain.node?_eq_none_iff.mpr ⟨(hmade.fileAt path).trans hfile, hnodir⟩
        have hmade₁ := hmade.plain.dirsMade_mkdir hin₁ hnone
        refine ⟨_, ?_, hmade₁.plain, fun other => (hmade₁.fileAt other).trans (hmade.fileAt other),
          fun other => ?_⟩
        · rw [Disk.createDirs, hplain.mkdir_of_missing hblocked hin]
          simp only [hparent, hcreate, hmade.plain.mkdir_of_inDir hin₁ hnone]
        · rw [hmade₁.dirAt, hmade.dirAt, habove]
          tauto

/-- A file goes from its path to another one where no directory is. -/
theorem Plain.renameFile (hplain : disk.Plain) {file : FileStatFingerprint × Bytes}
    (hfile : disk.fileAt other = some file) (hin : disk.InDir path)
    (hdir : disk.dirAt path = false) :
    ∃ disk', disk.renameFile other path = (.ok (), disk') ∧ disk'.Plain ∧
      (∀ q, disk'.fileAt q = if path = q then some file else
        if other = q then none else disk.fileAt q) ∧
      ∀ q, disk'.dirAt q = disk.dirAt q := by
  have hnode : disk.node? (disk.place other) = some (.file file.1 file.2 true) :=
    hplain.fileAt_eq_some_iff.mp hfile
  have hsome : disk.fileAt other ≠ none := by
    rw [hfile]
    exact Option.some_ne_none _
  have hdirAt : ∀ q, (disk.removeNode (disk.place other)).dirAt q = disk.dirAt q := by
    intro q
    rw [dirAt_removeNode]
    split_ifs with h
    · rw [← h, dirAt, hnode]
      rfl
    · rfl
  have hremoved := hplain.removeNode hsome
  have hin' : (disk.removeNode (disk.place other)).InDir path :=
    hremoved.inDir_iff.mpr fun parent h => (hdirAt parent).trans (hplain.inDir_iff.mp hin parent h)
  refine ⟨(disk.removeNode (disk.place other)).putNode (disk.place path)
    (.file file.1 file.2 true), ?_, ?_, ?_, ?_⟩
  · rw [Disk.renameFile, hplain.find_of_inDir (hplain.inDir_of_node (by rw [hnode]; simp)), hnode,
      hplain.find_of_inDir hin]
    cases hfound : disk.node? (disk.place path) with
    | none => rfl
    | some node =>
      obtain rfl | ⟨stat, bytes, rfl⟩ := hplain.node _ _ path.names_ne_nil hfound
      · rw [hplain.dirAt_iff.mpr hfound] at hdir
        cases hdir
      · rfl
  · exact hremoved.putNode hin' (.inr ⟨(hdirAt path).trans hdir, _, _, rfl⟩)
  · intro q
    have hput := fileAt_putNode (disk.removeNode (disk.place other)) path q
      (.file file.1 file.2 true)
    rw [fileAt_removeNode] at hput
    exact hput
  · intro q
    have hput := dirAt_putNode (disk.removeNode (disk.place other)) path q
      (.file file.1 file.2 true)
    refine hput.trans ?_
    split_ifs with h
    · rw [← h, hdir]
      rfl
    · exact hdirAt q

/-- A file is taken away. -/
theorem Plain.unlink (hplain : disk.Plain) (hfile : disk.fileAt path ≠ none) :
    ∃ disk', disk.unlink path = (.ok (), disk') ∧ disk'.Plain ∧
      (∀ q, disk'.fileAt q = if path = q then none else disk.fileAt q) ∧
      ∀ q, disk'.dirAt q = disk.dirAt q := by
  obtain ⟨⟨stat, bytes⟩, hsome⟩ := Option.ne_none_iff_exists'.mp hfile
  have hnode := hplain.fileAt_eq_some_iff.mp hsome
  refine ⟨disk.removeNode (disk.place path), ?_, hplain.removeNode hfile,
    fileAt_removeNode disk path, fun q => ?_⟩
  · rw [Disk.unlink, hplain.find_of_inDir (hplain.inDir_of_node (by rw [hnode]; simp)), hnode]
  · rw [dirAt_removeNode]
    split_ifs with h
    · rw [← h, dirAt, hnode]
      rfl
    · rfl

end Calls

end Disk

/-- A file that is written where nothing is has the time of the volume. -/
theorem Volume.writeFile_of_inDir {volume : Volume} {path : RelativePath} (bytes : Bytes)
    (hplain : volume.disk.Plain) (hin : volume.disk.InDir path)
    (hnone : volume.disk.node? (volume.disk.place path) = none) :
    volume.writeFile path bytes =
      (.ok (), ⟨volume.disk.putNode (volume.disk.place path)
        (.file ⟨⟨0, volume.clock⟩, bytes.length, volume.clock⟩ bytes true), volume.clock + 1⟩) := by
  rw [writeFile, hplain.find_of_inDir hin, hnone]

namespace Volume

/-- A sync root with nothing in it. -/
def emptyRoot : Volume := ⟨⟨⟨[⟨[], .directory true true⟩], List.nodup_singleton _⟩, []⟩, 0⟩

theorem node?_emptyRoot (location : Location) :
    emptyRoot.disk.node? location = if location = [] then some (.directory true true) else none := by
  cases location with
  | nil => rfl
  | cons name names => rfl

theorem plain_emptyRoot : emptyRoot.disk.Plain := by
  refine ⟨rfl, fun names found hne hfound => ?_, fun names name hsome => ?_⟩
  · change emptyRoot.disk.node? names = some found at hfound
    rw [node?_emptyRoot, if_neg hne] at hfound
    cases hfound
  · refine absurd ?_ hsome
    change emptyRoot.disk.node? (names ++ [name]) = none
    rw [node?_emptyRoot, if_neg (by simp)]

theorem fileAt_emptyRoot (path : RelativePath) : emptyRoot.disk.fileAt path = none := by
  change (emptyRoot.disk.node? path.names).bind Node.data = none
  rw [node?_emptyRoot, if_neg path.names_ne_nil]
  rfl

theorem dirAt_emptyRoot (path : RelativePath) : emptyRoot.disk.dirAt path = false := by
  change (emptyRoot.disk.node? path.names).any Node.isDirectory = false
  rw [node?_emptyRoot, if_neg path.names_ne_nil]
  rfl

end Volume

end Opbox
