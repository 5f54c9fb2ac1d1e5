import Opbox.Fs.Ignore

/-!
# Reading the sync root

The reading half of `LocalFileIO` (`fs/fio/local.rs`): the stat of a path, a read that the file does
not change under, the guarded read of an import, and the scan of a scope.  The walk of a scan takes
fuel, one unit for each directory and each entry of a directory, and yields nothing when it runs
out.
-/

namespace Opbox

variable {σ : Type} [Syscalls σ]

/-- `child_path`. -/
def childPath (parent : Option RelativePath) (name : OsName) : Except Report RelativePath :=
  match name.toStr with
  | none => .error (.bail "non-utf-8 path component is not supported")
  | some name =>
    match RelativePath.new ((parent.map RelativePath.components).getD [] ++ [name]) with
    | .ok path => .ok path
    | .error message => .error (.bail message)

/-- The entry of a path with this metadata, if it is a file or a directory. -/
def Metadata.entry (path : RelativePath) : Metadata → Option TreeEntry
  | directory => some ⟨path, .directory⟩
  | file stat => some ⟨path, .file (.statOnly stat)⟩
  | other => none

/-- `stat_path`. -/
def statPath (path : RelativePath) : Fio σ (Option TreeEntry) := do
  match ← Effect.call (Syscalls.symlinkMetadata path) with
  | .ok metadata => pure (metadata.entry path)
  | .error .notFound => pure none
  | .error kind => throw (.io kind)

/-- The entry is a directory. -/
def TreeEntry.isDir (entry : TreeEntry) : Bool :=
  match entry.kind with
  | .directory => true
  | .file _ => false

/-- `file_stat`. -/
def TreeEntry.fileStat (entry : TreeEntry) : Option FileStatFingerprint :=
  match entry.kind with
  | .directory => none
  | .file fingerprint => some fingerprint.stat

/-- `stat_and_content_fingerprint`. -/
def statAndContentFingerprint [Xxh3] (stat : FileStatFingerprint) (bytes : Bytes) :
    FileFingerprint :=
  .statAndContent stat (Xxh3.xxh3_64 bytes)

/-! ## Scanning -/

section Scan

variable [Gitignore] (rules : IgnoreRules)

/-- The inner loop of `scan`: the entries of one directory. -/
def readEntries (dir : Option RelativePath) : Nat → Syscalls.Handle σ → List (Option RelativePath) →
    List TreeEntry → Fio σ (Option (List (Option RelativePath) × List TreeEntry))
  | 0, _, _, _ => pure none
  | fuel + 1, readDir, pendingDirs, entries => do
    match ← Effect.call (Syscalls.nextEntry readDir) with
    | .ok none => pure (some (pendingDirs, entries))
    | .error .notFound => pure (some (pendingDirs, entries))
    | .error kind => throw (.io kind)
    | .ok (some (name, readDir)) =>
      let path ← liftM (childPath dir name)
      if isHardIgnored path then readEntries dir fuel readDir pendingDirs entries
      else
        match ← statPath path with
        | none => readEntries dir fuel readDir pendingDirs entries
        | some entry =>
          if rules.isIgnored path entry.isDir then readEntries dir fuel readDir pendingDirs entries
          else
            readEntries dir fuel readDir
              (if entry.isDir then some path :: pendingDirs else pendingDirs) (entries ++ [entry])

/-- The outer loop of `scan`: the directories that are still to be read, the last found first. -/
def walkDirs : Nat → List (Option RelativePath) → List TreeEntry → Fio σ (Option (List TreeEntry))
  | 0, _, _ => pure none
  | _ + 1, [], entries => pure (some entries)
  | fuel + 1, dir :: pendingDirs, entries => do
    match ← Effect.call (Syscalls.readDir dir) with
    | .error .notFound => walkDirs fuel pendingDirs entries
    | .error kind => throw (.io kind)
    | .ok readDir =>
      match ← readEntries rules dir fuel readDir pendingDirs entries with
      | none => pure none
      | some (pendingDirs, entries) => walkDirs fuel pendingDirs entries

/-- What `scan` starts from: the directories to be read, and the entry of the scope itself. -/
def scanStart : ScanScope → Fio σ (List (Option RelativePath) × List TreeEntry)
  | .full => pure ([none], [])
  | .subtree path =>
    if isHardIgnored path then pure ([], [])
    else do
      match ← statPath path with
      | none => pure ([], [])
      | some entry =>
        if rules.isIgnored path entry.isDir then pure ([], [])
        else pure (if entry.isDir then [some path] else [], [entry])
  | .singleFile path =>
    if isHardIgnored path then pure ([], [])
    else do
      match ← statPath path with
      | none => pure ([], [])
      | some entry =>
        if rules.isIgnored path entry.isDir then pure ([], []) else pure ([], [entry])

end Scan

/-- `scan`. -/
def scan [Gitignore] (fuel : Nat) (scope : ScanScope) : Fio σ (Option ScanResult) := do
  let rules ← IgnoreRules.load
  let (pendingDirs, entries) ← scanStart rules scope
  match ← walkDirs rules fuel pendingDirs entries with
  | none => pure none
  | some entries =>
    match Tree.new entries with
    | .ok tree => pure (some ⟨scope, tree⟩)
    | .error message => throw (.bail message)

/-! ## Reading -/

/-- `StableFileRead`. -/
inductive StableFileRead where
  | read (bytes : Bytes) (fingerprint : FileFingerprint)
  | changed (after : Option TreeEntry)
  | notFile (observed : Option TreeEntry)
  deriving DecidableEq

/-- `stable_read_file`. -/
def stableReadFile [Xxh3] (path : RelativePath) : Fio σ StableFileRead := do
  let before ← statPath path
  match before.bind TreeEntry.fileStat with
  | none => pure (.notFile before)
  | some beforeStat =>
    match ← Effect.call (Syscalls.read path) with
    | .error .notFound => return .changed (← statPath path)
    | .error kind => throw (.io kind)
    | .ok bytes =>
      let after ← statPath path
      if after ≠ before then pure (.changed after)
      else pure (.read bytes (statAndContentFingerprint beforeStat bytes))

/-- `guarded_read`. -/
def guardedRead [Xxh3] (path : RelativePath) (expected : FileFingerprint) :
    Fio σ GuardedReadResult := do
  let before ← statPath path
  match before.bind TreeEntry.fileStat with
  | none => pure (.conflictBeforeRead before)
  | some beforeStat =>
    if beforeStat ≠ expected.stat then pure (.conflictBeforeRead before)
    else
      match ← Effect.call (Syscalls.read path) with
      | .error .notFound => return .changedBetweenStats before (← statPath path)
      | .error kind => throw (.io kind)
      | .ok bytes =>
        let after ← statPath path
        if after ≠ before then pure (.changedBetweenStats before after)
        else
          let fingerprint := statAndContentFingerprint beforeStat bytes
          if fingerprint.satisfies expected then pure (.read bytes fingerprint)
          else pure (.conflictBeforeRead (some ⟨path, .file fingerprint⟩))

end Opbox
