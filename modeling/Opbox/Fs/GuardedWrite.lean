import Opbox.Crdt.Snapshots
import Opbox.Foundation.Interference
import Opbox.Fs.LocalFileIO

/-!
# Guarded writes

The projection half of `LocalFileIO` (`fs/fio/local.rs`): a write goes to a file with a random name
beside the target, which is renamed over the target if that is still as expected.  Others may change
the files between any two of its system calls.
-/

namespace Opbox

/-- A world with the calls that change it. -/
class FileCalls (F : Type) extends Syscalls F where
  /-- `create_dir_all`. -/
  createDirAll : Option RelativePath → F → Except IoErrorKind Unit × F
  /-- `write`. -/
  write : RelativePath → Bytes → F → Except IoErrorKind Unit × F
  /-- `rename`. -/
  rename : RelativePath → RelativePath → F → Except IoErrorKind Unit × F
  /-- `remove_file`. -/
  removeFile : RelativePath → F → Except IoErrorKind Unit × F

/-- Fail with the error of a system call. -/
def orThrow {σ α : Type} (result : Except IoErrorKind α) : Fio σ α :=
  match result with
  | .ok a => pure a
  | .error kind => throw (.io kind)

/-- The numbers that a random number is chosen from. -/
instance neZero_random : NeZero (2 ^ 64) := ⟨by decide⟩

/-- The sixteen hexadecimal digits of a random number. -/
def hexDigits (random : Fin (2 ^ 64)) : List Char :=
  (List.range 16).reverse.map fun i => Nat.digitChar (random.val / 16 ^ i % 16)

/-- `temp_path_for`. -/
def tempPathFor (random : Fin (2 ^ 64)) (path : RelativePath) : Except Report RelativePath :=
  match path.withFileName (['.'] ++ path.fileName ++ ".opbox-tmp-".toList ++ hexDigits random) with
  | .ok path => .ok path
  | .error message => .error (.bail message)

/-- `entry_matches_fingerprint`. -/
def TreeEntry.matchesFingerprint (entry : TreeEntry) (expected : FileFingerprint) : Bool :=
  match entry.kind with
  | .file fingerprint => fingerprint.satisfies expected
  | .directory => false

/-- `observed_matches_expected`. -/
def observedMatchesExpected (observed : Option TreeEntry) : ExpectedBefore → Bool
  | .anything => true
  | .missing => observed.isNone
  | .presentWithFingerprint expected => observed.any fun entry => entry.matchesFingerprint expected

section Write

variable {F : Type} [FileCalls F] [Xxh3]

/-- `observe_for_expected`. -/
def observeForExpected (path : RelativePath) : ExpectedBefore → Fio F (Option TreeEntry)
  | .presentWithFingerprint (.statAndContent _ _) => do
    match ← stableReadFile path with
    | .read _ fingerprint => pure (some ⟨path, .file fingerprint⟩)
    | .changed after => pure after
    | .notFile observed => pure observed
  | _ => statPath path

/-- The end of `guarded_write`, after the swap. -/
def observeSwapped (path : RelativePath) (bytes : Bytes) : Fio F GuardedWriteResult := do
  match ← stableReadFile path with
  | .read currentBytes fingerprint =>
    if currentBytes = bytes then pure (.written fingerprint)
    else pure (.conflictAfterSwap (some ⟨path, .file fingerprint⟩))
  | .changed after => pure (.conflictAfterSwap after)
  | .notFile observed => pure (.conflictAfterSwap observed)

/-- The part of `guarded_write` that writes. -/
def swapFile (random : Fin (2 ^ 64)) (path : RelativePath) (bytes : Bytes)
    (expectedBefore : ExpectedBefore) : Fio F GuardedWriteResult := do
  let swapPath ← liftM (tempPathFor random path)
  orThrow (← Effect.call (FileCalls.createDirAll path.parent))
  orThrow (← Effect.call (FileCalls.write swapPath bytes))
  let observed ← observeForExpected path expectedBefore
  if !observedMatchesExpected observed expectedBefore then
    pure (.conflictBeforeSwap swapPath observed)
  else
    match ← Effect.call (FileCalls.rename swapPath path) with
    | .error kind => do
      let _ ← Effect.call (FileCalls.removeFile swapPath)
      throw (.io kind)
    | .ok _ => observeSwapped path bytes

/-- `guarded_write`. -/
def guardedWrite (random : Fin (2 ^ 64)) (path : RelativePath) (bytes : Bytes)
    (expectedBefore : ExpectedBefore) : Fio F GuardedWriteResult := do
  match ← stableReadFile path with
  | .read currentBytes fingerprint =>
    if currentBytes = bytes then pure (.alreadyApplied fingerprint)
    else swapFile random path bytes expectedBefore
  | _ => swapFile random path bytes expectedBefore

end Write

/-! ## Calls under interference -/

/-- A call of the file layer. -/
inductive FileCall where
  | symlinkMetadata (path : RelativePath)
  | readDir (dir : Option RelativePath)
  | nextEntry
  | read (path : RelativePath)
  | pathExists (path : RelativePath)
  | createDirAll (dir : Option RelativePath)
  | write (path : RelativePath) (bytes : Bytes)
  | rename (source target : RelativePath)
  | removeFile (path : RelativePath)

/-- Files that others change between two calls. -/
abbrev Racing (F : Type) := Raced F FileCall

instance {F : Type} [FileCalls F] : FileCalls (Racing F) where
  Handle := Syscalls.Handle F
  symlinkMetadata path := Raced.perform (.symlinkMetadata path) (Syscalls.symlinkMetadata path)
  readDir dir := Raced.perform (.readDir dir) (Syscalls.readDir dir)
  nextEntry handle := Raced.perform .nextEntry (Syscalls.nextEntry handle)
  read path := Raced.perform (.read path) (Syscalls.read path)
  pathExists path := Raced.perform (.pathExists path) (Syscalls.pathExists path)
  createDirAll dir := Raced.perform (.createDirAll dir) (FileCalls.createDirAll dir)
  write path bytes := Raced.perform (.write path bytes) (FileCalls.write path bytes)
  rename source target := Raced.perform (.rename source target) (FileCalls.rename source target)
  removeFile path := Raced.perform (.removeFile path) (FileCalls.removeFile path)

section Files

variable {F : Type} [FileCalls F]

/-- What is at a path, a link not followed: its metadata, and the bytes of a file. -/
def held (path : RelativePath) (files : F) :
    Except IoErrorKind Metadata × Option (Except IoErrorKind Bytes) :=
  let metadata := (Syscalls.symlinkMetadata path files).1
  (metadata, match metadata with
    | .ok (.file _) => some (Syscalls.read path files).1
    | _ => none)

/-- Nothing is at a path. -/
def Unused (path : RelativePath) (files : F) : Prop :=
  (Syscalls.symlinkMetadata path files).1 = .error .notFound

/-- A path beside another one. -/
def Beside (path other : RelativePath) : Prop := other.parent = path.parent ∧ other ≠ path

/-- What the operating system promises about the calls of a guarded write: they change nothing
beside what they name. -/
class LawfulFileCalls (F : Type) [FileCalls F] : Prop where
  /-- Reading changes nothing. -/
  symlinkMetadata_files : ∀ (path : RelativePath) (files : F),
    (Syscalls.symlinkMetadata path files).2 = files
  read_files : ∀ (path : RelativePath) (files : F), (Syscalls.read path files).2 = files
  /-- The directories above a path are made without it. -/
  createDirAll_held : ∀ (path : RelativePath) (files : F),
    held path (FileCalls.createDirAll path.parent files).2 = held path files
  /-- A file that is made is no other file. -/
  write_held : ∀ (path other : RelativePath) (bytes : Bytes) (files : F), Beside path other →
    Unused other files → held path (FileCalls.write other bytes files).2 = held path files
  /-- A rename happens or fails as a whole. -/
  rename_held : ∀ (path other : RelativePath) (kind : IoErrorKind) (files : F),
    (FileCalls.rename other path files).1 = .error kind →
      held path (FileCalls.rename other path files).2 = held path files
  removeFile_held : ∀ (path other : RelativePath) (files : F), Beside path other →
    held path (FileCalls.removeFile other files).2 = held path files

end Files

namespace Occurrence

variable {F : Type} [FileCalls F] (e : Occurrence F FileCall) (path : RelativePath)

/-- A file with this stat was found at the path. -/
def Stats (stat : FileStatFingerprint) : Prop :=
  e.call = .symlinkMetadata path ∧ (Syscalls.symlinkMetadata path e.before).1 = .ok (.file stat)

/-- These bytes were read at the path. -/
def Reads (bytes : Bytes) : Prop :=
  e.call = .read path ∧ (Syscalls.read path e.before).1 = .ok bytes

/-- Another file was renamed over the path. -/
def Swaps : Prop :=
  ∃ source, e.call = .rename source path ∧ (FileCalls.rename source path e.before).1 = .ok ()

/-- If it writes, it writes where nothing was. -/
def WritesUnused : Prop := ∀ other bytes, e.call = .write other bytes → Unused other e.before

/-- It only looks. -/
def Looks : Prop := ∃ seen, e.call = .symlinkMetadata seen ∨ e.call = .read seen

/-- It is a call that a guarded write of the path makes, with the world that it left. -/
inductive ByWrite : Occurrence F FileCall → Prop where
  | symlinkMetadata (seen : RelativePath) (files : F) :
    ByWrite ⟨.symlinkMetadata seen, files, (Syscalls.symlinkMetadata seen files).2⟩
  | read (seen : RelativePath) (files : F) : ByWrite ⟨.read seen, files, (Syscalls.read seen files).2⟩
  | createDirAll (files : F) :
    ByWrite ⟨.createDirAll path.parent, files, (FileCalls.createDirAll path.parent files).2⟩
  | write (other : RelativePath) (bytes : Bytes) (files : F) (h : Beside path other) :
    ByWrite ⟨.write other bytes, files, (FileCalls.write other bytes files).2⟩
  | rename (other : RelativePath) (files : F) (h : Beside path other) :
    ByWrite ⟨.rename other path, files, (FileCalls.rename other path files).2⟩
  | removeFile (other : RelativePath) (files : F) (h : Beside path other) :
    ByWrite ⟨.removeFile other, files, (FileCalls.removeFile other files).2⟩

variable {e path}

/-- Without a swap a guarded write leaves its target alone. -/
theorem ByWrite.held [LawfulFileCalls F] (h : ByWrite path e) (hswap : ¬e.Swaps path)
    (hunused : e.WritesUnused) : held path e.after = held path e.before := by
  cases h with
  | symlinkMetadata seen files => exact congrArg _ (LawfulFileCalls.symlinkMetadata_files seen files)
  | read seen files => exact congrArg _ (LawfulFileCalls.read_files seen files)
  | createDirAll files => exact LawfulFileCalls.createDirAll_held path files
  | write other bytes files hbeside =>
    exact LawfulFileCalls.write_held path other bytes files hbeside (hunused other bytes rfl)
  | rename other files hbeside =>
    cases hend : (FileCalls.rename other path files).1 with
    | ok u => exact absurd ⟨other, rfl, hend⟩ hswap
    | error kind => exact LawfulFileCalls.rename_held path other kind files hend
  | removeFile other files hbeside => exact LawfulFileCalls.removeFile_held path other files hbeside

theorem Looks.not_swaps (h : e.Looks) : ¬e.Swaps path := by
  rintro ⟨source, hcall, -⟩
  obtain ⟨seen, hseen | hseen⟩ := h
  · rw [hseen] at hcall; cases hcall
  · rw [hseen] at hcall; cases hcall

end Occurrence

/-- The target was seen as a file of this stat before and after these bytes were read from it. -/
def ObservedAs [Xxh3] {F : Type} [FileCalls F] (path : RelativePath) (bytes : Bytes)
    (fingerprint : FileFingerprint) (log : List (Occurrence F FileCall)) : Prop :=
  ∃ before first reading second after stat, log = before ++ [first, reading, second] ++ after ∧
    first.Stats path stat ∧ reading.Reads path bytes ∧ second.Stats path stat ∧
    fingerprint = statAndContentFingerprint stat bytes

/-! ## The swap path -/

section SwapPath

variable {random : Fin (2 ^ 64)} {path swapPath : RelativePath}

/-- The components of the swap path. -/
theorem components_of_tempPathFor (h : tempPathFor random path = .ok swapPath) :
    swapPath.components = path.components.dropLast ++
      [['.'] ++ path.fileName ++ ".opbox-tmp-".toList ++ hexDigits random] := by
  unfold tempPathFor RelativePath.withFileName at h
  split at h
  next found hfound =>
    split at hfound
    · cases hfound
    · cases hfound
      cases h
      rfl
  · cases h

/-- The swap file lies beside the target. -/
theorem beside_of_tempPathFor (h : tempPathFor random path = .ok swapPath) :
    Beside path swapPath := by
  have hcomponents := components_of_tempPathFor h
  constructor
  · simp only [RelativePath.parent, hcomponents, List.dropLast_concat]
  · rintro rfl
    have hlast := congrArg List.getLast? hcomponents
    rw [List.getLast?_concat, List.getLast?_eq_some_getLast swapPath.nonempty] at hlast
    have hlength := congrArg List.length (Option.some.inj hlast)
    have hname : swapPath.fileName = swapPath.components.getLast swapPath.nonempty := rfl
    rw [hname] at hlength
    simp only [List.length_append, List.length_singleton] at hlength
    omega

/-- No scan reports the swap file. -/
theorem isHardIgnored_of_tempPathFor (h : tempPathFor random path = .ok swapPath) :
    isHardIgnored swapPath = true := by
  refine List.any_eq_true.mpr ⟨_, components_of_tempPathFor h ▸
    List.mem_append_right _ List.mem_cons_self, ?_⟩
  have htemp : isProjectionTempComponent
      (['.'] ++ path.fileName ++ ".opbox-tmp-".toList ++ hexDigits random) = true := by
    exact isProjectionTempComponent_iff.mpr ⟨rfl, ['.'] ++ path.fileName, hexDigits random, rfl⟩
  rw [isHardIgnoredComponent, htemp, Bool.or_true]

end SwapPath

/-! ## The parts of a guarded write -/

section Parts

variable {F : Type} [FileCalls F] {β : Type}

section Calls

variable {Q : Except Report β → List (Occurrence F FileCall) → Prop}

omit [FileCalls F] in
theorem ends_orThrow {result : Except IoErrorKind Unit} {g : Unit → Fio (Racing F) β}
    (hok : (g ()).Ends Q) (herror : ∀ kind, Q (.error (.io kind)) []) :
    (orThrow result >>= g).Ends Q := by
  cases result with
  | ok u => exact hok
  | error kind => exact Effect.ends_throw (herror kind)

end Calls

/-- `stat_path` is one look at the path. -/
theorem statPath_ends_racing (path : RelativePath) :
    (statPath path : Fio (Racing F) _).Ends fun r log => ∃ files,
      log = [⟨.symlinkMetadata path, files, (Syscalls.symlinkMetadata path files).2⟩] ∧
      ∀ stat, r.toOption.bind (fun entry => entry.bind TreeEntry.fileStat) = some stat →
        (Syscalls.symlinkMetadata path files).1 = .ok (.file stat) ∧
          r = .ok (some ⟨path, .file (.statOnly stat)⟩) := by
  refine Effect.ends_perform fun files => ?_
  cases hmeta : (Syscalls.symlinkMetadata path files).1 with
  | error kind =>
    cases kind with
    | notFound => exact Effect.ends_pure ⟨files, rfl, nofun⟩
    | _ => exact Effect.ends_throw ⟨files, rfl, nofun⟩
  | ok metadata =>
    refine Effect.ends_pure ⟨files, rfl, fun stat hstat => ?_⟩
    cases metadata with
    | file found => cases hstat; exact ⟨hmeta, rfl⟩
    | directory => cases hstat
    | other => cases hstat

/-- The calls only look, as a guarded write of the path may. -/
def Looking (path : RelativePath) (log : List (Occurrence F FileCall)) : Prop :=
  ∀ e ∈ log, e.ByWrite path ∧ e.Looks

theorem looking_statPath (path seen : RelativePath) (files : F) :
    Looking path [⟨.symlinkMetadata seen, files, (Syscalls.symlinkMetadata seen files).2⟩] := by
  rintro e he
  cases List.mem_singleton.mp he
  exact ⟨.symlinkMetadata seen files, seen, .inl rfl⟩

theorem Looking.append {path : RelativePath} {log log' : List (Occurrence F FileCall)}
    (h : Looking path log) (h' : Looking path log') : Looking path (log ++ log') :=
  fun e he => (List.mem_append.mp he).elim (h e) (h' e)

theorem statPath_looks (path seen : RelativePath) :
    (statPath seen : Fio (Racing F) _).Ends fun _ log => Looking path log := by
  refine (statPath_ends_racing seen).weaken ?_
  rintro r log ⟨files, rfl, -⟩
  exact looking_statPath path seen files

/-- `stable_read_file` only looks, and what it has read was there between two looks. -/
theorem stableReadFile_ends [Xxh3] (path : RelativePath) :
    (stableReadFile path : Fio (Racing F) _).Ends fun r log => Looking path log ∧
      ∀ bytes f, r = .ok (.read bytes f) → ObservedAs path bytes f log := by
  refine (statPath_ends_racing path).bind ?_ ?_
  · rintro found log ⟨before, rfl, hfound⟩
    have hlook := looking_statPath path path before
    cases hstat : found.bind TreeEntry.fileStat with
    | none => exact Effect.ends_pure ⟨hlook, nofun⟩
    | some stat =>
      obtain ⟨hbefore, hentry⟩ := hfound stat hstat
      cases hentry
      refine Effect.ends_perform fun reading => ?_
      have hread : Looking path [⟨.symlinkMetadata path, before, (Syscalls.symlinkMetadata path before).2⟩,
          ⟨.read path, reading, (Syscalls.read path reading).2⟩] := by
        refine hlook.append fun e he => ?_
        cases List.mem_singleton.mp he
        exact ⟨.read path reading, path, .inr rfl⟩
      cases hbytes : (Syscalls.read path reading).1 with
      | error kind =>
        cases kind with
        | notFound =>
          refine (statPath_looks path path).bind ?_ ?_
          · exact fun after log hlog => Effect.ends_pure ⟨hread.append (by simpa using hlog), nofun⟩
          · exact fun e log hlog => ⟨hread.append hlog, nofun⟩
        | _ => exact Effect.ends_throw ⟨hread, nofun⟩
      | ok bytes =>
        refine (statPath_ends_racing path).bind ?_ ?_
        · rintro found log ⟨after, rfl, hfound⟩
          have hall := hread.append (looking_statPath path path after)
          by_cases hsame : found = some ⟨path, .file (.statOnly stat)⟩
          · subst hsame
            obtain ⟨hafter, -⟩ := hfound stat rfl
            rw [if_neg (not_not.mpr rfl)]
            refine Effect.ends_pure ⟨hall, fun bytes' f hend => ?_⟩
            cases hend
            exact ⟨[], _, _, _, [], stat, rfl, ⟨rfl, hbefore⟩, ⟨rfl, hbytes⟩, ⟨rfl, hafter⟩, rfl⟩
          · rw [if_pos hsame]
            exact Effect.ends_pure ⟨hall, nofun⟩
        · rintro e log ⟨after, rfl, -⟩
          exact ⟨hread.append (looking_statPath path path after), nofun⟩
  · rintro e log ⟨before, rfl, -⟩
    exact ⟨looking_statPath path path before, nofun⟩

theorem observeForExpected_looks [Xxh3] (path : RelativePath) (expected : ExpectedBefore) :
    (observeForExpected path expected : Fio (Racing F) _).Ends fun _ log => Looking path log := by
  have hread : (do
      match ← stableReadFile path with
      | .read _ fingerprint => pure (some ⟨path, .file fingerprint⟩)
      | .changed after => pure after
      | .notFile observed => pure observed : Fio (Racing F) (Option TreeEntry)).Ends
        fun _ log => Looking path log := by
    refine (stableReadFile_ends path).bind (fun found log hlog => ?_) fun _ log hlog => hlog.1
    rw [← List.append_nil log] at hlog
    cases found with
    | read bytes fingerprint => exact Effect.ends_pure hlog.1
    | changed after => exact Effect.ends_pure hlog.1
    | notFile observed => exact Effect.ends_pure hlog.1
  unfold observeForExpected
  split
  · exact hread
  · exact statPath_looks path path

/-- How a guarded write may end, and what its calls were then. -/
structure WriteReported [Xxh3] (path : RelativePath) (bytes : Bytes)
    (r : Except Report GuardedWriteResult) (log : List (Occurrence F FileCall)) : Prop where
  /-- Every call is one of a guarded write. -/
  byWrite : ∀ e ∈ log, e.ByWrite path
  /-- The target was seen with the bytes, and not swapped. -/
  alreadyApplied : ∀ f, r = .ok (.alreadyApplied f) →
    (∀ e ∈ log, ¬e.Swaps path) ∧ ObservedAs path bytes f log
  conflictBeforeSwap : ∀ swapPath observed, r = .ok (.conflictBeforeSwap swapPath observed) →
    ∀ e ∈ log, ¬e.Swaps path
  /-- The target was swapped once, and seen with the bytes after that. -/
  written : ∀ f, r = .ok (.written f) → ∃ before swap after, log = before ++ swap :: after ∧
    swap.Swaps path ∧ (∀ e ∈ before ++ after, ¬e.Swaps path) ∧ ObservedAs path bytes f after
  conflict : ∀ observed, r ≠ .ok (.conflict observed)

variable [Xxh3] {path : RelativePath} {bytes : Bytes} {log : List (Occurrence F FileCall)}

/-- A write that fails or gives up before the swap. -/
theorem WriteReported.unswapped {r : Except Report GuardedWriteResult}
    (hwrite : ∀ e ∈ log, e.ByWrite path ∧ ¬e.Swaps path)
    (hend : (∃ e, r = .error e) ∨ ∃ swapPath observed, r = .ok (.conflictBeforeSwap swapPath observed)) :
    WriteReported path bytes r log where
  byWrite e he := (hwrite e he).1
  alreadyApplied f hf := by
    obtain ⟨e, rfl⟩ | ⟨swapPath, observed, rfl⟩ := hend
    · cases hf
    · cases hf
  conflictBeforeSwap _ _ _ e he := (hwrite e he).2
  written f hf := by
    obtain ⟨e, rfl⟩ | ⟨swapPath, observed, rfl⟩ := hend
    · cases hf
    · cases hf
  conflict observed hf := by
    obtain ⟨e, rfl⟩ | ⟨swapPath, observed, rfl⟩ := hend
    · cases hf
    · cases hf

/-- The calls after a swap only look, and `Written` is what they saw. -/
theorem observeSwapped_ends {swap : Occurrence F FileCall} (hswap : swap.ByWrite path)
    (hswaps : swap.Swaps path) (hbefore : ∀ e ∈ log, e.ByWrite path ∧ ¬e.Swaps path) :
    (observeSwapped path bytes : Fio (Racing F) _).Ends fun r more =>
      WriteReported path bytes r (log ++ swap :: more) := by
  have hreport : ∀ (r : Except Report GuardedWriteResult) (more : List (Occurrence F FileCall)),
      Looking path more →
      ((∃ e, r = .error e) ∨ (∃ observed, r = .ok (.conflictAfterSwap observed)) ∨
        ∃ f, r = .ok (.written f) ∧ ObservedAs path bytes f more) →
      WriteReported path bytes r (log ++ swap :: more) := by
    intro r more hlook hend
    refine ⟨fun e he => ?_, fun f hf => ?_, fun _ _ hf => ?_, fun f hf => ?_, fun _ hf => ?_⟩
    · rcases List.mem_append.mp he with he | he
      · exact (hbefore e he).1
      · rcases List.mem_cons.mp he with rfl | he
        · exact hswap
        · exact (hlook e he).1
    · obtain ⟨e, rfl⟩ | ⟨observed, rfl⟩ | ⟨f', rfl, -⟩ := hend <;> cases hf
    · obtain ⟨e, rfl⟩ | ⟨observed, rfl⟩ | ⟨f', rfl, -⟩ := hend <;> cases hf
    · obtain ⟨e, rfl⟩ | ⟨observed, rfl⟩ | ⟨f', rfl, hobserved⟩ := hend
      · cases hf
      · cases hf
      · cases hf
        refine ⟨log, swap, more, rfl, hswaps, fun e he => ?_, hobserved⟩
        rcases List.mem_append.mp he with he | he
        · exact (hbefore e he).2
        · exact (hlook e he).2.not_swaps
    · obtain ⟨e, rfl⟩ | ⟨observed, rfl⟩ | ⟨f', rfl, -⟩ := hend <;> cases hf
  refine (stableReadFile_ends path).bind ?_ ?_
  · rintro found more ⟨hlook, hread⟩
    rw [← List.append_nil more] at hlook
    cases found with
    | read current f =>
      dsimp only
      split_ifs with hsame
      · refine Effect.ends_pure (hreport _ _ hlook (.inr (.inr ⟨f, rfl, ?_⟩)))
        rw [List.append_nil]
        exact hread bytes f (by rw [hsame])
      · exact Effect.ends_pure (hreport _ _ hlook (.inr (.inl ⟨_, rfl⟩)))
    | changed after => exact Effect.ends_pure (hreport _ _ hlook (.inr (.inl ⟨_, rfl⟩)))
    | notFile observed => exact Effect.ends_pure (hreport _ _ hlook (.inr (.inl ⟨_, rfl⟩)))
  · rintro e more ⟨hlook, -⟩
    exact hreport _ _ hlook (.inl ⟨e, rfl⟩)

/-- After the calls of a log, the rest of a write ends as reported. -/
def Reports (path : RelativePath) (bytes : Bytes) (log : List (Occurrence F FileCall))
    (m : Fio (Racing F) GuardedWriteResult) : Prop :=
  m.Ends fun r more => WriteReported path bytes r (log ++ more)

/-- The calls of a guarded write up to the swap. -/
def Unswapped (path : RelativePath) (log : List (Occurrence F FileCall)) : Prop :=
  ∀ e ∈ log, e.ByWrite path ∧ ¬e.Swaps path

omit [Xxh3] in
theorem Looking.unswapped (h : Looking path log) : Unswapped path log :=
  fun e he => ⟨(h e he).1, (h e he).2.not_swaps⟩

omit [Xxh3] in
theorem Unswapped.append {log' : List (Occurrence F FileCall)} (h : Unswapped path log)
    (h' : Unswapped path log') : Unswapped path (log ++ log') :=
  fun e he => (List.mem_append.mp he).elim (h e) (h' e)

omit [Xxh3] in
/-- One more call that does not swap. -/
theorem Unswapped.concat {e : Occurrence F FileCall} (h : Unswapped path log) (he : e.ByWrite path)
    (hswap : ¬e.Swaps path) : Unswapped path (log ++ [e]) :=
  h.append fun e' he' => by cases List.mem_singleton.mp he'; exact ⟨he, hswap⟩

theorem Unswapped.throw (h : Unswapped path log) (e : Report) :
    Reports path bytes log (throw e : Fio (Racing F) GuardedWriteResult) := by
  rw [← List.append_nil log] at h
  exact Effect.ends_throw (.unswapped h (.inl ⟨e, rfl⟩))

/-- A check that fails ends the write. -/
theorem Reports.lift {α : Type} {result : Except Report α}
    {g : α → Fio (Racing F) GuardedWriteResult} (hlog : Unswapped path log)
    (h : ∀ a, result = .ok a → Reports path bytes log (g a)) :
    Reports path bytes log (liftM result >>= g) := by
  cases result with
  | ok a => exact h a rfl
  | error e => exact hlog.throw e

/-- The next call joins the log. -/
theorem Reports.perform {call : FileCall} {f : F → β × F} {g : β → Fio (Racing F) GuardedWriteResult}
    (h : ∀ before, Reports path bytes (log ++ [⟨call, before, (f before).2⟩]) (g (f before).1)) :
    Reports path bytes log (Effect.call (Raced.perform call f) >>= g) := by
  refine Effect.ends_perform fun before => (h before).weaken fun r more hend => ?_
  rwa [List.append_assoc] at hend

/-- An answer that is an error ends the write. -/
theorem Reports.orThrow {result : Except IoErrorKind Unit}
    {g : Unit → Fio (Racing F) GuardedWriteResult} (hlog : Unswapped path log)
    (h : Reports path bytes log (g ())) : Reports path bytes log (orThrow result >>= g) := by
  cases result with
  | ok u => exact h
  | error kind => exact hlog.throw (.io kind)

/-- A computation that only looks goes before the rest. -/
theorem Reports.look {m : Fio (Racing F) β} {g : β → Fio (Racing F) GuardedWriteResult}
    (hm : m.Ends fun _ seen => Looking path seen) (hlog : Unswapped path log)
    (h : ∀ a seen, Looking path seen → Reports path bytes (log ++ seen) (g a)) :
    Reports path bytes log (m >>= g) := by
  refine hm.bind (fun a seen hseen => (h a seen hseen).weaken fun r more hend => ?_) ?_
  · rwa [List.append_assoc] at hend
  · exact fun e seen hseen => .unswapped (hlog.append hseen.unswapped) (.inl ⟨e, rfl⟩)

theorem swapFile_reports (random : Fin (2 ^ 64)) (expectedBefore : ExpectedBefore)
    (hlog : Unswapped path log) :
    Reports path bytes log (swapFile random path bytes expectedBefore : Fio (Racing F) _) := by
  refine Reports.lift hlog fun swapPath htemp => ?_
  have hbeside := beside_of_tempPathFor htemp
  refine Reports.perform fun made => ?_
  have hmade := hlog.concat (.createDirAll made) nofun
  refine Reports.orThrow hmade (Reports.perform fun wrote => ?_)
  have hwrote := hmade.concat (.write swapPath bytes wrote hbeside) nofun
  refine Reports.orThrow hwrote ?_
  refine Reports.look (observeForExpected_looks path expectedBefore) hwrote fun observed seen hseen => ?_
  have hseen := hwrote.append hseen.unswapped
  split_ifs with hmatch
  · rw [← List.append_nil (_ ++ seen)] at hseen
    exact Effect.ends_pure (.unswapped hseen (.inr ⟨swapPath, observed, rfl⟩))
  · refine Reports.perform fun renamed => ?_
    cases hrename : (FileCalls.rename swapPath path renamed).1 with
    | error kind =>
      have hrenamed := hseen.concat (.rename swapPath renamed hbeside) fun ⟨source, hcall, hok⟩ => by
        cases hcall
        rw [hrename] at hok
        cases hok
      refine Reports.perform fun removed => ?_
      exact (hrenamed.concat (.removeFile swapPath removed hbeside) nofun).throw _
    | ok u =>
      refine (observeSwapped_ends (.rename swapPath renamed hbeside) ⟨swapPath, rfl, hrename⟩ hseen).weaken
        fun r more hend => ?_
      rwa [List.append_assoc, List.singleton_append]

theorem guardedWrite_reports (random : Fin (2 ^ 64)) (path : RelativePath) (bytes : Bytes)
    (expectedBefore : ExpectedBefore) :
    Reports path bytes [] (guardedWrite random path bytes expectedBefore : Fio (Racing F) _) := by
  refine (stableReadFile_ends path).bind ?_ ?_
  · rintro found log ⟨hlook, hread⟩
    have hswap : Reports path bytes log (swapFile random path bytes expectedBefore : Fio (Racing F) _) :=
      swapFile_reports random expectedBefore hlook.unswapped
    cases found with
    | read current f =>
      dsimp only
      split_ifs with hsame
      · refine Effect.ends_pure ⟨fun e he => ?_, fun f' hf => ?_, nofun, nofun, nofun⟩
        · exact (hlook e (by simpa using he)).1
        · cases hf
          rw [List.append_nil, List.nil_append]
          exact ⟨fun e he => (hlook e he).2.not_swaps, hread bytes f (by rw [hsame])⟩
      · exact hswap
    | changed after => exact hswap
    | notFile observed => exact hswap
  · rintro e log ⟨hlook, -⟩
    exact .unswapped hlook.unswapped (.inl ⟨e, rfl⟩)

omit [Xxh3] in
/-- The calls after a swap are those after the only swap of a log. -/
theorem eq_of_swap {before after before' after' : List (Occurrence F FileCall)}
    {swap swap' : Occurrence F FileCall} (h : before ++ swap :: after = before' ++ swap' :: after')
    (hswap : swap.Swaps path) (honly : ∀ e ∈ before' ++ after', ¬e.Swaps path) : after = after' := by
  rcases List.append_eq_append_iff.mp h with ⟨more, hbefore, hrest⟩ | ⟨more, hbefore, hrest⟩
  · cases more with
    | nil => exact (List.cons.inj hrest).2
    | cons e more =>
      -- The swap would be one of the calls before the only swap.
      refine absurd hswap (honly swap (List.mem_append_left _ ?_))
      rw [hbefore, (List.cons.inj hrest).1]
      exact List.mem_append_right _ List.mem_cons_self
  · cases more with
    | nil => exact (List.cons.inj hrest).2.symm
    | cons e more =>
      refine absurd hswap (honly swap (List.mem_append_right _ ?_))
      rw [(List.cons.inj hrest).2]
      exact List.mem_append_right _ List.mem_cons_self

/-- A guarded write tells the truth, whatever others do between its calls.  Without a swap it has
left the target alone; `Written` and `AlreadyApplied` come with a fingerprint that was observed, after
the swap or without one; and a swap that was not observed so is reported as a conflict or an error. -/
theorem guarded_write_truthful [LawfulFileCalls F] (random : Fin (2 ^ 64)) (path : RelativePath)
    (bytes : Bytes) (expectedBefore : ExpectedBefore) :
    (guardedWrite random path bytes expectedBefore : Fio (Racing F) _).Ends fun r log =>
      ((∀ e ∈ log, ¬e.Swaps path) → (∀ e ∈ log, e.WritesUnused) →
        ∀ e ∈ log, held path e.after = held path e.before) ∧
      (∀ f, r = .ok (.alreadyApplied f) →
        (∀ e ∈ log, ¬e.Swaps path) ∧ ObservedAs path bytes f log) ∧
      (∀ swapPath observed, r = .ok (.conflictBeforeSwap swapPath observed) →
        ∀ e ∈ log, ¬e.Swaps path) ∧
      (∀ f, r = .ok (.written f) → ∃ before swap after, log = before ++ swap :: after ∧
        swap.Swaps path ∧ ObservedAs path bytes f after) ∧
      ∀ before swap after, log = before ++ swap :: after → swap.Swaps path →
        (¬∃ f, ObservedAs path bytes f after) →
        (∃ observed, r = .ok (.conflictAfterSwap observed)) ∨ ∃ e, r = .error e := by
  refine (guardedWrite_reports random path bytes expectedBefore).weaken fun r log h => ?_
  rw [List.nil_append] at h
  refine ⟨fun hswap hunused e he => (h.byWrite e he).held (hswap e he) (hunused e he),
    h.alreadyApplied, h.conflictBeforeSwap, ?_, ?_⟩
  · intro f hf
    obtain ⟨before, swap, after, hlog, hswap, -, hobserved⟩ := h.written f hf
    exact ⟨before, swap, after, hlog, hswap, hobserved⟩
  · intro before swap after hlog hswap hnot
    have hmem : swap ∈ log := hlog ▸ List.mem_append_right _ List.mem_cons_self
    cases r with
    | error e => exact .inr ⟨e, rfl⟩
    | ok result =>
      cases result with
      | conflictAfterSwap observed => exact .inl ⟨observed, rfl⟩
      | alreadyApplied f => exact absurd hswap ((h.alreadyApplied f rfl).1 swap hmem)
      | conflictBeforeSwap swapPath observed =>
        exact absurd hswap (h.conflictBeforeSwap swapPath observed rfl swap hmem)
      | written f =>
        obtain ⟨before', swap', after', hlog', -, honly, hobserved⟩ := h.written f rfl
        rw [← eq_of_swap (hlog.symm.trans hlog') hswap honly] at hobserved
        exact absurd ⟨f, hobserved⟩ hnot
      | conflict observed => exact absurd rfl (h.conflict observed)

end Parts

/-- The files of one directory, and the time that the next write is stamped with. -/
structure Folder where
  /-- The files by their paths. -/
  files : RelativePath → Option (FileStatFingerprint × Bytes)
  /-- The time. -/
  clock : Nat

namespace Folder

/-- Change what is at a path. -/
def update (folder : Folder) (path : RelativePath) (file : Option (FileStatFingerprint × Bytes)) :
    Folder :=
  { folder with files := fun other => if other = path then file else folder.files other }

theorem files_update (folder : Folder) (path other : RelativePath)
    (file : Option (FileStatFingerprint × Bytes)) :
    (folder.update path file).files other = if other = path then file else folder.files other := rfl

instance : FileCalls Folder where
  Handle := Unit
  symlinkMetadata path folder :=
    (match folder.files path with
      | some file => .ok (.file file.1)
      | none => .error .notFound, folder)
  readDir _ folder := (.ok (), folder)
  nextEntry _ folder := (.ok none, folder)
  read path folder :=
    (match folder.files path with
      | some file => .ok file.2
      | none => .error .notFound, folder)
  pathExists path folder := ((folder.files path).isSome, folder)
  createDirAll _ folder := (.ok (), folder)
  write path bytes folder :=
    (.ok (), { folder.update path (some (⟨⟨0, folder.clock⟩, bytes.length, folder.clock⟩, bytes)) with
      clock := folder.clock + 1 })
  rename source target folder :=
    match folder.files source with
    | some file => (.ok (), (folder.update source none).update target (some file))
    | none => (.error .notFound, folder)
  removeFile path folder :=
    match folder.files path with
    | some _ => (.ok (), folder.update path none)
    | none => (.error .notFound, folder)

/-- What a path holds depends on what the folder has there. -/
theorem held_congr {folder folder' : Folder} {path : RelativePath}
    (h : folder'.files path = folder.files path) : held path folder' = held path folder := by
  have hmeta : (Syscalls.symlinkMetadata path folder').1 =
      (Syscalls.symlinkMetadata path folder).1 := by
    change (match folder'.files path with | some file => _ | none => _) = _
    rw [h]
    rfl
  have hread : (Syscalls.read path folder').1 = (Syscalls.read path folder).1 := by
    change (match folder'.files path with | some file => _ | none => _) = _
    rw [h]
    rfl
  rw [held, held, hmeta, hread]

instance : LawfulFileCalls Folder where
  symlinkMetadata_files _ _ := rfl
  read_files _ _ := rfl
  createDirAll_held _ _ := rfl
  write_held path other bytes folder hbeside _ := by
    refine held_congr ?_
    exact if_neg hbeside.2.symm
  rename_held path other kind folder h := by
    have hcall : FileCalls.rename other path folder = match folder.files other with
      | some file => (.ok (), (folder.update other none).update path (some file))
      | none => (.error .notFound, folder) := rfl
    rw [hcall] at h ⊢
    cases hfile : folder.files other with
    | none => rfl
    | some file => rw [hfile] at h; cases h
  removeFile_held path other folder hbeside := by
    have hcall : FileCalls.removeFile other folder = match folder.files other with
      | some _ => (.ok (), folder.update other none)
      | none => (.error .notFound, folder) := rfl
    rw [hcall]
    cases folder.files other with
    | none => rfl
    | some file => exact held_congr (if_neg hbeside.2.symm)

end Folder

open Snapshots

/-- A folder with one file, which somebody deletes right before the swap. -/
def deletedRun : Racing Folder :=
  ⟨(⟨fun path => if path = rootFile 1 then some (fileStat 1 1 0, [7]) else none, 5⟩,
    [id, id, id, id, id, id, fun folder => folder.update (rootFile 1) none]), []⟩

/-- The guarded write of one byte. -/
def writeOne : Fio (Racing Folder) GuardedWriteResult :=
  guardedWrite 0 (rootFile 1) [8] .anything

/-- `guarded_write_truthful` for a file that is deleted right before the swap. -/
theorem guarded_write_truthful_deletedRun : ∃ f before swap after,
    (writeOne.exec deletedRun).1 = .ok (.written f) ∧
      (writeOne.exec deletedRun).2.answers = before ++ swap :: after ∧
      swap.Swaps (rootFile 1) ∧ ObservedAs (rootFile 1) [8] f after := by
  obtain ⟨log, hlog, -, -, -, hwritten, -⟩ :=
    guarded_write_truthful (F := Folder) 0 (rootFile 1) [8] .anything deletedRun
  have hend : (match (writeOne.exec deletedRun).1 with
    | .ok (.written _) => true
    | _ => false) = true := by decide +kernel
  split at hend
  next f hf =>
    obtain ⟨before, swap, after, rfl, hswap, hobserved⟩ := hwritten f hf
    exact ⟨f, before, swap, after, hf, hlog, hswap, hobserved⟩
  · cases hend

end Opbox
