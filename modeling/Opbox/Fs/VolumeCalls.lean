import Opbox.Fs.Volume

/-!
# Guarded calls on a plain volume

While nobody else changes the files, what a guarded call does depends on the file and the directory at
its path alone, unless a file lies where the path needs a directory.
-/

namespace Opbox

variable [Xxh3]

/-- The file at a path meets the precondition. -/
def ExpectedBefore.meets (file : Option (FileStatFingerprint × Bytes)) : ExpectedBefore → Bool
  | anything => true
  | missing => file.isNone
  | presentWithFingerprint expected =>
    file.any fun f => (statAndContentFingerprint f.1 f.2).satisfies expected

/-- The fingerprint of a write that landed. -/
def GuardedWriteResult.landed : GuardedWriteResult → Option FileFingerprint
  | written fingerprint => some fingerprint
  | alreadyApplied fingerprint => some fingerprint
  | _ => none

/-- What a look at a path finds. -/
def Disk.entryAt (disk : Disk) (path : RelativePath) : Option TreeEntry :=
  match disk.fileAt path with
  | some file => some ⟨path, .file (.statOnly file.1)⟩
  | none => if disk.dirAt path then some ⟨path, .directory⟩ else none

/-- The files that were there are as they were. -/
def Disk.KeepsFiles (disk disk' : Disk) : Prop :=
  ∀ path file, disk.fileAt path = some file → disk'.fileAt path = some file

namespace Volume

variable {volume : Volume} {path : RelativePath}

/-! ## Looking -/

omit [Xxh3] in
theorem exec_statPath (hplain : volume.disk.Plain) (hblocked : ¬volume.disk.Blocked path) :
    (statPath path : Fio Volume _).exec volume = (.ok (volume.disk.entryAt path), volume) := by
  have hcall : (Syscalls.symlinkMetadata path volume : _ × Volume) =
      (volume.disk.metadata path, volume) := rfl
  rw [statPath, Effect.exec_bind, Effect.exec_call, hcall, Disk.entryAt]
  cases hfile : volume.disk.fileAt path with
  | some file =>
    rw [hplain.metadata_of_file hfile]
    rfl
  | none =>
    cases hdir : volume.disk.dirAt path with
    | true =>
      rw [hplain.metadata_of_dir hdir]
      rfl
    | false =>
      rw [hplain.metadata_of_missing hblocked hfile hdir]
      rfl

omit [Xxh3] in
theorem exec_statPath_blocked (hplain : volume.disk.Plain) (hblocked : volume.disk.Blocked path) :
    (statPath path : Fio Volume _).exec volume = (.error (.io .notADirectory), volume) := by
  have hcall : (Syscalls.symlinkMetadata path volume : _ × Volume) =
      (volume.disk.metadata path, volume) := rfl
  rw [statPath, Effect.exec_bind, Effect.exec_call, hcall, hplain.metadata_of_blocked hblocked]
  rfl

/-- A file is read with its stat. -/
theorem exec_stableReadFile_of_file (hplain : volume.disk.Plain)
    {file : FileStatFingerprint × Bytes} (hfile : volume.disk.fileAt path = some file) :
    (stableReadFile path : Fio Volume _).exec volume =
      (.ok (.read file.2 (statAndContentFingerprint file.1 file.2)), volume) := by
  have hsome : volume.disk.fileAt path ≠ none := by
    rw [hfile]
    exact Option.some_ne_none _
  have hblocked := hplain.not_blocked_of_inDir
    (hplain.inDir_of_node (hplain.node?_ne_none_of_fileAt hsome))
  have hstat := exec_statPath hplain hblocked
  have hentry : volume.disk.entryAt path = some ⟨path, .file (.statOnly file.1)⟩ := by
    rw [Disk.entryAt, hfile]
  have hread : (Syscalls.read path volume : _ × Volume) = (.ok file.2, volume) := by
    rw [← hplain.readFile_of_file hfile]
    rfl
  rw [hentry] at hstat
  rw [stableReadFile, Effect.exec_bind_ok hstat]
  simp only [Option.bind_some, TreeEntry.fileStat, FileFingerprint.stat_statOnly]
  rw [Effect.exec_bind, Effect.exec_call, hread]
  simp only
  rw [Effect.exec_bind_ok hstat, if_neg (not_not_intro rfl)]
  rfl

/-- Where no file is, none is read. -/
theorem exec_stableReadFile_of_none (hplain : volume.disk.Plain)
    (hblocked : ¬volume.disk.Blocked path) (hfile : volume.disk.fileAt path = none) :
    (stableReadFile path : Fio Volume _).exec volume =
      (.ok (.notFile (volume.disk.entryAt path)), volume) := by
  rw [stableReadFile, Effect.exec_bind_ok (exec_statPath hplain hblocked)]
  have hstat : (volume.disk.entryAt path).bind TreeEntry.fileStat = none := by
    rw [Disk.entryAt, hfile]
    dsimp only
    split_ifs
    · rfl
    · rfl
  rw [hstat]
  rfl

/-- What is observed meets the precondition if the file at the path does and no directory is there. -/
theorem exec_observeForExpected (hplain : volume.disk.Plain) (hblocked : ¬volume.disk.Blocked path)
    (expected : ExpectedBefore) : ∃ observed,
      (observeForExpected path expected : Fio Volume _).exec volume = (.ok observed, volume) ∧
      (observed.isNone = true ↔ volume.disk.fileAt path = none ∧ volume.disk.dirAt path = false) ∧
      (observedMatchesExpected observed expected = true ↔ expected = .anything ∨
        volume.disk.dirAt path = false ∧ expected.meets (volume.disk.fileAt path) = true) := by
  have hnone : (volume.disk.entryAt path).isNone = true ↔
      volume.disk.fileAt path = none ∧ volume.disk.dirAt path = false := by
    unfold Disk.entryAt
    cases volume.disk.fileAt path with
    | some file => simp
    | none => cases volume.disk.dirAt path <;> simp
  cases expected with
  | anything =>
    exact ⟨_, exec_statPath hplain hblocked, hnone, by simp [observedMatchesExpected]⟩
  | missing =>
    refine ⟨_, exec_statPath hplain hblocked, hnone, ?_⟩
    rw [observedMatchesExpected, hnone, ExpectedBefore.meets, Option.isNone_iff_eq_none]
    simp [and_comm]
  | presentWithFingerprint fingerprint =>
    cases hfile : volume.disk.fileAt path with
    | none =>
      have hmiss : observedMatchesExpected (volume.disk.entryAt path)
          (.presentWithFingerprint fingerprint) = false := by
        rw [Disk.entryAt, hfile]
        cases volume.disk.dirAt path with
        | true => rfl
        | false => rfl
      rw [hfile] at hnone
      refine ⟨volume.disk.entryAt path, ?_, hnone, ?_⟩
      · cases fingerprint with
        | statOnly stat => exact exec_statPath hplain hblocked
        | statAndContent stat content =>
          rw [observeForExpected,
            Effect.exec_bind_ok (exec_stableReadFile_of_none hplain hblocked hfile)]
          rfl
      · rw [hmiss]
        simp [ExpectedBefore.meets]
    | some file =>
      have hdir : volume.disk.dirAt path = false := by
        apply Bool.eq_false_of_not_eq_true
        intro hdir
        rw [hplain.fileAt_of_dirAt hdir] at hfile
        cases hfile
      rw [hfile] at hnone
      cases fingerprint with
      | statOnly stat =>
        refine ⟨_, exec_statPath hplain hblocked, hnone, ?_⟩
        rw [Disk.entryAt, hfile]
        simp [observedMatchesExpected, TreeEntry.matchesFingerprint, ExpectedBefore.meets,
          statAndContentFingerprint, FileFingerprint.satisfies, hdir]
        rfl
      | statAndContent stat content =>
        refine ⟨some ⟨path, .file (statAndContentFingerprint file.1 file.2)⟩, ?_, by simp, ?_⟩
        · rw [observeForExpected,
            Effect.exec_bind_ok (exec_stableReadFile_of_file hplain hfile)]
          rfl
        · simp [observedMatchesExpected, TreeEntry.matchesFingerprint, ExpectedBefore.meets, hdir]

/-! ## Writing -/

section Write

variable {random : Fin (2 ^ 64)} {bytes : Bytes} {expected : ExpectedBefore}

omit [Xxh3] in
theorem digitChar_ne : ∀ n < 16, Nat.digitChar n ≠ '/' ∧ Nat.digitChar n ≠ '\x00' := by
  decide

omit [Xxh3] in
/-- Every path has a temp path. -/
theorem exists_tempPathFor (random : Fin (2 ^ 64)) (path : RelativePath) :
    ∃ temp, tempPathFor random path = .ok temp := by
  obtain ⟨-, -, -, hslash, hnul⟩ := path.valid path.fileName (List.getLast_mem path.nonempty)
  have hvalid : ValidComponent (['.'] ++ path.fileName ++ ".opbox-tmp-".toList ++ hexDigits random) := by
    have hdigits : '/' ∉ hexDigits random ∧ '\x00' ∉ hexDigits random := by
      constructor
      · intro h
        obtain ⟨i, -, hi⟩ := List.mem_map.mp h
        exact (digitChar_ne _ (Nat.mod_lt _ (by decide))).1 hi
      · intro h
        obtain ⟨i, -, hi⟩ := List.mem_map.mp h
        exact (digitChar_ne _ (Nat.mod_lt _ (by decide))).2 hi
    have hlength : 2 < (['.'] ++ path.fileName ++ ".opbox-tmp-".toList ++ hexDigits random).length := by
      have : (".opbox-tmp-".toList).length = 11 := rfl
      simp only [List.length_append, this]
      omega
    have hmarker : '/' ∉ ".opbox-tmp-".toList ∧ '\x00' ∉ ".opbox-tmp-".toList := by decide +kernel
    refine ⟨?_, ?_, ?_, ?_, ?_⟩
    · intro h
      rw [h] at hlength
      exact absurd hlength (by decide)
    · intro h
      rw [h] at hlength
      exact absurd hlength (by decide)
    · intro h
      rw [h] at hlength
      exact absurd hlength (by decide)
    · simp only [List.mem_append, not_or]
      exact ⟨⟨⟨by decide, hslash⟩, hmarker.1⟩, hdigits.1⟩
    · simp only [List.mem_append, not_or]
      exact ⟨⟨⟨by decide, hnul⟩, hmarker.2⟩, hdigits.2⟩
  have hok := validateComponent_eq_ok.mpr hvalid
  unfold tempPathFor RelativePath.withFileName
  split
  next temp _ => exact ⟨temp, rfl⟩
  next message hmessage =>
    split at hmessage
    next e he => rw [hok] at he; cases he
    · cases hmessage

/-- The swap file of a write is not there. -/
def Fresh (random : Fin (2 ^ 64)) (path : RelativePath) (disk : Disk) : Prop :=
  ∀ temp, tempPathFor random path = .ok temp → disk.fileAt temp = none ∧ disk.dirAt temp = false

/-- The volume before the swap: the swap file is there, and the path has its directory. -/
structure Prepared (path temp : RelativePath) (file : FileStatFingerprint × Bytes)
    (disk disk' : Disk) : Prop where
  /-- It is a plain disk. -/
  plain : disk'.Plain
  /-- The directory of the path is there. -/
  inDir : disk'.InDir path
  /-- The swap file is the only file that is new. -/
  fileAt : ∀ other, disk'.fileAt other = if temp = other then some file else disk.fileAt other
  /-- The directories above the path are the only ones that are new. -/
  dirAt : ∀ other, disk'.dirAt other = true ↔ disk.dirAt other = true ∨ other.IsAbove path

omit [Xxh3] in
/-- The directories above a path are made, if no file is among them. -/
theorem createDirAll_of_not_blocked (hplain : volume.disk.Plain)
    (hblocked : ¬volume.disk.Blocked path) : ∃ volume' : Volume,
    (FileCalls.createDirAll path.parent volume : _ × Volume) = (.ok (), volume') ∧
      Disk.DirsMade (fun other => other.IsAbove path) volume.disk volume'.disk := by
  cases hparent : path.parent with
  | none =>
    have hnone : ∀ other : RelativePath, ¬other.IsAbove path :=
      fun other => RelativePath.not_isAbove_of_parent_eq_none hparent
    refine ⟨volume, ?_, hplain, fun other => rfl, fun other => ?_⟩
    · change change _ volume = _
      simp only [change, hplain.root]
      rfl
    · simp [hnone other]
  | some parent =>
    have habove : ∀ other : RelativePath, other.IsAbove path ↔ other = parent ∨ other.IsAbove parent :=
      fun other => RelativePath.isAbove_iff_of_parent hparent
    have hfile : volume.disk.fileAt parent = none := by
      by_contra hsome
      exact hblocked ⟨parent, (habove parent).mpr (.inl rfl), hsome⟩
    have hblockedParent : ¬volume.disk.Blocked parent := by
      rintro ⟨other, hother, hsome⟩
      exact hblocked ⟨other, (habove other).mpr (.inr hother), hsome⟩
    obtain ⟨disk, hcreate, hmade⟩ := Disk.Plain.createDirs parent.components.length hplain
      hblockedParent hfile (le_refl _)
    refine ⟨⟨disk, volume.clock⟩, ?_, hmade.plain, hmade.fileAt, fun other => ?_⟩
    · change change _ volume = _
      simp only [change, hcreate]
    · rw [habove]
      exact hmade.dirAt other

omit [Xxh3] in
/-- A write first makes the directories above its path and the swap file. -/
theorem exec_prepare {α : Type} (hplain : volume.disk.Plain) (hblocked : ¬volume.disk.Blocked path)
    (hfresh : Fresh random path volume.disk) (bytes : Bytes) (g : RelativePath → Fio Volume α) :
    ∃ temp stat volume', tempPathFor random path = .ok temp ∧
      Prepared path temp (stat, bytes) volume.disk volume'.disk ∧
      (do
        let swapPath ← liftM (tempPathFor random path)
        orThrow (← Effect.call (FileCalls.createDirAll path.parent))
        orThrow (← Effect.call (FileCalls.write swapPath bytes))
        g swapPath).exec volume = (g temp).exec volume' := by
  obtain ⟨temp, htemp⟩ := exists_tempPathFor random path
  obtain ⟨hparent, hne⟩ := beside_of_tempPathFor htemp
  obtain ⟨hnofile, hnodir⟩ := hfresh temp htemp
  obtain ⟨made, hcreate, hmade⟩ := createDirAll_of_not_blocked hplain hblocked
  have hin : made.disk.InDir path := by
    refine hmade.plain.inDir_iff.mpr fun parent h => (hmade.dirAt parent).mpr (.inr ?_)
    exact (RelativePath.isAbove_iff_of_parent h).mpr (.inl rfl)
  have hinTemp : made.disk.InDir temp := by
    refine hmade.plain.inDir_iff.mpr fun parent h => ?_
    exact hmade.plain.inDir_iff.mp hin parent (hparent ▸ h)
  have hlength : temp.components.length = path.components.length := by
    rw [components_of_tempPathFor htemp, ← RelativePath.dropLast_append_fileName path]
    simp
  have hnotAbove : ¬temp.IsAbove path := by
    intro h
    have hlt := h.length_lt
    omega
  have hnone : made.disk.node? (made.disk.place temp) = none := by
    apply hmade.plain.node?_eq_none_iff.mpr
    refine ⟨(hmade.fileAt temp).trans hnofile, Bool.eq_false_of_not_eq_true ?_⟩
    rw [hmade.dirAt, hnodir]
    simpa using hnotAbove
  obtain ⟨stat, volume', hwrite, hdisk⟩ : ∃ stat volume', made.writeFile temp bytes = (.ok (), volume') ∧
      volume'.disk = made.disk.putNode (made.disk.place temp) (.file stat bytes true) :=
    ⟨_, _, writeFile_of_inDir bytes hmade.plain hinTemp hnone, rfl⟩
  have hdirs : ∀ other, volume'.disk.dirAt other = made.disk.dirAt other := by
    intro other
    rw [hdisk, Disk.dirAt_putNode]
    split_ifs with h
    · rw [← h, (hmade.plain.node?_eq_none_iff.mp hnone).2]
      rfl
    · rfl
  have hplain' : volume'.disk.Plain := by
    rw [hdisk]
    exact hmade.plain.putNode hinTemp (.inr ⟨(hmade.plain.node?_eq_none_iff.mp hnone).2, _, _, rfl⟩)
  refine ⟨temp, stat, volume', htemp, ⟨hplain', ?_, ?_, ?_⟩, ?_⟩
  · exact hplain'.inDir_iff.mpr fun parent h =>
      (hdirs parent).trans (hmade.plain.inDir_iff.mp hin parent h)
  · intro other
    rw [hdisk, Disk.fileAt_putNode, hmade.fileAt]
    rfl
  · intro other
    rw [hdirs, hmade.dirAt]
  · have hcall : (FileCalls.write temp bytes made : _ × Volume) = (.ok (), volume') := hwrite
    rw [htemp, Effect.exec_bind, Effect.exec_lift]
    simp only
    rw [Effect.exec_bind, Effect.exec_call, hcreate]
    simp only [orThrow]
    rw [Effect.exec_bind, Effect.exec_pure]
    simp only
    rw [Effect.exec_bind, Effect.exec_call, hcall]
    rfl

/-- The rest of `guarded_write` when the swap file is there. -/
def swapOver (path : RelativePath) (bytes : Bytes) (expectedBefore : ExpectedBefore)
    (swapPath : RelativePath) : Fio Volume GuardedWriteResult := do
  let observed ← observeForExpected path expectedBefore
  if !observedMatchesExpected observed expectedBefore then
    pure (.conflictBeforeSwap swapPath observed)
  else
    match ← Effect.call (FileCalls.rename swapPath path) with
    | .error kind => do
      let _ ← Effect.call (FileCalls.removeFile swapPath)
      throw (.io kind)
    | .ok _ => observeSwapped path bytes

theorem exec_swapFile (hplain : volume.disk.Plain) (hblocked : ¬volume.disk.Blocked path)
    (hfresh : Fresh random path volume.disk) (bytes : Bytes) (expected : ExpectedBefore) :
    ∃ temp stat volume', tempPathFor random path = .ok temp ∧
      Prepared path temp (stat, bytes) volume.disk volume'.disk ∧
      (swapFile random path bytes expected).exec volume =
        (swapOver path bytes expected temp).exec volume' :=
  exec_prepare hplain hblocked hfresh bytes (swapOver path bytes expected)

/-- The disk after a write: the file is at its path, with the directories above. -/
structure Wrote (path : RelativePath) (file : FileStatFingerprint × Bytes) (disk disk' : Disk) :
    Prop where
  /-- It is a plain disk. -/
  plain : disk'.Plain
  /-- The file is at the path, and the other files are the same. -/
  fileAt : ∀ other, disk'.fileAt other = if path = other then some file else disk.fileAt other
  /-- The directories above the path are there. -/
  dirAt : ∀ other, disk'.dirAt other = true ↔ disk.dirAt other = true ∨ other.IsAbove path

/-- A file that has the bytes already is left alone. -/
theorem exec_guardedWrite_applied (hplain : volume.disk.Plain) {stat : FileStatFingerprint}
    (hfile : volume.disk.fileAt path = some (stat, bytes)) (random : Fin (2 ^ 64))
    (expected : ExpectedBefore) :
    (guardedWrite random path bytes expected : Fio Volume _).exec volume =
        (.ok (.alreadyApplied (statAndContentFingerprint stat bytes)), volume) ∧
      Wrote path (stat, bytes) volume.disk volume.disk := by
  refine ⟨?_, hplain, fun other => ?_, fun other => ⟨.inl, ?_⟩⟩
  · rw [guardedWrite, Effect.exec_bind_ok (exec_stableReadFile_of_file hplain hfile)]
    simp
  · split_ifs with h
    · rw [← h, hfile]
    · rfl
  · rintro (h | h)
    · exact h
    · refine hplain.dirAt_of_inDir (hplain.inDir_of_node (hplain.node?_ne_none_of_fileAt ?_)) h
      rw [hfile]
      exact Option.some_ne_none _

/-- A file that has other bytes is written over a swap file. -/
theorem exec_guardedWrite_of_differs (hplain : volume.disk.Plain)
    (hblocked : ¬volume.disk.Blocked path)
    (hdiffers : ∀ stat, volume.disk.fileAt path ≠ some (stat, bytes)) :
    (guardedWrite random path bytes expected : Fio Volume _).exec volume =
      (swapFile random path bytes expected).exec volume := by
  cases hfile : volume.disk.fileAt path with
  | none =>
    rw [guardedWrite, Effect.exec_bind_ok (exec_stableReadFile_of_none hplain hblocked hfile)]
  | some file =>
    rw [guardedWrite, Effect.exec_bind_ok (exec_stableReadFile_of_file hplain hfile)]
    simp only
    rw [if_neg]
    rintro rfl
    exact hdiffers file.1 hfile

/-- A write lands where no directory is and no file is above, if the file meets the precondition or has
the bytes already; then it is left as it is. -/
theorem exec_guardedWrite (hplain : volume.disk.Plain) (hblocked : ¬volume.disk.Blocked path)
    (hdir : volume.disk.dirAt path = false) (hfresh : Fresh random path volume.disk)
    (hmeets : expected.meets (volume.disk.fileAt path) = true ∨
      ∃ stat, volume.disk.fileAt path = some (stat, bytes)) : ∃ result stat volume',
    (guardedWrite random path bytes expected : Fio Volume _).exec volume = (.ok result, volume') ∧
      result.landed = some (statAndContentFingerprint stat bytes) ∧
      Wrote path (stat, bytes) volume.disk volume'.disk ∧
      ∀ old, volume.disk.fileAt path = some (old, bytes) → stat = old := by
  by_cases happlied : ∃ stat, volume.disk.fileAt path = some (stat, bytes)
  · obtain ⟨stat, hfile⟩ := happlied
    obtain ⟨hexec, hwrote⟩ := exec_guardedWrite_applied hplain hfile random expected
    refine ⟨_, stat, volume, hexec, rfl, hwrote, fun old hold => ?_⟩
    rw [hfile] at hold
    cases hold
    rfl
  · replace hmeets := hmeets.resolve_right happlied
    have hread : (guardedWrite random path bytes expected : Fio Volume _).exec volume =
        (swapFile random path bytes expected).exec volume :=
      exec_guardedWrite_of_differs hplain hblocked fun stat hfile => happlied ⟨stat, hfile⟩
    obtain ⟨temp, stat, prepared, htemp, hprepared, hswap⟩ :=
      exec_swapFile hplain hblocked hfresh bytes expected
    obtain ⟨-, hne⟩ := beside_of_tempPathFor htemp
    have hself : ¬path.IsAbove path := fun h => absurd h.length_lt (lt_irrefl _)
    have hdirPrepared : prepared.disk.dirAt path = false := by
      apply Bool.eq_false_of_not_eq_true
      rw [hprepared.dirAt, hdir]
      simpa using hself
    obtain ⟨observed, hobserve, -, hmatch⟩ := exec_observeForExpected hprepared.plain
      (hprepared.plain.not_blocked_of_inDir hprepared.inDir) expected
    rw [hprepared.fileAt, if_neg hne] at hmatch
    have hfileTemp : prepared.disk.fileAt temp = some (stat, bytes) := by
      rw [hprepared.fileAt, if_pos rfl]
    obtain ⟨disk, hrename, hplain', hfiles, hdirs⟩ :=
      hprepared.plain.renameFile hfileTemp hprepared.inDir hdirPrepared
    have hcall : (FileCalls.rename temp path prepared : _ × Volume) = (.ok (), ⟨disk, prepared.clock⟩) := by
      change change _ prepared = _
      simp only [change, hrename]
    have hfile : disk.fileAt path = some (stat, bytes) := by
      rw [hfiles, if_pos rfl]
    refine ⟨.written (statAndContentFingerprint stat bytes), stat, ⟨disk, prepared.clock⟩, ?_, rfl,
      ⟨hplain', fun other => ?_, fun other => ?_⟩, fun old hold => absurd ⟨old, hold⟩ happlied⟩
    · rw [hread, hswap, swapOver, Effect.exec_bind_ok hobserve,
        if_neg (by simpa using hmatch.mpr (.inr ⟨hdirPrepared, hmeets⟩)), Effect.exec_bind,
        Effect.exec_call, hcall]
      have hreadBack : (stableReadFile path : Fio Volume _).exec ⟨disk, prepared.clock⟩ = _ :=
        exec_stableReadFile_of_file hplain' hfile
      simp only [observeSwapped]
      rw [Effect.exec_bind_ok hreadBack]
      simp
    · rw [hfiles, hprepared.fileAt]
      split_ifs with h ht
      · rfl
      · rw [← ht, (hfresh temp htemp).1]
      · rfl
    · rw [hdirs, hprepared.dirAt]

omit [Xxh3] in
/-- Preparing a write changes no file that was there. -/
theorem Prepared.keepsFiles {temp : RelativePath} {file : FileStatFingerprint × Bytes}
    {disk disk' : Disk} (h : Prepared path temp file disk disk') (hnone : disk.fileAt temp = none) :
    disk.KeepsFiles disk' := by
  intro other old hold
  rw [h.fileAt, if_neg, hold]
  rintro rfl
  rw [hnone] at hold
  cases hold

/-- A write is refused where the file does not meet the precondition, unless it has the bytes already. -/
theorem exec_guardedWrite_unmet (hplain : volume.disk.Plain) (hblocked : ¬volume.disk.Blocked path)
    (hfresh : Fresh random path volume.disk)
    (hunmet : expected.meets (volume.disk.fileAt path) = false)
    (hdiffers : ∀ stat, volume.disk.fileAt path ≠ some (stat, bytes)) : ∃ swapPath observed volume',
    (guardedWrite random path bytes expected : Fio Volume _).exec volume =
        (.ok (.conflictBeforeSwap swapPath observed), volume') ∧
      volume.disk.KeepsFiles volume'.disk := by
  obtain ⟨temp, stat, prepared, htemp, hprepared, hswap⟩ :=
    exec_swapFile hplain hblocked hfresh bytes expected
  obtain ⟨-, hne⟩ := beside_of_tempPathFor htemp
  obtain ⟨observed, hobserve, -, hmatch⟩ := exec_observeForExpected hprepared.plain
    (hprepared.plain.not_blocked_of_inDir hprepared.inDir) expected
  rw [hprepared.fileAt, if_neg hne] at hmatch
  have hmiss : observedMatchesExpected observed expected = false := by
    apply Bool.eq_false_of_not_eq_true
    rw [hmatch]
    rintro (rfl | ⟨-, hmeets⟩)
    · cases hunmet
    · rw [hunmet] at hmeets
      cases hmeets
  refine ⟨temp, observed, prepared, ?_, hprepared.keepsFiles (hfresh temp htemp).1⟩
  rw [exec_guardedWrite_of_differs hplain hblocked hdiffers, hswap, swapOver,
    Effect.exec_bind_ok hobserve, hmiss]
  rfl

omit [Xxh3] in
/-- A rename fails over a directory. -/
theorem rename_of_dirAt (hplain : volume.disk.Plain) {temp : RelativePath}
    {file : FileStatFingerprint × Bytes} (hfile : volume.disk.fileAt temp = some file)
    (hdir : volume.disk.dirAt path = true) :
    (FileCalls.rename temp path volume : _ × Volume) = (.error .isADirectory, volume) := by
  have hnode : volume.disk.node? (volume.disk.place temp) = some (.file file.1 file.2 true) :=
    hplain.fileAt_eq_some_iff.mp hfile
  change change _ volume = _
  simp only [change, Disk.renameFile]
  rw [hplain.find_of_inDir (hplain.inDir_of_node (by rw [hnode]; simp)), hnode,
    hplain.find_of_inDir (hplain.inDir_of_node (hplain.node?_ne_none_of_dirAt hdir)),
    hplain.dirAt_iff.mp hdir]

/-- A write does not land where a directory is, or where a file lies above. -/
theorem exec_guardedWrite_misses (hplain : volume.disk.Plain)
    (hfresh : Fresh random path volume.disk)
    (h : volume.disk.dirAt path = true ∨ volume.disk.Blocked path) (bytes : Bytes)
    (expected : ExpectedBefore) : ∃ r volume',
    (guardedWrite random path bytes expected : Fio Volume _).exec volume = (r, volume') ∧
      (∀ result, r = .ok result → result.landed = none) ∧ volume.disk.KeepsFiles volume'.disk := by
  by_cases hblocked : volume.disk.Blocked path
  · refine ⟨.error (.io .notADirectory), volume, ?_, fun result hr => (by cases hr), fun _ _ => id⟩
    have hread : (stableReadFile path : Fio Volume _).exec volume =
        (.error (.io .notADirectory), volume) := by
      rw [stableReadFile, Effect.exec_bind_error (exec_statPath_blocked hplain hblocked)]
    rw [guardedWrite, Effect.exec_bind_error hread]
  · have hdir := h.resolve_right hblocked
    obtain ⟨temp, stat, prepared, htemp, hprepared, hswap⟩ :=
      exec_swapFile hplain hblocked hfresh bytes expected
    have hdirPrepared : prepared.disk.dirAt path = true := (hprepared.dirAt path).mpr (.inl hdir)
    obtain ⟨observed, hobserve, -, hmatch⟩ := exec_observeForExpected hprepared.plain
      (hprepared.plain.not_blocked_of_inDir hprepared.inDir) expected
    have hnew := (hfresh temp htemp).1
    have hexec : (guardedWrite random path bytes expected : Fio Volume _).exec volume =
        (swapOver path bytes expected temp).exec prepared := by
      rw [guardedWrite, Effect.exec_bind_ok
        (exec_stableReadFile_of_none hplain hblocked (hplain.fileAt_of_dirAt hdir))]
      exact hswap
    rw [hexec, swapOver, Effect.exec_bind_ok hobserve]
    by_cases hmatches : observedMatchesExpected observed expected = true
    · have hfile : prepared.disk.fileAt temp = some (stat, bytes) := by
        rw [hprepared.fileAt, if_pos rfl]
      rw [if_neg (by simpa using hmatches), Effect.exec_bind, Effect.exec_call,
        rename_of_dirAt hprepared.plain hfile hdirPrepared]
      obtain ⟨disk, hunlink, -, hfiles, -⟩ := hprepared.plain.unlink (by rw [hfile]; exact Option.some_ne_none _)
      have hcall : (FileCalls.removeFile temp prepared : _ × Volume) = (.ok (), ⟨disk, prepared.clock⟩) := by
        change change _ prepared = _
        simp only [change, hunlink]
      simp only
      rw [Effect.exec_bind, Effect.exec_call, hcall]
      refine ⟨_, _, rfl, fun result hr => (by cases hr), fun other old hold => ?_⟩
      rw [hfiles, if_neg]
      · exact hprepared.keepsFiles hnew other old hold
      · rintro rfl
        rw [hnew] at hold
        cases hold
    · rw [if_pos (by simpa using hmatches)]
      refine ⟨_, _, rfl, fun result hr => ?_, hprepared.keepsFiles hnew⟩
      cases hr
      rfl

/-! ## Deleting -/

/-- A file that meets the precondition is deleted. -/
theorem exec_guardedDelete (hplain : volume.disk.Plain)
    (hfile : volume.disk.fileAt path ≠ none)
    (hmeets : expected.meets (volume.disk.fileAt path) = true) : ∃ volume',
    (guardedDelete path expected : Fio Volume _).exec volume = (.ok .deleted, volume') ∧
      volume'.disk.Plain ∧
      (∀ other, volume'.disk.fileAt other = if path = other then none else volume.disk.fileAt other) ∧
      ∀ other, volume'.disk.dirAt other = volume.disk.dirAt other := by
  have hin := hplain.inDir_of_node (hplain.node?_ne_none_of_fileAt hfile)
  have hdir : volume.disk.dirAt path = false := by
    apply Bool.eq_false_of_not_eq_true
    exact fun hdir => hfile (hplain.fileAt_of_dirAt hdir)
  obtain ⟨observed, hobserve, hnone, hmatch⟩ :=
    exec_observeForExpected hplain (hplain.not_blocked_of_inDir hin) expected
  obtain ⟨disk, hunlink, hplain', hfiles, hdirs⟩ := hplain.unlink hfile
  have hcall : (FileCalls.removeFile path volume : _ × Volume) = (.ok (), ⟨disk, volume.clock⟩) := by
    change change _ volume = _
    simp only [change, hunlink]
  have hin' : disk.InDir path := hplain'.inDir_iff.mpr fun parent h =>
    (hdirs parent).trans (hplain.inDir_iff.mp hin parent h)
  have hstat : (statPath path : Fio Volume _).exec ⟨disk, volume.clock⟩ = _ :=
    exec_statPath hplain' (hplain'.not_blocked_of_inDir hin')
  have hentry : disk.entryAt path = none := by
    rw [Disk.entryAt, hfiles, if_pos rfl, hdirs, hdir]
    rfl
  simp only [hentry] at hstat
  refine ⟨⟨disk, volume.clock⟩, ?_, hplain', hfiles, hdirs⟩
  rw [guardedDelete, Effect.exec_bind_ok hobserve,
    if_neg (by simpa using hmatch.mpr (.inr ⟨hdir, hmeets⟩)),
    if_neg (fun h => hfile (hnone.mp h).1), Effect.exec_bind, Effect.exec_call, hcall]
  simp only
  rw [Effect.exec_bind_ok hstat]
  rfl

end Write

end Volume

end Opbox
