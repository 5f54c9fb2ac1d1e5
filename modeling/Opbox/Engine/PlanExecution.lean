import Opbox.Fs.Answers
import Opbox.Fs.VolumeCalls
import Opbox.Semantic.Clocks
import Opbox.Semantic.CompletedProjection
import Opbox.Semantic.OwnFiles

/-!
# Plans that are carried out

The engine hands the actions of a plan to the file layer one after the other, each when the one before
has come back, and an action that misses its target ends the plan (`drive_phase` and
`handle_fs_response` of `engine/actor.rs`, `apply_projection_action` of `fs/client.rs`).  All writes of a
plan come before its deletes, and no directory is ever removed: so a plan lands on an undisturbed volume
exactly if no file that it writes is at a directory or below a file, be it one that is to be deleted
later.
-/

namespace Opbox

variable {D : Type}

/-- The text of a report. -/
def Report.shown : Report → String
  | io kind => kind.shown
  | bail message => message

/-- The precondition of an action. -/
def ProjectionActionKind.expectedBefore : ProjectionActionKind → ExpectedBefore
  | writeFile _ _ expectedBefore => expectedBefore
  | deleteFile _ expectedBefore => expectedBefore

section CarryOut

variable {F : Type} [FileCalls F] [Xxh3]

/-- `apply_projection_action`. -/
def applyProjectionAction (random : Fin (2 ^ 64)) (action : ProjectionAction D) (files : F) :
    ProjectionActionResult × F :=
  match action.kind with
  | .writeFile path bytes expectedBefore =>
    match (guardedWrite random path bytes expectedBefore).exec files with
    | (.ok result, files) => (.writeFile action.id result, files)
    | (.error error, files) => (.failed action.id error.shown, files)
  | .deleteFile path expectedBefore =>
    match (guardedDelete path expectedBefore).exec files with
    | (.ok result, files) => (.deleteFile action.id result, files)
    | (.error error, files) => (.failed action.id error.shown, files)

/-- Carry out a plan up to the first action that invalidates it: the results, and the files then. -/
def carryOut (random : ProjectionActionId → Fin (2 ^ 64)) : List (ProjectionAction D) → F →
    List ProjectionActionResult × F
  | [], files => ([], files)
  | action :: plan, files =>
    let (result, files) := applyProjectionAction (random action.id) action files
    if result.invalidatesProjection then ([result], files)
    else
      let (results, files) := carryOut random plan files
      (result :: results, files)

/-- No action missed its target. -/
def AllLand (results : List ProjectionActionResult) : Prop :=
  ∀ result ∈ results, result.invalidatesProjection = false

variable {random : ProjectionActionId → Fin (2 ^ 64)} {action : ProjectionAction D}
  {plan rest : List (ProjectionAction D)} {files files' : F} {result : ProjectionActionResult}

theorem carryOut_cons_of_lands
    (h : applyProjectionAction (random action.id) action files = (result, files'))
    (hlands : result.invalidatesProjection = false) :
    carryOut random (action :: plan) files =
      (result :: (carryOut random plan files').1, (carryOut random plan files').2) := by
  rw [carryOut, h]
  simp only [hlands, Bool.false_eq_true, if_false]

theorem carryOut_cons_of_misses
    (h : applyProjectionAction (random action.id) action files = (result, files'))
    (hmisses : result.invalidatesProjection = true) :
    carryOut random (action :: plan) files = ([result], files') := by
  rw [carryOut, h]
  simp only [hmisses, if_true]

/-- Two parts of a plan land one after the other. -/
theorem carryOut_append (h : AllLand (carryOut random plan files).1) :
    carryOut random (plan ++ rest) files =
      ((carryOut random plan files).1 ++ (carryOut random rest (carryOut random plan files).2).1,
        (carryOut random rest (carryOut random plan files).2).2) := by
  induction plan generalizing files with
  | nil => rfl
  | cons action plan ih =>
    obtain ⟨result, files', happly⟩ : ∃ result files',
      applyProjectionAction (random action.id) action files = (result, files') := ⟨_, _, rfl⟩
    rw [List.cons_append]
    cases hlands : result.invalidatesProjection with
    | true =>
      rw [carryOut_cons_of_misses happly hlands] at h
      rw [h result (List.mem_singleton_self _)] at hlands
      cases hlands
    | false =>
      rw [carryOut_cons_of_lands happly hlands] at h ⊢
      rw [carryOut_cons_of_lands happly hlands, ih fun r hr => h r (List.mem_cons_of_mem _ hr)]
      rfl

/-- A plan does not land if its first part does not. -/
theorem AllLand.of_append (h : AllLand (carryOut random (plan ++ rest) files).1) :
    AllLand (carryOut random plan files).1 := by
  induction plan generalizing files with
  | nil => exact fun r hr => absurd hr List.not_mem_nil
  | cons action plan ih =>
    obtain ⟨result, files', happly⟩ : ∃ result files',
      applyProjectionAction (random action.id) action files = (result, files') := ⟨_, _, rfl⟩
    rw [List.cons_append] at h
    cases hlands : result.invalidatesProjection with
    | true =>
      rw [carryOut_cons_of_misses happly hlands] at h ⊢
      exact h
    | false =>
      rw [carryOut_cons_of_lands happly hlands] at h ⊢
      intro r hr
      rcases List.mem_cons.mp hr with rfl | hr
      · exact hlands
      · exact ih (fun r hr => h r (List.mem_cons_of_mem _ hr)) r hr

end CarryOut

/-! ## Actions on a plain volume -/

section Volume

variable [Xxh3] {volume : Volume} {action : ProjectionAction D}
  {random : ProjectionActionId → Fin (2 ^ 64)}

/-- The path of an action is no file of the daemon, and its swap file is not there. -/
structure ProjectionAction.Startable (random : ProjectionActionId → Fin (2 ^ 64))
    (action : ProjectionAction D) (disk : Disk) : Prop where
  /-- The path is not hard ignored. -/
  notIgnored : isHardIgnored action.kind.path = false
  /-- The swap file is not there. -/
  fresh : Volume.Fresh (random action.id) action.kind.path disk

/-- The file at the path of an action meets the precondition. -/
def ProjectionActionKind.Meets (kind : ProjectionActionKind) (disk : Disk) : Prop :=
  kind.expectedBefore.meets (disk.fileAt kind.path) = true

/-- Or it has the bytes already that the action writes. -/
def ProjectionActionKind.Lands (kind : ProjectionActionKind) (disk : Disk) : Prop :=
  kind.Meets disk ∨ ∃ path bytes expected stat, kind = .writeFile path bytes expected ∧
    disk.fileAt path = some (stat, bytes)

/-- Nothing is in the way of a write: no directory is at its path, and no file is above it. -/
def Disk.Clear (disk : Disk) (path : RelativePath) : Prop :=
  disk.dirAt path = false ∧ ¬disk.Blocked path

/-- The target of an action: the file that its path holds when it has landed with this result. -/
def ProjectionAction.Achieved (action : ProjectionAction D) (result : ProjectionActionResult)
    (file : Option (FileStatFingerprint × Bytes)) : Prop :=
  result.actionId = action.id ∧ match action.kind with
    | .writeFile _ bytes _ => ∃ stat, file = some (stat, bytes) ∧
      result.landed = some (statAndContentFingerprint stat bytes)
    | .deleteFile _ _ => file = none ∧ result.deleted = true

omit [Xxh3] in
theorem invalidatesProjection_of_landed {result : ProjectionActionResult} {f : FileFingerprint}
    (h : result.landed = some f) : result.invalidatesProjection = false := by
  unfold ProjectionActionResult.landed at h
  split at h
  · rfl
  · rfl
  · cases h

omit [Xxh3] in
/-- A hard ignored path has only hard ignored paths below. -/
theorem isHardIgnored_of_isAbove {dir path : RelativePath} (h : dir.IsAbove path)
    (hdir : isHardIgnored dir = true) : isHardIgnored path = true := by
  obtain ⟨c, hc, hignored⟩ := List.any_eq_true.mp hdir
  exact List.any_eq_true.mpr ⟨c, List.dropLast_subset _ (h.subset hc), hignored⟩

omit [Xxh3] in
/-- An action can be started while files and directories come and go elsewhere, if these directories
lead to a path that is not hard ignored. -/
theorem ProjectionAction.Startable.congr {disk disk' : Disk} {path : RelativePath}
    {file : Option (FileStatFingerprint × Bytes)} (h : action.Startable random disk)
    (hignored : isHardIgnored path = false)
    (hfiles : ∀ other, disk'.fileAt other = if path = other then file else disk.fileAt other)
    (hdirs : ∀ other, disk'.dirAt other = true → disk.dirAt other = true ∨ other.IsAbove path) :
    action.Startable random disk' := by
  refine ⟨h.notIgnored, fun temp htemp => ?_⟩
  obtain ⟨hfile, hdir⟩ := h.fresh temp htemp
  have htempIgnored := isHardIgnored_of_tempPathFor htemp
  constructor
  · rw [hfiles, if_neg, hfile]
    rintro rfl
    rw [htempIgnored] at hignored
    cases hignored
  · apply Bool.eq_false_of_not_eq_true
    intro hdir'
    rcases hdirs temp hdir' with hold | habove
    · rw [hdir] at hold
      cases hold
    · rw [isHardIgnored_of_isAbove habove htempIgnored] at hignored
      cases hignored

/-- A write lands if nothing is in its way; a file that has the bytes already is left as it is. -/
theorem applyProjectionAction_write {path : RelativePath} {bytes : Bytes} {expected : ExpectedBefore}
    (hkind : action.kind = .writeFile path bytes expected) (hplain : volume.disk.Plain)
    (hstart : action.Startable random volume.disk) (hlands : action.kind.Lands volume.disk)
    (hdir : volume.disk.dirAt path = false) (hblocked : ¬volume.disk.Blocked path) :
    ∃ result stat volume',
    applyProjectionAction (random action.id) action volume = (result, volume') ∧
      result.actionId = action.id ∧
      result.landed = some (statAndContentFingerprint stat bytes) ∧
      Volume.Wrote path (stat, bytes) volume.disk volume'.disk ∧
      ∀ old, volume.disk.fileAt path = some (old, bytes) → stat = old := by
  have hfresh := hstart.fresh
  rw [hkind] at hfresh hlands
  have hmeets : expected.meets (volume.disk.fileAt path) = true ∨
      ∃ stat, volume.disk.fileAt path = some (stat, bytes) := by
    refine hlands.imp_right ?_
    rintro ⟨path', bytes', expected', stat, heq, hfile⟩
    cases heq
    exact ⟨stat, hfile⟩
  obtain ⟨result, stat, volume', hexec, hlanded, hwrote, hkept⟩ :=
    Volume.exec_guardedWrite hplain hblocked hdir hfresh hmeets
  refine ⟨.writeFile action.id result, stat, volume', ?_, rfl, ?_, hwrote, hkept⟩
  · simp only [applyProjectionAction, hkind]
    rw [hexec]
  · unfold GuardedWriteResult.landed at hlanded
    split at hlanded
    · cases hlanded
      rfl
    · cases hlanded
      rfl
    · cases hlanded

/-- A write invalidates the plan where the file does not let it land, and changes no file that was
there. -/
theorem applyProjectionAction_write_unmet {path : RelativePath} {bytes : Bytes}
    {expected : ExpectedBefore} (hkind : action.kind = .writeFile path bytes expected)
    (hplain : volume.disk.Plain) (hstart : action.Startable random volume.disk)
    (hunmet : ¬action.kind.Lands volume.disk) (hblocked : ¬volume.disk.Blocked path) :
    ∃ result volume',
    applyProjectionAction (random action.id) action volume = (result, volume') ∧
      result.invalidatesProjection = true ∧ volume.disk.KeepsFiles volume'.disk := by
  have hfresh := hstart.fresh
  rw [hkind] at hfresh hunmet
  have hmeets : expected.meets (volume.disk.fileAt path) = false :=
    Bool.eq_false_of_not_eq_true fun hmeets => hunmet (.inl hmeets)
  have hdiffers : ∀ stat, volume.disk.fileAt path ≠ some (stat, bytes) :=
    fun stat hfile => hunmet (.inr ⟨path, bytes, expected, stat, rfl, hfile⟩)
  obtain ⟨swapPath, observed, volume', hexec, hkept⟩ :=
    Volume.exec_guardedWrite_unmet hplain hblocked hfresh hmeets hdiffers
  refine ⟨.writeFile action.id (.conflictBeforeSwap swapPath observed), volume', ?_, rfl, hkept⟩
  simp only [applyProjectionAction, hkind]
  rw [hexec]

/-- A write invalidates the plan if a directory is at its path or a file above it, and changes no file
that was there. -/
theorem applyProjectionAction_write_misses {path : RelativePath} {bytes : Bytes}
    {expected : ExpectedBefore} (hkind : action.kind = .writeFile path bytes expected)
    (hplain : volume.disk.Plain) (hstart : action.Startable random volume.disk)
    (h : volume.disk.dirAt path = true ∨ volume.disk.Blocked path) : ∃ result volume',
    applyProjectionAction (random action.id) action volume = (result, volume') ∧
      result.invalidatesProjection = true ∧ volume.disk.KeepsFiles volume'.disk := by
  have hfresh : Volume.Fresh (random action.id) path volume.disk := by
    have hfresh := hstart.fresh
    rwa [hkind] at hfresh
  obtain ⟨r, volume', hexec, hmiss, hkept⟩ :=
    Volume.exec_guardedWrite_misses hplain hfresh h bytes expected
  simp only [applyProjectionAction, hkind]
  rw [hexec]
  cases r with
  | error report => exact ⟨_, _, rfl, rfl, hkept⟩
  | ok result =>
    refine ⟨_, _, rfl, ?_, hkept⟩
    have hnone := hmiss result rfl
    cases result with
    | written f => cases hnone
    | alreadyApplied f => cases hnone
    | conflictBeforeSwap swapPath observed => rfl
    | conflictAfterSwap observed => rfl
    | conflict observed => rfl

/-- A write invalidates the plan if something is in its way or the file does not let it land, and changes
no file that was there. -/
theorem applyProjectionAction_write_fails {path : RelativePath} {bytes : Bytes}
    {expected : ExpectedBefore} (hkind : action.kind = .writeFile path bytes expected)
    (hplain : volume.disk.Plain) (hstart : action.Startable random volume.disk)
    (h : ¬(action.kind.Lands volume.disk ∧ volume.disk.Clear path)) : ∃ result volume',
    applyProjectionAction (random action.id) action volume = (result, volume') ∧
      result.invalidatesProjection = true ∧ volume.disk.KeepsFiles volume'.disk := by
  by_cases hclear : volume.disk.Clear path
  · exact applyProjectionAction_write_unmet hkind hplain hstart (fun hlands => h ⟨hlands, hclear⟩)
      hclear.2
  · refine applyProjectionAction_write_misses hkind hplain hstart ?_
    rw [Disk.Clear, not_and_or, not_not, Bool.not_eq_false] at hclear
    exact hclear

/-- A delete lands if the file meets the precondition. -/
theorem applyProjectionAction_delete (random : ProjectionActionId → Fin (2 ^ 64)) {path : RelativePath}
    {expected : ExpectedBefore} (hkind : action.kind = .deleteFile path expected)
    (hplain : volume.disk.Plain) (hmeets : action.kind.Meets volume.disk)
    (hfile : volume.disk.fileAt path ≠ none) :
    ∃ volume' : Volume, applyProjectionAction (random action.id) action volume =
        (.deleteFile action.id .deleted, volume') ∧ volume'.disk.Plain ∧
      (∀ other, volume'.disk.fileAt other = if path = other then none else volume.disk.fileAt other) ∧
      ∀ other, volume'.disk.dirAt other = volume.disk.dirAt other := by
  have hmeets' : expected.meets (volume.disk.fileAt path) = true := by
    rw [hkind] at hmeets
    exact hmeets
  obtain ⟨volume', hexec, hplain', hfiles, hdirs⟩ :=
    Volume.exec_guardedDelete hplain hfile hmeets'
  refine ⟨volume', ?_, hplain', hfiles, hdirs⟩
  simp only [applyProjectionAction, hkind]
  rw [hexec]

/-! ## Plans on a plain volume -/

omit [Xxh3] in
/-- What is in the way of a path after a write elsewhere. -/
theorem clear_of_wrote {path other : RelativePath} {file : FileStatFingerprint × Bytes}
    {disk disk' : Disk} (h : Volume.Wrote path file disk disk') :
    disk'.Clear other ↔ disk.Clear other ∧ ¬other.IsAbove path ∧ ¬path.IsAbove other := by
  have hdir : disk'.dirAt other = false ↔ disk.dirAt other = false ∧ ¬other.IsAbove path := by
    rw [← Bool.not_eq_true, ← Bool.not_eq_true, h.dirAt, not_or]
  have hblocked : disk'.Blocked other ↔ disk.Blocked other ∨ path.IsAbove other := by
    constructor
    · rintro ⟨dir, habove, hfile⟩
      rw [h.fileAt] at hfile
      split_ifs at hfile with heq
      · exact .inr (heq ▸ habove)
      · exact .inl ⟨dir, habove, hfile⟩
    · rintro (⟨dir, habove, hfile⟩ | habove)
      · refine ⟨dir, habove, ?_⟩
        rw [h.fileAt]
        split_ifs
        · exact Option.some_ne_none _
        · exact hfile
      · refine ⟨path, habove, ?_⟩
        rw [h.fileAt, if_pos rfl]
        exact Option.some_ne_none _
  rw [Disk.Clear, Disk.Clear, hdir, hblocked]
  tauto

/-- A part of a plan has landed. -/
structure PlanLanded (plan : List (ProjectionAction D)) (results : List ProjectionActionResult)
    (disk disk' : Disk) : Prop where
  /-- It is a plain disk. -/
  plain : disk'.Plain
  /-- Each action has its target. -/
  achieved : List.Forall₂ (fun action result =>
    action.Achieved result (disk'.fileAt action.kind.path)) plan results
  /-- The other files are the same. -/
  others : ∀ other, (∀ action ∈ plan, action.kind.path ≠ other) →
    disk'.fileAt other = disk.fileAt other
  /-- A file that had the bytes to be written is the same. -/
  kept : ∀ action ∈ plan, ∀ path bytes expected, action.kind = .writeFile path bytes expected →
    ∀ stat, disk.fileAt path = some (stat, bytes) → disk'.fileAt path = some (stat, bytes)
  /-- The new directories are above the paths of the actions. -/
  dirs : ∀ other, disk'.dirAt other = true →
    disk.dirAt other = true ∨ ∃ action ∈ plan, other.IsAbove action.kind.path

variable {plan : List (ProjectionAction D)}

/-- The rest of a plan lands after its first action. -/
theorem PlanLanded.cons {path : RelativePath} {file : Option (FileStatFingerprint × Bytes)}
    {result : ProjectionActionResult} {results : List ProjectionActionResult} {disk disk' disk'' : Disk}
    (h : PlanLanded plan results disk' disk'') (hpath : action.kind.path = path)
    (hnotMem : path ∉ plan.map fun a => a.kind.path)
    (hachieved : action.Achieved result file)
    (hfiles : ∀ other, disk'.fileAt other = if path = other then file else disk.fileAt other)
    (hkept : ∀ bytes expected, action.kind = .writeFile path bytes expected →
      ∀ stat, disk.fileAt path = some (stat, bytes) → file = some (stat, bytes))
    (hdirs : ∀ other, disk'.dirAt other = true → disk.dirAt other = true ∨ other.IsAbove path) :
    PlanLanded (action :: plan) (result :: results) disk disk'' := by
  have hfile : disk''.fileAt path = file := by
    rw [h.others path fun b hb heq => hnotMem (heq ▸ List.mem_map_of_mem (f := fun a => a.kind.path) hb),
      hfiles, if_pos rfl]
  refine ⟨h.plain, .cons ?_ h.achieved, fun other hother => ?_,
    List.forall_mem_cons.mpr ⟨fun other bytes expected hkind stat hold => ?_,
      fun b hb other bytes expected hkind stat hold => ?_⟩, fun other hother => ?_⟩
  · rw [hpath, hfile]
    exact hachieved
  · rw [h.others other fun b hb => hother b (List.mem_cons_of_mem _ hb), hfiles, if_neg]
    rw [← hpath]
    exact hother action List.mem_cons_self
  · have hother : other = path := by
      rw [← hpath, hkind]
      rfl
    subst hother
    rw [hfile]
    exact hkept bytes expected hkind stat hold
  · refine h.kept b hb other bytes expected hkind stat ?_
    rw [hfiles, if_neg, hold]
    rintro rfl
    refine hnotMem (List.mem_map.mpr ⟨b, hb, ?_⟩)
    rw [hkind]
    rfl
  · rcases h.dirs other hother with hold | ⟨b, hb, habove⟩
    · refine (hdirs other hold).imp_right fun habove => ⟨action, List.mem_cons_self, ?_⟩
      rwa [hpath]
    · exact .inr ⟨b, List.mem_cons_of_mem _ hb, habove⟩

omit [Xxh3] in
/-- Two parts of a plan on different paths have landed one after the other. -/
theorem PlanLanded.append [Xxh3] {rest : List (ProjectionAction D)}
    {results results' : List ProjectionActionResult} {disk disk' disk'' : Disk}
    (h : PlanLanded plan results disk disk') (h' : PlanLanded rest results' disk' disk'')
    (hpaths : ∀ a ∈ plan, ∀ b ∈ rest, b.kind.path ≠ a.kind.path) :
    PlanLanded (plan ++ rest) (results ++ results') disk disk'' := by
  obtain ⟨hlength, hachieved⟩ := List.forall₂_iff_zip.mp h.achieved
  refine ⟨h'.plain, List.rel_append (List.forall₂_iff_zip.mpr ⟨hlength, fun {a b} hmem => ?_⟩)
    h'.achieved, fun other hother => ?_, fun a ha other bytes expected hkind stat hold => ?_,
    fun other hother => ?_⟩
  · rw [h'.others _ (hpaths a (List.of_mem_zip hmem).1)]
    exact hachieved hmem
  · rw [h'.others other fun b hb => hother b (List.mem_append_right _ hb),
      h.others other fun b hb => hother b (List.mem_append_left _ hb)]
  · have hother : a.kind.path = other := by
      rw [hkind]
      rfl
    rcases List.mem_append.mp ha with ha | ha
    · rw [h'.others other fun b hb => hother ▸ hpaths a ha b hb]
      exact h.kept a ha other bytes expected hkind stat hold
    · refine h'.kept a ha other bytes expected hkind stat ?_
      rw [h.others other fun b hb heq => hpaths b hb a ha (hother.trans heq.symm)]
      exact hold
  · rcases h'.dirs other hother with hold | ⟨b, hb, habove⟩
    · refine (h.dirs other hold).imp_right ?_
      rintro ⟨b, hb, habove⟩
      exact ⟨b, List.mem_append_left _ hb, habove⟩
    · exact .inr ⟨b, List.mem_append_right _ hb, habove⟩

/-- What lands at a path depends on the file there. -/
theorem ProjectionActionKind.Meets.congr {kind : ProjectionActionKind} {disk disk' : Disk}
    (h : kind.Meets disk) (hfile : disk'.fileAt kind.path = disk.fileAt kind.path) :
    kind.Meets disk' := by
  rw [Meets, hfile]
  exact h

theorem ProjectionActionKind.lands_congr {kind : ProjectionActionKind} {disk disk' : Disk}
    (hfile : disk'.fileAt kind.path = disk.fileAt kind.path) : kind.Lands disk' ↔ kind.Lands disk := by
  rw [Lands, Lands, Meets, Meets, hfile]
  refine or_congr_right ⟨?_, ?_⟩
  · rintro ⟨path, bytes, expected, stat, rfl, h⟩
    exact ⟨path, bytes, expected, stat, rfl, hfile ▸ h⟩
  · rintro ⟨path, bytes, expected, stat, rfl, h⟩
    exact ⟨path, bytes, expected, stat, rfl, hfile.trans h⟩

/-- Writes land one after the other exactly if each one would land on the files as they are, nothing is
in its way, and none of them is above another one. -/
theorem carryOut_writes (hplain : volume.disk.Plain)
    (hnodup : (plan.map fun a => a.kind.path).Nodup)
    (hstart : ∀ a ∈ plan, a.Startable random volume.disk)
    (hwrite : ∀ a ∈ plan, ∃ path bytes expected, a.kind = .writeFile path bytes expected) :
    (AllLand (carryOut random plan volume).1 ↔ ∀ a ∈ plan, a.kind.Lands volume.disk ∧
      volume.disk.Clear a.kind.path ∧ ∀ b ∈ plan, ¬b.kind.path.IsAbove a.kind.path) ∧
    (AllLand (carryOut random plan volume).1 →
      PlanLanded plan (carryOut random plan volume).1 volume.disk (carryOut random plan volume).2.disk) := by
  induction plan generalizing volume with
  | nil =>
    refine ⟨⟨fun _ a ha => absurd ha List.not_mem_nil, fun _ r hr => absurd hr List.not_mem_nil⟩,
      fun _ => ⟨hplain, .nil, fun _ _ => rfl, fun a ha => absurd ha List.not_mem_nil, fun _ => .inl⟩⟩
  | cons action plan ih =>
    rw [List.map_cons, List.nodup_cons] at hnodup
    obtain ⟨path, bytes, expected, hkind⟩ := hwrite action List.mem_cons_self
    have hpath : action.kind.path = path := by rw [hkind]; rfl
    have hself : ¬path.IsAbove path := fun h => absurd h.length_lt (lt_irrefl _)
    have hhead := hstart action List.mem_cons_self
    by_cases hgoes : action.kind.Lands volume.disk ∧ volume.disk.Clear path
    · obtain ⟨hmet, hclear⟩ := hgoes
      obtain ⟨result, stat, volume', happly, hid, hlanded, hwrote, hkept⟩ :=
        applyProjectionAction_write hkind hplain hhead hmet hclear.1 hclear.2
      have hvalid := invalidatesProjection_of_landed hlanded
      have hnotIgnored : isHardIgnored path = false := hpath ▸ hhead.notIgnored
      have hne : ∀ b ∈ plan, path ≠ b.kind.path := fun b hb heq =>
        hnodup.1 (by rw [hpath, heq]; exact List.mem_map_of_mem (f := fun a => a.kind.path) hb)
      have hsame : ∀ b ∈ plan, volume'.disk.fileAt b.kind.path = volume.disk.fileAt b.kind.path := by
        intro b hb
        rw [hwrote.fileAt, if_neg (hne b hb)]
      obtain ⟨hiff, hdone⟩ := @ih volume' hwrote.plain hnodup.2
        (fun b hb => (hstart b (List.mem_cons_of_mem _ hb)).congr hnotIgnored hwrote.fileAt
          fun other h => (hwrote.dirAt other).mp h)
        fun b hb => hwrite b (List.mem_cons_of_mem _ hb)
      have hlands : AllLand (result :: (carryOut random plan volume').1) ↔
          AllLand (carryOut random plan volume').1 :=
        List.forall_mem_cons.trans (and_iff_right hvalid)
      rw [carryOut_cons_of_lands happly hvalid]
      refine ⟨?_, fun h => ?_⟩
      · rw [hlands, hiff]
        simp only [List.forall_mem_cons, hpath, clear_of_wrote hwrote]
        constructor
        · intro h
          exact ⟨⟨hmet, hclear, hself, fun b hb => (h b hb).2.1.2.1⟩, fun b hb =>
            ⟨(ProjectionActionKind.lands_congr (hsame b hb)).mp (h b hb).1, (h b hb).2.1.1,
              (h b hb).2.1.2.2, (h b hb).2.2⟩⟩
        · rintro ⟨⟨-, -, -, hbelow⟩, h⟩ b hb
          exact ⟨(ProjectionActionKind.lands_congr (hsame b hb)).mpr (h b hb).1,
            ⟨(h b hb).2.1, hbelow b hb, (h b hb).2.2.1⟩, (h b hb).2.2.2⟩
      · refine (hdone (hlands.mp h)).cons hpath (hpath ▸ hnodup.1) ?_ hwrote.fileAt ?_
          fun other => (hwrote.dirAt other).mp
        · refine ⟨hid, ?_⟩
          rw [hkind]
          exact ⟨stat, rfl, hlanded⟩
        · intro bytes' expected' heq old hold
          rw [hkind] at heq
          cases heq
          rw [hkept old hold]
    · obtain ⟨result, volume', happly, hinvalid, -⟩ :=
        applyProjectionAction_write_fails hkind hplain hhead hgoes
      have hmiss : ¬AllLand (carryOut random (action :: plan) volume).1 := by
        rw [carryOut_cons_of_misses happly hinvalid]
        intro h
        rw [h result (List.mem_singleton_self _)] at hinvalid
        cases hinvalid
      refine ⟨iff_of_false hmiss fun h => hgoes ?_, fun h => absurd h hmiss⟩
      obtain ⟨hmet, hclear, -⟩ := h action List.mem_cons_self
      exact ⟨hmet, hpath ▸ hclear⟩

/-- Deletes of files that meet their preconditions land. -/
theorem carryOut_deletes (hplain : volume.disk.Plain)
    (hnodup : (plan.map fun a => a.kind.path).Nodup)
    (hdelete : ∀ a ∈ plan, (∃ path expected, a.kind = .deleteFile path expected) ∧
      a.kind.Meets volume.disk ∧ volume.disk.fileAt a.kind.path ≠ none) :
    AllLand (carryOut random plan volume).1 ∧
      PlanLanded plan (carryOut random plan volume).1 volume.disk (carryOut random plan volume).2.disk := by
  induction plan generalizing volume with
  | nil =>
    exact ⟨fun r hr => absurd hr List.not_mem_nil, hplain, .nil, fun _ _ => rfl,
      fun a ha => absurd ha List.not_mem_nil, fun _ => .inl⟩
  | cons action plan ih =>
    rw [List.map_cons, List.nodup_cons] at hnodup
    obtain ⟨⟨path, expected, hkind⟩, hmeets, hfile⟩ := hdelete action List.mem_cons_self
    have hpath : action.kind.path = path := by rw [hkind]; rfl
    rw [hpath] at hfile
    obtain ⟨volume', happly, hplain', hfiles, hdirs⟩ :=
      applyProjectionAction_delete random hkind hplain hmeets hfile
    have hne : ∀ b ∈ plan, path ≠ b.kind.path := fun b hb heq =>
      hnodup.1 (by rw [hpath, heq]; exact List.mem_map_of_mem (f := fun a => a.kind.path) hb)
    obtain ⟨hall, hdone⟩ := @ih volume' hplain' hnodup.2
      fun b hb => by
        obtain ⟨hb₁, hb₂, hb₃⟩ := hdelete b (List.mem_cons_of_mem _ hb)
        have hsame : volume'.disk.fileAt b.kind.path = volume.disk.fileAt b.kind.path := by
          rw [hfiles, if_neg (hne b hb)]
        exact ⟨hb₁, hb₂.congr hsame, by rw [hsame]; exact hb₃⟩
    rw [carryOut_cons_of_lands happly rfl]
    refine ⟨List.forall_mem_cons.mpr ⟨rfl, hall⟩, hdone.cons hpath (hpath ▸ hnodup.1) ?_ hfiles ?_
      fun other h => .inl (hdirs other ▸ h)⟩
    · refine ⟨rfl, ?_⟩
      rw [hkind]
      exact ⟨rfl, rfl⟩
    · intro bytes expected heq
      rw [hkind] at heq
      cases heq

end Volume

/-! ## Plans on a volume that mirrors the prior tree -/

/-- Beside the files of the daemon the volume has the files of the prior tree. -/
def Volume.Mirrors [Xxh3] (volume : Volume) (db : Db D) : Prop :=
  ∀ path, isHardIgnored path = false →
    (volume.disk.fileAt path).map (fun file => statAndContentFingerprint file.1 file.2) =
      (db.priorTreeLiveFile path).map PriorTreeRow.fingerprint

section Mirror

variable [TextCrdt D] [Xxh3] [DecidableEq D] {db : Db D} {volume : Volume} {epoch : Nat}
  {random : ProjectionActionId → Fin (2 ^ 64)}

omit [TextCrdt D] [DecidableEq D] in
theorem Volume.Mirrors.fileAt_eq_none_iff (h : volume.Mirrors db) {path : RelativePath}
    (hpath : isHardIgnored path = false) :
    volume.disk.fileAt path = none ↔ db.priorTreeLiveFile path = none := by
  rw [← Option.map_eq_none_iff (f := fun file => statAndContentFingerprint file.1 file.2), h path hpath,
    Option.map_eq_none_iff]

omit [TextCrdt D] [DecidableEq D] in
/-- The file of a live row meets its fingerprint. -/
theorem Volume.Mirrors.meets (h : volume.Mirrors db) {path : RelativePath}
    (hpath : isHardIgnored path = false) {prior : PriorTreeRow}
    (hprior : db.priorTreeLiveFile path = some prior) :
    (ExpectedBefore.presentWithFingerprint prior.fingerprint).meets (volume.disk.fileAt path) = true := by
  have hfile := h path hpath
  rw [hprior, Option.map_some, Option.map_eq_some_iff] at hfile
  obtain ⟨file, hfile, hfingerprint⟩ := hfile
  rw [hfile, ExpectedBefore.meets, Option.any_some, ← hfingerprint]
  exact FileFingerprint.satisfies_statAndContent.mpr rfl

omit [Xxh3] in
/-- A plan has its writes first, then its deletes. -/
theorem exists_writes_deletes (db : Db D) (epoch : Nat) : ∃ writes deletes,
    projectionActions epoch db.plannedProjections = writes ++ deletes ∧
      (∀ a ∈ writes, ∃ row expected, (row, expected) ∈ db.rowsToWrite ∧
        a.kind = .writeFile row.path (TextCrdt.getText (db.stableText row.objectId)) expected) ∧
      (∀ row expected, (row, expected) ∈ db.rowsToWrite → ∃ a ∈ writes, a.kind.path = row.path) ∧
      ∀ a ∈ deletes, ∃ prior ∈ db.rowsToDelete,
        a.kind = .deleteFile prior.path (.presentWithFingerprint prior.fingerprint) := by
  have hmap := map_projectionActions epoch db.plannedProjections
  rw [Db.plannedProjections] at hmap
  obtain ⟨writes, deletes, hsplit, hwrites, hdeletes⟩ := List.map_eq_append_iff.mp hmap
  refine ⟨writes, deletes, hsplit, fun a ha => ?_, fun row expected hrow => ?_, fun a ha => ?_⟩
  · have hmem : (a.kind, a.commitContext) ∈ db.rowsToWrite.map fun r => db.plannedWrite r.1 r.2 := by
      rw [← hwrites]
      exact List.mem_map.mpr ⟨a, ha, rfl⟩
    obtain ⟨⟨row, expected⟩, hrow, heq⟩ := List.mem_map.mp hmem
    exact ⟨row, expected, hrow, (Prod.mk.inj heq).1.symm⟩
  · have hmem : db.plannedWrite row expected ∈
        writes.map fun a : ProjectionAction D => (a.kind, a.commitContext) := by
      rw [hwrites]
      exact List.mem_map.mpr ⟨(row, expected), hrow, rfl⟩
    obtain ⟨a, ha, heq⟩ := List.mem_map.mp hmem
    refine ⟨a, ha, ?_⟩
    rw [(Prod.mk.inj heq).1]
    rfl
  · have hmem : (a.kind, a.commitContext) ∈ db.rowsToDelete.map plannedDelete := by
      rw [← hdeletes]
      exact List.mem_map.mpr ⟨a, ha, rfl⟩
    obtain ⟨prior, hprior, heq⟩ := List.mem_map.mp hmem
    exact ⟨prior, hprior, (Prod.mk.inj heq).1.symm⟩

omit [Xxh3] in
/-- No path is in a plan twice. -/
theorem nodup_paths_projectionActions (db : Db D) (epoch : Nat) :
    ((projectionActions epoch db.plannedProjections).map fun a => a.kind.path).Nodup := by
  have hpaths : (projectionActions epoch db.plannedProjections).map (fun a => a.kind.path) =
      db.plannedProjections.map fun p => p.2.path := by
    have hmap := congrArg (List.map fun p : PlannedProjection D => p.2.path)
      (map_projectionActions epoch db.plannedProjections)
    rw [List.map_map] at hmap
    rw [← hmap]
    refine List.map_congr_left fun a ha => ?_
    exact ((path_of_mem_plannedProjections (mem_projectionActions ha).1).1).symm
  rw [hpaths]
  exact nodup_paths_plannedProjections db

/-- The plan of a database, on a volume that nobody else changes. -/
structure Undisturbed (random : ProjectionActionId → Fin (2 ^ 64)) (epoch : Nat) (db : Db D)
    (volume : Volume) : Prop where
  /-- The volume holds directories and files. -/
  plain : volume.disk.Plain
  /-- Its files are those of the prior tree. -/
  mirrors : volume.Mirrors db
  /-- No planned path is hard ignored. -/
  notIgnored : ∀ planned ∈ db.plannedProjections, isHardIgnored planned.1.path = false
  /-- The swap files are not there. -/
  fresh : ∀ action ∈ projectionActions epoch db.plannedProjections,
    Volume.Fresh (random action.id) action.kind.path volume.disk

/-- The actions of the plan can be started, and their preconditions are met. -/
theorem Undisturbed.ready (h : Undisturbed random epoch db volume) {action : ProjectionAction D}
    (haction : action ∈ projectionActions epoch db.plannedProjections) :
    action.Startable random volume.disk ∧ action.kind.Meets volume.disk := by
  have hplanned := (mem_projectionActions haction).1
  have hignored : isHardIgnored action.kind.path = false := h.notIgnored _ hplanned
  refine ⟨⟨hignored, h.fresh action haction⟩, ?_⟩
  rw [Db.plannedProjections, List.mem_append, List.mem_map, List.mem_map] at hplanned
  rcases hplanned with ⟨⟨row, expected⟩, hrow, heq⟩ | ⟨prior, hprior, heq⟩
  · have hkind : action.kind = .writeFile row.path (TextCrdt.getText (db.stableText row.objectId))
        expected := (Prod.mk.inj heq).1.symm
    rw [hkind] at hignored ⊢
    change isHardIgnored row.path = false at hignored
    change expected.meets (volume.disk.fileAt row.path) = true
    rcases expectedBefore_eq_some (mem_rowsToWrite.mp hrow).2 with ⟨hnone, rfl⟩ | ⟨prior, hprior, -, rfl⟩
    · rw [(h.mirrors.fileAt_eq_none_iff hignored).mpr hnone]
      rfl
    · exact h.mirrors.meets hignored hprior
  · have hkind : action.kind = .deleteFile prior.path (.presentWithFingerprint prior.fingerprint) :=
      (Prod.mk.inj heq).1.symm
    rw [hkind] at hignored ⊢
    obtain ⟨⟨hmem, hlive⟩, -⟩ := mem_rowsToDelete.mp hprior
    exact h.mirrors.meets hignored (Db.priorTreeLiveFile_eq_some_iff.mpr ⟨hmem, rfl, hlive⟩)

/-- A file is above a path exactly if a live row is. -/
theorem Undisturbed.blocked_iff (h : Undisturbed random epoch db volume) {path : RelativePath}
    (hpath : isHardIgnored path = false) : volume.disk.Blocked path ↔
      ∃ other : RelativePath, other.IsAbove path ∧ db.priorSnapshot other ≠ none := by
  have hother : ∀ other : RelativePath, other.IsAbove path →
      (volume.disk.fileAt other ≠ none ↔ db.priorSnapshot other ≠ none) := by
    intro other habove
    have hignored : isHardIgnored other = false := by
      apply Bool.eq_false_of_not_eq_true
      intro hignored
      rw [isHardIgnored_of_isAbove habove hignored] at hpath
      cases hpath
    rw [Ne, Ne, h.mirrors.fileAt_eq_none_iff hignored, priorSnapshot_eq_none_iff]
  constructor
  · rintro ⟨other, habove, hfile⟩
    exact ⟨other, habove, (hother other habove).mp hfile⟩
  · rintro ⟨other, habove, hprior⟩
    exact ⟨other, habove, (hother other habove).mpr hprior⟩

/-- A plan lands exactly if nothing is in the way of any of its writes, nor is one above another one;
then all of it has landed. -/
theorem Undisturbed.landed (h : Undisturbed random epoch db volume) :
    (AllLand (carryOut random (projectionActions epoch db.plannedProjections) volume).1 ↔
      ∀ row expected, (row, expected) ∈ db.rowsToWrite → volume.disk.Clear row.path ∧
        ∀ row' expected', (row', expected') ∈ db.rowsToWrite → ¬row'.path.IsAbove row.path) ∧
    (AllLand (carryOut random (projectionActions epoch db.plannedProjections) volume).1 →
      PlanLanded (projectionActions epoch db.plannedProjections)
        (carryOut random (projectionActions epoch db.plannedProjections) volume).1 volume.disk
        (carryOut random (projectionActions epoch db.plannedProjections) volume).2.disk) := by
  have hready : ∀ a ∈ projectionActions epoch db.plannedProjections,
      a.Startable random volume.disk ∧ a.kind.Meets volume.disk := fun a => h.ready
  have hnodup := nodup_paths_projectionActions db epoch
  obtain ⟨writes, deletes, hsplit, hwrites, hrows, hdeletes⟩ := exists_writes_deletes db epoch
  rw [hsplit] at hready hnodup ⊢
  rw [List.map_append] at hnodup
  obtain ⟨hnodupWrites, hnodupDeletes, hdisjoint⟩ := List.nodup_append.mp hnodup
  have hpaths : ∀ a ∈ writes, ∀ b ∈ deletes, b.kind.path ≠ a.kind.path := fun a ha b hb heq =>
    hdisjoint _ (List.mem_map_of_mem ha) _ (List.mem_map_of_mem hb) heq.symm
  obtain ⟨hiff, hdone⟩ := carryOut_writes h.plain hnodupWrites
    (fun a ha => (hready a (List.mem_append_left _ ha)).1) fun a ha => by
      obtain ⟨row, expected, -, hkind⟩ := hwrites a ha
      exact ⟨_, _, _, hkind⟩
  -- The deletes land after the writes, whose paths are other ones.
  have hrest : AllLand (carryOut random writes volume).1 →
      AllLand (carryOut random deletes (carryOut random writes volume).2).1 ∧
        PlanLanded deletes (carryOut random deletes (carryOut random writes volume).2).1
          (carryOut random writes volume).2.disk
          (carryOut random deletes (carryOut random writes volume).2).2.disk := by
    intro hlands
    have hlanded := hdone hlands
    have hsame : ∀ b ∈ deletes, (carryOut random writes volume).2.disk.fileAt b.kind.path =
        volume.disk.fileAt b.kind.path := fun b hb =>
      hlanded.others _ fun a ha heq => hpaths a ha b hb heq.symm
    refine carryOut_deletes hlanded.plain hnodupDeletes fun b hb => ?_
    obtain ⟨prior, hprior, hkind⟩ := hdeletes b hb
    obtain ⟨⟨hmem, hlive⟩, -⟩ := mem_rowsToDelete.mp hprior
    obtain ⟨hstart, hmeets⟩ := hready b (List.mem_append_right _ hb)
    have hignored := hstart.notIgnored
    refine ⟨⟨_, _, hkind⟩, hmeets.congr (hsame b hb), ?_⟩
    rw [hsame b hb, hkind]
    rw [hkind] at hignored
    rw [Ne, h.mirrors.fileAt_eq_none_iff hignored]
    have hfind : db.priorTreeLiveFile prior.path = some prior :=
      Db.priorTreeLiveFile_eq_some_iff.mpr ⟨hmem, rfl, hlive⟩
    change ¬db.priorTreeLiveFile prior.path = none
    rw [hfind]
    exact Option.some_ne_none _
  have hall : AllLand (carryOut random (writes ++ deletes) volume).1 ↔
      AllLand (carryOut random writes volume).1 := by
    refine ⟨AllLand.of_append, fun hlands => ?_⟩
    rw [carryOut_append hlands]
    intro r hr
    exact (List.mem_append.mp hr).elim (hlands r) ((hrest hlands).1 r)
  refine ⟨?_, fun hlands => ?_⟩
  · rw [hall, hiff]
    constructor
    · intro hclear row expected hrow
      obtain ⟨a, ha, hpath⟩ := hrows row expected hrow
      obtain ⟨-, hfree, hothers⟩ := hclear a ha
      rw [← hpath]
      refine ⟨hfree, fun row' expected' hrow' => ?_⟩
      obtain ⟨b, hb, hpath'⟩ := hrows row' expected' hrow'
      rw [← hpath']
      exact hothers b hb
    · intro hclear a ha
      obtain ⟨row, expected, hrow, hkind⟩ := hwrites a ha
      obtain ⟨hclear, hothers⟩ := hclear row expected hrow
      refine ⟨.inl (hready a (List.mem_append_left _ ha)).2, ?_⟩
      rw [hkind]
      refine ⟨hclear, fun b hb => ?_⟩
      obtain ⟨row', expected', hrow', hkind'⟩ := hwrites b hb
      rw [hkind']
      exact hothers row' expected' hrow'
  · rw [hall] at hlands
    rw [carryOut_append hlands]
    exact (hdone hlands).append (hrest hlands).2 hpaths

end Mirror

/-! ## A file that another daemon has placed in a new directory -/

section Placed

open Snapshots

/-- Another daemon claims a path in a directory and writes its text. -/
def placedRun : List (DaemonAction Doc) :=
  serveBatch (foreignBatch 0 [.namespaceUpdate (NamespaceDoc.mintedOps 77 0
      [.object [3] ⟨.text, [9]⟩, .claim [4] ⟨[3], fileIn 1 2⟩]),
    .textObjectUpdate [3] ((TextCrdt.new : Doc).write 77 [104, 105])])

theorem priorTreeLiveFile_of_empty {db : Db D} (hprior : db.priorTree.rows.length = 0)
    (path : RelativePath) : db.priorTreeLiveFile path = none := by
  rw [Option.eq_none_iff_forall_not_mem]
  intro row hrow
  have hmem := (Db.priorTreeLiveFile_eq_some_iff.mp hrow).1
  rw [← Table.mem_rows, List.length_eq_zero_iff.mp hprior] at hmem
  cases hmem

/-- An empty sync root is undisturbed when nothing was accepted. -/
theorem undisturbed_emptyRoot {db : Db Doc} (hprior : db.priorTree.rows.length = 0)
    (hignored : ∀ planned ∈ db.plannedProjections, isHardIgnored planned.1.path = false)
    (random : ProjectionActionId → Fin (2 ^ 64)) (epoch : Nat) :
    Undisturbed random epoch db .emptyRoot where
  plain := Volume.plain_emptyRoot
  mirrors path _ := by
    rw [priorTreeLiveFile_of_empty hprior, Volume.fileAt_emptyRoot]
    rfl
  notIgnored := hignored
  fresh action _ temp _ := ⟨Volume.fileAt_emptyRoot temp, Volume.dirAt_emptyRoot temp⟩

end Placed

/-! ## The commit of a plan that has landed -/

/-- The actions of a plan with their results. -/
def completedActions (plan : List (ProjectionAction D)) (results : List ProjectionActionResult) :
    List (CompletedProjectionAction D) :=
  List.zipWith (fun action result => ⟨action.id, action.commitContext, result⟩) plan results

theorem ProjectionActionResult.deleted_of_landed {result : ProjectionActionResult} {f : FileFingerprint}
    (h : result.landed = some f) : result.deleted = false := by
  unfold landed at h
  split at h
  · rfl
  · rfl
  · cases h

section Commit

variable [Xxh3] {db db' : Db D} {now : Timestamp}

/-- The row of a path after the commit of its action has the fingerprint of its file. -/
theorem fingerprint_of_commit {action : ProjectionAction D} {result : ProjectionActionResult}
    {file : Option (FileStatFingerprint × Bytes)} {u : PUnit}
    (h : Runs (commitCompletedProjectionActionTx now ⟨action.id, action.commitContext, result⟩) db u db')
    (hachieved : action.Achieved result file) :
    (db'.priorTreeLiveFile action.commitContext.path).map PriorTreeRow.fingerprint =
      file.map fun f => statAndContentFingerprint f.1 f.2 := by
  obtain ⟨-, hachieved⟩ := hachieved
  rcases runs_commitCompletedProjectionActionTx h with ⟨doc, stat, hash, hlanded, -, rfl⟩ | ⟨hdeleted, rfl⟩
  · rw [priorTreeLiveFile_writeAccepted, if_pos rfl]
    cases hkind : action.kind with
    | writeFile path bytes expected =>
      rw [hkind] at hachieved
      obtain ⟨stat', rfl, hresult⟩ := hachieved
      rw [hlanded] at hresult
      simpa using hresult
    | deleteFile path expected =>
      rw [hkind] at hachieved
      rw [ProjectionActionResult.deleted_of_landed hlanded] at hachieved
      cases hachieved.2
  · rw [priorTreeLiveFile_deleteAccepted, if_pos rfl]
    cases hkind : action.kind with
    | writeFile path bytes expected =>
      rw [hkind] at hachieved
      obtain ⟨stat', -, hresult⟩ := hachieved
      rw [ProjectionActionResult.deleted_of_landed hresult] at hdeleted
      cases hdeleted
    | deleteFile path expected =>
      rw [hkind] at hachieved
      rw [hachieved.1]
      rfl

/-- The rows after the commit of a plan have the fingerprints of the files, and the others are as they
were. -/
theorem fingerprints_of_commit {plan : List (ProjectionAction D)} {results : List ProjectionActionResult}
    {files : RelativePath → Option (FileStatFingerprint × Bytes)}
    (hachieved : List.Forall₂ (fun action result => action.Achieved result (files action.kind.path))
      plan results)
    (hnodup : (plan.map fun a => a.kind.path).Nodup)
    (hcontext : ∀ a ∈ plan, a.commitContext.path = a.kind.path)
    (h : Runs (forM (completedActions plan results) (commitCompletedProjectionActionTx now)) db ⟨⟩ db') :
    (∀ a ∈ plan, (db'.priorTreeLiveFile a.kind.path).map PriorTreeRow.fingerprint =
      (files a.kind.path).map fun f => statAndContentFingerprint f.1 f.2) ∧
    ∀ path, (∀ a ∈ plan, a.kind.path ≠ path) → db'.priorTreeLiveFile path = db.priorTreeLiveFile path := by
  induction hachieved generalizing db with
  | nil =>
    rw [completedActions, List.zipWith_nil_left, Runs.forM_nil_iff] at h
    subst h
    exact ⟨fun a ha => absurd ha List.not_mem_nil, fun _ _ => rfl⟩
  | @cons action result plan results hhead hrest ih =>
    rw [List.map_cons, List.nodup_cons] at hnodup
    have hpath := hcontext action List.mem_cons_self
    obtain ⟨t, hfirst, h⟩ := Runs.forM_cons_iff.mp h
    obtain ⟨hrows, hothers⟩ := ih hnodup.2 (fun a ha => hcontext a (List.mem_cons_of_mem _ ha)) h
    have hkept : db'.priorTreeLiveFile action.kind.path = t.priorTreeLiveFile action.kind.path :=
      hothers _ fun a ha heq => hnodup.1 (heq ▸ List.mem_map_of_mem (f := fun a => a.kind.path) ha)
    refine ⟨List.forall_mem_cons.mpr ⟨?_, hrows⟩, fun path hne => ?_⟩
    · rw [hkept, ← hpath, fingerprint_of_commit hfirst hhead, hpath]
    · rw [hothers path fun a ha => hne a (List.mem_cons_of_mem _ ha)]
      refine priorTreeLiveFile_of_commitAction hfirst ?_
      change action.commitContext.path ≠ path
      rw [hpath]
      exact hne action List.mem_cons_self

end Commit

section Mirror

variable [TextCrdt D] [Xxh3] [DecidableEq D] {db db₁ db₂ : Db D} {volume : Volume} {epoch : Nat}
  {random : ProjectionActionId → Fin (2 ^ 64)}

omit [TextCrdt D] [DecidableEq D] in
/-- Each action of a plan that has landed has its target. -/
theorem PlanLanded.exists_achieved {plan : List (ProjectionAction D)}
    {results : List ProjectionActionResult} {disk disk' : Disk} (h : PlanLanded plan results disk disk')
    {action : ProjectionAction D} (haction : action ∈ plan) :
    ∃ result, action.Achieved result (disk'.fileAt action.kind.path) := by
  obtain ⟨n, hn, rfl⟩ := List.getElem_of_mem haction
  exact ⟨_, h.achieved.get hn (h.achieved.length_eq ▸ hn)⟩

omit [Xxh3] in
/-- What is planned is an action of the plan. -/
theorem exists_action_of_mem {planned : PlannedProjection D} (h : planned ∈ db.plannedProjections)
    (epoch : Nat) : ∃ action ∈ projectionActions epoch db.plannedProjections,
      action.kind = planned.1 := by
  rw [← map_projectionActions epoch db.plannedProjections] at h
  obtain ⟨action, haction, rfl⟩ := List.mem_map.mp h
  exact ⟨action, haction, rfl⟩

/-- The file of a path once the plan has landed. -/
theorem Undisturbed.fileAt_landed (h : Undisturbed random epoch db volume)
    {results : List ProjectionActionResult} {disk' : Disk}
    (hlanded : PlanLanded (projectionActions epoch db.plannedProjections) results volume.disk disk')
    {path : RelativePath} (hignored : isHardIgnored path = false) :
    (disk'.fileAt path ≠ none ↔ db.stableSnapshot path ≠ none) ∧
      ∀ id doc, db.stableSnapshot path = some (id, doc) → db.priorSnapshot path ≠ some (id, doc) →
        ∃ stat, disk'.fileAt path = some (stat, TextCrdt.getText doc) := by
  have hwritten : ∀ id doc, db.stableSnapshot path = some (id, doc) →
      db.priorSnapshot path ≠ some (id, doc) →
        ∃ stat, disk'.fileAt path = some (stat, TextCrdt.getText doc) := by
    intro id doc hstable hdiffers
    obtain ⟨row, expected, hrow, rfl⟩ := exists_rowsToWrite_iff.mpr
      ⟨by rw [hstable]; exact Option.some_ne_none _, fun heq => hdiffers (heq.symm.trans hstable)⟩
    rw [stableSnapshot_of_mem (mem_rowsToWrite.mp hrow).1, Option.some.injEq, Prod.mk.injEq] at hstable
    obtain ⟨rfl, rfl⟩ := hstable
    have hplanned : db.plannedWrite row expected ∈ db.plannedProjections :=
      List.mem_append_left _ (List.mem_map.mpr ⟨_, hrow, rfl⟩)
    obtain ⟨action, haction, hkind⟩ := exists_action_of_mem hplanned epoch
    obtain ⟨result, -, hachieved⟩ := hlanded.exists_achieved haction
    rw [hkind] at hachieved
    obtain ⟨stat, hfile, -⟩ := hachieved
    exact ⟨stat, hfile⟩
  have hsame : db.stableSnapshot path = db.priorSnapshot path →
      disk'.fileAt path = volume.disk.fileAt path := fun heq =>
    hlanded.others path fun action haction => path_ne_of_snapshot_eq heq _
      (mem_projectionActions haction).1
  refine ⟨?_, hwritten⟩
  cases hstable : db.stableSnapshot path with
  | none =>
    refine iff_of_false (not_not_intro ?_) (not_not_intro rfl)
    by_cases hprior : db.priorSnapshot path = none
    · rw [hsame (hstable.trans hprior.symm)]
      exact (h.mirrors.fileAt_eq_none_iff hignored).mpr (priorSnapshot_eq_none_iff.mp hprior)
    · obtain ⟨prior, hmem, rfl⟩ := exists_rowsToDelete_iff.mpr ⟨hprior, hstable⟩
      have hplanned : plannedDelete prior ∈ db.plannedProjections :=
        List.mem_append_right _ (List.mem_map_of_mem hmem)
      obtain ⟨action, haction, hkind⟩ := exists_action_of_mem hplanned epoch
      obtain ⟨result, -, hachieved⟩ := hlanded.exists_achieved haction
      rw [hkind] at hachieved
      exact hachieved.1
  | some placed =>
    refine iff_of_true ?_ (Option.some_ne_none _)
    by_cases hprior : db.priorSnapshot path = some placed
    · rw [hsame (hstable.trans hprior.symm), Ne, h.mirrors.fileAt_eq_none_iff hignored,
        ← priorSnapshot_eq_none_iff, hprior]
      exact Option.some_ne_none _
    · obtain ⟨stat, hfile⟩ := hwritten placed.1 placed.2 hstable hprior
      rw [hfile]
      exact Option.some_ne_none _

/-- The prior tree that accepts a plan that has landed mirrors the volume, and the hard ignored files are
as they were. -/
theorem Undisturbed.mirrors_of_commit (h : Undisturbed random epoch db volume) {after : Volume}
    {results : List ProjectionActionResult} {generation : SequenceNumber} {target : NamespaceDoc}
    {now : Timestamp}
    (hlanded : PlanLanded (projectionActions epoch db.plannedProjections) results volume.disk after.disk)
    (hprior : db₁.priorTree = db.priorTree)
    (hcommit : Runs (commitProjectionEpochTx ⟨epoch, generation, target,
      completedActions (projectionActions epoch db.plannedProjections) results⟩ .planExhausted now)
      db₁ ⟨⟩ db₂) :
    after.Mirrors db₂ ∧
      ∀ path, isHardIgnored path = true → after.disk.fileAt path = volume.disk.fileAt path := by
  obtain ⟨hreason, -⟩ | ⟨-, hcommit⟩ := runs_commitProjectionEpochTx hcommit
  · exact absurd rfl hreason
  obtain ⟨hrows, hothers⟩ := fingerprints_of_commit hlanded.achieved
    (nodup_paths_projectionActions db epoch)
    (fun a ha => (path_of_mem_plannedProjections (mem_projectionActions ha).1).1) hcommit
  have hignored : ∀ a ∈ projectionActions epoch db.plannedProjections,
      isHardIgnored a.kind.path = false := fun a ha => (h.ready ha).1.notIgnored
  refine ⟨fun path hpath => ?_, fun path hpath => ?_⟩
  · by_cases hplanned : ∃ a ∈ projectionActions epoch db.plannedProjections, a.kind.path = path
    · obtain ⟨a, ha, rfl⟩ := hplanned
      exact (hrows a ha).symm
    · have hnone : ∀ a ∈ projectionActions epoch db.plannedProjections, a.kind.path ≠ path :=
        fun a ha heq => hplanned ⟨a, ha, heq⟩
      have hrow : db₂.priorTreeLiveFile path = db.priorTreeLiveFile path := by
        rw [hothers path hnone, Db.priorTreeLiveFile, Db.priorTreeLiveFile, hprior]
      rw [hlanded.others path hnone, hrow]
      exact h.mirrors path hpath
  · refine hlanded.others path fun a ha heq => ?_
    rw [← heq, hignored a ha] at hpath
    cases hpath

end Mirror

section Placed

open Snapshots

end Placed

end Opbox
