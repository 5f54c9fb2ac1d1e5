import Opbox.Crdt.Snapshots
import Opbox.Fs.Disk

/-!
# What a scan finds

On a disk that does not change, a scan finds the entries of its scope whose directories inside the
scope are all real directories that the rules do not ignore.  Directories above the scope's path
are not looked at: a scoped scan resolves its path through them, links and ignored directories
included, where the full scan would have stopped.
-/

namespace Opbox

/-! ## Paths above a path -/

namespace RelativePath

variable {dir path : RelativePath}

/-- The directory is on the way to the path. -/
def IsAbove (dir path : RelativePath) : Prop := dir.components <+: path.components.dropLast

theorem parent_eq_some {parent : RelativePath} :
    path.parent = some parent ↔ path.components.dropLast = parent.components := by
  unfold RelativePath.parent
  split_ifs with h
  · rw [h]
    exact ⟨by rintro ⟨⟩, fun hnil => absurd hnil.symm parent.nonempty⟩
  · rw [Option.some.injEq]
    exact ⟨fun heq => heq ▸ rfl, fun heq => components_injective heq⟩

theorem parent_eq_none : path.parent = none ↔ path.components.dropLast = [] := by
  unfold RelativePath.parent
  split_ifs with h
  · exact iff_of_true rfl h
  · exact iff_of_false (by simp) h

/-- The components of the parent, none for the sync root. -/
theorem components_parent (path : RelativePath) :
    (path.parent.map components).getD [] = path.components.dropLast := by
  cases h : path.parent with
  | none => exact (parent_eq_none.mp h).symm
  | some parent => exact (parent_eq_some.mp h).symm

theorem not_isAbove_of_parent_eq_none (h : path.parent = none) : ¬dir.IsAbove path := by
  intro habove
  rw [IsAbove, parent_eq_none.mp h, List.prefix_nil] at habove
  exact dir.nonempty habove

/-- What is at or above the parent is above the path. -/
theorem isAbove_iff_of_parent {parent : RelativePath} (h : path.parent = some parent) :
    dir.IsAbove path ↔ dir = parent ∨ dir.IsAbove parent := by
  rw [IsAbove, parent_eq_some.mp h, ← dropLast_append_fileName parent, List.prefix_concat_iff,
    dropLast_append_fileName, components_injective.eq_iff, IsAbove]

theorem IsAbove.length_lt (h : dir.IsAbove path) :
    dir.components.length < path.components.length := by
  have hle := h.length_le
  have hpos := List.length_pos_of_ne_nil path.nonempty
  rw [List.length_dropLast] at hle
  omega

theorem prefix_iff_eq_or_isAbove :
    dir.components <+: path.components ↔ path = dir ∨ dir.IsAbove path := by
  rw [← dropLast_append_fileName path, List.prefix_concat_iff, dropLast_append_fileName,
    components_injective.eq_iff, eq_comm, IsAbove]

end RelativePath

open RelativePath

/-- A subtree holds its top and what is below. -/
theorem containsPath_subtree {top path : RelativePath} :
    (ScanScope.subtree top).containsPath path = true ↔ path = top ∨ top.IsAbove path := by
  rw [ScanScope.containsPath, Bool.or_eq_true, decide_eq_true_eq, List.isPrefixOf_iff_prefix,
    prefix_iff_eq_or_isAbove]
  tauto

/-! ## Children -/

/-- A child of a directory has it as its parent. -/
theorem parent_of_childPath {dir : Option RelativePath} {name : OsName} {path : RelativePath}
    (h : childPath dir name = .ok path) : path.parent = dir ∧ name = .utf8 path.fileName := by
  unfold childPath at h
  cases name with
  | raw bytes => cases h
  | utf8 text =>
    dsimp only [OsName.toStr] at h
    split at h
    next path' hnew =>
      cases h
      have hcomponents := components_of_new hnew
      have hname : path.fileName = text := by
        unfold RelativePath.fileName
        simp only [hcomponents, List.getLast_concat]
      refine ⟨?_, by rw [hname]⟩
      have hdrop : path.components.dropLast = (dir.map components).getD [] := by
        rw [hcomponents, List.dropLast_concat]
      cases dir with
      | none => exact parent_eq_none.mpr hdrop
      | some parent => exact parent_eq_some.mpr hdrop
    · cases h

/-- A path is a child of its parent. -/
theorem childPath_parent (path : RelativePath) :
    childPath path.parent (.utf8 path.fileName) = .ok path := by
  unfold childPath
  dsimp only [OsName.toStr]
  rw [components_parent, dropLast_append_fileName, new_components]

/-! ## The stat of a path -/

variable {disk disk' : Disk}

/-- `stat_path` on a disk that does not change. -/
def Disk.statEntry (disk : Disk) (path : RelativePath) : Except Report (Option TreeEntry) :=
  match disk.metadata path with
  | .ok metadata => .ok (metadata.entry path)
  | .error .notFound => .ok none
  | .error kind => .error (.io kind)

theorem exec_statPath (disk : Disk) (path : RelativePath) :
    (statPath path : Fio Disk _).exec disk = (disk.statEntry path, disk) := by
  have hcall : Syscalls.symlinkMetadata path disk = (disk.metadata path, disk) := rfl
  unfold statPath Disk.statEntry
  rw [Effect.exec_bind_ok (Effect.exec_call _ disk), hcall]
  cases disk.metadata path with
  | ok metadata => rfl
  | error kind => cases kind <;> rfl

theorem path_of_statEntry {path : RelativePath} {entry : TreeEntry}
    (h : disk.statEntry path = .ok (some entry)) :
    entry.path = path ∧ ∃ metadata, disk.metadata path = .ok metadata ∧
      metadata.entry path = some entry := by
  unfold Disk.statEntry at h
  split at h
  next metadata hmetadata =>
    have hentry := Except.ok.inj h
    refine ⟨?_, metadata, hmetadata, hentry⟩
    cases metadata with
    | directory => cases hentry; rfl
    | file stat => cases hentry; rfl
    | other => cases hentry
  · cases h
  · cases h

section Walk

variable [Gitignore] {rules : IgnoreRules}

/-- The scan keeps the entry when it comes to it. -/
def Disk.Kept (disk : Disk) (rules : IgnoreRules) (entry : TreeEntry) : Prop :=
  disk.statEntry entry.path = .ok (some entry) ∧
    rules.isIgnored entry.path entry.isDir = false

/-- The directories that a walk from these directories reads. -/
inductive Disk.Walked (disk : Disk) (rules : IgnoreRules) (tops : List (Option RelativePath)) :
    Option RelativePath → Prop
  /-- It reads those. -/
  | top {dir : Option RelativePath} (h : dir ∈ tops) : Walked disk rules tops dir
  /-- It reads the directories it keeps. -/
  | child {entry : TreeEntry} (h : Walked disk rules tops entry.path.parent)
      (hkept : disk.Kept rules entry) (hdir : entry.isDir = true) :
      Walked disk rules tops (some entry.path)

/-- The entries that a directory with these names has for the scan. -/
def Disk.KeptIn (disk : Disk) (rules : IgnoreRules) (dir : Option RelativePath)
    (names : List OsName) (entry : TreeEntry) : Prop :=
  disk.Kept rules entry ∧ ∃ name ∈ names, childPath dir name = .ok entry.path

/-- No entry is kept at a path that has none, or whose entry the rules ignore. -/
theorem not_kept_of_statEntry {entry : TreeEntry}
    (h : ∀ found, disk.statEntry entry.path = .ok (some found) →
      rules.isIgnored entry.path found.isDir = true) : ¬disk.Kept rules entry := by
  rintro ⟨hstat, hkept⟩
  rw [h entry hstat] at hkept
  cases hkept

/-- The first name of a directory and the others. -/
theorem keptIn_cons {dir : Option RelativePath} {name : OsName} {names : List OsName}
    {entry : TreeEntry} : disk.KeptIn rules dir (name :: names) entry ↔
      (disk.Kept rules entry ∧ childPath dir name = .ok entry.path) ∨
        disk.KeptIn rules dir names entry := by
  unfold Disk.KeptIn
  rw [List.exists_mem_cons_iff]
  tauto

/-- The inner loop adds the entries of the directory, and its directories to those to be read. -/
theorem readEntries_eq_some {dir : Option RelativePath} {fuel : Nat} {names : List OsName}
    {pending pending' : List (Option RelativePath)} {entries entries' : List TreeEntry}
    (h : (readEntries rules dir fuel names pending entries : Fio Disk _).exec disk =
      (.ok (some (pending', entries')), disk')) :
    disk' = disk ∧
      (∀ e, e ∈ entries' ↔ e ∈ entries ∨ disk.KeptIn rules dir names e) ∧
      ∀ q, q ∈ pending' ↔ q ∈ pending ∨
        ∃ e, disk.KeptIn rules dir names e ∧ e.isDir = true ∧ q = some e.path := by
  induction fuel generalizing names pending entries with
  | zero => cases h
  | succ fuel ih =>
    rw [readEntries, Effect.exec_bind_ok (Effect.exec_call _ disk)] at h
    cases names with
    | nil =>
      cases h
      refine ⟨rfl, fun e => ?_, fun q => ?_⟩
      · simp [Disk.KeptIn]
      · simp [Disk.KeptIn]
    | cons name names =>
      -- An entry that is skipped is not kept, and the loop goes on with the other names.
      have hskip : (∀ e, ¬(disk.Kept rules e ∧ childPath dir name = .ok e.path)) →
          (readEntries rules dir fuel names pending entries : Fio Disk _).exec disk =
            (.ok (some (pending', entries')), disk') →
          disk' = disk ∧
            (∀ e, e ∈ entries' ↔ e ∈ entries ∨ disk.KeptIn rules dir (name :: names) e) ∧
            ∀ q, q ∈ pending' ↔ q ∈ pending ∨
              ∃ e, disk.KeptIn rules dir (name :: names) e ∧ e.isDir = true ∧ q = some e.path := by
        intro hnone hrun
        obtain ⟨hdisk, hentries, hpending⟩ := ih hrun
        refine ⟨hdisk, fun e => ?_, fun q => ?_⟩
        · rw [hentries, keptIn_cons, or_iff_right (hnone e)]
        · rw [hpending]
          simp only [keptIn_cons, hnone, false_or]
      replace h : (liftM (childPath dir name) >>= _ : Fio Disk _).exec disk = _ := h
      rw [Effect.exec_bind_eq_ok] at h
      obtain ⟨path, _, hrun, h⟩ := h
      obtain ⟨hchild, rfl⟩ := Prod.mk.inj ((Effect.exec_lift _ disk).symm.trans hrun)
      split_ifs at h with hhard
      · refine hskip ?_ h
        rintro e ⟨hkept, hpath⟩
        cases hchild.symm.trans hpath
        exact not_kept_of_statEntry (fun _ _ => by rw [IgnoreRules.isIgnored, hhard]; rfl) hkept
      · obtain ⟨found, _, hrun, h⟩ := Effect.exec_bind_eq_ok.mp h
        obtain ⟨hstat, rfl⟩ := Prod.mk.inj ((exec_statPath disk path).symm.trans hrun)
        cases found with
        | none =>
          refine hskip ?_ h
          rintro e ⟨hkept, hpath⟩
          cases hchild.symm.trans hpath
          refine not_kept_of_statEntry (fun found hfound => ?_) hkept
          cases hstat.symm.trans hfound
        | some entry =>
          obtain ⟨rfl, -⟩ := path_of_statEntry hstat
          -- The entry found is the only one of its name.
          have honly : ∀ e, disk.Kept rules e ∧ childPath dir name = .ok e.path → e = entry := by
            rintro e ⟨hkept, hpath⟩
            have hsame : entry.path = e.path := Except.ok.inj (hchild.symm.trans hpath)
            have hstat' := hkept.1
            rw [← hsame, hstat] at hstat'
            exact (Option.some.inj (Except.ok.inj hstat')).symm
          dsimp only at h
          by_cases hignored : rules.isIgnored entry.path entry.isDir = true
          · rw [if_pos hignored] at h
            refine hskip (fun e he => ?_) h
            have hkept := he.1.2
            rw [honly e he, hignored] at hkept
            cases hkept
          · rw [if_neg hignored] at h
            obtain ⟨hdisk, hentries, hpending⟩ := ih h
            have hkept : disk.Kept rules entry := ⟨hstat, Bool.eq_false_iff.mpr hignored⟩
            have hfirst : ∀ e, (disk.Kept rules e ∧ childPath dir name = .ok e.path) ↔ e = entry :=
              fun e => ⟨honly e, fun heq => heq ▸ ⟨hkept, hchild⟩⟩
            refine ⟨hdisk, fun e => ?_, fun q => ?_⟩
            · rw [hentries, keptIn_cons, hfirst, List.mem_append, List.mem_singleton, or_assoc]
            · rw [hpending]
              simp only [keptIn_cons, hfirst, or_and_right, exists_or, exists_eq_left]
              cases hdir : entry.isDir with
              | true => simp only [if_true, List.mem_cons, true_and]; tauto
              | false => simp

/-- The entries of a directory that was opened are those with it as their parent. -/
theorem keptIn_iff_of_openDir {dir : Option RelativePath} {names : List OsName} {entry : TreeEntry}
    (hopen : disk.openDir dir = .ok names) :
    disk.KeptIn rules dir names entry ↔ disk.Kept rules entry ∧ entry.path.parent = dir := by
  constructor
  · rintro ⟨hkept, name, -, hchild⟩
    exact ⟨hkept, (parent_of_childPath hchild).1⟩
  · rintro ⟨hkept, rfl⟩
    obtain ⟨-, metadata, hmetadata, -⟩ := path_of_statEntry hkept.1
    rcases Disk.openDir_of_metadata hmetadata with ⟨names', hopen', hmem⟩ | hdenied
    · cases hopen.symm.trans hopen'
      exact ⟨hkept, _, hmem, childPath_parent entry.path⟩
    · cases hopen.symm.trans hdenied

/-- There are no entries in a directory that is not there. -/
theorem not_kept_of_openDir {entry : TreeEntry}
    (hopen : disk.openDir entry.path.parent = .error .notFound) : ¬disk.Kept rules entry := by
  intro hkept
  obtain ⟨-, metadata, hmetadata, -⟩ := path_of_statEntry hkept.1
  rcases Disk.openDir_of_metadata hmetadata with ⟨names, hopen', -⟩ | hdenied
  · cases hopen.symm.trans hopen'
  · cases hopen.symm.trans hdenied

theorem not_walked_nil {dir : Option RelativePath} : ¬disk.Walked rules [] dir := by
  intro h
  induction h with
  | top h => cases h
  | child _ _ _ ih => exact ih

/-- Reading a directory puts its directories in its place. -/
theorem walked_cons_iff {dir q : Option RelativePath} {pending pending' : List (Option RelativePath)}
    (h : ∀ q, q ∈ pending' ↔ q ∈ pending ∨
      ∃ e, (disk.Kept rules e ∧ e.path.parent = dir) ∧ e.isDir = true ∧ q = some e.path) :
    disk.Walked rules (dir :: pending) q ↔ q = dir ∨ disk.Walked rules pending' q := by
  constructor
  · intro hq
    induction hq with
    | top hmem =>
      rcases List.mem_cons.mp hmem with rfl | hmem
      · exact .inl rfl
      · exact .inr (.top ((h _).mpr (.inl hmem)))
    | @child e hparent hkept hdir ih =>
      rcases ih with heq | hwalked
      · exact .inr (.top ((h _).mpr (.inr ⟨e, ⟨hkept, heq⟩, hdir, rfl⟩)))
      · exact .inr (.child hwalked hkept hdir)
  · rintro (rfl | hq)
    · exact .top List.mem_cons_self
    · induction hq with
      | top hmem =>
        rcases (h _).mp hmem with hmem | ⟨e, ⟨hkept, heq⟩, hdir, rfl⟩
        · exact .top (List.mem_cons_of_mem _ hmem)
        · exact .child (heq ▸ .top List.mem_cons_self) hkept hdir
      | child _ hkept hdir ih => exact .child ih hkept hdir

/-- The walk adds the entries of all directories that it reads. -/
theorem walkDirs_eq_some {fuel : Nat} {pending : List (Option RelativePath)}
    {entries result : List TreeEntry}
    (h : (walkDirs rules fuel pending entries : Fio Disk _).exec disk =
      (.ok (some result), disk')) :
    disk' = disk ∧ ∀ e, e ∈ result ↔
      e ∈ entries ∨ (disk.Walked rules pending e.path.parent ∧ disk.Kept rules e) := by
  induction fuel generalizing pending entries with
  | zero => cases h
  | succ fuel ih =>
    cases pending with
    | nil =>
      cases h
      exact ⟨rfl, fun e => (or_iff_left fun hwalked => not_walked_nil hwalked.1).symm⟩
    | cons dir pending =>
      have hcall : Syscalls.readDir dir disk = (disk.openDir dir, disk) := rfl
      rw [walkDirs, Effect.exec_bind_ok (Effect.exec_call _ disk), hcall] at h
      cases hopen : disk.openDir dir with
      | error kind =>
        rw [hopen] at h
        cases kind with
        | notFound =>
          obtain ⟨hdisk, hresult⟩ := ih h
          have hempty : ∀ e, ¬((disk.Kept rules e ∧ e.path.parent = dir)) :=
            fun e he => not_kept_of_openDir (he.2 ▸ hopen) he.1
          have hwalked : ∀ q, disk.Walked rules (dir :: pending) q ↔
              q = dir ∨ disk.Walked rules pending q :=
            fun q => walked_cons_iff fun q => by simp [hempty]
          refine ⟨hdisk, fun e => ?_⟩
          rw [hresult, hwalked]
          have hnone := hempty e
          tauto
        | _ => cases h
      | ok names =>
        rw [hopen] at h
        obtain ⟨found, t, hread, hloop⟩ := Effect.exec_bind_eq_ok.mp h
        cases found with
        | none => cases hloop
        | some found =>
          obtain ⟨pending', entries'⟩ := found
          obtain ⟨rfl, hentries, hpending⟩ := readEntries_eq_some hread
          obtain ⟨hdisk, hresult⟩ := ih hloop
          simp only [keptIn_iff_of_openDir hopen] at hentries hpending
          refine ⟨hdisk, fun e => ?_⟩
          rw [hresult, hentries, walked_cons_iff hpending]
          tauto

/-! ## What a scan finds -/

/-- The path is a real directory that the rules do not ignore. -/
def Disk.Open (disk : Disk) (rules : IgnoreRules) (dir : RelativePath) : Prop :=
  disk.metadata dir = .ok .directory ∧ rules.isIgnored dir true = false

/-- The entry belongs to the scope, and the directories on the way that do are open. -/
def Disk.Finds (disk : Disk) (rules : IgnoreRules) (scope : ScanScope) (entry : TreeEntry) :
    Prop :=
  scope.containsPath entry.path = true ∧ disk.Kept rules entry ∧
    ∀ dir, dir.IsAbove entry.path → scope.containsPath dir = true → disk.Open rules dir

/-- An open directory is kept as such. -/
theorem kept_directory_iff {entry : TreeEntry} :
    disk.Kept rules entry ∧ entry.isDir = true ↔
      disk.Open rules entry.path ∧ entry.kind = .directory := by
  obtain ⟨path, kind⟩ := entry
  unfold Disk.Kept Disk.Open
  constructor
  · rintro ⟨⟨hstat, hignored⟩, hdir⟩
    cases kind with
    | directory =>
      obtain ⟨-, metadata, hmetadata, hentry⟩ := path_of_statEntry hstat
      cases metadata with
      | directory => exact ⟨⟨hmetadata, hignored⟩, rfl⟩
      | file stat => cases hentry
      | other => cases hentry
    | file fingerprint => cases hdir
  · rintro ⟨⟨hmetadata, hignored⟩, hkind⟩
    cases kind with
    | directory =>
      refine ⟨⟨?_, hignored⟩, rfl⟩
      rw [Disk.statEntry, hmetadata]
      rfl
    | file fingerprint => cases hkind

/-- A walk reads its top and the open directories in those it reads. -/
theorem walked_some_iff {top : Option RelativePath} {dir : RelativePath} :
    disk.Walked rules [top] (some dir) ↔
      top = some dir ∨ (disk.Open rules dir ∧ disk.Walked rules [top] dir.parent) := by
  constructor
  · intro h
    cases h with
    | top hmem => exact .inl (List.mem_singleton.mp hmem).symm
    | child hparent hkept hdir => exact .inr ⟨(kept_directory_iff.mp ⟨hkept, hdir⟩).1, hparent⟩
  · rintro (rfl | ⟨hopen, hparent⟩)
    · exact .top List.mem_cons_self
    · have hentry : disk.Kept rules ⟨dir, .directory⟩ ∧
          (⟨dir, .directory⟩ : TreeEntry).isDir = true := kept_directory_iff.mpr ⟨hopen, rfl⟩
      exact .child hparent hentry.1 hentry.2

/-- A walk from the sync root or from a directory comes to a path exactly if the directories on the
way are open. -/
theorem walked_parent_iff {top : Option RelativePath} (path : RelativePath) :
    disk.Walked rules [top] path.parent ↔ (∀ t : RelativePath, top = some t → t.IsAbove path) ∧
      ∀ dir : RelativePath, dir.IsAbove path → (∀ t, top = some t → t.IsAbove dir) →
        disk.Open rules dir := by
  induction hn : path.components.length using Nat.strong_induction_on generalizing path with
  | _ n ih =>
    cases hparent : path.parent with
    | none =>
      have hnone : ∀ dir : RelativePath, ¬dir.IsAbove path := fun dir => not_isAbove_of_parent_eq_none hparent
      constructor
      · intro h
        cases h with
        | top hmem =>
          rw [List.mem_singleton] at hmem
          exact ⟨fun t ht => absurd (hmem.trans ht) nofun, fun dir hdir => absurd hdir (hnone dir)⟩
      · rintro ⟨htop, -⟩
        cases top with
        | none => exact .top List.mem_cons_self
        | some t => exact absurd (htop t rfl) (hnone t)
    | some parent =>
      have habove : ∀ dir : RelativePath, dir.IsAbove path ↔ dir = parent ∨ dir.IsAbove parent :=
        fun dir => isAbove_iff_of_parent hparent
      have hlt : parent.components.length < n :=
        hn ▸ ((habove parent).mpr (.inl rfl)).length_lt
      rw [walked_some_iff, ih _ hlt parent rfl]
      by_cases htop : top = some parent
      · -- The walk starts at the parent: there is no directory in between.
        subst htop
        refine iff_of_true (.inl rfl) ⟨fun t ht => ?_, fun dir hdir hbelow => ?_⟩
        · cases ht
          exact (habove _).mpr (.inl rfl)
        · have hlong := (hbelow parent rfl).length_lt
          rcases (habove dir).mp hdir with rfl | hdir
          · exact absurd hlong (lt_irrefl _)
          · exact absurd hlong hdir.length_lt.not_gt
      · have hpath : (∀ t : RelativePath, top = some t → t.IsAbove path) ↔
            ∀ t : RelativePath, top = some t → t.IsAbove parent := by
          refine forall₂_congr fun t ht => ?_
          rw [habove]
          exact or_iff_right fun heq => htop (heq ▸ ht)
        rw [or_iff_right htop, hpath]
        constructor
        · rintro ⟨hopen, htops, hdirs⟩
          refine ⟨htops, fun dir hdir hbelow => ?_⟩
          rcases (habove dir).mp hdir with rfl | hdir
          · exact hopen
          · exact hdirs dir hdir hbelow
        · rintro ⟨htops, hdirs⟩
          exact ⟨hdirs parent ((habove _).mpr (.inl rfl)) htops, htops,
            fun dir hdir hbelow => hdirs dir ((habove _).mpr (.inr hdir)) hbelow⟩

/-- Loading the rules leaves the disk alone. -/
theorem exec_load {r : Except Report IgnoreRules}
    (h : (IgnoreRules.load : Fio Disk _).exec disk = (r, disk')) : disk' = disk := by
  have hread : Syscalls.read ignoreFilePath disk = (disk.readFile ignoreFilePath, disk) := rfl
  have hexists : Syscalls.pathExists ignoreFilePath disk = (disk.exists? ignoreFilePath, disk) := rfl
  unfold IgnoreRules.load at h
  rw [Effect.exec_bind_ok (Effect.exec_call _ disk), hread] at h
  dsimp only at h
  split at h
  · cases h
    rfl
  · rw [Effect.exec_bind_ok (Effect.exec_call _ disk), hexists] at h
    dsimp only at h
    split_ifs at h
    · cases h
      rfl
    · cases h
      rfl

/-- A path has one entry. -/
theorem kept_unique {entry entry' : TreeEntry} (h : disk.Kept rules entry)
    (h' : disk.Kept rules entry') (hpath : entry.path = entry'.path) : entry = entry' := by
  have hstat := h.1
  rw [hpath, h'.1] at hstat
  exact (Option.some.inj (Except.ok.inj hstat)).symm

/-- Nothing is kept below what is always ignored. -/
theorem not_finds_of_isHardIgnored {scope : ScanScope} {top : RelativePath} {entry : TreeEntry}
    (hscope : scope.containsPath entry.path = true → entry.path = top ∨ top.IsAbove entry.path)
    (hhard : isHardIgnored top = true) : ¬disk.Finds rules scope entry := by
  rintro ⟨hcontains, hkept, -⟩
  have hbelow := isHardIgnored_mono (prefix_iff_eq_or_isAbove.mpr (hscope hcontains)) hhard
  exact not_kept_of_statEntry (fun _ _ => by rw [IgnoreRules.isIgnored, hbelow]; rfl) hkept

/-- A subtree has entries only if its top is kept, and others than that only if it is a directory. -/
theorem top_of_finds_subtree {top : RelativePath} {entry : TreeEntry}
    (h : disk.Finds rules (.subtree top) entry) :
    (entry.path = top ∧ disk.Kept rules entry) ∨
      (top.IsAbove entry.path ∧ disk.Open rules top) := by
  obtain ⟨hcontains, hkept, hopen⟩ := h
  rcases containsPath_subtree.mp hcontains with hpath | habove
  · exact .inl ⟨hpath, hkept⟩
  · exact .inr ⟨habove, hopen top habove (containsPath_subtree.mpr (.inl rfl))⟩

/-- A subtree whose top is not kept has no entries. -/
theorem not_finds_subtree {top : RelativePath} {entry : TreeEntry}
    (h : ∀ found : TreeEntry, found.path = top → ¬disk.Kept rules found) :
    ¬disk.Finds rules (.subtree top) entry := by
  intro hfinds
  rcases top_of_finds_subtree hfinds with ⟨hpath, hkept⟩ | ⟨-, hopen⟩
  · exact h entry hpath hkept
  · have htop : disk.Kept rules ⟨top, .directory⟩ ∧ (⟨top, .directory⟩ : TreeEntry).isDir = true :=
      kept_directory_iff.mpr ⟨hopen, rfl⟩
    exact h _ rfl htop.1

theorem finds_singleFile_iff {path : RelativePath} {entry : TreeEntry} :
    disk.Finds rules (.singleFile path) entry ↔ entry.path = path ∧ disk.Kept rules entry := by
  unfold Disk.Finds ScanScope.containsPath
  simp only [decide_eq_true_eq]
  constructor
  · rintro ⟨hpath, hkept, -⟩
    exact ⟨hpath, hkept⟩
  · rintro ⟨rfl, hkept⟩
    refine ⟨rfl, hkept, fun dir habove hdir => ?_⟩
    have hlt := habove.length_lt
    rw [hdir] at hlt
    exact absurd hlt (lt_irrefl _)

/-- The entries of a subtree whose top is a directory: the top, and what a walk from there finds. -/
theorem finds_subtree_iff {top : TreeEntry} {entry : TreeEntry} (hkept : disk.Kept rules top)
    (hdir : top.isDir = true) : disk.Finds rules (.subtree top.path) entry ↔
      entry = top ∨
        (disk.Walked rules [some top.path] entry.path.parent ∧ disk.Kept rules entry) := by
  have hopen : disk.Open rules top.path := (kept_directory_iff.mp ⟨hkept, hdir⟩).1
  rw [walked_parent_iff, Disk.Finds]
  simp only [containsPath_subtree, Option.some.injEq, forall_eq']
  constructor
  · rintro ⟨hpath | habove, hentry, hdirs⟩
    · exact .inl (kept_unique hentry hkept hpath)
    · exact .inr ⟨⟨habove, fun dir hdir hbelow => hdirs dir hdir (.inr hbelow)⟩, hentry⟩
  · rintro (rfl | ⟨⟨habove, hdirs⟩, hentry⟩)
    · refine ⟨.inl rfl, hkept, fun dir hdir' hbelow => ?_⟩
      have hlt := hdir'.length_lt
      rcases hbelow with rfl | hbelow
      · exact absurd hlt (lt_irrefl _)
      · exact absurd hlt hbelow.length_lt.not_gt
    · refine ⟨.inr habove, hentry, fun dir hdir' hbelow => ?_⟩
      rcases hbelow with rfl | hbelow
      · exact hopen
      · exact hdirs dir hdir' hbelow

/-- The start of a scan leaves the disk alone too, and what it starts from is what is to be found. -/
theorem scanStart_eq_ok {scope : ScanScope} {pending : List (Option RelativePath)}
    {entries : List TreeEntry}
    (h : (scanStart rules scope : Fio Disk _).exec disk = (.ok (pending, entries), disk')) :
    disk' = disk ∧ ∀ e, (e ∈ entries ∨
      (disk.Walked rules pending e.path.parent ∧ disk.Kept rules e)) ↔ disk.Finds rules scope e := by
  -- A scope without entries.
  have hempty : ∀ {scope}, (∀ e, ¬disk.Finds rules scope e) → ∀ e, (e ∈ ([] : List TreeEntry) ∨
      (disk.Walked rules [] e.path.parent ∧ disk.Kept rules e)) ↔ disk.Finds rules scope e := by
    intro scope hnone e
    refine iff_of_false ?_ (hnone e)
    rintro (hmem | ⟨hwalked, -⟩)
    · cases hmem
    · exact not_walked_nil hwalked
  -- A scope with one entry.
  have hsingle : ∀ {scope entry}, (∀ e, disk.Finds rules scope e ↔ e = entry) → ∀ e, (e ∈ [entry] ∨
      (disk.Walked rules [] e.path.parent ∧ disk.Kept rules e)) ↔ disk.Finds rules scope e := by
    intro scope entry hone e
    rw [hone, List.mem_singleton, or_iff_left fun hwalked => not_walked_nil hwalked.1]
  cases scope with
  | full =>
    cases h
    refine ⟨rfl, fun e => ?_⟩
    rw [walked_parent_iff, Disk.Finds]
    simp only [List.not_mem_nil, false_or, reduceCtorEq, false_implies, implies_true, true_and,
      ScanScope.containsPath, forall_const]
    exact and_comm
  | subtree top =>
    rw [scanStart] at h
    split_ifs at h with hhard
    · cases h
      exact ⟨rfl, hempty fun e => not_finds_of_isHardIgnored containsPath_subtree.mp hhard⟩
    · obtain ⟨found, _, hrun, hrest⟩ := Effect.exec_bind_eq_ok.mp h
      obtain ⟨hstat, rfl⟩ := Prod.mk.inj ((exec_statPath disk top).symm.trans hrun)
      cases found with
      | none =>
        cases hrest
        refine ⟨rfl, hempty fun e => not_finds_subtree fun found hpath hkept => ?_⟩
        cases hstat.symm.trans (hpath ▸ hkept.1)
      | some entry =>
        obtain ⟨rfl, -⟩ := path_of_statEntry hstat
        dsimp only at hrest
        by_cases hignored : rules.isIgnored entry.path entry.isDir = true
        · rw [if_pos hignored] at hrest
          cases hrest
          refine ⟨rfl, hempty fun e => not_finds_subtree fun found hpath hkept => ?_⟩
          cases hstat.symm.trans (hpath ▸ hkept.1)
          exact absurd hignored (by rw [hkept.2]; exact Bool.false_ne_true)
        · rw [if_neg hignored] at hrest
          have hkept : disk.Kept rules entry := ⟨hstat, Bool.eq_false_iff.mpr hignored⟩
          cases hrest
          refine ⟨rfl, ?_⟩
          cases hdir : entry.isDir with
          | true =>
            intro e
            rw [finds_subtree_iff hkept hdir, List.mem_singleton]
            rfl
          | false =>
            refine hsingle fun e => ⟨fun hfinds => ?_, ?_⟩
            · rcases top_of_finds_subtree hfinds with ⟨hpath, he⟩ | ⟨-, hopen⟩
              · exact kept_unique he hkept hpath
              · have htop : disk.Kept rules ⟨entry.path, .directory⟩ ∧
                    (⟨entry.path, .directory⟩ : TreeEntry).isDir = true :=
                  kept_directory_iff.mpr ⟨hopen, rfl⟩
                have hsame : ⟨entry.path, .directory⟩ = entry := kept_unique htop.1 hkept rfl
                rw [← hsame] at hdir
                cases hdir
            · rintro rfl
              refine ⟨containsPath_subtree.mpr (.inl rfl), hkept, fun dir habove hcontains => ?_⟩
              have hlt := habove.length_lt
              rcases containsPath_subtree.mp hcontains with rfl | hbelow
              · exact absurd hlt (lt_irrefl _)
              · exact absurd hlt hbelow.length_lt.not_gt
  | singleFile path =>
    rw [scanStart] at h
    split_ifs at h with hhard
    · cases h
      refine ⟨rfl, hempty fun e => not_finds_of_isHardIgnored (fun hpath => .inl ?_) hhard⟩
      exact of_decide_eq_true hpath
    · obtain ⟨found, _, hrun, hrest⟩ := Effect.exec_bind_eq_ok.mp h
      obtain ⟨hstat, rfl⟩ := Prod.mk.inj ((exec_statPath disk path).symm.trans hrun)
      cases found with
      | none =>
        cases hrest
        refine ⟨rfl, hempty fun e hfinds => ?_⟩
        obtain ⟨rfl, hkept⟩ := finds_singleFile_iff.mp hfinds
        cases hstat.symm.trans hkept.1
      | some entry =>
        obtain ⟨rfl, -⟩ := path_of_statEntry hstat
        dsimp only at hrest
        by_cases hignored : rules.isIgnored entry.path entry.isDir = true
        · rw [if_pos hignored] at hrest
          cases hrest
          refine ⟨rfl, hempty fun e hfinds => ?_⟩
          obtain ⟨hpath, hkept⟩ := finds_singleFile_iff.mp hfinds
          cases hstat.symm.trans (hpath ▸ hkept.1)
          exact absurd hignored (by rw [hkept.2]; exact Bool.false_ne_true)
        · rw [if_neg hignored] at hrest
          have hkept : disk.Kept rules entry := ⟨hstat, Bool.eq_false_iff.mpr hignored⟩
          cases hrest
          refine ⟨rfl, hsingle fun e => ?_⟩
          rw [finds_singleFile_iff]
          exact ⟨fun he => kept_unique he.2 hkept he.1, fun heq => by rw [heq]; exact ⟨rfl, hkept⟩⟩

/-- What a scan finds. -/
theorem scan_eq_some {fuel : Nat} {scope : ScanScope} {result : ScanResult}
    (h : (scan fuel scope : Fio Disk _).exec disk = (.ok (some result), disk'))
    (hrules : (IgnoreRules.load : Fio Disk _).exec disk = (.ok rules, disk)) :
    disk' = disk ∧ result.scope = scope ∧
      ∀ e, e ∈ result.tree.entries ↔ disk.Finds rules scope e := by
  unfold scan at h
  rw [Effect.exec_bind_ok hrules] at h
  obtain ⟨⟨pending, entries⟩, t, hstart, hrest⟩ := Effect.exec_bind_eq_ok.mp h
  obtain ⟨rfl, hfinds⟩ := scanStart_eq_ok hstart
  obtain ⟨found, t', hwalk, hfinish⟩ := Effect.exec_bind_eq_ok.mp hrest
  cases found with
  | none => cases hfinish
  | some found =>
    obtain ⟨rfl, hfound⟩ := walkDirs_eq_some hwalk
    dsimp only at hfinish
    split at hfinish
    next tree htree =>
      cases hfinish
      refine ⟨rfl, rfl, fun e => ?_⟩
      rw [Tree.mem_entries_of_new htree, hfound, hfinds]
    · cases hfinish

/-! ## Scoped scans and the full scan -/

/-- A file is kept with its stat. -/
theorem kept_file_iff {path : RelativePath} {fingerprint : FileFingerprint} :
    disk.Kept rules ⟨path, .file fingerprint⟩ ↔ ∃ stat, fingerprint = .statOnly stat ∧
      disk.metadata path = .ok (.file stat) ∧ rules.isIgnored path false = false := by
  unfold Disk.Kept
  constructor
  · rintro ⟨hstat, hignored⟩
    obtain ⟨-, metadata, hmetadata, hentry⟩ := path_of_statEntry hstat
    cases metadata with
    | directory => cases hentry
    | file stat =>
      cases hentry
      exact ⟨stat, rfl, hmetadata, hignored⟩
    | other => cases hentry
  · rintro ⟨stat, rfl, hmetadata, hignored⟩
    refine ⟨?_, hignored⟩
    rw [Disk.statEntry, hmetadata]
    rfl

/-- Every file of the scope that is not ignored, and whose directories inside the scope are open,
has open directories all the way from the sync root. -/
def Disk.OpenAbove (disk : Disk) (rules : IgnoreRules) (scope : ScanScope) : Prop :=
  ∀ path stat, scope.containsPath path = true → disk.metadata path = .ok (.file stat) →
    rules.isIgnored path false = false →
    (∀ dir, dir.IsAbove path → scope.containsPath dir = true → disk.Open rules dir) →
    ∀ dir, dir.IsAbove path → disk.Open rules dir

/-- A scoped scan finds the files that the full scan finds in its scope exactly if no file that it
comes to lies in an ignored directory or behind a link above the scope. -/
theorem scoped_scan_agrees_iff {fuel fuel' : Nat} {scope : ScanScope} {full narrow : ScanResult}
    {disk₁ disk₂ : Disk}
    (hrules : (IgnoreRules.load : Fio Disk _).exec disk = (.ok rules, disk))
    (hfull : (scan fuel .full : Fio Disk _).exec disk = (.ok (some full), disk₁))
    (hnarrow : (scan fuel' scope : Fio Disk _).exec disk = (.ok (some narrow), disk₂)) :
    (∀ path fingerprint, ⟨path, .file fingerprint⟩ ∈ narrow.tree.entries ↔
      (⟨path, .file fingerprint⟩ ∈ full.tree.entries ∧ scope.containsPath path = true)) ↔
      disk.OpenAbove rules scope := by
  obtain ⟨-, -, hinFull⟩ := scan_eq_some hfull hrules
  obtain ⟨-, -, hinNarrow⟩ := scan_eq_some hnarrow hrules
  have hfinds : ∀ path fingerprint, disk.Finds rules .full ⟨path, .file fingerprint⟩ ↔
      disk.Kept rules ⟨path, .file fingerprint⟩ ∧
        ∀ dir : RelativePath, dir.IsAbove path → disk.Open rules dir := by
    intro path fingerprint
    simp only [Disk.Finds, ScanScope.containsPath, true_and, forall_const]
  constructor
  · intro h path stat hscope hmetadata hignored hdirs
    have hkept : disk.Kept rules ⟨path, .file (.statOnly stat)⟩ :=
      kept_file_iff.mpr ⟨stat, rfl, hmetadata, hignored⟩
    have hmem := (hinNarrow ⟨path, .file (.statOnly stat)⟩).mpr ⟨hscope, hkept, hdirs⟩
    exact ((hfinds _ _).mp ((hinFull _).mp ((h path _).mp hmem).1)).2
  · intro h path fingerprint
    rw [hinNarrow, hinFull, hfinds]
    constructor
    · rintro ⟨hscope, hkept, hdirs⟩
      obtain ⟨stat, rfl, hmetadata, hignored⟩ := kept_file_iff.mp hkept
      exact ⟨⟨hkept, h path stat hscope hmetadata hignored hdirs⟩, hscope⟩
    · rintro ⟨⟨hkept, hdirs⟩, hscope⟩
      exact ⟨hscope, hkept, fun dir habove _ => hdirs dir habove⟩

end Walk

/-! ## A file behind a link -/

/-- `scope_for_path` of the notify layer, for a path below the sync root. -/
def scopeForPath [Gitignore] (rules : IgnoreRules) (disk : Disk) (path : RelativePath) :
    Option ScanScope :=
  if rules.isIgnored path (disk.isDir path) then none
  else if !disk.isDir path && disk.isFile path then some (.singleFile path)
  else some (.subtree path)

namespace NoPatterns

/-- The matcher of an ignore file without patterns. -/
scoped instance : Gitignore where
  Builder := Unit
  Matcher := Unit
  new := ()
  addLines builder _ := (builder, none)
  build _ := .ok ()
  matchedPathOrAnyParents _ _ _ := .none

end NoPatterns

open Snapshots NoPatterns

/-- The location of a sync root. -/
def syncRoot : Location := [.utf8 ['r']]

/-- A directory next to the sync root. -/
def elsewhere : Location := [.utf8 ['x']]

/-- The name of a file that is a digit. -/
def digitName (name : Fin 10) : OsName := .utf8 [Nat.digitChar name]

/-- A sync root with a file, and with a link to a directory elsewhere that holds another file. -/
def linkedDisk : Disk where
  entries := ⟨[⟨syncRoot, .directory true true⟩, ⟨elsewhere, .directory true true⟩,
    ⟨syncRoot ++ [digitName 3], .file (fileStat 8 0 0) [] true⟩,
    ⟨syncRoot ++ [digitName 1], .symlink (.ok elsewhere)⟩,
    ⟨elsewhere ++ [digitName 2], .file (fileStat 7 0 0) [] true⟩], by decide⟩
  root := syncRoot

/-- The entries of a scan that came to an end. -/
def scanned (r : Except Report (Option ScanResult) × Disk) : Option (List TreeEntry) :=
  match r.1 with
  | .ok (some result) => some result.tree.entries
  | _ => none

theorem exists_of_scanned {r : Except Report (Option ScanResult) × Disk} {entries : List TreeEntry}
    (h : scanned r = some entries) :
    ∃ result disk, r = (.ok (some result), disk) ∧ result.tree.entries = entries := by
  obtain ⟨outcome, disk⟩ := r
  unfold scanned at h
  split at h
  next result houtcome =>
    cases h
    exact ⟨result, disk, Prod.ext houtcome rfl, rfl⟩
  · cases h

/-- What the full scan finds. -/
theorem scanned_full_linkedDisk : scanned ((scan 9 .full).exec linkedDisk) =
    some [⟨rootFile 3, .file (.statOnly (fileStat 8 0 0))⟩] := by decide +kernel

/-- The scans do not agree: after a change of the file behind the link, the notify layer has its path
scanned and the file is found, and the next full scan does not find it. -/
theorem scans_disagree_linkedDisk :
    scopeForPath (⟨()⟩ : IgnoreRules) linkedDisk (fileIn 1 2) =
        some (.singleFile (fileIn 1 2)) ∧
      ∃ full narrow disk₁ disk₂, (scan 9 .full).exec linkedDisk = (.ok (some full), disk₁) ∧
        (scan 9 (.singleFile (fileIn 1 2))).exec linkedDisk = (.ok (some narrow), disk₂) ∧
        ¬∀ path fingerprint, ⟨path, .file fingerprint⟩ ∈ narrow.tree.entries ↔
          (⟨path, .file fingerprint⟩ ∈ full.tree.entries ∧
            (ScanScope.singleFile (fileIn 1 2)).containsPath path = true) := by
  have hnarrow : scanned ((scan 9 (.singleFile (fileIn 1 2))).exec linkedDisk) =
      some [⟨fileIn 1 2, .file (.statOnly (fileStat 7 0 0))⟩] := by decide +kernel
  obtain ⟨full, disk₁, hfull, hentries⟩ := exists_of_scanned scanned_full_linkedDisk
  obtain ⟨narrow, disk₂, hnarrow, hentries'⟩ := exists_of_scanned hnarrow
  refine ⟨by decide +kernel, full, narrow, disk₁, disk₂, hfull, hnarrow, fun hagree => ?_⟩
  have hmem := ((hagree (fileIn 1 2) (.statOnly (fileStat 7 0 0))).mp
    (by rw [hentries']; exact List.mem_cons_self)).1
  rw [hentries, List.mem_singleton] at hmem
  exact absurd (congrArg TreeEntry.path hmem) (by decide +kernel)

/-- `scoped_scan_agrees_iff` for the file in the sync root: the scans agree on it. -/
theorem scoped_scan_agrees_iff_linkedDisk :
    ∃ full narrow disk₁ disk₂, (scan 9 .full).exec linkedDisk = (.ok (some full), disk₁) ∧
      (scan 9 (.singleFile (rootFile 3))).exec linkedDisk = (.ok (some narrow), disk₂) ∧
      ∀ path fingerprint, ⟨path, .file fingerprint⟩ ∈ narrow.tree.entries ↔
        (⟨path, .file fingerprint⟩ ∈ full.tree.entries ∧
          (ScanScope.singleFile (rootFile 3)).containsPath path = true) := by
  have hnarrow : scanned ((scan 9 (.singleFile (rootFile 3))).exec linkedDisk) =
      some [⟨rootFile 3, .file (.statOnly (fileStat 8 0 0))⟩] := by decide +kernel
  obtain ⟨full, disk₁, hfull, -⟩ := exists_of_scanned scanned_full_linkedDisk
  obtain ⟨narrow, disk₂, hnarrow, -⟩ := exists_of_scanned hnarrow
  refine ⟨full, narrow, disk₁, disk₂, hfull, hnarrow,
    (scoped_scan_agrees_iff rfl hfull hnarrow).mpr ?_⟩
  intro path stat hscope _ _ _ dir habove
  rw [of_decide_eq_true hscope] at habove
  exact absurd habove (not_isAbove_of_parent_eq_none (by decide +kernel))

end Opbox
