import Mathlib.Algebra.Order.BigOperators.Group.List
import Mathlib.Algebra.Order.Ring.Nat
import Opbox.Fs.ScopedScan

/-!
# Scans end

A scan of a disk that does not change comes to its end: a directory that is read puts fewer
directories in its place than its depth below the deepest location leaves room for.
-/

namespace Opbox

namespace Disk

variable {disk disk' : Disk}

theorem resolve_append (location : Location) (names names' : List OsName) :
    disk.resolve location (names ++ names') =
      disk.resolve location names >>= fun next => disk.resolve next names' := by
  induction names generalizing location with
  | nil => rfl
  | cons name names ih => simp only [List.cons_append, resolve, ih, bind_assoc]

/-- The location of a directory of a scan. -/
def dirLocation (disk : Disk) (dir : Option RelativePath) : Except IoErrorKind Location :=
  disk.resolve disk.root ((dir.map RelativePath.names).getD [])

/-- A length that no location on the disk exceeds. -/
def depth (disk : Disk) : Nat := (disk.entries.rows.map fun e => e.location.length).sum

theorem length_le_depth {location : Location} {node : Node} (h : disk.node? location = some node) :
    location.length ≤ disk.depth := by
  obtain ⟨e, he, rfl⟩ := Option.map_eq_some_iff.mp h
  obtain ⟨hmem, hlocation⟩ := Table.find?_eq_some_iff.mp he
  rw [← hlocation]
  exact List.le_sum_of_mem (List.mem_map_of_mem hmem)

/-- A directory in a directory lies below it. -/
theorem dirLocation_of_statEntry {path : RelativePath} {entry : TreeEntry}
    (hstat : disk.statEntry path = .ok (some entry)) (hdir : entry.isDir = true) :
    ∃ location, disk.dirLocation path.parent = .ok location ∧
      disk.dirLocation (some path) = .ok (location ++ [.utf8 path.fileName]) ∧
      location.length < disk.depth := by
  obtain ⟨-, metadata, hmetadata, hentry⟩ := path_of_statEntry hstat
  cases metadata with
  | file stat => cases hentry; cases hdir
  | other => cases hentry
  | directory =>
    unfold Disk.metadata at hmetadata
    cases hparent : disk.parentOf path with
    | error e => rw [hparent] at hmetadata; cases hmetadata
    | ok location =>
      rw [hparent] at hmetadata
      cases hlookup : disk.lookup location (.utf8 path.fileName) with
      | error e =>
        simp only [bind, Except.bind, hlookup] at hmetadata
        cases hmetadata
      | ok node =>
        simp only [bind, Except.bind, hlookup] at hmetadata
        have hnode : follow (location ++ [.utf8 path.fileName]) node =
            .ok (location ++ [.utf8 path.fileName]) := by
          cases node with
          | directory readable searchable => rfl
          | file stat bytes readable => rfl
          | symlink target => cases hmetadata
          | other => rfl
        have hlong := length_le_depth (lookup_eq_ok hlookup).2
        rw [List.length_append, List.length_singleton] at hlong
        rw [parentOf] at hparent
        have hnames : path.names = path.names.dropLast ++ [.utf8 path.fileName] := by
          rw [RelativePath.names, ← List.map_dropLast]
          conv_lhs => rw [← RelativePath.dropLast_append_fileName path]
          rw [List.map_append, List.map_singleton]
        refine ⟨location, ?_, ?_, hlong⟩
        · rw [dirLocation, ← RelativePath.names_dropLast, hparent]
        · rw [dirLocation, Option.map_some, Option.getD_some, hnames, resolve_append, hparent]
          simp only [bind, Except.bind, resolve, hlookup, hnode]

/-- How much a scan may still have to read once it comes to a directory. -/
def weight (disk : Disk) (dir : Option RelativePath) : Nat :=
  match disk.dirLocation dir with
  | .ok location => (disk.entries.rows.length + 1) ^ (disk.depth - location.length)
  | .error _ => 1

/-- The weight of the directories in a directory. -/
def childWeight (disk : Disk) (dir : Option RelativePath) : Nat :=
  match disk.dirLocation dir with
  | .ok location =>
    if location.length < disk.depth then
      (disk.entries.rows.length + 1) ^ (disk.depth - location.length - 1)
    else 0
  | .error _ => 0

theorem weight_pos (disk : Disk) (dir : Option RelativePath) : 0 < disk.weight dir := by
  unfold weight
  split
  · exact Nat.pow_pos (Nat.succ_pos _)
  · exact Nat.one_pos

theorem weight_of_statEntry {path : RelativePath} {entry : TreeEntry}
    (hstat : disk.statEntry path = .ok (some entry)) (hdir : entry.isDir = true) :
    disk.weight (some path) = disk.childWeight path.parent := by
  obtain ⟨location, hparent, hpath, hlt⟩ := dirLocation_of_statEntry hstat hdir
  rw [weight, childWeight, hparent, hpath]
  dsimp only
  rw [if_pos hlt, List.length_append, List.length_singleton, Nat.sub_sub]

/-- All the directories in a directory together weigh less than it. -/
theorem childWeight_lt (dir : Option RelativePath) {count : Nat}
    (hcount : count ≤ disk.entries.rows.length) : count * disk.childWeight dir < disk.weight dir := by
  have hpos := weight_pos disk dir
  unfold weight childWeight at *
  split
  next location hlocation =>
    split_ifs with hlt
    · obtain ⟨room, hroom⟩ : ∃ room, disk.depth - location.length = room + 1 :=
        Nat.exists_eq_add_of_lt (Nat.sub_pos_of_lt hlt) |>.imp fun n hn => by omega
      rw [hroom, Nat.add_sub_cancel, pow_succ', Nat.add_mul, Nat.one_mul]
      have hle := Nat.mul_le_mul_right ((disk.entries.rows.length + 1) ^ room) hcount
      have hlast : 0 < (disk.entries.rows.length + 1) ^ room := Nat.pow_pos (Nat.succ_pos _)
      omega
    · rw [hlocation] at hpos
      rw [Nat.mul_zero]
      exact hpos
  · rw [Nat.mul_zero]
    exact Nat.one_pos

theorem length_of_openDir {dir : Option RelativePath} {names : List OsName}
    (h : disk.openDir dir = .ok names) : names.length ≤ disk.entries.rows.length := by
  unfold openDir at h
  cases hlocation : disk.resolve disk.root ((dir.map RelativePath.names).getD []) with
  | error e => rw [hlocation] at h; cases h
  | ok location =>
    rw [hlocation] at h
    replace h : disk.list location = .ok names := h
    unfold list at h
    split at h
    · split_ifs at h
      cases h
      exact List.length_filterMap_le _ _
    · cases h
    · cases h

/-- The weight of the directories that are still to be read. -/
def pendingWeight (disk : Disk) (pending : List (Option RelativePath)) : Nat :=
  (pending.map disk.weight).sum

/-- The end of the inner loop: it adds at most one directory for each name. -/
def EntriesRead (disk : Disk) (dir : Option RelativePath) (count : Nat)
    (pending : List (Option RelativePath)) :
    Except Report (Option (List (Option RelativePath) × List TreeEntry)) → Prop
  | .ok none => False
  | .ok (some (pending', _)) =>
    disk.pendingWeight pending' ≤ disk.pendingWeight pending + count * disk.childWeight dir
  | .error _ => True

theorem EntriesRead.less {dir : Option RelativePath} {count : Nat}
    {pending pending' : List (Option RelativePath)}
    {r : Except Report (Option (List (Option RelativePath) × List TreeEntry))}
    (h : disk.EntriesRead dir count pending' r)
    (hle : disk.pendingWeight pending' ≤ disk.pendingWeight pending + disk.childWeight dir) :
    disk.EntriesRead dir (count + 1) pending r := by
  unfold EntriesRead at h ⊢
  split at h
  · exact h
  · rw [Nat.add_mul, Nat.one_mul]
    omega
  · trivial

section Walk

variable [Gitignore] (rules : IgnoreRules)

/-- The inner loop needs one unit of fuel more than there are names. -/
theorem readEntries_finishes (dir : Option RelativePath) {names : List OsName} {fuel : Nat}
    (h : names.length < fuel) (pending : List (Option RelativePath)) (entries : List TreeEntry) :
    ∃ r, (readEntries rules dir fuel names pending entries : Fio Disk _).exec disk = (r, disk) ∧
      disk.EntriesRead dir names.length pending r := by
  induction names generalizing fuel pending entries with
  | nil =>
    obtain ⟨fuel, rfl⟩ := Nat.exists_eq_succ_of_ne_zero h.ne_bot
    exact ⟨_, rfl, by simp [EntriesRead]⟩
  | cons name names ih =>
    obtain ⟨fuel, rfl⟩ := Nat.exists_eq_succ_of_ne_zero (Nat.ne_zero_of_lt h)
    have hfuel : names.length < fuel := Nat.lt_of_succ_lt_succ h
    -- The loop goes on after a name that adds at most one directory of this directory.
    have hgo : ∀ (pending' : List (Option RelativePath)) (entries' : List TreeEntry),
        disk.pendingWeight pending' ≤ disk.pendingWeight pending + disk.childWeight dir →
        ∃ r, (readEntries rules dir fuel names pending' entries' : Fio Disk _).exec disk =
          (r, disk) ∧ disk.EntriesRead dir (names.length + 1) pending r := by
      intro pending' entries' hle
      obtain ⟨r, hrun, hr⟩ := ih hfuel pending' entries'
      exact ⟨r, hrun, hr.less hle⟩
    have hskip := hgo pending entries (Nat.le_add_right _ _)
    rw [readEntries, Effect.exec_bind_ok (Effect.exec_call _ disk)]
    change ∃ r, (liftM (childPath dir name) >>= _ : Fio Disk _).exec disk = (r, disk) ∧ _
    cases hchild : childPath dir name with
    | error e => exact ⟨_, rfl, trivial⟩
    | ok path =>
      rw [Effect.exec_bind_ok (Effect.exec_lift _ disk)]
      split_ifs
      · exact hskip
      · cases hstat : disk.statEntry path with
        | error e =>
          have hrun := exec_statPath disk path
          rw [hstat] at hrun
          rw [Effect.exec_bind_error hrun]
          exact ⟨_, rfl, trivial⟩
        | ok found =>
          have hrun := exec_statPath disk path
          rw [hstat] at hrun
          rw [Effect.exec_bind_ok hrun]
          cases found with
          | none => exact hskip
          | some entry =>
            dsimp only
            by_cases hignored : rules.isIgnored path entry.isDir = true
            · rw [if_pos hignored]
              exact hskip
            · rw [if_neg hignored]
              refine hgo _ _ ?_
              cases hdir : entry.isDir with
              | false => exact Nat.le_add_right _ _
              | true =>
                rw [if_pos rfl, pendingWeight, List.map_cons, List.sum_cons,
                  weight_of_statEntry hstat hdir, (parent_of_childPath hchild).1, Nat.add_comm]
                exact Nat.le_refl _

/-- The outer loop comes to its end. -/
theorem walkDirs_finishes {fuel : Nat} {pending : List (Option RelativePath)}
    (h : disk.pendingWeight pending + disk.entries.rows.length < fuel) (entries : List TreeEntry) :
    ∃ r, (walkDirs rules fuel pending entries : Fio Disk _).exec disk = (r, disk) ∧
      r ≠ .ok none := by
  induction fuel generalizing pending entries with
  | zero => exact absurd h (Nat.not_lt_zero _)
  | succ fuel ih =>
    cases pending with
    | nil => exact ⟨_, rfl, by rintro ⟨⟩⟩
    | cons dir pending =>
      have hsum : disk.pendingWeight (dir :: pending) =
          disk.weight dir + disk.pendingWeight pending := by
        rw [pendingWeight, List.map_cons, List.sum_cons, pendingWeight]
      have hpos := weight_pos disk dir
      have hcall : Syscalls.readDir dir disk = (disk.openDir dir, disk) := rfl
      rw [walkDirs, Effect.exec_bind_ok (Effect.exec_call _ disk), hcall]
      cases hopen : disk.openDir dir with
      | error kind =>
        cases kind with
        | notFound => exact ih (by omega) entries
        | _ => exact ⟨_, rfl, by rintro ⟨⟩⟩
      | ok names =>
        have hcount := length_of_openDir hopen
        have hchildren := childWeight_lt dir hcount
        obtain ⟨r, hrun, hr⟩ := readEntries_finishes rules dir
          (show names.length < fuel by omega) pending entries
        dsimp only
        cases r with
        | error e =>
          rw [Effect.exec_bind_error hrun]
          exact ⟨_, rfl, by rintro ⟨⟩⟩
        | ok found =>
          rw [Effect.exec_bind_ok hrun]
          cases found with
          | none => exact hr.elim
          | some found =>
            obtain ⟨pending', entries'⟩ := found
            have hless : disk.pendingWeight pending' ≤
              disk.pendingWeight pending + names.length * disk.childWeight dir := hr
            exact ih (by omega) entries'

/-- Loading the rules leaves the disk alone. -/
theorem exec_load (disk : Disk) : ∃ r, (IgnoreRules.load : Fio Disk _).exec disk = (r, disk) := by
  have hcall : Syscalls.read ignoreFilePath disk = (disk.readFile ignoreFilePath, disk) := rfl
  rw [IgnoreRules.load, Effect.exec_bind_ok (Effect.exec_call _ disk), hcall]
  dsimp only
  split
  · exact ⟨_, rfl⟩
  · rw [Effect.exec_bind_ok (Effect.exec_call _ disk)]
    split_ifs
    · exact ⟨_, rfl⟩
    · exact ⟨_, rfl⟩

/-- The start of a scan leaves the disk alone. -/
theorem exec_scanStart (disk : Disk) (scope : ScanScope) :
    ∃ r, (scanStart rules scope : Fio Disk _).exec disk = (r, disk) := by
  -- What follows the stat of the path makes no call.
  have hpath : ∀ (path : RelativePath)
      (next : Option TreeEntry → Fio Disk (List (Option RelativePath) × List TreeEntry)),
      (∀ found, ∃ r, (next found).exec disk = (r, disk)) →
      ∃ r, (statPath path >>= next).exec disk = (r, disk) := by
    intro path next hnext
    have hrun := exec_statPath disk path
    cases hstat : disk.statEntry path with
    | error e =>
      rw [hstat] at hrun
      exact ⟨_, Effect.exec_bind_error hrun⟩
    | ok found =>
      rw [hstat] at hrun
      rw [Effect.exec_bind_ok hrun]
      exact hnext found
  cases scope with
  | full => exact ⟨_, rfl⟩
  | subtree path =>
    rw [scanStart]
    split_ifs
    · exact ⟨_, rfl⟩
    · refine hpath path _ fun found => ?_
      cases found with
      | none => exact ⟨_, rfl⟩
      | some entry => dsimp only; split_ifs <;> exact ⟨_, rfl⟩
  | singleFile path =>
    rw [scanStart]
    split_ifs
    · exact ⟨_, rfl⟩
    · refine hpath path _ fun found => ?_
      cases found with
      | none => exact ⟨_, rfl⟩
      | some entry => dsimp only; split_ifs <;> exact ⟨_, rfl⟩

/-- A scan of a disk that does not change ends, with a result or with an error. -/
theorem scan_finishes (disk : Disk) (scope : ScanScope) : ∃ enough, ∀ fuel, enough ≤ fuel →
    ∃ r, (scan fuel scope : Fio Disk _).exec disk = (r, disk) ∧ r ≠ .ok none := by
  obtain ⟨loaded, hload⟩ := exec_load disk
  cases loaded with
  | error e => exact ⟨0, fun fuel _ => ⟨_, Effect.exec_bind_error hload, nofun⟩⟩
  | ok rules =>
    obtain ⟨started, hstart⟩ := exec_scanStart rules disk scope
    cases started with
    | error e =>
      refine ⟨0, fun fuel _ => ⟨.error e, ?_, nofun⟩⟩
      rw [scan, Effect.exec_bind_ok hload, Effect.exec_bind_error hstart]
    | ok start =>
      obtain ⟨pending, entries⟩ := start
      refine ⟨disk.pendingWeight pending + disk.entries.rows.length + 1, fun fuel hfuel => ?_⟩
      obtain ⟨walked, hwalk, hne⟩ := walkDirs_finishes rules hfuel entries
      rw [scan, Effect.exec_bind_ok hload, Effect.exec_bind_ok hstart]
      dsimp only
      cases walked with
      | error e => exact ⟨_, Effect.exec_bind_error hwalk, nofun⟩
      | ok found =>
        rw [Effect.exec_bind_ok hwalk]
        cases found with
        | none => exact absurd rfl hne
        | some found =>
          dsimp only
          split
          · exact ⟨_, rfl, nofun⟩
          · exact ⟨_, rfl, nofun⟩

end Walk

end Disk

end Opbox
