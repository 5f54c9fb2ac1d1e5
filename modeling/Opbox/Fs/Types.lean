import Mathlib.Data.List.Sort
import Opbox.Fs.Path
import Opbox.Log.Types

/-!
# File fingerprints, trees and guarded results

The vocabulary of the filesystem side (`fs/types.rs`): what is known about a file before and after
its bytes are read, the flat result of a scan, and the results of the guarded operations.
-/

namespace Opbox

/-- A point in time, in nanoseconds since the Unix epoch. -/
abbrev Timestamp := Int

/-- The local identity of a file. -/
structure FileKey where
  /-- The device. -/
  deviceId : Nat
  /-- The inode on the device. -/
  inode : Nat
  deriving DecidableEq, Repr

/-- What one `stat` call says about a file. -/
structure FileStatFingerprint where
  /-- The local identity. -/
  fileKey : FileKey
  /-- The length in bytes. -/
  size : Nat
  /-- The modification time. -/
  mtime : Timestamp
  deriving DecidableEq, Repr

/-- A content hash. -/
abbrev FileHash := Bytes

/-- The content hash function of file bytes and projection targets. -/
class Xxh3 where
  /-- The big-endian bytes of the hash. -/
  xxh3_64 : Bytes → FileHash

/-- What is known about a file: its stat, and its content hash if the bytes were read while it had
that stat. -/
inductive FileFingerprint where
  | statOnly (stat : FileStatFingerprint)
  | statAndContent (stat : FileStatFingerprint) (content : FileHash)
  deriving DecidableEq, Repr

namespace FileFingerprint

/-- The stat part. -/
def stat : FileFingerprint → FileStatFingerprint
  | statOnly stat => stat
  | statAndContent stat _ => stat

@[simp] theorem stat_statOnly (stat : FileStatFingerprint) : (statOnly stat).stat = stat := rfl

@[simp] theorem stat_statAndContent (stat : FileStatFingerprint) (content : FileHash) :
    (statAndContent stat content).stat = stat := rfl

/-- The observed file meets the expectation; `fingerprint_matches_observed` of the file layer and
`fingerprint_satisfies_expected` of the import both compute this. -/
def satisfies (observed expected : FileFingerprint) : Bool :=
  match expected with
  | statOnly expectedStat => decide (observed.stat = expectedStat)
  | statAndContent expectedStat expectedContent =>
    match observed with
    | statAndContent stat content =>
      decide (stat = expectedStat) && decide (content = expectedContent)
    | statOnly _ => false

/-- A match is a match of the stats. -/
theorem stat_eq_of_satisfies {observed expected : FileFingerprint}
    (h : observed.satisfies expected = true) : observed.stat = expected.stat := by
  cases expected with
  | statOnly stat => exact of_decide_eq_true h
  | statAndContent stat content =>
    cases observed with
    | statOnly _ => cases h
    | statAndContent stat' content' => exact of_decide_eq_true (Bool.and_eq_true_iff.mp h).1

/-- Nothing but the fingerprint itself meets an expectation with a content hash. -/
theorem satisfies_statAndContent {observed : FileFingerprint} {stat : FileStatFingerprint}
    {content : FileHash} :
    observed.satisfies (statAndContent stat content) = true ↔
      observed = statAndContent stat content := by
  cases observed <;> simp [satisfies]

end FileFingerprint

/-- The precondition of a guarded write or delete. -/
inductive ExpectedBefore where
  /-- No precondition. -/
  | anything
  /-- Nothing is at the path. -/
  | missing
  /-- The path holds a file with this fingerprint. -/
  | presentWithFingerprint (fingerprint : FileFingerprint)
  deriving DecidableEq, Repr

/-- What a path of a tree holds. -/
inductive TreeEntryKind where
  | directory
  | file (fingerprint : FileFingerprint)
  deriving DecidableEq, Repr

/-- A path of a tree and what it holds. -/
structure TreeEntry where
  /-- The path. -/
  path : RelativePath
  /-- What it holds. -/
  kind : TreeEntryKind
  deriving DecidableEq

/-- A flat snapshot: entries in path order, no path twice. -/
structure Tree where
  /-- The entries. -/
  entries : List TreeEntry
  /-- They are sorted by path, without duplicates. -/
  sorted : entries.Pairwise fun a b => a.path < b.path

namespace Tree

/-- The first path that two neighbours of a list share. -/
def duplicatePath : List TreeEntry → Option RelativePath
  | left :: right :: rest =>
    if left.path = right.path then some left.path else duplicatePath (right :: rest)
  | _ => none

theorem pairwise_lt_of_duplicatePath {entries : List TreeEntry}
    (hle : entries.Pairwise fun a b => a.path ≤ b.path) (h : duplicatePath entries = none) :
    entries.Pairwise fun a b => a.path < b.path := by
  induction entries with
  | nil => exact .nil
  | cons left rest ih =>
    obtain ⟨hleft, hrest⟩ := List.pairwise_cons.mp hle
    cases rest with
    | nil => exact List.pairwise_singleton _ _
    | cons right rest =>
      rw [duplicatePath] at h
      split_ifs at h with hne
      have hlt : left.path < right.path := lt_of_le_of_ne (hleft right List.mem_cons_self) hne
      refine List.pairwise_cons.mpr ⟨fun e he => ?_, ih hrest h⟩
      rcases List.mem_cons.mp he with rfl | he
      · exact hlt
      · exact hlt.trans_le ((List.pairwise_cons.mp hrest).1 e he)

/-- Entries in path order. -/
def sortByPath (entries : List TreeEntry) : List TreeEntry :=
  entries.insertionSort fun a b => a.path ≤ b.path

theorem pairwise_sortByPath (entries : List TreeEntry) :
    (sortByPath entries).Pairwise fun a b => a.path ≤ b.path := by
  have : IsTrans TreeEntry fun a b => a.path ≤ b.path := ⟨fun _ _ _ => le_trans⟩
  have : Std.Total fun a b : TreeEntry => a.path ≤ b.path := ⟨fun _ _ => le_total _ _⟩
  exact List.pairwise_insertionSort _ _

/-- `Tree::new`: sort the entries and refuse a path found twice. -/
def new (entries : List TreeEntry) : Except String Tree :=
  match h : duplicatePath (sortByPath entries) with
  | some path => .error s!"duplicate tree path: {String.ofList path.toDbPath}"
  | none => .ok ⟨sortByPath entries, pairwise_lt_of_duplicatePath (pairwise_sortByPath _) h⟩

/-- A tree has the entries it was made of. -/
theorem mem_entries_of_new {entries : List TreeEntry} {t : Tree} (h : new entries = .ok t)
    {e : TreeEntry} : e ∈ t.entries ↔ e ∈ entries := by
  unfold new at h
  split at h
  · cases h
  · cases h
    exact List.mem_insertionSort _

/-- A path has one entry. -/
theorem eq_of_path_eq (t : Tree) {e e' : TreeEntry} (he : e ∈ t.entries) (he' : e' ∈ t.entries)
    (h : e.path = e'.path) : e = e' := by
  have hnodup : (t.entries.map TreeEntry.path).Nodup :=
    List.pairwise_map.mpr (t.sorted.imp fun h => h.ne)
  exact List.inj_on_of_nodup_map hnodup he he' h

/-- A path that is shared is found at some neighbours. -/
theorem duplicatePath_eq_none {entries : List TreeEntry}
    (hnodup : (entries.map TreeEntry.path).Nodup) : duplicatePath entries = none := by
  induction entries with
  | nil => rfl
  | cons left rest ih =>
    cases rest with
    | nil => rfl
    | cons right rest =>
      rw [List.map_cons, List.nodup_cons] at hnodup
      have hne : left.path ≠ right.path :=
        fun heq => hnodup.1 (heq ▸ List.mem_map_of_mem List.mem_cons_self)
      rw [duplicatePath, if_neg hne]
      exact ih hnodup.2

/-- Entries make a tree exactly if no two have the same path. -/
theorem exists_new_iff {entries : List TreeEntry} :
    (∃ t, new entries = .ok t) ↔ (entries.map TreeEntry.path).Nodup := by
  have hperm : (sortByPath entries).Perm entries := List.perm_insertionSort _ _
  rw [← (hperm.map TreeEntry.path).nodup_iff]
  constructor
  · rintro ⟨t, ht⟩
    unfold new at ht
    split at ht
    · cases ht
    · cases ht
      next h =>
        exact List.pairwise_map.mpr
          ((pairwise_lt_of_duplicatePath (pairwise_sortByPath _) h).imp fun h => h.ne)
  · intro hnodup
    unfold new
    split
    next path h => cases h.symm.trans (duplicatePath_eq_none hnodup)
    · exact ⟨_, rfl⟩

end Tree

/-- The result of scanning a scope. -/
structure ScanResult where
  /-- What was scanned. -/
  scope : ScanScope
  /-- What was found. -/
  tree : Tree

/-- The result of a guarded read. -/
inductive GuardedReadResult where
  | read (bytes : Bytes) (fingerprint : FileFingerprint)
  | changedBetweenStats (before after : Option TreeEntry)
  | conflictBeforeRead (observed : Option TreeEntry)
  deriving DecidableEq

/-- The fingerprint of what was read has the hash of its bytes. -/
def GuardedReadResult.HashesContent [Xxh3] : GuardedReadResult → Prop
  | read bytes fingerprint =>
    ∀ stat hash, fingerprint = .statAndContent stat hash → hash = Xxh3.xxh3_64 bytes
  | _ => True

/-- The result of a guarded write. -/
inductive GuardedWriteResult where
  | written (fingerprint : FileFingerprint)
  | alreadyApplied (fingerprint : FileFingerprint)
  | conflictBeforeSwap (swapPath : RelativePath) (observed : Option TreeEntry)
  | conflictAfterSwap (observed : Option TreeEntry)
  | conflict (observed : Option TreeEntry)
  deriving DecidableEq

/-- The result of a guarded delete. -/
inductive GuardedDeleteResult where
  | deleted
  | alreadyDeleted
  | conflict (observed : Option TreeEntry)
  deriving DecidableEq

end Opbox
