import Opbox.Crdt.Snapshots
import Opbox.Semantic.ImportRun
import Opbox.Semantic.SqlRows

/-!
# Fingerprints in the database

What a daemon knows of a file is compared with the next scan, so a fingerprint must come back from the
database as it went in.  It does, to the nanosecond, whenever it goes in: the file key is stored as text
without loss, and the size and the time are stored as they are or not at all.  What does not go in is a
size or a time that a signed 64-bit integer does not hold.  The statement then fails, and with it the
transaction that reads or writes the file.
-/

namespace Opbox

variable {D : Type}

/-! ## Reading back -/

/-- What is stored of the row is decoded, with this fingerprint. -/
def PriorTreeRow.ReadsBack (r : PriorTreeRow) (fingerprint : FileFingerprint) : Prop :=
  ∃ row r', r.toSqlRow = .ok row ∧ row.fromSqlRow = .ok r' ∧ r'.fingerprint = fingerprint

/-- What is stored of the row is decoded, with this fingerprint. -/
def StagedRow.ReadsBack (r : StagedRow D) (fingerprint : FileFingerprint) : Prop :=
  ∃ row r', r.toSqlRow = .ok row ∧ row.fromSqlRow = .ok r' ∧ r'.fingerprint = fingerprint

/-- What is stored of the row is decoded, with this stat. -/
def IgnoredRow.ReadsBack (r : IgnoredRow) (stat : FileStatFingerprint) : Prop :=
  ∃ row r', r.toSqlRow = .ok row ∧ row.fromSqlRow = .ok r' ∧ r'.stat = stat

section Statements

variable {db : Db D} {path claimedPath : RelativePath} {claimId : NamespaceClaimId}
  {objectId : ObjectId} {stat : FileStatFingerprint} {hash : FileHash} {acceptedAt : Timestamp}

/-- A file is accepted, its fingerprint reads back, and the next scan does not find it changed, exactly
if its stat fits the columns. -/
theorem upsertPriorTreeFile_survives_iff (hkey : stat.fileKey.Is64Bit) (hclaim : claimId ≠ [])
    (hobject : objectId ≠ []) (hclock : FitsColumn acceptedAt) :
    (∃ db' r, Runs (upsertPriorTreeFile (D := D) path claimedPath claimId objectId
        (.statAndContent stat hash) acceptedAt) db ⟨⟩ db' ∧
      db'.priorTreeLiveFile path = some r ∧ r.ReadsBack (.statAndContent stat hash) ∧
      ∀ f : ObservedFile, f.path = path → f.fingerprint.stat = stat → ¬db'.Drifted f) ↔
    stat.Storable := by
  constructor
  · rintro ⟨db', r, hrun, -⟩
    simp only [upsertPriorTreeFile, Runs.bind_iff, Runs.liftExcept_iff] at hrun
    obtain ⟨columns, -, ⟨hcolumns, -⟩, -⟩ := hrun
    exact (fingerprintColumns_eq_ok_iff.mp hcolumns).1
  · intro hstorable
    let row : PriorTreeRow :=
      ⟨path, claimedPath, claimId, objectId, .statAndContent stat hash, acceptedAt, none⟩
    obtain ⟨stored, hstored⟩ : ∃ stored, row.toSqlRow = .ok stored :=
      ⟨_, PriorTreeRow.toSqlRow_eq_ok_iff.mpr ⟨stat, hash, rfl, hstorable, ⟨hclock, by rintro _ ⟨⟩⟩, rfl⟩⟩
    have hread : stored.fromSqlRow = .ok row :=
      (PriorTreeRow.fromSqlRow_iff (r := row) hkey hstored).mpr ⟨⟨hclaim, hobject, by rintro _ ⟨⟩⟩, rfl⟩
    have hmem : row ∈ db.priorTree.put row := Table.mem_put.mpr (.inl rfl)
    refine ⟨{ db with priorTree := db.priorTree.put row }, row, ?_, ?_, ⟨stored, row, hstored, hread,
      rfl⟩, ?_⟩
    · simp only [upsertPriorTreeFile, Runs.bind_iff, Runs.liftExcept_iff, Runs.modify_iff]
      exact ⟨(stat, hash), db, ⟨fingerprintColumns_eq_ok_iff.mpr ⟨hstorable, rfl⟩, rfl⟩, rfl⟩
    · exact Db.priorTreeLiveFile_eq_some_iff.mpr ⟨hmem, rfl, rfl⟩
    · intro f hpath hstat hdrifted
      exact hdrifted row hmem rfl hpath.symm hstat.symm

/-- A row that can be staged is staged, and its fingerprint reads back, exactly if its stat fits the
columns and it has a hash. -/
theorem insertImportStagedFile_survives_iff {r : StagedRow D} (hkey : stat.fileKey.Is64Bit)
    (hfp : r.fingerprint = .statAndContent stat hash) (hclaim : r.claimId ≠ [])
    (hobject : r.objectId ≠ []) (hepoch : r.importEpoch ≤ i64Max) (hseq : r.actionSeq ≤ i64Max)
    (hnew : ∃ rows, db.importStagedFiles.insert r = .ok rows) :
    (∃ db', Runs (insertImportStagedFile r) db ⟨⟩ db' ∧ r ∈ db'.importStagedFiles.rows ∧
      r.ReadsBack (.statAndContent stat hash)) ↔
    stat.Storable ∧ hash ≠ [] := by
  constructor
  · rintro ⟨db', -, -, row, r', hstored, hread, -⟩
    obtain ⟨-, -, stat', hash', hfp', hstorable, rfl⟩ := StagedRow.toSqlRow_eq_ok_iff.mp hstored
    rw [hfp] at hfp'
    cases hfp'
    refine ⟨hstorable, ?_⟩
    simp only [ImportStagedSqlRow.fromSqlRow, bind_eq_ok, require_eq_ok_iff] at hread
    obtain ⟨-, -, -, -, -, -, -, hhash, -⟩ := hread
    exact hhash
  · rintro ⟨hstorable, hhash⟩
    obtain ⟨rows, hinsert⟩ := hnew
    obtain ⟨stored, hstored⟩ : ∃ stored, r.toSqlRow = .ok stored :=
      ⟨_, StagedRow.toSqlRow_eq_ok_iff.mpr ⟨hepoch, hseq, stat, hash, hfp, hstorable, rfl⟩⟩
    have hkey' : r.fingerprint.stat.fileKey.Is64Bit := by
      rw [hfp]
      exact hkey
    have hread : stored.fromSqlRow = .ok r :=
      StagedRow.fromSqlRow_of_toSqlRow hkey' hobject hclaim hfp hhash hstored
    refine ⟨{ db with importStagedFiles := rows }, ?_, ?_, stored, r, hstored, hread, hfp⟩
    · simp only [insertImportStagedFile, Runs.bind_iff, Runs.liftExcept_iff, Runs.get_iff,
        runs_set_iff]
      refine ⟨(stat, hash), db, ⟨?_, rfl⟩, db, db, ⟨rfl, rfl⟩, rows, db, ⟨hinsert, rfl⟩, rfl⟩
      rw [hfp]
      exact fingerprintColumns_eq_ok_iff.mpr ⟨hstorable, rfl⟩
    · rw [ImportStagedFiles.insert_eq_ok hinsert]
      exact List.mem_append_right _ List.mem_cons_self

/-- An ignored file is noted, and its stat reads back, exactly if its stat fits the columns. -/
theorem upsertIgnoredFile_survives_iff {reason : IgnoredReason} (hkey : stat.fileKey.Is64Bit) :
    (∃ db' r, Runs (upsertIgnoredFile (D := D) path reason stat) db ⟨⟩ db' ∧
      db'.ignoredFiles.find? path = some r ∧ r.ReadsBack stat) ↔
    stat.Storable := by
  constructor
  · rintro ⟨db', r, hrun, -⟩
    simp only [upsertIgnoredFile, Runs.ite_iff, Runs.throw_iff, and_false, false_or] at hrun
    obtain ⟨htime, hsize, -⟩ := hrun
    obtain ⟨hlow, hhigh⟩ := not_or.mp htime
    exact ⟨⟨not_lt.mp hlow, not_le.mp hhigh⟩, not_lt.mp hsize⟩
  · intro hstorable
    let row : IgnoredRow := ⟨path, reason, stat⟩
    obtain ⟨stored, hstored⟩ : ∃ stored, row.toSqlRow = .ok stored :=
      ⟨_, IgnoredRow.toSqlRow_eq_ok_iff.mpr ⟨hstorable, rfl⟩⟩
    have hread : stored.fromSqlRow = .ok row := IgnoredRow.fromSqlRow_of_toSqlRow hkey hstored
    refine ⟨{ db with ignoredFiles := db.ignoredFiles.put row }, row, ?_, ?_, stored, row, hstored,
      hread, rfl⟩
    · have htime : ¬(stat.mtime < -(2 ^ 63) ∨ 2 ^ 63 ≤ stat.mtime) :=
        not_or.mpr ⟨not_lt.mpr hstorable.1.1, not_le.mpr hstorable.1.2⟩
      simp only [upsertIgnoredFile, Runs.ite_iff, Runs.throw_iff, and_false, false_or, Runs.modify_iff]
      exact ⟨htime, not_lt.mpr hstorable.2, rfl⟩
    · exact (Table.find?_put db.ignoredFiles row path).trans (if_pos rfl)

end Statements

/-- A fingerprint survives in each of the three tables exactly if a signed 64-bit integer holds its time
in nanoseconds and its size.  A staged one must have a hash. -/
theorem fingerprint_survives_iff {stat : FileStatFingerprint} {hash : FileHash}
    (hkey : stat.fileKey.Is64Bit) :
    (∀ (db : Db D) (path claimedPath : RelativePath) (claimId : NamespaceClaimId) (objectId : ObjectId)
      (acceptedAt : Timestamp), claimId ≠ [] → objectId ≠ [] → FitsColumn acceptedAt →
      ((∃ db' r, Runs (upsertPriorTreeFile path claimedPath claimId objectId (.statAndContent stat hash)
          acceptedAt) db ⟨⟩ db' ∧
        db'.priorTreeLiveFile path = some r ∧ r.ReadsBack (.statAndContent stat hash) ∧
        ∀ f : ObservedFile, f.path = path → f.fingerprint.stat = stat → ¬db'.Drifted f) ↔
      stat.Storable)) ∧
    (∀ (db : Db D) (r : StagedRow D), r.fingerprint = .statAndContent stat hash → r.claimId ≠ [] →
      r.objectId ≠ [] → r.importEpoch ≤ i64Max → r.actionSeq ≤ i64Max →
      (∃ rows, db.importStagedFiles.insert r = .ok rows) →
      ((∃ db', Runs (insertImportStagedFile r) db ⟨⟩ db' ∧ r ∈ db'.importStagedFiles.rows ∧
        r.ReadsBack (.statAndContent stat hash)) ↔
      stat.Storable ∧ hash ≠ [])) ∧
    ∀ (db : Db D) (path : RelativePath) (reason : IgnoredReason),
      (∃ db' r, Runs (upsertIgnoredFile path reason stat) db ⟨⟩ db' ∧
        db'.ignoredFiles.find? path = some r ∧ r.ReadsBack stat) ↔
      stat.Storable := by
  refine ⟨?_, ?_, ?_⟩
  · intro db path claimedPath claimId objectId acceptedAt hclaim hobject hclock
    exact upsertPriorTreeFile_survives_iff hkey hclaim hobject hclock
  · intro db r hfp hclaim hobject hepoch hseq hnew
    exact insertImportStagedFile_survives_iff hkey hfp hclaim hobject hepoch hseq hnew
  · intro db path reason
    exact upsertIgnoredFile_survives_iff hkey

open Snapshots

/-- The last nanosecond that a column holds, in April 2262. -/
def lastStored : FileStatFingerprint := fileStat 7 2 (2 ^ 63 - 1)

/-- `fingerprint_survives_iff` for the last time that is stored. -/
theorem fingerprint_survives_iff_last : ∃ db' r,
    Runs (upsertPriorTreeFile (rootFile 1) (rootFile 1) [2] [1] (.statAndContent lastStored [104, 105])
      0) (Db.initialized Doc [0, 0, 0, 1] 0) ⟨⟩ db' ∧
    db'.priorTreeLiveFile (rootFile 1) = some r ∧ r.ReadsBack (.statAndContent lastStored [104, 105]) ∧
    ∀ f : ObservedFile, f.path = rootFile 1 → f.fingerprint.stat = lastStored → ¬db'.Drifted f :=
  ((fingerprint_survives_iff ⟨by decide, by decide⟩).1 _ _ _ _ _ _ (by decide) (by decide)
    (by decide)).mpr (by decide)

/-- The first scan finds a file that was modified at `mtime`. -/
def foundRun (mtime : Nat) : List (DaemonAction Doc) :=
  [.serve (.applyInitScan (scanOf .full [(rootFile 1, fileStat 7 2 mtime)]))]

/-- The file is read. -/
def foundRead (mtime : Nat) : ImportActionResult :=
  .read ⟨0, 0⟩ (.completed (.read [104, 105] (.statAndContent (fileStat 7 2 mtime) [104, 105])))

/-- A file that was modified one nanosecond after the last time that is stored stops the daemon: its
read is expected and decides to stage it, and cannot be committed. -/
theorem far_future_stops_import : ∃ s : SemanticActor Doc,
    (daemonMachine Doc [0, 0, 0, 1]).exec (.start (Db.initialized Doc [0, 0, 0, 1] 0))
        (foundRun (2 ^ 63)) = some s ∧
      (s.stagePlan (foundRead (2 ^ 63))).isSome = true ∧
      s.step (.commitImportAction (foundRead (2 ^ 63)) 0 [1] [2]) = none := by
  have hrun : ((daemonMachine Doc [0, 0, 0, 1]).exec (.start (Db.initialized Doc [0, 0, 0, 1] 0))
      (foundRun (2 ^ 63))).any (fun s => (s.stagePlan (foundRead (2 ^ 63))).isSome &&
        (s.step (.commitImportAction (foundRead (2 ^ 63)) 0 [1] [2])).isNone) = true := by
    decide +kernel
  obtain ⟨s, hs, hread⟩ := Machine.exists_exec hrun
  obtain ⟨hplan, hstep⟩ := Bool.and_eq_true_iff.mp hread
  exact ⟨s, hs, hplan, Option.isNone_iff_eq_none.mp hstep⟩

end Opbox
