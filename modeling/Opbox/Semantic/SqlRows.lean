import Opbox.Fs.PathText
import Opbox.Log.Codec
import Opbox.Semantic.Statements

/-!
# Rows as they are stored

The rows of `prior_tree`, `import_staged_files` and `ignored_files` are stored as columns and decoded
whenever they are read (`semantic/table`).  The columns of a fingerprint are the file key as text, the
size and the time as signed 64-bit integers, and the hash.  A size or a time that does not fit makes the
statement fail.  Whatever is stored is decoded to the same fingerprint.
-/

namespace Opbox

/-! ## File keys -/

/-- `FileKey::encode`. -/
def FileKey.encode (key : FileKey) : List Char := showNat key.deviceId ++ ':' :: showNat key.inode

/-- `str::split_once` at a colon. -/
def splitOnceColon : List Char → Option (List Char × List Char)
  | [] => none
  | ':' :: rest => some ([], rest)
  | c :: rest => (splitOnceColon rest).map fun parts => (c :: parts.1, parts.2)

/-- `FileKey::decode`. -/
def FileKey.decode (value : List Char) : Except String FileKey :=
  let shown := (String.ofList value).quote
  match splitOnceColon value with
  | none => .error s!"invalid file key: {shown}"
  | some (deviceId, inode) => do
    let deviceId ← requireNumber (parseUnsigned (2 ^ 64 - 1) deviceId)
    let inode ← requireNumber (parseUnsigned (2 ^ 64 - 1) inode)
    pure ⟨deviceId, inode⟩

/-- The parts of the key are 64-bit numbers. -/
def FileKey.Is64Bit (key : FileKey) : Prop := key.deviceId < 2 ^ 64 ∧ key.inode < 2 ^ 64

theorem splitOnceColon_append {before : List Char} (h : ':' ∉ before) (rest : List Char) :
    splitOnceColon (before ++ ':' :: rest) = some (before, rest) := by
  induction before with
  | nil => rfl
  | cons c before ih =>
    have hc : c ≠ ':' := fun heq => h (heq ▸ List.mem_cons_self)
    have hrest : ':' ∉ before := fun hmem => h (List.mem_cons_of_mem _ hmem)
    rw [List.cons_append, splitOnceColon.eq_3 _ _ hc, ih hrest]
    rfl

/-- A file key is decoded from its text. -/
theorem FileKey.decode_encode {key : FileKey} (h : key.Is64Bit) :
    FileKey.decode key.encode = .ok key := by
  have hcolon : ':' ∉ showNat key.deviceId := fun hmem => by
    have hdigit := isDigit_of_mem_showNat hmem
    cases hdigit
  unfold FileKey.decode FileKey.encode
  dsimp only
  rw [splitOnceColon_append hcolon]
  dsimp only
  rw [parseUnsigned_showNat (Nat.le_sub_one_of_lt h.1),
    parseUnsigned_showNat (Nat.le_sub_one_of_lt h.2)]
  rfl

theorem FileKey.encode_ne_nil (key : FileKey) : key.encode ≠ [] := by
  rw [FileKey.encode]
  exact List.append_ne_nil_of_right_ne_nil _ (List.cons_ne_nil _ _)

/-! ## Times -/

/-- `datetime_to_unix_ns`. -/
def datetimeToUnixNs (field : String) (datetime : Timestamp) : Except SemanticTransactionError Int :=
  if datetime < -(2 ^ 63) ∨ 2 ^ 63 ≤ datetime then
    .error (.fatal s!"{field} unix timestamp ns out of range")
  else .ok datetime

/-- `datetime_from_unix_ns`. -/
def datetimeFromUnixNs (field : String) (ns : Int) : Except String Timestamp :=
  match OffsetDateTime.fromUnixTimestampNanos ns with
  | .ok datetime => .ok datetime.unixTimestampNanos
  | .error err => .error s!"{field} invalid unix timestamp ns {ns}: {err}"

/-- A database integer holds the time. -/
def FitsColumn (datetime : Timestamp) : Prop := -(2 ^ 63) ≤ datetime ∧ datetime < 2 ^ 63

instance (datetime : Timestamp) : Decidable (FitsColumn datetime) :=
  inferInstanceAs (Decidable (_ ∧ _))

theorem datetimeToUnixNs_eq_ok_iff {field : String} {datetime : Timestamp} {ns : Int} :
    datetimeToUnixNs field datetime = .ok ns ↔ FitsColumn datetime ∧ ns = datetime := by
  unfold datetimeToUnixNs FitsColumn
  split_ifs with h
  · refine ⟨fun heq => (by cases heq), fun hfits => ?_⟩
    rcases h with hlow | hhigh
    · exact absurd hfits.1.1 (not_le.mpr hlow)
    · exact absurd hfits.1.2 (not_lt.mpr hhigh)
  · obtain ⟨hlow, hhigh⟩ := not_or.mp h
    rw [Except.ok.injEq]
    exact ⟨fun heq => ⟨⟨not_lt.mp hlow, not_le.mp hhigh⟩, heq.symm⟩, fun hfits => hfits.2.symm⟩

/-- An optional time is stored exactly if it fits. -/
theorem mapM_datetimeToUnixNs_eq_ok_iff {field : String} {datetime : Option Timestamp}
    {ns : Option Int} : datetime.mapM (datetimeToUnixNs field) = .ok ns ↔
      (∀ d ∈ datetime, FitsColumn d) ∧ ns = datetime := by
  cases datetime with
  | none =>
    rw [Option.mapM_none]
    exact ⟨fun heq => ⟨nofun, (Except.ok.inj heq).symm⟩, fun h => congrArg Except.ok h.2.symm⟩
  | some d =>
    rw [Option.mapM_some]
    constructor
    · intro heq
      cases hd : datetimeToUnixNs field d with
      | error e => rw [hd] at heq; cases heq
      | ok n =>
        rw [hd] at heq
        obtain ⟨hfits, rfl⟩ := datetimeToUnixNs_eq_ok_iff.mp hd
        refine ⟨fun d' hd' => ?_, (Except.ok.inj heq).symm⟩
        cases hd'
        exact hfits
    · rintro ⟨hfits, rfl⟩
      rw [datetimeToUnixNs_eq_ok_iff.mpr ⟨hfits d rfl, rfl⟩]
      rfl

/-- Every time that a column holds is decoded. -/
theorem datetimeFromUnixNs_of_fits {datetime : Timestamp} (h : FitsColumn datetime)
    (field : String) : datetimeFromUnixNs field datetime = .ok datetime := by
  have hrange : -377705116800000000000 ≤ datetime ∧ datetime ≤ 253402300799999999999 :=
    ⟨le_trans (by decide) h.1, h.2.le.trans (by decide)⟩
  rw [datetimeFromUnixNs, OffsetDateTime.fromUnixTimestampNanos, dif_pos hrange]

theorem mapM_datetimeFromUnixNs_of_fits {datetime : Option Timestamp}
    (h : ∀ d ∈ datetime, FitsColumn d) (field : String) :
    datetime.mapM (datetimeFromUnixNs field) = .ok datetime := by
  cases datetime with
  | none => rfl
  | some d =>
    rw [Option.mapM_some, datetimeFromUnixNs_of_fits (h d rfl)]
    rfl

/-! ## Fingerprints -/

/-- The columns of the tables hold the stat. -/
def FileStatFingerprint.Storable (stat : FileStatFingerprint) : Prop :=
  FitsColumn stat.mtime ∧ stat.size ≤ i64Max

instance (stat : FileStatFingerprint) : Decidable stat.Storable :=
  inferInstanceAs (Decidable (_ ∧ _))

/-- The columns of a fingerprint can be written exactly if they hold its stat. -/
theorem fingerprintColumns_eq_ok_iff {table : String} {stat : FileStatFingerprint} {hash : FileHash}
    {columns : FileStatFingerprint × FileHash} :
    fingerprintColumns table (.statAndContent stat hash) = .ok columns ↔
      stat.Storable ∧ columns = (stat, hash) := by
  unfold fingerprintColumns FileStatFingerprint.Storable FitsColumn
  dsimp only
  split_ifs with htime hsize
  · refine ⟨fun heq => (by cases heq), fun hfits => ?_⟩
    rcases htime with hlow | hhigh
    · exact absurd hfits.1.1.1 (not_le.mpr hlow)
    · exact absurd hfits.1.1.2 (not_lt.mpr hhigh)
  · exact ⟨fun heq => (by cases heq), fun hfits => absurd hfits.1.2 (not_le.mpr hsize)⟩
  · obtain ⟨hlow, hhigh⟩ := not_or.mp htime
    rw [Except.ok.injEq]
    exact ⟨fun heq => ⟨⟨⟨not_lt.mp hlow, not_le.mp hhigh⟩, not_lt.mp hsize⟩, heq.symm⟩,
      fun hfits => hfits.2.symm⟩

/-- The stat columns of a row. -/
structure StatColumns where
  /-- `file_key`. -/
  fileKey : List Char
  /-- `size_bytes`. -/
  sizeBytes : Int
  /-- `mtime_ns`. -/
  mtimeNs : Int
  deriving DecidableEq

/-- The columns of a stat. -/
def FileStatFingerprint.columns (stat : FileStatFingerprint) : StatColumns :=
  ⟨stat.fileKey.encode, stat.size, stat.mtime⟩

/-- The part of `from_sql_row` that decodes the stat columns. -/
def StatColumns.decode (table : String) (columns : StatColumns) :
    Except String FileStatFingerprint := do
  let fileKey ← FileKey.decode columns.fileKey
  let sizeBytes := columns.sizeBytes
  require (0 ≤ sizeBytes) s!"{table}.size_bytes negative: {sizeBytes}"
  let mtime ← datetimeFromUnixNs s!"{table}.mtime_ns" columns.mtimeNs
  pure ⟨fileKey, sizeBytes.toNat, mtime⟩

/-- What is stored of a stat is decoded to it. -/
theorem StatColumns.decode_columns {stat : FileStatFingerprint} (hkey : stat.fileKey.Is64Bit)
    (hstorable : stat.Storable) (table : String) : stat.columns.decode table = .ok stat := by
  have hsize : (0 : Int) ≤ stat.size := by omega
  unfold StatColumns.decode FileStatFingerprint.columns
  dsimp only
  rw [FileKey.decode_encode hkey, require_of hsize, datetimeFromUnixNs_of_fits hstorable.1]
  rfl

/-! ## The prior tree -/

/-- The columns of a row of `prior_tree`. -/
structure PriorTreeSqlRow where
  path : List Char
  claimedPath : List Char
  claimId : Bytes
  objectId : Bytes
  stat : StatColumns
  hash : Option Bytes
  acceptedAtNs : Int
  deletedAtNs : Option Int
  deriving DecidableEq

/-- What `upsert_prior_tree_file` and `tombstone_prior_tree_file` store of a row. -/
def PriorTreeRow.toSqlRow (r : PriorTreeRow) : Except SemanticTransactionError PriorTreeSqlRow := do
  let (stat, hash) ← fingerprintColumns "prior_tree" r.fingerprint
  let acceptedAtNs ← datetimeToUnixNs "prior_tree.accepted_at" r.acceptedAt
  let deletedAtNs ← r.deletedAt.mapM (datetimeToUnixNs "prior_tree.deleted_at")
  pure ⟨r.path.toDbPath, r.claimedPath.toDbPath, r.claimId, r.objectId, stat.columns, some hash,
    acceptedAtNs, deletedAtNs⟩

/-- `prior_tree::Row::from_sql_row`. -/
def PriorTreeSqlRow.fromSqlRow (row : PriorTreeSqlRow) : Except String PriorTreeRow := do
  let path ← RelativePath.parse row.path
  let claimedPath ← RelativePath.parse row.claimedPath
  require (row.claimId ≠ []) "prior_tree.claim_id missing"
  require (row.objectId ≠ []) "prior_tree.object_id missing"
  require (row.stat.fileKey ≠ []) "prior_tree.file_key missing"
  let stat ← row.stat.decode "prior_tree"
  let fingerprint := match row.hash with
    | some hash => FileFingerprint.statAndContent stat hash
    | none => .statOnly stat
  let acceptedAt ← datetimeFromUnixNs "prior_tree.accepted_at_ns" row.acceptedAtNs
  let deletedAt ← row.deletedAtNs.mapM (datetimeFromUnixNs "prior_tree.deleted_at_ns")
  require (∀ d ∈ deletedAt, acceptedAt ≤ d) "prior_tree.deleted_at is before accepted_at"
  pure ⟨path, claimedPath, row.claimId, row.objectId, fingerprint, acceptedAt, deletedAt⟩

/-- A database integer holds the times of the row. -/
def PriorTreeRow.TimesFit (r : PriorTreeRow) : Prop :=
  FitsColumn r.acceptedAt ∧ ∀ deletedAt ∈ r.deletedAt, FitsColumn deletedAt

/-- A row is stored exactly if its fingerprint was read and its stat and times fit the columns. -/
theorem PriorTreeRow.toSqlRow_eq_ok_iff {r : PriorTreeRow} {row : PriorTreeSqlRow} :
    r.toSqlRow = .ok row ↔ ∃ stat hash, r.fingerprint = .statAndContent stat hash ∧ stat.Storable ∧
      r.TimesFit ∧ row = ⟨r.path.toDbPath, r.claimedPath.toDbPath, r.claimId, r.objectId,
        stat.columns, some hash, r.acceptedAt, r.deletedAt⟩ := by
  unfold PriorTreeRow.toSqlRow
  simp only [bind_eq_ok]
  constructor
  · rintro ⟨⟨stat, hash⟩, hcolumns, acceptedAt, haccepted, deletedAt, hdeleted, hrow⟩
    have hfp := eq_of_fingerprintColumns hcolumns
    rw [hfp, fingerprintColumns_eq_ok_iff] at hcolumns
    obtain ⟨hfits, rfl⟩ := datetimeToUnixNs_eq_ok_iff.mp haccepted
    obtain ⟨hfits', rfl⟩ := mapM_datetimeToUnixNs_eq_ok_iff.mp hdeleted
    exact ⟨stat, hash, hfp, hcolumns.1, ⟨hfits, hfits'⟩, (Except.ok.inj hrow).symm⟩
  · rintro ⟨stat, hash, hfp, hstorable, ⟨hfits, hfits'⟩, rfl⟩
    refine ⟨(stat, hash), ?_, r.acceptedAt, datetimeToUnixNs_eq_ok_iff.mpr ⟨hfits, rfl⟩, r.deletedAt,
      mapM_datetimeToUnixNs_eq_ok_iff.mpr ⟨hfits', rfl⟩, rfl⟩
    rw [hfp]
    exact fingerprintColumns_eq_ok_iff.mpr ⟨hstorable, rfl⟩

/-- A row has its ids, and was not deleted before it was accepted. -/
def PriorTreeRow.Decodable (r : PriorTreeRow) : Prop :=
  r.claimId ≠ [] ∧ r.objectId ≠ [] ∧ ∀ deletedAt ∈ r.deletedAt, r.acceptedAt ≤ deletedAt

/-- What is stored of a row is decoded, to the row itself, exactly if it has its ids and was not deleted
before it was accepted. -/
theorem PriorTreeRow.fromSqlRow_iff {r r' : PriorTreeRow} {row : PriorTreeSqlRow}
    (hkey : r.fingerprint.stat.fileKey.Is64Bit) (h : r.toSqlRow = .ok row) :
    row.fromSqlRow = .ok r' ↔ r.Decodable ∧ r' = r := by
  obtain ⟨stat, hash, hfp, hstorable, ⟨hfits, hfits'⟩, rfl⟩ := PriorTreeRow.toSqlRow_eq_ok_iff.mp h
  rw [hfp] at hkey
  have hstat : stat.columns.decode "prior_tree" = .ok stat :=
    StatColumns.decode_columns hkey hstorable "prior_tree"
  unfold PriorTreeSqlRow.fromSqlRow PriorTreeRow.Decodable
  simp only [bind_eq_ok, RelativePath.parse_toDbPath, datetimeFromUnixNs_of_fits hfits,
    mapM_datetimeFromUnixNs_of_fits hfits', require_eq_ok_iff, Except.ok.injEq]
  constructor
  · rintro ⟨_, rfl, _, rfl, -, hclaim, -, hobject, -, -, stat', hstat', _, rfl, _, rfl, -, horder, hrow⟩
    rw [hstat] at hstat'
    cases hstat'
    refine ⟨⟨hclaim, hobject, horder⟩, ?_⟩
    rw [← Except.ok.inj hrow, ← hfp]
  · rintro ⟨⟨hclaim, hobject, horder⟩, rfl⟩
    refine ⟨_, rfl, _, rfl, ⟨⟩, hclaim, ⟨⟩, hobject, ⟨⟩, stat.fileKey.encode_ne_nil, stat, hstat, _,
      rfl, _, rfl, ⟨⟩, horder, ?_⟩
    rw [← hfp]
    rfl

/-! ## Staged imports -/

/-- `StageKind` as it is stored. -/
def StageKind.serialize : StageKind → List Char
  | .new => "new".toList
  | .resurrect => "resurrect".toList
  | .update => "update".toList

/-- `StageKind::from_str`. -/
def StageKind.parse (raw : List Char) : Option StageKind :=
  if raw = "new".toList then some .new
  else if raw = "resurrect".toList then some .resurrect
  else if raw = "update".toList then some .update
  else none

theorem StageKind.parse_serialize (kind : StageKind) : StageKind.parse kind.serialize = some kind := by
  cases kind <;> decide +kernel

/-- The columns of a row of `import_staged_files`. -/
structure ImportStagedSqlRow (D : Type) where
  importEpoch : Int
  actionSeq : Int
  path : List Char
  objectId : Bytes
  claimId : Bytes
  stageKind : List Char
  stat : StatColumns
  hash : Bytes
  priorDocBlob : D
  textUpdate : Option D

/-- What `insert_import_staged_file` stores of a row. -/
def StagedRow.toSqlRow {D : Type} (r : StagedRow D) :
    Except SemanticTransactionError (ImportStagedSqlRow D) := do
  require (r.importEpoch ≤ i64Max)
    (.invariantViolation "import_staged_files.import_epoch out of range")
  require (r.actionSeq ≤ i64Max) (.invariantViolation "import_staged_files.action_seq out of range")
  let (stat, hash) ← fingerprintColumns "import_staged_files" r.fingerprint
  pure ⟨r.importEpoch, r.actionSeq, r.path.toDbPath, r.objectId, r.claimId, r.stageKind.serialize,
    stat.columns, hash, r.priorDocBlob, r.textUpdate⟩

/-- `import_staged_files::Row::from_sql_row`. -/
def ImportStagedSqlRow.fromSqlRow {D : Type} (row : ImportStagedSqlRow D) :
    Except String (StagedRow D) := do
  let raw := String.ofList row.stageKind
  require (row.objectId ≠ []) "import_staged_files.object_id missing"
  require (row.claimId ≠ []) "import_staged_files.claim_id missing"
  require (row.stat.fileKey ≠ []) "import_staged_files.file_key missing"
  require (row.hash ≠ []) "import_staged_files.hash missing"
  require (0 ≤ row.importEpoch) "import_staged_files.import_epoch negative"
  require (0 ≤ row.actionSeq) "import_staged_files.action_seq negative"
  let path ← RelativePath.parse row.path
  let stageKind ← match StageKind.parse row.stageKind with
    | some kind => .ok kind
    | none => .error s!"invalid import_staged_files.stage_kind: {raw}"
  let stat ← row.stat.decode "import_staged_files"
  pure ⟨row.importEpoch.toNat, row.actionSeq.toNat, path, row.objectId, row.claimId, stageKind,
    .statAndContent stat row.hash, row.priorDocBlob, row.textUpdate⟩

/-- A row is stored exactly if its fingerprint was read and its stat and its action fit the columns. -/
theorem StagedRow.toSqlRow_eq_ok_iff {D : Type} {r : StagedRow D} {row : ImportStagedSqlRow D} :
    r.toSqlRow = .ok row ↔ r.importEpoch ≤ i64Max ∧ r.actionSeq ≤ i64Max ∧
      ∃ stat hash, r.fingerprint = .statAndContent stat hash ∧ stat.Storable ∧
        row = ⟨r.importEpoch, r.actionSeq, r.path.toDbPath, r.objectId, r.claimId,
          r.stageKind.serialize, stat.columns, hash, r.priorDocBlob, r.textUpdate⟩ := by
  unfold StagedRow.toSqlRow
  simp only [bind_eq_ok, require_eq_ok_iff]
  constructor
  · rintro ⟨-, hepoch, -, hseq, ⟨stat, hash⟩, hcolumns, hrow⟩
    have hfp := eq_of_fingerprintColumns hcolumns
    rw [hfp, fingerprintColumns_eq_ok_iff] at hcolumns
    exact ⟨hepoch, hseq, stat, hash, hfp, hcolumns.1, (Except.ok.inj hrow).symm⟩
  · rintro ⟨hepoch, hseq, stat, hash, hfp, hstorable, rfl⟩
    refine ⟨⟨⟩, hepoch, ⟨⟩, hseq, (stat, hash), ?_, rfl⟩
    rw [hfp]
    exact fingerprintColumns_eq_ok_iff.mpr ⟨hstorable, rfl⟩

/-- What is stored of a row is decoded to it, if it has its ids and its hash. -/
theorem StagedRow.fromSqlRow_of_toSqlRow {D : Type} {r : StagedRow D} {row : ImportStagedSqlRow D}
    (hkey : r.fingerprint.stat.fileKey.Is64Bit) (hobject : r.objectId ≠ []) (hclaim : r.claimId ≠ [])
    {stat : FileStatFingerprint} {hash : FileHash} (hfp : r.fingerprint = .statAndContent stat hash)
    (hhash : hash ≠ []) (h : r.toSqlRow = .ok row) : row.fromSqlRow = .ok r := by
  obtain ⟨-, -, stat', hash', hfp', hstorable, rfl⟩ := StagedRow.toSqlRow_eq_ok_iff.mp h
  rw [hfp] at hfp' hkey
  cases hfp'
  have hstat : stat.columns.decode "import_staged_files" = .ok stat :=
    StatColumns.decode_columns hkey hstorable "import_staged_files"
  unfold ImportStagedSqlRow.fromSqlRow
  simp only [bind_eq_ok, RelativePath.parse_toDbPath, require_eq_ok_iff, StageKind.parse_serialize,
    Except.ok.injEq]
  refine ⟨⟨⟩, hobject, ⟨⟩, hclaim, ⟨⟩, stat.fileKey.encode_ne_nil, ⟨⟩, hhash, ⟨⟩, Int.natCast_nonneg _,
    ⟨⟩, Int.natCast_nonneg _, _, rfl, _, rfl, stat, hstat, ?_⟩
  rw [← hfp]
  rfl

/-! ## Ignored files -/

/-- `Reason::as_str`. -/
def IgnoredReason.asStr : IgnoredReason → List Char
  | .nonUtf8 => "non_utf8".toList
  | .permissionDenied => "permission_denied".toList
  | .tooLarge => "too_large".toList

/-- `Reason::parse`. -/
def IgnoredReason.parse (s : List Char) : Except String IgnoredReason :=
  let other := (String.ofList s).quote
  if s = "non_utf8".toList then .ok .nonUtf8
  else if s = "permission_denied".toList then .ok .permissionDenied
  else if s = "too_large".toList then .ok .tooLarge
  else .error s!"unknown ignored_files reason: {other}"

theorem IgnoredReason.parse_asStr (reason : IgnoredReason) :
    IgnoredReason.parse reason.asStr = .ok reason := by
  cases reason <;> decide +kernel

/-- The columns of a row of `ignored_files`. -/
structure IgnoredSqlRow where
  path : List Char
  reason : List Char
  stat : StatColumns
  deriving DecidableEq

/-- What `upsert_ignored_file` stores of a row. -/
def IgnoredRow.toSqlRow (r : IgnoredRow) : Except SemanticTransactionError IgnoredSqlRow := do
  let _ ← datetimeToUnixNs "ignored_files.mtime" r.stat.mtime
  require (r.stat.size ≤ i64Max) (.invariantViolation "ignored_files.size_bytes out of range")
  pure ⟨r.path.toDbPath, r.reason.asStr, r.stat.columns⟩

/-- `ignored_files::Row::from_sql_row`. -/
def IgnoredSqlRow.fromSqlRow (row : IgnoredSqlRow) : Except String IgnoredRow := do
  let path ← RelativePath.parse row.path
  let reason ← IgnoredReason.parse row.reason
  require (row.stat.fileKey ≠ []) "ignored_files.file_key missing"
  let stat ← row.stat.decode "ignored_files"
  pure ⟨path, reason, stat⟩

/-- A row is stored exactly if its stat fits the columns. -/
theorem IgnoredRow.toSqlRow_eq_ok_iff {r : IgnoredRow} {row : IgnoredSqlRow} :
    r.toSqlRow = .ok row ↔
      r.stat.Storable ∧ row = ⟨r.path.toDbPath, r.reason.asStr, r.stat.columns⟩ := by
  unfold IgnoredRow.toSqlRow
  simp only [bind_eq_ok, require_eq_ok_iff]
  constructor
  · rintro ⟨mtime, hmtime, -, hsize, hrow⟩
    exact ⟨⟨(datetimeToUnixNs_eq_ok_iff.mp hmtime).1, hsize⟩, (Except.ok.inj hrow).symm⟩
  · rintro ⟨⟨hmtime, hsize⟩, rfl⟩
    exact ⟨_, datetimeToUnixNs_eq_ok_iff.mpr ⟨hmtime, rfl⟩, ⟨⟩, hsize, rfl⟩

/-- What is stored of a row is decoded to it. -/
theorem IgnoredRow.fromSqlRow_of_toSqlRow {r : IgnoredRow} {row : IgnoredSqlRow}
    (hkey : r.stat.fileKey.Is64Bit) (h : r.toSqlRow = .ok row) : row.fromSqlRow = .ok r := by
  obtain ⟨hstorable, rfl⟩ := IgnoredRow.toSqlRow_eq_ok_iff.mp h
  unfold IgnoredSqlRow.fromSqlRow
  simp only [bind_eq_ok, RelativePath.parse_toDbPath, IgnoredReason.parse_asStr, require_eq_ok_iff,
    Except.ok.injEq]
  exact ⟨_, rfl, _, rfl, ⟨⟩, r.stat.fileKey.encode_ne_nil, _,
    StatColumns.decode_columns hkey hstorable "ignored_files", rfl⟩

end Opbox
