import Opbox.Crdt.Snapshots
import Opbox.Semantic.Batch

/-!
# Batches may be cut anywhere

`exec_tx` runs the body of a transaction until it is committed: the storage engine may ask for
another attempt, and an attempt that is not committed leaves nothing behind.  With it a run of
records leaves the same documents, the same objects, the same stable tree and the same cursor however
it is cut into batches.
-/

namespace Opbox

/-! ## `exec_tx` -/

/-- `TURSO_RETRY_ATTEMPTS`. -/
def tursoRetryAttempts : Nat := 25

/-- An error of the storage engine. -/
inductive TursoError where
  /-- `TursoRetryable`: the transaction may be tried again. -/
  | retryable (reason : String)
  /-- Any other. -/
  | fatal (reason : String)

/-- How the storage engine answers one attempt of a transaction. -/
inductive TursoAttempt where
  /-- `BEGIN` fails. -/
  | beginFails (e : TursoError)
  /-- A statement of the body fails. -/
  | statementFails (e : TursoError)
  /-- Every statement of the body is answered, and `COMMIT` fails. -/
  | commitFails (e : TursoError)
  /-- Every statement of the body is answered, and `COMMIT` succeeds. -/
  | commits

/-- What `exec_tx` fails with. -/
inductive ExecTxError where
  /-- A check of the body has failed. -/
  | body (e : SemanticTransactionError)
  /-- The storage engine has failed. -/
  | turso (e : TursoError)

section ExecTx

variable {σ α : Type}

/-- The storage engine has failed in attempt `n`: try again or give up. -/
def retryOr (e : TursoError) (n : Nat) (db : σ) (again : Option (Except ExecTxError α × σ)) :
    Option (Except ExecTxError α × σ) :=
  match e with
  | .retryable reason =>
    if n < tursoRetryAttempts then again else some (.error (.turso (.retryable reason)), db)
  | .fatal reason => some (.error (.turso (.fatal reason)), db)

/-- `exec_tx` from attempt `n` on, with the answers of the storage engine: the result and the
database afterwards, and `none` while the answers end before the transaction does.  Only `COMMIT`
changes the database. -/
def execTxFrom (body : Transaction σ SemanticTransactionError α) (db : σ) :
    Nat → List TursoAttempt → Option (Except ExecTxError α × σ)
  | _, [] => none
  | n, .beginFails e :: attempts => retryOr e n db (execTxFrom body db (n + 1) attempts)
  | n, .statementFails e :: attempts => retryOr e n db (execTxFrom body db (n + 1) attempts)
  | n, .commitFails e :: attempts =>
    match body.run db with
    | .ok _ => retryOr e n db (execTxFrom body db (n + 1) attempts)
    | .error e => some (.error (.body e), db)
  | _, .commits :: _ =>
    match body.run db with
    | .ok (a, db') => some (.ok a, db')
    | .error e => some (.error (.body e), db)

/-- `exec_tx`. -/
def execTx (body : Transaction σ SemanticTransactionError α) (attempts : List TursoAttempt)
    (db : σ) : Option (Except ExecTxError α × σ) :=
  execTxFrom body db 0 attempts

variable {body : Transaction σ SemanticTransactionError α} {db db' : σ}

/-- The result of `exec_tx` and what it has done to the database. -/
inductive Execution (body : Transaction σ SemanticTransactionError α) (db : σ) :
    Except ExecTxError α × σ → Prop
  /-- The body was committed. -/
  | committed {a : α} {db' : σ} (hrun : Runs body db a db') : Execution body db (.ok a, db')
  /-- Nothing was committed. -/
  | rolledBack {e : ExecTxError} : Execution body db (.error e, db)

theorem execution_of_retryOr {r : Except ExecTxError α × σ} {e : TursoError} {n : Nat}
    {again : Option (Except ExecTxError α × σ)} (hagain : again = some r → Execution body db r)
    (h : retryOr e n db again = some r) : Execution body db r := by
  unfold retryOr at h
  split at h
  · split_ifs at h
    · exact hagain h
    · cases h
      exact .rolledBack
  · cases h
    exact .rolledBack

/-- A transaction that ends has committed its body or left the database alone. -/
theorem execution_of_execTxFrom {r : Except ExecTxError α × σ} {attempts : List TursoAttempt}
    {n : Nat} (h : execTxFrom body db n attempts = some r) : Execution body db r := by
  induction attempts generalizing n with
  | nil => cases h
  | cons attempt attempts ih =>
    cases attempt with
    | beginFails e => exact execution_of_retryOr ih h
    | statementFails e => exact execution_of_retryOr ih h
    | commitFails e =>
      simp only [execTxFrom] at h
      split at h
      · exact execution_of_retryOr ih h
      · cases h
        exact .rolledBack
    | commits =>
      simp only [execTxFrom] at h
      split at h
      · next a db' hrun =>
        cases h
        exact .committed hrun
      · cases h
        exact .rolledBack

end ExecTx

/-! ## What some records do to the database -/

variable {D : Type}

/-- The objects with a row. -/
def Db.objectIds (db : Db D) : Set ObjectId := { id | ∃ object ∈ db.objects, object.objectId = id }

/-- The objects with a stable text document. -/
def Db.stableTextIds (db : Db D) : Set ObjectId :=
  { id | ∃ row ∈ db.stableTextObjects, row.objectId = id }

/-- Some message changes the namespace. -/
def TouchesNamespace (messages : List (SharedMessage D)) : Prop :=
  ∃ update, SharedMessage.namespaceUpdate update ∈ messages

/-- The objects whose text some message changes. -/
def touchedTexts (messages : List (SharedMessage D)) : Set ObjectId :=
  { id | ∃ update, SharedMessage.textObjectUpdate id update ∈ messages }

theorem touchesNamespace_append {messages messages' : List (SharedMessage D)} :
    TouchesNamespace (messages ++ messages') ↔
      TouchesNamespace messages ∨ TouchesNamespace messages' := by
  simp only [TouchesNamespace, List.mem_append, exists_or]

theorem touchedTexts_append {messages messages' : List (SharedMessage D)} :
    touchedTexts (messages ++ messages') = touchedTexts messages ∪ touchedTexts messages' := by
  ext id
  simp only [touchedTexts, List.mem_append, exists_or, Set.mem_ofPred_eq, Set.mem_union]

theorem foreignMessages_append {writer : DaemonWriterId}
    {envelopes envelopes' : List (SharedMessageEnvelope (SharedMessage D))} :
    foreignMessages writer (envelopes ++ envelopes') =
      foreignMessages writer envelopes ++ foreignMessages writer envelopes' := by
  simp only [foreignMessages, List.filter_append, List.map_append]

/-- Objects only join a namespace. -/
theorem allObjectIds_mono {doc doc' : NamespaceDoc} (h : ∀ op ∈ doc, op ∈ doc') {id : ObjectId}
    (hid : id ∈ doc.allObjectIds) : id ∈ doc'.allObjectIds := by
  rw [NamespaceDoc.allObjectIds, NamespaceDoc.mem_values] at hid ⊢
  obtain ⟨op, hop, hvalue⟩ := hid
  exact ⟨op, h op hop, hvalue⟩

theorem objectIds_of_ensureObject {db db' : Db D} {object : ConfirmedObject} {u : PUnit}
    (h : Runs (ensureObject (D := D) object) db u db') :
    db'.objectIds = insert object.objectId db.objectIds := by
  unfold ensureObject at h
  split at h
  · rw [insertOrIgnoreObject, Runs.modify_iff] at h
    subst h
    ext id
    rw [Set.mem_insert_iff]
    split
    · next objects hinsert =>
      constructor
      · rintro ⟨o, ho, rfl⟩
        rcases (Table.mem_insert? hinsert).mp ho with rfl | ho
        · exact .inl rfl
        · exact .inr ⟨o, ho, rfl⟩
      · rintro (rfl | ⟨o, ho, rfl⟩)
        · exact ⟨_, (Table.mem_insert? hinsert).mpr (.inl rfl), rfl⟩
        · exact ⟨o, (Table.mem_insert? hinsert).mpr (.inr ho), rfl⟩
    · next hnone =>
      obtain ⟨o, ho⟩ := Table.insert?_eq_none_iff.mp hnone
      refine ⟨.inr, fun hid => ?_⟩
      rcases hid with rfl | hid
      · exact ⟨o, Table.mem_of_find? ho, Table.key_of_find? ho⟩
      · exact hid
  · exact absurd h Runs.throw_iff

theorem objectIds_of_ensureObjects {db db' : Db D} {objects : List ConfirmedObject} {u : PUnit}
    (h : Runs (forM objects (ensureObject (D := D))) db u db') :
    db'.objectIds = db.objectIds ∪ { id | ∃ object ∈ objects, object.objectId = id } := by
  refine Runs.forM_invariant (fun done t => t.objectIds =
    db.objectIds ∪ { id | ∃ object ∈ done, object.objectId = id }) h (by simp) ?_
  intro done object rest t t' _ ht hrun
  rw [objectIds_of_ensureObject hrun, ht]
  ext id
  simp only [Set.mem_insert_iff, Set.mem_union, Set.mem_ofPred_eq, List.mem_append,
    List.mem_singleton]
  constructor
  · rintro (rfl | hid | ⟨o, ho, rfl⟩)
    · exact .inr ⟨object, .inr rfl, rfl⟩
    · exact .inl hid
    · exact .inr ⟨o, .inl ho, rfl⟩
  · rintro (hid | ⟨o, ho | rfl, rfl⟩)
    · exact .inr (.inl hid)
    · exact .inr (.inr ⟨o, ho, rfl⟩)
    · exact .inl rfl

/-- The objects of a materialization are those of the document. -/
theorem confirmedObjects_ids {doc : NamespaceDoc} {projection : NamespaceProjection}
    (h : doc.materialize = .ok projection) {id : ObjectId} :
    (∃ object ∈ projection.confirmedObjects, object.objectId = id) ↔ id ∈ doc.allObjectIds := by
  have hobjects := (NamespaceDoc.materialize_eq_ok.mp h).1
  rw [NamespaceDoc.confirmedObjects] at hobjects
  constructor
  · rintro ⟨object, hobject, rfl⟩
    obtain ⟨x, hx, hok⟩ := (mem_of_mapM_eq_ok hobjects).mp hobject
    split at hok
    · cases hok
      exact mem_sortedList.mp hx
    · cases hok
  · intro hid
    obtain ⟨m, hm⟩ := NamespaceDoc.mem_allObjectIds.mp hid
    refine ⟨⟨id, m⟩, (mem_of_mapM_eq_ok hobjects).mpr ⟨id, mem_sortedList.mpr hid, ?_⟩, rfl⟩
    rw [hm]

/-- Writing a namespace makes a row for each of its objects. -/
theorem objectIds_of_writeStableNamespaceProjectionTx {db db' : Db D} {doc : NamespaceDoc}
    {updatedAt : Timestamp} {u : PUnit}
    (h : Runs (writeStableNamespaceProjectionTx (D := D) doc updatedAt) db u db') :
    db'.objectIds = db.objectIds ∪ { id | id ∈ doc.allObjectIds } := by
  simp only [writeStableNamespaceProjectionTx, Runs.bind_iff, Runs.liftExcept_iff, Runs.get_iff,
    updateStableNamespace, Runs.modify_iff, materializeTx_eq_ok] at h
  obtain ⟨projection, _, ⟨hproj, rfl⟩, ⟨⟩, _, rfl, ⟨⟩, db₁, hobjects, desired, _, ⟨hdesired, rfl⟩,
    _, _, ⟨rfl, rfl⟩, ⟨⟩, db₂, hdeletes, hinserts⟩ := h
  have hids := objectIds_of_ensureObjects hobjects
  have hsame : db'.objectIds = db₁.objectIds := by
    rw [Db.objectIds, (runs_inserts hinserts).1, (runs_deletes hdeletes).1]
    rfl
  rw [hsame, hids]
  ext id
  simp only [Set.mem_union, Set.mem_ofPred_eq, confirmedObjects_ids hproj]
  rfl

/-! ## A batch -/

section Batch

variable [TextCrdt D] {db db' : Db D}

/-- `apply_shared_message_batch`, with the answers of the storage engine. -/
def applySharedMessageBatch (batch : SharedMessageBatch (SharedMessage D))
    (attempts : List TursoAttempt) (db : Db D) :
    Option (Except ExecTxError SemanticEffects × Db D) :=
  execTx (applySharedMessageBatchTx batch) attempts db

/-- What applying some records does to the database. -/
structure RecordsApplied (db db' : Db D)
    (records : List (SharedMessageEnvelope (SharedMessage D))) : Prop where
  /-- The daemon keeps its writer id. -/
  writerId : db'.writerId = db.writerId
  /-- The operations of the records of others join the stable documents. -/
  stableOps : db'.stableOps =
    db.stableOps ∪ messageOps (foreignMessages db.writerId records)
  /-- Every text that is touched has a document. -/
  textIds : db'.stableTextIds =
    db.stableTextIds ∪ touchedTexts (foreignMessages db.writerId records)
  /-- Every object of a namespace that is touched has a row. -/
  objectIds : db'.objectIds = db.objectIds ∪
    { id | TouchesNamespace (foreignMessages db.writerId records) ∧
      id ∈ db'.stableNamespace.allObjectIds }
  /-- A namespace that is touched is rendered. -/
  treeSynced : TouchesNamespace (foreignMessages db.writerId records) →
    TreeSynced db'.stableTree db'.stableNamespace
  /-- Otherwise the tree stays. -/
  tree : ¬TouchesNamespace (foreignMessages db.writerId records) → db'.stableTree = db.stableTree
  /-- The cursor moves past the records. -/
  cursor : db'.stableCursor = db.stableCursor + records.length

/-- What a batch has collected: the namespace if some message touches it, and the texts that are
touched. -/
theorem collected_of_foldlM {envelopes : List (SharedMessageEnvelope (SharedMessage D))}
    {docs docs' : BatchDocs D} (h : envelopes.foldlM (applyEnvelope db) docs = .ok docs') :
    (docs'.namespaceDoc ≠ none ↔ docs.namespaceDoc ≠ none ∨
      TouchesNamespace (foreignMessages db.writerId envelopes)) ∧
    ∀ id, (∃ row ∈ docs'.textDocs, row.objectId = id) ↔
      (∃ row ∈ docs.textDocs, row.objectId = id) ∨
        id ∈ touchedTexts (foreignMessages db.writerId envelopes) := by
  induction envelopes generalizing docs with
  | nil =>
    cases h
    simp [foreignMessages, TouchesNamespace, touchedTexts]
  | cons e envelopes ih =>
    rw [List.foldlM_cons] at h
    cases he : applyEnvelope db docs e with
    | error err => rw [he] at h; cases h
    | ok docs₁ =>
      rw [he] at h
      obtain ⟨hns, htexts⟩ := ih h
      unfold applyEnvelope at he
      by_cases hown : e.origin.daemonWriterId = db.writerId
      · rw [if_pos hown] at he
        cases he
        have hsame : foreignMessages db.writerId (e :: envelopes) =
            foreignMessages db.writerId envelopes := by
          simp [foreignMessages, hown]
        rw [hsame]
        exact ⟨hns, htexts⟩
      · rw [if_neg hown] at he
        have hforeign : foreignMessages db.writerId (e :: envelopes) =
            [e.sharedMessage] ++ foreignMessages db.writerId envelopes := by
          simp [foreignMessages, hown]
        rw [hforeign, touchesNamespace_append, touchedTexts_append, hns]
        simp only [htexts, Set.mem_union]
        unfold applyMessage at he
        cases hm : e.sharedMessage with
        | namespaceUpdate update =>
          rw [hm] at he
          cases he
          simp [TouchesNamespace, touchedTexts]
        | textObjectUpdate id update =>
          rw [hm] at he
          cases he
          refine ⟨by simp [TouchesNamespace], fun id' => ?_⟩
          rw [← or_assoc]
          refine or_congr_left ?_
          have htouched : id' ∈ touchedTexts [SharedMessage.textObjectUpdate id update] ↔ id' = id := by
            simp [touchedTexts]
          rw [htouched]
          constructor
          · rintro ⟨row, hrow, rfl⟩
            rcases Table.mem_put.mp hrow with rfl | ⟨hrow, -⟩
            · exact .inr rfl
            · exact .inl ⟨row, hrow, rfl⟩
          · rintro (⟨row, hrow, rfl⟩ | rfl)
            · by_cases hid : row.objectId = id
              · exact ⟨_, Table.mem_put.mpr (.inl rfl), hid.symm⟩
              · exact ⟨row, Table.mem_put.mpr (.inr ⟨hrow, hid⟩), rfl⟩
            · exact ⟨_, Table.mem_put.mpr (.inl rfl), rfl⟩
        | binaryObjectPut => rw [hm] at he; cases he

/-- A batch with a namespace message makes a row for each object of the new namespace. -/
theorem objectIds_of_applySharedMessageBatchTx {batch : SharedMessageBatch (SharedMessage D)}
    {effects : SemanticEffects} (h : Runs (applySharedMessageBatchTx batch) db effects db') :
    ∃ docs, collectBatch db batch.messages = .ok docs ∧
      db'.objectIds = db.objectIds ∪
        { id | docs.namespaceDoc ≠ none ∧ id ∈ (docs.namespace db).allObjectIds } := by
  simp only [applySharedMessageBatchTx, Runs.bind_iff, Runs.get_iff, Runs.ite_iff, Runs.throw_iff,
    and_false, false_or, not_not, Runs.liftExcept_iff, Runs.pure_iff] at h
  obtain ⟨db, _, ⟨rfl, rfl⟩, -, docs, _, ⟨hdocs, rfl⟩, ⟨⟩, db₁, hns, ⟨⟩, db₂, htexts, ⟨⟩, db₃,
    hupdate, -, -, rfl⟩ := h
  obtain ⟨-, rfl⟩ := runs_updateStableCursor hupdate
  refine ⟨docs, hdocs, ?_⟩
  have hsame : Db.objectIds { db₂ with stableCursor := batch.next } = db₁.objectIds := by
    rw [Db.objectIds, runs_upsertStableTexts htexts]
    rfl
  rw [hsame]
  unfold writeBatchNamespace at hns
  cases hdoc : docs.namespaceDoc with
  | none =>
    rw [hdoc, Runs.pure_iff] at hns
    rw [← hns.2]
    simp
  | some doc =>
    rw [hdoc] at hns
    rw [objectIds_of_writeStableNamespaceProjectionTx hns, BatchDocs.namespace, hdoc]
    simp

/-- What a batch does. -/
theorem recordsApplied_of_runs {batch : SharedMessageBatch (SharedMessage D)}
    {effects : SemanticEffects} (h : Runs (applySharedMessageBatchTx batch) db effects db') :
    RecordsApplied db db' batch.messages := by
  obtain ⟨docs, happlied, -⟩ := runs_applySharedMessageBatchTx h
  obtain ⟨docs', hdocs', hobjects⟩ := objectIds_of_applySharedMessageBatchTx h
  obtain rfl : docs = docs' := Except.ok.inj (happlied.collected.symm.trans hdocs')
  obtain ⟨hns, htexts⟩ := collected_of_foldlM happlied.collected
  have hns' : docs.namespaceDoc ≠ none ↔
      TouchesNamespace (foreignMessages db.writerId batch.messages) := by
    simpa [BatchDocs.empty] using hns
  have hnamespace : db'.stableNamespace = docs.namespace db := by rw [happlied.eq]
  refine ⟨by rw [happlied.eq], happlied.stableOps, ?_, ?_, ?_, ?_, ?_⟩
  · have hrows : db'.stableTextObjects = db.stableTextObjects.putAll docs.textDocs.rows := by
      rw [happlied.eq]
    ext id
    have htouched : (∃ row ∈ docs.textDocs, row.objectId = id) ↔
        id ∈ touchedTexts (foreignMessages db.writerId batch.messages) := by
      rw [htexts id]
      simp [BatchDocs.empty]
    rw [Set.mem_union, ← htouched]
    simp only [Db.stableTextIds, Set.mem_ofPred_eq, hrows]
    constructor
    · rintro ⟨row, hrow, rfl⟩
      rcases Table.mem_of_mem_putAll hrow with hrow | ⟨hrow, -⟩
      · exact .inr ⟨row, Table.mem_rows.mp hrow, rfl⟩
      · exact .inl ⟨row, hrow, rfl⟩
    · intro hid
      by_contra hnone
      have hfind : (db.stableTextObjects.putAll docs.textDocs.rows).find? id = none := by
        rw [Table.find?_eq_none_iff]
        exact fun row hrow hkey => hnone ⟨row, hrow, hkey⟩
      rw [Table.find?_putAll_eq_none_iff, Table.find?_eq_none_iff] at hfind
      rcases hid with ⟨row, hrow, hkey⟩ | ⟨row, hrow, hkey⟩
      · exact hfind.1 row hrow hkey
      · exact hfind.2 (List.mem_map.mpr ⟨row, Table.mem_rows.mpr hrow, hkey⟩)
  · rw [hobjects, hnamespace, ← hns']
  · intro htouched
    have hwritten := happlied.stableTree_written (hns'.mpr htouched)
    rw [hnamespace]
    exact hwritten.treeSynced
  · intro hnot
    exact happlied.stableTree_none (not_not.mp fun hne => hnot (hns'.mp hne))
  · rw [happlied.eq, happlied.cursor]
    rfl

/-! ## Several batches -/

theorem RecordsApplied.nil : RecordsApplied db db [] where
  writerId := rfl
  stableOps := by simp [foreignMessages]
  textIds := by simp [foreignMessages, touchedTexts]
  objectIds := by simp [foreignMessages, TouchesNamespace]
  treeSynced := fun ⟨_, h⟩ => by cases h
  tree := fun _ => rfl
  cursor := rfl

/-- The namespace only grows. -/
theorem RecordsApplied.namespace_subset
    {records : List (SharedMessageEnvelope (SharedMessage D))} (h : RecordsApplied db db' records) :
    ∀ op ∈ db.stableNamespace, op ∈ db'.stableNamespace := by
  intro op hop
  have hmem : SharedOp.ns op ∈ db'.stableOps := by
    rw [h.stableOps]
    exact .inl hop
  exact hmem

/-- Without a message for it the namespace stays. -/
theorem RecordsApplied.namespace_eq
    {records : List (SharedMessageEnvelope (SharedMessage D))} (h : RecordsApplied db db' records)
    (hnot : ¬TouchesNamespace (foreignMessages db.writerId records)) :
    db'.stableNamespace = db.stableNamespace := by
  ext op
  have hops : SharedOp.ns op ∈ db'.stableOps ↔ SharedOp.ns op ∈ db.stableOps ∨
      SharedOp.ns op ∈ messageOps (foreignMessages db.writerId records) := by
    rw [h.stableOps, Set.mem_union]
  rw [ns_mem_stableOps, ns_mem_stableOps] at hops
  rw [hops, or_iff_left_iff_imp]
  rintro ⟨message, hmessage, hop⟩
  cases message with
  | namespaceUpdate update => exact absurd ⟨update, hmessage⟩ hnot
  | textObjectUpdate id update => exact absurd hop ns_notMem_sharedOps_textObjectUpdate
  | binaryObjectPut => cases hop

/-- What two runs of records do one after the other. -/
theorem RecordsApplied.append {db'' : Db D}
    {records records' : List (SharedMessageEnvelope (SharedMessage D))}
    (h : RecordsApplied db db' records) (h' : RecordsApplied db' db'' records') :
    RecordsApplied db db'' (records ++ records') := by
  have hwriter := h.writerId
  have hops := h'.stableOps
  have htexts := h'.textIds
  have hobjects := h'.objectIds
  have hsynced := h'.treeSynced
  have htree := h'.tree
  have hsubset := h'.namespace_subset
  have heq := h'.namespace_eq
  rw [hwriter] at hops htexts hobjects hsynced htree heq
  refine ⟨h'.writerId.trans hwriter, ?_, ?_, ?_, ?_, ?_, ?_⟩
  · rw [hops, h.stableOps, foreignMessages_append, messageOps_append, Set.union_assoc]
  · rw [htexts, h.textIds, foreignMessages_append, touchedTexts_append, Set.union_assoc]
  · rw [hobjects, h.objectIds, foreignMessages_append, touchesNamespace_append]
    ext id
    simp only [Set.mem_union, Set.mem_ofPred_eq]
    constructor
    · rintro ((hid | ⟨htouched, hid⟩) | ⟨htouched, hid⟩)
      · exact .inl hid
      · exact .inr ⟨.inl htouched, allObjectIds_mono hsubset hid⟩
      · exact .inr ⟨.inr htouched, hid⟩
    · rintro (hid | ⟨htouched, hid⟩)
      · exact .inl (.inl hid)
      · by_cases hlater : TouchesNamespace (foreignMessages db.writerId records')
        · exact .inr ⟨hlater, hid⟩
        · rw [heq hlater] at hid
          exact .inl (.inr ⟨htouched.resolve_right hlater, hid⟩)
  · rw [foreignMessages_append, touchesNamespace_append]
    intro htouched
    by_cases hlater : TouchesNamespace (foreignMessages db.writerId records')
    · exact hsynced hlater
    · rw [heq hlater, htree hlater]
      exact h.treeSynced (htouched.resolve_right hlater)
  · rw [foreignMessages_append, touchesNamespace_append, not_or]
    rintro ⟨hnot, hlater⟩
    exact (htree hlater).trans (h.tree hnot)
  · rw [h'.cursor, h.cursor, List.length_append, Nat.add_assoc]

/-- The batches are applied one after the other, each with success. -/
inductive AppliesBatches : Db D → List (SharedMessageBatch (SharedMessage D)) → Db D → Prop
  | nil {db : Db D} : AppliesBatches db [] db
  | cons {db db₁ db' : Db D} {batch : SharedMessageBatch (SharedMessage D)}
      {batches : List (SharedMessageBatch (SharedMessage D))} {attempts : List TursoAttempt}
      {effects : SemanticEffects}
      (hbatch : applySharedMessageBatch batch attempts db = some (.ok effects, db₁))
      (hrest : AppliesBatches db₁ batches db') : AppliesBatches db (batch :: batches) db'

theorem AppliesBatches.recordsApplied {batches : List (SharedMessageBatch (SharedMessage D))}
    (h : AppliesBatches db batches db') : RecordsApplied db db' (recordsOf batches) := by
  induction h with
  | nil => exact .nil
  | cons hbatch hrest ih =>
    rw [recordsOf_cons]
    cases execution_of_execTxFrom hbatch with
    | committed hrun => exact (recordsApplied_of_runs hrun).append ih

/-- The same stable state, up to the timestamps of the tree and the equality of documents. -/
structure SameStable (db db' : Db D) : Prop where
  /-- The namespaces are equal. -/
  stableNamespace : db.stableNamespace = db'.stableNamespace
  /-- The same objects have text documents, and these have the same operations. -/
  stableTexts : ∀ id,
    (db.stableTextObjects.find? id).map (fun row => TextCrdt.ops row.docBlob) =
      (db'.stableTextObjects.find? id).map fun row => TextCrdt.ops row.docBlob
  /-- The rows of the stable tree are equal up to their timestamps. -/
  stableTree : ∀ p, (db.stableTree.table.find? p).map StableTreeRow.file =
    (db'.stableTree.table.find? p).map StableTreeRow.file
  /-- The same objects have rows. -/
  objectIds : db.objectIds = db'.objectIds
  /-- The cursors are equal. -/
  stableCursor : db.stableCursor = db'.stableCursor

theorem stableText_of_find? {id : ObjectId} {row : TextObjectRow D}
    (h : db.stableTextObjects.find? id = some row) : db.stableText id = row.docBlob := by
  rw [Db.stableText, Db.stableTextObjectDoc, h]
  rfl

/-- Two ways of applying the same records agree. -/
theorem RecordsApplied.sameStable {one split : Db D}
    {records : List (SharedMessageEnvelope (SharedMessage D))} (h : RecordsApplied db one records)
    (h' : RecordsApplied db split records) : SameStable one split := by
  have hops : one.stableOps = split.stableOps := h.stableOps.trans h'.stableOps.symm
  have hns : one.stableNamespace = split.stableNamespace := by
    ext op
    have hmem : SharedOp.ns op ∈ one.stableOps ↔ op ∈ one.stableNamespace := ns_mem_stableOps
    rw [← hmem, hops, ns_mem_stableOps]
  refine ⟨hns, fun id => ?_, fun p => ?_, ?_, h.cursor.trans h'.cursor.symm⟩
  · have hids : id ∈ one.stableTextIds ↔ id ∈ split.stableTextIds := by
      rw [h.textIds, h'.textIds]
    have htext : TextCrdt.ops (one.stableText id) = TextCrdt.ops (split.stableText id) := by
      ext op
      rw [← text_mem_stableOps, hops, text_mem_stableOps]
    have hmem : ∀ db : Db D, id ∈ db.stableTextIds ↔ db.stableTextObjects.find? id ≠ none := by
      intro db
      rw [Ne, Table.find?_eq_none_iff]
      simp [Db.stableTextIds]
    rw [hmem, hmem] at hids
    cases hone : one.stableTextObjects.find? id with
    | none =>
      cases hsplit : split.stableTextObjects.find? id with
      | none => rfl
      | some row => exact absurd hone (hids.mpr (by simp [hsplit]))
    | some row =>
      cases hsplit : split.stableTextObjects.find? id with
      | none => exact absurd hsplit (hids.mp (by simp [hone]))
      | some row' =>
        rw [stableText_of_find? hone, stableText_of_find? hsplit] at htext
        exact congrArg some htext
  · by_cases htouched : TouchesNamespace (foreignMessages db.writerId records)
    · have hsynced := h'.treeSynced htouched
      rw [← hns] at hsynced
      exact (h.treeSynced htouched).find?_eq hsynced p
    · rw [h.tree htouched, h'.tree htouched]
  · rw [h.objectIds, h'.objectIds, hns]

/-- Applying records as one batch or cut into any batches leaves the same stable state, and a batch
that fails leaves the database as it was. -/
theorem batches_may_be_cut (db : Db D) :
    (∀ (batch : SharedMessageBatch (SharedMessage D))
      (batches : List (SharedMessageBatch (SharedMessage D))) (one split : Db D),
      recordsOf batches = batch.messages → AppliesBatches db [batch] one →
      AppliesBatches db batches split → SameStable one split) ∧
    ∀ (batch : SharedMessageBatch (SharedMessage D)) (attempts : List TursoAttempt)
      (e : ExecTxError) (db' : Db D),
      applySharedMessageBatch batch attempts db = some (.error e, db') → db' = db := by
  constructor
  · intro batch batches one split hrecords hone hsplit
    have hall : recordsOf [batch] = batch.messages := by simp [recordsOf]
    have happlied := hone.recordsApplied
    rw [hall, ← hrecords] at happlied
    exact happlied.sameStable hsplit.recordsApplied
  · intro batch attempts e db' hfails
    cases execution_of_execTxFrom hfails with
    | rolledBack => rfl

end Batch

/-! ## Two records in one batch or in two -/

section Run

open Snapshots

/-- The database after a batch that is committed at once. -/
def committed (db : Db Doc) (batch : SharedMessageBatch (SharedMessage Doc)) : Option (Db Doc) :=
  match applySharedMessageBatch batch [.commits] db with
  | some (.ok _, db') => some db'
  | _ => none

theorem appliesBatches_of_committed {batches : List (SharedMessageBatch (SharedMessage Doc))}
    {db db' : Db Doc} (h : batches.foldlM committed db = some db') :
    AppliesBatches db batches db' := by
  induction batches generalizing db with
  | nil =>
    cases h
    exact .nil
  | cons batch batches ih =>
    rw [List.foldlM_cons, Option.bind_eq_bind, Option.bind_eq_some_iff] at h
    obtain ⟨db₁, hbatch, hrest⟩ := h
    unfold committed at hbatch
    split at hbatch
    · next effects db₂ hrun =>
      cases hbatch
      exact .cons hrun (ih hrest)
    · cases hbatch

/-- Another daemon claims a path for a new object. -/
def claimRecord : SharedMessageEnvelope (SharedMessage Doc) :=
  ⟨5, 0, ⟨[9], 1⟩, .namespaceUpdate (NamespaceDoc.mintedOps 77 0
    [.object [3] ⟨.text, [9]⟩, .claim [4] ⟨[3], rootFile 1⟩])⟩

/-- The other daemon writes the text of the object. -/
def textRecord : SharedMessageEnvelope (SharedMessage Doc) :=
  ⟨6, 1, ⟨[9], 2⟩, .textObjectUpdate [3] (TextDoc.textStateFromContent 77 [104, 105])⟩

/-- Both records in one batch. -/
def wholeBatch : SharedMessageBatch (SharedMessage Doc) :=
  ⟨0, [claimRecord, textRecord], List.cons_ne_nil _ _, rfl, rfl, trivial⟩

/-- Each record in a batch of its own. -/
def cutBatches : List (SharedMessageBatch (SharedMessage Doc)) :=
  [⟨0, [claimRecord], List.cons_ne_nil _ _, rfl, trivial⟩,
    ⟨1, [textRecord], List.cons_ne_nil _ _, rfl, trivial⟩]

theorem batches_may_be_cut_wholeBatch : ∃ one split : Db Doc,
    AppliesBatches (Db.initialized Doc [1] 0) [wholeBatch] one ∧
      AppliesBatches (Db.initialized Doc [1] 0) cutBatches split ∧
      one.stableTree.table.rows.length = 1 ∧ SameStable one split := by
  have hone : (([wholeBatch].foldlM committed (Db.initialized Doc [1] 0)).any fun db =>
      decide (db.stableTree.table.rows.length = 1)) = true := by decide +kernel
  have hsplit : (cutBatches.foldlM committed (Db.initialized Doc [1] 0)).isSome = true := by
    decide +kernel
  rw [Option.any_eq_true] at hone
  obtain ⟨one, hone, hrows⟩ := hone
  obtain ⟨split, hsplit⟩ := Option.isSome_iff_exists.mp hsplit
  have happlied := appliesBatches_of_committed hone
  have happlied' := appliesBatches_of_committed hsplit
  exact ⟨one, split, happlied, happlied', of_decide_eq_true hrows,
    (batches_may_be_cut (Db.initialized Doc [1] 0)).1 wholeBatch cutBatches one split rfl happlied
      happlied'⟩

end Run

end Opbox
