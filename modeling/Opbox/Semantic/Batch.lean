import Opbox.Semantic.Projection

/-!
# Batches of the shared log

`apply_shared_message_batch_tx`: a batch is applied at the stable cursor only.  The records the
daemon appended itself are skipped, since their operations joined the stable documents when they
were made; all others are merged into the stable documents.
-/

namespace Opbox

variable {D : Type} [TextCrdt D]

/-- What a batch has collected: the documents it changes, how many records were applied, and the
greatest of their timestamps. -/
structure BatchDocs (D : Type) where
  /-- The namespace, if it has changed. -/
  namespaceDoc : Option NamespaceDoc
  /-- The text documents that have changed. -/
  textDocs : Table (TextObjectRow.objectId (D := D))
  /-- The number of records applied. -/
  appliedMessageCount : Nat
  /-- The greatest timestamp of an applied record. -/
  maxAppliedTimestamp : Nat

/-- Nothing collected. -/
def BatchDocs.empty : BatchDocs D := ⟨none, Table.empty, 0, 0⟩

/-- The document of an object in the middle of a batch. -/
def BatchDocs.text (docs : BatchDocs D) (db : Db D) (id : ObjectId) : D :=
  ((docs.textDocs.find? id).map TextObjectRow.docBlob).getD (db.stableText id)

/-- The namespace in the middle of a batch. -/
def BatchDocs.namespace (docs : BatchDocs D) (db : Db D) : NamespaceDoc :=
  docs.namespaceDoc.getD db.stableNamespace

/-- Apply one record. -/
def applyMessage (db : Db D) (docs : BatchDocs D) (message : SharedMessage D) (timestamp : Nat) :
    Except SemanticTransactionError (BatchDocs D) :=
  let count := docs.appliedMessageCount + 1
  let newest := max docs.maxAppliedTimestamp timestamp
  match message with
  | .namespaceUpdate update =>
    .ok ⟨some ((docs.namespace db).applyUpdate update), docs.textDocs, count, newest⟩
  | .textObjectUpdate id update =>
    .ok ⟨docs.namespaceDoc,
      docs.textDocs.put ⟨id, TextDoc.applyTextUpdate (docs.text db id) update⟩, count, newest⟩
  | .binaryObjectPut _ _ _ _ =>
    .error (.invariantViolation "binary shared messages are not supported in v0")

/-- Apply one record unless it is an echo. -/
def applyEnvelope (db : Db D) (docs : BatchDocs D)
    (envelope : SharedMessageEnvelope (SharedMessage D)) :
    Except SemanticTransactionError (BatchDocs D) :=
  if envelope.origin.daemonWriterId = db.writerId then .ok docs
  else applyMessage db docs envelope.sharedMessage envelope.timestamp

/-- Apply the records of a batch in order. -/
def collectBatch (db : Db D) (envelopes : List (SharedMessageEnvelope (SharedMessage D))) :
    Except SemanticTransactionError (BatchDocs D) :=
  envelopes.foldlM (applyEnvelope db) BatchDocs.empty

/-- Store the namespace of a batch. -/
def writeBatchNamespace (docs : BatchDocs D) : Tx D PUnit :=
  match docs.namespaceDoc with
  | some doc => writeStableNamespaceProjectionTx doc (docs.maxAppliedTimestamp : Int)
  | none => pure ⟨⟩

/-- `apply_shared_message_batch_tx`. -/
def applySharedMessageBatchTx (batch : SharedMessageBatch (SharedMessage D)) :
    Tx D SemanticEffects := do
  let db ← get
  if db.stableCursor ≠ batch.first then
    let last := batch.next - 1
    throw (.invariantViolation
      s!"unexpected batch; stable_cursor=..{db.stableCursor}, batch.sequence_range={batch.first}..={last}")
  else do
    let docs ← collectBatch db batch.messages
    writeBatchNamespace docs
    forM docs.textDocs.rows fun row => upsertStableTextObject row.objectId row.docBlob
    updateStableCursor batch.first batch.next
    if 2 ^ 64 ≤ batch.next then throw (.invariantViolation "stable cursor overflow")
    else pure ⟨if 0 < docs.appliedMessageCount then some batch.next else none, none⟩

/-! ## The operations of messages and documents -/

/-- An operation on the shared state: on the namespace or on the text of an object. -/
inductive SharedOp (D : Type) [TextCrdt D] where
  | ns (op : NsOp)
  | text (id : ObjectId) (op : TextCrdt.Op D)

/-- The document an operation is made on: the namespace, or the text of an object. -/
def SharedOp.document : SharedOp D → Option ObjectId
  | .ns _ => none
  | .text id _ => some id

/-- The operations a message carries. -/
def SharedMessage.sharedOps : SharedMessage D → Set (SharedOp D)
  | .namespaceUpdate update => { x | ∃ op ∈ update, x = .ns op }
  | .textObjectUpdate id update => { x | ∃ op ∈ TextCrdt.ops update, x = .text id op }
  | .binaryObjectPut _ _ _ _ => ∅

/-- The operations several messages carry. -/
def messageOps (messages : List (SharedMessage D)) : Set (SharedOp D) :=
  { x | ∃ m ∈ messages, x ∈ m.sharedOps }

/-- The operations of the stable documents. -/
def Db.stableOps (db : Db D) : Set (SharedOp D)
  | .ns op => op ∈ db.stableNamespace
  | .text id op => op ∈ TextCrdt.ops (db.stableText id)

@[simp] theorem ns_mem_stableOps {db : Db D} {op : NsOp} :
    SharedOp.ns op ∈ db.stableOps ↔ op ∈ db.stableNamespace := Iff.rfl

@[simp] theorem text_mem_stableOps {db : Db D} {id : ObjectId} {op : TextCrdt.Op D} :
    SharedOp.text id op ∈ db.stableOps ↔ op ∈ TextCrdt.ops (db.stableText id) := Iff.rfl

@[simp] theorem messageOps_nil : messageOps ([] : List (SharedMessage D)) = ∅ := by
  ext x
  simp [messageOps]

theorem messageOps_append (messages messages' : List (SharedMessage D)) :
    messageOps (messages ++ messages') = messageOps messages ∪ messageOps messages' := by
  ext x
  simp only [messageOps, List.mem_append, Set.mem_ofPred_eq, Set.mem_union]
  constructor
  · rintro ⟨m, hm | hm, hx⟩
    · exact .inl ⟨m, hm, hx⟩
    · exact .inr ⟨m, hm, hx⟩
  · rintro (⟨m, hm, hx⟩ | ⟨m, hm, hx⟩)
    · exact ⟨m, .inl hm, hx⟩
    · exact ⟨m, .inr hm, hx⟩

theorem messageOps_singleton (m : SharedMessage D) : messageOps [m] = m.sharedOps := by
  ext x
  simp [messageOps]

@[simp] theorem ns_mem_sharedOps_namespaceUpdate {update : NamespaceDoc} {op : NsOp} :
    SharedOp.ns op ∈ (SharedMessage.namespaceUpdate update : SharedMessage D).sharedOps ↔
      op ∈ update := by
  simp [SharedMessage.sharedOps]

@[simp] theorem text_notMem_sharedOps_namespaceUpdate {update : NamespaceDoc} {id : ObjectId}
    {op : TextCrdt.Op D} :
    SharedOp.text id op ∉ (SharedMessage.namespaceUpdate update : SharedMessage D).sharedOps := by
  simp [SharedMessage.sharedOps]

@[simp] theorem ns_notMem_sharedOps_textObjectUpdate {id : ObjectId} {update : D} {op : NsOp} :
    SharedOp.ns op ∉ (SharedMessage.textObjectUpdate id update).sharedOps := by
  simp [SharedMessage.sharedOps]

@[simp] theorem text_mem_sharedOps_textObjectUpdate {id id' : ObjectId} {update : D}
    {op : TextCrdt.Op D} :
    SharedOp.text id' op ∈ (SharedMessage.textObjectUpdate id update).sharedOps ↔
      id' = id ∧ op ∈ TextCrdt.ops update := by
  simp [SharedMessage.sharedOps, and_comm]

/-! ## What a batch does -/

section Spec

variable {db db' : Db D}

/-- The messages of a batch that other daemons appended. -/
def foreignMessages (writer : DaemonWriterId)
    (envelopes : List (SharedMessageEnvelope (SharedMessage D))) : List (SharedMessage D) :=
  (envelopes.filter fun e => e.origin.daemonWriterId ≠ writer).map
    SharedMessageEnvelope.sharedMessage

/-- The operations of the documents in the middle of a batch. -/
def BatchDocs.stableOps (docs : BatchDocs D) (db : Db D) : Set (SharedOp D)
  | .ns op => op ∈ docs.namespace db
  | .text id op => op ∈ TextCrdt.ops (docs.text db id)

theorem applyMessage_stableOps {docs docs' : BatchDocs D} {message : SharedMessage D}
    {timestamp : Nat} (h : applyMessage db docs message timestamp = .ok docs') :
    docs'.stableOps db = docs.stableOps db ∪ message.sharedOps := by
  unfold applyMessage at h
  cases message with
  | namespaceUpdate update =>
    cases h
    ext x
    cases x with
    | ns op =>
      show op ∈ (docs.namespace db).applyUpdate update ↔ _
      rw [NamespaceDoc.applyUpdate, Finset.mem_union, Set.mem_union,
        ns_mem_sharedOps_namespaceUpdate]
      rfl
    | text id op =>
      show op ∈ TextCrdt.ops (docs.text db id) ↔ _
      rw [Set.mem_union]
      exact ⟨.inl, fun h => h.resolve_right text_notMem_sharedOps_namespaceUpdate⟩
  | textObjectUpdate id update =>
    cases h
    ext x
    cases x with
    | ns op =>
      show op ∈ docs.namespace db ↔ _
      rw [Set.mem_union]
      exact ⟨.inl, fun h => h.resolve_right ns_notMem_sharedOps_textObjectUpdate⟩
    | text id' op =>
      show op ∈ TextCrdt.ops ((((docs.textDocs.put _).find? id').map _).getD _) ↔ _
      rw [Table.find?_put, Set.mem_union, text_mem_sharedOps_textObjectUpdate]
      by_cases hid : id = id'
      · subst hid
        rw [if_pos rfl]
        show op ∈ TextCrdt.ops (TextDoc.applyTextUpdate (docs.text db id) update) ↔ _
        rw [TextDoc.ops_applyTextUpdate, Set.mem_union]
        simp only [true_and]
        rfl
      · rw [if_neg hid]
        simp only [Ne.symm hid, false_and, or_false]
        rfl
  | binaryObjectPut => cases h

/-- A batch joins the operations of the records of other daemons to the stable documents. -/
theorem stableOps_foldlM_applyEnvelope
    {envelopes : List (SharedMessageEnvelope (SharedMessage D))} {docs docs' : BatchDocs D}
    (h : envelopes.foldlM (applyEnvelope db) docs = .ok docs') :
    docs'.stableOps db =
      docs.stableOps db ∪ messageOps (foreignMessages db.writerId envelopes) := by
  induction envelopes generalizing docs with
  | nil =>
    cases h
    simp [foreignMessages]
  | cons e envelopes ih =>
    rw [List.foldlM_cons] at h
    cases he : applyEnvelope db docs e with
    | error err => rw [he] at h; cases h
    | ok docs₁ =>
      rw [he] at h
      rw [ih h]
      unfold applyEnvelope at he
      by_cases hown : e.origin.daemonWriterId = db.writerId
      · rw [if_pos hown] at he
        cases he
        simp [foreignMessages, hown]
      · rw [if_neg hown] at he
        have hforeign : foreignMessages db.writerId (e :: envelopes) =
            [e.sharedMessage] ++ foreignMessages db.writerId envelopes := by
          simp [foreignMessages, hown]
        rw [applyMessage_stableOps he, hforeign, messageOps_append, messageOps_singleton,
          Set.union_assoc]

omit [TextCrdt D] in
/-- What storing the text documents of a batch does. -/
theorem runs_upsertStableTexts {rows : List (TextObjectRow D)} {u : PUnit}
    (h : Runs (forM rows fun row => upsertStableTextObject row.objectId row.docBlob) db u db') :
    db' = { db with stableTextObjects := db.stableTextObjects.putAll rows } := by
  refine Runs.forM_invariant (fun done t =>
    t = { db with stableTextObjects := db.stableTextObjects.putAll done }) h rfl ?_
  intro done row rest t t' _ ht hrun
  rw [upsertStableTextObject, Runs.modify_iff] at hrun
  rw [hrun, ht, Table.putAll_append]
  rfl

/-- What applying a batch leaves: the documents it collected replace the stable ones, and the
cursor moves past it. -/
structure BatchApplied (db db' : Db D) (batch : SharedMessageBatch (SharedMessage D))
    (docs : BatchDocs D) : Prop where
  /-- The batch starts at the cursor. -/
  cursor : db.stableCursor = batch.first
  /-- What the batch collected. -/
  collected : collectBatch db batch.messages = .ok docs
  /-- What changes, and what does not. -/
  eq : db' = { db with
    stableNamespace := docs.namespace db
    objects := db'.objects
    stableTree := db'.stableTree
    stableTextObjects := db.stableTextObjects.putAll docs.textDocs.rows
    stableCursor := batch.next }
  /-- Without a namespace record the stable tree stays. -/
  stableTree_none : docs.namespaceDoc = none → db'.stableTree = db.stableTree
  /-- With one it is the materialization of the new namespace. -/
  stableTree_written : docs.namespaceDoc ≠ none →
    StableTreeWritten db.stableTree db'.stableTree (docs.namespace db) (docs.maxAppliedTimestamp : Int)
  /-- The stable tree still names objects with rows only. -/
  objectsKnown : db.ObjectsKnown → db'.ObjectsKnown

theorem runs_applySharedMessageBatchTx {batch : SharedMessageBatch (SharedMessage D)}
    {effects : SemanticEffects} (h : Runs (applySharedMessageBatchTx batch) db effects db') :
    ∃ docs, BatchApplied db db' batch docs ∧ effects.outboxReady = none ∧
      effects.projectionChanged =
        if 0 < docs.appliedMessageCount then some batch.next else none := by
  simp only [applySharedMessageBatchTx, Runs.bind_iff, Runs.get_iff, Runs.ite_iff, Runs.throw_iff,
    and_false, false_or, not_not, Runs.liftExcept_iff, Runs.pure_iff] at h
  obtain ⟨db, _, ⟨rfl, rfl⟩, hcursor, docs, _, ⟨hdocs, rfl⟩, ⟨⟩, db₁, hns, ⟨⟩, db₂, htexts, ⟨⟩, db₃,
    hupdate, -, rfl, rfl⟩ := h
  obtain ⟨-, rfl⟩ := runs_updateStableCursor hupdate
  have h₂ := runs_upsertStableTexts htexts
  refine ⟨docs, ?_, rfl, rfl⟩
  unfold writeBatchNamespace at hns
  cases hdoc : docs.namespaceDoc with
  | none =>
    rw [hdoc, Runs.pure_iff] at hns
    obtain ⟨-, rfl⟩ := hns
    have hsame : docs.namespace db = db.stableNamespace := by
      simp [BatchDocs.namespace, hdoc]
    refine ⟨hcursor, hdocs, ?_, fun _ => by rw [h₂], fun hne => absurd hdoc hne, fun hdb => ?_⟩
    · rw [h₂, hsame]
    · rw [h₂]
      exact hdb
  | some doc =>
    rw [hdoc] at hns
    obtain ⟨h₁, hwritten, hknown⟩ := runs_writeStableNamespaceProjectionTx hns
    have hsame : docs.namespace db = doc := by simp [BatchDocs.namespace, hdoc]
    refine ⟨hcursor, hdocs, ?_, fun hnone => by simp [hdoc] at hnone, fun _ => ?_, fun _ => ?_⟩
    · rw [h₂, h₁, hsame]
    · rw [h₂, hsame]
      exact hwritten
    · rw [h₂]
      exact hknown

theorem BatchApplied.treeSynced {batch : SharedMessageBatch (SharedMessage D)} {docs : BatchDocs D}
    (h : BatchApplied db db' batch docs) (hdb : TreeSynced db.stableTree db.stableNamespace) :
    TreeSynced db'.stableTree db'.stableNamespace := by
  have hns : db'.stableNamespace = docs.namespace db := by rw [h.eq]
  rw [hns]
  by_cases hdoc : docs.namespaceDoc = none
  · rw [h.stableTree_none hdoc]
    simpa [BatchDocs.namespace, hdoc] using hdb
  · exact (h.stableTree_written hdoc).treeSynced

/-- A stable document after a batch is the collected one. -/
theorem BatchApplied.stableText {batch : SharedMessageBatch (SharedMessage D)} {docs : BatchDocs D}
    (h : BatchApplied db db' batch docs) (id : ObjectId) :
    db'.stableText id = docs.text db id := by
  have htexts : db'.stableTextObjects = db.stableTextObjects.putAll docs.textDocs.rows := by
    rw [h.eq]
  rw [Db.stableText, Db.stableTextObjectDoc, htexts, BatchDocs.text]
  cases hfind : docs.textDocs.find? id with
  | none =>
    have hnot : id ∉ docs.textDocs.rows.map TextObjectRow.objectId := by
      simpa [Table.mem_rows] using Table.find?_eq_none_iff.mp hfind
    rw [Table.find?_putAll_of_notMem hnot]
    rfl
  | some row =>
    obtain ⟨hrow, rfl⟩ := Table.find?_eq_some_iff.mp hfind
    rw [Table.find?_putAll_of_mem docs.textDocs.keys_nodup hrow]
    rfl

/-- A batch joins the operations of the records of other daemons to the stable documents. -/
theorem BatchApplied.stableOps {batch : SharedMessageBatch (SharedMessage D)} {docs : BatchDocs D}
    (h : BatchApplied db db' batch docs) :
    db'.stableOps = db.stableOps ∪ messageOps (foreignMessages db.writerId batch.messages) := by
  have hcollected := stableOps_foldlM_applyEnvelope h.collected
  have hdocs : db'.stableOps = docs.stableOps db := by
    ext x
    cases x with
    | ns op =>
      rw [ns_mem_stableOps, h.eq]
      rfl
    | text id op =>
      rw [text_mem_stableOps, h.stableText]
      rfl
  have hempty : (BatchDocs.empty : BatchDocs D).stableOps db = db.stableOps := by
    ext x
    cases x <;> rfl
  rw [hdocs, hcollected, hempty]

end Spec

end Opbox
