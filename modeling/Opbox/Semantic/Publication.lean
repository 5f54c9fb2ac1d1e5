import Opbox.Semantic.Actor

/-!
# Local mutations are published

Every request but a batch and a trim joins to the stable documents exactly the operations of the
messages it adds to the outbox, in the same transaction, and keeps the stable tree in line with the
stable namespace.
-/

namespace Opbox

variable {D : Type}

/-- The messages in the outbox. -/
def Outbox.messages {M : Type} (o : Outbox M) : Set M := { m | ∃ row ∈ o.rows, row.sharedMessage = m }

theorem Outbox.mem_messages {M : Type} {o : Outbox M} {m : M} :
    m ∈ o.messages ↔ ∃ row ∈ o.rows, row.sharedMessage = m := Iff.rfl

/-- A local mutation adds its messages. -/
theorem Outbox.messages_pushOutboxMessages {M : Type} {o o' : Outbox M} {messages : List M}
    (h : o.pushOutboxMessages messages = .ok o') :
    o'.messages = o.messages ∪ { m | m ∈ messages } := by
  ext m
  rw [Set.mem_union, mem_messages, mem_messages]
  constructor
  · rintro ⟨row, hrow, rfl⟩
    rcases ((pushOutboxMessages_spec h).2 row).mp hrow with hrow | ⟨i, hi, rfl⟩
    · exact .inl ⟨row, hrow, rfl⟩
    · exact .inr (List.getElem_mem hi)
  · rintro (⟨row, hrow, rfl⟩ | hm)
    · exact ⟨row, ((pushOutboxMessages_spec h).2 row).mpr (.inl hrow), rfl⟩
    · obtain ⟨i, hi, rfl⟩ := List.mem_iff_getElem.mp hm
      exact ⟨⟨o.nextOutboxId + i, messages[i], false⟩,
        ((pushOutboxMessages_spec h).2 _).mpr (.inr ⟨i, hi, rfl⟩), rfl⟩

theorem Outbox.mem_messages_iff_store {M : Type} {o : Outbox M} {m : M} :
    m ∈ o.messages ↔ ∃ e ∈ o.store, e.2 = m := by
  constructor
  · rintro ⟨row, hrow, rfl⟩
    exact ⟨row.entry, entry_mem_store hrow, rfl⟩
  · rintro ⟨e, ⟨row, hrow, rfl⟩, rfl⟩
    exact ⟨row, hrow, rfl⟩

/-- The messages are those of the records. -/
theorem Outbox.messages_eq_of_store {M : Type} {o o' : Outbox M} (h : o'.store = o.store) :
    o'.messages = o.messages := by
  ext m
  rw [mem_messages_iff_store, mem_messages_iff_store, h]

/-- The outbox keeps its records and gains messages under new ids. -/
structure Outbox.Grown {M : Type} (o o' : Outbox M) (minted : List M) : Prop where
  /-- The new records. -/
  store : ∀ e ∈ o'.store, e ∈ o.store ∨ (e.2 ∈ minted ∧ o.nextOutboxId ≤ e.1)
  /-- No record goes. -/
  store_mono : o.store ⊆ o'.store
  /-- All ids have been allocated. -/
  allocated : o.Allocated → o'.Allocated

theorem Outbox.grown_of_store_eq {M : Type} {o o' : Outbox M} (hstore : o'.store = o.store)
    (hnext : o'.nextOutboxId = o.nextOutboxId) : Grown o o' [] where
  store e he := .inl (hstore ▸ he)
  store_mono := hstore.ge
  allocated h e he := by
    rw [hnext]
    exact h e (hstore ▸ he)

theorem Outbox.grown_of_pushOutboxMessages {M : Type} {o o' : Outbox M} {messages : List M}
    (h : o.pushOutboxMessages messages = .ok o') : Grown o o' messages where
  store e he := by
    obtain ⟨row, hrow, rfl⟩ := he
    rcases ((pushOutboxMessages_spec h).2 row).mp hrow with hrow | ⟨i, hi, rfl⟩
    · exact .inl (entry_mem_store hrow)
    · exact .inr ⟨List.getElem_mem hi, Nat.le_add_right _ _⟩
  store_mono := by
    rintro e ⟨row, hrow, rfl⟩
    exact entry_mem_store (((pushOutboxMessages_spec h).2 row).mpr (.inl hrow))
  allocated := allocated_pushOutboxMessages h

variable [TextCrdt D]

open TextCrdt

/-- A step from one database to another that joins the operations of `minted` to the stable
documents and adds `minted` to the outbox. -/
structure Published (db db' : Db D) (minted : List (SharedMessage D)) : Prop where
  /-- The stable documents gain the operations of the messages. -/
  stableOps : db'.stableOps = db.stableOps ∪ messageOps minted
  /-- The outbox gains the messages. -/
  outbox : db'.outbox.messages = db.outbox.messages ∪ { m | m ∈ minted }
  /-- The cursor stays. -/
  stableCursor : db'.stableCursor = db.stableCursor
  /-- The writer stays. -/
  writerId : db'.writerId = db.writerId
  /-- The stable tree stays in line. -/
  treeSynced : TreeSynced db.stableTree db.stableNamespace →
    TreeSynced db'.stableTree db'.stableNamespace
  /-- The stable tree still names objects with rows only. -/
  objectsKnown : db.ObjectsKnown → db'.ObjectsKnown
  /-- The messages come behind those that were there. -/
  grown : Outbox.Grown db.outbox db'.outbox minted
  /-- There is one message for each document. -/
  separate : ∀ m ∈ minted, ∀ m' ∈ minted, ∀ x ∈ m.sharedOps, ∀ y ∈ m'.sharedOps,
    x.document = y.document → m = m'

section Spec

variable {db db' : Db D}

/-- A step that leaves the stable state and the messages as they are publishes nothing. -/
theorem published_nil (hns : db'.stableNamespace = db.stableNamespace)
    (htexts : db'.stableTextObjects = db.stableTextObjects) (htree : db'.stableTree = db.stableTree)
    (hstore : db'.outbox.store = db.outbox.store)
    (hnext : db'.outbox.nextOutboxId = db.outbox.nextOutboxId)
    (hcursor : db'.stableCursor = db.stableCursor) (hwriter : db'.writerId = db.writerId)
    (hobjects : db'.objects = db.objects) : Published db db' [] where
  stableOps := by
    rw [messageOps_nil, Set.union_empty]
    ext x
    cases x with
    | ns op => rw [ns_mem_stableOps, ns_mem_stableOps, hns]
    | text id op =>
      rw [text_mem_stableOps, text_mem_stableOps, Db.stableText, Db.stableTextObjectDoc, htexts]
      rfl
  outbox := by
    rw [Outbox.messages_eq_of_store hstore]
    ext m
    simp
  stableCursor := hcursor
  writerId := hwriter
  treeSynced := by
    rw [hns, htree]
    exact id
  objectsKnown hdb := by
    unfold Db.ObjectsKnown
    rw [htree, hobjects]
    exact hdb
  grown := Outbox.grown_of_store_eq hstore hnext
  separate := by simp

theorem LocallyDeleted.published {rows : List PriorTreeRow} {now : Timestamp}
    (h : LocallyDeleted db db' rows now) : Published db db' (db.removalMessages rows) where
  stableOps := by
    ext x
    rw [Set.mem_union]
    cases x with
    | ns op =>
      have hns : db'.stableNamespace = db.stableNamespace ∪ db.removalOps rows := by rw [h.eq]
      rw [ns_mem_stableOps, ns_mem_stableOps, hns, Finset.mem_union, Db.removalMessages]
      by_cases hrows : rows = []
      · simp [hrows]
      · simp [hrows, messageOps_singleton]
    | text id op =>
      have htext : db'.stableText id = db.stableText id := by
        rw [h.eq]
        rfl
      rw [text_mem_stableOps, text_mem_stableOps, htext, Db.removalMessages]
      by_cases hrows : rows = []
      · simp [hrows]
      · simp [hrows, messageOps_singleton]
  outbox := Outbox.messages_pushOutboxMessages h.outbox
  stableCursor := by rw [h.eq]
  writerId := by rw [h.eq]
  treeSynced := h.treeSynced
  objectsKnown := h.objectsKnown
  grown := Outbox.grown_of_pushOutboxMessages h.outbox
  separate := by
    intro m hm m' hm' _ _ _ _ _
    unfold Db.removalMessages at hm hm'
    split_ifs at hm hm'
    · cases hm
    · rw [List.mem_singleton.mp hm, List.mem_singleton.mp hm']

/-- A stable document after the staged rows has the operations of their updates besides its own. -/
theorem mem_ops_mergeStaged {staged : List (StagedRow D)}
    {texts : Table (TextObjectRow.objectId (D := D))} {id : ObjectId} {op : Op D} :
    op ∈ ops ((((mergeStaged texts staged).find? id).map TextObjectRow.docBlob).getD
        TextDoc.emptyTextState) ↔
      op ∈ ops (((texts.find? id).map TextObjectRow.docBlob).getD TextDoc.emptyTextState) ∨
        ∃ row ∈ staged, ∃ update, row.textUpdate = some update ∧ row.objectId = id ∧
          op ∈ ops update := by
  induction staged generalizing texts with
  | nil => simp [mergeStaged]
  | cons row staged ih =>
    have hstep : mergeStaged texts (row :: staged) = mergeStaged (texts.put ⟨row.objectId,
        stagedStableDoc ((texts.find? row.objectId).map TextObjectRow.docBlob) row⟩) staged := rfl
    rw [hstep, ih, Table.find?_put]
    have hrow : op ∈ ops ((((if row.objectId = id then
          some (⟨row.objectId, stagedStableDoc
            ((texts.find? row.objectId).map TextObjectRow.docBlob) row⟩ : TextObjectRow D)
        else texts.find? id).map TextObjectRow.docBlob).getD TextDoc.emptyTextState)) ↔
        op ∈ ops (((texts.find? id).map TextObjectRow.docBlob).getD TextDoc.emptyTextState) ∨
          ∃ update, row.textUpdate = some update ∧ row.objectId = id ∧ op ∈ ops update := by
      by_cases hid : row.objectId = id
      · subst hid
        simp only [if_pos, Option.map_some, Option.getD_some, true_and]
        unfold stagedStableDoc
        cases row.textUpdate with
        | none => simp
        | some update =>
          simp only [TextDoc.ops_applyTextUpdate, Set.mem_union, Option.some.injEq,
            exists_eq_left']
      · simp [hid]
    show op ∈ ops ((((if row.objectId = id then _ else _ : Option (TextObjectRow D)).map _).getD _)) ∨
      _ ↔ _
    rw [hrow]
    simp only [List.mem_cons, exists_eq_or_imp, or_assoc]

theorem mem_messageOps_textMessages {staged : List (StagedRow D)} {id : ObjectId} {op : Op D} :
    SharedOp.text id op ∈ messageOps (textMessages staged) ↔
      ∃ row ∈ staged, ∃ update, row.textUpdate = some update ∧ row.objectId = id ∧
        op ∈ ops update := by
  constructor
  · rintro ⟨m, hm, hop⟩
    obtain ⟨row, hrow, hmap⟩ := List.mem_filterMap.mp hm
    obtain ⟨update, hupdate, rfl⟩ := Option.map_eq_some_iff.mp hmap
    rw [text_mem_sharedOps_textObjectUpdate] at hop
    exact ⟨row, hrow, update, hupdate, hop.1.symm, hop.2⟩
  · rintro ⟨row, hrow, update, hupdate, rfl, hop⟩
    refine ⟨.textObjectUpdate row.objectId update,
      List.mem_filterMap.mpr ⟨row, hrow, by rw [hupdate]; rfl⟩, ?_⟩
    rw [text_mem_sharedOps_textObjectUpdate]
    exact ⟨rfl, hop⟩

theorem ns_notMem_messageOps_textMessages {staged : List (StagedRow D)} {op : NsOp} :
    SharedOp.ns op ∉ messageOps (textMessages staged) := by
  rintro ⟨m, hm, hop⟩
  obtain ⟨row, -, hupdate⟩ := List.mem_filterMap.mp hm
  obtain ⟨update, -, rfl⟩ := Option.map_eq_some_iff.mp hupdate
  exact ns_notMem_sharedOps_textObjectUpdate hop

theorem ns_mem_messageOps_importNamespaceMessages {staged : List (StagedRow D)} {op : NsOp} :
    SharedOp.ns op ∈ messageOps (db.importNamespaceMessages staged) ↔ op ∈ db.importOps staged := by
  rw [Db.importNamespaceMessages]
  by_cases hentries : importEntries db.writerId staged = []
  · simp [hentries, Db.importOps, NamespaceDoc.mintedOps]
  · simp [hentries, messageOps_singleton]

theorem text_notMem_messageOps_importNamespaceMessages {staged : List (StagedRow D)} {id : ObjectId}
    {op : Op D} : SharedOp.text id op ∉ messageOps (db.importNamespaceMessages staged) := by
  rw [Db.importNamespaceMessages]
  by_cases hentries : importEntries db.writerId staged = []
  · simp [hentries]
  · simp [hentries, messageOps_singleton]

/-- Text messages of different objects. -/
theorem separate_textMessages {staged : List (StagedRow D)}
    (hobjects : (staged.map StagedRow.objectId).Nodup) {m m' : SharedMessage D}
    (hm : m ∈ textMessages staged) (hm' : m' ∈ textMessages staged) {x y : SharedOp D}
    (hx : x ∈ m.sharedOps) (hy : y ∈ m'.sharedOps) (hdoc : x.document = y.document) : m = m' := by
  obtain ⟨row, hrow, hmap⟩ := List.mem_filterMap.mp hm
  obtain ⟨update, hupdate, rfl⟩ := Option.map_eq_some_iff.mp hmap
  obtain ⟨row', hrow', hmap'⟩ := List.mem_filterMap.mp hm'
  obtain ⟨update', hupdate', rfl⟩ := Option.map_eq_some_iff.mp hmap'
  obtain ⟨op, -, rfl⟩ := hx
  obtain ⟨op', -, rfl⟩ := hy
  have hid : row.objectId = row'.objectId := Option.some.inj hdoc
  have hrows := List.inj_on_of_nodup_map hobjects hrow hrow' hid
  subst hrows
  rw [hupdate, Option.some.injEq] at hupdate'
  rw [hupdate']

/-- A namespace operation and a text operation are not on one document. -/
theorem document_ne {update : NamespaceDoc} {m : SharedMessage D}
    (hm : ∀ op, SharedOp.ns op ∉ m.sharedOps) {x y : SharedOp D}
    (hx : x ∈ (SharedMessage.namespaceUpdate update : SharedMessage D).sharedOps)
    (hy : y ∈ m.sharedOps) : x.document ≠ y.document := by
  obtain ⟨op, -, rfl⟩ := hx
  cases y with
  | ns op' => exact absurd hy (hm op')
  | text id op' => exact nofun

/-- A namespace message and text messages of different objects. -/
theorem separate_cons {update : NamespaceDoc} {texts : List (SharedMessage D)}
    (hns : ∀ m ∈ texts, ∀ op, SharedOp.ns op ∉ m.sharedOps)
    (htexts : ∀ m ∈ texts, ∀ m' ∈ texts, ∀ x ∈ m.sharedOps, ∀ y ∈ m'.sharedOps,
      x.document = y.document → m = m') :
    ∀ m ∈ SharedMessage.namespaceUpdate update :: texts,
      ∀ m' ∈ SharedMessage.namespaceUpdate update :: texts,
      ∀ x ∈ m.sharedOps, ∀ y ∈ m'.sharedOps, x.document = y.document → m = m' := by
  intro m hm m' hm' x hx y hy hdoc
  rcases List.mem_cons.mp hm with rfl | hm <;> rcases List.mem_cons.mp hm' with rfl | hm'
  · rfl
  · exact absurd hdoc (document_ne (hns m' hm') hx hy)
  · exact absurd hdoc.symm (document_ne (hns m hm) hy hx)
  · exact htexts m hm m' hm' x hx y hy hdoc

theorem SyncImported.published {epoch : Nat} {staged : List (StagedRow D)} {now : Timestamp}
    (h : SyncImported db db' epoch staged now)
    (hobjects : (staged.map StagedRow.objectId).Nodup) :
    Published db db' (db.importNamespaceMessages staged ++ textMessages staged) where
  stableOps := by
    rw [messageOps_append]
    ext x
    rw [Set.mem_union, Set.mem_union]
    cases x with
    | ns op =>
      have hns : db'.stableNamespace = db.stableNamespace ∪ db.importOps staged := by rw [h.eq]
      rw [ns_mem_stableOps, ns_mem_stableOps, hns, Finset.mem_union,
        ns_mem_messageOps_importNamespaceMessages]
      simp [ns_notMem_messageOps_textMessages]
    | text id op =>
      have htexts : db'.stableTextObjects = mergeStaged db.stableTextObjects staged := by rw [h.eq]
      rw [text_mem_stableOps, text_mem_stableOps, mem_messageOps_textMessages, Db.stableText,
        Db.stableTextObjectDoc, htexts, mem_ops_mergeStaged]
      simp only [text_notMem_messageOps_importNamespaceMessages, false_or]
      rfl
  outbox := Outbox.messages_pushOutboxMessages h.outbox
  stableCursor := by rw [h.eq]
  writerId := by rw [h.eq]
  treeSynced := h.treeSynced
  objectsKnown := h.objectsKnown
  grown := Outbox.grown_of_pushOutboxMessages h.outbox
  separate := by
    have htexts : ∀ m ∈ textMessages staged, ∀ m' ∈ textMessages staged, ∀ x ∈ m.sharedOps,
        ∀ y ∈ m'.sharedOps, x.document = y.document → m = m' :=
      fun m hm m' hm' x hx y hy => separate_textMessages hobjects hm hm' hx hy
    unfold Db.importNamespaceMessages
    split_ifs
    · exact htexts
    · exact separate_cons (fun m hm op hop => ns_notMem_messageOps_textMessages ⟨m, hm, hop⟩) htexts

/-- A new file is staged with its whole document as update. -/
def NewRowsComplete (db : Db D) : Prop :=
  ∀ row ∈ db.importStagedFiles.rows, row.stageKind = .new → row.textUpdate = some row.priorDocBlob

theorem mem_messageOps_initTextMessages {staged : List (StagedRow D)}
    (hcomplete : ∀ row ∈ staged, row.textUpdate = some row.priorDocBlob) {id : ObjectId}
    {op : Op D} : SharedOp.text id op ∈ messageOps (staged.map initTextMessage) ↔
      ∃ row ∈ staged, row.objectId = id ∧ op ∈ ops row.priorDocBlob := by
  constructor
  · rintro ⟨m, hm, hop⟩
    obtain ⟨row, hrow, rfl⟩ := List.mem_map.mp hm
    rw [initTextMessage, hcomplete row hrow, Option.getD_some,
      text_mem_sharedOps_textObjectUpdate] at hop
    exact ⟨row, hrow, hop.1.symm, hop.2⟩
  · rintro ⟨row, hrow, rfl, hop⟩
    refine ⟨_, List.mem_map.mpr ⟨row, hrow, rfl⟩, ?_⟩
    rw [initTextMessage, hcomplete row hrow, Option.getD_some, text_mem_sharedOps_textObjectUpdate]
    exact ⟨rfl, hop⟩

theorem ns_notMem_messageOps_initTextMessages {staged : List (StagedRow D)} {op : NsOp} :
    SharedOp.ns op ∉ messageOps (staged.map initTextMessage) := by
  rintro ⟨m, hm, hop⟩
  obtain ⟨row, -, rfl⟩ := List.mem_map.mp hm
  exact ns_notMem_sharedOps_textObjectUpdate hop

/-- The messages of the first import. -/
def Db.initMessages (db : Db D) (staged : List (StagedRow D)) : List (SharedMessage D) :=
  if staged = [] then []
  else .namespaceUpdate (db.importOps staged) :: staged.map initTextMessage

theorem InitImported.published {epoch : Nat} {staged : List (StagedRow D)} {now : Timestamp}
    (h : InitImported db db' epoch staged now) (hnew : ∀ row ∈ staged, row.stageKind = .new)
    (hpaths : (staged.map StagedRow.path).Nodup) (hclaims : (staged.map StagedRow.claimId).Nodup)
    (hobjects : (staged.map StagedRow.objectId).Nodup)
    (hcomplete : ∀ row ∈ staged, row.textUpdate = some row.priorDocBlob)
    (hempty : staged ≠ [] → db.stableNamespace = ∅) : Published db db' (db.initMessages staged) where
  stableOps := by
    by_cases hstaged : staged = []
    · have hsame : db'.stableOps = db.stableOps := by
        ext x
        cases x with
        | ns op =>
          rw [ns_mem_stableOps, h.eq, hstaged]
          simp [Db.importOps, importEntries, NamespaceDoc.mintedOps]
        | text id op =>
          rw [text_mem_stableOps, h.eq, hstaged]
          rfl
      rw [hsame, Db.initMessages, if_pos hstaged, messageOps_nil, Set.union_empty]
    rw [Db.initMessages, if_neg hstaged, ← List.singleton_append, messageOps_append,
      messageOps_singleton]
    ext x
    rw [Set.mem_union, Set.mem_union]
    cases x with
    | ns op =>
      have hns : db'.stableNamespace = db.stableNamespace ∪ db.importOps staged := by rw [h.eq]
      rw [ns_mem_stableOps, ns_mem_stableOps, hns, Finset.mem_union]
      simp [ns_notMem_messageOps_initTextMessages]
    | text id op =>
      have htexts : db'.stableTextObjects =
          db.stableTextObjects.putAll (staged.map StagedRow.priorText) := by rw [h.eq]
      have hkeys : (staged.map StagedRow.priorText).map TextObjectRow.objectId =
          staged.map StagedRow.objectId := by rw [List.map_map]; rfl
      rw [text_mem_stableOps, text_mem_stableOps, mem_messageOps_initTextMessages hcomplete,
        Db.stableText, Db.stableTextObjectDoc, htexts, Db.stableText, Db.stableTextObjectDoc]
      simp only [text_notMem_sharedOps_namespaceUpdate, false_or]
      by_cases hid : ∃ row ∈ staged, row.objectId = id
      · obtain ⟨row, hrow, rfl⟩ := hid
        have hfind := Table.find?_putAll_of_mem (hkeys ▸ hobjects)
          (List.mem_map_of_mem (f := StagedRow.priorText) hrow) db.stableTextObjects
        have hfind' : (db.stableTextObjects.putAll (staged.map StagedRow.priorText)).find?
            row.objectId = some row.priorText := hfind
        rw [hfind', h.new_texts row hrow]
        constructor
        · exact fun hop => .inr ⟨row, hrow, rfl, hop⟩
        · rintro (hop | ⟨row', hrow', hid', hop⟩)
          · have hnone : op ∈ ops (TextDoc.emptyTextState : D) := hop
            rw [TextDoc.ops_emptyTextState] at hnone
            exact absurd hnone (Set.notMem_empty op)
          · rwa [List.inj_on_of_nodup_map hobjects hrow' hrow hid'] at hop
      · have hnot : id ∉ (staged.map StagedRow.priorText).map TextObjectRow.objectId := by
          rw [hkeys, List.mem_map]
          exact hid
        rw [Table.find?_putAll_of_notMem hnot]
        constructor
        · exact .inl
        · rintro (hop | ⟨row, hrow, hid', -⟩)
          · exact hop
          · exact absurd ⟨row, hrow, hid'⟩ hid
  outbox := Outbox.messages_pushOutboxMessages h.outbox
  stableCursor := by rw [h.eq]
  writerId := by rw [h.eq]
  treeSynced := by
    intro hdb
    by_cases hstaged : staged = []
    · have hns : db'.stableNamespace = db.stableNamespace := by
        rw [h.eq, hstaged]
        simp [Db.importOps, importEntries, NamespaceDoc.mintedOps]
      have htree : ∀ p, db'.stableTree.table.find? p = db.stableTree.table.find? p := by
        intro p
        rw [h.stableTree, hstaged]
        rfl
      obtain ⟨projection, desired, hproj, hdesired, hfind⟩ := hdb
      rw [hns]
      exact ⟨projection, desired, hproj, hdesired, fun p => by rw [htree, hfind]⟩
    · exact h.treeSynced hnew hpaths hclaims (hempty hstaged) hdb
  objectsKnown := h.objectsKnown
  grown := Outbox.grown_of_pushOutboxMessages h.outbox
  separate := by
    unfold Db.initMessages
    split_ifs
    · simp
    · refine separate_cons (fun m hm op hop => ns_notMem_messageOps_initTextMessages ⟨m, hm, hop⟩) ?_
      intro m hm m' hm' x hx y hy hdoc
      obtain ⟨row, hrow, rfl⟩ := List.mem_map.mp hm
      obtain ⟨row', hrow', rfl⟩ := List.mem_map.mp hm'
      obtain ⟨op, -, rfl⟩ := hx
      obtain ⟨op', -, rfl⟩ := hy
      have hid : row.objectId = row'.objectId := Option.some.inj hdoc
      rw [List.inj_on_of_nodup_map hobjects hrow hrow' hid]

end Spec

/-! ## Requests -/

section Requests

variable [CharDiff] [Xxh3] [DecidableEq D] {s s' : SemanticActor D}

/-- The request is neither a batch nor a trim. -/
def SemanticRequest.isLocal : SemanticRequest D → Bool
  | applySharedMessageBatch _ => false
  | trimOutbox _ => false
  | _ => true

/-- What the actor keeps true of its database for the first import. -/
structure ImportReady (s : SemanticActor D) : Prop where
  /-- New files are staged with their whole documents. -/
  newRowsComplete : NewRowsComplete s.db
  /-- During the first import the prior namespace is empty. -/
  init_prior : ∀ active, s.active = .importing active → active.kind = .init →
    s.db.priorNamespace = ∅

omit [Xxh3] [DecidableEq D] in
/-- A staged row comes with its whole document if it is new. -/
theorem textUpdate_stagedTextImport {db : Db D} {plan : ImportActionStagePlan} {now : Timestamp}
    {objectId : ObjectId} {claimId : NamespaceClaimId}
    (h : (db.stagedTextImport plan now objectId claimId).stageKind = .new) :
    (db.stagedTextImport plan now objectId claimId).textUpdate =
      some (db.stagedTextImport plan now objectId claimId).priorDocBlob := by
  rcases stagedTextImport_cases db plan now objectId claimId with hnew | ⟨prior, kind, claim, hkind, heq⟩
  · rw [hnew]
    rfl
  · rw [heq] at h
    rcases stageExistingTextFile_cases db (clientIdForWriter db.writerId) plan prior kind claim with
      ⟨capture, -, hstaged⟩ | hstaged
    · rw [hstaged] at h
      exact absurd h hkind
    · rw [hstaged] at h
      exact absurd h hkind

omit [Xxh3] in
/-- Staging a file keeps the namespaces, the stable state and the outbox, and new files complete. -/
theorem runs_commitImportAction_frame {db db' : Db D} {context : ImportActionContext}
    {result : ImportActionResult} {now : Timestamp} {objectId : ObjectId}
    {claimId : NamespaceClaimId} {actionId : ImportActionId}
    (h : Runs (commitImportAction (D := D) context result now objectId claimId) db actionId db') :
    Published db db' [] ∧ db'.priorNamespace = db.priorNamespace ∧
      (NewRowsComplete db → NewRowsComplete db') := by
  obtain ⟨-, ⟨plan, t, -, hstage, heq⟩ | ⟨-, heq⟩⟩ := runs_commitImportAction h
  · obtain ⟨stat, hash, -, ⟨-, row, doc, -, rfl⟩ | ⟨-, rows, hrows, rfl⟩⟩ :=
      runs_stageImportActionTx hstage
    · rw [heq]
      exact ⟨published_nil rfl rfl rfl rfl rfl rfl rfl rfl, rfl, id⟩
    · rw [heq]
      refine ⟨published_nil rfl rfl rfl rfl rfl rfl rfl rfl, rfl, fun hcomplete row hrow hnew => ?_⟩
      have hrow' : row ∈ rows.rows := hrow
      rw [ImportStagedFiles.insert_eq_ok hrows, List.mem_append, List.mem_singleton] at hrow'
      rcases hrow' with hrow' | rfl
      · exact hcomplete row hrow' hnew
      · exact textUpdate_stagedTextImport hnew
  · rw [heq]
    exact ⟨published_nil rfl rfl rfl rfl rfl rfl rfl rfl, rfl, id⟩

omit [TextCrdt D] [CharDiff] [Xxh3] [DecidableEq D] in
/-- Committing the actions of a projection epoch only touches the prior state and the journal. -/
theorem runs_commitCompletedProjectionActions_frame {db db' : Db D}
    {actions : List (CompletedProjectionAction D)} {acceptedAt : Timestamp} {u : PUnit}
    (h : Runs (forM actions (commitCompletedProjectionActionTx acceptedAt)) db u db') :
    db' = { db with
      priorTextObjects := db'.priorTextObjects
      priorTree := db'.priorTree
      projectionWriteIntents := db'.projectionWriteIntents
      projectionAppliedWriteIntents := db'.projectionAppliedWriteIntents } := by
  refine Runs.forM_preserves (fun t => t = { db with
    priorTextObjects := t.priorTextObjects
    priorTree := t.priorTree
    projectionWriteIntents := t.projectionWriteIntents
    projectionAppliedWriteIntents := t.projectionAppliedWriteIntents }) h rfl ?_
  intro action _ t t' ht hrun
  rcases runs_commitCompletedProjectionActionTx hrun with ⟨doc, stat, hash, -, -, rfl⟩ | ⟨-, rfl⟩
  · rw [ht]
    rfl
  · rw [ht]
    rfl

/-- A local request joins to the stable documents what it adds to the outbox. -/
theorem Served.published {request : SemanticRequest D} (h : Served s request s')
    (hlocal : request.isLocal = true) (hready : ImportReady s) :
    ∃ minted, Published s.db s'.db minted := by
  cases h with
  | applyInitScan hidle hrun =>
    rw [(runs_applyInitScan hrun).1]
    exact ⟨[], published_nil rfl rfl rfl rfl rfl rfl rfl rfl⟩
  | applyScan hidle hrun => exact ⟨_, (runs_applyScan hrun).1.published⟩
  | commitImportAction hactive hcontext hrun => exact ⟨[], (runs_commitImportAction_frame hrun).1⟩
  | @commitImportEpoch now active effects db hactive hcomplete hrun =>
    rcases runs_commitImportEpoch hrun with ⟨hkind, n, hrun⟩ | ⟨-, n, hrun⟩
    · obtain ⟨himported, hsame, hnew, -⟩ := runs_commitInitImportEpochTx hrun
      refine ⟨_, himported.published hnew
        (ImportStagedFiles.nodup_map_ofEpoch s.db.importStagedFiles.paths_nodup _)
        (ImportStagedFiles.nodup_map_ofEpoch s.db.importStagedFiles.claims_nodup _)
        (ImportStagedFiles.nodup_map_ofEpoch s.db.importStagedFiles.objects_nodup _)
        (fun row hrow => ?_) fun hne => ?_⟩
      · exact hready.newRowsComplete row (ImportStagedFiles.mem_ofEpoch.mp hrow).1 (hnew row hrow)
      · rw [hsame hne]
        exact hready.init_prior active hactive hkind
    · exact ⟨_, (runs_commitSyncImportEpochTx hrun).1.published
        (ImportStagedFiles.nodup_map_ofEpoch s.db.importStagedFiles.objects_nodup _)⟩
  | getNextWork hidle hrun =>
    rw [(runs_getNextWorkTx hrun).1]
    exact ⟨[], published_nil rfl rfl rfl rfl rfl rfl rfl rfl⟩
  | commitProjectionAction hactive hcontext hrun =>
    rcases runs_commitProjectionAction hrun with ⟨-, rfl⟩ | ⟨stat, hash, -, rfl⟩
    · exact ⟨[], published_nil rfl rfl rfl rfl rfl rfl rfl rfl⟩
    · refine ⟨[], ?_⟩
      split <;> exact published_nil rfl rfl rfl rfl rfl rfl rfl rfl
  | commitProjectionEpoch hactive hcomplete hrun =>
    rcases runs_commitProjectionEpochTx hrun with ⟨-, rfl⟩ | ⟨-, hrun⟩
    · exact ⟨[], published_nil rfl rfl rfl rfl rfl rfl rfl rfl⟩
    · rw [runs_commitCompletedProjectionActions_frame hrun]
      exact ⟨[], published_nil rfl rfl rfl rfl rfl rfl rfl rfl⟩
  | applySharedMessageBatch => cases hlocal
  | readOutbox hread =>
    obtain ⟨hnext, hstore, -⟩ := Outbox.reserveOutboxMessages_spec hread
    exact ⟨[], published_nil rfl rfl rfl hstore hnext rfl rfl rfl⟩
  | releaseOutbox =>
    exact ⟨[], published_nil rfl rfl rfl (Outbox.store_setInflightWhere ..) rfl rfl rfl rfl⟩
  | trimOutbox => cases hlocal

/-- Every request keeps the first import ready. -/
theorem Served.importReady {request : SemanticRequest D} (h : Served s request s')
    (hready : ImportReady s) : ImportReady s' := by
  have hcomplete := hready.newRowsComplete
  cases h with
  | applyInitScan hidle hrun =>
    obtain ⟨heq, -, -, hprior⟩ := runs_applyInitScan hrun
    rw [heq]
    exact ⟨hcomplete, fun _ _ _ => hprior⟩
  | @applyScan scan now output db hidle hrun =>
    obtain ⟨hdeleted, -⟩ := runs_applyScan hrun
    refine ⟨?_, fun active hactive hkind => ?_⟩
    · show NewRowsComplete db
      rw [hdeleted.eq]
      exact hcomplete
    · have hactive' : ActiveEpoch.ofNextWork output.nextWork = .importing active := hactive
      cases hwork : output.nextWork with
      | none => rw [hwork] at hactive'; cases hactive'
      | importEpoch started => rw [hwork] at hactive'; cases hactive'; cases hkind
      | project started => rw [hwork] at hactive'; cases hactive'
  | @commitImportAction result now objectId claimId active context id db hactive hcontext hrun =>
    obtain ⟨-, hprior, hkeep⟩ := runs_commitImportAction_frame hrun
    refine ⟨hkeep hcomplete, fun active' hactive' hkind => ?_⟩
    cases hactive'
    exact hprior.trans (hready.init_prior active hactive hkind)
  | commitImportEpoch hactive hdone hrun =>
    refine ⟨?_, fun active hactive => by cases hactive⟩
    rcases runs_commitImportEpoch hrun with ⟨-, n, hrun⟩ | ⟨-, n, hrun⟩
    · rw [(runs_commitInitImportEpochTx hrun).1.eq]
      intro row hrow
      exact hcomplete row (ImportStagedFiles.mem_deleteEpoch.mp hrow).1
    · rw [(runs_commitSyncImportEpochTx hrun).1.eq]
      intro row hrow
      exact hcomplete row (ImportStagedFiles.mem_deleteEpoch.mp hrow).1
  | @getNextWork work db hidle hrun =>
    obtain ⟨heq, hwork⟩ := runs_getNextWorkTx hrun
    refine ⟨?_, fun active hactive => ?_⟩
    · rw [heq]
      exact hcomplete
    · have hactive' : ActiveEpoch.ofNextWork work = .importing active := hactive
      rw [hwork] at hactive'
      split_ifs at hactive' <;> cases hactive'
  | commitProjectionAction hactive hcontext hrun =>
    refine ⟨?_, fun active hactive => by cases hactive⟩
    rcases runs_commitProjectionAction hrun with ⟨-, rfl⟩ | ⟨stat, hash, -, rfl⟩
    · exact hcomplete
    · split <;> exact hcomplete
  | commitProjectionEpoch hactive hdone hrun =>
    refine ⟨?_, fun active hactive => by cases hactive⟩
    rcases runs_commitProjectionEpochTx hrun with ⟨-, rfl⟩ | ⟨-, hrun⟩
    · exact hcomplete
    · rw [runs_commitCompletedProjectionActions_frame hrun]
      exact hcomplete
  | applySharedMessageBatch hrun =>
    obtain ⟨docs, happlied, -⟩ := runs_applySharedMessageBatchTx hrun
    rw [happlied.eq]
    exact ⟨hcomplete, hready.init_prior⟩
  | readOutbox hread => exact ⟨hcomplete, hready.init_prior⟩
  | releaseOutbox => exact ⟨hcomplete, hready.init_prior⟩
  | trimOutbox => exact ⟨hcomplete, hready.init_prior⟩

end Requests

end Opbox
