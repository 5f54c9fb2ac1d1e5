import Opbox.Crdt.TextClock
import Opbox.Semantic.PriorState

/-!
# Causally closed documents

An operation on a text depends on what the CRDT library makes it refer to.  An operation on the
namespace depends on those its client minted before it, and on the entry it replaces, its origin.
The origins are a parameter, since a namespace operation of the model does not record them.  All
documents of a daemon are causally closed: they hold what their operations depend on.
-/

namespace Opbox

variable {D : Type}

/-- An operation id: its document, its client and its clock. -/
abbrev OpKey := Option ObjectId × Nat × Nat

/-- The id of a namespace operation within its document. -/
def NsOp.id (op : NsOp) : Option (Nat × Nat) := some (op.client, op.clock)

/-- What a namespace operation depends on: what its client minted before, and its origin. -/
def NsOp.needs (origin : NsOp → Set (Nat × Nat)) (op : NsOp) : Set (Nat × Nat) :=
  { n | n.1 = op.client ∧ n.2 < op.clock } ∪ origin op

section Clocks

variable [ClockedTextCrdt D]

open TextCrdt ClockedTextCrdt

/-- The id of an operation; a deletion in a text has none. -/
def SharedOp.key : SharedOp D → Option OpKey
  | .ns op => some (none, op.client, op.clock)
  | .text id op => (opId op).map fun n => (some id, n)

/-- What an operation depends on. -/
def SharedOp.needs (origin : NsOp → Set (Nat × Nat)) : SharedOp D → Set OpKey
  | .ns op => { key | ∃ n ∈ NsOp.needs origin op, key = (none, n) }
  | .text id op => { key | ∃ n ∈ ClockedTextCrdt.needs op, key = (some id, n) }

/-- A set of operations that holds what its operations depend on. -/
def CausallyClosed (origin : NsOp → Set (Nat × Nat)) (s : Set (SharedOp D)) : Prop :=
  ClosedOps SharedOp.key (SharedOp.needs origin) s

/-- A text document that holds what its operations depend on. -/
def TextClosed (doc : Set (Op D)) : Prop := ClosedOps opId ClockedTextCrdt.needs doc

/-- A namespace document that holds what its operations depend on. -/
def NsClosed (origin : NsOp → Set (Nat × Nat)) (doc : NamespaceDoc) : Prop :=
  ClosedOps NsOp.id (NsOp.needs origin) (doc : Set NsOp)

/-- The operations of documents. -/
def documentOps (ns : NamespaceDoc) (text : ObjectId → D) : Set (SharedOp D)
  | .ns op => op ∈ ns
  | .text id op => op ∈ ops (text id)

variable {origin : NsOp → Set (Nat × Nat)} {db : Db D}

theorem priorOps_eq : db.priorOps = documentOps db.priorNamespace db.priorText := by
  ext x
  cases x <;> rfl

theorem stableOps_eq : db.stableOps = documentOps db.stableNamespace db.stableText := by
  ext x
  cases x <;> rfl

/-- Documents are closed one by one. -/
theorem causallyClosed_documentOps {ns : NamespaceDoc} {text : ObjectId → D} :
    CausallyClosed origin (documentOps ns text) ↔
      NsClosed origin ns ∧ ∀ id, TextClosed (ops (text id)) := by
  constructor
  · intro h
    refine ⟨fun op hop n hn => ?_, fun id op hop n hn => ?_⟩
    · obtain ⟨y, hy, hkey⟩ := h (.ns op) hop (none, n) ⟨n, hn, rfl⟩
      cases y with
      | ns op' =>
        cases hkey
        exact ⟨op', hy, rfl⟩
      | text id op' =>
        obtain ⟨m, -, hm⟩ := Option.map_eq_some_iff.mp hkey
        cases hm
    · obtain ⟨y, hy, hkey⟩ := h (.text id op) hop (some id, n) ⟨n, hn, rfl⟩
      cases y with
      | ns op' => cases hkey
      | text id' op' =>
        obtain ⟨m, hm, heq⟩ := Option.map_eq_some_iff.mp hkey
        cases heq
        exact ⟨op', hy, hm⟩
  · rintro ⟨hns, htext⟩ (op | ⟨id, op⟩) hop key hkey
    · obtain ⟨n, hn, rfl⟩ := hkey
      obtain ⟨op', hop', hid⟩ := hns op hop n hn
      refine ⟨.ns op', hop', ?_⟩
      cases hid
      rfl
    · obtain ⟨n, hn, rfl⟩ := hkey
      obtain ⟨op', hop', hid⟩ := htext id op hop n hn
      exact ⟨.text id op', hop', by rw [SharedOp.key, hid]; rfl⟩

/-- A union of closed sets is closed, and so is one where the new operations find what they need. -/
theorem ClosedOps.union {O K : Type*} {key : O → Option K} {needs : O → Set K} {s t : Set O}
    (hs : ClosedOps key needs s)
    (ht : ∀ op ∈ t, ∀ n ∈ needs op, ∃ op' ∈ s ∪ t, key op' = some n) :
    ClosedOps key needs (s ∪ t) := by
  rintro op (hop | hop) n hn
  · obtain ⟨op', hop', hkey⟩ := hs op hop n hn
    exact ⟨op', .inl hop', hkey⟩
  · exact ht op hop n hn

/-! ## Minting on a namespace -/

omit [ClockedTextCrdt D] in
/-- Minted operations have consecutive clocks. -/
theorem exists_mem_mintedOps_clock {client clock k : Nat} {entries : List NsEntry} {op : NsOp}
    (hop : op ∈ NamespaceDoc.mintedOps client clock entries) (hle : clock ≤ k) (hlt : k < op.clock) :
    ∃ op' ∈ NamespaceDoc.mintedOps client clock entries, op'.client = client ∧ op'.clock = k := by
  induction entries generalizing clock with
  | nil => simp [NamespaceDoc.mintedOps] at hop
  | cons entry entries ih =>
    rw [NamespaceDoc.mintedOps] at hop ⊢
    rcases Nat.lt_or_eq_of_le hle with hlt' | rfl
    · rcases Finset.mem_insert.mp hop with rfl | hop
      · exact absurd hlt' (by dsimp only at hlt; omega)
      · obtain ⟨op', hop', hid⟩ := ih hop hlt'
        exact ⟨op', Finset.mem_insert_of_mem hop', hid⟩
    · exact ⟨_, Finset.mem_insert_self _ _, rfl, rfl⟩

omit [ClockedTextCrdt D] in
/-- In a closed namespace every clock below the next one has been used. -/
theorem NsClosed.exists_of_lt_stateVector {doc : NamespaceDoc} (h : NsClosed origin doc)
    {client k : Nat} (hk : k < doc.stateVector client) :
    ∃ op ∈ doc, op.client = client ∧ op.clock = k := by
  obtain ⟨op, hop, hlt⟩ := Finset.lt_sup_iff.mp hk
  obtain ⟨hmem, hclient⟩ := Finset.mem_filter.mp hop
  rcases Nat.lt_or_eq_of_le (Nat.lt_succ_iff.mp hlt) with hlt | rfl
  · obtain ⟨op', hop', hid⟩ := h op hmem (client, k) (.inl ⟨hclient.symm, hlt⟩)
    rw [NsOp.id, Option.some.injEq, Prod.mk.injEq] at hid
    exact ⟨op', hop', hid⟩
  · exact ⟨op, hmem, hclient, rfl⟩

omit [ClockedTextCrdt D] in
/-- Local mutations keep a namespace closed, if the entries they replace are in it. -/
theorem NsClosed.mint {doc : NamespaceDoc} (h : NsClosed origin doc) {client : Nat}
    {entries : List NsEntry}
    (horigin : ∀ op ∈ NamespaceDoc.mintedOps client (doc.stateVector client) entries,
      ∀ n ∈ origin op, ∃ op' ∈ doc ∪ NamespaceDoc.mintedOps client (doc.stateVector client) entries,
        (op'.client, op'.clock) = n) :
    NsClosed origin (doc ∪ NamespaceDoc.mintedOps client (doc.stateVector client) entries) := by
  unfold NsClosed
  rw [Finset.coe_union]
  refine ClosedOps.union h fun op hop n hn => ?_
  rw [← Finset.coe_union]
  rcases hn with ⟨hclient, hlt⟩ | hn
  · have hmem := NamespaceDoc.mem_mintedOps hop
    by_cases hsv : n.2 < doc.stateVector client
    · obtain ⟨op', hop', hclient', hclock'⟩ := h.exists_of_lt_stateVector hsv
      refine ⟨op', Finset.mem_coe.mpr (Finset.mem_union_left _ hop'), ?_⟩
      rw [NsOp.id, hclient', hclock', ← hmem.1, ← hclient]
    · obtain ⟨op', hop', hclient', hclock'⟩ :=
        exists_mem_mintedOps_clock hop (not_lt.mp hsv) hlt
      refine ⟨op', Finset.mem_coe.mpr (Finset.mem_union_right _ hop'), ?_⟩
      rw [NsOp.id, hclient', hclock', ← hmem.1, ← hclient]
  · obtain ⟨op', hop', hid⟩ := horigin op hop n hn
    exact ⟨op', hop', congrArg some hid⟩

/-! ## The documents of a daemon -/

/-- All documents of a daemon are causally closed, those to come included. -/
structure DocumentsClosed (origin : NsOp → Set (Nat × Nat)) (s : SemanticActor D) : Prop where
  /-- The prior documents. -/
  prior : CausallyClosed origin s.db.priorOps
  /-- The stable documents. -/
  stable : CausallyClosed origin s.db.stableOps
  /-- The staged documents. -/
  staged : ∀ row ∈ s.db.importStagedFiles.rows, TextClosed (ops row.priorDocBlob)
  /-- An update is part of the document staged with it. -/
  stagedUpdate : ∀ row ∈ s.db.importStagedFiles.rows, row.updateOps ⊆ ops row.priorDocBlob
  /-- The namespace a projection works towards. -/
  targetNamespace : ∀ active, s.active = .projecting active →
    NsClosed origin active.started.targetNamespaceDocBlob
  /-- The documents a projection works towards. -/
  targetTexts : ∀ active, s.active = .projecting active → ∀ action ∈ active.started.actions,
    ∀ doc, action.commitContext.targetTextDocBlob = some doc → TextClosed (ops doc)

/-- What a daemon mints on its prior namespace replaces entries that are there. -/
def OriginsPresent (origin : NsOp → Set (Nat × Nat)) (s s' : SemanticActor D) : Prop :=
  ∀ op ∈ s'.db.priorNamespace, op.client = clientIdForWriter s.db.writerId →
    s.db.priorNamespace.stateVector (clientIdForWriter s.db.writerId) ≤ op.clock →
    ∀ n ∈ origin op, ∃ op' ∈ s'.db.priorNamespace, (op'.client, op'.clock) = n

section Docs

variable {db' : Db D}

theorem closed_of_docs {db : Db D} :
    (CausallyClosed origin db.priorOps ↔
      NsClosed origin db.priorNamespace ∧ ∀ id, TextClosed (ops (db.priorText id))) ∧
    (CausallyClosed origin db.stableOps ↔
      NsClosed origin db.stableNamespace ∧ ∀ id, TextClosed (ops (db.stableText id))) := by
  rw [priorOps_eq, stableOps_eq]
  exact ⟨causallyClosed_documentOps, causallyClosed_documentOps⟩

/-- A namespace that holds a closed one stays closed when it is joined with what was minted there. -/
theorem nsClosed_union {prior stable minted : NamespaceDoc} (hsub : prior ⊆ stable)
    (hstable : NsClosed origin stable) (hminted : NsClosed origin (prior ∪ minted)) :
    NsClosed origin (stable ∪ minted) := by
  unfold NsClosed
  rw [Finset.coe_union]
  refine ClosedOps.union hstable fun op hop n hn => ?_
  obtain ⟨op', hop', hid⟩ := hminted op
    (Finset.mem_coe.mpr (Finset.mem_union_right _ (Finset.mem_coe.mp hop))) n hn
  rw [← Finset.coe_union]
  exact ⟨op', Finset.union_subset_union_left hsub hop', hid⟩

/-- A text that is joined with an update of a closed document over it stays closed. -/
theorem textClosed_union {blob update stable : Set (Op D)} (hblob : TextClosed blob)
    (hupdate : update ⊆ blob) (hsub : blob ⊆ stable ∪ update) (hstable : TextClosed stable) :
    TextClosed (stable ∪ update) := by
  refine ClosedOps.union hstable fun op hop n hn => ?_
  obtain ⟨op', hop', hid⟩ := hblob op (hupdate hop) n hn
  exact ⟨op', hsub hop', hid⟩

end Docs

section Requests

variable [CharDiff] {s s' : SemanticActor D}

/-- The document of a staged file is minted on the empty document or on a prior one. -/
theorem minted_stagedTextImport (db : Db D) (plan : ImportActionStagePlan) (now : Timestamp)
    (objectId : ObjectId) (claimId : NamespaceClaimId) :
    let staged := db.stagedTextImport plan now objectId claimId
    ∃ base : D, (base = TextDoc.emptyTextState ∨ base = db.priorText staged.objectId) ∧
      TextDoc.Minted (clientIdForWriter db.writerId) base staged.priorDocBlob ∧
      (stagedRow plan staged).updateOps ⊆ ops staged.priorDocBlob := by
  dsimp only
  rcases stagedTextImport_cases db plan now objectId claimId with hnew | ⟨prior, kind, claim, -, heq⟩
  · rw [hnew]
    refine ⟨_, .inl rfl, TextDoc.minted_textStateFromContent _ plan.content, ?_⟩
    rintro op ⟨update, hupdate, hop⟩
    cases hupdate
    exact hop
  · rw [heq]
    rcases stageExistingTextFile_cases db (clientIdForWriter db.writerId) plan prior kind claim with
      ⟨capture, hcapture, hstaged⟩ | hstaged
    · rw [hstaged]
      refine ⟨_, .inr rfl, TextDoc.minted_captureTextChange hcapture, ?_⟩
      rintro op ⟨update, hupdate, hop⟩
      cases hupdate
      exact (TextDoc.captureTextChange_spec hcapture).1.ge (.inr hop)
    · rw [hstaged]
      refine ⟨_, .inr rfl, .refl _ _, ?_⟩
      rintro op ⟨update, hupdate, hop⟩
      cases hupdate

/-- The document of a staged file is closed, and its update is part of it. -/
theorem closed_stagedTextImport {db : Db D} (hdb : ∀ id, TextClosed (ops (db.priorText id)))
    (plan : ImportActionStagePlan) (now : Timestamp) (objectId : ObjectId)
    (claimId : NamespaceClaimId) :
    let staged := db.stagedTextImport plan now objectId claimId
    TextClosed (ops staged.priorDocBlob) ∧
      (stagedRow plan staged).updateOps ⊆ ops staged.priorDocBlob := by
  obtain ⟨base, hbase, hminted, hupdate⟩ := minted_stagedTextImport db plan now objectId claimId
  refine ⟨hminted.closed ?_, hupdate⟩
  rcases hbase with rfl | rfl
  · rw [TextDoc.ops_emptyTextState]
    exact fun op hop => absurd hop (Set.notMem_empty op)
  · exact hdb _

omit [CharDiff] in
/-- What is minted joins the prior and the stable documents, and closes both. -/
theorem DocsMinted.closed {db db' : Db D} {entries : List NsEntry} {staged : List (StagedRow D)}
    (h : DocsMinted db db' entries staged)
    (htracks : Tracks (fun _ => False) db.priorOps db.stableOps)
    (hprior : CausallyClosed origin db.priorOps) (hstable : CausallyClosed origin db.stableOps)
    (hrows : ∀ row ∈ staged, TextClosed (ops row.priorDocBlob) ∧
      row.updateOps ⊆ ops row.priorDocBlob ∧
      ops row.priorDocBlob ⊆ ops (db.stableText row.objectId) ∪ row.updateOps)
    (horigin : ∀ op ∈ db'.priorNamespace, op.client = clientIdForWriter db.writerId →
      db.priorNamespace.stateVector (clientIdForWriter db.writerId) ≤ op.clock →
      ∀ n ∈ origin op, ∃ op' ∈ db'.priorNamespace, (op'.client, op'.clock) = n) :
    CausallyClosed origin db'.priorOps ∧ CausallyClosed origin db'.stableOps := by
  obtain ⟨hnsPrior, htextPrior⟩ := closed_of_docs.1.mp hprior
  obtain ⟨hnsStable, htextStable⟩ := closed_of_docs.2.mp hstable
  have hminted : NsClosed origin db'.priorNamespace := by
    rw [h.priorNamespace]
    refine hnsPrior.mint fun op hop n hn => ?_
    obtain ⟨hclient, hclock, -⟩ := NamespaceDoc.mem_mintedOps hop
    rw [← h.priorNamespace]
    refine horigin op ?_ hclient hclock n hn
    rw [h.priorNamespace]
    exact Finset.mem_union_right _ hop
  refine ⟨closed_of_docs.1.mpr ⟨hminted, fun id => ?_⟩, closed_of_docs.2.mpr ⟨?_, fun id => ?_⟩⟩
  · rcases h.texts id with ⟨row, hrow, -, hdoc, -⟩ | ⟨hdoc, -⟩
    · rw [hdoc]
      exact (hrows row hrow).1
    · rw [hdoc]
      exact htextPrior id
  · rw [h.stableNamespace]
    refine nsClosed_union (tracks_iff.mp htracks).1.1 hnsStable ?_
    rw [← h.priorNamespace]
    exact hminted
  · rcases h.texts id with ⟨row, hrow, rfl, -, hdoc⟩ | ⟨-, hdoc⟩
    · rw [hdoc]
      obtain ⟨hclosed, hupdate, hsub⟩ := hrows row hrow
      exact textClosed_union hclosed hupdate hsub (htextStable _)
    · rw [hdoc]
      exact htextStable id

/-- Every request keeps the documents closed, if what it mints on the prior namespace replaces
entries that are there, and a batch leaves the stable documents closed. -/
theorem DocumentStep.documentsClosed {request : SemanticRequest D}
    (hstep : DocumentStep s s' request) (h : DocumentsClosed origin s)
    (htracks : PriorTracks (fun _ => False) s) (horigin : OriginsPresent origin s s')
    (hbatch : ∀ batch, request = .applySharedMessageBatch batch →
      CausallyClosed origin s'.db.stableOps) :
    DocumentsClosed origin s' := by
  cases hstep with
  | frame docs staged target =>
    refine ⟨?_, ?_, ?_, ?_, ?_, ?_⟩
    · rw [docs.priorOps]
      exact h.prior
    · rw [docs.stableOps]
      exact h.stable
    · rw [staged]
      exact h.staged
    · rw [staged]
      exact h.stagedUpdate
    · intro active' hactive'
      obtain ⟨active, hactive, hstarted⟩ := target active' hactive'
      rw [hstarted]
      exact h.targetNamespace active hactive
    · intro active' hactive'
      obtain ⟨active, hactive, hstarted⟩ := target active' hactive'
      rw [hstarted]
      exact h.targetTexts active hactive
  | plan docs staged target =>
    obtain ⟨hns, htexts⟩ := closed_of_docs.2.mp h.stable
    refine ⟨?_, ?_, ?_, ?_, ?_, ?_⟩
    · rw [docs.priorOps]
      exact h.prior
    · rw [docs.stableOps]
      exact h.stable
    · rw [staged]
      exact nofun
    · rw [staged]
      exact nofun
    · intro active hactive
      rw [(target active hactive).1]
      exact hns
    · intro active hactive action haction doc hdoc
      rw [(target active hactive).2 action haction doc hdoc]
      exact htexts _
  | mint entries rows rows_staged docs staged target =>
    obtain ⟨hprior, hstable⟩ := docs.closed htracks.docs h.prior h.stable
      (fun row hrow => ⟨h.staged row (rows_staged row hrow),
        h.stagedUpdate row (rows_staged row hrow), (htracks.staged row (rows_staged row hrow)).1⟩)
      horigin
    refine ⟨hprior, hstable, ?_, ?_, fun active hactive => absurd hactive (target active),
      fun active hactive => absurd hactive (target active)⟩
    · rw [staged]
      exact nofun
    · rw [staged]
      exact nofun
  | @stage result now objectId claimId plan docs staged target =>
    have hnew := closed_stagedTextImport (closed_of_docs.1.mp h.prior).2 plan now objectId claimId
    refine ⟨?_, ?_, ?_, ?_, fun active hactive => absurd hactive (target active),
      fun active hactive => absurd hactive (target active)⟩
    · rw [docs.priorOps]
      exact h.prior
    · rw [docs.stableOps]
      exact h.stable
    · intro row hrow
      rw [staged, List.mem_append, List.mem_singleton] at hrow
      rcases hrow with hrow | rfl
      · exact h.staged row hrow
      · exact hnew.1
    · intro row hrow
      rw [staged, List.mem_append, List.mem_singleton] at hrow
      rcases hrow with hrow | rfl
      · exact h.stagedUpdate row hrow
      · exact hnew.2
  | realign id priorNamespace stableNamespace priorText stableText staged target =>
    obtain ⟨hnsPrior, htextPrior⟩ := closed_of_docs.1.mp h.prior
    obtain ⟨hnsStable, htextStable⟩ := closed_of_docs.2.mp h.stable
    refine ⟨closed_of_docs.1.mpr ⟨?_, fun id' => ?_⟩, closed_of_docs.2.mpr ⟨?_, ?_⟩, ?_, ?_,
      fun active hactive => absurd hactive (target active),
      fun active hactive => absurd hactive (target active)⟩
    · rw [priorNamespace]
      exact hnsPrior
    · rw [priorText]
      by_cases hid : id = id'
      · rw [if_pos hid]
        exact htextStable id
      · rw [if_neg hid]
        exact htextPrior id'
    · rw [stableNamespace]
      exact hnsStable
    · rw [stableText]
      exact htextStable
    · rw [staged]
      exact h.staged
    · rw [staged]
      exact h.stagedUpdate
  | project active projecting priorNamespace stableNamespace priorText stableText staged target =>
    obtain ⟨hnsStable, htextStable⟩ := closed_of_docs.2.mp h.stable
    refine ⟨closed_of_docs.1.mpr ⟨?_, fun id => ?_⟩, closed_of_docs.2.mpr ⟨?_, ?_⟩, ?_, ?_,
      fun active hactive => absurd hactive (target active),
      fun active hactive => absurd hactive (target active)⟩
    · rw [priorNamespace]
      exact h.targetNamespace active projecting
    · rcases priorText id with hsame | ⟨action, haction, -, hdoc⟩
      · rw [hsame]
        exact (closed_of_docs.1.mp h.prior).2 id
      · exact h.targetTexts active projecting action haction _ hdoc
    · rw [stableNamespace]
      exact hnsStable
    · rw [stableText]
      exact htextStable
    · rw [staged]
      exact nofun
    · rw [staged]
      exact nofun
  | @batch batch priorNamespace priorText stable staged active =>
    refine ⟨closed_of_docs.1.mpr ?_, hbatch batch rfl, ?_, ?_, ?_, ?_⟩
    · rw [priorNamespace, priorText]
      exact closed_of_docs.1.mp h.prior
    · rw [staged]
      exact h.staged
    · rw [staged]
      exact h.stagedUpdate
    · rw [active]
      exact h.targetNamespace
    · rw [active]
      exact h.targetTexts

omit [CharDiff] in
/-- A restart drops what is staged and what is active. -/
theorem DocumentsClosed.restart (h : DocumentsClosed origin s) :
    DocumentsClosed origin (.start s.db) :=
  ⟨h.prior, h.stable, nofun, nofun, nofun, nofun⟩

omit [CharDiff] in
/-- A new daemon has nothing. -/
theorem documentsClosed_start (origin : NsOp → Set (Nat × Nat)) (writer : DaemonWriterId) :
    DocumentsClosed origin (SemanticActor.start (Db.initialized D writer 0)) := by
  have hempty : TextClosed (ops (TextDoc.emptyTextState : D)) := by
    rw [TextDoc.ops_emptyTextState]
    exact fun op hop => absurd hop (Set.notMem_empty op)
  refine ⟨closed_of_docs.1.mpr ⟨nofun, fun _ => hempty⟩, closed_of_docs.2.mpr ⟨nofun, fun _ => hempty⟩,
    nofun, nofun, nofun, nofun⟩

end Requests

end Clocks

end Opbox
