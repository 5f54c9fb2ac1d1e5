import Opbox.Semantic.DocumentStep

/-!
# The prior state follows the stable state

Local operations are minted on the prior documents and merged into the stable ones, and the prior
documents are replaced by snapshots of stable ones: when a projection commits, and when a file turns
out to be a projection write.  `Tracks own prior stable` says that nothing is lost on the way: the
prior operations are among the stable ones, and of the stable ones those that are `own` are among
the prior ones.  Every request keeps the prior state tracking the stable state, provided a batch
brings no own operation that the stable state does not have.
-/

namespace Opbox

universe u

/-- The set `stable` has what `prior` has, and nothing of `own` besides. -/
def Tracks {O : Type u} (own : O → Prop) (prior stable : Set O) : Prop :=
  prior ⊆ stable ∧ ∀ x ∈ stable, own x → x ∈ prior

namespace Tracks

variable {O : Type u} {own : O → Prop} {prior stable stable' : Set O}

theorem refl (own : O → Prop) (s : Set O) : Tracks own s s := ⟨subset_rfl, fun _ hx _ => hx⟩

/-- The stable set may grow by what is not own. -/
theorem grow (h : Tracks own prior stable) (hsub : stable ⊆ stable')
    (hown : ∀ x ∈ stable', own x → x ∈ stable) : Tracks own prior stable' :=
  ⟨h.1.trans hsub, fun x hx hx' => h.2 x (hown x hx hx') hx'⟩

/-- Both sets may grow by the same. -/
theorem mint (h : Tracks own prior stable) (minted : Set O) :
    Tracks own (prior ∪ minted) (stable ∪ minted) := by
  refine ⟨Set.union_subset_union_left _ h.1, fun x hx hown => ?_⟩
  rcases hx with hx | hx
  · exact .inl (h.2 x hx hown)
  · exact .inr hx

/-- The own members are the same. -/
theorem mem_iff (h : Tracks own prior stable) {x : O} (hown : own x) : x ∈ prior ↔ x ∈ stable :=
  ⟨fun hx => h.1 hx, fun hx => h.2 x hx hown⟩

end Tracks

variable {D : Type} [TextCrdt D]

open TextCrdt

/-- The operations of the prior documents. -/
def Db.priorOps (db : Db D) : Set (SharedOp D)
  | .ns op => op ∈ db.priorNamespace
  | .text id op => op ∈ ops (db.priorText id)

@[simp] theorem ns_mem_priorOps {db : Db D} {op : NsOp} :
    SharedOp.ns op ∈ db.priorOps ↔ op ∈ db.priorNamespace := Iff.rfl

@[simp] theorem text_mem_priorOps {db : Db D} {id : ObjectId} {op : Op D} :
    SharedOp.text id op ∈ db.priorOps ↔ op ∈ ops (db.priorText id) := Iff.rfl

/-- What the prior state and all that may become part of it have to do with the stable state. -/
structure PriorTracks (own : SharedOp D → Prop) (s : SemanticActor D) : Prop where
  /-- The prior documents. -/
  docs : Tracks own s.db.priorOps s.db.stableOps
  /-- A staged document will be the prior one when its update has joined the stable one. -/
  staged : ∀ row ∈ s.db.importStagedFiles.rows, Tracks (fun op => own (.text row.objectId op))
    (ops row.priorDocBlob) (ops (s.db.stableText row.objectId) ∪ row.updateOps)
  /-- The namespace a projection works towards. -/
  targetNamespace : ∀ active, s.active = .projecting active →
    Tracks (fun op => own (.ns op)) (active.started.targetNamespaceDocBlob : Set NsOp)
      (s.db.stableNamespace : Set NsOp)
  /-- The documents a projection works towards. -/
  targetTexts : ∀ active, s.active = .projecting active →
    ∀ action ∈ active.started.actions, ∀ doc, action.commitContext.targetTextDocBlob = some doc →
      Tracks (fun op => own (.text action.commitContext.objectId op)) (ops doc)
        (ops (s.db.stableText action.commitContext.objectId))

section Docs

variable {own : SharedOp D → Prop} {db db' : Db D}

/-- Sets of operations document by document. -/
theorem tracks_iff : Tracks own db.priorOps db.stableOps ↔
    Tracks (fun op => own (.ns op)) (db.priorNamespace : Set NsOp) (db.stableNamespace : Set NsOp) ∧
      ∀ id, Tracks (fun op => own (.text id op)) (ops (db.priorText id)) (ops (db.stableText id)) := by
  constructor
  · intro h
    exact ⟨⟨fun op hop => h.1 (show SharedOp.ns op ∈ db.priorOps from hop),
        fun op hop hown => h.2 (.ns op) hop hown⟩,
      fun id => ⟨fun op hop => h.1 (show SharedOp.text id op ∈ db.priorOps from hop),
        fun op hop hown => h.2 (.text id op) hop hown⟩⟩
  · rintro ⟨hns, htexts⟩
    refine ⟨?_, ?_⟩
    · rintro (op | ⟨id, op⟩) hop
      · exact hns.1 hop
      · exact (htexts id).1 hop
    · rintro (op | ⟨id, op⟩) hop hown
      · exact hns.2 op hop hown
      · exact (htexts id).2 op hop hown

theorem SameDocs.stableOps (h : SameDocs db db') : db'.stableOps = db.stableOps := by
  ext x
  cases x with
  | ns op => rw [ns_mem_stableOps, ns_mem_stableOps, h.stableNamespace]
  | text id op => rw [text_mem_stableOps, text_mem_stableOps, h.stableText]

theorem SameDocs.priorOps (h : SameDocs db db') : db'.priorOps = db.priorOps := by
  ext x
  cases x with
  | ns op => rw [ns_mem_priorOps, ns_mem_priorOps, h.priorNamespace]
  | text id op => rw [text_mem_priorOps, text_mem_priorOps, h.priorText]

/-- What is minted joins both sides. -/
theorem DocsMinted.tracks {entries : List NsEntry} {staged : List (StagedRow D)}
    (h : DocsMinted db db' entries staged) (hdb : Tracks own db.priorOps db.stableOps)
    (hstaged : ∀ row ∈ staged, Tracks (fun op => own (.text row.objectId op))
      (ops row.priorDocBlob) (ops (db.stableText row.objectId) ∪ row.updateOps)) :
    Tracks own db'.priorOps db'.stableOps := by
  obtain ⟨hns, htexts⟩ := tracks_iff.mp hdb
  refine tracks_iff.mpr ⟨?_, fun id => ?_⟩
  · rw [h.priorNamespace, h.stableNamespace, Finset.coe_union, Finset.coe_union]
    exact hns.mint _
  · rcases h.texts id with ⟨row, hrow, rfl, hprior, hstable⟩ | ⟨hprior, hstable⟩
    · rw [hprior, hstable]
      exact hstaged row hrow
    · rw [hprior, hstable]
      exact htexts id

/-- An actor with nothing staged and no projection, whose prior documents track the stable ones. -/
theorem priorTracks_of_docs {s : SemanticActor D} (hdocs : Tracks own s.db.priorOps s.db.stableOps)
    (hstaged : s.db.importStagedFiles.rows = [])
    (hactive : ∀ active, s.active ≠ .projecting active) : PriorTracks own s where
  docs := hdocs
  staged row hrow := by
    rw [hstaged] at hrow
    cases hrow
  targetNamespace active h := absurd h (hactive active)
  targetTexts active h := absurd h (hactive active)

end Docs

section Requests

variable [CharDiff] [Xxh3] [DecidableEq D] {own : SharedOp D → Prop} {s s' : SemanticActor D}

omit [Xxh3] [DecidableEq D] in
/-- The document of a staged file will track the stable one: an edit extends the prior document of
its object by its update, and the stable document of a new object has no own operation. -/
theorem tracks_stagedTextImport {db : Db D} (hdb : Tracks own db.priorOps db.stableOps)
    {plan : ImportActionStagePlan} {now : Timestamp} {objectId : ObjectId}
    {claimId : NamespaceClaimId}
    (hfresh : ∀ op ∈ ops (db.stableText objectId), ¬own (.text objectId op)) :
    let staged := db.stagedTextImport plan now objectId claimId
    Tracks (fun op => own (.text staged.objectId op)) (ops staged.priorDocBlob)
      (ops (db.stableText staged.objectId) ∪ (stagedRow plan staged).updateOps) := by
  have htexts := (tracks_iff.mp hdb).2
  dsimp only
  rcases stagedTextImport_cases db plan now objectId claimId with hnew | ⟨prior, kind, claim, -, heq⟩
  · rw [hnew]
    refine ⟨fun op hop => .inr ⟨_, rfl, hop⟩, fun op hop hown => ?_⟩
    rcases hop with hop | ⟨update, hupdate, hop⟩
    · exact absurd hown (hfresh op hop)
    · cases hupdate
      exact hop
  · rw [heq]
    rcases stageExistingTextFile_cases db (clientIdForWriter db.writerId) plan prior kind claim with
      ⟨capture, hcapture, hstaged⟩ | hstaged
    · have hops := (TextDoc.captureTextChange_spec hcapture).1
      rw [hstaged, StagedRow.updateOps_of_some rfl, hops]
      exact (htexts prior.objectId).mint _
    · rw [hstaged, StagedRow.updateOps_of_none rfl, Set.union_empty]
      exact htexts prior.objectId

omit [Xxh3] [DecidableEq D] in
/-- Every request keeps the prior state tracking the stable state, if a batch brings no own
operation that the stable documents do not have, and the object generated for a new file has no own
operations yet. -/
theorem DocumentStep.priorTracks {request : SemanticRequest D} (hstep : DocumentStep s s' request)
    (h : PriorTracks own s)
    (hbatch : ∀ batch, request = .applySharedMessageBatch batch →
      ∀ x ∈ messageOps (foreignMessages s.db.writerId batch.messages), own x → x ∈ s.db.stableOps)
    (hfresh : ∀ result now objectId claimId,
      request = .commitImportAction result now objectId claimId →
        ∀ op ∈ ops (s.db.stableText objectId), ¬own (.text objectId op)) :
    PriorTracks own s' := by
  cases hstep with
  | frame docs staged target =>
    refine ⟨?_, ?_, ?_, ?_⟩
    · rw [docs.priorOps, docs.stableOps]
      exact h.docs
    · rw [staged, docs.stableText]
      exact h.staged
    · intro active' hactive'
      obtain ⟨active, hactive, hstarted⟩ := target active' hactive'
      rw [hstarted, docs.stableNamespace]
      exact h.targetNamespace active hactive
    · intro active' hactive'
      obtain ⟨active, hactive, hstarted⟩ := target active' hactive'
      rw [hstarted, docs.stableText]
      exact h.targetTexts active hactive
  | plan docs staged target =>
    refine ⟨?_, ?_, ?_, ?_⟩
    · rw [docs.priorOps, docs.stableOps]
      exact h.docs
    · intro row hrow
      rw [staged] at hrow
      cases hrow
    · intro active hactive
      rw [(target active hactive).1, docs.stableNamespace]
      exact .refl _ _
    · intro active hactive action haction doc hdoc
      rw [(target active hactive).2 action haction doc hdoc, docs.stableText]
      exact .refl _ _
  | mint entries rows rows_staged docs staged target =>
    refine priorTracks_of_docs (docs.tracks h.docs fun row hrow => ?_) staged target
    exact h.staged row (rows_staged row hrow)
  | @stage result now objectId claimId plan docs staged target =>
    refine ⟨?_, ?_, fun active hactive => absurd hactive (target active),
      fun active hactive => absurd hactive (target active)⟩
    · rw [docs.priorOps, docs.stableOps]
      exact h.docs
    · intro row hrow
      rw [docs.stableText]
      rw [staged, List.mem_append, List.mem_singleton] at hrow
      rcases hrow with hrow | rfl
      · exact h.staged row hrow
      · exact tracks_stagedTextImport h.docs (hfresh result now objectId claimId rfl)
  | realign id priorNamespace stableNamespace priorText stableText staged target =>
    obtain ⟨hns, htexts⟩ := tracks_iff.mp h.docs
    refine ⟨tracks_iff.mpr ⟨?_, fun id' => ?_⟩, ?_, fun active hactive => absurd hactive
      (target active), fun active hactive => absurd hactive (target active)⟩
    · rw [priorNamespace, stableNamespace]
      exact hns
    · rw [priorText, stableText]
      by_cases hid : id = id'
      · subst hid
        rw [if_pos rfl]
        exact .refl _ _
      · rw [if_neg hid]
        exact htexts id'
    · rw [staged, stableText]
      exact h.staged
  | project active projecting priorNamespace stableNamespace priorText stableText staged target =>
    obtain ⟨hns, htexts⟩ := tracks_iff.mp h.docs
    refine priorTracks_of_docs (tracks_iff.mpr ⟨?_, fun id => ?_⟩) staged target
    · rw [priorNamespace, stableNamespace]
      exact h.targetNamespace active projecting
    · rw [stableText]
      rcases priorText id with hsame | ⟨action, haction, rfl, hdoc⟩
      · rw [hsame]
        exact htexts id
      · exact h.targetTexts active projecting action haction _ hdoc
  | @batch batch priorNamespace priorText stable staged active =>
    have hsub : s.db.stableOps ⊆ s'.db.stableOps := stable ▸ Set.subset_union_left
    have hnew : ∀ x ∈ s'.db.stableOps, own x → x ∈ s.db.stableOps := by
      intro x hx hown
      rw [stable] at hx
      rcases hx with hx | hx
      · exact hx
      · exact hbatch batch rfl x hx hown
    have hprior : s'.db.priorOps = s.db.priorOps := by
      ext x
      cases x with
      | ns op => rw [ns_mem_priorOps, ns_mem_priorOps, priorNamespace]
      | text id op => rw [text_mem_priorOps, text_mem_priorOps, priorText]
    have htext : ∀ id, ops (s.db.stableText id) ⊆ ops (s'.db.stableText id) ∧
        ∀ op ∈ ops (s'.db.stableText id), own (.text id op) → op ∈ ops (s.db.stableText id) :=
      fun id => ⟨fun op hop => hsub (show SharedOp.text id op ∈ s.db.stableOps from hop),
        fun op hop hown => hnew (.text id op) hop hown⟩
    refine ⟨?_, ?_, ?_, ?_⟩
    · rw [hprior]
      exact h.docs.grow hsub hnew
    · intro row hrow
      rw [staged] at hrow
      refine (h.staged row hrow).grow (Set.union_subset_union_left _ (htext row.objectId).1) ?_
      rintro op (hop | hop) hown
      · exact .inl ((htext row.objectId).2 op hop hown)
      · exact .inr hop
    · intro active' hactive
      rw [active] at hactive
      refine (h.targetNamespace active' hactive).grow ?_ ?_
      · exact fun op hop => hsub (show SharedOp.ns op ∈ s.db.stableOps from hop)
      · exact fun op hop hown => hnew (.ns op) hop hown
    · intro active' hactive action haction doc hdoc
      rw [active] at hactive
      exact (h.targetTexts active' hactive action haction doc hdoc).grow (htext _).1 (htext _).2

omit [CharDiff] [Xxh3] [DecidableEq D] in
/-- A restart drops what is staged and what is active. -/
theorem PriorTracks.restart (h : PriorTracks own s) : PriorTracks own (.start s.db) :=
  priorTracks_of_docs h.docs rfl nofun

omit [CharDiff] [Xxh3] [DecidableEq D] in
/-- A new daemon has nothing. -/
theorem priorTracks_start (own : SharedOp D → Prop) (writer : DaemonWriterId) :
    PriorTracks own (SemanticActor.start (Db.initialized D writer 0)) := by
  refine priorTracks_of_docs (tracks_iff.mpr ⟨.refl _ _, fun id => ?_⟩) rfl nofun
  exact .refl _ _

end Requests

end Opbox
