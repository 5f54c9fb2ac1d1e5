import Opbox.Semantic.Causality

/-!
# The operations of a client have different ids

A daemon mints under the next clock of its client in a prior document.  The prior documents have all
operations of the client that the stable ones have, so that clock has not been used.  `OwnIds` is
what a daemon keeps true of the documents it may mint on: its own operations in them have different
ids, and what is staged adds own operations only.
-/

namespace Opbox

variable {D : Type} [ClockedTextCrdt D]

open TextCrdt ClockedTextCrdt

/-- The operation has an id of the client. -/
def SharedOp.Own (client : Nat) (x : SharedOp D) : Prop := ∃ d k, x.key = some (d, client, k)

/-- No id of the client is used twice. -/
def UniqueIds (client : Nat) (s : Set (SharedOp D)) : Prop :=
  ∀ x ∈ s, ∀ y ∈ s, ∀ d k, x.key = some (d, client, k) → y.key = some (d, client, k) → x = y

/-- No id of the client is used twice in a text. -/
def TextUniqueIds (client : Nat) (doc : Set (Op D)) : Prop :=
  ∀ op ∈ doc, ∀ op' ∈ doc, ∀ k, opId op = some (client, k) → opId op' = some (client, k) → op = op'

/-- No id of the client is used twice in a namespace. -/
def NsUniqueIds (client : Nat) (doc : NamespaceDoc) : Prop :=
  ∀ op ∈ doc, ∀ op' ∈ doc, op.client = client → op'.client = client → op.clock = op'.clock → op = op'

section Ids

variable {client : Nat}

theorem own_ns {op : NsOp} : SharedOp.Own client (.ns op : SharedOp D) ↔ op.client = client := by
  constructor
  · rintro ⟨d, k, hkey⟩
    cases hkey
    rfl
  · rintro rfl
    exact ⟨none, op.clock, rfl⟩

theorem own_text {id : ObjectId} {op : Op D} :
    SharedOp.Own client (.text id op) ↔ ∃ k, opId op = some (client, k) := by
  constructor
  · rintro ⟨d, k, hkey⟩
    obtain ⟨n, hn, heq⟩ := Option.map_eq_some_iff.mp hkey
    cases heq
    exact ⟨k, hn⟩
  · rintro ⟨k, hk⟩
    exact ⟨some id, k, by rw [SharedOp.key, hk]; rfl⟩

/-- Ids are unique document by document. -/
theorem uniqueIds_documentOps {ns : NamespaceDoc} {text : ObjectId → D} :
    UniqueIds client (documentOps ns text) ↔
      NsUniqueIds client ns ∧ ∀ id, TextUniqueIds client (ops (text id)) := by
  constructor
  · intro h
    refine ⟨fun op hop op' hop' hclient hclient' hclock => ?_, fun id op hop op' hop' k hk hk' => ?_⟩
    · have heq := h (.ns op) hop (.ns op') hop' none op.clock (by rw [← hclient]; rfl)
        (by rw [← hclient', hclock]; rfl)
      cases heq
      rfl
    · have heq := h (.text id op) hop (.text id op') hop' (some id) k
        (by rw [SharedOp.key, hk]; rfl) (by rw [SharedOp.key, hk']; rfl)
      cases heq
      rfl
  · rintro ⟨hns, htext⟩ (op | ⟨id, op⟩) hx (op' | ⟨id', op'⟩) hy d k hkey hkey'
    · rw [SharedOp.key, Option.some.injEq, Prod.mk.injEq, Prod.mk.injEq] at hkey hkey'
      rw [hns op hx op' hy hkey.2.1 hkey'.2.1 (hkey.2.2.trans hkey'.2.2.symm)]
    · cases hkey
      obtain ⟨m, -, hm⟩ := Option.map_eq_some_iff.mp hkey'
      cases hm
    · cases hkey'
      obtain ⟨m, -, hm⟩ := Option.map_eq_some_iff.mp hkey
      cases hm
    · obtain ⟨m, hm, heq⟩ := Option.map_eq_some_iff.mp hkey
      obtain ⟨m', hm', heq'⟩ := Option.map_eq_some_iff.mp hkey'
      cases heq
      cases heq'
      rw [htext id op hx op' hy k hm hm']

theorem UniqueIds.subset {s t : Set (SharedOp D)} (h : UniqueIds client t)
    (hsub : ∀ x ∈ s, x.Own client → x ∈ t) : UniqueIds client s :=
  fun x hx y hy d k hkey hkey' =>
    h x (hsub x hx ⟨d, k, hkey⟩) y (hsub y hy ⟨d, k, hkey'⟩) d k hkey hkey'

/-- What a client mints on a namespace gets new ids. -/
theorem NsUniqueIds.mint {doc : NamespaceDoc} (h : NsUniqueIds client doc) (entries : List NsEntry) :
    NsUniqueIds client (doc ∪ NamespaceDoc.mintedOps client (doc.stateVector client) entries) := by
  have hminted : ∀ clock, NsUniqueIds client (NamespaceDoc.mintedOps client clock entries) := by
    induction entries with
    | nil => exact fun clock op hop => absurd hop (Finset.notMem_empty op)
    | cons entry entries ih =>
      intro clock op hop op' hop' hclient hclient' hclock
      rw [NamespaceDoc.mintedOps, Finset.mem_insert] at hop hop'
      rcases hop with rfl | hop <;> rcases hop' with rfl | hop'
      · rfl
      · have hle := (NamespaceDoc.mem_mintedOps hop').2.1
        dsimp only at hclock
        omega
      · have hle := (NamespaceDoc.mem_mintedOps hop).2.1
        dsimp only at hclock
        omega
      · exact ih (clock + 1) op hop op' hop' hclient hclient' hclock
  intro op hop op' hop' hclient hclient' hclock
  rcases Finset.mem_union.mp hop with hop | hop <;> rcases Finset.mem_union.mp hop' with hop' | hop'
  · exact h op hop op' hop' hclient hclient' hclock
  · have hlt := NamespaceDoc.lt_stateVector hop
    have hle := (NamespaceDoc.mem_mintedOps hop').2.1
    rw [hclient] at hlt
    omega
  · have hlt := NamespaceDoc.lt_stateVector hop'
    have hle := (NamespaceDoc.mem_mintedOps hop).2.1
    rw [hclient'] at hlt
    omega
  · exact hminted _ op hop op' hop' hclient hclient' hclock

/-- What a client mints on a text gets new ids. -/
theorem TextUniqueIds.mint {doc doc' : D} (h : TextUniqueIds client (ops doc))
    (hminted : TextDoc.Minted client doc doc') : TextUniqueIds client (ops doc') := by
  intro op hop op' hop' k hid hid'
  by_cases hold : op ∈ ops doc <;> by_cases hold' : op' ∈ ops doc
  · exact h op hold op' hold' k hid hid'
  · have hlt := lt_stateVector doc op client k hold hid
    have hle := (hminted.fresh op' hop' hold' client k hid').2
    omega
  · have hlt := lt_stateVector doc op' client k hold' hid'
    have hle := (hminted.fresh op hop hold client k hid).2
    omega
  · exact hminted.injective op hop hold op' hop' hold' _ hid hid'

end Ids

/-- The own operations of a daemon have different ids, in its prior documents and in those to come,
and what is staged for a stable document is own or already there. -/
structure OwnIds (client : Nat) (s : SemanticActor D) : Prop where
  /-- The prior documents. -/
  prior : UniqueIds client s.db.priorOps
  /-- The staged documents. -/
  staged : ∀ row ∈ s.db.importStagedFiles.rows, TextUniqueIds client (ops row.priorDocBlob)
  /-- The staged updates. -/
  stagedUpdate : ∀ row ∈ s.db.importStagedFiles.rows, ∀ op ∈ row.updateOps, ∀ c k,
    opId op = some (c, k) → c = client ∨ op ∈ ops (s.db.stableText row.objectId)

section Requests

variable [CharDiff] {client : Nat} {s s' : SemanticActor D}

omit [CharDiff] in
theorem priorIds {db : Db D} : UniqueIds client db.priorOps ↔
    NsUniqueIds client db.priorNamespace ∧ ∀ id, TextUniqueIds client (ops (db.priorText id)) := by
  rw [priorOps_eq]
  exact uniqueIds_documentOps

omit [CharDiff] in
theorem textUniqueIds_empty : TextUniqueIds client (ops (TextDoc.emptyTextState : D)) := by
  rw [TextDoc.ops_emptyTextState]
  exact fun op hop => absurd hop (Set.notMem_empty op)

/-- Every request keeps the ids of the own operations different. -/
theorem DocumentStep.ownIds {request : SemanticRequest D} (hstep : DocumentStep s s' request)
    (hclient : clientIdForWriter s.db.writerId = client)
    (htracks : PriorTracks (SharedOp.Own client) s) (h : OwnIds client s) : OwnIds client s' := by
  obtain ⟨hns, htexts⟩ := priorIds.mp h.prior
  cases hstep with
  | frame docs staged target =>
    refine ⟨?_, ?_, ?_⟩
    · rw [docs.priorOps]
      exact h.prior
    · rw [staged]
      exact h.staged
    · rw [staged, docs.stableText]
      exact h.stagedUpdate
  | plan docs staged target =>
    refine ⟨?_, ?_, ?_⟩
    · rw [docs.priorOps]
      exact h.prior
    · rw [staged]
      exact nofun
    · rw [staged]
      exact nofun
  | mint entries rows rows_staged docs staged target =>
    refine ⟨priorIds.mpr ⟨?_, fun id => ?_⟩, ?_, ?_⟩
    · rw [docs.priorNamespace, hclient]
      exact hns.mint entries
    · rcases docs.texts id with ⟨row, hrow, -, hdoc, -⟩ | ⟨hdoc, -⟩
      · rw [hdoc]
        exact h.staged row (rows_staged row hrow)
      · rw [hdoc]
        exact htexts id
    · rw [staged]
      exact nofun
    · rw [staged]
      exact nofun
  | @stage result now objectId claimId plan docs staged target =>
    obtain ⟨base, hbase, hminted, hupdate⟩ :=
      minted_stagedTextImport s.db plan now objectId claimId
    rw [hclient] at hminted
    refine ⟨?_, ?_, ?_⟩
    · rw [docs.priorOps]
      exact h.prior
    · intro row hrow
      rw [staged, List.mem_append, List.mem_singleton] at hrow
      rcases hrow with hrow | rfl
      · exact h.staged row hrow
      · refine TextUniqueIds.mint ?_ hminted
        rcases hbase with rfl | rfl
        · exact textUniqueIds_empty
        · exact htexts _
    · intro row hrow op hop c k hid
      rw [docs.stableText]
      rw [staged, List.mem_append, List.mem_singleton] at hrow
      rcases hrow with hrow | rfl
      · exact h.stagedUpdate row hrow op hop c k hid
      · by_cases hold : op ∈ ops base
        · rcases hbase with rfl | rfl
          · rw [TextDoc.ops_emptyTextState] at hold
            exact absurd hold (Set.notMem_empty op)
          · exact .inr ((tracks_iff.mp htracks.docs).2 _ |>.1 hold)
        · exact .inl (hminted.fresh op (hupdate hop) hold c k hid).1
  | realign id priorNamespace stableNamespace priorText stableText staged target =>
    refine ⟨h.prior.subset fun x hx hown => ?_, ?_, ?_⟩
    · cases x with
      | ns op =>
        rw [ns_mem_priorOps, priorNamespace] at hx
        exact hx
      | text id' op =>
        rw [text_mem_priorOps, priorText] at hx
        by_cases hid : id = id'
        · subst hid
          rw [if_pos rfl] at hx
          exact htracks.docs.2 (.text id op) hx hown
        · rw [if_neg hid] at hx
          exact hx
    · rw [staged]
      exact h.staged
    · rw [staged, stableText]
      exact h.stagedUpdate
  | project active projecting priorNamespace stableNamespace priorText stableText staged target =>
    refine ⟨h.prior.subset fun x hx hown => ?_, ?_, ?_⟩
    · cases x with
      | ns op =>
        rw [ns_mem_priorOps, priorNamespace] at hx
        exact htracks.docs.2 (.ns op) ((htracks.targetNamespace active projecting).1 hx) hown
      | text id op =>
        rcases priorText id with hsame | ⟨action, haction, rfl, hdoc⟩
        · rw [text_mem_priorOps, hsame] at hx
          exact hx
        · have htarget := (htracks.targetTexts active projecting action haction _ hdoc).1
          exact htracks.docs.2 (.text _ op) (htarget hx) hown
    · rw [staged]
      exact nofun
    · rw [staged]
      exact nofun
  | @batch batch priorNamespace priorText stable staged active =>
    refine ⟨priorIds.mpr ?_, ?_, ?_⟩
    · rw [priorNamespace, priorText]
      exact ⟨hns, htexts⟩
    · rw [staged]
      exact h.staged
    · intro row hrow op hop c k hid
      rw [staged] at hrow
      rcases h.stagedUpdate row hrow op hop c k hid with hown | hmem
      · exact .inl hown
      · refine .inr ?_
        have hstable : SharedOp.text row.objectId op ∈ s'.db.stableOps := by
          rw [stable]
          exact .inl hmem
        exact hstable

/-- What a request that is no batch adds to the stable documents is own, or has no id. -/
theorem DocumentStep.own_of_new {request : SemanticRequest D} (hstep : DocumentStep s s' request)
    (hclient : clientIdForWriter s.db.writerId = client) (h : OwnIds client s)
    (hbatch : ∀ batch, request ≠ .applySharedMessageBatch batch) {x : SharedOp D}
    (hx : x ∈ s'.db.stableOps) {d : Option ObjectId} {c k : Nat} (hkey : x.key = some (d, c, k)) :
    x ∈ s.db.stableOps ∨ c = client := by
  cases hstep with
  | frame docs staged target => exact .inl (docs.stableOps ▸ hx)
  | plan docs staged target => exact .inl (docs.stableOps ▸ hx)
  | stage plan docs staged target => exact .inl (docs.stableOps ▸ hx)
  | batch => exact absurd rfl (hbatch _)
  | mint entries rows rows_staged docs staged target =>
    cases x with
    | ns op =>
      cases hkey
      rw [ns_mem_stableOps, docs.stableNamespace, hclient] at hx
      rcases Finset.mem_union.mp hx with hx | hx
      · exact .inl hx
      · exact .inr (NamespaceDoc.mem_mintedOps hx).1
    | text id op =>
      obtain ⟨n, hid, heq⟩ := Option.map_eq_some_iff.mp hkey
      cases heq
      rw [text_mem_stableOps] at hx
      rcases docs.texts id with ⟨row, hrow, rfl, -, hdoc⟩ | ⟨-, hdoc⟩
      · rw [hdoc] at hx
        rcases hx with hx | hx
        · exact .inl hx
        · exact (h.stagedUpdate row (rows_staged row hrow) op hx c k hid).symm
      · rw [hdoc] at hx
        exact .inl hx
  | realign id priorNamespace stableNamespace priorText stableText staged target =>
    refine .inl ?_
    cases x with
    | ns op =>
      rw [ns_mem_stableOps, stableNamespace] at hx
      exact hx
    | text id op =>
      rw [text_mem_stableOps, stableText] at hx
      exact hx
  | project active projecting priorNamespace stableNamespace priorText stableText staged target =>
    refine .inl ?_
    cases x with
    | ns op =>
      rw [ns_mem_stableOps, stableNamespace] at hx
      exact hx
    | text id op =>
      rw [text_mem_stableOps, stableText] at hx
      exact hx

/-- No operation leaves the stable documents. -/
theorem DocumentStep.stable_mono {request : SemanticRequest D} (hstep : DocumentStep s s' request) :
    s.db.stableOps ⊆ s'.db.stableOps := by
  intro x hx
  cases hstep with
  | frame docs staged target => exact docs.stableOps.ge hx
  | plan docs staged target => exact docs.stableOps.ge hx
  | stage plan docs staged target => exact docs.stableOps.ge hx
  | batch priorNamespace priorText stable staged active => exact stable.ge (.inl hx)
  | mint entries rows rows_staged docs staged target =>
    cases x with
    | ns op =>
      rw [ns_mem_stableOps, docs.stableNamespace]
      exact Finset.mem_union_left _ hx
    | text id op =>
      rw [text_mem_stableOps]
      rcases docs.texts id with ⟨row, -, -, -, hdoc⟩ | ⟨-, hdoc⟩
      · rw [hdoc]
        exact .inl hx
      · rw [hdoc]
        exact hx
  | realign id priorNamespace stableNamespace priorText stableText staged target =>
    cases x with
    | ns op =>
      rw [ns_mem_stableOps, stableNamespace]
      exact hx
    | text id op =>
      rw [text_mem_stableOps, stableText]
      exact hx
  | project active projecting priorNamespace stableNamespace priorText stableText staged target =>
    cases x with
    | ns op =>
      rw [ns_mem_stableOps, stableNamespace]
      exact hx
    | text id op =>
      rw [text_mem_stableOps, stableText]
      exact hx

omit [CharDiff] in
/-- A restart drops what is staged. -/
theorem OwnIds.restart (h : OwnIds client s) : OwnIds client (.start s.db) :=
  ⟨h.prior, nofun, nofun⟩

omit [CharDiff] in
/-- A new daemon has minted nothing. -/
theorem ownIds_start (client : Nat) (writer : DaemonWriterId) :
    OwnIds client (SemanticActor.start (Db.initialized D writer 0)) :=
  ⟨priorIds.mpr ⟨nofun, fun _ => textUniqueIds_empty⟩, nofun, nofun⟩

omit [CharDiff] in
/-- Own operations have different ids in the stable documents as well, since all of them are in the
prior ones. -/
theorem OwnIds.stable (h : OwnIds client s) (htracks : PriorTracks (SharedOp.Own client) s) :
    UniqueIds client s.db.stableOps :=
  h.prior.subset fun x hx hown => htracks.docs.2 x hx hown

omit [CharDiff] in
/-- The clocks of the client are the same in the prior and in the stable documents. -/
theorem PriorTracks.stateVector_eq (h : PriorTracks (SharedOp.Own client) s) :
    s.db.priorNamespace.stateVector client = s.db.stableNamespace.stateVector client ∧
      ∀ id, stateVector (s.db.priorText id) client = stateVector (s.db.stableText id) client := by
  obtain ⟨hns, htexts⟩ := tracks_iff.mp h.docs
  refine ⟨?_, fun id => TextDoc.stateVector_eq fun op k hid => ?_⟩
  · have hfilter : s.db.priorNamespace.filter (·.client = client) =
        s.db.stableNamespace.filter (·.client = client) := by
      ext op
      rw [Finset.mem_filter, Finset.mem_filter]
      refine and_congr_left fun hop => ?_
      exact hns.mem_iff (own_ns.mpr hop)
    rw [NamespaceDoc.stateVector, NamespaceDoc.stateVector, hfilter]
  · exact (htexts id).mem_iff (own_text.mpr ⟨k, hid⟩)

end Requests

end Opbox
