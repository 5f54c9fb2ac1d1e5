import Opbox.Semantic.Batch

/-!
# The semantic actor

The actor owns the local database and serves one request at a time (`semantic/actor.rs`).  Between
requests it keeps the epoch that is active: an import epoch with the actions it expects and the
results that have come in, or a projection epoch likewise.  A request that fails, or that does not
fit the active epoch, stops the daemon, so it is not a step; a restart forgets the active epoch.
-/

namespace Opbox

variable {D : Type}

/-- `ActiveImportEpoch`. -/
structure ActiveImportEpoch where
  /-- The epoch. -/
  epoch : Nat
  /-- Its kind. -/
  kind : ImportEpochKind
  /-- The actions of the plan. -/
  expected : List ImportAction
  /-- The actions whose results are committed. -/
  completed : List ImportActionId
  deriving DecidableEq

/-- `ActiveProjectionEpoch`. -/
structure ActiveProjectionEpoch (D : Type) where
  /-- The epoch as it was planned. -/
  started : ProjectionEpochStarted D
  /-- The results that are committed. -/
  completed : List ProjectionActionResult

/-- The epoch the actor is in.  The engine starts an epoch only when the last one has ended. -/
inductive ActiveEpoch (D : Type) where
  | idle
  | importing (active : ActiveImportEpoch)
  | projecting (active : ActiveProjectionEpoch D)

/-- The active import epoch. -/
def ActiveEpoch.importing? : ActiveEpoch D → Option ActiveImportEpoch
  | importing active => some active
  | _ => none

theorem ActiveEpoch.importing?_eq_some_iff {active : ActiveEpoch D} {epoch : ActiveImportEpoch} :
    active.importing? = some epoch ↔ active = .importing epoch := by
  cases active <;> simp [ActiveEpoch.importing?]

/-- The active projection epoch. -/
def ActiveEpoch.projecting? : ActiveEpoch D → Option (ActiveProjectionEpoch D)
  | projecting active => some active
  | _ => none

theorem ActiveEpoch.projecting?_eq_some_iff {active : ActiveEpoch D}
    {epoch : ActiveProjectionEpoch D} :
    active.projecting? = some epoch ↔ active = .projecting epoch := by
  cases active <;> simp [ActiveEpoch.projecting?]

/-- The actor: the database and `SemanticRuntimeState`. -/
structure SemanticActor (D : Type) where
  /-- The local database. -/
  db : Db D
  /-- The next import epoch. -/
  nextImportEpoch : Nat
  /-- The next projection epoch. -/
  nextProjectionEpoch : Nat
  /-- The active epoch. -/
  active : ActiveEpoch D

/-- `SemanticRequest`, with the time it is served at and the identifiers it generates. -/
inductive SemanticRequest (D : Type) where
  | applyInitScan (scan : ScanResult)
  | applyScan (scan : ScanResult) (now : Timestamp)
  | commitImportAction (result : ImportActionResult) (now : Timestamp) (objectId : ObjectId)
      (claimId : NamespaceClaimId)
  | commitImportEpoch (now : Timestamp)
  | getNextWork
  | commitProjectionAction (result : ProjectionActionResult)
  | commitProjectionEpoch (reason : ProjectionEpochEndReason) (now : Timestamp)
  | applySharedMessageBatch (batch : SharedMessageBatch (SharedMessage D))
  | readOutbox (limit : Nat)
  | releaseOutbox
  | trimOutbox (through : OutboxId)

/-- `install_import_epoch`. -/
def ActiveEpoch.install (kind : ImportEpochKind) (started : ImportEpochStarted) : ActiveEpoch D :=
  .importing ⟨started.epoch, kind, started.actions, []⟩

/-- The active epoch after a scan or at a boundary. -/
def ActiveEpoch.ofNextWork : NextWork D → ActiveEpoch D
  | .none => .idle
  | .importEpoch started => .install .sync started
  | .project started => .projecting ⟨started, []⟩

/-- `validate_import_action`: the context of an expected action without a result. -/
def ActiveImportEpoch.context (active : ActiveImportEpoch) (result : ImportActionResult) :
    Option ImportActionContext :=
  if result.actionId ∈ active.completed then none
  else (active.expected.find? fun action => action.id = result.actionId).map fun action =>
    ⟨active.kind, action.kind⟩

/-- `import_epoch_complete`. -/
def ActiveImportEpoch.complete (active : ActiveImportEpoch) : Bool :=
  decide (active.completed.length = active.expected.length)

/-- `finish_import_epoch`. -/
def ActiveImportEpoch.finish (active : ActiveImportEpoch) : CompletedImportEpoch :=
  ⟨active.epoch, active.kind, active.expected⟩

/-- `validate_projection_action`: the commit context of an expected action without a result. -/
def ActiveProjectionEpoch.context (active : ActiveProjectionEpoch D)
    (result : ProjectionActionResult) : Option (ProjectionActionCommitContext D) :=
  if result.actionId ∈ active.completed.map ProjectionActionResult.actionId then none
  else (active.started.actions.find? fun action => action.id = result.actionId).map
    ProjectionAction.commitContext

/-- `projection_epoch_complete`. -/
def ActiveProjectionEpoch.complete (active : ActiveProjectionEpoch D) : Bool :=
  decide (active.completed.length = active.started.actions.length)

/-- `finish_projection_epoch`: the actions with their results, in the order of the plan. -/
def ActiveProjectionEpoch.finish (active : ActiveProjectionEpoch D) : CompletedProjectionEpoch D :=
  ⟨active.started.epoch, active.started.generation, active.started.targetNamespaceDocBlob,
    active.started.actions.filterMap fun action =>
      (active.completed.find? fun result => result.actionId = action.id).map fun result =>
        ⟨action.id, action.commitContext, result⟩⟩

namespace SemanticActor

/-- The actor of a daemon that starts on a database. -/
def start (db : Db D) : SemanticActor D := ⟨db.clearStartupScratchTables, 0, 0, .idle⟩

/-- The transaction of an outbox operation. -/
def outboxTx (f : Outbox (SharedMessage D) →
    Except SemanticTransactionError (Outbox (SharedMessage D))) : Tx D PUnit := do
  let db ← get
  let outbox ← f db.outbox
  set { db with outbox := outbox }

/-- Serve a request that only touches the database. -/
def serve {α : Type} (s : SemanticActor D) (m : Tx D α) : Option (SemanticActor D) :=
  (attempt m s.db).map fun r => { s with db := r.2 }

variable [TextCrdt D] [CharDiff] [Xxh3] [DecidableEq D]

/-- Serve a request. -/
def step (s : SemanticActor D) : SemanticRequest D → Option (SemanticActor D)
  | .applyInitScan scan =>
    match s.active with
    | .idle => (attempt (Opbox.applyInitScan scan s.nextImportEpoch) s.db).map fun r =>
        ⟨r.2, s.nextImportEpoch + 1, s.nextProjectionEpoch, .install .init r.1⟩
    | _ => none
  | .applyScan scan now =>
    match s.active with
    | .idle => (attempt (Opbox.applyScan scan s.nextImportEpoch now) s.db).map fun r =>
        ⟨r.2, s.nextImportEpoch + 1, s.nextProjectionEpoch, .ofNextWork r.1.nextWork⟩
    | _ => none
  | .commitImportAction result now objectId claimId =>
    match s.active with
    | .importing active =>
      (active.context result).bind fun context =>
        (attempt (Opbox.commitImportAction context result now objectId claimId) s.db).map fun r =>
          { s with
            db := r.2
            active := .importing { active with completed := r.1 :: active.completed } }
    | _ => none
  | .commitImportEpoch now =>
    match s.active with
    | .importing active =>
      if active.complete then
        (attempt (Opbox.commitImportEpoch active.finish now) s.db).map fun r =>
          { s with db := r.2, active := .idle }
      else none
    | _ => none
  | .getNextWork =>
    match s.active with
    | .idle => (attempt (getNextWorkTx s.nextProjectionEpoch) s.db).map fun r =>
        ⟨r.2, s.nextImportEpoch, s.nextProjectionEpoch + 1, .ofNextWork r.1⟩
    | _ => none
  | .commitProjectionAction result =>
    match s.active with
    | .projecting active =>
      (active.context result).bind fun context =>
        (attempt (Opbox.commitProjectionAction context result) s.db).map fun r =>
          { s with
            db := r.2
            active := .projecting { active with completed := result :: active.completed } }
    | _ => none
  | .commitProjectionEpoch reason now =>
    match s.active with
    | .projecting active =>
      if reason = .planExhausted ∧ active.complete = false then none
      else
        (attempt (commitProjectionEpochTx active.finish reason now) s.db).map fun r =>
          { s with db := r.2, active := .idle }
    | _ => none
  | .applySharedMessageBatch batch => s.serve (applySharedMessageBatchTx batch)
  | .readOutbox limit => s.serve (outboxTx fun o => (o.reserveOutboxMessages limit).map Prod.fst)
  | .releaseOutbox => s.serve (outboxTx fun o => .ok o.releaseOutboxMessages.1)
  | .trimOutbox through => s.serve (outboxTx fun o => o.trimOutboxTx through)

end SemanticActor

/-! ## What a served request does -/

section Spec

variable {s s' : SemanticActor D}

theorem serve_eq_some_iff {α : Type} {m : Tx D α} :
    s.serve m = some s' ↔ ∃ a db, Runs m s.db a db ∧ s' = { s with db := db } := by
  rw [SemanticActor.serve, Option.map_eq_some_iff]
  constructor
  · rintro ⟨⟨a, db⟩, hrun, rfl⟩
    exact ⟨a, db, attempt_eq_some_iff.mp hrun, rfl⟩
  · rintro ⟨a, db, hrun, rfl⟩
    exact ⟨⟨a, db⟩, attempt_eq_some_iff.mpr hrun, rfl⟩

theorem runs_outboxTx {db db' : Db D} {u : PUnit}
    {f : Outbox (SharedMessage D) → Except SemanticTransactionError (Outbox (SharedMessage D))}
    (h : Runs (SemanticActor.outboxTx f) db u db') :
    ∃ outbox, f db.outbox = .ok outbox ∧ db' = { db with outbox := outbox } := by
  simp only [SemanticActor.outboxTx, Runs.bind_iff, Runs.get_iff, Runs.liftExcept_iff,
    runs_set_iff] at h
  obtain ⟨db, _, ⟨rfl, rfl⟩, outbox, _, ⟨houtbox, rfl⟩, rfl⟩ := h
  exact ⟨outbox, houtbox, rfl⟩

variable [TextCrdt D] [CharDiff] [Xxh3] [DecidableEq D]

/-- What a request does, told by the transaction that serves it and the epochs around it. -/
inductive Served (s : SemanticActor D) : SemanticRequest D → SemanticActor D → Prop
  | applyInitScan {scan : ScanResult} {started : ImportEpochStarted} {db : Db D}
      (hidle : s.active = .idle)
      (hrun : Runs (applyInitScan scan s.nextImportEpoch) s.db started db) :
      Served s (.applyInitScan scan)
        ⟨db, s.nextImportEpoch + 1, s.nextProjectionEpoch, .install .init started⟩
  | applyScan {scan : ScanResult} {now : Timestamp} {output : ApplyScanOutput D} {db : Db D}
      (hidle : s.active = .idle)
      (hrun : Runs (applyScan scan s.nextImportEpoch now) s.db output db) :
      Served s (.applyScan scan now)
        ⟨db, s.nextImportEpoch + 1, s.nextProjectionEpoch, .ofNextWork output.nextWork⟩
  | commitImportAction {result : ImportActionResult} {now : Timestamp} {objectId : ObjectId}
      {claimId : NamespaceClaimId} {active : ActiveImportEpoch} {context : ImportActionContext}
      {id : ImportActionId} {db : Db D} (hactive : s.active = .importing active)
      (hcontext : active.context result = some context)
      (hrun : Runs (commitImportAction context result now objectId claimId) s.db id db) :
      Served s (.commitImportAction result now objectId claimId)
        { s with db := db, active := .importing { active with completed := id :: active.completed } }
  | commitImportEpoch {now : Timestamp} {active : ActiveImportEpoch} {effects : SemanticEffects}
      {db : Db D} (hactive : s.active = .importing active) (hcomplete : active.complete = true)
      (hrun : Runs (commitImportEpoch active.finish now) s.db effects db) :
      Served s (.commitImportEpoch now) { s with db := db, active := .idle }
  | getNextWork {work : NextWork D} {db : Db D} (hidle : s.active = .idle)
      (hrun : Runs (getNextWorkTx s.nextProjectionEpoch) s.db work db) :
      Served s .getNextWork
        ⟨db, s.nextImportEpoch, s.nextProjectionEpoch + 1, .ofNextWork work⟩
  | commitProjectionAction {result : ProjectionActionResult} {active : ActiveProjectionEpoch D}
      {context : ProjectionActionCommitContext D} {u : PUnit} {db : Db D}
      (hactive : s.active = .projecting active) (hcontext : active.context result = some context)
      (hrun : Runs (commitProjectionAction context result) s.db u db) :
      Served s (.commitProjectionAction result)
        { s with
          db := db
          active := .projecting { active with completed := result :: active.completed } }
  | commitProjectionEpoch {reason : ProjectionEpochEndReason} {now : Timestamp}
      {active : ActiveProjectionEpoch D} {u : PUnit} {db : Db D}
      (hactive : s.active = .projecting active)
      (hcomplete : reason = .planExhausted → active.complete = true)
      (hrun : Runs (commitProjectionEpochTx active.finish reason now) s.db u db) :
      Served s (.commitProjectionEpoch reason now) { s with db := db, active := .idle }
  | applySharedMessageBatch {batch : SharedMessageBatch (SharedMessage D)} {effects : SemanticEffects}
      {db : Db D} (hrun : Runs (applySharedMessageBatchTx batch) s.db effects db) :
      Served s (.applySharedMessageBatch batch) { s with db := db }
  | readOutbox {limit : Nat} {outbox : Outbox (SharedMessage D)}
      {messages : List (OutboxId × SharedMessage D)}
      (hread : s.db.outbox.reserveOutboxMessages limit = .ok (outbox, messages)) :
      Served s (.readOutbox limit) { s with db := { s.db with outbox := outbox } }
  | releaseOutbox :
      Served s .releaseOutbox
        { s with db := { s.db with outbox := s.db.outbox.releaseOutboxMessages.1 } }
  | trimOutbox {through : OutboxId} (hbound : through ≤ i64Max) :
      Served s (.trimOutbox through)
        { s with db := { s.db with outbox := s.db.outbox.trimOutbox through } }

/-- Every step of the actor serves its request. -/
theorem served_of_step {request : SemanticRequest D} (h : s.step request = some s') :
    Served s request s' := by
  cases request with
  | applyInitScan scan =>
    unfold SemanticActor.step at h
    dsimp only at h
    split at h
    next hidle =>
      obtain ⟨⟨started, db⟩, hrun, rfl⟩ := Option.map_eq_some_iff.mp h
      exact .applyInitScan hidle (attempt_eq_some_iff.mp hrun)
    · cases h
  | applyScan scan now =>
    unfold SemanticActor.step at h
    dsimp only at h
    split at h
    next hidle =>
      obtain ⟨⟨output, db⟩, hrun, rfl⟩ := Option.map_eq_some_iff.mp h
      exact .applyScan hidle (attempt_eq_some_iff.mp hrun)
    · cases h
  | commitImportAction result now objectId claimId =>
    unfold SemanticActor.step at h
    dsimp only at h
    split at h
    next active hactive =>
      obtain ⟨context, hcontext, h⟩ := Option.bind_eq_some_iff.mp h
      obtain ⟨⟨id, db⟩, hrun, rfl⟩ := Option.map_eq_some_iff.mp h
      exact .commitImportAction hactive hcontext (attempt_eq_some_iff.mp hrun)
    · cases h
  | commitImportEpoch now =>
    unfold SemanticActor.step at h
    dsimp only at h
    split at h
    next active hactive =>
      split_ifs at h with hcomplete
      obtain ⟨⟨effects, db⟩, hrun, rfl⟩ := Option.map_eq_some_iff.mp h
      exact .commitImportEpoch hactive hcomplete (attempt_eq_some_iff.mp hrun)
    · cases h
  | getNextWork =>
    unfold SemanticActor.step at h
    dsimp only at h
    split at h
    next hidle =>
      obtain ⟨⟨work, db⟩, hrun, rfl⟩ := Option.map_eq_some_iff.mp h
      exact .getNextWork hidle (attempt_eq_some_iff.mp hrun)
    · cases h
  | commitProjectionAction result =>
    unfold SemanticActor.step at h
    dsimp only at h
    split at h
    next active hactive =>
      obtain ⟨context, hcontext, h⟩ := Option.bind_eq_some_iff.mp h
      obtain ⟨⟨u, db⟩, hrun, rfl⟩ := Option.map_eq_some_iff.mp h
      exact .commitProjectionAction hactive hcontext (attempt_eq_some_iff.mp hrun)
    · cases h
  | commitProjectionEpoch reason now =>
    unfold SemanticActor.step at h
    dsimp only at h
    split at h
    next active hactive =>
      split_ifs at h with hincomplete
      obtain ⟨⟨u, db⟩, hrun, rfl⟩ := Option.map_eq_some_iff.mp h
      refine .commitProjectionEpoch hactive (fun hreason => ?_) (attempt_eq_some_iff.mp hrun)
      by_contra hfalse
      exact hincomplete ⟨hreason, by simpa using hfalse⟩
    · cases h
  | applySharedMessageBatch batch =>
    obtain ⟨effects, db, hrun, rfl⟩ := serve_eq_some_iff.mp h
    exact .applySharedMessageBatch hrun
  | readOutbox limit =>
    obtain ⟨u, db, hrun, rfl⟩ := serve_eq_some_iff.mp h
    obtain ⟨outbox, hread, rfl⟩ := runs_outboxTx hrun
    cases hreserve : s.db.outbox.reserveOutboxMessages limit with
    | error e => rw [hreserve] at hread; cases hread
    | ok r =>
      rw [hreserve] at hread
      cases hread
      exact .readOutbox hreserve
  | releaseOutbox =>
    obtain ⟨u, db, hrun, rfl⟩ := serve_eq_some_iff.mp h
    obtain ⟨outbox, hrelease, rfl⟩ := runs_outboxTx hrun
    cases hrelease
    exact .releaseOutbox
  | trimOutbox through =>
    obtain ⟨u, db, hrun, rfl⟩ := serve_eq_some_iff.mp h
    obtain ⟨outbox, htrim, rfl⟩ := runs_outboxTx hrun
    obtain ⟨hbound, rfl⟩ := Outbox.trimOutboxTx_eq_ok.mp htrim
    exact .trimOutbox hbound

end Spec

end Opbox
