import Opbox.Semantic.Db

/-!
# Plans, actions and their results

The vocabulary of the semantic service (`semantic/types.rs`): an import epoch reads the files a
scan found changed, a projection epoch writes and deletes the files that differ from the stable
tree, and each action comes back with a result.
-/

namespace Opbox

variable {D : Type}

/-! ## Imports -/

/-- `ImportEpochKind`. -/
inductive ImportEpochKind where
  /-- The first import of a new workspace. -/
  | init
  /-- An import of a running daemon. -/
  | sync
  deriving DecidableEq, Repr

/-- `ImportActionId`. -/
structure ImportActionId where
  /-- The import epoch. -/
  epoch : Nat
  /-- The position in its plan. -/
  seq : Nat
  deriving DecidableEq, Repr

/-- `ImportActionKind`. -/
inductive ImportActionKind where
  | read (path : RelativePath) (expectedFingerprint : FileFingerprint)
  | stat (path : RelativePath)
  deriving DecidableEq

/-- `ImportAction`. -/
structure ImportAction where
  /-- Its name. -/
  id : ImportActionId
  /-- What to do. -/
  kind : ImportActionKind
  deriving DecidableEq

/-- `ImportEpochStarted`, with the actions of its plan. -/
structure ImportEpochStarted where
  /-- The epoch. -/
  epoch : Nat
  /-- The plan. -/
  actions : List ImportAction
  deriving DecidableEq

/-- `ImportReadOutcome`.  Of an error it matters whether it is a denied permission. -/
inductive ImportReadOutcome where
  | completed (result : GuardedReadResult)
  | failed (permissionDenied : Bool) (error : String)
  deriving DecidableEq

/-- `ImportActionResult`. -/
inductive ImportActionResult where
  | read (actionId : ImportActionId) (outcome : ImportReadOutcome)
  | stat (actionId : ImportActionId)
  deriving DecidableEq

/-- The action a result belongs to. -/
def ImportActionResult.actionId : ImportActionResult → ImportActionId
  | read actionId _ => actionId
  | stat actionId => actionId

/-- `ImportActionContext`: what the actor knows of an action when its result arrives. -/
structure ImportActionContext where
  /-- The kind of the epoch. -/
  epochKind : ImportEpochKind
  /-- The action. -/
  actionKind : ImportActionKind
  deriving DecidableEq

/-- `CompletedImportEpoch`, with its actions in order. -/
structure CompletedImportEpoch where
  /-- The epoch. -/
  epoch : Nat
  /-- Its kind. -/
  kind : ImportEpochKind
  /-- The actions, all completed. -/
  actions : List ImportAction
  deriving DecidableEq

/-! ## Projections -/

/-- `ProjectionActionId`. -/
structure ProjectionActionId where
  /-- The projection epoch. -/
  epoch : Nat
  /-- The position in its plan. -/
  seq : Nat
  deriving DecidableEq, Repr

/-- `ProjectionActionKind`. -/
inductive ProjectionActionKind where
  | writeFile (path : RelativePath) (bytes : Bytes) (expectedBefore : ExpectedBefore)
  | deleteFile (path : RelativePath) (expectedBefore : ExpectedBefore)
  deriving DecidableEq

/-- The path an action works on. -/
def ProjectionActionKind.path : ProjectionActionKind → RelativePath
  | writeFile path _ _ => path
  | deleteFile path _ => path

/-- `ProjectionActionCommitContext`. -/
structure ProjectionActionCommitContext (D : Type) where
  /-- The disk path. -/
  path : RelativePath
  /-- The path the claim asks for. -/
  claimedPath : RelativePath
  /-- The claim. -/
  claimId : NamespaceClaimId
  /-- The object. -/
  objectId : ObjectId
  /-- The document whose text is written. -/
  targetTextDocBlob : Option D
  deriving DecidableEq

/-- `ProjectionAction`. -/
structure ProjectionAction (D : Type) where
  /-- Its name. -/
  id : ProjectionActionId
  /-- What to do. -/
  kind : ProjectionActionKind
  /-- What a success is committed with. -/
  commitContext : ProjectionActionCommitContext D
  deriving DecidableEq

/-- `ProjectionEpochStarted`, with the actions of its plan. -/
structure ProjectionEpochStarted (D : Type) where
  /-- The epoch. -/
  epoch : Nat
  /-- The projection generation: the stable cursor of the plan. -/
  generation : SequenceNumber
  /-- The stable namespace of the plan. -/
  targetNamespaceDocBlob : NamespaceDoc
  /-- The plan. -/
  actions : List (ProjectionAction D)

/-- `ProjectionActionResult`. -/
inductive ProjectionActionResult where
  | writeFile (actionId : ProjectionActionId) (result : GuardedWriteResult)
  | deleteFile (actionId : ProjectionActionId) (result : GuardedDeleteResult)
  | failed (actionId : ProjectionActionId) (error : String)
  deriving DecidableEq

namespace ProjectionActionResult

/-- The action a result belongs to. -/
def actionId : ProjectionActionResult → ProjectionActionId
  | writeFile actionId _ => actionId
  | deleteFile actionId _ => actionId
  | failed actionId _ => actionId

/-- `invalidates_projection`: the action did not reach its target. -/
def invalidatesProjection : ProjectionActionResult → Bool
  | writeFile _ (.written _) => false
  | writeFile _ (.alreadyApplied _) => false
  | deleteFile _ .deleted => false
  | deleteFile _ .alreadyDeleted => false
  | _ => true

end ProjectionActionResult

/-- `ProjectionEpochEndReason`. -/
inductive ProjectionEpochEndReason where
  | planExhausted
  | actionInvalidatedProjection (actionId : ProjectionActionId)
  deriving DecidableEq, Repr

/-- `CompletedProjectionAction`. -/
structure CompletedProjectionAction (D : Type) where
  /-- The action. -/
  actionId : ProjectionActionId
  /-- What a success is committed with. -/
  commitContext : ProjectionActionCommitContext D
  /-- What happened. -/
  result : ProjectionActionResult
  deriving DecidableEq

/-- `CompletedProjectionEpoch`. -/
structure CompletedProjectionEpoch (D : Type) where
  /-- The epoch. -/
  epoch : Nat
  /-- The projection generation. -/
  generation : SequenceNumber
  /-- The stable namespace of the plan. -/
  targetNamespaceDocBlob : NamespaceDoc
  /-- The actions that came to a result. -/
  actions : List (CompletedProjectionAction D)

/-! ## Work -/

/-- `NextWork`. -/
inductive NextWork (D : Type) where
  | none
  | importEpoch (started : ImportEpochStarted)
  | project (started : ProjectionEpochStarted D)

/-- `SemanticEffects`: what the engine is told after a transaction. -/
structure SemanticEffects where
  /-- The new projection generation. -/
  projectionChanged : Option SequenceNumber
  /-- How many messages entered the outbox. -/
  outboxReady : Option Nat
  deriving DecidableEq, Repr

/-- `nonzero_u64`. -/
def nonzeroU64 (value : Nat) : Option Nat := if value = 0 then none else some value

end Opbox
