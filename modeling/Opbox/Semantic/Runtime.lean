import Opbox.Semantic.Batch
import Opbox.Semantic.Actor

/-!
# The epochs of the semantic actor

`SemanticRuntimeState` (`semantic/actor.rs`): the counters of the epochs and the active epochs with
the actions they expect and the results that have come in.  Its functions check what they are asked
for and panic on a request that does not fit; here a panic is an error that says which check failed.
-/

namespace Opbox

variable {D : Type}

/-- The two kinds of epochs. -/
inductive EpochFamily where
  | importing
  | projecting
  deriving DecidableEq, Repr

/-- The check that failed. -/
inductive EpochPanic where
  /-- `cannot reserve … epoch while … epoch … is active`. -/
  | reservedWhileActive (active : Nat)
  /-- `cannot install … epoch … while … epoch … is active`. -/
  | installedWhileActive (started active : Nat)
  /-- `… action … does not belong to … epoch …`. -/
  | foreignAction (epoch : Nat)
  /-- `duplicate … action id in plan`. -/
  | duplicateInPlan
  /-- `… with no active … epoch`, `no … is active`. -/
  | noActiveEpoch
  /-- `… for epoch …, but active epoch is …`. -/
  | wrongEpoch (requested active : Nat)
  /-- `unexpected … action requested` or `committed`. -/
  | unexpectedAction
  /-- `duplicate … action requested`, `duplicate … action commit`. -/
  | duplicateAction
  /-- `cannot commit … epoch …; missing actions`. -/
  | missingActions
  /-- `completed … action missing after completeness check`. -/
  | missingAfterCheck
  /-- `duplicate deferred … epoch commit request`. -/
  | duplicateDeferredCommit
  deriving DecidableEq, Repr

/-- A panic of the actor. -/
structure RuntimePanic where
  /-- The kind of epoch. -/
  family : EpochFamily
  /-- The check. -/
  cause : EpochPanic
  deriving DecidableEq, Repr

/-- `SemanticRuntimeState`. -/
structure SemanticRuntimeState (D : Type) where
  /-- The next import epoch. -/
  nextImportEpoch : Nat
  /-- The next projection epoch. -/
  nextProjectionEpoch : Nat
  /-- The active import. -/
  activeImport : Option ActiveImportEpoch
  /-- The active projection. -/
  activeProjection : Option (ActiveProjectionEpoch D)

namespace SemanticRuntimeState

/-- `SemanticRuntimeState::default`. -/
def default : SemanticRuntimeState D := ⟨0, 0, none, none⟩

/-! ## Imports -/

/-- `reserve_import_epoch`. -/
def reserveImportEpoch (rt : SemanticRuntimeState D) :
    Except RuntimePanic (Nat × SemanticRuntimeState D) :=
  match rt.activeImport with
  | some active => .error ⟨.importing, .reservedWhileActive active.epoch⟩
  | none => .ok (rt.nextImportEpoch, { rt with nextImportEpoch := rt.nextImportEpoch + 1 })

/-- `install_import_epoch`. -/
def installImportEpoch (rt : SemanticRuntimeState D) (started : ImportEpochStarted)
    (kind : ImportEpochKind) : Except RuntimePanic (SemanticRuntimeState D) :=
  match rt.activeImport with
  | some active => .error ⟨.importing, .installedWhileActive started.epoch active.epoch⟩
  | none => do
    require (∀ action ∈ started.actions, action.id.epoch = started.epoch)
      ⟨.importing, .foreignAction started.epoch⟩
    require (started.actions.map ImportAction.id).Nodup ⟨.importing, .duplicateInPlan⟩
    pure { rt with activeImport := some ⟨started.epoch, kind, started.actions, []⟩ }

/-- `validate_import_action`. -/
def validateImportAction (rt : SemanticRuntimeState D) (result : ImportActionResult) :
    Except RuntimePanic ImportActionContext :=
  match rt.activeImport with
  | none => .error ⟨.importing, .noActiveEpoch⟩
  | some active => do
    require (result.actionId.epoch = active.epoch)
      ⟨.importing, .wrongEpoch result.actionId.epoch active.epoch⟩
    require (result.actionId ∈ active.expected.map ImportAction.id) ⟨.importing, .unexpectedAction⟩
    require (result.actionId ∉ active.completed) ⟨.importing, .duplicateAction⟩
    match active.context result with
    | some context => pure context
    | none => .error ⟨.importing, .unexpectedAction⟩

/-- `finish_import_action`. -/
def finishImportAction (rt : SemanticRuntimeState D) (id : ImportActionId) :
    Except RuntimePanic (SemanticRuntimeState D) :=
  match rt.activeImport with
  | none => .error ⟨.importing, .noActiveEpoch⟩
  | some active => do
    require (id.epoch = active.epoch) ⟨.importing, .wrongEpoch id.epoch active.epoch⟩
    require (id ∈ active.expected.map ImportAction.id) ⟨.importing, .unexpectedAction⟩
    require (id ∉ active.completed) ⟨.importing, .duplicateAction⟩
    pure { rt with activeImport := some { active with completed := id :: active.completed } }

/-- `validate_import_epoch_commit`. -/
def validateImportEpochCommit (rt : SemanticRuntimeState D) (epoch : Nat) :
    Except RuntimePanic ActiveImportEpoch :=
  match rt.activeImport with
  | none => .error ⟨.importing, .noActiveEpoch⟩
  | some active => do
    require (active.epoch = epoch) ⟨.importing, .wrongEpoch epoch active.epoch⟩
    pure active

/-- `import_epoch_complete`. -/
def importEpochComplete (rt : SemanticRuntimeState D) (epoch : Nat) : Except RuntimePanic Bool := do
  let active ← rt.validateImportEpochCommit epoch
  pure active.complete

/-- `finish_import_epoch`. -/
def finishImportEpoch (rt : SemanticRuntimeState D) (epoch : Nat) :
    Except RuntimePanic (CompletedImportEpoch × SemanticRuntimeState D) := do
  let active ← rt.validateImportEpochCommit epoch
  require (active.complete = true) ⟨.importing, .missingActions⟩
  require (∀ action ∈ active.expected, action.id ∈ active.completed)
    ⟨.importing, .missingAfterCheck⟩
  pure (active.finish, { rt with activeImport := none })

/-! ## Projections -/

/-- `reserve_projection_epoch`. -/
def reserveProjectionEpoch (rt : SemanticRuntimeState D) :
    Except RuntimePanic (Nat × SemanticRuntimeState D) :=
  match rt.activeProjection with
  | some active => .error ⟨.projecting, .reservedWhileActive active.started.epoch⟩
  | none =>
    .ok (rt.nextProjectionEpoch, { rt with nextProjectionEpoch := rt.nextProjectionEpoch + 1 })

/-- `install_projection_epoch`. -/
def installProjectionEpoch (rt : SemanticRuntimeState D) (started : ProjectionEpochStarted D) :
    Except RuntimePanic (SemanticRuntimeState D) :=
  match rt.activeProjection with
  | some active => .error ⟨.projecting, .installedWhileActive started.epoch active.started.epoch⟩
  | none => do
    require (∀ action ∈ started.actions, action.id.epoch = started.epoch)
      ⟨.projecting, .foreignAction started.epoch⟩
    require (started.actions.map ProjectionAction.id).Nodup ⟨.projecting, .duplicateInPlan⟩
    pure { rt with activeProjection := some ⟨started, []⟩ }

/-- `validate_projection_action`. -/
def validateProjectionAction (rt : SemanticRuntimeState D) (result : ProjectionActionResult) :
    Except RuntimePanic (ProjectionActionCommitContext D) :=
  match rt.activeProjection with
  | none => .error ⟨.projecting, .noActiveEpoch⟩
  | some active => do
    require (result.actionId.epoch = active.started.epoch)
      ⟨.projecting, .wrongEpoch result.actionId.epoch active.started.epoch⟩
    require (result.actionId ∈ active.started.actions.map ProjectionAction.id)
      ⟨.projecting, .unexpectedAction⟩
    require (result.actionId ∉ active.completed.map ProjectionActionResult.actionId)
      ⟨.projecting, .duplicateAction⟩
    match active.context result with
    | some context => pure context
    | none => .error ⟨.projecting, .unexpectedAction⟩

/-- `finish_projection_action`. -/
def finishProjectionAction (rt : SemanticRuntimeState D) (result : ProjectionActionResult) :
    Except RuntimePanic (SemanticRuntimeState D) :=
  match rt.activeProjection with
  | none => .error ⟨.projecting, .noActiveEpoch⟩
  | some active => do
    require (result.actionId.epoch = active.started.epoch)
      ⟨.projecting, .wrongEpoch result.actionId.epoch active.started.epoch⟩
    require (result.actionId ∈ active.started.actions.map ProjectionAction.id)
      ⟨.projecting, .unexpectedAction⟩
    require (result.actionId ∉ active.completed.map ProjectionActionResult.actionId)
      ⟨.projecting, .duplicateAction⟩
    pure { rt with
      activeProjection := some { active with completed := result :: active.completed } }

/-- `validate_projection_epoch_commit`. -/
def validateProjectionEpochCommit (rt : SemanticRuntimeState D) (epoch : Nat) :
    Except RuntimePanic (ActiveProjectionEpoch D) :=
  match rt.activeProjection with
  | none => .error ⟨.projecting, .noActiveEpoch⟩
  | some active => do
    require (active.started.epoch = epoch) ⟨.projecting, .wrongEpoch epoch active.started.epoch⟩
    pure active

/-- `projection_epoch_complete`. -/
def projectionEpochComplete (rt : SemanticRuntimeState D) (epoch : Nat) :
    Except RuntimePanic Bool := do
  let active ← rt.validateProjectionEpochCommit epoch
  pure active.complete

/-- `finish_projection_epoch`: only an exhausted plan must be complete. -/
def finishProjectionEpoch (rt : SemanticRuntimeState D) (epoch : Nat)
    (reason : ProjectionEpochEndReason) :
    Except RuntimePanic (CompletedProjectionEpoch D × SemanticRuntimeState D) := do
  let active ← rt.validateProjectionEpochCommit epoch
  require (reason = .planExhausted → active.complete = true) ⟨.projecting, .missingActions⟩
  require (reason = .planExhausted → ∀ action ∈ active.started.actions,
    action.id ∈ active.completed.map ProjectionActionResult.actionId)
    ⟨.projecting, .missingAfterCheck⟩
  pure (active.finish, { rt with activeProjection := none })

end SemanticRuntimeState

/-! ## Plans are numbered -/

/-- A plan numbers its actions in its epoch. -/
def ImportEpochStarted.Numbered (started : ImportEpochStarted) : Prop :=
  started.actions.map ImportAction.id =
    (List.range started.actions.length).map fun seq => ⟨started.epoch, seq⟩

/-- A plan numbers its actions in its epoch. -/
def ProjectionEpochStarted.Numbered (started : ProjectionEpochStarted D) : Prop :=
  started.actions.map ProjectionAction.id =
    (List.range started.actions.length).map fun seq => ⟨started.epoch, seq⟩

namespace ImportEpochStarted.Numbered

variable {started : ImportEpochStarted}

theorem epoch_eq (h : started.Numbered) {action : ImportAction} (ha : action ∈ started.actions) :
    action.id.epoch = started.epoch := by
  have hid := List.mem_map_of_mem (f := ImportAction.id) ha
  rw [h, List.mem_map] at hid
  obtain ⟨seq, -, hseq⟩ := hid
  rw [← hseq]

theorem nodup (h : started.Numbered) : (started.actions.map ImportAction.id).Nodup := by
  rw [h]
  exact List.nodup_range.map fun seq seq' heq => congrArg ImportActionId.seq heq

end ImportEpochStarted.Numbered

namespace ProjectionEpochStarted.Numbered

variable {started : ProjectionEpochStarted D}

theorem epoch_eq (h : started.Numbered) {action : ProjectionAction D}
    (ha : action ∈ started.actions) : action.id.epoch = started.epoch := by
  have hid := List.mem_map_of_mem (f := ProjectionAction.id) ha
  rw [h, List.mem_map] at hid
  obtain ⟨seq, -, hseq⟩ := hid
  rw [← hseq]

theorem nodup (h : started.Numbered) : (started.actions.map ProjectionAction.id).Nodup := by
  rw [h]
  exact List.nodup_range.map fun seq seq' heq => congrArg ProjectionActionId.seq heq

end ProjectionEpochStarted.Numbered

/-- Numbering the elements of a list. -/
theorem map_zipIdx_snd {α β : Type} (f : Nat → β) (xs : List α) :
    (xs.zipIdx.map fun x => f x.2) = (List.range xs.length).map f := by
  have hsnd : xs.zipIdx.map Prod.snd = List.range xs.length := by
    rw [List.zipIdx_map_snd, List.range_eq_range']
  rw [← hsnd, List.map_map]
  rfl

/-- The read actions of an epoch are numbered. -/
theorem numbered_readActions (epoch : Nat) (files : List ObservedFile) :
    ImportEpochStarted.Numbered ⟨epoch, readActions epoch files⟩ := by
  have hlength : (readActions epoch files).length = files.length := by
    rw [readActions, List.length_map, List.length_zipIdx]
  show (readActions epoch files).map ImportAction.id = _
  rw [hlength, ← map_zipIdx_snd, readActions, List.map_map]
  rfl

/-- The actions of a projection are numbered. -/
theorem numbered_projectionActions (epoch : Nat) (generation : SequenceNumber) (doc : NamespaceDoc)
    (planned : List (PlannedProjection D)) :
    ProjectionEpochStarted.Numbered ⟨epoch, generation, doc, projectionActions epoch planned⟩ := by
  have hlength : (projectionActions epoch planned).length = planned.length := by
    rw [projectionActions, List.length_map, List.length_zipIdx]
  show (projectionActions epoch planned).map ProjectionAction.id = _
  rw [hlength, ← map_zipIdx_snd, projectionActions, List.map_map]
  rfl

/-! ## When the checks pass -/

namespace SemanticRuntimeState

variable {rt : SemanticRuntimeState D}

theorem reserveImportEpoch_ok (h : rt.activeImport = none) :
    rt.reserveImportEpoch =
      .ok (rt.nextImportEpoch, { rt with nextImportEpoch := rt.nextImportEpoch + 1 }) := by
  rw [reserveImportEpoch, h]

theorem reserveProjectionEpoch_ok (h : rt.activeProjection = none) :
    rt.reserveProjectionEpoch =
      .ok (rt.nextProjectionEpoch,
        { rt with nextProjectionEpoch := rt.nextProjectionEpoch + 1 }) := by
  rw [reserveProjectionEpoch, h]

theorem installImportEpoch_ok {started : ImportEpochStarted} (hnone : rt.activeImport = none)
    (h : started.Numbered) (kind : ImportEpochKind) :
    rt.installImportEpoch started kind =
      .ok { rt with activeImport := some ⟨started.epoch, kind, started.actions, []⟩ } := by
  have hepoch : ∀ action ∈ started.actions, action.id.epoch = started.epoch :=
    fun action ha => h.epoch_eq ha
  rw [installImportEpoch, hnone]
  simp only [require_of hepoch, require_of h.nodup]
  rfl

theorem installProjectionEpoch_ok {started : ProjectionEpochStarted D}
    (hnone : rt.activeProjection = none) (h : started.Numbered) :
    rt.installProjectionEpoch started = .ok { rt with activeProjection := some ⟨started, []⟩ } := by
  have hepoch : ∀ action ∈ started.actions, action.id.epoch = started.epoch :=
    fun action ha => h.epoch_eq ha
  rw [installProjectionEpoch, hnone]
  simp only [require_of hepoch, require_of h.nodup]
  rfl

/-- An expected action without a result is validated. -/
theorem validateImportAction_ok {active : ActiveImportEpoch} {result : ImportActionResult}
    (hactive : rt.activeImport = some active) (hepoch : result.actionId.epoch = active.epoch)
    (hmem : result.actionId ∈ active.expected.map ImportAction.id)
    (hnew : result.actionId ∉ active.completed) :
    ∃ context, rt.validateImportAction result = .ok context := by
  obtain ⟨action, hfind⟩ : ∃ action,
      active.expected.find? (fun action => decide (action.id = result.actionId)) = some action := by
    rw [← Option.isSome_iff_exists, List.find?_isSome]
    obtain ⟨action, ha, hid⟩ := List.mem_map.mp hmem
    exact ⟨action, ha, decide_eq_true hid⟩
  have hcontext : active.context result = some ⟨active.kind, action.kind⟩ := by
    rw [ActiveImportEpoch.context, if_neg hnew, hfind]
    rfl
  refine ⟨⟨active.kind, action.kind⟩, ?_⟩
  rw [validateImportAction, hactive]
  simp only [require_of hepoch, require_of hmem, require_of hnew, hcontext]
  rfl

/-- An expected action without a result is finished. -/
theorem finishImportAction_ok {active : ActiveImportEpoch} {id : ImportActionId}
    (hactive : rt.activeImport = some active) (hepoch : id.epoch = active.epoch)
    (hmem : id ∈ active.expected.map ImportAction.id) (hnew : id ∉ active.completed) :
    rt.finishImportAction id =
      .ok { rt with activeImport := some { active with completed := id :: active.completed } } := by
  rw [finishImportAction, hactive]
  simp only [require_of hepoch, require_of hmem, require_of hnew]
  rfl

theorem validateImportEpochCommit_ok {active : ActiveImportEpoch}
    (hactive : rt.activeImport = some active) :
    rt.validateImportEpochCommit active.epoch = .ok active := by
  rw [validateImportEpochCommit, hactive]
  show (require (active.epoch = active.epoch) _ >>= fun _ => _) = _
  rw [require_of rfl]
  rfl

theorem finishImportEpoch_ok {active : ActiveImportEpoch} (hactive : rt.activeImport = some active)
    (hcomplete : active.complete = true)
    (hall : ∀ action ∈ active.expected, action.id ∈ active.completed) :
    rt.finishImportEpoch active.epoch = .ok (active.finish, { rt with activeImport := none }) := by
  rw [finishImportEpoch, validateImportEpochCommit_ok hactive]
  show (require (active.complete = true) _ >>= fun _ => _) = _
  rw [require_of hcomplete]
  show (require (∀ action ∈ active.expected, action.id ∈ active.completed) _ >>= fun _ => _) = _
  rw [require_of hall]
  rfl

/-- An expected action without a result is validated. -/
theorem validateProjectionAction_ok {active : ActiveProjectionEpoch D}
    {result : ProjectionActionResult} (hactive : rt.activeProjection = some active)
    (hepoch : result.actionId.epoch = active.started.epoch)
    (hmem : result.actionId ∈ active.started.actions.map ProjectionAction.id)
    (hnew : result.actionId ∉ active.completed.map ProjectionActionResult.actionId) :
    ∃ context, rt.validateProjectionAction result = .ok context := by
  obtain ⟨action, hfind⟩ : ∃ action,
      active.started.actions.find? (fun action => decide (action.id = result.actionId)) =
        some action := by
    rw [← Option.isSome_iff_exists, List.find?_isSome]
    obtain ⟨action, ha, hid⟩ := List.mem_map.mp hmem
    exact ⟨action, ha, decide_eq_true hid⟩
  have hcontext : active.context result = some action.commitContext := by
    rw [ActiveProjectionEpoch.context, if_neg hnew, hfind]
    rfl
  refine ⟨action.commitContext, ?_⟩
  rw [validateProjectionAction, hactive]
  simp only [require_of hepoch, require_of hmem, require_of hnew, hcontext]
  rfl

/-- An expected action without a result is finished. -/
theorem finishProjectionAction_ok {active : ActiveProjectionEpoch D}
    {result : ProjectionActionResult} (hactive : rt.activeProjection = some active)
    (hepoch : result.actionId.epoch = active.started.epoch)
    (hmem : result.actionId ∈ active.started.actions.map ProjectionAction.id)
    (hnew : result.actionId ∉ active.completed.map ProjectionActionResult.actionId) :
    rt.finishProjectionAction result = .ok { rt with
      activeProjection := some { active with completed := result :: active.completed } } := by
  rw [finishProjectionAction, hactive]
  simp only [require_of hepoch, require_of hmem, require_of hnew]
  rfl

theorem validateProjectionEpochCommit_ok {active : ActiveProjectionEpoch D}
    (hactive : rt.activeProjection = some active) :
    rt.validateProjectionEpochCommit active.started.epoch = .ok active := by
  rw [validateProjectionEpochCommit, hactive]
  show (require (active.started.epoch = active.started.epoch) _ >>= fun _ => _) = _
  rw [require_of rfl]
  rfl

theorem finishProjectionEpoch_ok {active : ActiveProjectionEpoch D}
    {reason : ProjectionEpochEndReason} (hactive : rt.activeProjection = some active)
    (hcomplete : reason = .planExhausted → active.complete = true)
    (hall : reason = .planExhausted → ∀ action ∈ active.started.actions,
      action.id ∈ active.completed.map ProjectionActionResult.actionId) :
    rt.finishProjectionEpoch active.started.epoch reason =
      .ok (active.finish, { rt with activeProjection := none }) := by
  rw [finishProjectionEpoch, validateProjectionEpochCommit_ok hactive]
  show (require (reason = .planExhausted → active.complete = true) _ >>= fun _ => _) = _
  rw [require_of hcomplete]
  show (require (reason = .planExhausted → ∀ action ∈ active.started.actions,
    action.id ∈ active.completed.map ProjectionActionResult.actionId) _ >>= fun _ => _) = _
  rw [require_of hall]
  rfl

end SemanticRuntimeState

end Opbox
