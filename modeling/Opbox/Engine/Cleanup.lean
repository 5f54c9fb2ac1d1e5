import Opbox.Engine.EngineSteps
import Opbox.Engine.Session
import Opbox.Fs.TempFiles
import Opbox.Semantic.Runs

/-!
# Reported temporary files are deleted

A write that conflicts before its swap reports its temporary file, and the engine queues the file for
deletion (`handle_fs_response`).  The queue is worked off whenever the filesystem client takes another
cleanup request (`drive_cleanup`).  Nothing is lost on the way: over any run of a session the reported
files are those that were deleted, those whose deletion has been requested, and those in the queue.
-/

namespace Opbox

variable {D : Type}

/-- The path of a cleanup request. -/
def FsCall.deletePath : FsCall D → Option RelativePath
  | .deleteIfExists path => some path
  | _ => none

/-- The files whose deletion has been requested. -/
def FsClient.deletes (fs : FsClient D) : List RelativePath := fs.pending.filterMap FsCall.deletePath

/-- The temporary file that a response reports. -/
def FsClientResponse.reportedTemp : FsClientResponse → Option RelativePath
  | .applyProjectionAction result => result.cleanupPath
  | _ => none

/-- The file that a response says was deleted. -/
def FsClientResponse.deletedTemp : FsClientResponse → Option RelativePath
  | .deleteIfExists path => some path
  | _ => none

theorem FsClient.deletes_request {fs : FsClient D} {call : FsCall D} (h : call.deletePath = none) :
    (fs.request call).deletes = fs.deletes := by
  rw [deletes, request, List.filterMap_append, List.filterMap_cons_none h, List.filterMap_nil,
    List.append_nil]
  rfl

/-- An answer takes its request away. -/
theorem FsClient.perm_deletes_next {fs fs' : FsClient D} {n : Nat} {call : FsCall D}
    (hcall : fs.pending[n]? = some call) (h : fs.next n call = .ok fs') :
    fs.deletes.Perm (call.deletePath.toList ++ fs'.deletes) := by
  have hpending : fs'.pending = fs.pending.eraseIdx n := by
    unfold next at h
    split_ifs at h
    · obtain ⟨⟨⟩, -, h⟩ := bind_eq_ok.mp h
      cases h
      rfl
    · obtain ⟨⟨⟩, -, h⟩ := bind_eq_ok.mp h
      cases h
      rfl
  obtain ⟨hn, rfl⟩ := List.getElem?_eq_some_iff.mp hcall
  have hperm := (List.getElem_cons_eraseIdx_perm hn).symm.filterMap FsCall.deletePath
  rw [deletes, deletes, hpending]
  refine hperm.trans (List.Perm.of_eq ?_)
  cases hpath : fs.pending[n].deletePath with
  | none => rw [List.filterMap_cons_none hpath]; rfl
  | some path => rw [List.filterMap_cons_some hpath]; rfl

/-- The file that an answer says was deleted is that of its request. -/
theorem deletePath_of_answeredBy {call : FsCall D} {response : FsClientResponse}
    (h : call.answeredBy response = true) : response.deletedTemp = call.deletePath := by
  cases call with
  | deleteIfExists path =>
    cases response with
    | deleteIfExists path' => exact congrArg some (of_decide_eq_true h)
    | _ => cases h
  | _ =>
    cases response with
    | deleteIfExists path' => cases h
    | _ => rfl

namespace Engine

variable {e e' : Engine D}

/-- The reported files that are still to be deleted. -/
def uncleaned (e : Engine D) : List RelativePath := e.fsClient.deletes ++ e.cleanupQueue

/-- The queue is empty, or no further cleanup request is taken. -/
def CleanedUp (e : Engine D) : Prop :=
  e.cleanupQueue = [] ∨ e.fsClient.canAcceptCleanup = false

/-! ## The parts of the engine -/

theorem uncleaned_enterBoundary (e : Engine D) : e.enterBoundary.uncleaned = e.uncleaned := by
  unfold enterBoundary
  split
  · exact congrArg (· ++ e.cleanupQueue) (FsClient.deletes_request rfl)
  · rfl

theorem uncleaned_requestScan (e : Engine D) (scope : ScanScope) :
    (e.requestScan scope).uncleaned = e.uncleaned := by
  unfold requestScan
  split
  · exact uncleaned_enterBoundary _
  · rfl

theorem deletes_dispatchImports (fs : FsClient D) (inFlight : List ImportActionId)
    (queue : List ImportAction) :
    (dispatchImports fs inFlight queue).1.deletes = fs.deletes ∧
      (dispatchImports fs inFlight queue).1.cleanupInflight = fs.cleanupInflight := by
  induction queue generalizing fs inFlight with
  | nil => exact ⟨rfl, rfl⟩
  | cons action queue ih =>
    unfold dispatchImports
    split_ifs
    · obtain ⟨hdeletes, hinflight⟩ := ih (fs.applyImportAction action) (inFlight ++ [action.id])
      exact ⟨hdeletes.trans (FsClient.deletes_request rfl), hinflight⟩
    · exact ⟨rfl, rfl⟩

theorem deletes_dispatchProjections (fs : FsClient D) (inFlight : List ProjectionActionId)
    (plan : List (ProjectionAction D)) :
    (dispatchProjections fs inFlight plan).1.deletes = fs.deletes ∧
      (dispatchProjections fs inFlight plan).1.cleanupInflight = fs.cleanupInflight := by
  induction plan generalizing fs inFlight with
  | nil => exact ⟨rfl, rfl⟩
  | cons action plan ih =>
    unfold dispatchProjections
    split_ifs
    · obtain ⟨hdeletes, hinflight⟩ := ih (fs.applyProjectionAction action) (inFlight ++ [action.id])
      exact ⟨hdeletes.trans (FsClient.deletes_request rfl), hinflight⟩
    · exact ⟨rfl, rfl⟩

/-- Driving a phase leaves the cleanup alone. -/
theorem cleanup_drivePhase (e : Engine D) :
    e.drivePhase.fsClient.deletes = e.fsClient.deletes ∧
      e.drivePhase.fsClient.cleanupInflight = e.fsClient.cleanupInflight ∧
      e.drivePhase.cleanupQueue = e.cleanupQueue := by
  have hdispatch : e.dispatch.fsClient.deletes = e.fsClient.deletes ∧
      e.dispatch.fsClient.cleanupInflight = e.fsClient.cleanupInflight ∧
      e.dispatch.cleanupQueue = e.cleanupQueue := by
    unfold dispatch
    split
    next epoch queue inFlight _ =>
      obtain ⟨hdeletes, hinflight⟩ := deletes_dispatchImports e.fsClient inFlight queue
      exact ⟨hdeletes, hinflight, rfl⟩
    next epoch generation plan inFlight _ =>
      obtain ⟨hdeletes, hinflight⟩ := deletes_dispatchProjections e.fsClient inFlight plan
      exact ⟨hdeletes, hinflight, rfl⟩
    · exact ⟨rfl, rfl, rfl⟩
  unfold drivePhase requestCommit
  split
  · exact hdispatch
  · exact hdispatch
  · exact hdispatch
  · exact hdispatch

/-- The cleanup moves files from the queue to the requests, until no further one is taken. -/
theorem deletes_cleanup {fs fs' : FsClient D} {queue queue' : List RelativePath}
    (h : cleanup fs queue = .ok (fs', queue')) :
    fs'.deletes ++ queue' = fs.deletes ++ queue ∧ (queue' = [] ∨ fs'.canAcceptCleanup = false) := by
  induction queue generalizing fs with
  | nil =>
    cases h
    exact ⟨rfl, .inl rfl⟩
  | cons path queue ih =>
    unfold cleanup at h
    split_ifs at h with hroom
    · obtain ⟨fs₁, hdelete, h⟩ := bind_eq_ok.mp h
      obtain ⟨⟨⟩, -, hdelete⟩ := bind_eq_ok.mp hdelete
      cases hdelete
      obtain ⟨hsame, hfull⟩ := ih h
      refine ⟨hsame.trans ?_, hfull⟩
      rw [FsClient.deletes, List.filterMap_append, List.append_assoc]
      rfl
    · cases h
      exact ⟨rfl, .inr ((Bool.not_eq_true _).mp hroom)⟩

/-- The top of the loop keeps the files that are to be deleted, and works off the queue. -/
theorem uncleaned_drive (h : e.drive = .ok e') : e'.uncleaned = e.uncleaned ∧ e'.CleanedUp := by
  obtain ⟨e₁, hcleanup, h⟩ := bind_eq_ok.mp h
  cases h
  obtain ⟨⟨fs, queue⟩, hqueue, h⟩ := bind_eq_ok.mp hcleanup
  cases h
  obtain ⟨hsame, hfull⟩ := deletes_cleanup hqueue
  obtain ⟨hdeletes, hinflight, hqueue⟩ :=
    cleanup_drivePhase { e with fsClient := fs, cleanupQueue := queue }
  refine ⟨?_, ?_⟩
  · rw [uncleaned, hdeletes, hqueue]
    exact hsame
  · rw [CleanedUp, FsClient.canAcceptCleanup, hqueue, hinflight]
    exact hfull

/-! ## Replies and responses -/

theorem uncleaned_handleSemanticResponse {response : SemanticResponse D}
    (h : e.handleSemanticResponse response = .ok e') : e'.uncleaned = e.uncleaned := by
  cases response with
  | applyInitScan started => cases h
  | commitImportAction => cases h
  | commitProjectionAction => cases h
  | readStableNamespace => cases h
  | service call =>
    cases h
    rfl
  | applyScan work =>
    change e.handleApplyScanResponse work = .ok e' at h
    unfold handleApplyScanResponse at h
    split at h
    · split at h
      · cases h
        rfl
      · cases h
        exact uncleaned_enterBoundary e
      · cases h
    · cases h
  | commitImportEpoch =>
    unfold handleSemanticResponse at h
    dsimp only at h
    split at h
    · cases h
      exact uncleaned_enterBoundary e
    · cases h
  | commitProjectionEpoch =>
    unfold handleSemanticResponse at h
    dsimp only at h
    split at h
    · cases h
      exact uncleaned_enterBoundary e
    · cases h
  | getNextWork boundary work =>
    change e.handleGetNextWorkResponse boundary work = .ok e' at h
    unfold handleGetNextWorkResponse at h
    split at h
    · obtain ⟨⟨⟩, -, h⟩ := bind_eq_ok.mp h
      split at h
      · cases h
        rfl
      · cases h
      · split_ifs at h
        · cases h
          exact uncleaned_enterBoundary e
        · cases h
          rfl
    · cases h

theorem uncleaned_handleSemanticEvent (e : Engine D) (event : SemanticEvent) :
    (e.handleSemanticEvent event).uncleaned = e.uncleaned := by
  cases event with
  | outboxReady n => rfl
  | projectionChanged generation =>
    change e.handleProjectionChanged.uncleaned = e.uncleaned
    unfold handleProjectionChanged
    split
    · exact uncleaned_enterBoundary e
    · rfl
    · rfl

/-- A response adds the file that it reports. -/
theorem uncleaned_handleFsResponse {response : FsClientResponse}
    (h : e.handleFsResponse response = .ok e') :
    e'.uncleaned = e.uncleaned ++ response.reportedTemp.toList := by
  cases response with
  | scan result =>
    unfold handleFsResponse at h
    dsimp only at h
    split at h
    · cases h
      exact (List.append_nil _).symm
    · cases h
  | applyImportAction result =>
    change e.handleImportAction result = .ok e' at h
    unfold handleImportAction at h
    split at h
    · obtain ⟨⟨⟩, -, h⟩ := bind_eq_ok.mp h
      obtain ⟨⟨⟩, -, h⟩ := bind_eq_ok.mp h
      cases h
      rw [show (FsClientResponse.applyImportAction result).reportedTemp.toList = [] from rfl,
        List.append_nil]
      split_ifs
      · exact uncleaned_requestScan _ _
      · rfl
    · cases h
  | applyProjectionAction result =>
    change e.handleProjectionAction result = .ok e' at h
    obtain ⟨phase, -, h⟩ := bind_eq_ok.mp h
    cases h
    have hqueued : ({ e.setPhase phase with
        cleanupQueue := e.cleanupQueue ++ result.cleanupPath.toList } : Engine D).uncleaned =
        e.uncleaned ++ result.cleanupPath.toList := (List.append_assoc _ _ _).symm
    split_ifs
    · exact (uncleaned_requestScan _ _).trans hqueued
    · exact hqueued
  | deleteIfExists path =>
    cases h
    exact (List.append_nil _).symm

/-- A response takes its request away and adds the file that it reports. -/
theorem perm_uncleaned_takeFsResponse {n : Nat} {call : FsCall D} {response : FsClientResponse}
    (hcall : e.fsClient.pending[n]? = some call) (hanswer : call.answeredBy response = true)
    (h : e.takeFsResponse n call response = .ok e') :
    (response.reportedTemp.toList ++ e.uncleaned).Perm
      (response.deletedTemp.toList ++ e'.uncleaned) := by
  obtain ⟨fs, hnext, h⟩ := bind_eq_ok.mp h
  have htaken : e.uncleaned.Perm
      (response.deletedTemp.toList ++ ({ e with fsClient := fs } : Engine D).uncleaned) := by
    rw [deletePath_of_answeredBy hanswer, uncleaned, uncleaned, ← List.append_assoc]
    exact (FsClient.perm_deletes_next hcall hnext).append_right _
  rw [uncleaned_handleFsResponse h, ← List.append_assoc]
  exact List.perm_append_comm.trans (htaken.append_right _)

end Engine

/-! ## Runs -/

/-- The temporary file that is reported in a step. -/
def SessionAction.reportedTemp : SessionAction D → Option RelativePath
  | .fs _ response => response.reportedTemp
  | _ => none

/-- The temporary file that is deleted in a step. -/
def SessionAction.deletedTemp : SessionAction D → Option RelativePath
  | .fs _ response => response.deletedTemp
  | _ => none

namespace Session

variable {s s' : Session D} {e : Except EngineBail (Engine D)}

/-- Back at the top of its loop the engine has kept the files that are to be deleted. -/
theorem uncleaned_resume (h : s.resume e = .ok s') :
    ∃ e₁, e = .ok e₁ ∧ s'.engine.uncleaned = e₁.uncleaned ∧ s'.engine.CleanedUp := by
  obtain ⟨e₁, e', he, hdrive, rfl⟩ := resume_eq_ok h
  exact ⟨e₁, he, Engine.uncleaned_drive hdrive⟩

variable [TextCrdt D] [CharDiff] [Xxh3] [DecidableEq D] {action : SessionAction D}

/-- In every step what is reported and what was to be deleted are what is deleted and what is still to
be deleted. -/
theorem perm_uncleaned_step (hclean : s.engine.CleanedUp) (h : s.step action = some (.ok s')) :
    (action.reportedTemp.toList ++ s.engine.uncleaned).Perm
        (action.deletedTemp.toList ++ s'.engine.uncleaned) ∧ s'.engine.CleanedUp := by
  cases action with
  | startRequest =>
    unfold step at h
    dsimp only at h
    split at h
    · obtain ⟨lane, -, rfl⟩ : ∃ lane, _ ∧ s' = ⟨_, lane, _, _⟩ := by
        have h := Option.some.inj h
        unfold startRequest at h
        split at h
        next lane _ => exact ⟨lane, trivial, (Except.ok.inj h).symm⟩
        · cases h
      exact ⟨List.Perm.refl _, hclean⟩
    · cases h
  | commit now objectId claimId =>
    unfold step at h
    dsimp only at h
    split at h
    · obtain ⟨r, -, hr⟩ := Option.map_eq_some_iff.mp h
      cases hr
      exact ⟨List.Perm.refl _, hclean⟩
    · cases h
  | finish =>
    unfold step at h
    dsimp only at h
    split at h
    next result _ =>
      have h := Option.some.inj h
      unfold finish at h
      split at h
      · cases h
        exact ⟨List.Perm.refl _, hclean⟩
      · cases h
    · cases h
  | reply n =>
    obtain ⟨response, -, h⟩ := Option.map_eq_some_iff.mp h
    obtain ⟨e₁, hresponse, hsame, hclean'⟩ := uncleaned_resume h
    rw [hsame, Engine.uncleaned_handleSemanticResponse hresponse]
    exact ⟨List.Perm.refl _, hclean'⟩
  | event =>
    unfold step at h
    dsimp only at h
    split at h
    next event rest _ =>
      obtain ⟨e₁, hevent, hsame, hclean'⟩ := uncleaned_resume (Option.some.inj h)
      cases hevent
      rw [hsame, Engine.uncleaned_handleSemanticEvent]
      exact ⟨List.Perm.refl _, hclean'⟩
    · cases h
  | fs n response =>
    obtain ⟨call, hcall, h⟩ := Option.bind_eq_some_iff.mp h
    split_ifs at h with hanswer
    obtain ⟨e₁, htake, hsame, hclean'⟩ := uncleaned_resume (Option.some.inj h)
    rw [hsame]
    exact ⟨Engine.perm_uncleaned_takeFsResponse hcall hanswer htake, hclean'⟩
  | scan scope =>
    obtain ⟨e₁, hscan, hsame, hclean'⟩ := uncleaned_resume (Option.some.inj h)
    cases hscan
    rw [hsame, Engine.uncleaned_requestScan]
    exact ⟨List.Perm.refl _, hclean'⟩
  | call call =>
    obtain ⟨e₁, hcall, hsame, hclean'⟩ := uncleaned_resume (Option.some.inj h)
    cases hcall
    rw [hsame]
    exact ⟨List.Perm.refl _, hclean'⟩

/-- Over a run what was to be deleted and what is reported are what is deleted and what is still to be
deleted. -/
theorem perm_uncleaned_exec {actions : List (SessionAction D)} (hclean : s.engine.CleanedUp)
    (h : sessionMachine.exec (.ok s) actions = some (.ok s')) :
    (actions.filterMap SessionAction.reportedTemp ++ s.engine.uncleaned).Perm
        (actions.filterMap SessionAction.deletedTemp ++ s'.engine.uncleaned) ∧
      s'.engine.CleanedUp := by
  induction actions generalizing s with
  | nil =>
    cases h
    exact ⟨List.Perm.refl _, hclean⟩
  | cons action actions ih =>
    obtain ⟨outcome, hstep, h⟩ := Option.bind_eq_some_iff.mp h
    cases outcome with
    | error abort =>
      -- A run that comes to a stop ends.
      cases actions with
      | nil => cases h
      | cons action' actions => cases h
    | ok t =>
      obtain ⟨hone, hclean₁⟩ := perm_uncleaned_step hclean hstep
      obtain ⟨hrest, hclean'⟩ := ih hclean₁ h
      refine ⟨?_, hclean'⟩
      have hcons : ∀ f : SessionAction D → Option RelativePath,
          (action :: actions).filterMap f = (f action).toList ++ actions.filterMap f := by
        intro f
        cases hf : f action with
        | none => rw [List.filterMap_cons_none hf]; rfl
        | some path => rw [List.filterMap_cons_some hf]; rfl
      rw [hcons, hcons]
      calc
        ((action.reportedTemp.toList ++ actions.filterMap SessionAction.reportedTemp) ++
            s.engine.uncleaned).Perm (actions.filterMap SessionAction.reportedTemp ++
              (action.reportedTemp.toList ++ s.engine.uncleaned)) := by
          rw [← List.append_assoc]
          exact List.perm_append_comm.append_right _
        List.Perm _ (actions.filterMap SessionAction.reportedTemp ++
              (action.deletedTemp.toList ++ t.engine.uncleaned)) := hone.append_left _
        List.Perm _ (action.deletedTemp.toList ++
              (actions.filterMap SessionAction.reportedTemp ++ t.engine.uncleaned)) := by
          rw [← List.append_assoc, ← List.append_assoc]
          exact List.perm_append_comm.append_right _
        List.Perm _ (action.deletedTemp.toList ++
              (actions.filterMap SessionAction.deletedTemp ++ s'.engine.uncleaned)) :=
          hrest.append_left _
        _ = _ := (List.append_assoc _ _ _).symm

/-- In every run of a session the reported files are those that were deleted and those that are still to
be deleted, and the queue is worked off as far as the filesystem client takes it. -/
theorem perm_reported (db : Db D) {actions : List (SessionAction D)}
    (h : sessionMachine.exec (start db) actions = some (.ok s)) :
    (actions.filterMap SessionAction.reportedTemp).Perm
        (actions.filterMap SessionAction.deletedTemp ++ s.engine.uncleaned) ∧
      s.engine.CleanedUp := by
  cases hstart : start db with
  | error abort =>
    rw [hstart] at h
    cases actions with
    | nil => cases h
    | cons action actions => cases h
  | ok s₀ =>
    rw [hstart] at h
    obtain ⟨e₁, he, hsame, hclean⟩ := uncleaned_resume hstart
    cases he
    have hnone : s₀.engine.uncleaned = [] := hsame.trans (Engine.uncleaned_requestScan _ _)
    obtain ⟨hperm, hclean'⟩ := perm_uncleaned_exec hclean h
    rw [hnone, List.append_nil] at hperm
    exact ⟨hperm, hclean'⟩

end Session

open Snapshots

/-- An empty folder with space for a file of one byte; others make the target before it is looked at again. -/
def takenTarget : Racing FullFolder :=
  ⟨(⟨⟨fun _ => none, 5⟩, 1⟩, [id, id, id, fun full =>
    { full with folder := full.folder.update (rootFile 1) (some (fileStat 1 1 0, [7])) }]), []⟩

/-- The guarded write of some bytes where nothing is expected to be. -/
def writeNew (bytes : Bytes) : Fio (Racing FullFolder) GuardedWriteResult :=
  guardedWrite 0 (rootFile 1) bytes .missing

/-- The engine projects a file that another daemon has made, and the write reports a temporary file. -/
def reportRun (temp : RelativePath) : List (SessionAction Doc) :=
  let served : List (SessionAction Doc) := [.startRequest, .commit 0 [1] [2], .finish]
  let batch := foreignBatch 0 [.namespaceUpdate (NamespaceDoc.mintedOps 77 0
    [.object [3] ⟨.text, [9]⟩, .claim [4] ⟨[3], rootFile 1⟩])]
  (batch.map fun batch => SessionAction.call (.applySharedMessageBatch batch)).toList ++ served ++
    [.fs 0 (.scan (scanOf .full []))] ++ served ++ [.reply 1] ++ served ++
    [.reply 1, .fs 0 (.applyProjectionAction (.writeFile ⟨0, 0⟩ (.conflictBeforeSwap temp none)))]

end Opbox
