import Opbox.Engine.SessionSafety

/-!
# Projection epochs are not taken up again

A projection epoch is in play from the request for the next work that reserves it to the end of its
dispatching.  Epochs are reserved in increasing order, so one that is past is never in play again,
and no action of it is ever dispatched.
-/

namespace Opbox

variable {D : Type}

/-- The engine dispatches the plan of an epoch. -/
def EnginePhase.Dispatches (phase : EnginePhase D) (epoch : Nat) : Prop :=
  ∃ generation plan inFlight, phase = .projecting (.dispatching epoch generation plan inFlight)

/-! ## What starts to be dispatched -/

namespace Engine

variable {e e' : Engine D} {epoch : Nat}

theorem not_dispatches_enterBoundary : ¬e.enterBoundary.phase.Dispatches epoch := by
  rintro ⟨_, _, _, h⟩
  unfold enterBoundary at h
  split at h <;> cases h

theorem dispatches_requestScan {scope : ScanScope} (h : (e.requestScan scope).phase.Dispatches epoch) :
    e.phase.Dispatches epoch := by
  by_cases hidle : e.phase = .idle
  · rw [requestScan_of_idle hidle] at h
    exact absurd h not_dispatches_enterBoundary
  · rw [requestScan_of_ne hidle] at h
    exact h

theorem dispatches_handleSemanticEvent {event : SemanticEvent}
    (h : (e.handleSemanticEvent event).phase.Dispatches epoch) : e.phase.Dispatches epoch := by
  cases event with
  | outboxReady n => exact h
  | projectionChanged generation =>
    change e.handleProjectionChanged.phase.Dispatches epoch at h
    unfold handleProjectionChanged at h
    split at h
    · exact absurd h not_dispatches_enterBoundary
    · obtain ⟨_, _, _, h⟩ := h
      cases h
    · exact h

theorem dispatches_drive (hdrive : e.drive = .ok e') (h : e'.phase.Dispatches epoch) :
    e.phase.Dispatches epoch := by
  rw [drive, driveCleanup] at hdrive
  cases hcleanup : cleanup e.fsClient e.cleanupQueue with
  | error bail =>
    rw [hcleanup] at hdrive
    cases hdrive
  | ok r =>
    rw [hcleanup] at hdrive
    cases hdrive
    obtain ⟨generation, plan, inFlight, h⟩ := h
    unfold drivePhase requestCommit at h
    split at h
    · cases h
    · cases h
    · cases h
    · unfold dispatch at h
      split at h
      · cases h
      next epoch' _ _ _ hphase =>
        cases h
        exact ⟨_, _, _, hphase⟩
      · exact ⟨_, _, _, h⟩

/-- Only the answer of a boundary starts to dispatch an epoch. -/
theorem dispatches_handleSemanticResponse {response : SemanticResponse D}
    (heq : e.handleSemanticResponse response = .ok e') (h : e'.phase.Dispatches epoch) :
    e.phase.Dispatches epoch ∨
      ∃ boundary started, response = .getNextWork boundary (.project started) ∧
        started.epoch = epoch := by
  cases response with
  | applyScan work =>
    change e.handleApplyScanResponse work = .ok e' at heq
    unfold handleApplyScanResponse at heq
    split at heq
    · split at heq
      · cases heq
        obtain ⟨_, _, _, h⟩ := h
        cases h
      · cases heq
        exact absurd h not_dispatches_enterBoundary
      · cases heq
    · cases heq
  | commitImportEpoch =>
    unfold handleSemanticResponse at heq
    dsimp only at heq
    split at heq
    · cases heq
      exact absurd h not_dispatches_enterBoundary
    · cases heq
  | commitProjectionEpoch =>
    unfold handleSemanticResponse at heq
    dsimp only at heq
    split at heq
    · cases heq
      exact absurd h not_dispatches_enterBoundary
    · cases heq
  | getNextWork boundary work =>
    change e.handleGetNextWorkResponse boundary work = .ok e' at heq
    unfold handleGetNextWorkResponse at heq
    split at heq
    next awaited dirty _ =>
      obtain ⟨-, -, heq⟩ := bind_eq_ok.mp heq
      cases work with
      | none =>
        dsimp only at heq
        split_ifs at heq
        · cases heq
          exact absurd h not_dispatches_enterBoundary
        · cases heq
          obtain ⟨_, _, _, h⟩ := h
          cases h
      | importEpoch started => cases heq
      | project started =>
        cases heq
        obtain ⟨_, _, _, h⟩ := h
        cases h
        exact .inr ⟨boundary, started, rfl, rfl⟩
    · cases heq
  | service call =>
    cases heq
    exact .inl h
  | _ => cases heq

/-- The phase after an answer goes on with the epoch it was in, unless the answer invalidates it. -/
theorem dispatches_projectionPhaseAfter {result : ProjectionActionResult} {phase phase' : EnginePhase D}
    (heq : projectionPhaseAfter result phase = .ok phase') (h : phase'.Dispatches epoch) :
    phase.Dispatches epoch ∧ result.invalidatesProjection = false := by
  unfold projectionPhaseAfter at heq
  split at heq
  next epoch' generation plan inFlight =>
    obtain ⟨-, -, heq⟩ := bind_eq_ok.mp heq
    obtain ⟨-, -, heq⟩ := bind_eq_ok.mp heq
    split_ifs at heq with hinvalid
    · cases heq
      obtain ⟨_, _, _, h⟩ := h
      cases h
    · cases heq
      obtain ⟨_, _, _, h⟩ := h
      cases h
      exact ⟨⟨_, _, _, rfl⟩, Bool.eq_false_iff.mpr hinvalid⟩
  · obtain ⟨-, -, heq⟩ := bind_eq_ok.mp heq
    obtain ⟨-, -, heq⟩ := bind_eq_ok.mp heq
    cases heq
    obtain ⟨_, _, _, h⟩ := h
    cases h
  · cases heq

/-- The same of the whole branch. -/
theorem dispatches_handleProjectionAction {result : ProjectionActionResult}
    (heq : e.handleProjectionAction result = .ok e') (h : e'.phase.Dispatches epoch) :
    e.phase.Dispatches epoch ∧ result.invalidatesProjection = false := by
  obtain ⟨phase, hphase, heq⟩ := bind_eq_ok.mp heq
  cases heq
  refine dispatches_projectionPhaseAfter hphase ?_
  dsimp only [send] at h
  split_ifs at h
  · exact dispatches_requestScan h
  · exact h

/-- No answer of the filesystem starts to dispatch an epoch. -/
theorem dispatches_takeFsResponse {n : Nat} {call : FsCall D} {response : FsClientResponse}
    (heq : e.takeFsResponse n call response = .ok e') (h : e'.phase.Dispatches epoch) :
    e.phase.Dispatches epoch := by
  obtain ⟨fs, -, heq⟩ := bind_eq_ok.mp heq
  cases response with
  | scan result =>
    unfold handleFsResponse at heq
    dsimp only at heq
    split at heq
    · cases heq
      obtain ⟨_, _, _, h⟩ := h
      cases h
    · cases heq
  | applyImportAction result =>
    change handleImportAction { e with fsClient := fs } result = .ok e' at heq
    unfold handleImportAction at heq
    dsimp only at heq
    split at heq
    · obtain ⟨-, -, heq⟩ := bind_eq_ok.mp heq
      obtain ⟨-, -, heq⟩ := bind_eq_ok.mp heq
      cases heq
      dsimp only [send] at h
      split_ifs at h
      · obtain ⟨_, _, _, h⟩ := dispatches_requestScan h
        cases h
      · obtain ⟨_, _, _, h⟩ := h
        cases h
    · cases heq
  | applyProjectionAction result => exact (dispatches_handleProjectionAction heq h).1
  | deleteIfExists path =>
    cases heq
    exact h

end Engine

/-! ## What plays on the lane -/

namespace SemanticRuntimeState

variable {rt rt' : SemanticRuntimeState D}

theorem next_installImportEpoch {started : ImportEpochStarted} {kind : ImportEpochKind}
    (h : rt.installImportEpoch started kind = .ok rt') :
    rt'.nextProjectionEpoch = rt.nextProjectionEpoch := by
  unfold installImportEpoch at h
  split at h
  · cases h
  · obtain ⟨-, -, h⟩ := bind_eq_ok.mp h
    obtain ⟨-, -, h⟩ := bind_eq_ok.mp h
    cases h
    rfl

theorem next_installProjectionEpoch {started : ProjectionEpochStarted D}
    (h : rt.installProjectionEpoch started = .ok rt') :
    rt'.nextProjectionEpoch = rt.nextProjectionEpoch := by
  unfold installProjectionEpoch at h
  split at h
  · cases h
  · obtain ⟨-, -, h⟩ := bind_eq_ok.mp h
    obtain ⟨-, -, h⟩ := bind_eq_ok.mp h
    cases h
    rfl

theorem next_finishImportAction {id : ImportActionId} (h : rt.finishImportAction id = .ok rt') :
    rt'.nextProjectionEpoch = rt.nextProjectionEpoch := by
  unfold finishImportAction at h
  split at h
  · cases h
  · obtain ⟨-, -, h⟩ := bind_eq_ok.mp h
    obtain ⟨-, -, h⟩ := bind_eq_ok.mp h
    obtain ⟨-, -, h⟩ := bind_eq_ok.mp h
    cases h
    rfl

theorem next_finishProjectionAction {result : ProjectionActionResult}
    (h : rt.finishProjectionAction result = .ok rt') :
    rt'.nextProjectionEpoch = rt.nextProjectionEpoch := by
  unfold finishProjectionAction at h
  split at h
  · cases h
  · obtain ⟨-, -, h⟩ := bind_eq_ok.mp h
    obtain ⟨-, -, h⟩ := bind_eq_ok.mp h
    obtain ⟨-, -, h⟩ := bind_eq_ok.mp h
    cases h
    rfl

end SemanticRuntimeState

/-- What runs has reserved an epoch, or has found a plan in it. -/
def RunningPlays (running : Option (RunningOp D)) (epoch : Nat) : Prop :=
  (∃ boundary, running = some (.started (.getNextWork epoch boundary))) ∨
    ∃ boundary started, running = some (.committed (.getNextWork boundary (.project started))) ∧
      started.epoch = epoch

theorem not_runningPlays_none {epoch : Nat} : ¬RunningPlays (none : Option (RunningOp D)) epoch := by
  rintro (⟨_, h⟩ | ⟨_, _, h, -⟩) <;> cases h

namespace SemanticLane

variable {lane lane' : SemanticLane D}

/-- The epochs of the actor have moved on, and nothing runs that plays in one of them. -/
structure Quiet (lane lane' : SemanticLane D) : Prop where
  next_eq : lane'.runtime.nextProjectionEpoch = lane.runtime.nextProjectionEpoch
  running : ∀ epoch, ¬RunningPlays lane'.running epoch

/-- A task other than a request for the next work does not play in an epoch. -/
theorem quiet_push {rt : SemanticRuntimeState D} {task : SemanticTask D}
    (hnext : rt.nextProjectionEpoch = lane.runtime.nextProjectionEpoch)
    (htask : ∀ epoch boundary, task ≠ .getNextWork epoch boundary) :
    lane.Quiet ({ lane with runtime := rt }.push task) where
  next_eq := hnext
  running := by
    rintro epoch (⟨boundary, h⟩ | ⟨_, _, h, -⟩)
    · cases h
      exact htask _ _ rfl
    · cases h

theorem quiet_startCommitImportEpoch {epoch : Nat} (h : lane.startCommitImportEpoch epoch = .ok lane') :
    lane.Quiet lane' := by
  obtain ⟨⟨completed, rt⟩, hfinish, heq⟩ := bind_eq_ok.mp h
  cases heq
  obtain ⟨active, -, hfinish⟩ := bind_eq_ok.mp hfinish
  obtain ⟨-, -, hfinish⟩ := bind_eq_ok.mp hfinish
  obtain ⟨-, -, hfinish⟩ := bind_eq_ok.mp hfinish
  cases hfinish
  exact quiet_push rfl nofun

theorem quiet_startCommitProjectionEpoch {epoch : Nat} {reason : ProjectionEpochEndReason}
    (h : lane.startCommitProjectionEpoch epoch reason = .ok lane') : lane.Quiet lane' := by
  obtain ⟨⟨completed, rt⟩, hfinish, heq⟩ := bind_eq_ok.mp h
  cases heq
  obtain ⟨active, -, hfinish⟩ := bind_eq_ok.mp hfinish
  obtain ⟨-, -, hfinish⟩ := bind_eq_ok.mp hfinish
  obtain ⟨-, -, hfinish⟩ := bind_eq_ok.mp hfinish
  cases hfinish
  exact quiet_push rfl nofun

/-- Starting a request reserves the next projection epoch for it, or leaves the epochs alone. -/
theorem startRequest_epochs {message : SemanticMessage D} (hrunning : lane.running = none)
    (h : lane.startRequest message = .ok lane') :
    (lane'.runtime.nextProjectionEpoch = lane.runtime.nextProjectionEpoch + 1 ∧
      ∀ epoch, RunningPlays lane'.running epoch → epoch = lane.runtime.nextProjectionEpoch) ∨
      lane.Quiet lane' := by
  cases message with
  | getNextWork boundary =>
    obtain ⟨⟨epoch, rt⟩, hreserve, heq⟩ := bind_eq_ok.mp h
    cases heq
    unfold SemanticRuntimeState.reserveProjectionEpoch at hreserve
    split at hreserve
    · cases hreserve
    · cases hreserve
      refine .inl ⟨rfl, ?_⟩
      rintro epoch (⟨_, h⟩ | ⟨_, _, h, -⟩)
      · cases h
        rfl
      · cases h
  | applyInitScan scan =>
    obtain ⟨⟨epoch, rt⟩, hreserve, heq⟩ := bind_eq_ok.mp h
    cases heq
    unfold SemanticRuntimeState.reserveImportEpoch at hreserve
    split at hreserve
    · cases hreserve
    · cases hreserve
      exact .inr (quiet_push rfl nofun)
  | applyScan scan =>
    obtain ⟨⟨epoch, rt⟩, hreserve, heq⟩ := bind_eq_ok.mp h
    cases heq
    unfold SemanticRuntimeState.reserveImportEpoch at hreserve
    split at hreserve
    · cases hreserve
    · cases hreserve
      exact .inr (quiet_push rfl nofun)
  | commitImportAction result checked =>
    obtain ⟨context, -, heq⟩ := bind_eq_ok.mp h
    cases heq
    exact .inr (quiet_push rfl nofun)
  | commitProjectionAction result checked =>
    obtain ⟨context, -, heq⟩ := bind_eq_ok.mp h
    cases heq
    exact .inr (quiet_push rfl nofun)
  | commitImportEpoch epoch =>
    obtain ⟨active, -, heq⟩ := bind_eq_ok.mp h
    obtain ⟨-, -, heq⟩ := bind_eq_ok.mp heq
    obtain ⟨complete, -, heq⟩ := bind_eq_ok.mp heq
    split_ifs at heq
    · exact .inr (quiet_startCommitImportEpoch heq)
    · cases heq
      exact .inr ⟨rfl, fun epoch => by rw [hrunning]; exact not_runningPlays_none⟩
  | commitProjectionEpoch epoch reason =>
    obtain ⟨active, -, heq⟩ := bind_eq_ok.mp h
    obtain ⟨-, -, heq⟩ := bind_eq_ok.mp heq
    obtain ⟨ready, -, heq⟩ := bind_eq_ok.mp heq
    split_ifs at heq
    · exact .inr (quiet_startCommitProjectionEpoch heq)
    · cases heq
      exact .inr ⟨rfl, fun epoch => by rw [hrunning]; exact not_runningPlays_none⟩
  | readStableNamespace =>
    cases h
    exact .inr (quiet_push rfl nofun)
  | service call =>
    cases h
    exact .inr (quiet_push rfl nofun)

/-- Nothing that has ended plays in an epoch. -/
theorem quiet_of_none (hrunning : lane'.running = none)
    (hnext : lane'.runtime.nextProjectionEpoch = lane.runtime.nextProjectionEpoch) :
    lane.Quiet lane' where
  next_eq := hnext
  running epoch := by
    rw [hrunning]
    exact not_runningPlays_none

/-- A finished request leaves the epochs alone; a plan that was found is in its reply. -/
theorem finishTaskResult_epochs (lane : SemanticLane D) {result : SemanticTaskResult D}
    {finished : Finished D}
    (hd : lane.Undeferred) (hrunning : lane.running = none)
    (h : lane.finishTaskResult result = .ok finished) :
    lane.Quiet finished.lane ∧
      ∀ boundary work, .getNextWork boundary work ∈ finished.replies →
        result = .getNextWork boundary work := by
  cases result with
  | applyInitScan started =>
    obtain ⟨rt, hinstall, heq⟩ := bind_eq_ok.mp h
    cases heq
    refine ⟨quiet_of_none hrunning ?_, by simp⟩
    exact SemanticRuntimeState.next_installImportEpoch hinstall
  | applyScan output =>
    obtain ⟨work, effects⟩ := output
    cases work with
    | importEpoch started =>
      obtain ⟨rt, hinstall, heq⟩ := bind_eq_ok.mp h
      cases heq
      refine ⟨quiet_of_none hrunning ?_, by simp⟩
      exact SemanticRuntimeState.next_installImportEpoch hinstall
    | _ =>
      cases h
      exact ⟨quiet_of_none hrunning rfl, by simp⟩
  | commitImportAction id checked =>
    obtain ⟨rt, hfinish, heq⟩ := bind_eq_ok.mp h
    obtain ⟨lane', hdeferred, heq⟩ := bind_eq_ok.mp heq
    rw [startReadyDeferredImportEpochCommit, hd.deferredImport] at hdeferred
    cases hdeferred
    cases heq
    refine ⟨quiet_of_none hrunning ?_, by split_ifs <;> simp⟩
    exact SemanticRuntimeState.next_finishImportAction hfinish
  | commitProjectionAction result checked =>
    obtain ⟨rt, hfinish, heq⟩ := bind_eq_ok.mp h
    obtain ⟨lane', hdeferred, heq⟩ := bind_eq_ok.mp heq
    rw [startReadyDeferredProjectionEpochCommit, hd.deferredProjection] at hdeferred
    cases hdeferred
    cases heq
    refine ⟨quiet_of_none hrunning ?_, by split_ifs <;> simp⟩
    exact SemanticRuntimeState.next_finishProjectionAction hfinish
  | getNextWork boundary work =>
    cases work with
    | project started =>
      obtain ⟨rt, hinstall, heq⟩ := bind_eq_ok.mp h
      cases heq
      refine ⟨quiet_of_none hrunning ?_, by simp⟩
      exact SemanticRuntimeState.next_installProjectionEpoch hinstall
    | _ =>
      cases h
      exact ⟨quiet_of_none hrunning rfl, by simp⟩
  | service call effects =>
    cases h
    refine ⟨quiet_of_none hrunning rfl, fun boundary work hmem => ?_⟩
    cases call <;> simp at hmem
  | _ =>
    cases h
    exact ⟨quiet_of_none hrunning rfl, by simp⟩

end SemanticLane

/-! ## Epochs in play -/

namespace Session

/-- The next projection epoch of a session. -/
def nextProjectionEpoch (s : Session D) : Nat := s.lane.runtime.nextProjectionEpoch

/-- A projection epoch is in play: it is being planned, its plan is on the way to the engine, or the
engine dispatches it. -/
def InPlay (s : Session D) (epoch : Nat) : Prop :=
  s.engine.phase.Dispatches epoch ∨ RunningPlays s.lane.running epoch ∨
    ∃ boundary started, .getNextWork boundary (.project started) ∈ s.replies ∧
      started.epoch = epoch

/-- What one step does to the projection epochs: those in play were in play, or one was reserved. -/
structure EpochStep (s s' : Session D) : Prop where
  next_le : s.nextProjectionEpoch ≤ s'.nextProjectionEpoch
  inPlay : ∀ epoch, s'.InPlay epoch → s.InPlay epoch ∨
    (epoch = s.nextProjectionEpoch ∧ s.nextProjectionEpoch < s'.nextProjectionEpoch)

/-- A branch of the engine's loop that starts to dispatch no epoch but one that is in play. -/
theorem epochStep_resume {s s₁ s' : Session D} {e : Except EngineBail (Engine D)}
    (h : s₁.resume e = .ok s') (hlane : s₁.lane = s.lane)
    (hreplies : ∀ reply ∈ s₁.replies, reply ∈ s.replies)
    (hphase : ∀ e₀, e = .ok e₀ → ∀ epoch, e₀.phase.Dispatches epoch → s.InPlay epoch) :
    EpochStep s s' := by
  obtain ⟨e₀, e', he₀, hdrive, rfl⟩ := resume_eq_ok h
  refine ⟨by rw [nextProjectionEpoch, nextProjectionEpoch, ← hlane], ?_⟩
  rintro epoch (hdispatches | hrunning | ⟨boundary, started, hreply, hepoch⟩)
  · exact .inl (hphase e₀ he₀ epoch (Engine.dispatches_drive hdrive hdispatches))
  · exact .inl (.inr (.inl (by rw [← hlane]; exact hrunning)))
  · exact .inl (.inr (.inr ⟨boundary, started, hreplies _ hreply, hepoch⟩))

/-- The plan that was found in an epoch is of that epoch. -/
theorem runningPlays_commit [TextCrdt D] [CharDiff] [Xxh3] [DecidableEq D] {task : SemanticTask D}
    {now : Timestamp} {objectId : ObjectId} {claimId : NamespaceClaimId} {db db' : Db D}
    {result : SemanticTaskResult D} (hrun : Runs (task.run now objectId claimId) db result db')
    {epoch : Nat} (h : RunningPlays (some (.committed result)) epoch) :
    RunningPlays (some (.started task)) epoch := by
  obtain ⟨_, h⟩ | ⟨boundary, started, h, rfl⟩ := h
  · cases h
  · cases h
    obtain ⟨epoch, rfl, hwork⟩ := runs_task_getNextWork hrun
    obtain ⟨-, hwork⟩ := runs_getNextWorkTx hwork
    split_ifs at hwork
    cases hwork
    exact .inl ⟨boundary, rfl⟩

section Epochs

variable {s s' : Session D} {epoch : Nat}

/-- A projection epoch that was in play and is not any more. -/
structure Past (s : Session D) (epoch : Nat) : Prop where
  reserved : epoch < s.nextProjectionEpoch
  ended : ¬s.InPlay epoch

/-- A past epoch stays past. -/
theorem Past.step (hpast : s.Past epoch) (h : EpochStep s s') : s'.Past epoch where
  reserved := hpast.reserved.trans_le h.next_le
  ended hplay := by
    rcases h.inPlay epoch hplay with hold | ⟨rfl, -⟩
    · exact hpast.ended hold
    · exact lt_irrefl _ hpast.reserved

/-- Every epoch in play has been reserved. -/
def Reserved (s : Session D) : Prop := ∀ epoch, s.InPlay epoch → epoch < s.nextProjectionEpoch

theorem Reserved.step (hreserved : s.Reserved) (h : EpochStep s s') : s'.Reserved := by
  intro epoch hplay
  rcases h.inPlay epoch hplay with hold | ⟨rfl, hlt⟩
  · exact (hreserved epoch hold).trans_le h.next_le
  · exact hlt

end Epochs

section Steps

variable [TextCrdt D] [CharDiff] [Xxh3] [DecidableEq D] {s s' : Session D} {action : SessionAction D}

/-- Every step brings at most the next epoch into play. -/
theorem Coupled.epochStep (h : s.Coupled) (hstep : s.step action = some (.ok s')) :
    EpochStep s s' := by
  unfold Session.step at hstep
  cases action with
  | startRequest =>
    dsimp only at hstep
    split at hstep
    next message rest hrunning _ =>
      rw [Option.some.injEq, startRequest] at hstep
      split at hstep
      next lane hstart =>
        cases hstep
        obtain ⟨hnext, hplays⟩ | hquiet := SemanticLane.startRequest_epochs hrunning hstart
        · have hlt : s.nextProjectionEpoch < lane.runtime.nextProjectionEpoch := by
            rw [hnext]
            exact Nat.lt_succ_self _
          refine ⟨hlt.le, ?_⟩
          rintro epoch (hdispatches | hplay | hreply)
          · exact .inl (.inl hdispatches)
          · exact .inr ⟨hplays epoch hplay, hlt⟩
          · exact .inl (.inr (.inr hreply))
        · refine ⟨hquiet.next_eq.ge, ?_⟩
          rintro epoch (hdispatches | hplay | hreply)
          · exact .inl (.inl hdispatches)
          · exact absurd hplay (hquiet.running epoch)
          · exact .inl (.inr (.inr hreply))
      · cases hstep
    · cases hstep
  | commit now objectId claimId =>
    dsimp only at hstep
    split at hstep
    next task hrunning =>
      obtain ⟨⟨result, db⟩, hrun, heq⟩ := Option.map_eq_some_iff.mp hstep
      cases heq
      refine ⟨le_rfl, ?_⟩
      rintro epoch (hdispatches | hplay | hreply)
      · exact .inl (.inl hdispatches)
      · refine .inl (.inr (.inl ?_))
        rw [hrunning]
        exact runningPlays_commit (attempt_eq_some_iff.mp hrun) hplay
      · exact .inl (.inr (.inr hreply))
    · cases hstep
  | finish =>
    dsimp only at hstep
    split at hstep
    next result hrunning =>
      rw [Option.some.injEq, finish] at hstep
      split at hstep
      next finished hfinish =>
        cases hstep
        obtain ⟨hquiet, hreplies⟩ := SemanticLane.finishTaskResult_epochs
          { s.lane with running := none } ⟨h.undeferred.1, h.undeferred.2⟩ rfl hfinish
        refine ⟨hquiet.next_eq.ge, ?_⟩
        rintro epoch (hdispatches | hplay | ⟨boundary, started, hreply, hepoch⟩)
        · exact .inl (.inl hdispatches)
        · exact absurd hplay (hquiet.running epoch)
        · rcases List.mem_append.mp hreply with hreply | hreply
          · exact .inl (.inr (.inr ⟨boundary, started, hreply, hepoch⟩))
          · refine .inl (.inr (.inl (.inr ⟨boundary, started, ?_, hepoch⟩)))
            rw [hrunning, hreplies boundary _ hreply]
      · cases hstep
    · cases hstep
  | reply n =>
    obtain ⟨response, hreply, heq⟩ := Option.map_eq_some_iff.mp hstep
    refine epochStep_resume heq rfl (fun reply hmem => List.mem_of_mem_eraseIdx hmem) ?_
    intro e₀ he₀ epoch hdispatches
    obtain hold | ⟨boundary, started, rfl, hepoch⟩ :=
      Engine.dispatches_handleSemanticResponse he₀ hdispatches
    · exact .inl hold
    · exact .inr (.inr ⟨boundary, started, List.mem_of_getElem? hreply, hepoch⟩)
  | event =>
    dsimp only at hstep
    split at hstep
    · rw [Option.some.injEq] at hstep
      refine epochStep_resume hstep rfl (fun reply hmem => hmem) ?_
      rintro e₀ ⟨⟩ epoch hdispatches
      exact .inl (Engine.dispatches_handleSemanticEvent hdispatches)
    · cases hstep
  | fs n response =>
    obtain ⟨call, -, hstep⟩ := Option.bind_eq_some_iff.mp hstep
    split_ifs at hstep
    rw [Option.some.injEq] at hstep
    refine epochStep_resume hstep rfl (fun reply hmem => hmem) ?_
    intro e₀ he₀ epoch hdispatches
    exact .inl (Engine.dispatches_takeFsResponse he₀ hdispatches)
  | scan scope =>
    rw [Option.some.injEq] at hstep
    refine epochStep_resume hstep rfl (fun reply hmem => hmem) ?_
    rintro e₀ ⟨⟩ epoch hdispatches
    exact .inl (Engine.dispatches_requestScan hdispatches)
  | call call =>
    rw [Option.some.injEq] at hstep
    refine epochStep_resume hstep rfl (fun reply hmem => hmem) ?_
    rintro e₀ ⟨⟩ epoch hdispatches
    exact .inl hdispatches

end Steps

/-- An action of a projection is at the filesystem only while its epoch is dispatched. -/
theorem Coupled.dispatches_of_pending {s : Session D} (h : s.Coupled) {action : ProjectionAction D}
    (haction : .projectionAction action ∈ s.engine.fsClient.pending) :
    s.engine.phase.Dispatches action.id.epoch := by
  have hmem : .projectionAction action ∈ s.engine.fsClient.phaseCalls :=
    List.mem_filter.mpr ⟨haction, rfl⟩
  have hcoupled := h.engine.coupled
  generalize s.engine.phase = phase, phaseMessages s.engine.mailbox = queued,
    s.engine.fsClient.phaseCalls = calls,
    s.lane.running.filter RunningOp.isPhase = running,
    s.replies.filter SemanticResponse.isPhase = answered at hcoupled hmem ⊢
  cases hcoupled with
  | scanning => simp at hmem
  | dispatchingImports => simp at hmem
  | @dispatchingProjections epoch generation plan inFlight _ _ _ _ hprogress =>
    obtain ⟨action', haction', heq⟩ := List.mem_map.mp hmem
    cases heq
    have hepoch : action.id.epoch = epoch :=
      hprogress.epoch_of_rest (List.mem_append_left _ (List.mem_map_of_mem haction'))
    exact ⟨generation, plan, _, by rw [hepoch]⟩
  | _ => cases hmem

/-- While an epoch is dispatched no plan is found or on its way. -/
theorem Coupled.nothing_found {s : Session D} (h : s.Coupled) {epoch : Nat} (epoch' : Nat)
    (hdispatches : s.engine.phase.Dispatches epoch) :
    ¬RunningPlays s.lane.running epoch' ∧
      ∀ boundary work, .getNextWork boundary work ∉ s.replies := by
  obtain ⟨generation, plan, inFlight, hphase⟩ := hdispatches
  have hcoupled := h.engine.coupled
  rw [hphase] at hcoupled
  generalize hrunning : s.lane.running.filter RunningOp.isPhase = running at hcoupled
  generalize hreplies : s.replies.filter SemanticResponse.isPhase = answered at hcoupled
  generalize phaseMessages s.engine.mailbox = queued, s.engine.fsClient.phaseCalls = calls at hcoupled
  cases hcoupled with
  | dispatchingProjections inFlight hprogress =>
    constructor
    · rintro (⟨boundary, heq⟩ | ⟨boundary, started, heq, -⟩)
      · rw [heq, Option.filter_some_pos rfl] at hrunning
        subst hrunning
        cases hprogress.running
      · rw [heq, Option.filter_some_pos rfl] at hrunning
        subst hrunning
        cases hprogress.running
    · intro boundary work hmem
      have hfilter := List.mem_filter.mpr
        ⟨hmem, (rfl : (SemanticResponse.getNextWork boundary work).isPhase = true)⟩
      rw [hreplies] at hfilter
      cases hfilter

/-- A result that invalidates its epoch ends it. -/
theorem Coupled.past_of_invalidated [TextCrdt D] [CharDiff] [Xxh3] [DecidableEq D] {s s' : Session D}
    (h : s.Coupled) (hreserved : s.Reserved) {n : Nat} {result : ProjectionActionResult}
    (hstep : s.step (.fs n (.applyProjectionAction result)) = some (.ok s'))
    (hinvalid : result.invalidatesProjection = true) : s'.Past result.actionId.epoch := by
  have hepochs := h.epochStep hstep
  obtain ⟨call, hcall, hanswered⟩ := Option.bind_eq_some_iff.mp hstep
  split_ifs at hanswered with hanswer
  rw [Option.some.injEq, resume] at hanswered
  cases call with
  | projectionAction action =>
    have hid : result.actionId = action.id := of_decide_eq_true (Bool.and_eq_true_iff.mp hanswer).1
    have hdispatches := h.dispatches_of_pending (List.mem_of_getElem? hcall)
    rw [← hid] at hdispatches
    refine ⟨(hreserved _ (.inl hdispatches)).trans_le hepochs.next_le, ?_⟩
    obtain ⟨hrunning, hreplies⟩ := h.nothing_found result.actionId.epoch hdispatches
    split at hanswered
    next e' hdrive =>
      cases hanswered
      obtain ⟨e₀, he₀, hdrive⟩ := bind_eq_ok.mp hdrive
      obtain ⟨fs, -, he₀⟩ := bind_eq_ok.mp he₀
      rintro (hdispatches' | hplay | ⟨boundary, started, hreply, -⟩)
      · have hfalse := (Engine.dispatches_handleProjectionAction he₀
          (Engine.dispatches_drive hdrive hdispatches')).2
        rw [hinvalid] at hfalse
        cases hfalse
      · exact hrunning hplay
      · exact hreplies boundary _ hreply
    · cases hanswered
  | _ => cases hanswer

end Session

end Opbox
