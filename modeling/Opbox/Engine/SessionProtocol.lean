import Opbox.Crdt.Snapshots
import Opbox.Engine.ProjectionEpochs

/-!
# The protocol between the engine and the semantic actor

What a run of a session never does: it never comes to a stop, it never has two requests of the phases
at the filesystem, it dispatches nothing of a projection epoch after a result has invalidated it, and
it commits an exhausted plan only with one success for each of its actions.
-/

namespace Opbox

variable {D : Type}

/-- The completed epoch has one result for each action of the plan, and every result is a success. -/
structure CompletedProjectionEpoch.Exhausts (completed : CompletedProjectionEpoch D)
    (started : ProjectionEpochStarted D) : Prop where
  epoch : completed.epoch = started.epoch
  /-- The actions of the plan, none of them twice. -/
  actions : completed.actions.map CompletedProjectionAction.actionId =
    started.actions.map ProjectionAction.id
  nodup : (started.actions.map ProjectionAction.id).Nodup
  result : ∀ action ∈ completed.actions, action.result.actionId = action.actionId ∧
    action.result.invalidatesProjection = false

/-- The actions of a plan keep their order when every one of them has a result. -/
theorem map_actionId_finish {results : List ProjectionActionResult} {actions : List (ProjectionAction D)}
    (h : ∀ action ∈ actions, action.id ∈ results.map ProjectionActionResult.actionId) :
    (actions.filterMap fun action =>
      (results.find? fun result => decide (result.actionId = action.id)).map fun result =>
        CompletedProjectionAction.mk action.id action.commitContext result).map
          CompletedProjectionAction.actionId = actions.map ProjectionAction.id := by
  induction actions with
  | nil => rfl
  | cons action actions ih =>
    obtain ⟨result, hresult, hid⟩ := List.mem_map.mp (h action List.mem_cons_self)
    obtain ⟨found, hfound⟩ : ∃ found,
        results.find? (fun result => decide (result.actionId = action.id)) = some found := by
      rw [← Option.isSome_iff_exists, List.find?_isSome]
      exact ⟨result, hresult, decide_eq_true hid⟩
    have htail := ih fun action' haction' => h action' (List.mem_cons_of_mem _ haction')
    rw [List.filterMap_cons, hfound, Option.map_some, List.map_cons, List.map_cons, htail]

/-- An epoch whose results are all there and valid is finished exhausted. -/
theorem ProjectionInProgress.exhausts {rt : SemanticRuntimeState D} {epoch : Nat}
    {active : ActiveProjectionEpoch D} {ran : List ProjectionActionResult} {valid : Prop}
    (h : ProjectionInProgress rt epoch none [] [] valid active ran) (hvalid : valid) :
    active.finish.Exhausts active.started where
  epoch := rfl
  actions := map_actionId_finish h.mem_completed
  nodup := h.numbered.nodup
  result := by
    have hran : ran = [] := by cases h.running; rfl
    intro completed hcompleted
    obtain ⟨action, -, hfind⟩ := List.mem_filterMap.mp hcompleted
    obtain ⟨result, hresult, rfl⟩ := Option.map_eq_some_iff.mp hfind
    have hid : result.actionId = action.id := by simpa using List.find?_some hresult
    refine ⟨hid, h.succeeded hvalid result ?_⟩
    rw [hran, List.append_nil, List.append_nil, List.mem_reverse]
    exact List.mem_of_find?_eq_some hresult

namespace Session

/-- Nothing is in play when a session starts. -/
theorem reserved_start {db : Db D} {s : Session D} (h : start db = .ok s) : s.Reserved := by
  have hstep : EpochStep ⟨.new, .new db.clearStartupScratchTables, [], []⟩ s := by
    refine epochStep_resume h rfl (fun reply hmem => hmem) ?_
    rintro e ⟨⟩ epoch hdispatches
    exact .inl (Engine.dispatches_requestScan hdispatches)
  refine Reserved.step ?_ hstep
  rintro epoch (⟨_, _, _, hphase⟩ | hplay | ⟨_, _, hreply, -⟩)
  · cases hphase
  · exact absurd hplay not_runningPlays_none
  · cases hreply

/-- No action of a past epoch is at the filesystem. -/
theorem Coupled.not_pending_of_past {s : Session D} (h : s.Coupled) {epoch : Nat} (hpast : s.Past epoch)
    {action : ProjectionAction D} (hpending : .projectionAction action ∈ s.engine.fsClient.pending) :
    action.id.epoch ≠ epoch := by
  rintro rfl
  exact hpast.ended (.inl (h.dispatches_of_pending hpending))

/-- A request whose start commits an exhausted plan is the request of the commit, and the plan has
its results. -/
theorem Coupled.exhausts_of_startRequest {s : Session D} (h : s.Coupled) {message : SemanticMessage D}
    {rest : List (SemanticMessage D)} {lane : SemanticLane D} {completed : CompletedProjectionEpoch D}
    (hrunning : s.lane.running = none) (hmailbox : s.engine.mailbox = message :: rest)
    (hstart : s.lane.startRequest message = .ok lane)
    (hlane : lane.running = some (.started (.commitProjectionEpoch completed .planExhausted))) :
    ∃ active, s.lane.runtime.activeProjection = some active ∧ completed.Exhausts active.started := by
  obtain ⟨epoch, reason, rfl⟩ : ∃ epoch reason, message = .commitProjectionEpoch epoch reason := by
    cases message with
    | commitProjectionEpoch epoch reason => exact ⟨epoch, reason, rfl⟩
    | commitImportEpoch epoch =>
      obtain ⟨active, -, hstart⟩ := bind_eq_ok.mp hstart
      obtain ⟨-, -, hstart⟩ := bind_eq_ok.mp hstart
      obtain ⟨complete, -, hstart⟩ := bind_eq_ok.mp hstart
      split_ifs at hstart
      · obtain ⟨⟨finished, rt⟩, -, hstart⟩ := bind_eq_ok.mp hstart
        cases hstart
        cases hlane
      · cases hstart
        rw [hrunning] at hlane
        cases hlane
    | readStableNamespace =>
      cases hstart
      cases hlane
    | service call =>
      cases hstart
      cases hlane
    | commitImportAction result checked =>
      obtain ⟨context, -, hstart⟩ := bind_eq_ok.mp hstart
      cases hstart
      cases hlane
    | commitProjectionAction result checked =>
      obtain ⟨context, -, hstart⟩ := bind_eq_ok.mp hstart
      cases hstart
      cases hlane
    | _ =>
      obtain ⟨⟨epoch, rt⟩, -, hstart⟩ := bind_eq_ok.mp hstart
      cases hstart
      cases hlane
  obtain ⟨hcoupled, -, -⟩ := h.engine
  have hqueued : phaseMessages s.engine.mailbox =
      .commitProjectionEpoch epoch reason :: phaseMessages rest := by
    rw [hmailbox, phaseMessages, List.filter_cons_of_pos rfl]
    rfl
  rw [hqueued, hrunning] at hcoupled
  generalize phaseMessages rest = queued' at hcoupled
  generalize hmessages : SemanticMessage.commitProjectionEpoch epoch reason :: queued' = queued
    at hcoupled
  generalize s.engine.phase = phase, s.engine.fsClient.phaseCalls = calls,
    s.replies.filter SemanticResponse.isPhase = answered,
    hop : Option.filter RunningOp.isPhase (none : Option (RunningOp D)) = op at hcoupled
  cases hcoupled with
  | @dispatchingImports _ _ _ results => cases results <;> cases hmessages
  | @committingImport _ results => cases results <;> cases hmessages
  | @dispatchingProjections _ _ _ _ results => cases results <;> cases hmessages
  | @drainingProjections _ _ _ _ results => cases results <;> cases hmessages
  | @committingProjection _ _ reason' dropped results _ active ran hprogress hdropped =>
    cases hop
    cases results with
    | cons => cases hmessages
    | nil =>
      cases hmessages
      rw [SemanticLane.startProjectionEpoch_ok h.undeferred hrunning hprogress hdropped] at hstart
      cases hstart
      cases hlane
      rw [hdropped rfl] at hprogress
      exact ⟨active, hprogress.activeProjection, hprogress.exhausts rfl⟩
  | _ => cases hmessages

section Runs

variable [TextCrdt D] [CharDiff] [Xxh3] [DecidableEq D] {s s' t : Session D}
  {action : SessionAction D} {actions : List (SessionAction D)}
  {outcome : Except SessionAbort (Session D)}

/-- Every state that is reached is coupled, and its epochs in play have been reserved. -/
theorem reached_ok (h : (sessionMachine (D := D)).Reached outcome) :
    ∃ s, outcome = .ok s ∧ s.Coupled ∧ s.Reserved := by
  refine Machine.Reachable.invariant (I := fun outcome => ∃ s, outcome = .ok s ∧ s.Coupled ∧
    s.Reserved) ?_ ?_ h
  · rintro _ ⟨db, rfl⟩
    obtain ⟨s, hs, hcoupled⟩ := start_ok db
    exact ⟨s, hs, hcoupled, reserved_start hs⟩
  · rintro _ action outcome - ⟨s, rfl, hcoupled, hreserved⟩ - hstep
    obtain ⟨s', rfl, hcoupled'⟩ := hcoupled.step hstep
    exact ⟨s', rfl, hcoupled', hreserved.step (hcoupled.epochStep hstep)⟩

/-- A past epoch stays past in every run. -/
theorem Coupled.past_exec (h : s.Coupled) {epoch : Nat} (hpast : s.Past epoch)
    (hexec : sessionMachine.exec (.ok s) actions = some (.ok t)) : t.Coupled ∧ t.Past epoch := by
  induction actions generalizing s with
  | nil =>
    cases hexec
    exact ⟨h, hpast⟩
  | cons action actions ih =>
    obtain ⟨outcome, hstep, hexec⟩ := Option.bind_eq_some_iff.mp hexec
    obtain ⟨s', rfl, h'⟩ := h.step hstep
    exact ih h' (hpast.step (h.epochStep hstep)) hexec

omit [TextCrdt D] [CharDiff] [Xxh3] [DecidableEq D] in
/-- The engine leaves the lane alone. -/
theorem lane_resume {e : Except EngineBail (Engine D)} (h : s.resume e = .ok s') :
    s'.lane = s.lane := by
  obtain ⟨e₀, e', -, -, rfl⟩ := resume_eq_ok h
  rfl

/-- An exhausted plan is committed only with one success for each of its actions. -/
theorem Coupled.exhausts_of_step (h : s.Coupled) (hstep : s.step action = some (.ok s'))
    {completed : CompletedProjectionEpoch D}
    (hlane : s'.lane.running = some (.started (.commitProjectionEpoch completed .planExhausted)))
    (hnew : s'.lane.running ≠ s.lane.running) :
    ∃ active, s.lane.runtime.activeProjection = some active ∧ completed.Exhausts active.started := by
  unfold Session.step at hstep
  cases action with
  | startRequest =>
    dsimp only at hstep
    split at hstep
    next message rest hrunning hmailbox =>
      rw [Option.some.injEq, Session.startRequest] at hstep
      split at hstep
      next lane hstart =>
        cases hstep
        exact h.exhausts_of_startRequest hrunning hmailbox hstart hlane
      · cases hstep
    · cases hstep
  | commit now objectId claimId =>
    dsimp only at hstep
    split at hstep
    · obtain ⟨_, -, heq⟩ := Option.map_eq_some_iff.mp hstep
      cases heq
      cases hlane
    · cases hstep
  | finish =>
    dsimp only at hstep
    split at hstep
    next result hrunning =>
      obtain ⟨s'', hs'', -, hnone, -⟩ := finish_ok h hrunning
      rw [hs''] at hstep
      cases hstep
      rw [hnone] at hlane
      cases hlane
    · cases hstep
  | reply n =>
    obtain ⟨response, -, heq⟩ := Option.map_eq_some_iff.mp hstep
    exact absurd (congrArg SemanticLane.running (lane_resume heq)) hnew
  | event =>
    dsimp only at hstep
    split at hstep
    · rw [Option.some.injEq] at hstep
      exact absurd (congrArg SemanticLane.running (lane_resume hstep)) hnew
    · cases hstep
  | fs n response =>
    obtain ⟨call, -, hstep⟩ := Option.bind_eq_some_iff.mp hstep
    split_ifs at hstep
    rw [Option.some.injEq] at hstep
    exact absurd (congrArg SemanticLane.running (lane_resume hstep)) hnew
  | scan scope =>
    rw [Option.some.injEq] at hstep
    exact absurd (congrArg SemanticLane.running (lane_resume hstep)) hnew
  | call call =>
    rw [Option.some.injEq] at hstep
    exact absurd (congrArg SemanticLane.running (lane_resume hstep)) hnew

end Runs

end Session

/-- In every run the session never comes to a stop, has at most one request of a phase at the
filesystem, keeps the actions of an epoch away from the filesystem for good once a result has
invalidated it, and commits an exhausted plan only with one success for each of its actions. -/
theorem session_keeps_protocol [TextCrdt D] [CharDiff] [Xxh3] [DecidableEq D]
    {outcome : Except SessionAbort (Session D)} (h : (sessionMachine (D := D)).Reached outcome) :
    ∃ s, outcome = .ok s ∧
      (s.engine.fsClient.pending.filter FsCall.isPhase).length ≤ 1 ∧
      (∀ n result s₁, s.step (.fs n (.applyProjectionAction result)) = some (.ok s₁) →
        result.invalidatesProjection = true → ∀ actions t,
          sessionMachine.exec (.ok s₁) actions = some (.ok t) → ∀ action : ProjectionAction D,
            .projectionAction action ∈ t.engine.fsClient.pending →
              action.id.epoch ≠ result.actionId.epoch) ∧
      ∀ action s₁ completed, s.step action = some (.ok s₁) →
        s₁.lane.running = some (.started (.commitProjectionEpoch completed .planExhausted)) →
        s₁.lane.running ≠ s.lane.running →
          ∃ active, s.lane.runtime.activeProjection = some active ∧
            completed.Exhausts active.started := by
  obtain ⟨s, rfl, hcoupled, hreserved⟩ := Session.reached_ok h
  refine ⟨s, rfl, hcoupled.engine.coupled.length_calls_le, ?_, ?_⟩
  · intro n result s₁ hstep hinvalid actions t hexec action hpending
    obtain ⟨s', hs', hcoupled'⟩ := hcoupled.step hstep
    cases hs'
    have hpast := hcoupled.past_of_invalidated hreserved hstep hinvalid
    obtain ⟨hcoupled'', hpast'⟩ := hcoupled'.past_exec hpast hexec
    exact hcoupled''.not_pending_of_past hpast' hpending
  · intro action s₁ completed hstep hlane hnew
    exact hcoupled.exhausts_of_step hstep hlane hnew

open Snapshots

/-- A workspace whose only file another writer has deleted. -/
def deletedRemotely : Db Doc :=
  { Db.initialized Doc [1] 3 with
    priorTree := Table.empty.put ⟨rootFile 1, rootFile 1, [2], [1],
      contentFingerprint (fileStat 7 2 0) [104, 105], 0, none⟩ }

/-- The first scan finds the file as it was, and the delete is dispatched. -/
def dispatchDelete : List (SessionAction Doc) :=
  [.fs 0 (.scan (scanOf .full [(rootFile 1, fileStat 7 2 0)])), .startRequest, .commit 1 [3] [4],
    .finish, .reply 0, .startRequest, .commit 2 [3] [4], .finish, .reply 0]

/-- `session_keeps_protocol` where the delete of the first epoch runs into a conflict. -/
theorem session_keeps_protocol_conflict : ∃ s s₁ : Session Doc,
    s.step (.fs 0 (.applyProjectionAction (.deleteFile ⟨0, 0⟩ (.conflict none)))) = some (.ok s₁) ∧
      ∀ actions t, sessionMachine.exec (.ok s₁) actions = some (.ok t) →
        ∀ action : ProjectionAction Doc,
          .projectionAction action ∈ t.engine.fsClient.pending → action.id.epoch ≠ 0 := by
  have hrun : ((sessionMachine.exec (Session.start deletedRemotely) dispatchDelete).any
      fun outcome => match outcome with
        | .ok s => (s.step (.fs 0 (.applyProjectionAction
            (.deleteFile ⟨0, 0⟩ (.conflict none))))).any Except.isOk
        | .error _ => false) = true := by
    decide +kernel
  obtain ⟨outcome, hexec, hlast⟩ := Machine.exists_exec hrun
  obtain ⟨s, rfl, -, hpast, -⟩ :=
    session_keeps_protocol (Machine.reached_of_exec ⟨deletedRemotely, rfl⟩ hexec)
  obtain ⟨next, hstep, hok⟩ := Option.any_eq_true _ _ |>.mp hlast
  cases next with
  | error abort => cases hok
  | ok s₁ => exact ⟨s, s₁, hstep, hpast 0 _ s₁ hstep rfl⟩

end Opbox
