import Opbox.Engine.EngineSteps
import Opbox.Engine.LaneSteps

/-!
# Sessions keep to their protocol

In every run of a session the engine and the semantic actor stay coupled, so that neither of them
ever stops on the other.
-/

namespace Opbox

variable {D : Type}

namespace Session

/-- The engine and the actor of a session are coupled. -/
structure Coupled (s : Session D) : Prop where
  engine : s.engine.CoupledWith s.lane.runtime (s.lane.running.filter RunningOp.isPhase)
    (s.replies.filter SemanticResponse.isPhase)
  undeferred : s.lane.Undeferred

/-- The engine comes to the top of its loop again. -/
theorem resume_ok {s : Session D} {e : Engine D}
    (he : e.CoupledWith s.lane.runtime (s.lane.running.filter RunningOp.isPhase)
      (s.replies.filter SemanticResponse.isPhase)) (hd : s.lane.Undeferred) :
    ∃ s', s.resume (.ok e) = .ok s' ∧ s'.Coupled ∧ s'.lane = s.lane ∧ s'.replies = s.replies ∧
      s'.events = s.events := by
  obtain ⟨e', hdrive, he'⟩ := he.drive
  refine ⟨{ s with engine := e' }, ?_, ⟨he', hd⟩, rfl, rfl, rfl⟩
  rw [resume, show (Except.ok e : Except EngineBail (Engine D)).bind Engine.drive = .ok e' from hdrive]

/-- A session starts coupled. -/
theorem start_ok (db : Db D) : ∃ s, start db = .ok s ∧ s.Coupled := by
  have hnew : (Engine.new : Engine D).CoupledWith .default none [] :=
    ⟨.idle ⟨rfl, rfl⟩, ⟨rfl, rfl⟩, fun _ => rfl⟩
  obtain ⟨s, hs, hcoupled, -⟩ := resume_ok
    (s := ⟨.new, .new db.clearStartupScratchTables, [], []⟩) (hnew.requestScan .full) ⟨rfl, rfl⟩
  exact ⟨s, hs, hcoupled⟩

/-- The actor starts its next request. -/
theorem startRequest_ok {s : Session D} (h : s.Coupled) {message : SemanticMessage D}
    {rest : List (SemanticMessage D)} (hrunning : s.lane.running = none)
    (hmailbox : s.engine.mailbox = message :: rest) :
    ∃ s', s.startRequest message rest = .ok s' ∧ s'.Coupled ∧ s'.lane.db = s.lane.db ∧
      ∃ task, s'.lane.running = some (.started task) := by
  obtain ⟨hcoupled, hcounted, hsettled⟩ := h.engine
  rw [hrunning] at hcoupled
  by_cases hphase : message.isPhase = true
  · have hmessages : phaseMessages s.engine.mailbox = message :: phaseMessages rest := by
      rw [hmailbox, phaseMessages, List.filter_cons_of_pos hphase]
      rfl
    rw [hmessages] at hcoupled
    obtain ⟨lane', task, heq, hstarted⟩ :=
      SemanticLane.startRequest_ok h.undeferred hrunning hcoupled
    refine ⟨{ s with engine := { s.engine with mailbox := rest }, lane := lane' },
      by rw [startRequest, heq], ⟨⟨?_, hcounted, hsettled⟩, hstarted.undeferred⟩, hstarted.db,
      task, hstarted.running⟩
    show Opbox.Coupled lane'.runtime s.engine.phase
      ⟨phaseMessages rest, lane'.running.filter RunningOp.isPhase, _, _⟩
    rw [hstarted.running, Option.filter_some_pos hstarted.isPhase]
    exact hstarted.coupled
  · cases message with
    | service call =>
      have hmessages : phaseMessages s.engine.mailbox = phaseMessages rest := by
        rw [hmailbox, phaseMessages, List.filter_cons_of_neg hphase]
        rfl
      rw [hmessages] at hcoupled
      exact ⟨_, rfl, ⟨⟨hcoupled, hcounted, hsettled⟩, ⟨h.undeferred.1, h.undeferred.2⟩⟩, rfl,
        .service call, rfl⟩
    | _ => exact absurd rfl hphase

/-- The actor finishes what ran. -/
theorem finish_ok {s : Session D} (h : s.Coupled) {result : SemanticTaskResult D}
    (hrunning : s.lane.running = some (.committed result)) :
    ∃ s', s.finish result = .ok s' ∧ s'.Coupled ∧ s'.lane.running = none ∧
      s'.lane.db = s.lane.db := by
  obtain ⟨hcoupled, hcounted, hsettled⟩ := h.engine
  rw [hrunning] at hcoupled
  by_cases hphase : (RunningOp.committed result).isPhase = true
  · rw [Option.filter_some_pos hphase] at hcoupled
    obtain ⟨finished, heq, hfinished⟩ := SemanticLane.finishTaskResult_ok
      { s.lane with running := none } ⟨h.undeferred.1, h.undeferred.2⟩ rfl hcoupled
    refine ⟨⟨s.engine, finished.lane, s.replies ++ finished.replies, s.events ++ finished.events⟩,
      by rw [finish, heq], ⟨⟨?_, hcounted, hsettled⟩, hfinished.undeferred⟩, hfinished.running, hfinished.db⟩
    show Opbox.Coupled finished.lane.runtime s.engine.phase
      ⟨phaseMessages s.engine.mailbox, finished.lane.running.filter RunningOp.isPhase,
        (s.replies ++ finished.replies).filter SemanticResponse.isPhase, _⟩
    rw [hfinished.running, List.filter_append, List.filter_eq_self.mpr hfinished.replies]
    exact hfinished.coupled
  · cases result with
    | service call effects =>
      rw [Option.filter_some_neg (Bool.eq_false_iff.mpr hphase)] at hcoupled
      refine ⟨_, rfl, ⟨⟨?_, hcounted, hsettled⟩, ⟨h.undeferred.1, h.undeferred.2⟩⟩, rfl, rfl⟩
      show Opbox.Coupled s.lane.runtime s.engine.phase ⟨phaseMessages s.engine.mailbox, none,
        (s.replies ++ _).filter SemanticResponse.isPhase, _⟩
      rw [List.filter_append]
      cases call with
      | trimOutbox through =>
        rw [List.filter_nil, List.append_nil]
        exact hcoupled
      | _ =>
        rw [List.filter_cons_of_neg (by simp [SemanticResponse.isPhase]), List.filter_nil,
          List.append_nil]
        exact hcoupled
    | _ => exact absurd rfl hphase

/-- The engine receives a reply. -/
theorem reply_ok {s : Session D} (h : s.Coupled) {n : Nat} {response : SemanticResponse D}
    (hreply : s.replies[n]? = some response) :
    ∃ s', { s with replies := s.replies.eraseIdx n }.resume
        (s.engine.handleSemanticResponse response) = .ok s' ∧ s'.Coupled := by
  have hengine := h.engine
  by_cases hphase : response.isPhase = true
  · have hlength := length_filter_eraseIdx hreply hphase
    obtain ⟨reply, hsingle⟩ : ∃ reply, s.replies.filter SemanticResponse.isPhase = [reply] := by
      have hle : (s.replies.filter SemanticResponse.isPhase).length ≤ 1 :=
        hengine.coupled.length_answered_le
      exact List.length_eq_one_iff.mp (by omega)
    obtain ⟨rfl, hnone⟩ := filter_eraseIdx_of_singleton hreply hphase hsingle
    rw [hsingle] at hengine
    obtain ⟨e', heq, he'⟩ := hengine.handleSemanticResponse
    rw [heq]
    obtain ⟨s', hs', hcoupled, -⟩ :=
      resume_ok (s := { s with replies := s.replies.eraseIdx n }) (by rw [hnone]; exact he') h.undeferred
    exact ⟨s', hs', hcoupled⟩
  · cases response with
    | service call =>
      have hsame := filter_eraseIdx_of_false hreply (Bool.eq_false_iff.mpr hphase)
      obtain ⟨s', hs', hcoupled, -⟩ := resume_ok (s := { s with replies := s.replies.eraseIdx n })
        (by rw [hsame]; exact hengine) h.undeferred
      exact ⟨s', hs', hcoupled⟩
    | _ => exact absurd rfl hphase

section Steps

variable [TextCrdt D] [CharDiff] [Xxh3] [DecidableEq D] {s : Session D} {action : SessionAction D}
  {outcome : Except SessionAbort (Session D)}

/-- A service call gives its effects. -/
theorem runs_service_task {call : ServiceCall D} {now : Timestamp} {objectId : ObjectId}
    {claimId : NamespaceClaimId} {db db' : Db D} {result : SemanticTaskResult D}
    (h : Runs ((SemanticTask.service call).run now objectId claimId) db result db') :
    ∃ effects, result = .service call effects ∧ Runs call.run db effects db' := by
  simp only [SemanticTask.run, Runs.bind_iff, Runs.pure_iff] at h
  obtain ⟨effects, _, hrun, rfl, rfl⟩ := h
  exact ⟨effects, rfl, hrun⟩

/-- The running transaction commits. -/
theorem commit_ok (h : s.Coupled) {task : SemanticTask D} {now : Timestamp} {objectId : ObjectId}
    {claimId : NamespaceClaimId} {result : SemanticTaskResult D} {db : Db D}
    (hrunning : s.lane.running = some (.started task))
    (hrun : Runs (task.run now objectId claimId) s.lane.db result db) :
    { s with lane := { s.lane with db := db, running := some (.committed result) } }.Coupled := by
  obtain ⟨hcoupled, hcounted, hsettled⟩ := h.engine
  refine ⟨⟨?_, hcounted, hsettled⟩, ⟨h.undeferred.1, h.undeferred.2⟩⟩
  rw [hrunning] at hcoupled
  show Opbox.Coupled s.lane.runtime s.engine.phase
    ⟨_, (some (RunningOp.committed result)).filter RunningOp.isPhase, _, _⟩
  by_cases hphase : (RunningOp.started task).isPhase = true
  · rw [Option.filter_some_pos hphase] at hcoupled
    obtain ⟨hphase', hcoupled'⟩ := hcoupled.commit hrun
    rw [Option.filter_some_pos hphase']
    exact hcoupled'
  · cases task with
    | service call =>
      obtain ⟨effects, rfl, -⟩ := runs_service_task hrun
      exact hcoupled
    | _ => exact absurd rfl hphase

/-- Every step of a coupled session leads to a coupled session. -/
theorem Coupled.step (h : s.Coupled) (hstep : s.step action = some outcome) :
    ∃ s', outcome = .ok s' ∧ s'.Coupled := by
  unfold Session.step at hstep
  cases action with
  | startRequest =>
    dsimp only at hstep
    split at hstep
    next message rest hrunning hmailbox =>
      cases hstep
      obtain ⟨s', hs', hcoupled, -⟩ := startRequest_ok h hrunning hmailbox
      exact ⟨s', hs', hcoupled⟩
    · cases hstep
  | commit now objectId claimId =>
    dsimp only at hstep
    split at hstep
    next task hrunning =>
      obtain ⟨⟨result, db⟩, hrun, rfl⟩ := Option.map_eq_some_iff.mp hstep
      exact ⟨_, rfl, commit_ok h hrunning (attempt_eq_some_iff.mp hrun)⟩
    · cases hstep
  | finish =>
    dsimp only at hstep
    split at hstep
    next result hrunning =>
      cases hstep
      obtain ⟨s', hs', hcoupled, -⟩ := finish_ok h hrunning
      exact ⟨s', hs', hcoupled⟩
    · cases hstep
  | reply n =>
    obtain ⟨response, hreply, rfl⟩ := Option.map_eq_some_iff.mp hstep
    exact reply_ok h hreply
  | event =>
    dsimp only at hstep
    split at hstep
    next event rest hevents =>
      cases hstep
      obtain ⟨s', hs', hcoupled, -⟩ := resume_ok (s := { s with events := rest })
        (h.engine.handleSemanticEvent event) h.undeferred
      exact ⟨s', hs', hcoupled⟩
    · cases hstep
  | fs n response =>
    obtain ⟨call, hcall, hstep⟩ := Option.bind_eq_some_iff.mp hstep
    split_ifs at hstep with hanswer
    cases hstep
    obtain ⟨e', heq, he'⟩ := h.engine.takeFsResponse hcall hanswer
    obtain ⟨s', hs', hcoupled, -⟩ := resume_ok he' h.undeferred
    exact ⟨s', by rw [heq]; exact hs', hcoupled⟩
  | scan scope =>
    cases hstep
    obtain ⟨s', hs', hcoupled, -⟩ := resume_ok (h.engine.requestScan scope) h.undeferred
    exact ⟨s', hs', hcoupled⟩
  | call call =>
    cases hstep
    obtain ⟨s', hs', hcoupled, -⟩ := resume_ok (h.engine.sendService call) h.undeferred
    exact ⟨s', hs', hcoupled⟩

end Steps

end Session

end Opbox
