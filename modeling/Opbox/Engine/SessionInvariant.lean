import Opbox.Engine.Session

/-!
# How the engine and the semantic actor stay coupled

The phase of the engine determines what is under way: which requests of the phase wait in the mailbox
of the actor or run on its lane, which replies are under way to the engine, which request is at the
filesystem, and which epoch the actor has active.  During an epoch the actions of the plan are spread
over these places in the order of the plan: those with committed results come first, then the one
whose result is being committed, those whose results wait in the mailbox, the one at the filesystem,
and those that are still to be dispatched.
-/

namespace Opbox

variable {D : Type}

/-! ## Requests of the phases -/

/-- The request belongs to a phase. -/
def SemanticMessage.isPhase : SemanticMessage D → Bool
  | service _ => false
  | _ => true

/-- The reply belongs to a phase. -/
def SemanticResponse.isPhase : SemanticResponse D → Bool
  | service _ => false
  | _ => true

/-- What runs belongs to a phase. -/
def RunningOp.isPhase : RunningOp D → Bool
  | started (.service _) => false
  | committed (.service _ _) => false
  | _ => true

/-- What is under way for the phase of the engine. -/
structure Traffic (D : Type) where
  /-- The requests in the mailbox of the actor. -/
  queued : List (SemanticMessage D)
  /-- What runs on the lane. -/
  running : Option (RunningOp D)
  /-- The replies on their way to the engine. -/
  answered : List (SemanticResponse D)
  /-- The requests at the filesystem. -/
  calls : List (FsCall D)

/-- No epoch is active. -/
structure SemanticRuntimeState.Inactive (rt : SemanticRuntimeState D) : Prop where
  activeImport : rt.activeImport = none
  activeProjection : rt.activeProjection = none

/-- The work that a scan may give. -/
def NextWork.OfScan : NextWork D → Prop
  | none => True
  | importEpoch started => started.Numbered
  | project _ => False

/-- The work that a boundary may give. -/
def NextWork.OfBoundary : NextWork D → Prop
  | none => True
  | importEpoch _ => False
  | project started => started.Numbered

/-- The epoch of the work is the active one, and has no results. -/
inductive SemanticRuntimeState.Installed (rt : SemanticRuntimeState D) : NextWork D → Prop
  | none (h : rt.Inactive) : Installed rt .none
  | importEpoch {started : ImportEpochStarted}
      (hactive : rt.activeImport = some ⟨started.epoch, .sync, started.actions, []⟩)
      (hnone : rt.activeProjection = Option.none) : Installed rt (.importEpoch started)
  | project {started : ProjectionEpochStarted D}
      (hactive : rt.activeProjection = some ⟨started, []⟩)
      (hnone : rt.activeImport = Option.none) : Installed rt (.project started)

/-! ## Epochs in progress -/

/-- What runs on the lane while import results are committed, and the action it is about. -/
inductive ImportRunning : Option (RunningOp D) → List ImportActionId → Prop
  | none : ImportRunning none []
  | started {context : ImportActionContext} {result : ImportActionResult} :
      ImportRunning (some (.started (.commitImportAction context result false))) [result.actionId]
  | committed {id : ImportActionId} :
      ImportRunning (some (.committed (.commitImportAction id false))) [id]

/-- An import epoch in progress: the results that wait in the mailbox, and the actions of the plan
without a result. -/
structure ImportInProgress (rt : SemanticRuntimeState D) (epoch : Nat)
    (running : Option (RunningOp D)) (results : List ImportActionResult)
    (rest : List ImportActionId) (active : ActiveImportEpoch) (ran : List ImportActionId) :
    Prop where
  activeImport : rt.activeImport = some active
  activeProjection : rt.activeProjection = none
  epoch : active.epoch = epoch
  numbered : ImportEpochStarted.Numbered ⟨active.epoch, active.expected⟩
  running : ImportRunning running ran
  /-- The plan in its order. -/
  plan : active.completed.reverse ++ ran ++ results.map ImportActionResult.actionId ++ rest =
    active.expected.map ImportAction.id

/-- What runs on the lane while projection results are committed, and the result. -/
inductive ProjectionRunning : Option (RunningOp D) → List ProjectionActionResult → Prop
  | none : ProjectionRunning none []
  | started {context : ProjectionActionCommitContext D} {result : ProjectionActionResult} :
      ProjectionRunning (some (.started (.commitProjectionAction context result false))) [result]
  | committed {result : ProjectionActionResult} :
      ProjectionRunning (some (.committed (.commitProjectionAction result false))) [result]

/-- A projection epoch in progress: the results that wait in the mailbox, the actions of the plan
without a result, and whether the results so far have left the epoch valid. -/
structure ProjectionInProgress (rt : SemanticRuntimeState D) (epoch : Nat)
    (running : Option (RunningOp D)) (results : List ProjectionActionResult)
    (rest : List ProjectionActionId) (valid : Prop) (active : ActiveProjectionEpoch D)
    (ran : List ProjectionActionResult) : Prop where
  activeProjection : rt.activeProjection = some active
  activeImport : rt.activeImport = none
  epoch : active.started.epoch = epoch
  numbered : active.started.Numbered
  running : ProjectionRunning running ran
  /-- The plan in its order. -/
  plan : (active.completed.reverse ++ ran ++ results).map ProjectionActionResult.actionId ++ rest =
    active.started.actions.map ProjectionAction.id
  /-- In a valid epoch every result is a success. -/
  succeeded : valid → ∀ result ∈ active.completed.reverse ++ ran ++ results,
    result.invalidatesProjection = false

/-- Less may be claimed of an epoch. -/
theorem ProjectionInProgress.imp {rt : SemanticRuntimeState D} {epoch : Nat}
    {running : Option (RunningOp D)} {results : List ProjectionActionResult}
    {rest : List ProjectionActionId} {valid valid' : Prop} {active : ActiveProjectionEpoch D}
    {ran : List ProjectionActionResult}
    (h : ProjectionInProgress rt epoch running results rest valid active ran)
    (himp : valid' → valid) :
    ProjectionInProgress rt epoch running results rest valid' active ran :=
  { h with succeeded := fun hvalid => h.succeeded (himp hvalid) }

/-- The actions without a result are of the epoch. -/
theorem ImportInProgress.epoch_of_rest {rt : SemanticRuntimeState D} {epoch : Nat}
    {running : Option (RunningOp D)} {results : List ImportActionResult}
    {rest : List ImportActionId} {active : ActiveImportEpoch} {ran : List ImportActionId}
    (h : ImportInProgress rt epoch running results rest active ran) {id : ImportActionId}
    (hid : id ∈ rest) : id.epoch = epoch := by
  have hmem : id ∈ active.expected.map ImportAction.id := by
    rw [← h.plan]
    exact List.mem_append_right _ hid
  obtain ⟨action, haction, rfl⟩ := List.mem_map.mp hmem
  exact (h.numbered.epoch_eq haction).trans h.epoch

/-- A result that is to be committed is of the plan, and new. -/
theorem ImportInProgress.fits {rt : SemanticRuntimeState D} {epoch : Nat}
    {running : Option (RunningOp D)} {results : List ImportActionResult}
    {rest : List ImportActionId} {active : ActiveImportEpoch} {ran : List ImportActionId}
    (h : ImportInProgress rt epoch running results rest active ran) (id : ImportActionId)
    (hid : id ∈ ran ++ results.map ImportActionResult.actionId) :
    id.epoch = active.epoch ∧ id ∈ active.expected.map ImportAction.id ∧ id ∉ active.completed := by
  have hnodup := h.numbered.nodup
  have hplan := h.plan
  rw [List.append_assoc, List.append_assoc] at hplan
  rw [← hplan] at hnodup
  have hid' : id ∈ ran ++ (results.map ImportActionResult.actionId ++ rest) := by
    rw [← List.append_assoc]
    exact List.mem_append_left _ hid
  have hmem : id ∈ active.expected.map ImportAction.id := by
    rw [← hplan]
    exact List.mem_append_right _ hid'
  refine ⟨?_, hmem, fun hcompleted => ?_⟩
  · obtain ⟨action, haction, rfl⟩ := List.mem_map.mp hmem
    exact h.numbered.epoch_eq haction
  · exact (List.nodup_append.mp hnodup).2.2 id (List.mem_reverse.mpr hcompleted) id hid' rfl

/-- The result of the next action joins those that wait in the mailbox. -/
theorem ImportInProgress.receive {rt : SemanticRuntimeState D} {epoch : Nat}
    {running : Option (RunningOp D)} {results : List ImportActionResult}
    {result : ImportActionResult} {rest : List ImportActionId} {active : ActiveImportEpoch}
    {ran : List ImportActionId}
    (h : ImportInProgress rt epoch running results (result.actionId :: rest) active ran) :
    ImportInProgress rt epoch running (results ++ [result]) rest active ran where
  activeImport := h.activeImport
  activeProjection := h.activeProjection
  epoch := h.epoch
  numbered := h.numbered
  running := h.running
  plan := by
    rw [← h.plan, List.map_append, List.append_assoc _ (results.map _ ++ _),
      List.append_assoc (results.map _), List.append_assoc _ (results.map _)]
    rfl

/-- The actions without a result are of the epoch. -/
theorem ProjectionInProgress.epoch_of_rest {rt : SemanticRuntimeState D} {epoch : Nat}
    {running : Option (RunningOp D)} {results : List ProjectionActionResult}
    {rest : List ProjectionActionId} {valid : Prop} {active : ActiveProjectionEpoch D}
    {ran : List ProjectionActionResult}
    (h : ProjectionInProgress rt epoch running results rest valid active ran)
    {id : ProjectionActionId} (hid : id ∈ rest) : id.epoch = epoch := by
  have hmem : id ∈ active.started.actions.map ProjectionAction.id := by
    rw [← h.plan]
    exact List.mem_append_right _ hid
  obtain ⟨action, haction, rfl⟩ := List.mem_map.mp hmem
  exact (h.numbered.epoch_eq haction).trans h.epoch

/-- A result that is to be committed is of the plan, and new. -/
theorem ProjectionInProgress.fits {rt : SemanticRuntimeState D} {epoch : Nat}
    {running : Option (RunningOp D)} {results : List ProjectionActionResult}
    {rest : List ProjectionActionId} {valid : Prop} {active : ActiveProjectionEpoch D}
    {ran : List ProjectionActionResult}
    (h : ProjectionInProgress rt epoch running results rest valid active ran)
    (result : ProjectionActionResult) (hresult : result ∈ ran ++ results) :
    result.actionId.epoch = active.started.epoch ∧
      result.actionId ∈ active.started.actions.map ProjectionAction.id ∧
      result.actionId ∉ active.completed.map ProjectionActionResult.actionId := by
  have hnodup := h.numbered.nodup
  have hplan := h.plan
  rw [List.append_assoc, List.map_append, List.append_assoc] at hplan
  rw [← hplan] at hnodup
  have hid : result.actionId ∈ (ran ++ results).map ProjectionActionResult.actionId ++ rest :=
    List.mem_append_left _ (List.mem_map_of_mem hresult)
  have hmem : result.actionId ∈ active.started.actions.map ProjectionAction.id := by
    rw [← hplan]
    exact List.mem_append_right _ hid
  refine ⟨?_, hmem, fun hcompleted => ?_⟩
  · obtain ⟨action, haction, heq⟩ := List.mem_map.mp hmem
    rw [← heq]
    exact h.numbered.epoch_eq haction
  · refine (List.nodup_append.mp hnodup).2.2 _ ?_ _ hid rfl
    rw [List.map_reverse, List.mem_reverse]
    exact hcompleted

/-- The result of the next action joins those that wait in the mailbox. -/
theorem ProjectionInProgress.receive {rt : SemanticRuntimeState D} {epoch : Nat}
    {running : Option (RunningOp D)} {results : List ProjectionActionResult}
    {result : ProjectionActionResult} {rest : List ProjectionActionId} {valid : Prop}
    {active : ActiveProjectionEpoch D} {ran : List ProjectionActionResult}
    (h : ProjectionInProgress rt epoch running results (result.actionId :: rest) valid active ran) :
    ProjectionInProgress rt epoch running (results ++ [result]) rest
      (valid ∧ result.invalidatesProjection = false) active ran where
  activeProjection := h.activeProjection
  activeImport := h.activeImport
  epoch := h.epoch
  numbered := h.numbered
  running := h.running
  plan := by
    rw [← h.plan, ← List.append_assoc, List.map_append, List.append_assoc _ _ rest]
    rfl
  succeeded := by
    rintro ⟨hvalid, hsuccess⟩ result' hresult'
    rw [← List.append_assoc, List.mem_append, List.mem_singleton] at hresult'
    rcases hresult' with hold | rfl
    · exact h.succeeded hvalid result' hold
    · exact hsuccess

/-- How the phase of the engine, the epochs of the actor and what is under way belong together. -/
inductive Coupled (rt : SemanticRuntimeState D) : EnginePhase D → Traffic D → Prop
  | idle (h : rt.Inactive) : Coupled rt .idle ⟨[], none, [], []⟩
  | nextWorkAsked {boundary : Nat} {dirty : Bool} (h : rt.Inactive) :
      Coupled rt (.awaitingNextWork boundary dirty) ⟨[.getNextWork boundary], none, [], []⟩
  | nextWorkStarted {boundary epoch : Nat} {dirty : Bool} (h : rt.Inactive) :
      Coupled rt (.awaitingNextWork boundary dirty)
        ⟨[], some (.started (.getNextWork epoch boundary)), [], []⟩
  | nextWorkFound {boundary : Nat} {dirty : Bool} {work : NextWork D} (h : rt.Inactive)
      (hwork : work.OfBoundary) :
      Coupled rt (.awaitingNextWork boundary dirty)
        ⟨[], some (.committed (.getNextWork boundary work)), [], []⟩
  | nextWorkAnswered {boundary : Nat} {dirty : Bool} {work : NextWork D} (h : rt.Installed work)
      (hwork : work.OfBoundary) :
      Coupled rt (.awaitingNextWork boundary dirty) ⟨[], none, [.getNextWork boundary work], []⟩
  | scanning {scope : ScanScope} (h : rt.Inactive) :
      Coupled rt (.scanning scope) ⟨[], none, [], [.scan scope]⟩
  | scanQueued {scan : ScanResult} (h : rt.Inactive) :
      Coupled rt .planningImport ⟨[.applyScan scan], none, [], []⟩
  | scanStarted {scan : ScanResult} {epoch : Nat} (h : rt.Inactive) :
      Coupled rt .planningImport ⟨[], some (.started (.applyScan scan epoch)), [], []⟩
  | scanApplied {output : ApplyScanOutput D} (h : rt.Inactive) (hwork : output.nextWork.OfScan) :
      Coupled rt .planningImport ⟨[], some (.committed (.applyScan output)), [], []⟩
  | scanAnswered {work : NextWork D} (h : rt.Installed work) (hwork : work.OfScan) :
      Coupled rt .planningImport ⟨[], none, [.applyScan work], []⟩
  | dispatchingImports {epoch : Nat} {queue : List ImportAction} (inFlight : Option ImportAction)
      {results : List ImportActionResult} {running : Option (RunningOp D)}
      {active : ActiveImportEpoch} {ran : List ImportActionId}
      (h : ImportInProgress rt epoch running results
        (inFlight.toList.map ImportAction.id ++ queue.map ImportAction.id) active ran) :
      Coupled rt (.importing (.dispatching epoch queue (inFlight.toList.map ImportAction.id)))
        ⟨results.map (.commitImportAction · false), running, [],
          inFlight.toList.map .importAction⟩
  | committingImport {epoch : Nat} {results : List ImportActionResult}
      {running : Option (RunningOp D)} {active : ActiveImportEpoch} {ran : List ImportActionId}
      (h : ImportInProgress rt epoch running results [] active ran) :
      Coupled rt (.importing (.committing epoch))
        ⟨results.map (.commitImportAction · false) ++ [.commitImportEpoch epoch], running, [], []⟩
  | importCommitStarted {epoch : Nat} {completed : CompletedImportEpoch} (h : rt.Inactive) :
      Coupled rt (.importing (.committing epoch))
        ⟨[], some (.started (.commitImportEpoch completed)), [], []⟩
  | importCommitted {epoch : Nat} {effects : SemanticEffects} (h : rt.Inactive) :
      Coupled rt (.importing (.committing epoch))
        ⟨[], some (.committed (.commitImportEpoch effects)), [], []⟩
  | importCommitAnswered {epoch : Nat} (h : rt.Inactive) :
      Coupled rt (.importing (.committing epoch)) ⟨[], none, [.commitImportEpoch], []⟩
  | dispatchingProjections {epoch : Nat} {generation : SequenceNumber}
      {plan : List (ProjectionAction D)} (inFlight : Option (ProjectionAction D))
      {results : List ProjectionActionResult} {running : Option (RunningOp D)}
      {active : ActiveProjectionEpoch D} {ran : List ProjectionActionResult}
      (h : ProjectionInProgress rt epoch running results
        (inFlight.toList.map ProjectionAction.id ++ plan.map ProjectionAction.id) True active ran) :
      Coupled rt (.projecting (.dispatching epoch generation plan
          (inFlight.toList.map ProjectionAction.id)))
        ⟨results.map (.commitProjectionAction · false), running, [],
          inFlight.toList.map .projectionAction⟩
  | drainingProjections {epoch : Nat} {generation : SequenceNumber} {id : ProjectionActionId}
      {dropped : List ProjectionActionId} {results : List ProjectionActionResult}
      {running : Option (RunningOp D)} {active : ActiveProjectionEpoch D}
      {ran : List ProjectionActionResult}
      (h : ProjectionInProgress rt epoch running results dropped False active ran) :
      Coupled rt (.projecting (.draining epoch generation (.actionInvalidatedProjection id) []))
        ⟨results.map (.commitProjectionAction · false), running, [], []⟩
  | committingProjection {epoch : Nat} {generation : SequenceNumber}
      {reason : ProjectionEpochEndReason} {dropped : List ProjectionActionId}
      {results : List ProjectionActionResult} {running : Option (RunningOp D)}
      {active : ActiveProjectionEpoch D} {ran : List ProjectionActionResult}
      (h : ProjectionInProgress rt epoch running results dropped (reason = .planExhausted) active ran)
      (hdropped : reason = .planExhausted → dropped = []) :
      Coupled rt (.projecting (.committing epoch generation))
        ⟨results.map (.commitProjectionAction · false) ++ [.commitProjectionEpoch epoch reason],
          running, [], []⟩
  | projectionCommitStarted {epoch : Nat} {generation : SequenceNumber}
      {completed : CompletedProjectionEpoch D} {reason : ProjectionEpochEndReason}
      (h : rt.Inactive) :
      Coupled rt (.projecting (.committing epoch generation))
        ⟨[], some (.started (.commitProjectionEpoch completed reason)), [], []⟩
  | projectionCommitted {epoch : Nat} {generation : SequenceNumber} (h : rt.Inactive) :
      Coupled rt (.projecting (.committing epoch generation))
        ⟨[], some (.committed .commitProjectionEpoch), [], []⟩
  | projectionCommitAnswered {epoch : Nat} {generation : SequenceNumber} (h : rt.Inactive) :
      Coupled rt (.projecting (.committing epoch generation)) ⟨[], none, [.commitProjectionEpoch], []⟩

/-- At most one reply of a phase is on its way. -/
theorem Coupled.length_answered_le {rt : SemanticRuntimeState D} {phase : EnginePhase D}
    {traffic : Traffic D} (h : Coupled rt phase traffic) : traffic.answered.length ≤ 1 := by
  cases h <;> simp

/-- At most one request of a phase is at the filesystem. -/
theorem Coupled.length_calls_le {rt : SemanticRuntimeState D} {phase : EnginePhase D}
    {traffic : Traffic D} (h : Coupled rt phase traffic) : traffic.calls.length ≤ 1 := by
  cases h with
  | @dispatchingImports _ _ inFlight => cases inFlight <;> simp
  | @dispatchingProjections _ _ _ inFlight => cases inFlight <;> simp
  | _ => simp

/-! ## Requests of the phases in mailboxes -/

section Lists

variable {α : Type} {p : α → Bool}

/-- Taking out an element that does not count leaves those that count. -/
theorem filter_eraseIdx_of_false {xs : List α} {n : Nat} {x : α} (hx : xs[n]? = some x)
    (hp : p x = false) : (xs.eraseIdx n).filter p = xs.filter p := by
  induction xs generalizing n with
  | nil => rfl
  | cons y xs ih =>
    cases n with
    | zero =>
      cases hx
      rw [List.eraseIdx_cons_zero, List.filter_cons_of_neg (by simp [hp])]
    | succ n => rw [List.eraseIdx_cons_succ, List.filter_cons, List.filter_cons, ih hx]

/-- Taking out an element that counts leaves one less. -/
theorem length_filter_eraseIdx {xs : List α} {n : Nat} {x : α} (hx : xs[n]? = some x)
    (hp : p x = true) : ((xs.eraseIdx n).filter p).length + 1 = (xs.filter p).length := by
  induction xs generalizing n with
  | nil => cases hx
  | cons y xs ih =>
    cases n with
    | zero =>
      cases hx
      rw [List.eraseIdx_cons_zero, List.filter_cons_of_pos hp, List.length_cons]
    | succ n =>
      have hih := ih hx
      rw [List.eraseIdx_cons_succ, List.filter_cons, List.filter_cons]
      split_ifs
      · rw [List.length_cons, List.length_cons, hih]
      · exact hih

/-- Taking out the only element that counts leaves none. -/
theorem filter_eraseIdx_of_singleton {xs : List α} {n : Nat} {x y : α} (hx : xs[n]? = some x)
    (hp : p x = true) (hy : xs.filter p = [y]) : x = y ∧ (xs.eraseIdx n).filter p = [] := by
  have hmem : x ∈ xs.filter p := List.mem_filter.mpr ⟨List.mem_of_getElem? hx, hp⟩
  rw [hy] at hmem
  refine ⟨List.mem_singleton.mp hmem, List.length_eq_zero_iff.mp ?_⟩
  have hlength := length_filter_eraseIdx hx hp
  rw [hy, List.length_singleton] at hlength
  omega

end Lists

/-- The requests of the phases in the mailbox of the actor. -/
def phaseMessages (mailbox : List (SemanticMessage D)) : List (SemanticMessage D) :=
  mailbox.filter SemanticMessage.isPhase

theorem phaseMessages_append {message : SemanticMessage D} (h : message.isPhase = true)
    (mailbox : List (SemanticMessage D)) :
    phaseMessages (mailbox ++ [message]) = phaseMessages mailbox ++ [message] := by
  rw [phaseMessages, List.filter_append, List.filter_cons_of_pos h]
  rfl

theorem phaseMessages_append_service (mailbox : List (SemanticMessage D)) (call : ServiceCall D) :
    phaseMessages (mailbox ++ [.service call]) = phaseMessages mailbox := by
  rw [phaseMessages, List.filter_append, List.filter_cons_of_neg (by simp [SemanticMessage.isPhase]),
    List.filter_nil, List.append_nil]
  rfl

namespace FsClient

/-- The requests of the phases at the filesystem. -/
def phaseCalls (fs : FsClient D) : List (FsCall D) := fs.pending.filter FsCall.isPhase

/-- The cleanup requests at the filesystem. -/
def cleanupCalls (fs : FsClient D) : List (FsCall D) := fs.pending.filter fun call => !call.isPhase

/-- The client has its requests counted. -/
structure Counted (fs : FsClient D) : Prop where
  phaseInflight : fs.phaseInflight = fs.phaseCalls.length
  cleanupInflight : fs.cleanupInflight = fs.cleanupCalls.length

variable {fs : FsClient D} {call : FsCall D}

theorem phaseCalls_request (hcall : call.isPhase = true) :
    (fs.request call).phaseCalls = fs.phaseCalls ++ [call] := by
  rw [phaseCalls, request, List.filter_append, List.filter_cons_of_pos hcall]
  rfl

theorem Counted.request (h : fs.Counted) (hcall : call.isPhase = true) : (fs.request call).Counted where
  phaseInflight := by
    rw [phaseCalls_request hcall, List.length_append, ← h.phaseInflight]
    rfl
  cleanupInflight := by
    rw [cleanupCalls, FsClient.request, List.filter_append, List.filter_cons_of_neg (by simp [hcall]),
      List.length_append]
    exact h.cleanupInflight

/-- The answer of the only request of a phase is taken. -/
theorem next_phase (h : fs.Counted) {n : Nat} {call' : FsCall D} (hcall : fs.pending[n]? = some call)
    (hphase : call.isPhase = true) (hsingle : fs.phaseCalls = [call']) :
    call = call' ∧ ∃ fs', fs.next n call = .ok fs' ∧ fs'.Counted ∧ fs'.phaseCalls = [] := by
  obtain ⟨heq, hnone⟩ := filter_eraseIdx_of_singleton hcall hphase hsingle
  have hcount : fs.phaseInflight = 1 := by rw [h.phaseInflight, hsingle, List.length_singleton]
  refine ⟨heq, { fs with
    pending := fs.pending.eraseIdx n, phaseInflight := fs.phaseInflight - 1 }, ?_, ⟨?_, ?_⟩, hnone⟩
  · rw [next, if_pos hphase, require_of (by omega)]
    rfl
  · rw [phaseCalls, hnone, hcount]
    rfl
  · rw [cleanupCalls, filter_eraseIdx_of_false hcall (by simp [hphase])]
    exact h.cleanupInflight

/-- The answer of a cleanup request is taken. -/
theorem next_cleanup (h : fs.Counted) {n : Nat} (hcall : fs.pending[n]? = some call)
    (hphase : call.isPhase = false) :
    ∃ fs', fs.next n call = .ok fs' ∧ fs'.Counted ∧ fs'.phaseCalls = fs.phaseCalls := by
  have hsame : ({ fs with
      pending := fs.pending.eraseIdx n
      cleanupInflight := fs.cleanupInflight - 1 } : FsClient D).phaseCalls = fs.phaseCalls :=
    filter_eraseIdx_of_false hcall hphase
  have hlength := length_filter_eraseIdx (p := fun call : FsCall D => !call.isPhase) hcall
    (by simp [hphase])
  have hcount : fs.cleanupInflight = fs.cleanupCalls.length := h.cleanupInflight
  rw [cleanupCalls, ← hlength] at hcount
  refine ⟨{ fs with
    pending := fs.pending.eraseIdx n, cleanupInflight := fs.cleanupInflight - 1 }, ?_, ⟨?_, ?_⟩, hsame⟩
  · rw [next, if_neg (by simp [hphase]), require_of (by omega)]
    rfl
  · rw [hsame]
    exact h.phaseInflight
  · rw [cleanupCalls, hcount]
    rfl

end FsClient

/-- The engine is coupled with the actor, what runs there and the replies that are on their way. -/
structure Engine.CoupledWith (e : Engine D) (rt : SemanticRuntimeState D)
    (running : Option (RunningOp D)) (answered : List (SemanticResponse D)) : Prop where
  coupled : Coupled rt e.phase
    ⟨phaseMessages e.mailbox, running, answered, e.fsClient.phaseCalls⟩
  counted : e.fsClient.Counted
  /-- An idle engine has no scan pending. -/
  settled : e.phase = .idle → e.pendingScanScope = none

end Opbox
