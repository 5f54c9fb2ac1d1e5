import Opbox.Engine.SessionProtocol

/-!
# An idle engine has no work

The engine goes idle on the answer that there is no work.  The database of the actor may have changed
since the answer was computed, but then the change is announced by an event: an idle engine asks
again when the event comes, and one that still waits for the answer does not go idle on it.
-/

namespace Opbox

variable {D : Type}

/-! ## What the plan depends on -/

section Plans

variable [TextCrdt D] [DecidableEq D] {db db' : Db D}

/-- The plan depends on the stable and the prior files and texts only. -/
theorem plannedProjections_congr (htree : db'.stableTree = db.stableTree)
    (htexts : db'.stableTextObjects = db.stableTextObjects) (hprior : db'.priorTree = db.priorTree)
    (hpriorTexts : db'.priorTextObjects = db.priorTextObjects) :
    db'.plannedProjections = db.plannedProjections := by
  cases db
  cases db'
  cases htree
  cases htexts
  cases hprior
  cases hpriorTexts
  rfl

/-- Without a plan there is no next work, and asking for it changes nothing. -/
theorem runs_getNextWorkTx_none [Xxh3] (h : db.plannedProjections = []) (epoch : Nat) :
    Runs (getNextWorkTx epoch) db .none db := by
  obtain ⟨hwrites, -⟩ := List.append_eq_nil_iff.mp h
  rw [List.map_eq_nil_iff] at hwrites
  simp only [getNextWorkTx, Runs.bind_iff, Runs.get_iff, projectionActions_eq_nil_iff]
  refine ⟨db, db, ⟨rfl, rfl⟩, ⟨⟩, db, ?_, ?_⟩
  · rw [hwrites, Runs.forM_nil_iff]
  · rw [if_pos h, Runs.pure_iff]
    exact ⟨rfl, rfl⟩

end Plans

section Batches

variable [TextCrdt D] {db db' : Db D}

/-- A record is counted or leaves what is collected alone. -/
theorem applyEnvelope_count {docs docs' : BatchDocs D}
    {envelope : SharedMessageEnvelope (SharedMessage D)}
    (h : applyEnvelope db docs envelope = .ok docs') :
    docs' = docs ∨ docs'.appliedMessageCount = docs.appliedMessageCount + 1 := by
  unfold applyEnvelope at h
  split_ifs at h
  · cases h
    exact .inl rfl
  · unfold applyMessage at h
    split at h
    · cases h
      exact .inr rfl
    · cases h
      exact .inr rfl
    · cases h

/-- Records of which none is counted leave what is collected alone. -/
theorem foldlM_applyEnvelope_count {envelopes : List (SharedMessageEnvelope (SharedMessage D))}
    {docs docs' : BatchDocs D} (h : envelopes.foldlM (applyEnvelope db) docs = .ok docs') :
    docs.appliedMessageCount ≤ docs'.appliedMessageCount ∧
      (docs'.appliedMessageCount = docs.appliedMessageCount → docs' = docs) := by
  induction envelopes generalizing docs with
  | nil =>
    cases h
    exact ⟨le_rfl, fun _ => rfl⟩
  | cons envelope envelopes ih =>
    rw [List.foldlM_cons] at h
    obtain ⟨docs₁, hfirst, hrest⟩ := bind_eq_ok.mp h
    obtain ⟨hle, hsame⟩ := ih hrest
    rcases applyEnvelope_count hfirst with rfl | hcount
    · exact ⟨hle, hsame⟩
    · exact ⟨by omega, fun heq => by omega⟩

/-- A batch that announces no change leaves the plan alone. -/
theorem BatchApplied.plannedProjections_eq [DecidableEq D]
    {batch : SharedMessageBatch (SharedMessage D)} {docs : BatchDocs D}
    (h : BatchApplied db db' batch docs) (hcount : docs.appliedMessageCount = 0) :
    db'.plannedProjections = db.plannedProjections := by
  have hempty : docs = .empty := (foldlM_applyEnvelope_count h.collected).2 hcount
  subst hempty
  refine plannedProjections_congr (h.stableTree_none rfl) ?_ ?_ ?_
  · rw [h.eq]
    rfl
  · rw [h.eq]
  · rw [h.eq]

/-- An operation on the outbox leaves the plan alone. -/
theorem plannedProjections_outboxTx [DecidableEq D]
    {f : Outbox (SharedMessage D) → Except SemanticTransactionError (Outbox (SharedMessage D))}
    {u : PUnit} (h : Runs (SemanticActor.outboxTx f) db u db') :
    db'.plannedProjections = db.plannedProjections := by
  simp only [SemanticActor.outboxTx, Runs.bind_iff, Runs.get_iff, Runs.liftExcept_iff] at h
  obtain ⟨db, _, ⟨rfl, rfl⟩, outbox, _, ⟨-, rfl⟩, hset⟩ := h
  cases hset
  rfl

/-- A service call leaves the plan alone, unless it is a batch that announces a change. -/
theorem plannedProjections_service [DecidableEq D] {call : ServiceCall D} {effects : SemanticEffects}
    (h : Runs call.run db effects db')
    (hquiet : ∀ batch, call = .applySharedMessageBatch batch → effects.projectionChanged = none) :
    db'.plannedProjections = db.plannedProjections := by
  cases call with
  | applySharedMessageBatch batch =>
    obtain ⟨docs, happlied, -, hchanged⟩ := runs_applySharedMessageBatchTx h
    refine happlied.plannedProjections_eq (Nat.eq_zero_of_not_pos fun hpos => ?_)
    rw [if_pos hpos, hquiet batch rfl] at hchanged
    cases hchanged
  | readOutbox numMessages =>
    simp only [ServiceCall.run, Runs.bind_iff, Runs.pure_iff] at h
    obtain ⟨_, _, houtbox, -, rfl⟩ := h
    exact plannedProjections_outboxTx houtbox
  | releaseOutbox =>
    simp only [ServiceCall.run, Runs.bind_iff, Runs.pure_iff] at h
    obtain ⟨_, _, houtbox, -, rfl⟩ := h
    exact plannedProjections_outboxTx houtbox
  | trimOutbox through =>
    simp only [ServiceCall.run, Runs.bind_iff, Runs.pure_iff] at h
    obtain ⟨_, _, houtbox, -, rfl⟩ := h
    exact plannedProjections_outboxTx houtbox
  | readStableCursor =>
    simp only [ServiceCall.run, Runs.pure_iff] at h
    rw [h.2]

end Batches

/-! ## Phases that wait -/

/-- The engine is idle or has asked for the next work. -/
def EnginePhase.Waits : EnginePhase D → Prop
  | idle => True
  | awaitingNextWork _ _ => True
  | _ => False

namespace Engine

variable {e e' : Engine D}

theorem dispatch_waits (h : e.dispatch.phase.Waits) : e.dispatch.phase = e.phase := by
  unfold dispatch at h ⊢
  split at h
  · exact h.elim
  · exact h.elim
  · rfl

theorem requestCommit_waits (h : e.requestCommit.phase.Waits) : e.requestCommit.phase = e.phase := by
  unfold requestCommit at h ⊢
  split at h
  · exact h.elim
  · exact h.elim
  · exact h.elim
  · rfl

/-- The top of the loop brings no engine to wait. -/
theorem drive_waits (hdrive : e.drive = .ok e') (h : e'.phase.Waits) : e'.phase = e.phase := by
  obtain ⟨e₁, hcleanup, hdrive⟩ := bind_eq_ok.mp hdrive
  obtain ⟨⟨fs, queue⟩, -, hcleanup⟩ := bind_eq_ok.mp hcleanup
  cases hcleanup
  cases hdrive
  have hcommit := requestCommit_waits h
  have hdispatch := dispatch_waits (hcommit ▸ h)
  exact hcommit.trans hdispatch

/-- An idle engine that is asked for a scan is idle no more, and any other keeps its phase. -/
theorem requestScan_waits {scope : ScanScope} (h : (e.requestScan scope).phase.Waits) :
    (e.requestScan scope).phase = e.phase ∧ e.phase ≠ .idle := by
  by_cases hidle : e.phase = .idle
  · rw [requestScan_of_idle hidle] at h
    exact h.elim
  · rw [requestScan_of_ne hidle]
    exact ⟨rfl, hidle⟩

/-- An answer of the filesystem brings no engine to wait. -/
theorem takeFsResponse_waits {n : Nat} {call : FsCall D} {response : FsClientResponse}
    (heq : e.takeFsResponse n call response = .ok e') (h : e'.phase.Waits) : e'.phase = e.phase := by
  obtain ⟨fs, -, heq⟩ := bind_eq_ok.mp heq
  cases response with
  | scan result =>
    unfold handleFsResponse at heq
    dsimp only at heq
    split at heq
    · cases heq
      exact h.elim
    · cases heq
  | applyImportAction result =>
    change handleImportAction { e with fsClient := fs } result = .ok e' at heq
    unfold handleImportAction at heq
    dsimp only at heq
    split at heq
    next epoch queue inFlight hphase =>
      obtain ⟨-, -, heq⟩ := bind_eq_ok.mp heq
      obtain ⟨-, -, heq⟩ := bind_eq_ok.mp heq
      cases heq
      dsimp only [send] at h
      split_ifs at h
      · rw [(requestScan_waits h).1] at h
        exact h.elim
      · exact h.elim
    · cases heq
  | applyProjectionAction result =>
    obtain ⟨phase, hphase, heq⟩ := bind_eq_ok.mp heq
    cases heq
    exfalso
    have hwaits : phase.Waits := by
      dsimp only [send] at h
      split_ifs at h
      · rw [(requestScan_waits h).1] at h
        exact h
      · exact h
    unfold projectionPhaseAfter at hphase
    split at hphase
    · obtain ⟨-, -, hphase⟩ := bind_eq_ok.mp hphase
      obtain ⟨-, -, hphase⟩ := bind_eq_ok.mp hphase
      split_ifs at hphase
      · cases hphase
        exact hwaits
      · cases hphase
        exact hwaits
    · obtain ⟨-, -, hphase⟩ := bind_eq_ok.mp hphase
      obtain ⟨-, -, hphase⟩ := bind_eq_ok.mp hphase
      cases hphase
      exact hwaits
    · cases hphase
  | deleteIfExists path =>
    cases heq
    rfl

theorem enterBoundary_ne_idle : e.enterBoundary.phase ≠ .idle := by
  unfold enterBoundary
  split <;> nofun

/-- An engine goes idle only on the answer that there is no work, and only if nothing has changed
since it asked. -/
theorem handleSemanticResponse_idle {response : SemanticResponse D} (hphase : response.isPhase = true)
    (heq : e.handleSemanticResponse response = .ok e') (h : e'.phase = .idle) :
    ∃ boundary, e.phase = .awaitingNextWork boundary false ∧ response = .getNextWork boundary .none := by
  cases response with
  | applyScan work =>
    change e.handleApplyScanResponse work = .ok e' at heq
    unfold handleApplyScanResponse at heq
    split at heq
    · split at heq
      · cases heq
        cases h
      · cases heq
        exact absurd h enterBoundary_ne_idle
      · cases heq
    · cases heq
  | commitImportEpoch =>
    unfold handleSemanticResponse at heq
    dsimp only at heq
    split at heq
    · cases heq
      exact absurd h enterBoundary_ne_idle
    · cases heq
  | commitProjectionEpoch =>
    unfold handleSemanticResponse at heq
    dsimp only at heq
    split at heq
    · cases heq
      exact absurd h enterBoundary_ne_idle
    · cases heq
  | getNextWork boundary work =>
    change e.handleGetNextWorkResponse boundary work = .ok e' at heq
    unfold handleGetNextWorkResponse at heq
    split at heq
    next awaited dirty hawaits =>
      obtain ⟨⟨⟩, hboundary, heq⟩ := bind_eq_ok.mp heq
      have hsame : boundary = awaited := by
        by_contra hne
        rw [require, if_neg hne] at hboundary
        cases hboundary
      cases work with
      | none =>
        dsimp only at heq
        split_ifs at heq with hdirty
        · cases heq
          exact absurd h enterBoundary_ne_idle
        · rw [Bool.or_eq_true, not_or] at hdirty
          rw [Bool.eq_false_iff.mpr hdirty.1] at hawaits
          exact ⟨awaited, hawaits, by rw [hsame]⟩
      | importEpoch started => cases heq
      | project started =>
        cases heq
        cases h
    · cases heq
  | service call => cases hphase
  | _ => cases heq

end Engine

/-! ## The invariant -/

/-- While a reply of a phase is on its way nothing of a phase runs. -/
theorem Coupled.running_of_answered {rt : SemanticRuntimeState D} {phase : EnginePhase D}
    {traffic : Traffic D} (h : Coupled rt phase traffic) (hanswered : traffic.answered ≠ []) :
    traffic.running = none := by
  cases h with
  | nextWorkAnswered => rfl
  | scanAnswered => rfl
  | importCommitAnswered => rfl
  | projectionCommitAnswered => rfl
  | _ => exact absurd rfl hanswered

/-- While the engine is idle nothing of a phase is under way. -/
theorem Coupled.under_idle {rt : SemanticRuntimeState D} {traffic : Traffic D}
    (h : Coupled rt .idle traffic) : traffic.running = none ∧ traffic.answered = [] := by
  cases h
  exact ⟨rfl, rfl⟩

namespace Session

/-- The engine is idle, or is about to be: the answer that there is no work is computed, and the
engine has not heard of a change. -/
def NextNone (s : Session D) : Prop :=
  s.engine.phase = .idle ∨ ∃ boundary, s.engine.phase = .awaitingNextWork boundary false ∧
    (s.lane.running = some (.committed (.getNextWork boundary .none)) ∨
      .getNextWork boundary .none ∈ s.replies)

/-- No change is announced, or about to be announced. -/
structure Unannounced (s : Session D) : Prop where
  events : ∀ generation, .projectionChanged generation ∉ s.events
  running : ∀ batch effects,
    s.lane.running = some (.committed (.service (.applySharedMessageBatch batch) effects)) →
      effects.projectionChanged = none

/-- An engine that goes idle without hearing of a change has no work. -/
def Settled [TextCrdt D] [DecidableEq D] (s : Session D) : Prop :=
  s.NextNone → s.Unannounced → s.lane.db.plannedProjections = []

variable {s s' : Session D}

theorem NextNone.waits (h : s.NextNone) : s.engine.phase.Waits := by
  rcases h with hidle | ⟨boundary, hawaits, -⟩
  · rw [hidle]
    trivial
  · rw [hawaits]
    trivial

/-- With nothing of a phase under way the engine is idle. -/
theorem NextNone.idle (h : s.NextNone) (hrunning : s.lane.running.filter RunningOp.isPhase = none)
    (hreplies : s.replies.filter SemanticResponse.isPhase = []) : s.engine.phase = .idle := by
  rcases h with hidle | ⟨boundary, -, hfound | hreply⟩
  · exact hidle
  · rw [hfound, Option.filter_some_pos rfl] at hrunning
    cases hrunning
  · have hmem := List.mem_filter.mpr
      ⟨hreply, (rfl : (SemanticResponse.getNextWork boundary (.none : NextWork D)).isPhase = true)⟩
    rw [hreplies] at hmem
    cases hmem

/-- The engine comes to the top of its loop again. -/
theorem resume_waits {s₁ : Session D} {e : Except EngineBail (Engine D)} (h : s₁.resume e = .ok s') :
    ∃ e₀, e = .ok e₀ ∧ s' = { s₁ with engine := s'.engine } ∧
      (s'.engine.phase.Waits → s'.engine.phase = e₀.phase) := by
  obtain ⟨e₀, e', he₀, hdrive, rfl⟩ := resume_eq_ok h
  exact ⟨e₀, he₀, rfl, Engine.drive_waits hdrive⟩

section Steps

variable [TextCrdt D] [DecidableEq D]

/-- A step of the engine that brings it to wait for nothing new. -/
theorem Settled.of_engine (h : s.Settled) (hlane : s'.lane = s.lane)
    (hreplies : ∀ reply ∈ s'.replies, reply ∈ s.replies) (hevents : s'.Unannounced → s.Unannounced)
    (hphase : s'.engine.phase.Waits → s'.engine.phase = s.engine.phase) : s'.Settled := by
  intro hnext hquiet
  rw [hlane]
  refine h ?_ (hevents hquiet)
  have hsame := hphase hnext.waits
  rcases hnext with hidle | ⟨boundary, hawaits, hfound⟩
  · exact .inl (hsame ▸ hidle)
  · refine .inr ⟨boundary, hsame ▸ hawaits, ?_⟩
    rcases hfound with hrunning | hreply
    · exact .inl (hlane ▸ hrunning)
    · exact .inr (hreplies _ hreply)

/-- The actor starts its next request. -/
theorem Settled.startRequest (hcoupled : s.Coupled) (h : s.Settled) (hrunning : s.lane.running = none)
    {message : SemanticMessage D} {rest : List (SemanticMessage D)}
    (hmailbox : s.engine.mailbox = message :: rest) (hstart : s.startRequest message rest = .ok s') :
    s'.Settled := by
  obtain ⟨s₁, hs₁, -, hdb, task, htask⟩ := startRequest_ok hcoupled hrunning hmailbox
  rw [hs₁] at hstart
  cases hstart
  unfold Session.startRequest at hs₁
  split at hs₁
  · cases hs₁
    intro hnext hquiet
    rw [hdb]
    refine h ?_ ⟨hquiet.events, fun batch effects heq => ?_⟩
    · rcases hnext with hidle | ⟨boundary, hawaits, hfound | hreply⟩
      · exact .inl hidle
      · rw [htask] at hfound
        cases hfound
      · exact .inr ⟨boundary, hawaits, .inr hreply⟩
    · rw [hrunning] at heq
      cases heq
  · cases hs₁

/-- The actor finishes what ran. -/
theorem Settled.finish (hcoupled : s.Coupled) (h : s.Settled) {result : SemanticTaskResult D}
    (hrunning : s.lane.running = some (.committed result)) (hfinish : s.finish result = .ok s') :
    s'.Settled := by
  obtain ⟨s₁, hs₁, -, hnone, hdb⟩ := finish_ok hcoupled hrunning
  rw [hs₁] at hfinish
  cases hfinish
  unfold Session.finish at hs₁
  split at hs₁
  next finished hfinished =>
    cases hs₁
    obtain ⟨-, hreplies⟩ := SemanticLane.finishTaskResult_epochs
      { s.lane with running := none }
      ⟨hcoupled.undeferred.1, hcoupled.undeferred.2⟩ rfl hfinished
    intro hnext hquiet
    rw [hdb]
    refine h ?_ ⟨fun generation hmem => hquiet.events generation (List.mem_append_left _ hmem), ?_⟩
    · rcases hnext with hidle | ⟨boundary, hawaits, hfound | hreply⟩
      · exact .inl hidle
      · rw [hnone] at hfound
        cases hfound
      · rcases List.mem_append.mp hreply with hold | hnew
        · exact .inr ⟨boundary, hawaits, .inr hold⟩
        · rw [hreplies boundary _ hnew] at hrunning
          exact .inr ⟨boundary, hawaits, .inl hrunning⟩
    · -- What the batch announces is in the mailbox now.
      intro batch effects heq
      rw [hrunning] at heq
      cases heq
      cases hfinished
      cases hchanged : effects.projectionChanged with
      | none => rfl
      | some generation =>
        refine absurd (List.mem_append_right _ ?_) (hquiet.events generation)
        show SemanticEvent.projectionChanged generation ∈ effects.emit
        rw [SemanticEffects.emit, hchanged]
        exact List.mem_cons_self
  · cases hs₁

variable [CharDiff] [Xxh3]

/-- The running transaction commits. -/
theorem Settled.commit (hcoupled : s.Coupled) (h : s.Settled) {task : SemanticTask D}
    {now : Timestamp} {objectId : ObjectId} {claimId : NamespaceClaimId}
    {result : SemanticTaskResult D} {db : Db D} (hrunning : s.lane.running = some (.started task))
    (hrun : Runs (task.run now objectId claimId) s.lane.db result db) :
    { s with lane := { s.lane with db := db, running := some (.committed result) } }.Settled := by
  intro hnext hquiet
  have hlane := hcoupled.engine.coupled
  rw [hrunning] at hlane
  by_cases hphase : (RunningOp.started task).isPhase = true
  · rw [Option.filter_some_pos hphase] at hlane
    rcases hnext with hidle | ⟨boundary, -, hfound | hreply⟩
    · change s.engine.phase = .idle at hidle
      rw [hidle] at hlane
      cases hlane.under_idle.1
    · cases hfound
      obtain ⟨epoch, -, hwork⟩ := runs_task_getNextWork hrun
      obtain ⟨hdb, hwork⟩ := runs_getNextWorkTx hwork
      split_ifs at hwork with hplan
      rw [← hplan]
      show db.plannedProjections = _
      exact plannedProjections_congr (by rw [hdb]) (by rw [hdb]) (by rw [hdb]) (by rw [hdb])
    · have hanswered : s.replies.filter SemanticResponse.isPhase ≠ [] :=
        List.ne_nil_of_mem (List.mem_filter.mpr ⟨hreply, rfl⟩)
      cases hlane.running_of_answered hanswered
  · cases task with
    | service call =>
      obtain ⟨effects, rfl, hcall⟩ := runs_service_task hrun
      show db.plannedProjections = []
      rw [plannedProjections_service hcall fun batch heq => hquiet.running batch effects (by rw [heq])]
      refine h ?_ ⟨hquiet.events, fun batch effects heq => ?_⟩
      · rcases hnext with hidle | ⟨boundary, hawaits, hfound | hreply⟩
        · exact .inl hidle
        · cases hfound
        · exact .inr ⟨boundary, hawaits, .inr hreply⟩
      · rw [hrunning] at heq
        cases heq
    | _ => exact absurd rfl hphase

omit [CharDiff] [Xxh3] in
/-- The engine receives a reply. -/
theorem Settled.reply (hcoupled : s.Coupled) (h : s.Settled) {n : Nat} {response : SemanticResponse D}
    (hreply : s.replies[n]? = some response)
    (hresume : { s with replies := s.replies.eraseIdx n }.resume
      (s.engine.handleSemanticResponse response) = .ok s') : s'.Settled := by
  obtain ⟨e, heq, hs', hwaits⟩ := resume_waits hresume
  have hlane : s'.lane = s.lane := by rw [hs']
  have hreplies : s'.replies = s.replies.eraseIdx n := by rw [hs']
  have hevents : s'.events = s.events := by rw [hs']
  have hunannounced : s'.Unannounced → s.Unannounced := fun hquiet =>
    ⟨fun generation => hevents ▸ hquiet.events generation,
      fun batch effects => hlane ▸ hquiet.running batch effects⟩
  by_cases hphase : response.isPhase = true
  · -- It was the only one of a phase, so that the engine can only be idle now.
    have hmem : response ∈ s.replies.filter SemanticResponse.isPhase :=
      List.mem_filter.mpr ⟨List.mem_of_getElem? hreply, hphase⟩
    have hrunning := hcoupled.engine.coupled.running_of_answered (List.ne_nil_of_mem hmem)
    have hnone : (s.replies.eraseIdx n).filter SemanticResponse.isPhase = [] := by
      have hle : (s.replies.filter SemanticResponse.isPhase).length ≤ 1 :=
        hcoupled.engine.coupled.length_answered_le
      have hlength := length_filter_eraseIdx hreply hphase
      exact List.length_eq_zero_iff.mp (by omega)
    intro hnext hquiet
    have hidle := hnext.idle (by rw [hlane]; exact hrunning) (by rw [hreplies]; exact hnone)
    have hidle' : e.phase = .idle := (hwaits hnext.waits) ▸ hidle
    obtain ⟨boundary, hawaits, rfl⟩ := Engine.handleSemanticResponse_idle hphase heq hidle'
    rw [hlane]
    exact h (.inr ⟨boundary, hawaits, .inr (List.mem_of_getElem? hreply)⟩) (hunannounced hquiet)
  · cases response with
    | service call =>
      cases heq
      refine h.of_engine hlane (fun reply hmem => ?_) hunannounced hwaits
      rw [hreplies] at hmem
      exact List.mem_of_mem_eraseIdx hmem
    | _ => exact absurd rfl hphase

omit [CharDiff] [Xxh3] in
/-- The engine receives an event. -/
theorem Settled.event (hcoupled : s.Coupled) (h : s.Settled) {event : SemanticEvent}
    {rest : List SemanticEvent} (hevents : s.events = event :: rest)
    (hresume : { s with events := rest }.resume (.ok (s.engine.handleSemanticEvent event)) = .ok s') :
    s'.Settled := by
  obtain ⟨e, heq, hs', hwaits⟩ := resume_waits hresume
  cases heq
  have hlane : s'.lane = s.lane := by rw [hs']
  have hreplies : s'.replies = s.replies := by rw [hs']
  have hrest : s'.events = rest := by rw [hs']
  cases event with
  | outboxReady n =>
    refine h.of_engine hlane (fun reply hmem => hreplies ▸ hmem) (fun hquiet => ?_) hwaits
    refine ⟨fun generation hmem => ?_, fun batch effects => hlane ▸ hquiet.running batch effects⟩
    rw [hevents] at hmem
    refine hquiet.events generation ?_
    rw [hrest]
    exact (List.mem_cons.mp hmem).resolve_left nofun
  | projectionChanged generation =>
    -- The engine has heard of the change: it asks again, or will not go idle on the answer.
    intro hnext _
    exfalso
    have hwaits' := hwaits hnext.waits
    change s'.engine.phase = s.engine.handleProjectionChanged.phase at hwaits'
    unfold Engine.handleProjectionChanged at hwaits'
    split at hwaits'
    next hidle =>
      have hunder := hcoupled.engine.coupled
      rw [hidle] at hunder
      obtain ⟨hrunning, hanswered⟩ := hunder.under_idle
      have hidle' := hnext.idle (by rw [hlane]; exact hrunning) (by rw [hreplies]; exact hanswered)
      rw [hidle'] at hwaits'
      exact Engine.enterBoundary_ne_idle hwaits'.symm
    next boundary dirty hawaits =>
      rcases hnext with hidle | ⟨boundary', hawaits', -⟩
      · rw [hidle] at hwaits'
        cases hwaits'
      · rw [hawaits'] at hwaits'
        cases hwaits'
    next hidle hawaits =>
      rcases hnext with hidle' | ⟨boundary', hawaits', -⟩
      · exact hidle (hwaits'.symm.trans hidle')
      · exact hawaits _ _ (hwaits'.symm.trans hawaits')

variable {action : SessionAction D}

/-- Every step keeps an engine that goes idle without work. -/
theorem Settled.step (hcoupled : s.Coupled) (h : s.Settled)
    (hstep : s.step action = some (.ok s')) : s'.Settled := by
  unfold Session.step at hstep
  cases action with
  | startRequest =>
    dsimp only at hstep
    split at hstep
    next message rest hrunning hmailbox =>
      rw [Option.some.injEq] at hstep
      exact h.startRequest hcoupled hrunning hmailbox hstep
    · cases hstep
  | commit now objectId claimId =>
    dsimp only at hstep
    split at hstep
    next task hrunning =>
      obtain ⟨⟨result, db⟩, hrun, heq⟩ := Option.map_eq_some_iff.mp hstep
      cases heq
      exact h.commit hcoupled hrunning (attempt_eq_some_iff.mp hrun)
    · cases hstep
  | finish =>
    dsimp only at hstep
    split at hstep
    next result hrunning =>
      rw [Option.some.injEq] at hstep
      exact h.finish hcoupled hrunning hstep
    · cases hstep
  | reply n =>
    obtain ⟨response, hreply, heq⟩ := Option.map_eq_some_iff.mp hstep
    exact h.reply hcoupled hreply heq
  | event =>
    dsimp only at hstep
    split at hstep
    next event rest hevents =>
      rw [Option.some.injEq] at hstep
      exact h.event hcoupled hevents hstep
    · cases hstep
  | fs n response =>
    obtain ⟨call, -, hstep⟩ := Option.bind_eq_some_iff.mp hstep
    split_ifs at hstep
    rw [Option.some.injEq] at hstep
    obtain ⟨e, heq, hs', hwaits⟩ := resume_waits hstep
    refine h.of_engine (by rw [hs']) (fun reply hmem => by rw [hs'] at hmem; exact hmem)
      (fun hquiet => ?_) fun hwait => ?_
    · rw [hs'] at hquiet
      exact ⟨hquiet.events, hquiet.running⟩
    · have hsame := hwaits hwait
      exact hsame.trans (Engine.takeFsResponse_waits heq (hsame ▸ hwait))
  | scan scope =>
    rw [Option.some.injEq] at hstep
    obtain ⟨e, heq, hs', hwaits⟩ := resume_waits hstep
    cases heq
    refine h.of_engine (by rw [hs']) (fun reply hmem => by rw [hs'] at hmem; exact hmem)
      (fun hquiet => ?_) fun hwait => ?_
    · rw [hs'] at hquiet
      exact ⟨hquiet.events, hquiet.running⟩
    · have hsame := hwaits hwait
      exact hsame.trans (Engine.requestScan_waits (hsame ▸ hwait)).1
  | call call =>
    rw [Option.some.injEq] at hstep
    obtain ⟨e, heq, hs', hwaits⟩ := resume_waits hstep
    cases heq
    refine h.of_engine (by rw [hs']) (fun reply hmem => by rw [hs'] at hmem; exact hmem)
      (fun hquiet => ?_) fun hwait => hwaits hwait
    rw [hs'] at hquiet
    exact ⟨hquiet.events, hquiet.running⟩

omit [CharDiff] [Xxh3] in
/-- A session starts with a scan. -/
theorem settled_start {db : Db D} (h : start db = .ok s) : s.Settled := by
  intro hnext _
  obtain ⟨e, heq, hs, hwaits⟩ := resume_waits h
  cases heq
  have hscanning : (Engine.new.requestScan .full : Engine D).phase = .scanning .full := rfl
  have hwait := hnext.waits
  rw [hwaits hwait, hscanning] at hwait
  exact hwait.elim

/-- In every state that is reached an engine goes idle only without work. -/
theorem reached_settled (h : (sessionMachine (D := D)).Reached (.ok s)) : s.Coupled ∧ s.Settled := by
  have hall : ∀ outcome, (sessionMachine (D := D)).Reached outcome →
      ∃ s, outcome = .ok s ∧ s.Coupled ∧ s.Settled := by
    intro outcome hreach
    refine Machine.Reachable.invariant (I := fun outcome => ∃ s, outcome = .ok s ∧ s.Coupled ∧
      s.Settled) ?_ ?_ hreach
    · rintro _ ⟨db, rfl⟩
      obtain ⟨s, hs, hcoupled⟩ := start_ok db
      exact ⟨s, hs, hcoupled, settled_start hs⟩
    · rintro _ action outcome - ⟨s, rfl, hcoupled, hsettled⟩ - hstep
      obtain ⟨s', rfl, hcoupled'⟩ := hcoupled.step hstep
      exact ⟨s', rfl, hcoupled', hsettled.step hcoupled hstep⟩
  obtain ⟨s', hs', hcoupled, hsettled⟩ := hall _ h
  cases hs'
  exact ⟨hcoupled, hsettled⟩

end Steps

end Session

/-- An idle engine that no event is on its way to has no scan pending, and no work to do: asked for
the next work, the actor would answer that there is none and change nothing. -/
theorem idle_has_no_work [TextCrdt D] [CharDiff] [Xxh3] [DecidableEq D] {s : Session D}
    (h : (sessionMachine (D := D)).Reached (.ok s)) (hidle : s.engine.phase = .idle)
    (hevents : ∀ generation, .projectionChanged generation ∉ s.events)
    (hbatch : ∀ batch effects,
      s.lane.running ≠ some (.committed (.service (.applySharedMessageBatch batch) effects))) :
    s.engine.pendingScanScope = none ∧
      ∀ epoch, attempt (getNextWorkTx epoch) s.lane.db = some (.none, s.lane.db) := by
  obtain ⟨hcoupled, hsettled⟩ := Session.reached_settled h
  refine ⟨hcoupled.engine.settled hidle, fun epoch => attempt_eq_some_iff.mpr ?_⟩
  refine runs_getNextWorkTx_none (hsettled (.inl hidle) ⟨hevents, ?_⟩) epoch
  intro batch effects heq
  exact absurd heq (hbatch batch effects)

open Snapshots

/-- The first scan of a new workspace finds nothing, and neither does its first boundary. -/
def settleRun : List (SessionAction Doc) :=
  [.fs 0 (.scan (scanOf .full [])), .startRequest, .commit 1 [3] [4], .finish, .reply 0,
    .startRequest, .commit 2 [3] [4], .finish, .reply 0]

/-- `idle_has_no_work` where a new workspace has settled. -/
theorem idle_has_no_work_settleRun : ∃ s : Session Doc, s.engine.phase = .idle ∧
    s.engine.pendingScanScope = none ∧
      ∀ epoch, attempt (getNextWorkTx epoch) s.lane.db = some (.none, s.lane.db) := by
  have hrun : ((sessionMachine.exec (Session.start (Db.initialized Doc [1] 0)) settleRun).any
      fun outcome => outcome.toOption.any fun s =>
        s.events.isEmpty && s.lane.running.isNone && s.engine.phase.isIdle) = true := by
    decide +kernel
  obtain ⟨outcome, hexec, hlast⟩ := Machine.exists_exec hrun
  have hreach := Machine.reached_of_exec (M := sessionMachine) ⟨Db.initialized Doc [1] 0, rfl⟩ hexec
  cases outcome with
  | error abort => cases hlast
  | ok s =>
    have hlast : (s.events.isEmpty && s.lane.running.isNone && s.engine.phase.isIdle) = true := hlast
    rw [Bool.and_eq_true, Bool.and_eq_true, List.isEmpty_iff, Option.isNone_iff_eq_none,
      EnginePhase.isIdle_iff] at hlast
    obtain ⟨⟨hevents, hrunning⟩, hidle⟩ := hlast
    refine ⟨s, hidle, idle_has_no_work hreach hidle ?_ ?_⟩
    · rw [hevents]
      exact fun _ => List.not_mem_nil
    · rw [hrunning]
      rintro batch effects ⟨⟩

end Opbox
