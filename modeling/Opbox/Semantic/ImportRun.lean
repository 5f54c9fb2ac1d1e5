import Opbox.Semantic.OperationIds
import Opbox.Semantic.Realignment

/-!
# The run of an import epoch

Between the scan that opens an import epoch and its commit a daemon commits the results of reads and
serves requests about the shared log.  Over such a stretch the epoch goes on and what is staged stays
staged.  The prior tree and the prior documents change in one way only: a file that was written by a
projection is realigned, which makes the row of its path live and takes its intents away.
-/

namespace Opbox

variable {D : Type} [TextCrdt D] [CharDiff] [Xxh3] [DecidableEq D]

/-- The request commits an import. -/
def SemanticRequest.endsImport : SemanticRequest D → Bool
  | .commitImportEpoch _ => true
  | _ => false

/-- What the result of a read makes a daemon stage, unless it is realigned. -/
def SemanticActor.stagePlan (s : SemanticActor D) (result : ImportActionResult) :
    Option ImportActionStagePlan :=
  match s.active with
  | .importing active => (active.context result).bind fun context =>
    match prepareImportActionStage context result with
    | .ok (.stage plan) => some plan
    | _ => none
  | _ => none

/-- The row of the stable tree that a request realigns a file to. -/
def SemanticActor.realignedTo (s : SemanticActor D) : SemanticRequest D → Option StableTreeRow
  | .commitImportAction result _ _ _ => (s.stagePlan result).bind fun plan =>
    match plan.epochKind, plan.fingerprint with
    | .sync, .statAndContent stat hash =>
      (s.db.realignment plan (s.db.appliedIntent plan.path stat hash)).map Prod.fst
    | _, _ => none
  | _ => none

omit [TextCrdt D] [CharDiff] [Xxh3] [DecidableEq D] in
theorem stagePlan_eq_some_iff {s : SemanticActor D} {result : ImportActionResult}
    {plan : ImportActionStagePlan} : s.stagePlan result = some plan ↔
      ∃ active context, s.active = .importing active ∧ active.context result = some context ∧
        prepareImportActionStage context result = .ok (.stage plan) := by
  unfold SemanticActor.stagePlan
  constructor
  · intro h
    split at h
    next active hactive =>
      obtain ⟨context, hcontext, h⟩ := Option.bind_eq_some_iff.mp h
      split at h
      next plan' hplan =>
        cases h
        exact ⟨active, context, hactive, hcontext, hplan⟩
      · cases h
    · cases h
  · rintro ⟨active, context, hactive, hcontext, hplan⟩
    rw [hactive]
    dsimp only
    rw [hcontext, Option.bind_some, hplan]

/-- What a stretch of an import epoch leaves. -/
structure ImportStretch (active : ActiveImportEpoch) (s s' : SemanticActor D) : Prop where
  /-- The epoch goes on. -/
  continues : ∃ completed, s'.active = .importing { active with completed := completed }
  /-- What is staged stays staged. -/
  staged : s.db.importStagedFiles.rows ⊆ s'.db.importStagedFiles.rows
  /-- No write is intended. -/
  intents : ∀ intent ∈ s'.db.projectionWriteIntents, intent ∈ s.db.projectionWriteIntents
  /-- A row of the prior tree stays, or a file that is read is realigned. -/
  priorTree : ∀ path, s'.db.priorTree.find? path = s.db.priorTree.find? path ∨
    (∃ intent ∈ s.db.projectionWriteIntents, intent.path = path) ∧
      (∃ action ∈ active.expected, ∃ expected, action.kind = .read path expected) ∧
        ∃ row, s'.db.priorTree.find? path = some row ∧ row.deletedAt = none

section Stretch

variable {active : ActiveImportEpoch} {s t s' : SemanticActor D} {writer : DaemonWriterId}

omit [TextCrdt D] [CharDiff] [Xxh3] [DecidableEq D] in
theorem importStretch_refl (h : s.active = .importing active) : ImportStretch active s s where
  continues := ⟨active.completed, h⟩
  staged := List.Subset.refl _
  intents _ hintent := hintent
  priorTree _ := .inl rfl

omit [TextCrdt D] [CharDiff] [Xxh3] [DecidableEq D] in
/-- A result that fits an epoch belongs to one of its actions. -/
theorem action_of_context {result : ImportActionResult} {context : ImportActionContext}
    (h : active.context result = some context) :
    ∃ action ∈ active.expected, action.id = result.actionId ∧ context = ⟨active.kind, action.kind⟩ := by
  unfold ActiveImportEpoch.context at h
  split_ifs at h
  obtain ⟨action, haction, rfl⟩ := Option.map_eq_some_iff.mp h
  exact ⟨action, List.mem_of_find?_eq_some haction, by simpa using List.find?_some haction, rfl⟩

/-- The step of a stretch: any request but the commit. -/
theorem ImportStretch.served {request : SemanticRequest D} (h : ImportStretch active s t)
    (hserved : Served t request s') (hends : request.endsImport = false) :
    ImportStretch active s s' := by
  obtain ⟨completed, hactive⟩ := h.continues
  -- An epoch is active, so a request that needs the daemon to be idle or to project is none.
  have hidle : t.active ≠ .idle := by rw [hactive]; nofun
  have hprojecting : ∀ a, t.active ≠ .projecting a := by rw [hactive]; nofun
  have hsame : s'.db.disk = t.db.disk → s'.active = t.active ∨
      (∃ completed, s'.active = .importing { active with completed := completed }) →
      ImportStretch active s s' := by
    intro hdisk hactive'
    have hstaged : s'.db.importStagedFiles = t.db.importStagedFiles :=
      congrArg DiskTables.importStagedFiles hdisk
    have hintents : s'.db.projectionWriteIntents = t.db.projectionWriteIntents :=
      congrArg DiskTables.projectionWriteIntents hdisk
    have htree : s'.db.priorTree = t.db.priorTree := congrArg DiskTables.priorTree hdisk
    refine ⟨?_, hstaged ▸ h.staged, hintents ▸ h.intents, htree ▸ h.priorTree⟩
    rcases hactive' with heq | hnext
    · exact ⟨completed, heq.trans hactive⟩
    · exact hnext
  cases hserved.diskStep with
  | shared isShared disk active' => exact hsame disk (.inl active')
  | skip active₀ context importing expected decided disk active' =>
    rw [hactive] at importing
    cases importing
    exact hsame disk (.inr ⟨_, active'⟩)
  | stage active₀ context plan rows importing expected decided inserted disk active' =>
    rw [hactive] at importing
    cases importing
    refine ⟨⟨_, active'⟩, ?_, ?_, ?_⟩
    · rw [show s'.db.importStagedFiles = rows from congrArg DiskTables.importStagedFiles disk,
        ImportStagedFiles.insert_eq_ok inserted]
      exact List.subset_append_of_subset_left _ h.staged
    · rw [show s'.db.projectionWriteIntents = _ from
        congrArg DiskTables.projectionWriteIntents disk]
      exact h.intents
    · rw [show s'.db.priorTree = _ from congrArg DiskTables.priorTree disk]
      exact h.priorTree
  | realign active₀ context plan stat hash row doc importing expected decided fingerprint realignment
      disk active' =>
    rw [hactive] at importing
    cases importing
    have hintents : s'.db.projectionWriteIntents =
        t.db.projectionWriteIntents.deleteWhere fun r => decide (r.path = plan.path) :=
      congrArg DiskTables.projectionWriteIntents disk
    have htree : s'.db.priorTree = t.db.priorTree.put
        ⟨plan.path, row.claimedPath, row.claimId, row.objectId, plan.fingerprint, _, none⟩ :=
      congrArg DiskTables.priorTree disk
    refine ⟨⟨_, active'⟩, ?_, ?_, fun path => ?_⟩
    · rw [show s'.db.importStagedFiles = _ from congrArg DiskTables.importStagedFiles disk]
      exact h.staged
    · rw [hintents]
      exact fun intent hintent => h.intents intent (Table.mem_deleteWhere.mp hintent).1
    · rw [htree, Table.find?_put]
      by_cases hpath : plan.path = path
      · subst hpath
        obtain ⟨intent, hintent, hintentPath, -⟩ :=
          exists_of_appliedIntent (realignment_eq_some realignment).1
        obtain ⟨action, haction, -, hcontext⟩ := action_of_context expected
        obtain ⟨fp, -, -, hread, -⟩ := stage_of_prepareImportActionStage decided
        rw [hcontext] at hread
        rw [if_pos rfl]
        exact .inr ⟨⟨intent, h.intents intent hintent, hintentPath⟩, ⟨action, haction, fp, hread⟩,
          _, rfl, rfl⟩
      · rw [if_neg hpath]
        exact h.priorTree path
  | commit active₀ importing disk active' => exact absurd hends (by simp [SemanticRequest.endsImport])
  | initScan files found disk active' idle => exact absurd idle hidle
  | scan idle disk active' => exact absurd idle hidle
  | plan idle disk active' => exact absurd idle hidle
  | record active₀ context projecting expected disk active' =>
    exact absurd projecting (hprojecting _)
  | drop active₀ projecting disk active' => exact absurd projecting (hprojecting _)
  | project active₀ projecting run active' => exact absurd projecting (hprojecting _)

/-- The run of it. -/
theorem ImportStretch.run {requests : List (SemanticRequest D)} (h : ImportStretch active s t)
    (hrun : (daemonMachine D writer).exec t (requests.map .serve) = some s')
    (hends : ∀ request ∈ requests, request.endsImport = false) : ImportStretch active s s' := by
  have hmeets : (daemonMachine D writer).Meets
      (fun _ action => ∃ request, action = .serve request ∧ request.endsImport = false) t
      (requests.map .serve) := by
    refine Machine.meets_of_forall_mem fun action haction _ => ?_
    obtain ⟨request, hrequest, rfl⟩ := List.mem_map.mp haction
    exact ⟨request, rfl, hends request hrequest⟩
  refine hmeets.invariant (I := ImportStretch active s) h ?_ hrun
  rintro u action u' hu ⟨request, rfl, hrequest⟩ hstep
  exact hu.served (served_of_step hstep) hrequest

omit [TextCrdt D] [Xxh3] [CharDiff] in
/-- What a file that was read in an epoch of a running daemon is realigned to. -/
theorem realignedTo_of_stage {result : ImportActionResult} {context : ImportActionContext}
    {plan : ImportActionStagePlan} {now : Timestamp} {objectId : ObjectId}
    {claimId : NamespaceClaimId} {stat : FileStatFingerprint} {hash : FileHash}
    (hactive : s.active = .importing active) (hkind : active.kind = .sync)
    (hcontext : active.context result = some context)
    (hplan : prepareImportActionStage context result = .ok (.stage plan))
    (hfp : plan.fingerprint = .statAndContent stat hash) :
    s.realignedTo (.commitImportAction result now objectId claimId) =
      (s.db.realignment plan (s.db.appliedIntent plan.path stat hash)).map Prod.fst := by
  have hsync : plan.epochKind = .sync := by
    obtain ⟨-, -, -, -, -, hplanKind, -⟩ := stage_of_prepareImportActionStage hplan
    obtain ⟨action, -, -, rfl⟩ := action_of_context hcontext
    exact hplanKind.trans hkind
  have hstage := stagePlan_eq_some_iff.mpr ⟨active, context, hactive, hcontext, hplan⟩
  simp only [SemanticActor.realignedTo, hstage, Option.bind_some, hsync, hfp]

/-- What is read is staged unless it is realigned. -/
theorem staged_of_step {result : ImportActionResult} {context : ImportActionContext}
    {plan : ImportActionStagePlan} {now : Timestamp} {objectId : ObjectId}
    {claimId : NamespaceClaimId} (hactive : s.active = .importing active)
    (hkind : active.kind = .sync) (hcontext : active.context result = some context)
    (hplan : prepareImportActionStage context result = .ok (.stage plan))
    (hnone : s.realignedTo (.commitImportAction result now objectId claimId) = none)
    (hstep : s.step (.commitImportAction result now objectId claimId) = some s') :
    s'.db.importStagedFiles.rows = s.db.importStagedFiles.rows ++
        [stagedRow plan (s.db.stagedTextImport plan now objectId claimId)] ∧
      s'.active = .importing { active with completed := result.actionId :: active.completed } := by
  cases (served_of_step hstep).diskStep with
  | shared isShared disk active' => cases isShared
  | stage active₀ context₀ plan₀ rows importing expected decided inserted disk active' =>
    rw [hactive] at importing
    cases importing
    rw [hcontext] at expected
    cases expected
    rw [hplan] at decided
    cases decided
    rw [show s'.db.importStagedFiles = rows from congrArg DiskTables.importStagedFiles disk]
    exact ⟨ImportStagedFiles.insert_eq_ok inserted, active'⟩
  | realign active₀ context₀ plan₀ stat hash row doc importing expected decided fingerprint
      realignment disk active' =>
    rw [hactive] at importing
    cases importing
    rw [hcontext] at expected
    cases expected
    rw [hplan] at decided
    cases decided
    rw [realignedTo_of_stage hactive hkind hcontext hplan fingerprint, realignment] at hnone
    cases hnone
  | skip active₀ context₀ importing expected decided disk active' =>
    rw [hactive] at importing
    cases importing
    rw [hcontext] at expected
    cases expected
    exact absurd hplan (decided plan)

/-- The prior document of an object stays where no file is realigned to it. -/
theorem priorText_of_served {request : SemanticRequest D} {id : ObjectId}
    (hactive : s.active = .importing active) (hkind : active.kind = .sync)
    (hserved : Served s request s') (hends : request.endsImport = false)
    (hother : ∀ row, s.realignedTo request = some row → row.objectId ≠ id) :
    s'.db.priorText id = s.db.priorText id := by
  cases hserved.diskStep with
  | realign active₀ context plan stat hash row doc importing expected decided fingerprint realignment
      disk active' =>
    rw [hactive] at importing
    cases importing
    have hrow : row.objectId ≠ id := by
      refine hother row ?_
      rw [realignedTo_of_stage hactive hkind expected decided fingerprint, realignment]
      rfl
    have htexts : s'.db.priorTextObjects = s.db.priorTextObjects.put ⟨row.objectId, doc⟩ :=
      congrArg DiskTables.priorTextObjects disk
    rw [priorText_put htexts, if_neg hrow]
  | commit active₀ importing disk active' => cases hends
  | project active₀ projecting run active' =>
    rw [hactive] at projecting
    cases projecting
  | shared isShared disk active' => exact priorText_of_disk (by rw [disk])
  | initScan files found disk active' idle => exact priorText_of_disk (by rw [disk])
  | scan idle disk active' => exact priorText_of_disk (by rw [disk])
  | stage active₀ context plan rows importing expected decided inserted disk active' =>
    exact priorText_of_disk (by rw [disk])
  | skip active₀ context importing expected decided disk active' =>
    exact priorText_of_disk (by rw [disk])
  | plan idle disk active' => exact priorText_of_disk (by rw [disk])
  | record active₀ context projecting expected disk active' =>
    rw [hactive] at projecting
    cases projecting
  | drop active₀ projecting disk active' => exact priorText_of_disk (by rw [disk])

/-- No step of the run realigns a file to the object. -/
def NeverRealigned (id : ObjectId) (s : SemanticActor D) : DaemonAction D → Prop
  | .serve request => ∀ row, s.realignedTo request = some row → row.objectId ≠ id
  | .restart => True

/-- The run of it. -/
theorem priorText_of_run {requests : List (SemanticRequest D)} {id : ObjectId}
    (hactive : s.active = .importing active) (hkind : active.kind = .sync)
    (hrun : (daemonMachine D writer).exec s (requests.map .serve) = some s')
    (hends : ∀ request ∈ requests, request.endsImport = false)
    (hother : (daemonMachine D writer).Meets (NeverRealigned id) s (requests.map .serve)) :
    s'.db.priorText id = s.db.priorText id := by
  induction requests generalizing s active with
  | nil =>
    cases hrun
    rfl
  | cons request requests ih =>
    rw [List.map_cons, Machine.exec, Option.bind_eq_some_iff] at hrun
    obtain ⟨t, hstep, hrun⟩ := hrun
    have hserved := served_of_step hstep
    have hends' := hends request List.mem_cons_self
    obtain ⟨completed, hactive'⟩ := ((importStretch_refl hactive).served hserved hends').continues
    have hstay := priorText_of_served hactive hkind hserved hends' hother.1
    rw [ih hactive' hkind hrun (fun r hr => hends r (List.mem_cons_of_mem _ hr))
      (hother.2 t hstep), hstay]

end Stretch

section Reached

variable {s : SemanticActor D} {writer : DaemonWriterId}

/-- In every run rows are staged under the active import epoch only. -/
theorem stagingTidy_of_reached (h : (daemonMachine D writer).Reached s) : StagingTidy s := by
  refine h.invariant ?_ ?_
  · rintro s rfl
    exact stagingTidy_of_nil rfl nofun
  · intro s action s' _ hs _ hstep
    cases action with
    | serve request => exact (served_of_step hstep).stagingTidy hs
    | restart =>
      cases hstep
      exact stagingTidy_of_nil rfl nofun

/-- Nothing leaves the stable namespace. -/
theorem stableNamespace_subset_of_step {s' : SemanticActor D} {request : SemanticRequest D}
    (h : (daemonMachine D writer).Reached s) (hstep : s.step request = some s') :
    s.db.stableNamespace ⊆ s'.db.stableNamespace := by
  cases (served_of_step hstep).documentStep (stagingTidy_of_reached h)
    (treeDerived_of_reached h).importReady with
  | frame docs staged target => exact docs.stableNamespace.ge
  | plan docs staged target => exact docs.stableNamespace.ge
  | mint entries rows rows_staged docs staged target =>
    exact docs.stableNamespace ▸ Finset.subset_union_left
  | stage plan docs staged target => exact docs.stableNamespace.ge
  | realign id priorNamespace stableNamespace priorText stableText staged target =>
    exact stableNamespace.ge
  | project active projecting priorNamespace stableNamespace priorText stableText staged target =>
    exact stableNamespace.ge
  | batch priorNamespace priorText stable staged active =>
    exact fun op hop => stable.ge (show SharedOp.ns op ∈ _ from .inl hop)

/-- The run of it. -/
theorem stableNamespace_subset_of_run {s' : SemanticActor D} {requests : List (SemanticRequest D)}
    (h : (daemonMachine D writer).Reached s)
    (hrun : (daemonMachine D writer).exec s (requests.map .serve) = some s') :
    s.db.stableNamespace ⊆ s'.db.stableNamespace := by
  induction requests generalizing s with
  | nil =>
    cases hrun
    exact Finset.Subset.refl _
  | cons request requests ih =>
    rw [List.map_cons, Machine.exec, Option.bind_eq_some_iff] at hrun
    obtain ⟨t, hstep, hrun⟩ := hrun
    exact (stableNamespace_subset_of_step h hstep).trans
      (ih (h.step (a := .serve request) trivial hstep) hrun)

end Reached

end Opbox
