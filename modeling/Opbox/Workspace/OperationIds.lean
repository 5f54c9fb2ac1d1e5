import Opbox.Semantic.OperationIds
import Opbox.Workspace.Causality

/-!
# Operation ids are never used twice

The operations of a client are minted by one daemon.  Whatever other daemons and the log hold of
them, that daemon holds as well, so a batch brings it none that it does not have; hence its prior
documents have all of them, and the clock it mints under is new.
-/

namespace Opbox

variable {ι D : Type} [ClockedTextCrdt D]

open TextCrdt ClockedTextCrdt

/-- The operations of a batch are operations of the log. -/
theorem messageOps_subset_logOps {log : List (LogRecord (SharedMessage D))} {cursor : SequenceNumber}
    {count : Nat} (writer : DaemonWriterId) :
    messageOps (foreignMessages writer (envelopesFrom cursor ((log.drop cursor).take count))) ⊆
      logOps log := by
  intro x hx
  rw [messageOps_foreignMessages] at hx
  simp only [operations, Set.mem_iUnion, exists_prop] at hx
  obtain ⟨m, ⟨other, -, hm⟩, hx⟩ := hx
  obtain ⟨r, hr, heq⟩ := List.mem_map.mp hm
  cases heq
  exact ⟨r, List.mem_of_mem_drop (List.mem_of_mem_take hr), hx⟩

/-- The object id generated for the file of an import action. -/
def SemanticRequest.generatedObjectId : SemanticRequest D → Option ObjectId
  | commitImportAction _ _ objectId _ => some objectId
  | _ => none

namespace Workspace

/-- The object id generated for a new file is not in use. -/
def FreshIds (w : Workspace ι D) : WorkspaceAction ι D → Prop
  | .serve i request => ∀ id ∈ request.generatedObjectId,
      (w.daemons i).db.stableTextObjectDoc id = none
  | _ => True

instance FreshIds.decidable (w : Workspace ι D) : ∀ action, Decidable (w.FreshIds action)
  | .serve i request => inferInstanceAs (Decidable (∀ id ∈ request.generatedObjectId,
      (w.daemons i).db.stableTextObjectDoc id = none))
  | .append .. => inferInstanceAs (Decidable True)
  | .duplicate .. => inferInstanceAs (Decidable True)
  | .trim .. => inferInstanceAs (Decidable True)
  | .read .. => inferInstanceAs (Decidable True)
  | .restart _ => inferInstanceAs (Decidable True)

/-- The operations of each client are kept by its daemon, which does not use their ids again. -/
structure IdsKept (writers : WriterIds ι) (w : Workspace ι D) : Prop where
  /-- Nothing is staged outside an import epoch. -/
  tidy : ∀ i, StagingTidy (w.daemons i)
  /-- The prior documents have all operations of the own client. -/
  tracks : ∀ i, PriorTracks (SharedOp.Own (clientIdForWriter (writers.id i))) (w.daemons i)
  /-- Their ids are different. -/
  ids : ∀ i, OwnIds (clientIdForWriter (writers.id i)) (w.daemons i)
  /-- What another daemon has of the operations of a client its own daemon has. -/
  home : ∀ i j, ∀ x ∈ (w.daemons j).db.stableOps, x.Own (clientIdForWriter (writers.id i)) →
    x ∈ (w.daemons i).db.stableOps
  /-- All operations were minted by the daemons. -/
  client : ∀ j, ∀ x ∈ (w.daemons j).db.stableOps, ∀ d c k, x.key = some (d, c, k) →
    ∃ i, c = clientIdForWriter (writers.id i)

section Runs

variable [DecidableEq ι] [CharDiff] [Xxh3] [DecidableEq D] {writers : WriterIds ι}
  {w w' : Workspace ι D}

omit [DecidableEq ι] in
/-- The operations of a record are those of a daemon. -/
theorem InStep.mem_stableOps_of_log (h : w.InStep writers) {x : SharedOp D} (hx : x ∈ logOps w.log) :
    ∃ i, x ∈ (w.daemons i).db.stableOps := by
  obtain ⟨r, hr, hx⟩ := hx
  obtain ⟨i, hi⟩ := h.origin r hr
  refine ⟨i, ?_⟩
  have hown : r.sharedMessage ∈ ownEntries (logEntries w.log) (w.daemons i).db.writerId := by
    rw [h.writerId, ← hi]
    exact List.mem_map.mpr ⟨r, hr, rfl⟩
  have hmem : x ∈ (w.daemons i).db.replica.contents := by
    rw [(h.daemon i).coherent.contents_eq]
    simp only [operations, Set.mem_union, Set.mem_iUnion, exists_prop]
    exact .inl ⟨_, .inr hown, hx⟩
  exact hmem

omit [CharDiff] [Xxh3] [DecidableEq D] in
/-- A step of one daemon that loses nothing, and whose new operations are its own or those of another
daemon. -/
theorem IdsKept.setDaemon (h : w.IdsKept writers) {i : ι} {s : SemanticActor D}
    (htidy : StagingTidy s)
    (htracks : PriorTracks (SharedOp.Own (clientIdForWriter (writers.id i))) s)
    (hids : OwnIds (clientIdForWriter (writers.id i)) s)
    (hmono : (w.daemons i).db.stableOps ⊆ s.db.stableOps)
    (hnew : ∀ x ∈ s.db.stableOps, ∀ d c k, x.key = some (d, c, k) →
      c = clientIdForWriter (writers.id i) ∨ ∃ j, x ∈ (w.daemons j).db.stableOps) :
    (w.setDaemon i s).IdsKept writers := by
  have hkeep : ∀ k, (w.daemons k).db.stableOps ⊆ ((w.setDaemon i s).daemons k).db.stableOps := by
    intro k
    by_cases hk : k = i
    · subst hk
      rw [setDaemon_daemons_self]
      exact hmono
    · rw [setDaemon_daemons_of_ne w hk]
  refine ⟨fun j => ?_, fun j => ?_, fun j => ?_, fun k j x hx hown => ?_, fun j x hx d c k hkey => ?_⟩
  all_goals by_cases hj : j = i
  · subst hj
    rw [setDaemon_daemons_self]
    exact htidy
  · rw [setDaemon_daemons_of_ne w hj]
    exact h.tidy j
  · subst hj
    rw [setDaemon_daemons_self]
    exact htracks
  · rw [setDaemon_daemons_of_ne w hj]
    exact h.tracks j
  · subst hj
    rw [setDaemon_daemons_self]
    exact hids
  · rw [setDaemon_daemons_of_ne w hj]
    exact h.ids j
  · subst hj
    rw [setDaemon_daemons_self] at hx
    obtain ⟨d, n, hkey⟩ := hown
    rcases hnew x hx d _ n hkey with hclient | ⟨j', hj'⟩
    · have hk : k = j := writers.clientId_injective hclient
      subst hk
      rw [setDaemon_daemons_self]
      exact hx
    · exact hkeep k (h.home k j' x hj' ⟨d, n, hkey⟩)
  · rw [setDaemon_daemons_of_ne w hj] at hx
    exact hkeep k (h.home k j x hx hown)
  · subst hj
    rw [setDaemon_daemons_self] at hx
    rcases hnew x hx d c k hkey with hclient | ⟨j', hj'⟩
    · exact ⟨j, hclient⟩
    · exact h.client j' x hj' d c k hkey
  · rw [setDaemon_daemons_of_ne w hj] at hx
    exact h.client j x hx d c k hkey

/-- A request served by one daemon, whose new operations are its own or those of another daemon. -/
theorem IdsKept.served (h : w.IdsKept writers) (hw : w.InStep writers) {i : ι}
    {request : SemanticRequest D} {s : SemanticActor D} (hserved : Served (w.daemons i) request s)
    (hnew : ∀ x ∈ s.db.stableOps, ∀ d c k, x.key = some (d, c, k) →
      c = clientIdForWriter (writers.id i) ∨ ∃ j, x ∈ (w.daemons j).db.stableOps)
    (hbatch : ∀ batch, request = .applySharedMessageBatch batch →
      ∀ x ∈ messageOps (foreignMessages (w.daemons i).db.writerId batch.messages),
        ∃ j, x ∈ (w.daemons j).db.stableOps)
    (hfresh : ∀ result now objectId claimId,
      request = .commitImportAction result now objectId claimId →
        (w.daemons i).db.stableTextObjectDoc objectId = none) :
    (w.setDaemon i s).IdsKept writers := by
  have hstep := hserved.documentStep (h.tidy i) (hw.daemon i).importReady
  refine h.setDaemon (hserved.stagingTidy (h.tidy i)) ?_
    (hstep.ownIds (by rw [hw.writerId]) (h.tracks i) (h.ids i)) hstep.stable_mono hnew
  refine hstep.priorTracks (h.tracks i) (fun batch hrequest x hx hown => ?_) ?_
  · obtain ⟨j, hj⟩ := hbatch batch hrequest x hx
    exact h.home i j x hj hown
  · intro result now objectId claimId hrequest op hop
    rw [Db.stableText, hfresh result now objectId claimId hrequest] at hop
    have hempty : op ∈ ops (TextDoc.emptyTextState : D) := hop
    rw [TextDoc.ops_emptyTextState] at hempty
    exact absurd hempty (Set.notMem_empty op)

/-- Every step keeps the ids, if the generated object ids are new. -/
theorem IdsKept.step (h : w.IdsKept writers) (hw : w.InStep writers) {action : WorkspaceAction ι D}
    (hfresh : w.FreshIds action) (hstep : w.step action = some w') : w'.IdsKept writers := by
  have hown : ∀ (i : ι) {request : SemanticRequest D} {s : SemanticActor D},
      Served (w.daemons i) request s → (∀ batch, request ≠ .applySharedMessageBatch batch) →
      ∀ x ∈ s.db.stableOps, ∀ d c k, x.key = some (d, c, k) →
        c = clientIdForWriter (writers.id i) ∨ ∃ j, x ∈ (w.daemons j).db.stableOps := by
    intro i request s hserved hbatch x hx d c k hkey
    have hdocs := hserved.documentStep (h.tidy i) (hw.daemon i).importReady
    rcases hdocs.own_of_new (by rw [hw.writerId]) (h.ids i) hbatch hx hkey with hold | hclient
    · exact .inr ⟨i, hold⟩
    · exact .inl hclient
  unfold Workspace.step at hstep
  cases action with
  | serve i request =>
    dsimp only at hstep
    split_ifs at hstep with hlocal
    obtain ⟨s, hs, rfl⟩ := Option.map_eq_some_iff.mp hstep
    have hnone : ∀ batch, request ≠ .applySharedMessageBatch batch := by
      intro batch hbatch
      rw [hbatch] at hlocal
      cases hlocal
    refine h.served hw (served_of_step hs) (hown i (served_of_step hs) hnone)
      (fun batch hbatch => absurd hbatch (hnone batch)) ?_
    intro result now objectId claimId hrequest
    subst hrequest
    exact hfresh objectId rfl
  | append i outboxId timestamp =>
    obtain ⟨row, -, rfl⟩ := Option.map_eq_some_iff.mp hstep
    exact ⟨h.tidy, h.tracks, h.ids, h.home, h.client⟩
  | duplicate n timestamp =>
    obtain ⟨r, -, rfl⟩ := Option.map_eq_some_iff.mp hstep
    exact ⟨h.tidy, h.tracks, h.ids, h.home, h.client⟩
  | trim i through =>
    dsimp only at hstep
    split_ifs at hstep
    obtain ⟨s, hs, rfl⟩ := Option.map_eq_some_iff.mp hstep
    exact h.served hw (served_of_step hs) (hown i (served_of_step hs) (by rintro _ ⟨⟩))
      (by rintro _ ⟨⟩) (by rintro _ _ _ _ ⟨⟩)
  | read i count =>
    dsimp only at hstep
    split at hstep
    next batch hbatch =>
      obtain ⟨s, hs, rfl⟩ := Option.map_eq_some_iff.mp hstep
      have hserved := served_of_step hs
      have hmessages := (SharedMessageBatch.tryFrom_envelopesFrom hbatch).1
      have hlog : ∀ x ∈ messageOps (foreignMessages (w.daemons i).db.writerId batch.messages),
          ∃ j, x ∈ (w.daemons j).db.stableOps := by
        intro x hx
        rw [hmessages] at hx
        exact hw.mem_stableOps_of_log (messageOps_subset_logOps _ hx)
      refine h.served hw hserved (fun x hx d c k hkey => .inr ?_) (fun batch' hrequest => ?_)
        (by rintro _ _ _ _ ⟨⟩)
      · cases hserved with
        | applySharedMessageBatch hrun =>
          obtain ⟨docs, happlied, -⟩ := runs_applySharedMessageBatchTx hrun
          have hstable := happlied.stableOps.le hx
          rcases hstable with hold | hread
          · exact ⟨i, hold⟩
          · exact hlog x hread
      · cases hrequest
        exact hlog
    · cases hstep
  | restart i =>
    cases hstep
    exact h.setDaemon (stagingTidy_of_nil rfl (by rintro _ ⟨⟩)) (h.tracks i).restart
      (h.ids i).restart subset_rfl fun x hx _ _ _ _ => .inr ⟨i, hx⟩

/-- In every run of a workspace a daemon mints under clocks that it has not used: its clock is the
same in the prior namespace and the stable one, and in the prior and the stable document of every
object.  No two operations of the workspace on one document have one id. -/
theorem operation_ids_unique (h : (workspaceMachine (D := D) writers).Reachable FreshIds w) :
    (∀ i, (w.daemons i).db.priorNamespace.stateVector (clientIdForWriter (writers.id i)) =
          (w.daemons i).db.stableNamespace.stateVector (clientIdForWriter (writers.id i)) ∧
        ∀ id, stateVector ((w.daemons i).db.priorText id) (clientIdForWriter (writers.id i)) =
          stateVector ((w.daemons i).db.stableText id) (clientIdForWriter (writers.id i))) ∧
      ∀ i j, ∀ x ∈ (w.daemons i).db.stableOps, ∀ y ∈ (w.daemons j).db.stableOps, ∀ key,
        x.key = some key → y.key = some key → x = y := by
  have hkept : w.IdsKept writers := by
    refine h.invariant ?_ fun w action w' hreach hkept hfresh hstep => ?_
    · rintro w ⟨-, hdaemons⟩
      refine ⟨fun i => ?_, fun i => ?_, fun i => ?_, fun i j x hx => ?_, fun j x hx => ?_⟩
      · rw [hdaemons]
        exact stagingTidy_of_nil rfl nofun
      · rw [hdaemons]
        exact priorTracks_start _ _
      · rw [hdaemons]
        exact ownIds_start _ _
      all_goals
        rw [hdaemons] at hx
        exfalso
        cases x with
        | ns op => exact Finset.notMem_empty op hx
        | text id op =>
          have hempty : op ∈ ops (TextDoc.emptyTextState : D) := hx
          rw [TextDoc.ops_emptyTextState] at hempty
          exact hempty
    · exact hkept.step (inStep_of_reached (hreach.mono fun _ _ _ => trivial)) hfresh hstep
  refine ⟨fun i => (hkept.tracks i).stateVector_eq, ?_⟩
  rintro i j x hx y hy ⟨d, c, k⟩ hkey hkey'
  obtain ⟨n, rfl⟩ := hkept.client i x hx d c k hkey
  exact (hkept.ids n).stable (hkept.tracks n) x (hkept.home n i x hx ⟨d, k, hkey⟩) y
    (hkept.home n j y hy ⟨d, k, hkey'⟩) d k hkey hkey'

end Runs

/-! ## A run with new object ids -/

open Snapshots

/-- What `operation_ids_unique` promises after a run in which a file reaches a second daemon. -/
theorem operation_ids_unique_publishRun : ∃ w : Workspace (Fin 2) Doc,
    (workspaceMachine twoWriters).exec twoDaemons publishRun = some w ∧
      (w.daemons 0).db.priorNamespace.stateVector (clientIdForWriter (twoWriters.id 0)) = 2 ∧
      (w.daemons 0).db.stableNamespace.stateVector (clientIdForWriter (twoWriters.id 0)) = 2 ∧
      ∀ x ∈ (w.daemons 0).db.stableOps, ∀ y ∈ (w.daemons 1).db.stableOps, ∀ key,
        x.key = some key → y.key = some key → x = y := by
  have hrun : ((workspaceMachine twoWriters).exec twoDaemons publishRun).any (fun w =>
      decide ((w.daemons 0).db.priorNamespace.stateVector (clientIdForWriter (twoWriters.id 0)) =
        2)) = true := by decide +kernel
  obtain ⟨w, hw, hclock⟩ := Machine.exists_exec hrun
  have hfresh : (workspaceMachine twoWriters).Meets FreshIds twoDaemons publishRun := by
    decide +kernel
  have hinit : (workspaceMachine twoWriters).initial twoDaemons := ⟨rfl, fun _ => rfl⟩
  obtain ⟨hclocks, hunique⟩ :=
    operation_ids_unique (Machine.Reachable.exec (.init hinit) hfresh hw)
  exact ⟨w, hw, of_decide_eq_true hclock, (hclocks 0).1 ▸ of_decide_eq_true hclock, hunique 0 1⟩

end Workspace

end Opbox
