import Opbox.Semantic.OutboxShape
import Opbox.Semantic.Runs

/-!
# The outbox table of a daemon

Every request a daemon serves performs one operation on its `outbox` table, so the table of a
daemon has the shape that runs of operations have.
-/

namespace Opbox

variable {D : Type} [TextCrdt D] [CharDiff] [Xxh3] [DecidableEq D] {s s' : SemanticActor D}
  {writer : DaemonWriterId}

/-- A request performs one operation on the table. -/
theorem Served.outbox_perform {request : SemanticRequest D} (h : Served s request s') :
    ∃ operation, s.db.outbox.perform operation = .ok s'.db.outbox := by
  have hnone : ∀ db : Db D, db.outbox = s.db.outbox →
      ∃ operation, s.db.outbox.perform operation = .ok db.outbox := by
    intro db hdb
    exact ⟨.push [], hdb ▸ Outbox.pushOutboxMessages_nil _⟩
  cases h with
  | applyInitScan hidle hrun => exact hnone _ (by rw [(runs_applyInitScan hrun).1])
  | applyScan hidle hrun => exact ⟨.push _, (runs_applyScan hrun).1.outbox⟩
  | commitImportAction hactive hcontext hrun =>
    obtain ⟨-, ⟨plan, t, -, hstage, heq⟩ | ⟨-, heq⟩⟩ := runs_commitImportAction hrun
    · obtain ⟨stat, hash, -, ⟨-, row, doc, -, rfl⟩ | ⟨-, rows, hrows, rfl⟩⟩ :=
        runs_stageImportActionTx hstage
      · refine hnone _ ?_
        rw [heq]
        rfl
      · refine hnone _ ?_
        rw [heq]
    · refine hnone _ ?_
      rw [heq]
  | commitImportEpoch hactive hcomplete hrun =>
    rcases runs_commitImportEpoch hrun with ⟨-, n, hrun⟩ | ⟨-, n, hrun⟩
    · exact ⟨.push _, (runs_commitInitImportEpochTx hrun).1.outbox⟩
    · exact ⟨.push _, (runs_commitSyncImportEpochTx hrun).1.outbox⟩
  | getNextWork hidle hrun => exact hnone _ (by rw [(runs_getNextWorkTx hrun).1])
  | commitProjectionAction hactive hcontext hrun =>
    rcases runs_commitProjectionAction hrun with ⟨-, rfl⟩ | ⟨stat, hash, -, rfl⟩
    · exact hnone _ rfl
    · exact hnone _ (by split <;> rfl)
  | commitProjectionEpoch hactive hcomplete hrun =>
    rcases runs_commitProjectionEpochTx hrun with ⟨-, rfl⟩ | ⟨-, hrun⟩
    · exact hnone _ rfl
    · exact hnone _ (by rw [runs_commitCompletedProjectionActions_frame hrun])
  | applySharedMessageBatch hrun =>
    obtain ⟨docs, happlied, -⟩ := runs_applySharedMessageBatchTx hrun
    exact hnone _ (by rw [happlied.eq])
  | @readOutbox limit outbox messages hread =>
    refine ⟨.reserve limit, ?_⟩
    rw [Outbox.perform, hread]
    rfl
  | releaseOutbox => exact ⟨.release, rfl⟩
  | @trimOutbox through hbound =>
    exact ⟨.trim through, Outbox.trimOutboxTx_eq_ok.mpr ⟨hbound, rfl⟩⟩

/-- The table of a daemon has gone through a run of operations. -/
theorem reached_outbox (h : (daemonMachine D writer).Reached s) :
    (Outbox.machine (SharedMessage D)).Reached s.db.outbox := by
  have hstep : ∀ {o o' : Outbox (SharedMessage D)} {operation},
      (Outbox.machine (SharedMessage D)).Reached o → o.perform operation = .ok o' →
      (Outbox.machine (SharedMessage D)).Reached o' := by
    intro o o' operation ho hperform
    refine ho.step (a := operation) trivial ?_
    rw [Outbox.step_eq_some, hperform]
    rfl
  refine h.invariant (I := fun s => (Outbox.machine (SharedMessage D)).Reached s.db.outbox) ?_ ?_
  · rintro s rfl
    exact hstep (.init rfl) (show Outbox.perform _ .restart = _ from rfl)
  · intro s action s' _ hs _ hact
    cases action with
    | serve request =>
      obtain ⟨operation, hperform⟩ := (served_of_step hact).outbox_perform
      exact hstep hs hperform
    | restart =>
      cases hact
      exact hstep hs (show Outbox.perform _ .restart = _ from rfl)

/-- In every run of a daemon the table has its shape. -/
theorem outbox_spans_of_reached (h : (daemonMachine D writer).Reached s) :
    ∃ first middle, s.db.outbox.Spans first middle :=
  Outbox.spans_of_reached (reached_outbox h)

end Opbox
