import Opbox.Crdt.Snapshots
import Opbox.Foundation.Machine
import Opbox.Semantic.Publication

/-!
# Runs of one daemon

A daemon serves requests on its database and may be restarted at any point.  The batches it is
given are arbitrary here, and so are the results of scans, reads and projection actions.
-/

namespace Opbox

variable {D : Type}

/-- What can happen to a daemon. -/
inductive DaemonAction (D : Type) where
  /-- It serves a request. -/
  | serve (request : SemanticRequest D)
  /-- It stops and starts again on its database. -/
  | restart

section Machine

variable [TextCrdt D] [CharDiff] [Xxh3] [DecidableEq D]

/-- One step of a daemon. -/
def SemanticActor.act (s : SemanticActor D) : DaemonAction D → Option (SemanticActor D)
  | .serve request => s.step request
  | .restart => some (.start s.db)

variable (D) in
/-- The runs of a daemon from a new database. -/
def daemonMachine (writer : DaemonWriterId) : Machine (SemanticActor D) (DaemonAction D) where
  initial s := s = .start (Db.initialized D writer 0)
  step := SemanticActor.act

variable {s s' : SemanticActor D} {writer : DaemonWriterId}

/-! ## The stable tree is the materialization of the stable namespace -/

/-- What the stable tree has to do with the stable namespace. -/
structure TreeDerived (s : SemanticActor D) : Prop where
  /-- The stable tree is the materialization of the stable namespace. -/
  treeSynced : TreeSynced s.db.stableTree s.db.stableNamespace
  /-- It names objects with rows only. -/
  objectsKnown : s.db.ObjectsKnown
  /-- The first import starts from an empty namespace. -/
  importReady : ImportReady s

/-- A request keeps the stable tree derived. -/
theorem TreeDerived.served {request : SemanticRequest D} (h : TreeDerived s)
    (hserved : Served s request s') : TreeDerived s' := by
  have hready := hserved.importReady h.importReady
  by_cases hlocal : request.isLocal = true
  · obtain ⟨minted, hpublished⟩ := hserved.published hlocal h.importReady
    exact ⟨hpublished.treeSynced h.treeSynced, hpublished.objectsKnown h.objectsKnown, hready⟩
  · cases hserved with
    | applySharedMessageBatch hrun =>
      obtain ⟨docs, happlied, -⟩ := runs_applySharedMessageBatchTx hrun
      exact ⟨happlied.treeSynced h.treeSynced, happlied.objectsKnown h.objectsKnown, hready⟩
    | trimOutbox => exact ⟨h.treeSynced, h.objectsKnown, hready⟩
    | _ => exact absurd rfl hlocal

/-- In every run of a daemon the stable tree is derived from the stable namespace. -/
theorem treeDerived_of_reached (h : (daemonMachine D writer).Reached s) : TreeDerived s := by
  refine h.invariant ?_ ?_
  · rintro s rfl
    refine ⟨treeSynced_initial, ?_, ?_, fun active h => by cases h⟩
    · intro row hrow
      cases hrow
    · intro row hrow
      cases hrow
  · intro s action s' _ hs _ hstep
    cases action with
    | serve request => exact hs.served (served_of_step hstep)
    | restart =>
      cases hstep
      refine ⟨hs.treeSynced, hs.objectsKnown, ?_, fun active h => by cases h⟩
      intro row hrow
      cases hrow

/-- In every run the rows of the stable tree are exactly the placements that materializing the
stable namespace computes, and every object they name has its row. -/
theorem stableTree_is_materialization (h : (daemonMachine D writer).Reached s) :
    ∃ projection, s.db.stableNamespace.materialize = .ok projection ∧
      (∀ file, (∃ row ∈ s.db.stableTree.table, row.file = file) ↔
        ∃ placement ∈ projection.placements, placement.file = file) ∧
      ∀ row ∈ s.db.stableTree.table, ∃ object ∈ s.db.objects, object.objectId = row.objectId := by
  have hs := treeDerived_of_reached h
  obtain ⟨projection, hproj, hmem⟩ := hs.treeSynced.mem_iff
  exact ⟨projection, hproj, hmem, hs.objectsKnown⟩

end Machine

/-! ## A run with two claims on one path -/

open Snapshots

/-- A batch of records that another daemon appended. -/
def foreignBatch (cursor : SequenceNumber) (messages : List (SharedMessage Doc)) :
    Option (SharedMessageBatch (SharedMessage Doc)) :=
  (SharedMessageBatch.tryFrom (envelopesFrom cursor
    (messages.map fun message => ⟨0, ⟨[9], 0⟩, message⟩))).toOption

/-- Serve a batch, if there is one. -/
def serveBatch (batch : Option (SharedMessageBatch (SharedMessage Doc))) :
    List (DaemonAction Doc) :=
  (batch.map fun batch => .serve (.applySharedMessageBatch batch)).toList

/-- A daemon imports a file, another daemon claims the same path, and the first daemon restarts. -/
def conflictRun : List (DaemonAction Doc) :=
  [.serve (.applyInitScan (scanOf .full [(rootFile 1, fileStat 7 2 0)])),
    .serve (.commitImportAction (.read ⟨0, 0⟩ (.completed (.read [104, 105]
      (.statAndContent (fileStat 7 2 0) [104, 105])))) 0 [1] [2]),
    .serve (.commitImportEpoch 0)] ++
  serveBatch (foreignBatch 0 [.namespaceUpdate (NamespaceDoc.mintedOps 77 0
    [.object [3] ⟨.text, [9]⟩, .claim [4] ⟨[3], rootFile 1⟩])]) ++ [.restart]

/-- What `stableTree_is_materialization` says after this run: there are two rows. -/
theorem stableTree_is_materialization_conflictRun : ∃ s : SemanticActor Doc,
    (daemonMachine Doc [0, 0, 0, 1]).exec (.start (Db.initialized Doc [0, 0, 0, 1] 0)) conflictRun =
        some s ∧
      s.db.stableTree.table.rows.length = 2 ∧
      ∃ projection, s.db.stableNamespace.materialize = .ok projection ∧
        (∀ file, (∃ row ∈ s.db.stableTree.table, row.file = file) ↔
          ∃ placement ∈ projection.placements, placement.file = file) ∧
        ∀ row ∈ s.db.stableTree.table, ∃ object ∈ s.db.objects, object.objectId = row.objectId := by
  have hrun : ((daemonMachine Doc [0, 0, 0, 1]).exec
      (.start (Db.initialized Doc [0, 0, 0, 1] 0)) conflictRun).any (fun s =>
        decide (s.db.stableTree.table.rows.length = 2)) = true := by decide +kernel
  obtain ⟨s, hs, hrows⟩ := Machine.exists_exec hrun
  exact ⟨s, hs, of_decide_eq_true hrows,
    stableTree_is_materialization (Machine.reached_of_exec rfl hs)⟩

end Opbox
