import Opbox.Engine.CloneProjection
import Opbox.Workspace.Rest

/-!
# Clones of one log

A clone pulls a beginning of the shared log into a database of its own and writes what it places to its
sync root (`engine/clone.rs`).  It has minted nothing, so what it places depends on the records alone: two
clones of one beginning hold the same files with the same texts, however their readers batch the records,
whichever of the two loops they run and whatever the sync roots held before.
-/

namespace Opbox

variable {D : Type} [TextCrdt D]

namespace CloneLoop

variable {size : SharedMessage D → Nat} {bound : CloneBound} {writer : DaemonWriterId}
  {s s' : CloneLoop D size}

/-! ## The database of a clone -/

theorem db_flush (s : CloneLoop D size) (ended : Option SequenceNumber) : (s.flush ended).db = s.db := by
  unfold flush
  split
  · rfl
  · split
    · rfl
    · rfl

theorem db_finishEnded (s : CloneLoop D size) (cursor : SequenceNumber) :
    (s.finishEnded cursor).db = s.db := by
  unfold finishEnded
  split
  · rfl
  · rfl

theorem db_onEvent (s : CloneLoop D size) (now : Nat) (event : CloneReaderEvent (SharedMessage D)) :
    (s.onEvent now event).db = s.db := by
  unfold onEvent
  split
  · rfl
  · rfl
  · split
    · rfl
    · rfl
  · rfl
  · split
    · split
      · exact s.db_finishEnded _
      · exact s.db_flush _
    · rfl

/-- A turn leaves the database alone or applies a batch to it. -/
theorem db_of_step {a : CloneAction D} (h : s.step a = some s') :
    s'.db = s.db ∨ ∃ batch docs, BatchApplied s.db s'.db batch docs := by
  cases a with
  | turn =>
    simp only [CloneLoop.step] at h
    split at h
    · cases h
      exact .inl rfl
    · cases h
      exact .inl (s.db_flush _)
    · cases h
  | deadline now =>
    simp only [CloneLoop.step] at h
    split at h
    · split_ifs at h
      cases h
      exact .inl (s.db_flush _)
    · cases h
  | takeEvent now =>
    simp only [CloneLoop.step] at h
    split at h
    · cases h
      exact .inl (db_onEvent _ _ _)
    · cases h
  | readerStopped =>
    simp only [CloneLoop.step] at h
    split at h
    · cases h
      exact .inl rfl
    · cases h
  | serve =>
    simp only [CloneLoop.step] at h
    split at h
    · next nextEnd batch ended hphase =>
      split at h
      · next effects db' hrun =>
        cases h
        obtain ⟨docs, happlied, -⟩ := runs_applySharedMessageBatchTx hrun
        refine .inr ⟨batch, docs, ?_⟩
        cases ended with
        | none => exact happlied
        | some cursor =>
          rw [flushed, db_finishEnded]
          exact happlied
      · cases h
        exact .inl rfl
    · cases h
  | serveFails why =>
    simp only [CloneLoop.step] at h
    split at h
    · cases h
      exact .inl rfl
    · cases h
  | emit event =>
    simp only [CloneLoop.step] at h
    split_ifs at h
    cases h
    exact .inl rfl

/-- What holds of the database of a clone. -/
structure Pulled (s : CloneLoop D size) : Prop where
  /-- The stable tree is the materialization of the stable namespace. -/
  treeSynced : TreeSynced s.db.stableTree s.db.stableNamespace
  /-- Nothing is accepted. -/
  unaccepted : s.db.priorTree.rows = []

theorem Pulled.step {a : CloneAction D} (h : s.Pulled) (hstep : s.step a = some s') : s'.Pulled := by
  rcases db_of_step hstep with hsame | ⟨batch, docs, happlied⟩
  · exact ⟨by rw [hsame]; exact h.treeSynced, by rw [hsame]; exact h.unaccepted⟩
  · refine ⟨happlied.treeSynced h.treeSynced, ?_⟩
    rw [happlied.eq]
    exact h.unaccepted

/-- In every run of a clone. -/
theorem pulled_of_reached (h : (machine size bound (Db.initialized D writer 0)).Reached s) :
    s.Pulled := by
  refine h.invariant ?_ fun s a s' _ hs _ hstep => hs.step hstep
  rintro s rfl
  exact ⟨treeSynced_initial, rfl⟩

/-- The operations of a clone that has returned are those of the records below its cursor, if it has
written none of them itself. -/
theorem stableOps_of_returned {n : SequenceNumber}
    (h : (machine size bound (Db.initialized D writer 0)).Reached s) (hphase : s.phase = .returned n)
    (hforeign : ∀ e ∈ s.delivered.take n, e.origin.daemonWriterId ≠ writer) :
    s.db.stableOps = (Db.initialized D [] 0).stableOps ∪
      messageOps ((s.delivered.take n).map SharedMessageEnvelope.sharedMessage) := by
  have hs : s.Inv (Db.initialized D writer 0) := by
    refine h.invariant ?_ fun s a s' _ hs _ hstep => hs.step hstep
    rintro s rfl
    exact inv_start rfl
  have hreturned : s.ReturnedPrefix (Db.initialized D writer 0) n := by
    have hphaseInv := hs.phase
    rwa [PhaseInv, hphase] at hphaseInv
  have hall : foreignMessages writer (s.delivered.take n) =
      (s.delivered.take n).map SharedMessageEnvelope.sharedMessage := by
    rw [foreignMessages, List.filter_eq_self.mpr fun e he => decide_eq_true (hforeign e he)]
  rw [hreturned.content, ← hall]
  rfl

end CloneLoop

/-! ## Two clones -/

section Clones

variable [CharDiff] [Xxh3] [DecidableEq D] {random random' : ProjectionActionId → Fin (2 ^ 64)}
  {clobber clobber' : Bool} {now now' : Timestamp} {size size' : SharedMessage D → Nat}
  {s : CloneLoop D size} {s' : CloneLoop D size'} {n n' : SequenceNumber}
  {before after before' after' : CloneParties D Volume}

/-- A clone of the first `n` records of the log into a volume that nobody else changes. -/
structure Cloned (random : ProjectionActionId → Fin (2 ^ 64)) (clobber : Bool) (now : Timestamp)
    (s : CloneLoop D size) (n : SequenceNumber) (before after : CloneParties D Volume) : Prop where
  /-- The records are pulled into a new database, and the clone has written none of them. -/
  pulled : ∃ bound writer, (CloneLoop.machine size bound (Db.initialized D writer 0)).Reached s ∧
    ∀ e ∈ s.delivered.take n, e.origin.daemonWriterId ≠ writer
  /-- The loop has returned. -/
  returned : s.phase = .returned n
  /-- The semantic actor has this database, and is in no epoch. -/
  actor : before.semantic.db = s.db ∧ before.semantic.active = .idle
  /-- The volume holds directories and files. -/
  plain : before.files.disk.Plain
  /-- No placed path is hard ignored. -/
  notIgnored : ∀ path, s.db.stableSnapshot path ≠ none → isHardIgnored path = false
  /-- The swap files are not there. -/
  fresh : ∀ action ∈ projectionActions before.semantic.nextProjectionEpoch s.db.plannedProjections,
    Volume.Fresh (random action.id) action.kind.path before.files.disk
  /-- The projection succeeds. -/
  projected : ∃ count, (projectWork clobber random now).exec before = (.ok count, after)

theorem Cloned.ready (h : Cloned random clobber now s n before after) : CloneReady random before := by
  obtain ⟨hdb, hidle⟩ := h.actor
  obtain ⟨bound, writer, hreached, -⟩ := h.pulled
  exact ⟨hidle, by rw [hdb]; exact (CloneLoop.pulled_of_reached hreached).unaccepted, h.plain,
    by rw [hdb]; exact h.notIgnored, by rw [hdb]; exact h.fresh⟩

/-- What a clone leaves at a path. -/
theorem Cloned.fileAt (h : Cloned random clobber now s n before after) (path : RelativePath) :
    (∀ id bytes, s.db.placedText path = some (id, bytes) →
      ∃ stat, after.files.disk.fileAt path = some (stat, bytes)) ∧
    (s.db.placedText path = none → after.files.disk.fileAt path = before.files.disk.fileAt path) := by
  obtain ⟨hdb, -⟩ := h.actor
  obtain ⟨count, hexec⟩ := h.projected
  obtain ⟨-, hplaced, hothers⟩ := h.ready.files hexec
  rw [hdb] at hplaced hothers
  refine ⟨fun id bytes hsome => ?_, fun hnone => ?_⟩
  · obtain ⟨⟨id', doc⟩, hsnapshot, heq⟩ := Option.map_eq_some_iff.mp hsome
    obtain ⟨-, rfl⟩ := Prod.mk.inj heq
    obtain ⟨stat, hfile, -⟩ := hplaced path id' doc hsnapshot
    exact ⟨stat, hfile⟩
  · exact (hothers path (Option.map_eq_none_iff.mp hnone)).1

end Clones

/-! ## Two clones of one file -/

section Placed

open Snapshots NoPatterns CloneLoop

/-- The records of `placedRun`. -/
def placedRecord (n : Fin 2) : SharedMessageEnvelope (SharedMessage Doc) :=
  ⟨n, n, ⟨[9], n⟩, match n with
    | 0 => .namespaceUpdate (NamespaceDoc.mintedOps 77 0
      [.object [3] ⟨.text, [9]⟩, .claim [4] ⟨[3], fileIn 1 2⟩])
    | 1 => .textObjectUpdate [3] ((TextCrdt.new : Doc).write 77 [104, 105])⟩

/-- The tail is captured before the records are read. -/
def tailRun : List (CloneAction Doc) :=
  [.emit (.status 2), .emit (.read (placedRecord 0)), .emit (.read (placedRecord 1)), .takeEvent 0,
    .takeEvent 1, .takeEvent 2, .turn, .serve, .turn]

/-- The reader stops at a bound, and the records come in two batches. -/
def boundRun : List (CloneAction Doc) :=
  [.emit (.read (placedRecord 0)), .takeEvent 0, .deadline 500, .serve,
    .emit (.read (placedRecord 1)), .emit (.ended 2), .takeEvent 600, .takeEvent 601, .serve]

/-- The clone that has pulled them, with an empty sync root. -/
def placedParties (s : CloneLoop Doc fun _ => 1) : CloneParties Doc Volume :=
  ⟨⟨s.db, 0, 0, .idle⟩, .emptyRoot⟩

/-- After this run the clone has returned, and its projection succeeds. -/
def clonesPlaced (bound : CloneBound) (writer : DaemonWriterId) (clobber : Bool)
    (run : List (CloneAction Doc)) : Bool :=
  ((machine (fun _ => 1) bound (Db.initialized Doc writer 0)).exec
    (start bound (Db.initialized Doc writer 0)) run).any fun s =>
      decide (s.phase.returned? = some 2 ∧ s.delivered.take 2 = [placedRecord 0, placedRecord 1] ∧
        (∀ e ∈ s.delivered.take 2, e.origin.daemonWriterId ≠ writer) ∧
        (∀ row ∈ s.db.stableTree.table.rows, isHardIgnored row.path = false) ∧
        s.db.placedText (fileIn 1 2) = some ([3], [104, 105])) &&
      ((projectWork clobber (fun _ => 0) 1).exec (placedParties s)).1.toOption.isSome

theorem exists_cloned {bound : CloneBound} {writer : DaemonWriterId} {clobber : Bool}
    {run : List (CloneAction Doc)} (h : clonesPlaced bound writer clobber run = true) :
    ∃ s after, s.delivered.take 2 = [placedRecord 0, placedRecord 1] ∧
      s.db.placedText (fileIn 1 2) = some ([3], [104, 105]) ∧
      Cloned (fun _ => 0) clobber 1 s 2 (placedParties s) after := by
  obtain ⟨s, hs, hp⟩ := Machine.exists_exec h
  obtain ⟨hp, hends⟩ := Bool.and_eq_true_iff.mp hp
  obtain ⟨hphase, hlog, hforeign, hignored, htext⟩ := of_decide_eq_true hp
  obtain ⟨count, hcount⟩ := Option.isSome_iff_exists.mp hends
  refine ⟨s, _, hlog, htext, ⟨⟨bound, writer, Machine.reached_of_exec rfl hs, hforeign⟩,
    ClonePhase.of_returned? hphase, ⟨rfl, rfl⟩, Volume.plain_emptyRoot, fun path hplaced => ?_,
    fun _ _ temp _ => ⟨Volume.fileAt_emptyRoot temp, Volume.dirAt_emptyRoot temp⟩,
    count, Prod.ext (toOption_eq_some_iff.mp hcount) rfl⟩⟩
  obtain ⟨row, hrow, rfl⟩ := exists_row_of_stableSnapshot hplaced
  exact hignored row hrow

end Placed

end Opbox
