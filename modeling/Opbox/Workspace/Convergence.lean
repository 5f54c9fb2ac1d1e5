import Opbox.Crdt.Snapshots
import Opbox.Foundation.ReplicatedLog
import Opbox.Workspace.Network

/-!
# The daemons of a workspace converge

A daemon is a replica of the log: it holds the operations of its stable documents, it has read as
far as its stable cursor, and what is pending is its outbox.  Every step of a workspace follows one
of the rules for replicas.  Two daemons at the tail of the log with empty outboxes therefore hold
the same operations, and the stable tree is a function of the namespace.
-/

namespace Opbox

variable {ι D : Type} [TextCrdt D]

/-- A database as a replica of the log. -/
def Db.replica (db : Db D) : Replica (SharedMessage D) (SharedOp D) :=
  ⟨db.stableOps, db.stableCursor, db.outbox.messages⟩

/-- The writers and the messages of the log. -/
def logEntries (log : List (LogRecord (SharedMessage D))) :
    List (DaemonWriterId × SharedMessage D) :=
  log.map fun r => (r.origin.daemonWriterId, r.sharedMessage)

section Envelopes

variable {M : Type}

theorem length_envelopesFrom (n : SequenceNumber) (rs : List (LogRecord M)) :
    (envelopesFrom n rs).length = rs.length := by
  induction rs generalizing n with
  | nil => rfl
  | cons r rs ih => rw [envelopesFrom, List.length_cons, List.length_cons, ih]

theorem consecutive_envelopesFrom (n : SequenceNumber) (rs : List (LogRecord M)) :
    Consecutive n (envelopesFrom n rs) := by
  induction rs generalizing n with
  | nil => trivial
  | cons r rs ih => exact ⟨rfl, ih (n + 1)⟩

theorem mem_envelopesFrom {n : SequenceNumber} {rs : List (LogRecord M)} {m : M}
    {writer : DaemonWriterId} :
    (∃ e ∈ envelopesFrom n rs, e.origin.daemonWriterId = writer ∧ e.sharedMessage = m) ↔
      ∃ r ∈ rs, r.origin.daemonWriterId = writer ∧ r.sharedMessage = m := by
  induction rs generalizing n with
  | nil => simp [envelopesFrom]
  | cons r rs ih =>
    rw [envelopesFrom, List.exists_mem_cons_iff, List.exists_mem_cons_iff, ih]
    rfl

/-- A batch that was built from records starts at the first of them and holds them all. -/
theorem SharedMessageBatch.tryFrom_envelopesFrom {n : SequenceNumber} {rs : List (LogRecord M)}
    {batch : SharedMessageBatch M} (h : tryFrom (envelopesFrom n rs) = .ok batch) :
    batch.messages = envelopesFrom n rs ∧ batch.first = n := by
  have hne : envelopesFrom n rs ≠ [] := by
    intro hnil
    rw [hnil] at h
    cases h
  obtain ⟨b, hb, hfirst, hmessages⟩ :=
    tryFrom_of_consecutive hne (consecutive_envelopesFrom n rs)
  rw [h, Except.ok.injEq] at hb
  exact ⟨hb ▸ hmessages, hb ▸ hfirst⟩

end Envelopes

/-- The messages of the other daemons in a batch are the foreign entries of its piece of the log. -/
theorem messageOps_foreignMessages (writer : DaemonWriterId) (n : SequenceNumber)
    (rs : List (LogRecord (SharedMessage D))) :
    messageOps (foreignMessages writer (envelopesFrom n rs)) =
      operations SharedMessage.sharedOps (foreignEntries (logEntries rs) writer) := by
  have hmem : ∀ m, m ∈ foreignMessages writer (envelopesFrom n rs) ↔
      m ∈ foreignEntries (logEntries rs) writer := by
    intro m
    constructor
    · intro hm
      obtain ⟨e, he, rfl⟩ := List.mem_map.mp hm
      obtain ⟨he, hne⟩ := List.mem_filter.mp he
      obtain ⟨r, hr, hwriter, hmessage⟩ := mem_envelopesFrom.mp ⟨e, he, rfl, rfl⟩
      refine ⟨e.origin.daemonWriterId, by simpa using hne, ?_⟩
      exact List.mem_map.mpr ⟨r, hr, by rw [hwriter, hmessage]⟩
    · rintro ⟨other, hne, hm⟩
      obtain ⟨r, hr, heq⟩ := List.mem_map.mp hm
      obtain ⟨rfl, rfl⟩ := Prod.mk.inj heq
      obtain ⟨e, he, hwriter, hmessage⟩ := mem_envelopesFrom (n := n).mpr ⟨r, hr, rfl, rfl⟩
      refine List.mem_map.mpr ⟨e, List.mem_filter.mpr ⟨he, ?_⟩, hmessage⟩
      rw [decide_eq_true_eq, hwriter]
      exact hne
  ext x
  simp only [messageOps, operations, Set.mem_ofPred_eq, Set.mem_iUnion, exists_prop, hmem]

/-! ## The invariant -/

/-- What a daemon keeps true with respect to the log. -/
structure InStep [CharDiff] [Xxh3] [DecidableEq D] (log : List (LogRecord (SharedMessage D)))
    (s : SemanticActor D) : Prop where
  /-- The stable documents hold what the daemon has minted and what it has read. -/
  coherent : Coherent SharedMessage.sharedOps (logEntries log) s.db.writerId s.db.replica
  /-- The stable tree is the materialization of the stable namespace. -/
  treeSynced : TreeSynced s.db.stableTree s.db.stableNamespace
  /-- The first import starts from an empty namespace. -/
  importReady : ImportReady s

section Steps

variable [CharDiff] [Xxh3] [DecidableEq D] {log : List (LogRecord (SharedMessage D))}
  {s s' : SemanticActor D}

/-- A new daemon on an empty log. -/
theorem inStep_start (writer : DaemonWriterId) :
    InStep [] (SemanticActor.start (Db.initialized D writer 0)) where
  coherent := by
    refine .initial ?_ rfl ?_
    · ext x
      cases x with
      | ns op =>
        show op ∈ (NamespaceDoc.emptyNamespaceState : NamespaceDoc) ↔ _
        simp [NamespaceDoc.emptyNamespaceState]
      | text id op =>
        show op ∈ TextCrdt.ops (TextDoc.emptyTextState : D) ↔ _
        rw [TextDoc.ops_emptyTextState]
        rfl
    · show (Outbox.messages (Outbox.releaseOutboxMessages Outbox.empty).1) = ∅
      ext m
      simp [Outbox.messages, Outbox.releaseOutboxMessages, Outbox.setInflightWhere, Outbox.empty]
  treeSynced := treeSynced_initial
  importReady := by
    refine ⟨?_, fun active h => by cases h⟩
    intro row hrow
    cases hrow

/-- Serving a local request mints what it publishes. -/
theorem InStep.served {request : SemanticRequest D} (h : InStep log s)
    (hserved : Served s request s') (hlocal : request.isLocal = true) :
    InStep log s' ∧ s'.db.writerId = s.db.writerId := by
  obtain ⟨minted, hpublished⟩ := hserved.published hlocal h.importReady
  refine ⟨⟨?_, hpublished.treeSynced h.treeSynced, hserved.importReady h.importReady⟩,
    hpublished.writerId⟩
  rw [hpublished.writerId]
  refine h.coherent.mint { m | m ∈ minted } ?_ hpublished.stableCursor hpublished.outbox
  show s'.db.stableOps = s.db.stableOps ∪ _
  rw [hpublished.stableOps]
  ext x
  simp only [messageOps, operations, Set.mem_union, Set.mem_ofPred_eq, Set.mem_iUnion, exists_prop]

/-- Applying the next records of the log moves the cursor past them. -/
theorem InStep.read {count : Nat} {batch : SharedMessageBatch (SharedMessage D)} (h : InStep log s)
    (hbatch : SharedMessageBatch.tryFrom
      (envelopesFrom s.db.stableCursor ((log.drop s.db.stableCursor).take count)) = .ok batch)
    (hserved : Served s (.applySharedMessageBatch batch) s') :
    InStep log s' ∧ s'.db.writerId = s.db.writerId := by
  have hready := hserved.importReady h.importReady
  obtain ⟨hmessages, hfirst⟩ := SharedMessageBatch.tryFrom_envelopesFrom hbatch
  cases hserved with
  | applySharedMessageBatch hrun =>
    obtain ⟨docs, happlied, -⟩ := runs_applySharedMessageBatchTx hrun
    rename_i effects db
    have hwriter : db.writerId = s.db.writerId := by rw [happlied.eq]
    refine ⟨⟨?_, happlied.treeSynced h.treeSynced, hready⟩, hwriter⟩
    have hlength : batch.messages.length = ((log.drop s.db.stableCursor).take count).length := by
      rw [hmessages, length_envelopesFrom]
    have htake : ((logEntries log).drop s.db.stableCursor).take batch.messages.length =
        logEntries ((log.drop s.db.stableCursor).take count) := by
      rw [hlength, logEntries, logEntries, ← List.map_drop, ← List.map_take, List.length_take,
        ← List.take_take, List.take_length]
    show Coherent _ _ db.writerId db.replica
    rw [hwriter]
    refine h.coherent.advance (n := batch.messages.length) ?_ ?_ ?_ ?_
    · have hle := h.coherent.cursor_le
      have hlen : (logEntries log).length = log.length := List.length_map ..
      have hcursor : s.db.replica.cursor = s.db.stableCursor := rfl
      rw [List.length_take, List.length_drop] at hlength
      omega
    · show db.stableOps = s.db.stableOps ∪ _
      have hforeign : messageOps (foreignMessages s.db.writerId batch.messages) =
          operations SharedMessage.sharedOps (foreignEntries
            (logEntries ((log.drop s.db.stableCursor).take count)) s.db.writerId) := by
        rw [hmessages, messageOps_foreignMessages]
      rw [happlied.stableOps, hforeign, ← htake]
      rfl
    · show db.stableCursor = s.db.stableCursor + _
      rw [happlied.eq, happlied.cursor]
      rfl
    · show db.outbox.messages = s.db.outbox.messages
      rw [happlied.eq]

/-- Trimming rows that are in the log forgets nothing. -/
theorem InStep.trim {through : OutboxId} (h : InStep log s)
    (happended : ∀ row ∈ s.db.outbox.rows, row.outboxId ≤ through → row.inflight = true →
      s.db.Appended log row = true)
    (hserved : Served s (.trimOutbox through) s') :
    InStep log s' ∧ s'.db.writerId = s.db.writerId := by
  have hready := hserved.importReady h.importReady
  cases hserved
  refine ⟨⟨?_, h.treeSynced, hready⟩, rfl⟩
  refine h.coherent.trim rfl rfl ?_ ?_
  · rintro m ⟨row, hrow, rfl⟩
    exact ⟨row, (Outbox.mem_trimOutbox.mp hrow).1, rfl⟩
  · rintro m ⟨row, hrow, rfl⟩ hgone
    have htrimmed : row.outboxId ≤ through ∧ row.inflight = true := by
      by_contra hkept
      exact hgone ⟨row, Outbox.mem_trimOutbox.mpr ⟨hrow, hkept⟩, rfl⟩
    obtain ⟨r, hr, hrecord⟩ := List.any_eq_true.mp (happended row hrow htrimmed.1 htrimmed.2)
    obtain ⟨horigin, hmessage⟩ := of_decide_eq_true hrecord
    exact List.mem_map.mpr ⟨r, hr, by rw [horigin, hmessage]⟩

/-- A restart keeps the documents, the cursor and the messages. -/
theorem InStep.restart (h : InStep log s) : InStep log (.start s.db) where
  coherent := by
    have hsame : (SemanticActor.start s.db).db.outbox.messages = s.db.outbox.messages :=
      Outbox.messages_eq_of_store (Outbox.store_setInflightWhere ..)
    exact h.coherent.trim rfl rfl hsame.le fun m hm hgone => absurd (hsame.ge hm) hgone
  treeSynced := h.treeSynced
  importReady := by
    refine ⟨?_, fun active hactive => by cases hactive⟩
    intro row hrow
    cases hrow

/-- A record of the daemon in the log changes nothing for it, if it is pending or in the log. -/
theorem InStep.append_own (h : InStep log s) {r : LogRecord (SharedMessage D)}
    (hwriter : r.origin.daemonWriterId = s.db.writerId)
    (hm : r.sharedMessage ∈ s.db.outbox.messages ∪ ownEntries (logEntries log) s.db.writerId) :
    InStep (log ++ [r]) s where
  coherent := by
    have hentries : logEntries (log ++ [r]) =
        logEntries log ++ [(s.db.writerId, r.sharedMessage)] := by
      rw [logEntries, List.map_append, List.map_singleton, hwriter]
      rfl
    rw [hentries]
    exact h.coherent.append_own hm
  treeSynced := h.treeSynced
  importReady := h.importReady

theorem InStep.append_foreign (h : InStep log s) {r : LogRecord (SharedMessage D)}
    (hwriter : r.origin.daemonWriterId ≠ s.db.writerId) : InStep (log ++ [r]) s where
  coherent := by
    rw [logEntries, List.map_append, List.map_singleton]
    exact h.coherent.append_foreign hwriter r.sharedMessage
  treeSynced := h.treeSynced
  importReady := h.importReady

end Steps

/-! ## Runs of a workspace -/

/-- Every daemon of a workspace is in step with the log, and has its writer id. -/
structure Workspace.InStep [CharDiff] [Xxh3] [DecidableEq D] (writers : WriterIds ι)
    (w : Workspace ι D) : Prop where
  /-- The writer ids stay. -/
  writerId : ∀ i, (w.daemons i).db.writerId = writers.id i
  /-- The daemons are in step. -/
  daemon : ∀ i, Opbox.InStep w.log (w.daemons i)
  /-- Every record was appended by some daemon. -/
  origin : ∀ r ∈ w.log, ∃ i, r.origin.daemonWriterId = writers.id i

namespace Workspace

section Runs

variable [DecidableEq ι] [CharDiff] [Xxh3] [DecidableEq D] {writers : WriterIds ι}
  {w w' : Workspace ι D}

theorem InStep.setDaemon (h : w.InStep writers) {i : ι} {s : SemanticActor D}
    (hs : Opbox.InStep w.log s ∧ s.db.writerId = (w.daemons i).db.writerId) :
    (w.setDaemon i s).InStep writers where
  writerId j := by
    by_cases hj : j = i
    · subst hj
      rw [setDaemon_daemons_self, hs.2, h.writerId]
    · rw [setDaemon_daemons_of_ne w hj, h.writerId]
  daemon j := by
    rw [setDaemon_log]
    by_cases hj : j = i
    · subst hj
      rw [setDaemon_daemons_self]
      exact hs.1
    · rw [setDaemon_daemons_of_ne w hj]
      exact h.daemon j
  origin := h.origin

/-- A record of one of the daemons keeps all of them in step, if it is pending there or in the log
already. -/
theorem InStep.append (h : w.InStep writers) {i : ι} {r : LogRecord (SharedMessage D)}
    (hwriter : r.origin.daemonWriterId = writers.id i)
    (hm : r.sharedMessage ∈ (w.daemons i).db.outbox.messages ∪
      ownEntries (logEntries w.log) (writers.id i)) :
    InStep writers ⟨w.daemons, w.log ++ [r]⟩ where
  writerId := h.writerId
  daemon j := by
    by_cases hj : j = i
    · subst hj
      rw [← h.writerId j] at hwriter hm
      exact (h.daemon j).append_own hwriter hm
    · refine (h.daemon j).append_foreign fun heq => hj ?_
      rw [hwriter, h.writerId] at heq
      exact writers.id_injective heq.symm
  origin r' hr' := by
    rcases List.mem_append.mp hr' with hr' | hr'
    · exact h.origin r' hr'
    · exact ⟨i, List.mem_singleton.mp hr' ▸ hwriter⟩

/-- Every step of a workspace keeps its daemons in step with the log. -/
theorem InStep.step (h : w.InStep writers) {action : WorkspaceAction ι D}
    (hstep : w.step action = some w') : w'.InStep writers := by
  unfold Workspace.step at hstep
  cases action with
  | serve i request =>
    dsimp only at hstep
    split_ifs at hstep with hlocal
    obtain ⟨s, hs, rfl⟩ := Option.map_eq_some_iff.mp hstep
    exact h.setDaemon ((h.daemon i).served (served_of_step hs) hlocal)
  | append i outboxId timestamp =>
    obtain ⟨row, hrow, rfl⟩ := Option.map_eq_some_iff.mp hstep
    refine h.append (h.writerId i) (.inl ⟨row, ?_, rfl⟩)
    exact (Table.find?_eq_some_iff.mp hrow).1
  | duplicate n timestamp =>
    obtain ⟨r, hr, rfl⟩ := Option.map_eq_some_iff.mp hstep
    have hmem : r ∈ w.log := List.mem_of_getElem? hr
    obtain ⟨i, hi⟩ := h.origin r hmem
    refine h.append (r := { r with timestamp := timestamp }) hi (.inr ?_)
    exact List.mem_map.mpr ⟨r, hmem, by rw [hi]⟩
  | trim i through =>
    dsimp only at hstep
    split_ifs at hstep with happended
    obtain ⟨s, hs, rfl⟩ := Option.map_eq_some_iff.mp hstep
    refine h.setDaemon ((h.daemon i).trim (fun row hrow hle hin => ?_) (served_of_step hs))
    have hrow' := List.all_eq_true.mp happended row hrow
    simpa [hle, hin] using hrow'
  | read i count =>
    dsimp only at hstep
    split at hstep
    next batch hbatch =>
      obtain ⟨s, hs, rfl⟩ := Option.map_eq_some_iff.mp hstep
      exact h.setDaemon ((h.daemon i).read hbatch (served_of_step hs))
    · cases hstep
  | restart i =>
    cases hstep
    exact h.setDaemon ⟨(h.daemon i).restart, rfl⟩

/-- In every run of a workspace its daemons stay in step with the log. -/
theorem inStep_of_reached (h : (workspaceMachine (D := D) writers).Reached w) :
    w.InStep writers := by
  refine h.invariant ?_ fun w action w' _ hw _ hstep => hw.step hstep
  rintro w ⟨hlog, hdaemons⟩
  refine ⟨fun i => ?_, fun i => ?_, fun r hr => ?_⟩
  · rw [hdaemons]
    rfl
  · rw [hdaemons, hlog]
    exact inStep_start (writers.id i)
  · rw [hlog] at hr
    cases hr

/-- Two daemons that have read the whole log and have empty outboxes hold the same namespace
operations and the same operations of every text, hence the same texts, and their stable trees
agree row for row. -/
theorem daemons_converge (h : (workspaceMachine (D := D) writers).Reached w) {i j : ι}
    (hi : (w.daemons i).db.stableCursor = w.log.length)
    (hj : (w.daemons j).db.stableCursor = w.log.length)
    (hempty : (w.daemons i).db.outbox.rows.rows = [])
    (hempty' : (w.daemons j).db.outbox.rows.rows = []) :
    (w.daemons i).db.stableNamespace = (w.daemons j).db.stableNamespace ∧
      (∀ id, TextCrdt.ops ((w.daemons i).db.stableText id) =
        TextCrdt.ops ((w.daemons j).db.stableText id)) ∧
      (∀ id, TextCrdt.getText ((w.daemons i).db.stableText id) =
        TextCrdt.getText ((w.daemons j).db.stableText id)) ∧
      ∀ p, ((w.daemons i).db.stableTree.table.find? p).map StableTreeRow.file =
        ((w.daemons j).db.stableTree.table.find? p).map StableTreeRow.file := by
  have hw := inStep_of_reached h
  have hlength : (logEntries w.log).length = w.log.length := List.length_map ..
  have hnone : ∀ k, (w.daemons k).db.outbox.rows.rows = [] →
      (w.daemons k).db.replica.pending = ∅ := by
    intro k hk
    ext m
    constructor
    · rintro ⟨row, hrow, -⟩
      rw [← Table.mem_rows, hk] at hrow
      cases hrow
    · exact fun hm => absurd hm (Set.notMem_empty m)
  have hops : (w.daemons i).db.stableOps = (w.daemons j).db.stableOps :=
    (hw.daemon i).coherent.converge (hw.daemon j).coherent (hi.trans hlength.symm)
      (hj.trans hlength.symm) (hnone i hempty) (hnone j hempty')
  have hns : (w.daemons i).db.stableNamespace = (w.daemons j).db.stableNamespace := by
    ext op
    rw [← ns_mem_stableOps, hops, ns_mem_stableOps]
  have htexts : ∀ id, TextCrdt.ops ((w.daemons i).db.stableText id) =
      TextCrdt.ops ((w.daemons j).db.stableText id) := by
    intro id
    ext op
    rw [← text_mem_stableOps, hops, text_mem_stableOps]
  refine ⟨hns, htexts, fun id => TextCrdt.getText_eq_of_ops_eq _ _ (htexts id), ?_⟩
  exact (hw.daemon i).treeSynced.find?_eq (hns ▸ (hw.daemon j).treeSynced)

end Runs

/-! ## A run in which a file reaches a second daemon -/

open Snapshots

instance neZero_daemons : NeZero 2 := ⟨Nat.succ_ne_zero 1⟩

/-- Two daemons. -/
def twoWriters : WriterIds (Fin 2) where
  id i := [0, 0, 0, Fin.ofNat 256 (i + 1)]
  clientId_injective := by
    show ∀ i j : Fin 2, _ → i = j
    decide

/-- The two daemons before their first scans. -/
def twoDaemons : Workspace (Fin 2) Doc :=
  ⟨fun i => .start (Db.initialized Doc (twoWriters.id i) 0), []⟩

/-- The first daemon imports a file and publishes it, one record twice; both daemons read the log to
its tail, the second one after a restart. -/
def publishRun : List (WorkspaceAction (Fin 2) Doc) :=
  [.serve 0 (.applyInitScan (scanOf .full [(rootFile 1, fileStat 7 2 0)])),
    .serve 0 (.commitImportAction (.read ⟨0, 0⟩ (.completed (.read [104, 105]
      (.statAndContent (fileStat 7 2 0) [104, 105])))) 0 [1] [2]),
    .serve 0 (.commitImportEpoch 0), .serve 0 (.readOutbox 10), .append 0 0 0, .append 0 1 0,
    .duplicate 0 1, .trim 0 1, .read 0 3, .restart 1, .read 1 1, .read 1 2]

/-- What `daemons_converge` promises of the two daemons after this run. -/
theorem daemons_converge_publishRun : ∃ w : Workspace (Fin 2) Doc,
    (workspaceMachine twoWriters).exec twoDaemons publishRun = some w ∧
      w.log.length = 3 ∧ (w.daemons 1).db.stableTree.table.rows.length = 1 ∧
      (w.daemons 0).db.stableNamespace = (w.daemons 1).db.stableNamespace ∧
      ∀ id, TextCrdt.getText ((w.daemons 0).db.stableText id) =
        TextCrdt.getText ((w.daemons 1).db.stableText id) := by
  have hrun : ((workspaceMachine twoWriters).exec twoDaemons publishRun).any (fun w =>
      decide (w.log.length = 3 ∧ (w.daemons 1).db.stableTree.table.rows.length = 1 ∧
        ((w.daemons 0).db.stableCursor = w.log.length ∧
          (w.daemons 1).db.stableCursor = w.log.length) ∧
        (w.daemons 0).db.outbox.rows.rows.length = 0 ∧
        (w.daemons 1).db.outbox.rows.rows.length = 0)) = true := by decide +kernel
  obtain ⟨w, hw, hp⟩ := Machine.exists_exec hrun
  obtain ⟨hlog, htree, ⟨hi, hj⟩, hempty, hempty'⟩ := of_decide_eq_true hp
  have hreach := Machine.reached_of_exec (M := workspaceMachine twoWriters)
    (s := twoDaemons) ⟨rfl, fun _ => rfl⟩ hw
  have hsame := daemons_converge hreach hi hj (List.length_eq_zero_iff.mp hempty)
    (List.length_eq_zero_iff.mp hempty')
  exact ⟨w, hw, hlog, htree, hsame.1, hsame.2.2.1⟩

end Workspace

end Opbox
