import Opbox.Semantic.Causality
import Opbox.Workspace.Convergence

/-!
# The log is causally closed

The prior documents of a daemon hold nothing that the stable documents lack, so what is minted on
them depends on stable operations only.  Those came from rows that are in the outbox already, or
from the log.  When the rows of every outbox are appended in order, every prefix of the log is
therefore causally closed, and so are the stable documents of every daemon, wherever it has read to.
-/

namespace Opbox

variable {ι D : Type} [ClockedTextCrdt D]

open TextCrdt ClockedTextCrdt

/-- The operations of records. -/
def logOps (log : List (LogRecord (SharedMessage D))) : Set (SharedOp D) :=
  { x | ∃ r ∈ log, x ∈ r.sharedMessage.sharedOps }

/-- The operations of the rows of an outbox up to an id. -/
def Outbox.opsThrough (o : Outbox (SharedMessage D)) (through : OutboxId) : Set (SharedOp D) :=
  { x | ∃ e ∈ o.store, e.1 ≤ through ∧ x ∈ e.2.sharedOps }

/-- Every prefix of the log holds what its operations depend on. -/
def LogClosed (origin : NsOp → Set (Nat × Nat)) (log : List (LogRecord (SharedMessage D))) : Prop :=
  ∀ n, CausallyClosed origin (logOps (log.take n))

/-- What a row depends on is in the log, in an earlier row or in the row itself. -/
def RowsClosed (origin : NsOp → Set (Nat × Nat)) (log : List (LogRecord (SharedMessage D)))
    (o : Outbox (SharedMessage D)) : Prop :=
  ∀ e ∈ o.store, ∀ x ∈ e.2.sharedOps, ∀ key ∈ x.needs origin,
    ∃ y ∈ logOps log ∪ o.opsThrough e.1, y.key = some key

variable {origin : NsOp → Set (Nat × Nat)} {log log' : List (LogRecord (SharedMessage D))}

theorem logOps_append (log log' : List (LogRecord (SharedMessage D))) :
    logOps (log ++ log') = logOps log ∪ logOps log' := by
  ext x
  constructor
  · rintro ⟨r, hr, hx⟩
    exact (List.mem_append.mp hr).imp (fun hr => ⟨r, hr, hx⟩) fun hr => ⟨r, hr, hx⟩
  · rintro (⟨r, hr, hx⟩ | ⟨r, hr, hx⟩)
    · exact ⟨r, List.mem_append_left _ hr, hx⟩
    · exact ⟨r, List.mem_append_right _ hr, hx⟩

theorem mem_logOps_singleton {r : LogRecord (SharedMessage D)} {x : SharedOp D} :
    x ∈ logOps [r] ↔ x ∈ r.sharedMessage.sharedOps := by
  simp [logOps]

/-- The operations of messages in the log are operations of the log. -/
theorem mem_logOps {x : SharedOp D} :
    x ∈ logOps log ↔ ∃ writer m, (writer, m) ∈ logEntries log ∧ x ∈ m.sharedOps := by
  constructor
  · rintro ⟨r, hr, hx⟩
    exact ⟨_, _, List.mem_map_of_mem hr, hx⟩
  · rintro ⟨writer, m, hm, hx⟩
    obtain ⟨r, hr, heq⟩ := List.mem_map.mp hm
    cases heq
    exact ⟨r, hr, hx⟩

/-- Operations that depend on each other are on one document. -/
theorem document_of_key {x y : SharedOp D} {key : OpKey} (hneeds : key ∈ x.needs origin)
    (hkey : y.key = some key) : y.document = x.document := by
  cases x with
  | ns op =>
    obtain ⟨n, -, rfl⟩ := hneeds
    cases y with
    | ns op' => rfl
    | text id op' =>
      obtain ⟨m, -, hm⟩ := Option.map_eq_some_iff.mp hkey
      cases hm
  | text id op =>
    obtain ⟨n, -, rfl⟩ := hneeds
    cases y with
    | ns op' => cases hkey
    | text id' op' =>
      obtain ⟨m, -, hm⟩ := Option.map_eq_some_iff.mp hkey
      cases hm
      rfl

/-! ## The log -/

theorem logClosed_nil (origin : NsOp → Set (Nat × Nat)) :
    LogClosed origin ([] : List (LogRecord (SharedMessage D))) := by
  intro n x hx
  obtain ⟨r, hr, -⟩ := hx
  rw [List.take_nil] at hr
  cases hr

/-- A record whose dependencies are in the log or in itself. -/
theorem LogClosed.append (h : LogClosed origin log) {r : LogRecord (SharedMessage D)}
    (hr : ∀ x ∈ r.sharedMessage.sharedOps, ∀ key ∈ x.needs origin,
      ∃ y ∈ logOps log ∪ r.sharedMessage.sharedOps, y.key = some key) :
    LogClosed origin (log ++ [r]) := by
  intro n
  by_cases hn : n ≤ log.length
  · rw [List.take_append_of_le_length hn]
    exact h n
  · have htake : (log ++ [r]).take n = log ++ [r] := by
      rw [List.take_of_length_le]
      rw [List.length_append, List.length_singleton]
      omega
    have hops : logOps [r] = r.sharedMessage.sharedOps := by
      ext x
      exact mem_logOps_singleton
    rw [htake, logOps_append, hops]
    have hlog : CausallyClosed origin (logOps log) := by
      have hfull := h log.length
      rwa [List.take_length] at hfull
    exact hlog.union hr

/-- What a record depends on is in the log up to it. -/
theorem LogClosed.exists_of_getElem? (h : LogClosed origin log) {n : Nat}
    {r : LogRecord (SharedMessage D)} (hr : log[n]? = some r) {x : SharedOp D}
    (hx : x ∈ r.sharedMessage.sharedOps) {key : OpKey} (hkey : key ∈ x.needs origin) :
    ∃ y ∈ logOps (log.take (n + 1)), y.key = some key := by
  refine h (n + 1) x ⟨r, ?_, hx⟩ key hkey
  rw [List.take_add_one, hr]
  exact List.mem_append_right _ (List.mem_singleton_self r)

/-! ## The rows of an outbox -/

theorem Outbox.opsThrough_mono {o o' : Outbox (SharedMessage D)} (h : o.store ⊆ o'.store)
    {k k' : OutboxId} (hk : k ≤ k') : o.opsThrough k ⊆ o'.opsThrough k' := by
  rintro x ⟨e, he, hle, hx⟩
  exact ⟨e, h he, hle.trans hk, hx⟩

/-- The log may grow, and rows that are in the log may go. -/
theorem RowsClosed.covered {o o' : Outbox (SharedMessage D)} (h : RowsClosed origin log o)
    (hstore : o'.store ⊆ o.store) (hlog : logOps log ⊆ logOps log')
    (hgone : ∀ e ∈ o.store, e ∉ o'.store → e.2.sharedOps ⊆ logOps log') :
    RowsClosed origin log' o' := by
  intro e he x hx key hkey
  obtain ⟨y, hy | ⟨e', he', hle, hy⟩, hykey⟩ := h e (hstore he) x hx key hkey
  · exact ⟨y, .inl (hlog hy), hykey⟩
  · by_cases hin : e' ∈ o'.store
    · exact ⟨y, .inr ⟨e', hin, hle, hy⟩, hykey⟩
    · exact ⟨y, .inl (hgone e' he' hin hy), hykey⟩

/-- A row whose predecessors are in the log finds there, or in itself, what it depends on. -/
theorem RowsClosed.of_appended {o : Outbox (SharedMessage D)} (h : RowsClosed origin log o)
    {e : OutboxId × SharedMessage D} (he : e ∈ o.store)
    (hearlier : ∀ e' ∈ o.store, e'.1 < e.1 → e'.2.sharedOps ⊆ logOps log) :
    ∀ x ∈ e.2.sharedOps, ∀ key ∈ x.needs origin,
      ∃ y ∈ logOps log ∪ e.2.sharedOps, y.key = some key := by
  intro x hx key hkey
  obtain ⟨y, hy | ⟨e', he', hle, hy⟩, hykey⟩ := h e he x hx key hkey
  · exact ⟨y, .inl hy, hykey⟩
  · rcases Nat.lt_or_eq_of_le hle with hlt | heq
    · exact ⟨y, .inl (hearlier e' he' hlt hy), hykey⟩
    · rw [Outbox.eq_of_mem_store he' he heq] at hy
      exact ⟨y, .inr hy, hykey⟩

/-- The stable operations of a daemon in step with the log are those of its rows and of the log. -/
theorem Coherent.mem_rows_or_log {db : Db D}
    (h : Coherent SharedMessage.sharedOps (logEntries log) db.writerId db.replica)
    (hallocated : db.outbox.Allocated) {x : SharedOp D} (hx : x ∈ db.stableOps)
    {through : OutboxId} (hle : db.outbox.nextOutboxId ≤ through) :
    x ∈ logOps log ∪ db.outbox.opsThrough through := by
  have hcontents : x ∈ db.replica.contents := hx
  rw [h.contents_eq] at hcontents
  rcases hcontents with hown | hforeign
  · simp only [operations, Set.mem_iUnion, exists_prop] at hown
    obtain ⟨m, hm | hm, hx⟩ := hown
    · obtain ⟨e, hstore, rfl⟩ := Outbox.mem_messages_iff_store.mp hm
      exact .inr ⟨e, hstore, (hallocated e hstore).le.trans hle, hx⟩
    · exact .inl (mem_logOps.mpr ⟨_, m, hm, hx⟩)
  · simp only [operations, Set.mem_iUnion, exists_prop] at hforeign
    obtain ⟨m, ⟨writer, -, hm⟩, hx⟩ := hforeign
    exact .inl (mem_logOps.mpr ⟨writer, m, List.mem_of_mem_take hm, hx⟩)

/-- The rows of a step that publishes what it mints depend on what is there, or on themselves. -/
theorem RowsClosed.published {db db' : Db D} {minted : List (SharedMessage D)}
    (h : RowsClosed origin log db.outbox)
    (hcoherent : Coherent SharedMessage.sharedOps (logEntries log) db.writerId db.replica)
    (hallocated : db.outbox.Allocated) (hpublished : Published db db' minted)
    (hclosed : CausallyClosed origin db'.stableOps) : RowsClosed origin log db'.outbox := by
  intro e he x hx key hkey
  rcases hpublished.grown.store e he with hold | ⟨hminted, hle⟩
  · obtain ⟨y, hy | hy, hykey⟩ := h e hold x hx key hkey
    · exact ⟨y, .inl hy, hykey⟩
    · exact ⟨y, .inr (Outbox.opsThrough_mono hpublished.grown.store_mono le_rfl hy), hykey⟩
  · have hstable : x ∈ db'.stableOps := by
      rw [hpublished.stableOps]
      exact .inr ⟨e.2, hminted, hx⟩
    obtain ⟨y, hy, hykey⟩ := hclosed x hstable key hkey
    refine ⟨y, ?_, hykey⟩
    rw [hpublished.stableOps] at hy
    rcases hy with hy | ⟨m, hm, hy⟩
    · rcases hcoherent.mem_rows_or_log hallocated hy hle with hy | hy
      · exact .inl hy
      · exact .inr (Outbox.opsThrough_mono hpublished.grown.store_mono le_rfl hy)
    · -- What was minted on one document is in one message.
      have hsame := hpublished.separate m hm e.2 hminted y hy x hx (document_of_key hkey hykey)
      rw [hsame] at hy
      exact .inr ⟨e, he, le_rfl, hy⟩

/-- The log below the cursor is part of what a daemon in step with the log holds. -/
theorem Coherent.logOps_subset {writer : DaemonWriterId}
    {r : Replica (SharedMessage D) (SharedOp D)}
    (h : Coherent SharedMessage.sharedOps (logEntries log) writer r) :
    logOps (log.take r.cursor) ⊆ r.contents := by
  intro x hx
  obtain ⟨other, m, hm, hx⟩ := mem_logOps.mp hx
  have hm' : (other, m) ∈ (logEntries log).take r.cursor := by
    rw [logEntries, ← List.map_take]
    exact hm
  rw [h.contents_eq]
  simp only [operations, Set.mem_union, Set.mem_iUnion, exists_prop]
  by_cases hother : other = writer
  · subst hother
    exact .inl ⟨m, .inr (List.mem_of_mem_take hm'), hx⟩
  · exact .inr ⟨m, ⟨other, hother, hm'⟩, hx⟩

/-- Reading on keeps the stable documents closed: what a daemon had was closed, and what it has read
is a prefix of the log. -/
theorem LogClosed.stable_of_read {s s' : SemanticActor D} (h : LogClosed origin log)
    (hs : Coherent SharedMessage.sharedOps (logEntries log) s.db.writerId s.db.replica)
    (hs' : Coherent SharedMessage.sharedOps (logEntries log) s'.db.writerId s'.db.replica)
    (hwriter : s'.db.writerId = s.db.writerId)
    (hpending : s'.db.replica.pending = s.db.replica.pending)
    (hclosed : CausallyClosed origin s.db.stableOps) (hsub : s.db.stableOps ⊆ s'.db.stableOps) :
    CausallyClosed origin s'.db.stableOps := by
  intro x hx key hkey
  have hcontents : x ∈ s'.db.replica.contents := hx
  rw [hs'.contents_eq, hpending, hwriter] at hcontents
  rcases hcontents with hown | hforeign
  · have hold : x ∈ s.db.stableOps := by
      have hmem : x ∈ s.db.replica.contents := by
        rw [hs.contents_eq]
        exact .inl hown
      exact hmem
    obtain ⟨y, hy, hykey⟩ := hclosed x hold key hkey
    exact ⟨y, hsub hy, hykey⟩
  · have hread : x ∈ logOps (log.take s'.db.replica.cursor) := by
      simp only [operations, Set.mem_iUnion, exists_prop] at hforeign
      obtain ⟨m, ⟨other, -, hm⟩, hx⟩ := hforeign
      refine mem_logOps.mpr ⟨other, m, ?_, hx⟩
      rw [logEntries, List.map_take]
      exact hm
    obtain ⟨y, hy, hykey⟩ := h _ x hread key hkey
    exact ⟨y, hs'.logOps_subset hy, hykey⟩

omit [ClockedTextCrdt D] in
/-- A step that leaves the prior namespace as it is mints nothing on it. -/
theorem originsPresent_of_eq {s s' : SemanticActor D}
    (h : s'.db.priorNamespace = s.db.priorNamespace) : OriginsPresent origin s s' := by
  intro op hop hclient hclock
  rw [h] at hop
  have hlt := NamespaceDoc.lt_stateVector hop
  rw [hclient] at hlt
  exact absurd hlt (not_lt.mpr hclock)

/-! ## The daemons -/

namespace Workspace

section Runs

variable [DecidableEq ι] [CharDiff] [Xxh3] [DecidableEq D] {writers : WriterIds ι}
  {w w' : Workspace ι D}

/-- What a step of the workspace is for one of the daemons. -/
theorem step_daemon {action : WorkspaceAction ι D} (hstep : w.step action = some w') (j : ι) :
    w'.daemons j = w.daemons j ∨ w'.daemons j = .start (w.daemons j).db ∨
      ∃ request, Served (w.daemons j) request (w'.daemons j) := by
  have hset : ∀ (i : ι) (s : SemanticActor D), (s = .start (w.daemons i).db ∨
      ∃ request, Served (w.daemons i) request s) →
      (w.setDaemon i s).daemons j = w.daemons j ∨
        (w.setDaemon i s).daemons j = .start (w.daemons j).db ∨
        ∃ request, Served (w.daemons j) request ((w.setDaemon i s).daemons j) := by
    intro i s hs
    by_cases hj : j = i
    · subst hj
      rw [setDaemon_daemons_self]
      exact .inr hs
    · exact .inl (setDaemon_daemons_of_ne w hj s)
  unfold Workspace.step at hstep
  cases action with
  | serve i request =>
    dsimp only at hstep
    split_ifs at hstep
    obtain ⟨s, hs, rfl⟩ := Option.map_eq_some_iff.mp hstep
    exact hset i s (.inr ⟨_, served_of_step hs⟩)
  | append i outboxId timestamp =>
    obtain ⟨row, -, rfl⟩ := Option.map_eq_some_iff.mp hstep
    exact .inl rfl
  | duplicate n timestamp =>
    obtain ⟨r, -, rfl⟩ := Option.map_eq_some_iff.mp hstep
    exact .inl rfl
  | trim i through =>
    dsimp only at hstep
    split_ifs at hstep
    obtain ⟨s, hs, rfl⟩ := Option.map_eq_some_iff.mp hstep
    exact hset i s (.inr ⟨_, served_of_step hs⟩)
  | read i count =>
    dsimp only at hstep
    split at hstep
    next batch hbatch =>
      obtain ⟨s, hs, rfl⟩ := Option.map_eq_some_iff.mp hstep
      exact hset i s (.inr ⟨_, served_of_step hs⟩)
    · cases hstep
  | restart i =>
    cases hstep
    exact hset i _ (.inl rfl)

/-- In every run of a workspace nothing is staged outside an import epoch, and the prior documents
of a daemon hold nothing that its stable ones lack. -/
theorem tracks_of_reached (h : (workspaceMachine (D := D) writers).Reached w) (i : ι) :
    StagingTidy (w.daemons i) ∧ PriorTracks (fun _ => False) (w.daemons i) := by
  refine h.invariant (I := fun w => ∀ i, StagingTidy (w.daemons i) ∧
    PriorTracks (fun _ => False) (w.daemons i)) ?_ ?_ i
  · rintro w ⟨-, hdaemons⟩ i
    rw [hdaemons]
    exact ⟨stagingTidy_of_nil rfl nofun, priorTracks_start _ _⟩
  · intro w action w' hreached hw _ hstep i
    obtain ⟨htidy, htracks⟩ := hw i
    rcases step_daemon hstep i with hsame | hstart | ⟨request, hserved⟩
    · rw [hsame]
      exact ⟨htidy, htracks⟩
    · rw [hstart]
      exact ⟨stagingTidy_of_nil rfl nofun, htracks.restart⟩
    · have hready := ((inStep_of_reached hreached).daemon i).importReady
      refine ⟨hserved.stagingTidy htidy, (hserved.documentStep htidy hready).priorTracks htracks ?_ ?_⟩
      · exact fun _ _ _ _ hown => hown.elim
      · exact fun _ _ _ _ _ _ _ hown => hown

/-- The rows before the one that is appended are in the log. -/
def AppendsInOrder (w : Workspace ι D) : WorkspaceAction ι D → Prop
  | .append i outboxId _ => ∀ row ∈ (w.daemons i).db.outbox.rows.rows, row.outboxId < outboxId →
      (w.daemons i).db.Appended w.log row = true
  | _ => True

instance AppendsInOrder.decidable (w : Workspace ι D) :
    ∀ action, Decidable (w.AppendsInOrder action)
  | .serve .. => inferInstanceAs (Decidable True)
  | .append i outboxId _ => inferInstanceAs (Decidable (∀ row ∈ (w.daemons i).db.outbox.rows.rows,
      row.outboxId < outboxId → (w.daemons i).db.Appended w.log row = true))
  | .duplicate .. => inferInstanceAs (Decidable True)
  | .trim .. => inferInstanceAs (Decidable True)
  | .read .. => inferInstanceAs (Decidable True)
  | .restart _ => inferInstanceAs (Decidable True)

/-- What a daemon mints on its prior namespace replaces entries that are there. -/
def ReplacesPresent (origin : NsOp → Set (Nat × Nat)) (w : Workspace ι D) :
    WorkspaceAction ι D → Prop
  | .serve i request => ∀ s, (w.daemons i).step request = some s →
      OriginsPresent origin (w.daemons i) s
  | _ => True

/-- All documents, all outboxes and the log are causally closed. -/
structure Closed (origin : NsOp → Set (Nat × Nat)) (w : Workspace ι D) : Prop where
  /-- The log. -/
  log : LogClosed origin w.log
  /-- The documents of a daemon. -/
  documents : ∀ i, DocumentsClosed origin (w.daemons i)
  /-- The outbox of a daemon. -/
  rows : ∀ i, RowsClosed origin w.log (w.daemons i).db.outbox
  /-- The ids in it have been allocated. -/
  allocated : ∀ i, (w.daemons i).db.outbox.Allocated

omit [CharDiff] [Xxh3] [DecidableEq D] in
/-- A step of one daemon that keeps its documents and its outbox closed. -/
theorem Closed.setDaemon (h : w.Closed origin) {i : ι} {s : SemanticActor D}
    (hdocuments : DocumentsClosed origin s) (hrows : RowsClosed origin w.log s.db.outbox)
    (hallocated : s.db.outbox.Allocated) : (w.setDaemon i s).Closed origin := by
  refine ⟨h.log, fun j => ?_, fun j => ?_, fun j => ?_⟩
  all_goals by_cases hj : j = i
  · subst hj
    rw [setDaemon_daemons_self]
    exact hdocuments
  · rw [setDaemon_daemons_of_ne w hj]
    exact h.documents j
  · subst hj
    rw [setDaemon_daemons_self]
    exact hrows
  · rw [setDaemon_daemons_of_ne w hj]
    exact h.rows j
  · subst hj
    rw [setDaemon_daemons_self]
    exact hallocated
  · rw [setDaemon_daemons_of_ne w hj]
    exact h.allocated j

/-- Every step keeps all closed, if the rows of every outbox are appended in order. -/
theorem Closed.step (h : w.Closed origin) (hw : w.InStep writers)
    (htracks : ∀ i, StagingTidy (w.daemons i) ∧ PriorTracks (fun _ => False) (w.daemons i))
    {action : WorkspaceAction ι D} (horder : w.AppendsInOrder action)
    (horigin : w.ReplacesPresent origin action) (hstep : w.step action = some w') : w'.Closed origin := by
  have hw' := hw.step hstep
  have hdocuments : ∀ (i : ι) {request : SemanticRequest D} {s : SemanticActor D},
      Served (w.daemons i) request s → OriginsPresent origin (w.daemons i) s →
      (∀ batch, request = .applySharedMessageBatch batch → CausallyClosed origin s.db.stableOps) →
      DocumentsClosed origin s := by
    intro i request s hserved horigin hbatch
    exact (hserved.documentStep (htracks i).1 (hw.daemon i).importReady).documentsClosed
      (h.documents i) (htracks i).2 horigin hbatch
  unfold Workspace.step at hstep
  cases action with
  | serve i request =>
    dsimp only at hstep
    split_ifs at hstep with hlocal
    obtain ⟨s, hs, rfl⟩ := Option.map_eq_some_iff.mp hstep
    have hserved := served_of_step hs
    obtain ⟨minted, hpublished⟩ := hserved.published hlocal (hw.daemon i).importReady
    have hdocs := hdocuments i hserved (horigin s hs)
      fun batch hbatch => by rw [hbatch] at hlocal; cases hlocal
    exact h.setDaemon hdocs ((h.rows i).published (hw.daemon i).coherent (h.allocated i) hpublished
      hdocs.stable) (hpublished.grown.allocated (h.allocated i))
  | append i outboxId timestamp =>
    obtain ⟨row, hrow, rfl⟩ := Option.map_eq_some_iff.mp hstep
    obtain ⟨hmem, hid⟩ := Table.find?_eq_some_iff.mp hrow
    have hstore : row.entry ∈ (w.daemons i).db.outbox.store := Outbox.entry_mem_store hmem
    have hearlier : ∀ e ∈ (w.daemons i).db.outbox.store, e.1 < row.entry.1 →
        e.2.sharedOps ⊆ logOps w.log := by
      rintro e ⟨row', hrow', rfl⟩ hlt x hx
      obtain ⟨r, hr, hrecord⟩ := List.any_eq_true.mp (horder row' hrow' (hid ▸ hlt))
      obtain ⟨-, hmessage⟩ := of_decide_eq_true hrecord
      exact ⟨r, hr, hmessage ▸ hx⟩
    refine ⟨h.log.append ((h.rows i).of_appended hstore hearlier), h.documents, fun j => ?_,
      h.allocated⟩
    refine (h.rows j).covered subset_rfl ?_ fun e he hgone => absurd he hgone
    rw [logOps_append]
    exact Set.subset_union_left
  | duplicate n timestamp =>
    obtain ⟨r, hr, rfl⟩ := Option.map_eq_some_iff.mp hstep
    refine ⟨h.log.append fun x hx key hkey => ?_, h.documents, fun j => ?_, h.allocated⟩
    · obtain ⟨y, ⟨r', hr', hy⟩, hykey⟩ := h.log.exists_of_getElem? hr hx hkey
      exact ⟨y, .inl ⟨r', List.mem_of_mem_take hr', hy⟩, hykey⟩
    · refine (h.rows j).covered subset_rfl ?_ fun e he hgone => absurd he hgone
      rw [logOps_append]
      exact Set.subset_union_left
  | trim i through =>
    dsimp only at hstep
    split_ifs at hstep with happended
    obtain ⟨s, hs, rfl⟩ := Option.map_eq_some_iff.mp hstep
    have hserved := served_of_step hs
    cases hserved with | trimOutbox hbound => ?_
    have hdocs := hdocuments i (show Served _ (.trimOutbox through) _ from .trimOutbox hbound)
      (originsPresent_of_eq rfl) (by rintro _ ⟨⟩)
    have hsub := Outbox.store_trimOutbox_subset (w.daemons i).db.outbox through
    refine h.setDaemon hdocs ((h.rows i).covered hsub subset_rfl ?_)
      fun e he => h.allocated i e (hsub he)
    rintro e ⟨row, hrow, rfl⟩ hgone x hx
    have htrimmed : row.outboxId ≤ through ∧ row.inflight = true := by
      by_contra hkept
      exact hgone (Outbox.entry_mem_store (Outbox.mem_trimOutbox.mpr ⟨hrow, hkept⟩))
    have hrow' := List.all_eq_true.mp happended row hrow
    rw [htrimmed.2, decide_eq_true htrimmed.1] at hrow'
    obtain ⟨r, hr, hrecord⟩ := List.any_eq_true.mp (show (w.daemons i).db.Appended w.log row = true
      from hrow')
    obtain ⟨-, hmessage⟩ := of_decide_eq_true hrecord
    exact ⟨r, hr, hmessage ▸ hx⟩
  | read i count =>
    dsimp only at hstep
    split at hstep
    next batch hbatch =>
      obtain ⟨s, hs, rfl⟩ := Option.map_eq_some_iff.mp hstep
      have hserved := served_of_step hs
      have hin' := hw'.daemon i
      rw [setDaemon_daemons_self, setDaemon_log] at hin'
      obtain ⟨houtbox, hprior, hsub, hwriter⟩ : s.db.outbox = (w.daemons i).db.outbox ∧
          s.db.priorNamespace = (w.daemons i).db.priorNamespace ∧
          (w.daemons i).db.stableOps ⊆ s.db.stableOps ∧
          s.db.writerId = (w.daemons i).db.writerId := by
        cases hserved with
        | @applySharedMessageBatch _ effects db hrun =>
          obtain ⟨docs, happlied, -⟩ := runs_applySharedMessageBatchTx hrun
          have hstable := happlied.stableOps
          refine ⟨by rw [happlied.eq], by rw [happlied.eq], ?_, by rw [happlied.eq]⟩
          exact hstable ▸ Set.subset_union_left
      have hpending : s.db.replica.pending = (w.daemons i).db.replica.pending :=
        congrArg Outbox.messages houtbox
      have hdocs := hdocuments i hserved (originsPresent_of_eq hprior) fun _ _ =>
        h.log.stable_of_read (hw.daemon i).coherent hin'.coherent hwriter hpending
          (h.documents i).stable hsub
      refine h.setDaemon hdocs ?_ ?_
      · rw [houtbox]
        exact h.rows i
      · rw [houtbox]
        exact h.allocated i
    · cases hstep
  | restart i =>
    cases hstep
    have hstore : (SemanticActor.start (w.daemons i).db).db.outbox.store =
        (w.daemons i).db.outbox.store := Outbox.store_setInflightWhere ..
    refine h.setDaemon (h.documents i).restart ((h.rows i).covered hstore.le subset_rfl ?_) ?_
    · exact fun e he hgone => absurd (hstore.ge he) hgone
    · exact fun e he => h.allocated i e (hstore.le he)

/-- In every run the prior documents of a daemon are part of its stable ones.  In every run in which
the rows of each outbox are appended in order, what an operation of the log depends on is in the log
before it or in its own record, and the stable documents of every daemon, which has applied some
prefix of the log, hold what their operations depend on. -/
theorem prior_within_stable_and_log_closed (writers : WriterIds ι)
    (origin : NsOp → Set (Nat × Nat)) :
    (∀ w : Workspace ι D, (workspaceMachine writers).Reached w → ∀ i,
      (w.daemons i).db.priorNamespace ⊆ (w.daemons i).db.stableNamespace ∧
        ∀ id, ops ((w.daemons i).db.priorText id) ⊆ ops ((w.daemons i).db.stableText id)) ∧
    ∀ w : Workspace ι D, (workspaceMachine writers).Reachable
        (fun w action => w.AppendsInOrder action ∧ w.ReplacesPresent origin action) w →
      (∀ n, CausallyClosed origin (logOps (w.log.take n))) ∧
        ∀ i, CausallyClosed origin (w.daemons i).db.stableOps := by
  refine ⟨fun w hw i => ?_, fun w hw => ?_⟩
  · obtain ⟨hns, htexts⟩ := tracks_iff.mp (tracks_of_reached hw i).2.docs
    exact ⟨fun op hop => hns.1 hop, fun id => (htexts id).1⟩
  · have hclosed : w.Closed origin := by
      refine hw.invariant ?_ fun w action w' hreach hclosed hcond hstep => ?_
      · rintro w ⟨hlog, hdaemons⟩
        refine ⟨hlog ▸ logClosed_nil origin, fun i => ?_, fun i => ?_, fun i => ?_⟩
        · rw [hdaemons]
          exact documentsClosed_start origin _
        · rw [hdaemons]
          rintro e ⟨row, hrow, -⟩
          obtain ⟨row', hrow', -⟩ := Outbox.mem_setInflightWhere.mp hrow
          cases hrow'
        · rw [hdaemons]
          rintro e ⟨row, hrow, -⟩
          obtain ⟨row', hrow', -⟩ := Outbox.mem_setInflightWhere.mp hrow
          cases hrow'
      · have hreached : (workspaceMachine (D := D) writers).Reached w :=
          hreach.mono fun _ _ _ => trivial
        exact hclosed.step (inStep_of_reached hreached) (tracks_of_reached hreached) hcond.1 hcond.2
          hstep
    exact ⟨hclosed.log, fun i => (hclosed.documents i).stable⟩

end Runs

/-! ## A run whose rows are appended in order -/

open Snapshots

/-- What `prior_within_stable_and_log_closed` promises after a run in which a file reaches a second
daemon; no entry of a namespace is replaced in it. -/
theorem prior_within_stable_and_log_closed_publishRun : ∃ w : Workspace (Fin 2) Doc,
    (workspaceMachine twoWriters).exec twoDaemons publishRun = some w ∧ w.log.length = 3 ∧
      (w.daemons 1).db.priorNamespace ⊆ (w.daemons 1).db.stableNamespace ∧
      (∀ n, CausallyClosed (fun _ => ∅) (logOps (w.log.take n))) ∧
      ∀ i, CausallyClosed (fun _ => ∅) (w.daemons i).db.stableOps := by
  have hrun : ((workspaceMachine twoWriters).exec twoDaemons publishRun).any (fun w =>
      decide (w.log.length = 3)) = true := by decide +kernel
  obtain ⟨w, hw, hlog⟩ := Machine.exists_exec hrun
  have horder : (workspaceMachine twoWriters).Meets (fun w action => w.AppendsInOrder action)
      twoDaemons publishRun := by decide +kernel
  have hinit : (workspaceMachine twoWriters).initial twoDaemons := ⟨rfl, fun _ => rfl⟩
  have hreach := Machine.Reachable.exec (.init hinit) horder hw
  have hcond := hreach.mono (Q := fun w action => w.AppendsInOrder action ∧
    w.ReplacesPresent (fun _ => ∅) action) fun w action happends => by
      refine ⟨happends, ?_⟩
      cases action with
      | serve i request => exact fun s _ op _ _ _ n hn => absurd hn (Set.notMem_empty n)
      | _ => trivial
  obtain ⟨hprior, hclosed⟩ := prior_within_stable_and_log_closed (D := Doc) twoWriters fun _ => ∅
  obtain ⟨hlogClosed, hdocuments⟩ := hclosed w hcond
  exact ⟨w, hw, of_decide_eq_true hlog,
    (hprior w (Machine.reached_of_exec hinit hw) 1).1, hlogClosed, hdocuments⟩

end Workspace

end Opbox
