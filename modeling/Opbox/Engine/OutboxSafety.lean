import Opbox.Foundation.AckWindow
import Opbox.Engine.OutboxInvariant

/-!
# No outbox row is deleted unacknowledged

A trim deletes every reserved row up to the acknowledged id.  It is safe as long as the records
under way on the current connection are an `AckWindow` of the table.  The window breaks in one
way: messages reserved before a disconnect are forwarded to the next connection although the
release queued at the disconnect has given, or will give, their rows back.
-/

namespace Opbox

namespace OutboxControl

variable {M : Type} {e : OutboxControl} {lane : List OutboxRequest} {stale : Bool} {P : Prop}

/-- Nothing waits to be released and no read is stale. -/
def Settled (e : OutboxControl) (stale : Bool) : Prop :=
  e.outboxReleaseInFlight = false ∧ e.outboxReleaseRequested = false ∧ stale = false

/-- Once the last release has been served, `P` holds and no read is queued. -/
def Released (e : OutboxControl) (lane : List OutboxRequest) (stale : Bool) (P : Prop) : Prop :=
  ¬e.Settled stale → e.outboxReleaseRequested = false → .releaseOutbox ∉ lane →
    P ∧ lane.countP OutboxRequest.isRead = 0

theorem settled_maybeStartOutboxRead :
    (e.maybeStartOutboxRead : OutboxEffect M).control.Settled stale ↔ e.Settled stale := by
  unfold maybeStartOutboxRead
  split_ifs <;> exact Iff.rfl

theorem settled_of_maybeStartOutboxRelease
    (h : (e.maybeStartOutboxRelease : OutboxEffect M).control.Settled stale) : e.Settled stale := by
  unfold maybeStartOutboxRelease at h
  split_ifs at h
  · exact absurd h.1 (by simp)
  · exact h

theorem not_settled_requestOutboxRelease :
    ¬(e.requestOutboxRelease : OutboxEffect M).control.Settled stale := by
  unfold requestOutboxRelease maybeStartOutboxRelease
  split_ifs with h
  · exact fun hs => absurd hs.1 (by simp)
  · exact fun hs => absurd hs.2.1 (by simp)

/-- `maybe_start_outbox_read` starts a read only when everything is settled. -/
theorem Released.startRead (h : e.Released lane stale P)
    (hstale : stale = true → e.outboxReadInFlight = true) :
    (e.maybeStartOutboxRead : OutboxEffect M).control.Released
      (lane ++ (e.maybeStartOutboxRead : OutboxEffect M).semantic) stale P := by
  intro hs
  rw [settled_maybeStartOutboxRead] at hs
  unfold maybeStartOutboxRead
  split_ifs with hstart
  · simp only [canStartOutboxRead, Bool.and_eq_true, Bool.not_eq_true', decide_eq_true_eq] at hstart
    obtain ⟨⟨⟨⟨-, hread⟩, hrel⟩, hreq⟩, -⟩ := hstart
    refine absurd ⟨hrel, hreq, ?_⟩ hs
    by_contra hst
    exact absurd (hstale (by simpa using hst)) (by simp [hread])
  · simpa using h hs

/-- After `maybe_start_outbox_release` the release is queued, or nothing has changed. -/
theorem Released.startRelease (h : e.Released lane stale P) :
    (e.maybeStartOutboxRelease : OutboxEffect M).control.Released
      (lane ++ (e.maybeStartOutboxRelease : OutboxEffect M).semantic) stale P := by
  unfold maybeStartOutboxRelease
  split_ifs with hstart
  · exact fun _ _ hlane => absurd (by simp) hlane
  · simpa using h

/-- After `request_outbox_release` a release is queued or still wanted. -/
theorem released_requestOutboxRelease :
    (e.requestOutboxRelease : OutboxEffect M).control.Released
      (lane ++ (e.requestOutboxRelease : OutboxEffect M).semantic) stale P := by
  unfold requestOutboxRelease maybeStartOutboxRelease
  split_ifs with hstart
  · exact fun _ _ hlane => absurd (by simp) hlane
  · exact fun _ hreq => absurd hreq (by simp)

theorem trim_not_mem_maybeStartOutboxRead (k : OutboxId) :
    .trimOutbox k ∉ (e.maybeStartOutboxRead : OutboxEffect M).semantic := by
  unfold maybeStartOutboxRead
  split_ifs <;> simp

theorem trim_not_mem_maybeStartOutboxRelease (k : OutboxId) :
    .trimOutbox k ∉ (e.maybeStartOutboxRelease : OutboxEffect M).semantic := by
  unfold maybeStartOutboxRelease
  split_ifs <;> simp

end OutboxControl

namespace OutboxLoop

open OutboxControl

variable {M : Type} {inlined : M → Bool} {s s' : OutboxLoop M} {a : OutboxAction M}

/-- The records accepted by, or on the way to, the current connection. -/
def onConnection (s : OutboxLoop M) : List (OutboxId × M) :=
  match s.writer with
  | .connected c => c.accepted ++ requestedAppends s.writerRequests
  | _ => []

/-- The messages of a response to `read_outbox`. -/
def replyMessages : Except SemanticTransactionError (List (OutboxId × M)) → List (OutboxId × M)
  | .ok messages => messages
  | .error _ => []

/-- The records under way: on the connection, or reserved and not yet seen by the engine. -/
def underWay (s : OutboxLoop M) : List (OutboxId × M) :=
  s.onConnection ++ s.readReplies.flatMap replyMessages

/-- The acknowledged records as a set. -/
def acked (s : OutboxLoop M) : Set (OutboxId × M) := { e | e ∈ s.durable }

/-- Nothing waits to be released and no read is stale. -/
def Settled (s : OutboxLoop M) : Prop := s.control.Settled s.staleRead

/-- The current connection can still acknowledge records. -/
structure Live (s : OutboxLoop M) : Prop where
  /-- The writer has not panicked. -/
  writer : s.writer ≠ .panicked
  /-- No loss of the connection is waiting to be seen. -/
  events : .disconnected ∉ s.writerEvents

/-- A trim through `k` deletes acknowledged rows only, now and later. -/
structure SafeTrim (s : OutboxLoop M) (k : OutboxId) : Prop where
  /-- The id has been allocated. -/
  lt : k < s.outbox.nextOutboxId
  /-- Every row up to the id is acknowledged. -/
  acked : AckedThrough s.outbox.store s.acked k

/-- What the reservations have to do with the records under way. -/
structure WindowInv (s : OutboxLoop M) : Prop where
  /-- The records under way are a window of the table. -/
  window : AckWindow s.outbox.store s.acked s.underWay
  /-- Their ids have been allocated. -/
  lt : ∀ e ∈ s.underWay, e.1 < s.outbox.nextOutboxId
  /-- What is reserved is acknowledged or under way. -/
  reserved : ∀ e, s.outbox.Reserved e → e ∈ s.acked ∨ e ∈ s.underWay

/-- The invariant of the runs that forward no stale messages. -/
structure OutboxInv (s : OutboxLoop M) : Prop where
  /-- The link invariant. -/
  link : s.LinkInv
  /-- The lane invariant. -/
  lane : s.LaneOk
  /-- All ids in the table have been allocated. -/
  allocated : s.outbox.Allocated
  /-- Queued trims are safe. -/
  trims : ∀ k, .trimOutbox k ∈ s.lane → s.SafeTrim k
  /-- Acknowledgements on their way to the engine are safe. -/
  acks : ∀ k, .durable k ∈ s.writerEvents → s.SafeTrim k
  /-- Once the release has been served nothing is reserved and no read is queued. -/
  released : s.control.Released s.lane s.staleRead (∀ e, ¬s.outbox.Reserved e)
  /-- Until then nothing is on the connection. -/
  idle : ¬s.Settled → s.onConnection = []
  /-- While nothing waits to be released, the records under way are a window. -/
  window : s.Settled → s.Live → s.WindowInv

/-- Every row that a transition removes from the table is acknowledged under its own id and
message. -/
def DeletesOnlyAcked (s s' : OutboxLoop M) : Prop :=
  ∀ row ∈ s.outbox.rows, (∀ row' ∈ s'.outbox.rows, row'.outboxId ≠ row.outboxId) →
    row.entry ∈ s'.durable

/-- The step does not forward, to an online writer, messages of a read that was requested before
the last disconnect the engine has handled. -/
def ForwardsNoStaleRead (s : OutboxLoop M) (a : OutboxAction M) : Prop :=
  a = .takeReadReply → s.control.writer = .online → s.staleRead = true →
    s.readReplies.head?.all (fun result => (replyMessages result).isEmpty) = true

/-! ## The parts of the invariant under the turns -/

/-- A writer the engine does not take for online has nothing on its connection. -/
theorem LinkInv.onConnection_eq_nil (h : s.LinkInv) (hon : s.control.writer ≠ .online) :
    s.onConnection = [] := by
  unfold LinkInv at h
  unfold onConnection
  generalize s.control.writer = link at h hon
  generalize s.control.writerReconnectArmed = armed at h
  generalize s.writer = w at h
  generalize s.writerRequests = requests at h
  generalize s.writerEvents = events at h
  cases h with
  | opened => rfl
  | online => exact absurd rfl hon
  | connecting | lostUnseen | failed | lost | offline | asked | panicked => rfl

/-- An online link whose loss is not waiting to be seen has a connected writer. -/
theorem LinkInv.connected (h : s.LinkInv) (hon : s.control.writer = .online) (hlive : s.Live) :
    ∃ c, s.writer = .connected c := by
  obtain ⟨hw, he⟩ := hlive
  unfold LinkInv at h
  rw [hon] at h
  generalize s.control.writerReconnectArmed = armed at h
  generalize s.writer = w at h hw
  generalize s.writerRequests = requests at h
  generalize s.writerEvents = events at h he
  cases h with
  | @online _ c => exact ⟨c, rfl⟩
  | lost sent acks hr hacks => exact absurd (by simp [hacks]) he
  | panicked => exact absurd rfl hw

theorem SafeTrim.of_eq {k : OutboxId} (h : s.SafeTrim k) (ho : s'.outbox = s.outbox)
    (hd : s'.durable = s.durable) : s'.SafeTrim k := by
  obtain ⟨hlt, hacked⟩ := h
  unfold OutboxLoop.acked at hacked
  exact ⟨ho ▸ hlt, by unfold OutboxLoop.acked; rwa [ho, hd]⟩

theorem WindowInv.of_eq (h : s.WindowInv) (ho : s'.outbox = s.outbox)
    (hd : s'.durable = s.durable) (hu : s'.underWay = s.underWay) : s'.WindowInv := by
  obtain ⟨h1, h2, h3⟩ := h
  unfold acked at h1 h3
  constructor
  · unfold acked; rwa [ho, hd, hu]
  · rwa [ho, hu]
  · unfold acked; rwa [ho, hd, hu]

/-- With nothing reserved and nothing under way the window is empty. -/
theorem WindowInv.of_none (hr : ∀ e, ¬s.outbox.Reserved e) (hu : s.underWay = []) :
    s.WindowInv where
  window := hu ▸ .nil
  lt := by simp [hu]
  reserved := fun e he => absurd he (hr e)

theorem outboxInv_start {outbox : Outbox M} {durable : List (OutboxId × M)}
    (h : outbox.Allocated) : (start outbox durable).OutboxInv where
  link := linkInv_start _ _
  lane := laneOk_start _ _
  allocated := by
    intro e he
    exact h e (Outbox.store_setInflightWhere outbox _ _ ▸ he)
  trims := fun k hk => absurd hk (by simp [start, OutboxControl.new, requestOutboxRead,
    maybeStartOutboxRead, canStartOutboxRead])
  acks := fun k hk => absurd hk (by simp [start])
  released := fun hs => absurd ⟨rfl, rfl, rfl⟩ hs
  idle := fun hs => absurd ⟨rfl, rfl, rfl⟩ hs
  window := fun _ _ => .of_none (Outbox.not_reserved_releaseOutboxMessages outbox) rfl

/-- A turn that neither changes the table nor what waits to be released, and that keeps the
records under way as long as the connection lives. -/
theorem OutboxInv.quiet (h : s.OutboxInv) (hlink : s'.LinkInv) (hlane : s'.LaneOk)
    (ho : s'.outbox = s.outbox) (hd : s'.durable = s.durable)
    (htrims : ∀ k, .trimOutbox k ∈ s'.lane → .trimOutbox k ∈ s.lane ∨ s.SafeTrim k)
    (hacks : ∀ k, .durable k ∈ s'.writerEvents → .durable k ∈ s.writerEvents)
    (hreleased : s'.control.Released s'.lane s'.staleRead (∀ e, ¬s.outbox.Reserved e))
    (hsettled : s'.Settled ↔ s.Settled) (hlive : s'.Live → s.Live)
    (hconn : s'.Live → s'.onConnection = s.onConnection)
    (hidle : s.onConnection = [] → s'.onConnection = [])
    (hreplies : s'.readReplies.flatMap replyMessages = s.readReplies.flatMap replyMessages) :
    s'.OutboxInv where
  link := hlink
  lane := hlane
  allocated := ho ▸ h.allocated
  trims := fun k hk => (htrims k hk).elim (fun hk => (h.trims k hk).of_eq ho hd)
    fun hk => hk.of_eq ho hd
  acks := fun k hk => (h.acks k (hacks k hk)).of_eq ho hd
  released := ho ▸ hreleased
  idle := fun hs => hidle (h.idle (mt hsettled.mpr hs))
  window := fun hs hl => (h.window (hsettled.mp hs) (hlive hl)).of_eq ho hd
    (by rw [underWay, underWay, hconn hl, hreplies])

/-- The engine handled a writer event. -/
theorem OutboxInv.writerEvent {event : LogWriterResponse} {events : List LogWriterResponse}
    {stale : Bool} (h : s.OutboxInv) (he : s.writerEvents = event :: events)
    (hs' : s' = { ({ s with writerEvents := events }).emit (s.control.onWriterEvent event) with
      staleRead := stale })
    (hstale : stale = if event = .disconnected then s.control.outboxReadInFlight else s.staleRead)
    (hlink : s'.LinkInv) (hlane : s'.LaneOk) : s'.OutboxInv := by
  have hacks : ∀ k, .durable k ∈ s'.writerEvents → .durable k ∈ s.writerEvents := by
    intro k hk
    rw [hs'] at hk
    rw [he]
    exact List.mem_cons_of_mem _ hk
  cases event with
  | connected =>
    simp only [reduceCtorEq, if_false] at hstale
    subst hs' hstale
    have hconn : onConnection ({ s with writerEvents := events }.emit
        (s.control.onWriterEvent .connected)) = s.onConnection := by
      simp [onConnection, OutboxLoop.emit, onWriterEvent]
    refine h.quiet hlink hlane rfl rfl ?_ hacks ?_ ?_ ?_ (fun _ => hconn) (hconn.trans ·) rfl
    · intro k hk
      exact .inl ((List.mem_append.mp hk).resolve_right (trim_not_mem_maybeStartOutboxRead k))
    · exact Released.startRead (e := { s.control with writer := .online }) h.released
        h.lane.stale_inFlight
    · exact settled_maybeStartOutboxRead
    · rintro ⟨hw, hev⟩
      refine ⟨hw, fun hd => hev ?_⟩
      rw [he] at hd
      exact (List.mem_cons.mp hd).resolve_left (by simp)
  | disconnected =>
    have hns : ¬s'.Settled := hs' ▸ not_settled_requestOutboxRelease
    have hoff : s'.control.writer ≠ .online := by
      rw [hs']
      simp [OutboxLoop.emit, onWriterEvent, markWriterDisconnected, requestOutboxRelease]
    refine ⟨hlink, hlane, ?_, ?_, ?_, ?_, fun _ => hlink.onConnection_eq_nil hoff,
      fun hs => absurd hs hns⟩
    · rw [hs']
      exact h.allocated
    · intro k hk
      rw [hs'] at hk
      refine (h.trims k ?_).of_eq (by rw [hs']; rfl) (by rw [hs']; rfl)
      exact (List.mem_append.mp hk).resolve_right (trim_not_mem_maybeStartOutboxRelease k)
    · exact fun k hk => (h.acks k (hacks k hk)).of_eq (by rw [hs']; rfl) (by rw [hs']; rfl)
    · rw [hs']
      exact released_requestOutboxRelease
  | durable through =>
    simp only [reduceCtorEq, if_false] at hstale
    subst hs' hstale
    have hconn : onConnection ({ s with writerEvents := events }.emit
        (s.control.onWriterEvent (.durable through))) = s.onConnection := by
      simp [onConnection, OutboxLoop.emit, onWriterEvent]
    refine h.quiet hlink hlane rfl rfl ?_ hacks ?_ Iff.rfl ?_ (fun _ => hconn) (hconn.trans ·) rfl
    · intro k hk
      refine (List.mem_append.mp hk).imp_right fun hk => ?_
      rw [onWriterEvent, List.mem_singleton, OutboxRequest.trimOutbox.injEq] at hk
      exact hk ▸ h.acks through (by rw [he]; exact List.mem_cons_self)
    · intro hns hreq hmem
      obtain ⟨hres, hcount⟩ := h.released hns hreq fun hm => hmem (List.mem_append_left _ hm)
      exact ⟨hres, by simpa [OutboxLoop.emit, onWriterEvent, OutboxRequest.isRead] using hcount⟩
    · rintro ⟨hw, hev⟩
      refine ⟨hw, fun hd => hev ?_⟩
      rw [he] at hd
      exact (List.mem_cons.mp hd).resolve_left (by simp)

/-- While the engine handles a read response that it may forward, either nothing waited to be
released, or nothing is left to do for the release and nothing is forwarded. -/
theorem OutboxInv.settle {messages : List (OutboxId × M)}
    {replies : List (Except SemanticTransactionError (List (OutboxId × M)))} (h : s.OutboxInv)
    (he : s.readReplies = .ok messages :: replies) (hns : ¬s.Settled) : s.staleRead = true := by
  have hread : s.control.outboxReadInFlight = true := by
    by_contra hf
    have hzero := h.lane.reads_eq_zero (by simpa using hf)
    rw [he, List.length_cons] at hzero
    omega
  by_contra hst
  refine hns ⟨?_, ?_, by simpa using hst⟩
  · by_contra hrel
    exact hst (h.lane.stale_of_release (.inl (by simpa using hrel)) hread)
  · by_contra hreq
    exact hst (h.lane.stale_of_release (.inr (by simpa using hreq)) hread)

/-- The engine answered its read: the window before and after. -/
theorem OutboxInv.window_of_readReply {messages : List (OutboxId × M)}
    {replies : List (Except SemanticTransactionError (List (OutboxId × M)))}
    (h : s.OutboxInv) (he : s.readReplies = .ok messages :: replies)
    (ho : s'.outbox = s.outbox) (hd : s'.durable = s.durable) (hreplies : s'.readReplies = replies)
    (hconn : s.Live → s'.onConnection = s.onConnection ++ messages)
    (hstale : s.staleRead = true → messages = [])
    (hin : s.control.outboxReleaseInFlight = false)
    (hreq : s.control.outboxReleaseRequested = false) (hlive : s.Live) : s'.WindowInv := by
  by_cases hs : s.Settled
  · refine (h.window hs hlive).of_eq ho hd ?_
    rw [underWay, underWay, hreplies, hconn hlive, he]
    simp [replyMessages]
  · -- the stale read was empty, and the release it waited for has been served
    have hst := h.settle he hs
    have hnil := hstale hst
    obtain ⟨hres, -⟩ := h.released hs hreq (h.lane.release_not_mem (.inl hin))
    have hreads := h.lane.reads
    have hle := Bool.toNat_le s.control.outboxReadInFlight
    rw [he, List.length_cons] at hreads
    have hlen : replies = [] := List.length_eq_zero_iff.mp (by omega)
    refine .of_none (ho ▸ hres) ?_
    rw [underWay, hreplies, hconn hlive, h.idle hs, hnil, hlen]
    rfl

/-- The engine took the response of a read and, if its messages are not given back, has asked for
more. -/
theorem OutboxInv.readReply_forward {messages : List (OutboxId × M)} {requested : Bool}
    {replies : List (Except SemanticTransactionError (List (OutboxId × M)))} (h : s.OutboxInv)
    (he : s.readReplies = .ok messages :: replies)
    (hon : s.control.writer = .online ∨ messages = [])
    (hstale : s.staleRead = true → messages = [])
    (hs' : s' = { ({ s with readReplies := replies }).emit (andThen
      { control :=
          { s.control with outboxReadInFlight := false, outboxReadRequested := requested }
        writer := messages.map appendRequest } maybeStartOutboxRead) with staleRead := false })
    (hlink : s'.LinkInv) (hlane : s'.LaneOk) : s'.OutboxInv := by
  have hconn : s'.onConnection = (match s.writer with
      | .connected c => c.accepted ++ requestedAppends (s.writerRequests ++ messages.map appendRequest)
      | _ => []) := by
    rw [hs']
    simp [onConnection, OutboxLoop.emit, andThen]
  have hset : s'.Settled ↔ s.control.outboxReleaseInFlight = false ∧
      s.control.outboxReleaseRequested = false := by
    rw [hs']
    exact settled_maybeStartOutboxRead.trans ⟨fun h => ⟨h.1, h.2.1⟩, fun h => ⟨h.1, h.2, rfl⟩⟩
  have hunset : ¬s'.Settled → ¬s.Settled := fun hns hs => hns (hset.mpr ⟨hs.1, hs.2.1⟩)
  have ho : s'.outbox = s.outbox := by rw [hs']; rfl
  have hd : s'.durable = s.durable := by rw [hs']; rfl
  refine ⟨hlink, hlane, ho ▸ h.allocated, ?_, ?_, ?_, ?_, ?_⟩
  · intro k hk
    rw [hs'] at hk
    refine (h.trims k ?_).of_eq ho hd
    exact (List.mem_append.mp hk).resolve_right (trim_not_mem_maybeStartOutboxRead k)
  · intro k hk
    rw [hs'] at hk
    exact (h.acks k hk).of_eq ho hd
  · have hreleased : ({ s.control with
        outboxReadInFlight := false, outboxReadRequested := requested } : OutboxControl).Released
          s.lane false (∀ e, ¬s.outbox.Reserved e) := by
      intro hns hreq hmem
      exact h.released (fun hs => hns ⟨hs.1, hs.2.1, rfl⟩) hreq hmem
    have hstart := hreleased.startRead (M := M) (fun hf => absurd hf Bool.false_ne_true)
    rw [ho, hs']
    exact hstart
  · intro hns
    have hm := hstale (h.settle he (hunset hns))
    have hidle := h.idle (hunset hns)
    rw [hconn, hm]
    simpa [onConnection] using hidle
  · intro hs hl
    obtain ⟨hin, hreq⟩ := hset.mp hs
    have hlive : s.Live := by
      rw [hs'] at hl
      exact ⟨hl.1, hl.2⟩
    refine h.window_of_readReply he ho hd (by rw [hs']; rfl) (fun _ => ?_) hstale hin hreq hlive
    rw [hconn, onConnection]
    rcases hon with hon | hnil
    · obtain ⟨c, hc⟩ := h.link.connected hon hlive
      simp [hc]
    · simp [hnil]

/-- The engine took the response of a read while the writer was not online: its rows are to be
released. -/
theorem OutboxInv.readReply_giveBack
    {replies : List (Except SemanticTransactionError (List (OutboxId × M)))} (h : s.OutboxInv)
    (hon : s.control.writer ≠ .online)
    (hs' : s' = { ({ s with readReplies := replies }).emit (andThen
      { (requestOutboxRelease { s.control with outboxReadInFlight := false } : OutboxEffect M) with
        control := { (requestOutboxRelease
            { s.control with outboxReadInFlight := false } : OutboxEffect M).control with
          outboxReadRequested := true } } maybeStartOutboxRead) with staleRead := false })
    (hlink : s'.LinkInv) (hlane : s'.LaneOk) : s'.OutboxInv := by
  have hns : ¬s'.Settled := by
    rw [hs']
    intro hs
    have hread := (settled_maybeStartOutboxRead (M := M) (e := { (requestOutboxRelease
      { s.control with outboxReadInFlight := false } : OutboxEffect M).control with
        outboxReadRequested := true })).mp hs
    exact not_settled_requestOutboxRelease (M := M)
      (e := { s.control with outboxReadInFlight := false }) hread
  have hoff : s'.control.writer ≠ .online := by
    rw [hs']
    simpa [OutboxLoop.emit, andThen, requestOutboxRelease] using hon
  have ho : s'.outbox = s.outbox := by rw [hs']; rfl
  have hd : s'.durable = s.durable := by rw [hs']; rfl
  refine ⟨hlink, hlane, ho ▸ h.allocated, ?_, ?_, ?_, fun _ => hlink.onConnection_eq_nil hoff,
    fun hs => absurd hs hns⟩
  · intro k hk
    rw [hs'] at hk
    refine (h.trims k ?_).of_eq ho hd
    refine (List.mem_append.mp hk).resolve_right fun hk => ?_
    exact (List.mem_append.mp hk).elim (trim_not_mem_maybeStartOutboxRelease k)
      (trim_not_mem_maybeStartOutboxRead k)
  · intro k hk
    rw [hs'] at hk
    exact (h.acks k hk).of_eq ho hd
  · have hrel : Released _ (s.lane ++ _) false (∀ e, ¬s.outbox.Reserved e) :=
      released_requestOutboxRelease (M := M) (e := { s.control with outboxReadInFlight := false })
    have hstart := Released.startRead (M := M) (e := { (requestOutboxRelease
      { s.control with outboxReadInFlight := false } : OutboxEffect M).control with
        outboxReadRequested := true }) hrel (fun hf => absurd hf Bool.false_ne_true)
    rw [ho, hs']
    simpa [OutboxLoop.emit, andThen] using hstart

/-- The engine handled a read response. -/
theorem OutboxInv.readReply {messages : List (OutboxId × M)}
    {replies : List (Except SemanticTransactionError (List (OutboxId × M)))}
    {r : OutboxEffect M} (h : s.OutboxInv) (he : s.readReplies = .ok messages :: replies)
    (hr : s.control.onReadOutbox (.ok messages) = some r)
    (hstale : s.control.writer = .online → s.staleRead = true → messages = [])
    (hs' : s' = { ({ s with readReplies := replies }).emit r with staleRead := false })
    (hlink : s'.LinkInv) (hlane : s'.LaneOk) : s'.OutboxInv := by
  obtain ⟨-, ⟨hon, rfl⟩ | ⟨hon, -, rfl⟩ | ⟨hon, hnil, rfl⟩⟩ := onReadOutbox_eq _ hr
  · exact h.readReply_forward he (.inl hon) (hstale hon) hs' hlink hlane
  · exact h.readReply_giveBack hon hs' hlink hlane
  · subst hnil
    exact h.readReply_forward he (.inr rfl) (fun _ => rfl) hs' hlink hlane

/-- The engine handled a release response. -/
theorem OutboxInv.releaseReply {released : Nat} {replies : List Nat} {r : OutboxEffect M}
    (h : s.OutboxInv) (he : s.releaseReplies = released :: replies)
    (hr : s.control.onReleaseOutbox = some r)
    (hs' : s' = ({ s with releaseReplies := replies }).emit r)
    (hlink : s'.LinkInv) (hlane : s'.LaneOk) : s'.OutboxInv := by
  have hno : .releaseOutbox ∉ s.lane :=
    h.lane.release_not_mem (.inr (by rw [he]; exact Nat.succ_pos _))
  have hkeep := onReleaseOutbox_keepsLink _ hr
  have hconn : s'.onConnection = s.onConnection := by
    rw [hs']
    simp [onConnection, OutboxLoop.emit, hkeep.writer]
  unfold onReleaseOutbox at hr
  split_ifs at hr with hin
  cases hr
  have hns : ¬s.Settled := fun hs => absurd hs.1 (by simp [hin])
  have ho : s'.outbox = s.outbox := by rw [hs']; rfl
  have hd : s'.durable = s.durable := by rw [hs']; rfl
  refine ⟨hlink, hlane, ho ▸ h.allocated, ?_, ?_, ?_, fun _ => hconn.trans (h.idle hns), ?_⟩
  · intro k hk
    rw [hs'] at hk
    refine (h.trims k ?_).of_eq ho hd
    refine (List.mem_append.mp hk).resolve_right fun hk => ?_
    exact (List.mem_append.mp hk).elim (trim_not_mem_maybeStartOutboxRelease k)
      (trim_not_mem_maybeStartOutboxRead k)
  · intro k hk
    rw [hs'] at hk
    exact (h.acks k hk).of_eq ho hd
  · have hreleased : ({ s.control with outboxReleaseInFlight := false } : OutboxControl).Released
        s.lane s.staleRead (∀ e, ¬s.outbox.Reserved e) := fun _ hreq hmem => h.released hns hreq hmem
    have hstart := (hreleased.startRelease (M := M)).startRead (M := M)
      (by simpa using h.lane.stale_inFlight)
    rw [ho, hs']
    simpa [OutboxLoop.emit, andThen] using hstart
  · intro hs hl
    rw [hs'] at hs
    obtain ⟨-, hreq, hfresh⟩ := settled_of_maybeStartOutboxRelease (M := M)
      (e := { s.control with outboxReleaseInFlight := false })
      ((settled_maybeStartOutboxRead (M := M)).mp hs)
    obtain ⟨hres, -⟩ := h.released hns hreq hno
    have hread : s.control.outboxReadInFlight = false := by
      by_contra hread
      have := h.lane.stale_of_release (.inl hin) (by simpa using hread)
      exact absurd (this.symm.trans hfresh) (by simp)
    have hnil : s.readReplies = [] := List.length_eq_zero_iff.mp (h.lane.reads_eq_zero hread)
    refine .of_none (ho ▸ hres) ?_
    rw [underWay, hconn, h.idle hns, hs']
    simp [OutboxLoop.emit, hnil]

/-- The semantic actor reserved a batch. -/
theorem OutboxInv.serveRead {numMessages : Nat} {requests : List OutboxRequest}
    {outbox : Outbox M} {messages : List (OutboxId × M)} (h : s.OutboxInv)
    (hlane : s.lane = .readOutbox numMessages :: requests)
    (hres : s.outbox.reserveOutboxMessages numMessages = .ok (outbox, messages))
    (hs' : s' = { s with lane := requests, outbox := outbox,
                         readReplies := s.readReplies ++ [.ok messages] })
    (hlink' : s'.LinkInv) (hlane' : s'.LaneOk) : s'.OutboxInv := by
  obtain ⟨hnext, hstore, hmsgs, hreserved⟩ := Outbox.reserveOutboxMessages_spec hres
  have hsafe : ∀ k, s.SafeTrim k → s'.SafeTrim k := by
    rintro k ⟨hlt, hack⟩
    subst hs'
    exact ⟨hnext ▸ hlt, hstore ▸ hack⟩
  have hunder : s'.underWay = s.underWay ++ messages := by
    subst hs'
    simp [underWay, onConnection, replyMessages]
  have hset : s'.Settled ↔ s.Settled := by rw [hs']; exact Iff.rfl
  refine ⟨hlink', hlane', ?_, ?_, ?_, ?_, ?_, ?_⟩
  · intro e he
    rw [hs'] at he ⊢
    exact hnext ▸ h.allocated e (hstore ▸ he)
  · intro k hk
    rw [hs'] at hk
    exact hsafe k (h.trims k (by rw [hlane]; exact List.mem_cons_of_mem _ hk))
  · intro k hk
    rw [hs'] at hk
    exact hsafe k (h.acks k hk)
  · -- the release, if served, was served after every queued read
    intro hns hreq hmem
    rw [hs'] at hns hreq hmem
    have hcount := (h.released hns hreq (by rw [hlane]; simpa using hmem)).2
    rw [hlane] at hcount
    simp [OutboxRequest.isRead] at hcount
  · intro hns
    rw [hs']
    exact h.idle (mt hset.mpr hns)
  · intro hs hl
    have hwin := h.window (hset.mp hs) (by rw [hs'] at hl; exact ⟨hl.1, hl.2⟩)
    have hmem : ∀ x ∈ messages, ∃ row ∈ s.outbox.rows, row.inflight = false ∧ row.entry = x := by
      intro x hx
      rw [hmsgs] at hx
      obtain ⟨row, hrow, rfl⟩ := List.mem_map.mp hx
      obtain ⟨h1, h2⟩ := Outbox.mem_unreserved.mp (List.mem_of_mem_take hrow)
      exact ⟨row, h1, h2, rfl⟩
    constructor
    · rw [hunder]
      subst hs'
      rw [hstore]
      refine hwin.window.append ?_ ?_
      · rintro pre x post hsplit r ⟨row, hrow, rfl⟩ hlt
        cases hin : row.inflight with
        | true => exact (hwin.reserved _ ⟨row, hrow, rfl, hin⟩).imp_right .inl
        | false =>
          -- an unreserved row below a handed out one was handed out before it
          rw [hmsgs] at hsplit
          obtain ⟨rpre, rest, htake, rfl, hrest⟩ := List.map_eq_append_iff.mp hsplit
          obtain ⟨y, rpost, rfl, rfl, rfl⟩ := List.map_eq_cons_iff.mp hrest
          exact .inr (.inr (List.mem_map_of_mem
            (Outbox.mem_of_lt_of_take_unreserved htake hrow hin hlt)))
      · rintro x hx r hr heq
        obtain ⟨row, hrow, -, rfl⟩ := hmem x hx
        exact Outbox.eq_of_mem_store hr (Outbox.entry_mem_store hrow) heq
    · intro e he
      rw [hunder] at he
      subst hs'
      rw [hnext]
      rcases List.mem_append.mp he with he | he
      · exact hwin.lt e he
      · obtain ⟨row, hrow, -, rfl⟩ := hmem e he
        exact h.allocated _ (Outbox.entry_mem_store hrow)
    · intro e he
      rw [hunder, List.mem_append]
      subst hs'
      rcases hreserved e he with he | he
      · exact (hwin.reserved e he).imp_right .inl
      · exact .inr (.inr he)

/-- A turn of the semantic lane that keeps the link and the records under way, and removes
records and reservations from the table at most. -/
theorem OutboxInv.shrink {outbox : Outbox M} (h : s.OutboxInv) (requests : List OutboxRequest)
    (hs' : s'.control = s.control ∧ s'.writer = s.writer ∧ s'.writerRequests = s.writerRequests ∧
      s'.writerEvents = s.writerEvents ∧ s'.durable = s.durable ∧ s'.staleRead = s.staleRead)
    (ho : s'.outbox = outbox) (hnext : outbox.nextOutboxId = s.outbox.nextOutboxId)
    (hstore : outbox.store ⊆ s.outbox.store) (hres : ∀ e, outbox.Reserved e → s.outbox.Reserved e)
    (hlane : ∀ q ∈ requests, q ∈ s.lane) (hl : s'.lane = requests)
    (hreplies : s'.readReplies.flatMap replyMessages = s.readReplies.flatMap replyMessages)
    (hreleased : s'.control.Released requests s'.staleRead (∀ e, ¬outbox.Reserved e))
    (hlink' : s'.LinkInv) (hlane' : s'.LaneOk) : s'.OutboxInv := by
  obtain ⟨hc, hw, hreq, hev, hd, hst⟩ := hs'
  subst ho hl
  have hacked : s'.acked = s.acked := by rw [acked, acked, hd]
  have hconn : s'.onConnection = s.onConnection := by rw [onConnection, onConnection, hw, hreq]
  have hunder : s'.underWay = s.underWay := by rw [underWay, underWay, hconn, hreplies]
  have hset : s'.Settled ↔ s.Settled := by rw [Settled, Settled, hc, hst]
  have hsafe : ∀ k, s.SafeTrim k → s'.SafeTrim k := fun k hk =>
    ⟨hnext ▸ hk.lt, hk.acked.mono (fun r hr => .inl (hstore hr)) hacked.ge⟩
  refine ⟨hlink', hlane', fun e he => hnext ▸ h.allocated e (hstore he),
    fun k hk => hsafe k (h.trims k (hlane _ hk)), fun k hk => hsafe k (h.acks k (hev ▸ hk)),
    hreleased, fun hs => hconn.trans (h.idle (mt hset.mpr hs)), fun hs hl => ?_⟩
  have hwin := h.window (hset.mp hs) ⟨hw ▸ hl.1, hev ▸ hl.2⟩
  refine ⟨?_, ?_, ?_⟩
  · rw [hunder, hacked]
    exact hwin.window.mono (fun r hr => .inl (hstore hr)) subset_rfl
  · rw [hunder, hnext]
    exact hwin.lt
  · rw [hunder, hacked]
    exact fun e he => hwin.reserved e (hres e he)

/-- A local mutation queued messages. -/
theorem OutboxInv.mutate {messages : List M} {outbox : Outbox M} {events : List Nat}
    (h : s.OutboxInv) (hpush : s.outbox.pushOutboxMessages messages = .ok outbox)
    (hs' : s' = { s with outbox := outbox, readyEvents := events }) : s'.OutboxInv := by
  subst hs'
  have hle : s.outbox.nextOutboxId ≤ outbox.nextOutboxId :=
    (Outbox.pushOutboxMessages_spec hpush).1 ▸ Nat.le_add_right _ _
  have hstore : ∀ e ∈ outbox.store, e ∈ s.outbox.store ∨ s.outbox.nextOutboxId ≤ e.1 :=
    fun e he => (Outbox.mem_store_pushOutboxMessages hpush he).imp_right And.left
  have hsafe : ∀ k, s.SafeTrim k →
      SafeTrim { s with outbox := outbox, readyEvents := events } k := fun k hk =>
    ⟨hk.lt.trans_le hle,
      hk.acked.mono (fun r hr => (hstore r hr).imp_right hk.lt.trans_le) subset_rfl⟩
  refine ⟨h.link, h.lane, Outbox.allocated_pushOutboxMessages hpush h.allocated,
    fun k hk => hsafe k (h.trims k hk), fun k hk => hsafe k (h.acks k hk), ?_, h.idle, ?_⟩
  · intro hns hreq hmem
    obtain ⟨hres, hcount⟩ := h.released hns hreq hmem
    exact ⟨fun e he => hres e (Outbox.reserved_of_pushOutboxMessages hpush he), hcount⟩
  · intro hs hl
    obtain ⟨hwin, hlt, hres⟩ := h.window hs ⟨hl.1, hl.2⟩
    exact ⟨hwin.mono (fun r hr => (hstore r hr).imp_right fun hge x hx => (hlt x hx).trans_le hge)
      subset_rfl, fun e he => (hlt e he).trans_le hle,
      fun e he => hres e (Outbox.reserved_of_pushOutboxMessages hpush he)⟩

/-- The log acknowledged a record. -/
theorem OutboxInv.acknowledge {c : WriterConnection M} {record : OutboxId × M}
    {records : List (OutboxId × M)} (h : s.OutboxInv) (hw : s.writer = .connected c)
    (hp : c.pendingAppends = record :: records)
    (hs' : s' = { s with
      writer := .connected { c with pendingAppends := records }
      writerEvents := s.writerEvents ++ [.durable record.1]
      durable := record :: s.durable })
    (hlink' : s'.LinkInv) : s'.OutboxInv := by
  have hunder : s.underWay = record :: s'.underWay := by
    rw [hs']
    simp [underWay, onConnection, hw, WriterConnection.accepted, hp]
  have hconn : s.onConnection ≠ [] := by
    simp [onConnection, hw, WriterConnection.accepted, hp]
  have hs : s.Settled := by
    by_contra hns
    exact hconn (h.idle hns)
  have hlive : s.Live := by
    have hlink := h.link
    refine ⟨by simp [hw], fun hd => ?_⟩
    rw [LinkInv, hw] at hlink
    generalize s.control.writer = link at hlink
    generalize s.control.writerReconnectArmed = armed at hlink
    generalize s.writerRequests = requests at hlink
    generalize s.writerEvents = events at hlink hd
    cases hlink with
    | opened => simp at hd
    | online sent acks hr he => simp [he] at hd
  obtain ⟨hwin, hlt, hres⟩ := h.window hs hlive
  rw [hunder] at hwin hlt
  have hacked : s'.acked = insert record s.acked := by
    rw [hs']
    ext e
    simp [acked]
  have hsafe : ∀ k, s.SafeTrim k → s'.SafeTrim k := by
    intro k hk
    refine ⟨by rw [hs']; exact hk.lt, ?_⟩
    rw [hacked, hs']
    exact hk.acked.mono (fun r hr => .inl hr) (Set.subset_insert _ _)
  refine ⟨hlink', by rw [hs']; exact h.lane, by rw [hs']; exact h.allocated, ?_, ?_,
    by rw [hs']; exact h.released, ?_, ?_⟩
  · intro k hk
    rw [hs'] at hk
    exact hsafe k (h.trims k hk)
  · intro k hk
    rw [hs'] at hk
    rcases List.mem_append.mp hk with hk | hk
    · exact hsafe k (h.acks k hk)
    · rw [List.mem_singleton, LogWriterResponse.durable.injEq] at hk
      subst hk
      refine ⟨by rw [hs']; exact hlt record List.mem_cons_self, ?_⟩
      rw [hacked, hs']
      exact hwin.ackedThrough_head
  · intro hns
    rw [hs'] at hns
    exact absurd hs hns
  · intro _ _
    refine ⟨?_, ?_, ?_⟩
    · rw [hacked]
      have htail := hwin.tail
      rw [hs'] at htail ⊢
      exact htail
    · intro e he
      have := hlt e (List.mem_cons_of_mem _ he)
      rw [hs']
      exact this
    · intro e he
      rw [hs'] at he
      rw [hacked]
      rcases hres e he with he | he
      · exact .inl (.inr he)
      · rw [hunder] at he
        exact (List.mem_cons.mp he).imp .inl id

/-! ## Runs -/

/-- Every turn that forwards no stale messages keeps the invariant. -/
theorem OutboxInv.turn (h : s.OutboxInv) (hP : s.ForwardsNoStaleRead a)
    (ht : Turn inlined s a s') : s'.OutboxInv := by
  have hlink := h.link.turn ht
  have hlane := h.lane.turn ht
  cases ht with
  | writerEvent hrun he => exact h.writerEvent he rfl rfl hlink hlane
  | readReply hrun he hr =>
    refine h.readReply he hr (fun hon hst => ?_) rfl hlink hlane
    simpa [he, replyMessages] using hP rfl hon hst
  | releaseReply hrun he hr => exact h.releaseReply he hr rfl hlink hlane
  | engineStops =>
    exact h.quiet hlink hlane rfl rfl (fun k => .inl) (fun k hk => hk) h.released Iff.rfl
      (fun hl => ⟨hl.1, hl.2⟩) (fun _ => rfl) id rfl
  | @readyEvent numMessages events hrun he =>
    have hkeep := onOutboxReady_keepsLink (M := M) s.control numMessages
    have hconn : onConnection ({ s with readyEvents := events }.emit
        (s.control.onOutboxReady numMessages)) = s.onConnection := by
      simp [onConnection, OutboxLoop.emit, hkeep.writer]
    have hreleased : Released s.control s.lane s.staleRead _ := h.released
    unfold onOutboxReady requestOutboxRead at *
    split_ifs at * with hn
    · refine h.quiet hlink hlane rfl rfl (fun k hk => .inl ?_) (fun k hk => hk) ?_ ?_
        (fun hl => ⟨hl.1, hl.2⟩) (fun _ => hconn) (hconn.trans ·) rfl
      · exact (List.mem_append.mp hk).resolve_right (trim_not_mem_maybeStartOutboxRead k)
      · exact Released.startRead (e := { s.control with outboxReadRequested := true })
          hreleased h.lane.stale_inFlight
      · exact settled_maybeStartOutboxRead (e := { s.control with outboxReadRequested := true })
    · exact h.quiet hlink hlane rfl rfl (fun k hk => .inl (by simpa [OutboxLoop.emit] using hk))
        (fun k hk => hk) (by simpa [OutboxLoop.emit] using hreleased) Iff.rfl
        (fun hl => ⟨hl.1, hl.2⟩) (fun _ => hconn) (hconn.trans ·) rfl
  | writerReconnect hrun harmed =>
    have hconn : onConnection (s.emit s.control.onWriterReconnect) = s.onConnection := by
      unfold onWriterReconnect
      split_ifs <;> simp [onConnection, OutboxLoop.emit, requestedAppends]
    have hreleased : Released s.control s.lane s.staleRead _ := h.released
    unfold onWriterReconnect at *
    split_ifs at * with hoff <;>
      exact h.quiet hlink hlane rfl rfl (fun k hk => .inl (by simpa [OutboxLoop.emit] using hk))
        (fun k hk => hk) (by simp only [OutboxLoop.emit, List.append_nil]; exact hreleased) Iff.rfl
        (fun hl => ⟨hl.1, hl.2⟩) (fun _ => hconn) (hconn.trans ·) rfl
  | serveRead hl hres => exact h.serveRead hl hres rfl hlink hlane
  | @serveReadFails numMessages requests e hl =>
    refine h.shrink requests ⟨rfl, rfl, rfl, rfl, rfl, rfl⟩ rfl rfl subset_rfl
      (fun _ => id) (fun q hq => by rw [hl]; exact List.mem_cons_of_mem _ hq) rfl
      (by simp [replyMessages]) ?_ hlink hlane
    intro hns hreq hmem
    have hcount := (h.released hns hreq (by rw [hl]; simpa using hmem)).2
    rw [hl] at hcount
    simp [OutboxRequest.isRead] at hcount
  | @serveRelease requests hl =>
    refine h.shrink requests ⟨rfl, rfl, rfl, rfl, rfl, rfl⟩ rfl rfl
      (Outbox.store_setInflightWhere s.outbox _ _).le
      (fun e he => absurd he (Outbox.not_reserved_releaseOutboxMessages s.outbox e))
      (fun q hq => by rw [hl]; exact List.mem_cons_of_mem _ hq) rfl rfl ?_ hlink hlane
    intro _ _ _
    refine ⟨Outbox.not_reserved_releaseOutboxMessages s.outbox, ?_⟩
    have horder := h.lane.order
    rw [hl] at horder
    exact List.countP_eq_zero.mpr fun q hq => by
      simpa using (List.pairwise_cons.mp horder).1 q hq rfl
  | @serveTrim through requests hl =>
    refine h.shrink requests ⟨rfl, rfl, rfl, rfl, rfl, rfl⟩ rfl rfl
      (Outbox.store_trimOutbox_subset s.outbox through) (fun e => Outbox.reserved_of_trimOutbox)
      (fun q hq => by rw [hl]; exact List.mem_cons_of_mem _ hq) rfl rfl ?_ hlink hlane
    intro hns hreq hmem
    obtain ⟨hres, hcount⟩ := h.released hns hreq (by rw [hl]; simpa using hmem)
    rw [hl] at hcount
    exact ⟨fun e he => hres e (Outbox.reserved_of_trimOutbox he),
      by simpa [OutboxRequest.isRead] using hcount⟩
  | mutate hpush => exact h.mutate hpush rfl
  | connect hw =>
    have hnil : s.writerRequests = [] := by
      have hlink := h.link
      rw [LinkInv, hw] at hlink
      generalize s.control.writer = link at hlink
      generalize s.control.writerReconnectArmed = armed at hlink
      generalize s.writerRequests = requests at hlink
      generalize s.writerEvents = events at hlink
      cases hlink
      rfl
    have hconn : s.onConnection = [] := by simp [onConnection, hw]
    refine h.quiet hlink hlane rfl rfl (fun k => .inl) (fun k hk => by simpa using hk) h.released
      Iff.rfl ?_ (fun _ => ?_) (fun _ => ?_) rfl
    · exact fun hl => ⟨by simp [hw], fun hd => hl.2 (List.mem_append_left _ hd)⟩
    · rw [hconn]
      simp [onConnection, WriterConnection.accepted, WriterConnection.fresh, hnil, requestedAppends]
    · simp [onConnection, WriterConnection.accepted, WriterConnection.fresh, hnil, requestedAppends]
  | writerLost hw =>
    have hdead : ∀ {p : Prop}, Live { s with
        writer := .waiting, writerEvents := s.writerEvents ++ [.disconnected] } → p :=
      fun hl => absurd (List.mem_append_right _ (List.mem_singleton_self _)) hl.2
    exact h.quiet hlink hlane rfl rfl (fun k => .inl) (fun k hk => by simpa using hk) h.released
      Iff.rfl hdead hdead (fun _ => rfl) rfl
  | @accept c c' request requests hw hreq hbig hc =>
    have hconn : onConnection { s with writer := .connected c', writerRequests := requests } =
        s.onConnection := by
      cases request with
      | reconnect =>
        cases hc
        simp [onConnection, hw, hreq, requestedAppends]
      | append outboxId sharedMessage =>
        simp [onConnection, hw, hreq, requestedAppends,
          WriterConnection.receive_append hbig hc]
    exact h.quiet hlink hlane rfl rfl (fun k => .inl) (fun k hk => hk) h.released Iff.rfl
      (fun hl => ⟨by simp [hw], hl.2⟩) (fun _ => hconn) (hconn.trans ·) rfl
  | writerPanics =>
    exact h.quiet hlink hlane rfl rfl (fun k => .inl) (fun k hk => hk) h.released Iff.rfl
      (fun hl => absurd rfl hl.1) (fun hl => absurd rfl hl.1) (fun _ => rfl) rfl
  | reconnect hw hreq =>
    have hconn : s.onConnection = [] := by simp [onConnection, hw]
    exact h.quiet hlink hlane rfl rfl (fun k => .inl) (fun k hk => hk) h.released Iff.rfl
      (fun hl => ⟨by simp [hw], hl.2⟩) (fun _ => hconn.symm) (fun _ => rfl) rfl
  | @discard _ _ requests hw hreq =>
    have hconn : ∀ q, onConnection { s with writerRequests := q } = [] := by
      simp [onConnection, hw]
    exact h.quiet hlink hlane rfl rfl (fun k => .inl) (fun k hk => hk) h.released Iff.rfl
      (fun hl => ⟨hl.1, hl.2⟩) (fun _ => (hconn requests).trans (hconn s.writerRequests).symm)
      (fun _ => hconn requests) rfl
  | @uploaded c pointer hw hbig =>
    have hconn : onConnection { s with writer := .connected { c with
        bigUpload := none, pendingAppends := c.pendingAppends ++ [pointer] } } =
        s.onConnection := by
      simp [onConnection, hw, WriterConnection.accepted, hbig]
    exact h.quiet hlink hlane rfl rfl (fun k => .inl) (fun k hk => hk) h.released Iff.rfl
      (fun hl => ⟨by simp [hw], hl.2⟩) (fun _ => hconn) (hconn.trans ·) rfl
  | acknowledge hw hp => exact h.acknowledge hw hp rfl hlink
  | restart => exact outboxInv_start h.allocated

/-- The invariant holds along every run that forwards no stale messages. -/
theorem outboxInv_of_reachable (h : (machine inlined).Reachable ForwardsNoStaleRead s) :
    s.OutboxInv := by
  refine h.invariant ?_ fun s a s' _ hs hP hstep => hs.turn hP (turn_of_step hstep)
  rintro s rfl
  exact outboxInv_start Outbox.allocated_empty

/-- A turn that keeps or acknowledges every record deletes only acknowledged rows. -/
theorem deletesOnlyAcked_of_store
    (h : ∀ e ∈ s.outbox.store, e ∈ s'.outbox.store ∨ e ∈ s'.durable) : s.DeletesOnlyAcked s' := by
  intro row hrow hgone
  rcases h _ (Outbox.entry_mem_store hrow) with ⟨row', hrow', heq⟩ | hd
  · exact absurd (congrArg Prod.fst heq) (hgone row' hrow')
  · exact hd

/-- In every run that forwards no stale messages, a row leaves the outbox only when its own record
has been acknowledged as durable. -/
theorem deletes_only_acked_rows (inlined : M → Bool)
    (hs : (machine inlined).Reachable ForwardsNoStaleRead s)
    (hstep : (machine inlined).step s a = some s') : s.DeletesOnlyAcked s' := by
  have hinv := outboxInv_of_reachable hs
  refine deletesOnlyAcked_of_store fun e he => ?_
  cases turn_of_step hstep with
  | serveRead hl hres => exact .inl ((Outbox.reserveOutboxMessages_spec hres).2.1 ▸ he)
  | serveRelease hl => exact .inl ((Outbox.store_setInflightWhere s.outbox _ _).symm ▸ he)
  | @serveTrim through requests hl =>
    have hsafe := hinv.trims through (by rw [hl]; exact List.mem_cons_self)
    by_cases hle : e.1 ≤ through
    · exact .inr (hsafe.acked e he hle)
    · obtain ⟨row, hrow, rfl⟩ := he
      exact .inl ⟨row, Outbox.mem_trimOutbox.mpr ⟨hrow, fun h => hle h.1⟩, rfl⟩
  | mutate hpush =>
    obtain ⟨row, hrow, rfl⟩ := he
    exact .inl ⟨row, ((Outbox.pushOutboxMessages_spec hpush).2 row).mpr (.inl hrow), rfl⟩
  | restart => exact .inl ((Outbox.store_setInflightWhere s.outbox _ _).symm ▸ he)
  | writerEvent | readReply | releaseReply | engineStops | readyEvent | writerReconnect
  | serveReadFails | connect | writerLost | accept | writerPanics | reconnect | discard | uploaded
  | acknowledge => exact .inl he

instance (s s' : OutboxLoop Nat) : Decidable (s.DeletesOnlyAcked s') :=
  inferInstanceAs (Decidable (∀ row ∈ s.outbox.rows.rows,
    (∀ row' ∈ s'.outbox.rows.rows, row'.outboxId ≠ row.outboxId) → row.entry ∈ s'.durable))

instance (s : OutboxLoop Nat) (a : OutboxAction Nat) : Decidable (s.ForwardsNoStaleRead a) :=
  inferInstanceAs (Decidable (_ → _ → _ → _))

/-- One message on its way through the outbox: queued, reserved, appended and acknowledged; the
trim is the next request of the lane. -/
def cleanRun : List (OutboxAction Nat) :=
  [.mutate [10], .connect, .takeWriterEvent, .serve, .takeReadReply, .serve, .takeReadReply,
    .receive, .acknowledge, .takeWriterEvent]

theorem deletes_only_acked_rows_cleanRun : ∃ s s' : OutboxLoop Nat,
    (machine fun _ => true).exec (start .empty []) cleanRun = some s ∧
      (machine fun _ => true).step s .serve = some s' ∧ s.outbox.rows.rows ≠ [] ∧
      s'.outbox.rows.rows = [] ∧ s.DeletesOnlyAcked s' := by
  have hmeets : (machine fun _ => true).Meets ForwardsNoStaleRead (start .empty []) cleanRun := by
    decide
  obtain ⟨s, s', hs, hstep, hp⟩ := Machine.exists_last_step
    (M := machine fun _ : Nat => true) (s := start .empty []) (a := .serve)
    (p := fun s s' => decide (s.outbox.rows.rows ≠ [] ∧ s'.outbox.rows.rows = []))
    (show (((machine _).exec _ cleanRun).any _) = true by decide)
  obtain ⟨hrows, hrows'⟩ := of_decide_eq_true hp
  have hreach := Machine.Reachable.exec (.init rfl) hmeets hs
  exact ⟨s, s', hs, hstep, hrows, hrows', deletes_only_acked_rows _ hreach hstep⟩

/-- The lane serves a read slower than a whole reconnect: the read is requested on the first
connection and answered on the second one, and its message is appended before the release of the
row below it, whose own append the first connection dropped, has been served. -/
def staleReadRun : List (OutboxAction Nat) :=
  [.mutate [10], .connect, .takeWriterEvent, .serve, .takeReadReply, .mutate [11], .disconnect,
    .takeWriterEvent, .receive, .fireWriterReconnect, .receive, .connect, .takeWriterEvent,
    .serve, .takeReadReply, .receive, .serve, .takeReleaseReply, .serve, .acknowledge,
    .takeWriterEvent]

/-- Not every run deletes acknowledged rows only: after `staleReadRun` the acknowledgement of the
second message trims the first one, which no record of the log carries. -/
theorem not_deletes_only_acked_rows :
    ¬∀ (s s' : OutboxLoop Nat) (a : OutboxAction Nat), (machine fun _ => true).Reached s →
      (machine fun _ => true).step s a = some s' → s.DeletesOnlyAcked s' := by
  intro h
  obtain ⟨s, s', hs, hstep, hp⟩ := Machine.exists_last_step
    (M := machine fun _ : Nat => true) (s := start .empty []) (a := .serve)
    (p := fun s s' => decide (¬s.DeletesOnlyAcked s'))
    (show (((machine _).exec _ staleReadRun).any _) = true by decide)
  exact of_decide_eq_true hp (h s s' .serve (Machine.reached_of_exec rfl hs) hstep)

end OutboxLoop

end Opbox
