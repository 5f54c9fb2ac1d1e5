import Opbox.Engine.OutboxLoop

/-!
# Invariants of the outbox loop

Two groups of facts hold along every run of `OutboxLoop`.  `Linked` says how far the engine's view
of the writer link may lag behind the writer.  `LaneInv` ties the engine's flags to the requests
and responses under way.
-/

namespace Opbox

variable {M : Type}

/-! ## The link between engine and writer -/

/-- The records a queue of requests asks to append. -/
def requestedAppends (requests : List (LogWriterRequest M)) : List (OutboxId × M) :=
  requests.filterMap fun
    | .append id m => some (id, m)
    | .reconnect => none

@[simp] theorem requestedAppends_map (sent : List (OutboxId × M)) :
    requestedAppends (sent.map appendRequest) = sent := by
  simp [requestedAppends, appendRequest, List.filterMap_map, Function.comp_def]

@[simp] theorem requestedAppends_append (xs ys : List (LogWriterRequest M)) :
    requestedAppends (xs ++ ys) = requestedAppends xs ++ requestedAppends ys :=
  List.filterMap_append

/-- How the engine's link state and armed timer, the writer, its requests and its events can be
combined. -/
inductive Linked : LinkRuntimeState → Bool → LogWriter M → List (LogWriterRequest M) →
    List LogWriterResponse → Prop
  /-- The writer is connecting and the engine waits for the outcome. -/
  | connecting {armed : Bool} : Linked .reconnecting armed .connecting [] []
  /-- The writer has connected, the engine has not heard of it. -/
  | opened {armed : Bool} : Linked .reconnecting armed (.connected .fresh) [] [.connected]
  /-- Both sides know of the connection. -/
  | online {armed : Bool} {c : WriterConnection M} {requests : List (LogWriterRequest M)}
      {events : List LogWriterResponse} (sent : List (OutboxId × M)) (acks : List OutboxId)
      (hr : requests = sent.map appendRequest) (he : events = acks.map .durable) :
      Linked .online armed (.connected c) requests events
  /-- The connection was lost before the engine heard of it. -/
  | lostUnseen {armed : Bool} : Linked .reconnecting armed .waiting [] [.connected, .disconnected]
  /-- The attempt to connect failed, the engine has not heard of it. -/
  | failed {armed : Bool} : Linked .reconnecting armed .waiting [] [.disconnected]
  /-- The connection was lost, the engine has not heard of it. -/
  | lost {armed : Bool} {requests : List (LogWriterRequest M)} {events : List LogWriterResponse}
      (sent : List (OutboxId × M)) (acks : List OutboxId)
      (hr : requests = sent.map appendRequest) (he : events = acks.map .durable ++ [.disconnected]) :
      Linked .online armed .waiting requests events
  /-- Both sides know of the loss, the retry timer runs. -/
  | offline {requests : List (LogWriterRequest M)} (sent : List (OutboxId × M))
      (hr : requests = sent.map appendRequest) : Linked .offline true .waiting requests []
  /-- The engine has asked the writer to reconnect. -/
  | asked {armed : Bool} {requests : List (LogWriterRequest M)} (sent : List (OutboxId × M))
      (hr : requests = sent.map appendRequest ++ [.reconnect]) :
      Linked .reconnecting armed .waiting requests []
  /-- The writer has panicked. -/
  | panicked {link : LinkRuntimeState} {armed : Bool} {requests : List (LogWriterRequest M)}
      {events : List LogWriterResponse} : Linked link armed .panicked requests events

namespace Linked

variable {link : LinkRuntimeState} {armed : Bool} {w : LogWriter M} {c c' : WriterConnection M}
  {request : LogWriterRequest M} {requests : List (LogWriterRequest M)}
  {events : List LogWriterResponse}

/-- The engine hears of the connection. -/
theorem hear_connected (h : Linked link armed w requests (.connected :: events)) :
    Linked .online armed w requests events := by
  generalize he : LogWriterResponse.connected :: events = evs at h
  cases h with
  | connecting | offline | asked => cases he
  | opened => cases he; exact .online [] [] rfl rfl
  | online sent acks hr hacks => cases acks <;> simp [hacks] at he
  | lostUnseen => cases he; exact .lost [] [] rfl rfl
  | failed => cases he
  | lost sent acks hr hacks => cases acks <;> simp [hacks] at he
  | panicked => exact .panicked

/-- The engine hears of the loss. -/
theorem hear_disconnected (h : Linked link armed w requests (.disconnected :: events)) :
    Linked .offline true w requests events := by
  generalize he : LogWriterResponse.disconnected :: events = evs at h
  cases h with
  | connecting | offline | asked => cases he
  | opened | lostUnseen => cases he
  | online sent acks hr hacks => cases acks <;> simp [hacks] at he
  | failed => cases he; exact .offline [] rfl
  | lost sent acks hr hacks =>
    cases acks with
    | nil =>
      simp only [hacks, List.map_nil, List.nil_append, List.cons.injEq, true_and] at he
      exact he ▸ .offline sent hr
    | cons k acks => simp [hacks] at he
  | panicked => exact .panicked

/-- The engine hears of an acknowledgement. -/
theorem hear_durable {through : OutboxId}
    (h : Linked link armed w requests (.durable through :: events)) :
    Linked link armed w requests events := by
  generalize he : LogWriterResponse.durable through :: events = evs at h
  cases h with
  | connecting | offline | asked => cases he
  | opened | lostUnseen | failed => cases he
  | online sent acks hr hacks =>
    cases acks with
    | nil => simp [hacks] at he
    | cons k acks =>
      simp only [hacks, List.map_cons, List.cons.injEq] at he
      exact .online sent acks hr he.2
  | lost sent acks hr hacks =>
    cases acks with
    | nil => simp [hacks] at he
    | cons k acks =>
      simp only [hacks, List.map_cons, List.cons_append, List.cons.injEq] at he
      exact .lost sent acks hr he.2
  | panicked => exact .panicked

/-- The engine sends appends to an online writer. -/
theorem send (new : List (OutboxId × M)) (h : Linked .online armed w requests events) :
    Linked .online armed w (requests ++ new.map appendRequest) events := by
  cases h with
  | online sent acks hr he => exact .online (sent ++ new) acks (by simp [hr]) he
  | lost sent acks hr he => exact .lost (sent ++ new) acks (by simp [hr]) he
  | panicked => exact .panicked

/-- The retry timer fires on an offline link. -/
theorem fire_offline (h : Linked .offline armed w requests events) :
    Linked .reconnecting false w (requests ++ [.reconnect]) events := by
  cases h with
  | offline sent hr => exact .asked sent (by simp [hr])
  | panicked => exact .panicked

/-- The retry timer fires on any other link. -/
theorem fire_other (hlink : link ≠ .offline) (h : Linked link armed w requests events) :
    Linked link false w requests events := by
  cases h with
  | connecting => exact .connecting
  | opened => exact .opened
  | online sent acks hr he => exact .online sent acks hr he
  | lostUnseen => exact .lostUnseen
  | failed => exact .failed
  | lost sent acks hr he => exact .lost sent acks hr he
  | offline => exact absurd rfl hlink
  | asked sent hr => exact .asked sent hr
  | panicked => exact .panicked

/-- The writer opens its session. -/
theorem connect (h : Linked (M := M) link armed .connecting requests events) :
    Linked (M := M) link armed (.connected .fresh) requests (events ++ [.connected]) := by
  cases h
  exact .opened

/-- The writer fails to connect or loses its connection. -/
theorem lose (hw : w = .connecting ∨ ∃ c, w = .connected c)
    (h : Linked link armed w requests events) :
    Linked link armed .waiting requests (events ++ [.disconnected]) := by
  cases h with
  | connecting => exact .failed
  | opened => exact .lostUnseen
  | online sent acks hr he => exact .lost sent acks hr (by rw [he])
  | panicked => simp at hw
  | lostUnseen | failed | lost | offline | asked => simp at hw

/-- A connected writer takes a request. -/
theorem accept (h : Linked link armed (.connected c) (request :: requests) events) :
    Linked link armed (.connected c') requests events := by
  generalize hq : request :: requests = reqs at h
  cases h with
  | opened => cases hq
  | online sent acks hr he =>
    cases sent with
    | nil => simp [hr] at hq
    | cons e sent =>
      simp only [hr, List.map_cons, List.cons.injEq] at hq
      exact .online sent acks hq.2 he

/-- The connection changes while the engine knows of it. -/
theorem change (hc : c ≠ .fresh) (h : Linked link armed (.connected c) requests events)
    (new : List OutboxId) :
    Linked link armed (.connected c') requests (events ++ new.map .durable) := by
  generalize hcc : c = d at h
  cases h with
  | opened => exact absurd hcc hc
  | online sent acks hr he => exact .online sent (acks ++ new) hr (by simp [he])

/-- A waiting writer takes a reconnect request. -/
theorem reconnect (h : Linked link armed .waiting (.reconnect :: requests) events) :
    Linked (M := M) link armed .connecting requests events := by
  generalize hq : LogWriterRequest.reconnect :: requests = reqs at h
  cases h with
  | lostUnseen | failed => cases hq
  | lost sent acks hr he => cases sent <;> simp [hr, appendRequest] at hq
  | offline sent hr => cases sent <;> simp [hr, appendRequest] at hq
  | asked sent hr =>
    cases sent with
    | nil =>
      simp only [hr, List.map_nil, List.nil_append, List.cons.injEq, true_and] at hq
      exact hq ▸ .connecting
    | cons e sent => simp [hr, appendRequest] at hq

/-- A waiting writer discards an append. -/
theorem discard {e : OutboxId × M}
    (h : Linked link armed .waiting (appendRequest e :: requests) events) :
    Linked link armed .waiting requests events := by
  generalize hq : appendRequest e :: requests = reqs at h
  cases h with
  | lostUnseen | failed => cases hq
  | lost sent acks hr he =>
    cases sent with
    | nil => simp [hr] at hq
    | cons e' sent =>
      simp only [hr, List.map_cons, List.cons.injEq] at hq
      exact .lost sent acks hq.2 he
  | offline sent hr =>
    cases sent with
    | nil => simp [hr] at hq
    | cons e' sent =>
      simp only [hr, List.map_cons, List.cons.injEq] at hq
      exact .offline sent hq.2
  | asked sent hr =>
    cases sent with
    | nil => simp [hr, appendRequest] at hq
    | cons e' sent =>
      simp only [hr, List.map_cons, List.cons_append, List.cons.injEq] at hq
      exact .asked sent hq.2

end Linked

namespace OutboxLoop

open OutboxControl

variable {inlined : M → Bool} {s s' : OutboxLoop M} {a : OutboxAction M}

/-- The link invariant of a state. -/
def LinkInv (s : OutboxLoop M) : Prop :=
  Linked s.control.writer s.control.writerReconnectArmed s.writer s.writerRequests s.writerEvents

theorem linkInv_start (outbox : Outbox M) (durable : List (OutboxId × M)) :
    (start outbox durable).LinkInv := .connecting

/-- An engine handler that only talks to the semantic actor keeps the link invariant. -/
theorem LinkInv.emit {r : OutboxEffect M} (h : s.LinkInv) (hr : s.control.KeepsLink r)
    (hw : s'.writer = s.writer) (hq : s'.writerRequests = s.writerRequests)
    (he : s'.writerEvents = s.writerEvents) : (s'.emit r).LinkInv := by
  rw [LinkInv, OutboxLoop.emit, hr.writer, hr.link, hr.armed, hw, hq, he, List.append_nil]
  exact h

/-- Every turn keeps the link invariant. -/
theorem LinkInv.turn (h : s.LinkInv) (ht : Turn inlined s a s') : s'.LinkInv := by
  cases ht with
  | @writerEvent event events hrun he =>
    rw [LinkInv, he] at h
    cases event with
    | connected =>
      simpa [LinkInv, OutboxLoop.emit, onWriterEvent] using h.hear_connected
    | disconnected =>
      simpa [LinkInv, OutboxLoop.emit, onWriterEvent, markWriterDisconnected, requestOutboxRelease]
        using h.hear_disconnected
    | durable through =>
      simpa [LinkInv, OutboxLoop.emit, onWriterEvent] using h.hear_durable
  | @readReply messages replies r hrun he hr =>
    obtain ⟨hw, hl, ha⟩ := onReadOutbox_link _ hr
    rw [LinkInv] at h ⊢
    simp only [OutboxLoop.emit, hw, hl, ha]
    by_cases hon : s.control.writer = .online
    · rw [hon] at h ⊢
      rw [if_pos rfl]
      exact h.send messages
    · rwa [if_neg hon, List.append_nil]
  | releaseReply hrun he hr => exact h.emit (onReleaseOutbox_keepsLink _ hr) rfl rfl rfl
  | engineStops => exact h
  | readyEvent hrun he => exact h.emit (onOutboxReady_keepsLink _ _) rfl rfl rfl
  | writerReconnect hrun harmed =>
    rw [LinkInv] at h ⊢
    simp only [OutboxLoop.emit, onWriterReconnect]
    split_ifs with hoff
    · rw [hoff] at h
      exact h.fire_offline
    · rw [List.append_nil]
      exact h.fire_other hoff
  | serveRead hlane hres => exact h
  | serveReadFails hlane => exact h
  | serveRelease hlane => exact h
  | serveTrim hlane => exact h
  | mutate hpush => exact h
  | connect hw =>
    rw [LinkInv, hw] at h
    exact h.connect
  | writerLost hw => exact h.lose hw
  | accept hw hreq hbig hc =>
    rw [LinkInv, hw, hreq] at h
    exact h.accept
  | writerPanics => exact .panicked
  | reconnect hw hreq =>
    rw [LinkInv, hw, hreq] at h
    exact h.reconnect
  | @discard outboxId sharedMessage requests hw hreq =>
    rw [LinkInv, hw, hreq] at h
    have hd := Linked.discard (e := (outboxId, sharedMessage)) h
    rwa [← hw] at hd
  | @uploaded c pointer hw hbig =>
    rw [LinkInv, hw] at h
    have hc : c ≠ .fresh := fun hf => by simp [hf, WriterConnection.fresh] at hbig
    simpa [LinkInv] using h.change hc []
  | @acknowledge c record records hw hp =>
    rw [LinkInv, hw] at h
    have hc : c ≠ .fresh := fun hf => by simp [hf, WriterConnection.fresh] at hp
    exact h.change hc [record.1]
  | restart => exact linkInv_start _ _

end OutboxLoop

/-! ## The requests under way -/

/-- The request is a `read_outbox`. -/
def OutboxRequest.isRead : OutboxRequest → Bool
  | .readOutbox _ => true
  | _ => false

/-- The engine's flags count the requests and responses under way, a read is never queued behind a
release, and a read that a release overtakes in the engine is marked as stale. -/
structure LaneInv (e : OutboxControl) (lane : List OutboxRequest) (reads releases : Nat)
    (stale : Bool) : Prop where
  /-- One read is under way exactly when the flag says so. -/
  reads : lane.countP OutboxRequest.isRead + reads = e.outboxReadInFlight.toNat
  /-- One release is under way exactly when the flag says so. -/
  releases : lane.count .releaseOutbox + releases = e.outboxReleaseInFlight.toNat
  /-- No read is queued behind a release. -/
  order : lane.Pairwise fun x y => x = .releaseOutbox → y.isRead = false
  /-- Only a read under way can be stale. -/
  stale_inFlight : stale = true → e.outboxReadInFlight = true
  /-- A read under way during a release is stale. -/
  stale_of_release : e.outboxReleaseInFlight = true ∨ e.outboxReleaseRequested = true →
    e.outboxReadInFlight = true → stale = true

namespace LaneInv

open OutboxControl

variable {e : OutboxControl} {lane : List OutboxRequest} {reads releases : Nat} {stale : Bool}

/-- No release is queued while none is in flight. -/
theorem release_not_mem (h : LaneInv e lane reads releases stale)
    (hr : e.outboxReleaseInFlight = false ∨ 0 < releases) : .releaseOutbox ∉ lane := by
  have hcount := h.releases
  have hle := Bool.toNat_le e.outboxReleaseInFlight
  refine List.count_eq_zero.mp ?_
  rcases hr with hr | hr
  · rw [hr, Bool.toNat_false] at hcount
    omega
  · omega

/-- No read is under way while none is in flight. -/
theorem reads_eq_zero (h : LaneInv e lane reads releases stale)
    (hr : e.outboxReadInFlight = false) : reads = 0 := by
  have hcount := h.reads
  rw [hr, Bool.toNat_false] at hcount
  omega

/-- `maybe_start_outbox_read`. -/
theorem startRead (h : LaneInv e lane reads releases stale) :
    LaneInv (e.maybeStartOutboxRead : OutboxEffect M).control
      (lane ++ (e.maybeStartOutboxRead : OutboxEffect M).semantic) reads releases stale := by
  unfold maybeStartOutboxRead
  split_ifs with hstart
  · simp only [canStartOutboxRead, Bool.and_eq_true, Bool.not_eq_true', decide_eq_true_eq] at hstart
    obtain ⟨⟨⟨⟨hreq, hread⟩, hrel⟩, hrelReq⟩, hon⟩ := hstart
    have hno := h.release_not_mem (.inl hrel)
    refine ⟨?_, ?_, ?_, fun _ => rfl, ?_⟩
    · have := h.reads
      rw [hread, Bool.toNat_false] at this
      simp only [List.countP_append, List.countP_singleton, OutboxRequest.isRead, if_true,
        Bool.toNat_true]
      omega
    · simpa using h.releases
    · refine List.pairwise_append.mpr ⟨h.order, List.pairwise_singleton _ _, ?_⟩
      rintro x hx y - rfl
      exact absurd hx hno
    · simp [hrel, hrelReq]
  · simpa using h

/-- `maybe_start_outbox_release`. -/
theorem startRelease (h : LaneInv e lane reads releases stale) :
    LaneInv (e.maybeStartOutboxRelease : OutboxEffect M).control
      (lane ++ (e.maybeStartOutboxRelease : OutboxEffect M).semantic) reads releases stale := by
  unfold maybeStartOutboxRelease
  split_ifs with hstart
  · simp only [Bool.and_eq_true, Bool.not_eq_true'] at hstart
    obtain ⟨hreq, hrel⟩ := hstart
    refine ⟨?_, ?_, ?_, h.stale_inFlight, fun _ => h.stale_of_release (.inr hreq)⟩
    · simpa [OutboxRequest.isRead] using h.reads
    · have := h.releases
      rw [hrel, Bool.toNat_false] at this
      simp only [List.count_append, List.count_singleton_self, Bool.toNat_true]
      omega
    · refine List.pairwise_append.mpr ⟨h.order, List.pairwise_singleton _ _, ?_⟩
      rintro x - y hy -
      rw [List.mem_singleton.mp hy]
      rfl
  · simpa using h

/-- `request_outbox_release` by an engine whose outstanding read, if any, is marked as stale. -/
theorem requestRelease (h : LaneInv e lane reads releases stale)
    (hstale : e.outboxReadInFlight = true → stale = true) :
    LaneInv (e.requestOutboxRelease : OutboxEffect M).control
      (lane ++ (e.requestOutboxRelease : OutboxEffect M).semantic) reads releases stale :=
  startRelease (e := { e with outboxReleaseRequested := true })
    ⟨h.reads, h.releases, h.order, h.stale_inFlight, fun _ => hstale⟩

/-- A trim is queued. -/
theorem trim (h : LaneInv e lane reads releases stale) (through : OutboxId) :
    LaneInv e (lane ++ [.trimOutbox through]) reads releases stale where
  reads := by simpa [OutboxRequest.isRead] using h.reads
  releases := by simpa using h.releases
  order := by
    refine List.pairwise_append.mpr ⟨h.order, List.pairwise_singleton _ _, ?_⟩
    rintro x - y hy -
    rw [List.mem_singleton.mp hy]
    rfl
  stale_inFlight := h.stale_inFlight
  stale_of_release := h.stale_of_release

/-- The outstanding read has been answered. -/
theorem answerRead (h : LaneInv e lane (reads + 1) releases stale) {q : Bool} :
    LaneInv { e with outboxReadInFlight := false, outboxReadRequested := q }
      lane reads releases false where
  reads := by
    have := h.reads
    have := Bool.toNat_le e.outboxReadInFlight
    simp only [Bool.toNat_false]
    omega
  releases := h.releases
  order := h.order
  stale_inFlight := by simp
  stale_of_release := by simp

/-- The outstanding release has been answered. -/
theorem answerRelease (h : LaneInv e lane reads (releases + 1) stale) :
    LaneInv { e with outboxReleaseInFlight := false } lane reads releases stale where
  reads := h.reads
  releases := by
    have := h.releases
    have := Bool.toNat_le e.outboxReleaseInFlight
    simp only [Bool.toNat_false]
    omega
  order := h.order
  stale_inFlight := h.stale_inFlight
  stale_of_release := fun hr hread => by
    rcases hr with hr | hr
    · exact absurd hr Bool.false_ne_true
    · exact h.stale_of_release (.inr hr) hread

/-- Fields the invariant does not look at may change. -/
theorem congr {f : OutboxControl} (h : LaneInv e lane reads releases stale)
    (h1 : f.outboxReadInFlight = e.outboxReadInFlight)
    (h2 : f.outboxReleaseInFlight = e.outboxReleaseInFlight)
    (h3 : f.outboxReleaseRequested = e.outboxReleaseRequested) :
    LaneInv f lane reads releases stale :=
  ⟨h1 ▸ h.reads, h2 ▸ h.releases, h.order, h1 ▸ h.stale_inFlight,
    h1 ▸ h2 ▸ h3 ▸ h.stale_of_release⟩

end LaneInv

namespace OutboxLoop

open OutboxControl

variable {inlined : M → Bool} {s s' : OutboxLoop M} {a : OutboxAction M}

/-- The lane invariant of a state. -/
def LaneOk (s : OutboxLoop M) : Prop :=
  LaneInv s.control s.lane s.readReplies.length s.releaseReplies.length s.staleRead

theorem laneOk_start (outbox : Outbox M) (durable : List (OutboxId × M)) :
    (start outbox durable).LaneOk :=
  ⟨rfl, rfl, List.Pairwise.nil, fun h => absurd h Bool.false_ne_true,
    fun _ h => absurd h Bool.false_ne_true⟩

/-- Every turn keeps the lane invariant. -/
theorem LaneOk.turn (h : s.LaneOk) (ht : Turn inlined s a s') : s'.LaneOk := by
  unfold LaneOk at h ⊢
  cases ht with
  | @writerEvent event events hrun he =>
    cases event with
    | connected => exact (h.congr (f := { s.control with writer := .online }) rfl rfl rfl).startRead
    | disconnected =>
      have hmarked : LaneInv { s.control with
          writer := .offline, writerReconnectArmed := true, outboxReadRequested := true }
          s.lane s.readReplies.length s.releaseReplies.length s.control.outboxReadInFlight :=
        ⟨h.reads, h.releases, h.order, id, fun _ => id⟩
      exact hmarked.requestRelease id
    | durable through => exact h.trim through
  | @readReply messages replies r hrun he hr =>
    rw [he, List.length_cons] at h
    obtain ⟨-, ⟨hon, rfl⟩ | ⟨hon, -, rfl⟩ | ⟨hon, -, rfl⟩⟩ := onReadOutbox_eq _ hr
    · simpa [OutboxLoop.emit, andThen] using h.answerRead.startRead (M := M)
    · have hrel := (h.answerRead (q := s.control.outboxReadRequested)).requestRelease
        (M := M) (fun hf => absurd hf Bool.false_ne_true)
      have hread := (hrel.congr (f := { (requestOutboxRelease
        { s.control with outboxReadInFlight := false } : OutboxEffect M).control with
          outboxReadRequested := true }) rfl rfl rfl).startRead (M := M)
      simpa [OutboxLoop.emit, andThen] using hread
    · simpa [OutboxLoop.emit, andThen] using
        (h.answerRead (q := s.control.outboxReadRequested)).startRead (M := M)
  | @releaseReply released replies r hrun he hr =>
    rw [he, List.length_cons] at h
    unfold onReleaseOutbox at hr
    split_ifs at hr
    cases hr
    simpa [OutboxLoop.emit, andThen] using (h.answerRelease.startRelease (M := M)).startRead (M := M)
  | engineStops => exact h
  | @readyEvent numMessages events hrun he =>
    simp only [OutboxLoop.emit, onOutboxReady]
    split_ifs
    · exact (h.congr (f := { s.control with outboxReadRequested := true }) rfl rfl rfl).startRead
    · simpa using h
  | writerReconnect hrun harmed =>
    simp only [OutboxLoop.emit, onWriterReconnect]
    split_ifs <;> rw [List.append_nil] <;> exact h.congr rfl rfl rfl
  | @serveRead numMessages requests outbox messages hlane hres =>
    rw [hlane] at h
    have hreads := h.reads
    rw [List.countP_cons, OutboxRequest.isRead] at hreads
    refine ⟨?_, ?_, (List.pairwise_cons.mp h.order).2, h.stale_inFlight, h.stale_of_release⟩
    · simp only [List.length_append, List.length_singleton]
      simp only [if_true] at hreads
      omega
    · simpa using h.releases
  | @serveReadFails numMessages requests e hlane =>
    rw [hlane] at h
    have hreads := h.reads
    rw [List.countP_cons, OutboxRequest.isRead] at hreads
    refine ⟨?_, ?_, (List.pairwise_cons.mp h.order).2, h.stale_inFlight, h.stale_of_release⟩
    · simp only [List.length_append, List.length_singleton]
      simp only [if_true] at hreads
      omega
    · simpa using h.releases
  | @serveRelease requests hlane =>
    rw [hlane] at h
    have hreleases := h.releases
    rw [List.count_cons_self] at hreleases
    refine ⟨?_, ?_, (List.pairwise_cons.mp h.order).2, h.stale_inFlight, h.stale_of_release⟩
    · simpa [OutboxRequest.isRead] using h.reads
    · simp only [List.length_append, List.length_singleton]
      omega
  | serveTrim hlane =>
    rw [hlane] at h
    refine ⟨?_, ?_, (List.pairwise_cons.mp h.order).2, h.stale_inFlight, h.stale_of_release⟩
    · simpa [OutboxRequest.isRead] using h.reads
    · simpa using h.releases
  | mutate | connect | writerLost | accept | writerPanics | reconnect | discard | uploaded
  | acknowledge => exact h
  | restart => exact laneOk_start _ _

end OutboxLoop

end Opbox
