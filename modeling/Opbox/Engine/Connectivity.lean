import Opbox.Engine.OutboxInvariant
import Opbox.Engine.ReaderSafety

/-!
# A lost link is always being retried

Each link is held by the engine, by its actor and by the two queues between them.  The invariants
`Linked` and `ReaderLinked` say how these can be combined; with the retry timers they show, for
every run of the engine together with both actors, that a link the engine holds as offline has its
timer, and that a link it holds as reconnecting has its reconnect under way.
-/

namespace Opbox

variable {M : Type} {size : M → Nat} {inlined : M → Bool}

/-! ## The writer link -/

/-- The request asks for a new connection. -/
def LogWriterRequest.isReconnect : LogWriterRequest M → Bool
  | .reconnect => true
  | .append _ _ => false

theorem countP_isReconnect_map (sent : List (OutboxId × M)) :
    (sent.map appendRequest).countP LogWriterRequest.isReconnect = 0 := by
  rw [List.countP_eq_zero]
  intro request hrequest
  obtain ⟨e, -, rfl⟩ := List.mem_map.mp hrequest
  exact Bool.false_ne_true

namespace OutboxLoop

open OutboxControl

variable {s s' : OutboxLoop M} {a : OutboxAction M}

/-- A writer that has panicked is taken for online, and only acknowledgements and appends are
queued. -/
def PanickedOnline (s : OutboxLoop M) : Prop :=
  s.writer = .panicked → s.control.writer = .online ∧
    (∃ acks : List OutboxId, s.writerEvents = acks.map .durable) ∧
    ∃ sent : List (OutboxId × M), s.writerRequests = sent.map appendRequest

/-- A handler that only talks to the semantic actor. -/
theorem PanickedOnline.emit {r : OutboxEffect M} (h : s.PanickedOnline) (hr : s.control.KeepsLink r)
    (hw : s'.writer = s.writer) (hq : s'.writerRequests = s.writerRequests)
    (he : s'.writerEvents = s.writerEvents) : (s'.emit r).PanickedOnline := by
  intro hpanicked
  obtain ⟨hlink, hevents, hrequests⟩ := h (hw ▸ hpanicked)
  refine ⟨hr.link.trans hlink, he ▸ hevents, ?_⟩
  show ∃ sent : List (OutboxId × M), s'.writerRequests ++ r.writer = sent.map appendRequest
  rw [hr.writer, List.append_nil, hq]
  exact hrequests

/-- Every turn keeps a panicked writer online. -/
theorem PanickedOnline.turn (h : s.PanickedOnline) (hlink : s.LinkInv) (ht : Turn inlined s a s') :
    s'.PanickedOnline := by
  cases ht with
  | @writerEvent event events hrun he =>
    intro hpanicked
    obtain ⟨honline, ⟨acks, hacks⟩, hrequests⟩ := h hpanicked
    rw [he] at hacks
    cases acks with
    | nil => cases hacks
    | cons k acks =>
      rw [List.map_cons, List.cons.injEq] at hacks
      obtain ⟨rfl, rfl⟩ := hacks
      refine ⟨honline, ⟨acks, rfl⟩, ?_⟩
      show ∃ sent : List (OutboxId × M), s.writerRequests ++ [] = sent.map appendRequest
      rw [List.append_nil]
      exact hrequests
  | @readReply messages replies r hrun he hr =>
    intro hpanicked
    obtain ⟨honline, hevents, sent, hsent⟩ := h hpanicked
    obtain ⟨hw, hl, -⟩ := onReadOutbox_link _ hr
    rw [if_pos honline] at hw
    refine ⟨hl.trans honline, hevents, sent ++ messages, ?_⟩
    show s.writerRequests ++ r.writer = _
    rw [hw, hsent, List.map_append]
  | releaseReply hrun he hr => exact h.emit (onReleaseOutbox_keepsLink _ hr) rfl rfl rfl
  | engineStops => exact h
  | readyEvent hrun he => exact h.emit (onOutboxReady_keepsLink _ _) rfl rfl rfl
  | writerReconnect hrun harmed =>
    intro hpanicked
    obtain ⟨honline, hevents, hrequests⟩ := h hpanicked
    have hnot : ¬s.control.writer = .offline := by
      rw [honline]
      rintro ⟨⟩
    simp only [OutboxLoop.emit, onWriterReconnect, if_neg hnot, List.append_nil]
    exact ⟨honline, hevents, hrequests⟩
  | serveRead | serveReadFails | serveRelease | serveTrim | mutate => exact h
  | connect | writerLost | accept | reconnect | uploaded | acknowledge | restart => rintro ⟨⟩
  | discard hw hreq =>
    intro hpanicked
    cases hw.symm.trans hpanicked
  | writerPanics hw hreq hbig hc =>
    intro _
    rw [LinkInv, hw, hreq] at hlink
    generalize hq : _ :: _ = reqs at hlink
    generalize s.control.writerReconnectArmed = armed at hlink
    generalize s.control.writer = link at hlink
    generalize s.writerEvents = events at hlink
    cases hlink with
    | opened => cases hq
    | online sent acks hsent hacks =>
      refine ⟨rfl, ⟨acks, hacks⟩, ?_⟩
      cases sent with
      | nil => rw [hsent] at hq; cases hq
      | cons e sent =>
        rw [hsent, List.map_cons, List.cons.injEq] at hq
        exact ⟨sent, hq.2⟩

theorem linkInv_of_reached (h : (machine inlined).Reached s) : s.LinkInv ∧ s.PanickedOnline := by
  refine h.invariant (I := fun s => s.LinkInv ∧ s.PanickedOnline) ?_ ?_
  · rintro s rfl
    exact ⟨linkInv_start _ _, nofun⟩
  · intro s a s' _ hs _ hstep
    have ht := turn_of_step hstep
    exact ⟨hs.1.turn ht, hs.2.turn hs.1 ht⟩

/-- A lost writer link is being retried, by one connection. -/
structure WriterRetried (s : OutboxLoop M) : Prop where
  /-- An offline link has its timer. -/
  offline : s.control.writer = .offline → s.control.writerReconnectArmed = true
  /-- A reconnecting link has a request the waiting actor will take, or the actor connects, or its
  event is queued. -/
  reconnecting : s.control.writer = .reconnecting →
    (s.writer = .waiting ∧ .reconnect ∈ s.writerRequests) ∨ s.writer = .connecting ∨
      .connected ∈ s.writerEvents ∨ .disconnected ∈ s.writerEvents
  /-- Only a waiting actor finds a reconnect request. -/
  consumed : s.writer ≠ .waiting → .reconnect ∉ s.writerRequests
  /-- It finds one. -/
  single : s.writerRequests.countP LogWriterRequest.isReconnect ≤ 1

theorem writerRetried (hlink : s.LinkInv) (hpanicked : s.PanickedOnline) : s.WriterRetried := by
  have hnone : ∀ sent : List (OutboxId × M), .reconnect ∉ sent.map appendRequest := by
    intro sent hmem
    obtain ⟨e, -, he⟩ := List.mem_map.mp hmem
    cases he
  by_cases hw : s.writer = .panicked
  · obtain ⟨honline, -, sent, hsent⟩ := hpanicked hw
    refine ⟨fun h => ?_, fun h => ?_, fun _ => hsent ▸ hnone sent, ?_⟩
    · cases honline.symm.trans h
    · cases honline.symm.trans h
    · rw [hsent, countP_isReconnect_map]
      exact Nat.zero_le 1
  have hquiet : ∀ sent : List (OutboxId × M), s.writerRequests = sent.map appendRequest →
      (s.writer ≠ .waiting → .reconnect ∉ s.writerRequests) ∧
        s.writerRequests.countP LogWriterRequest.isReconnect ≤ 1 := by
    intro sent hsent
    rw [hsent, countP_isReconnect_map]
    exact ⟨fun _ => hnone sent, Nat.zero_le 1⟩
  unfold LinkInv at hlink
  generalize hl : s.control.writer = link at hlink
  generalize ha : s.control.writerReconnectArmed = armed at hlink
  generalize hsw : s.writer = w at hlink hw
  generalize hq : s.writerRequests = requests at hlink
  generalize he : s.writerEvents = events at hlink
  cases hlink with
  | connecting =>
    obtain ⟨hconsumed, hsingle⟩ := hquiet [] hq
    exact ⟨fun h => absurd (hl.symm.trans h) nofun, fun _ => .inr (.inl hsw), hconsumed, hsingle⟩
  | opened =>
    obtain ⟨hconsumed, hsingle⟩ := hquiet [] hq
    refine ⟨fun h => absurd (hl.symm.trans h) nofun, fun _ => .inr (.inr (.inl ?_)), hconsumed,
      hsingle⟩
    exact he ▸ List.mem_cons_self
  | online sent acks hsent hacks =>
    obtain ⟨hconsumed, hsingle⟩ := hquiet sent (hq.trans hsent)
    exact ⟨fun h => absurd (hl.symm.trans h) nofun, fun h => absurd (hl.symm.trans h) nofun,
      hconsumed, hsingle⟩
  | lostUnseen =>
    obtain ⟨hconsumed, hsingle⟩ := hquiet [] hq
    refine ⟨fun h => absurd (hl.symm.trans h) nofun, fun _ => .inr (.inr (.inl ?_)), hconsumed,
      hsingle⟩
    exact he ▸ List.mem_cons_self
  | failed =>
    obtain ⟨hconsumed, hsingle⟩ := hquiet [] hq
    refine ⟨fun h => absurd (hl.symm.trans h) nofun, fun _ => .inr (.inr (.inr ?_)), hconsumed,
      hsingle⟩
    exact he ▸ List.mem_cons_self
  | lost sent acks hsent hacks =>
    obtain ⟨hconsumed, hsingle⟩ := hquiet sent (hq.trans hsent)
    exact ⟨fun h => absurd (hl.symm.trans h) nofun, fun h => absurd (hl.symm.trans h) nofun,
      hconsumed, hsingle⟩
  | offline sent hsent =>
    obtain ⟨hconsumed, hsingle⟩ := hquiet sent (hq.trans hsent)
    exact ⟨fun _ => ha, fun h => absurd (hl.symm.trans h) nofun, hconsumed, hsingle⟩
  | asked sent hsent =>
    refine ⟨fun h => absurd (hl.symm.trans h) nofun, fun _ => .inl ⟨hsw, ?_⟩,
      fun h => absurd hsw h, ?_⟩
    · rw [hq, hsent]
      exact List.mem_append_right _ (List.mem_singleton_self _)
    · rw [hq, hsent, List.countP_append, countP_isReconnect_map]
      exact le_rfl
  | panicked => exact absurd rfl hw

end OutboxLoop

/-! ## The reader link -/

namespace ReaderLoop

open ReaderControl

variable {s s' : ReaderLoop M size} {a : ReaderAction M}

/-- The reader link with its retry timer and its cursor read. -/
structure LinkInv (s : ReaderLoop M size) : Prop where
  /-- How the link state, the actor and the queues can be combined. -/
  linked : ReaderLinked s.control.reader s.control.readerReconnectCursorInFlight s.reader
    s.readerRequests s.readerEvents
  /-- The engine knows whether a cursor read is under way. -/
  cursors : s.stopped = none → laneCursorReads s.lane + s.cursorReplies.length =
    s.control.readerReconnectCursorInFlight.toNat
  /-- An offline link has its timer. -/
  armed : s.control.reader = .offline → s.control.readerReconnectArmed = true

theorem linkInv_start {cursor : SequenceNumber} {applied : List (SharedMessageEnvelope M)}
    {log : List (LogRecord M)} : (start cursor applied log : ReaderLoop M size).LinkInv :=
  ⟨.connecting cursor, fun _ => rfl, nofun⟩

/-- Every turn keeps the reader link. -/
theorem LinkInv.turn (h : s.LinkInv) (ht : Turn s a s') : s'.LinkInv := by
  have hlinked := linked_turn h.linked ht
  have hcursors := h.cursors
  cases ht with
  | @readerEvent now event events hrun he =>
    cases event with
    | connected => exact ⟨hlinked, hcursors, by rintro ⟨⟩⟩
    | disconnected => exact ⟨hlinked, hcursors, fun _ => rfl⟩
    | read envelope =>
      simp only [onReaderEvent] at hlinked ⊢
      split_ifs at hlinked ⊢ <;> exact ⟨hlinked, hcursors, h.armed⟩
  | @applyReply now result replies control hrun he hr =>
    unfold onApplySharedMessageBatch at hr
    split at hr
    · cases hr
    · cases hr
    · simp only at hr
      split_ifs at hr <;> (cases hr; exact ⟨hlinked, hcursors, h.armed⟩)
  | applyStops => exact ⟨hlinked, by rintro ⟨⟩, h.armed⟩
  | @cursorReply result replies control requests hrun he hr =>
    have hcount := hcursors hrun
    unfold onReadStableCursor at hr
    split_ifs at hr with hasks
    rw [he, List.length_cons, hasks, Bool.toNat_true] at hcount
    cases result with
    | error e => cases hr
    | ok cursor =>
      simp only at hr
      split_ifs at hr <;>
      · cases hr
        refine ⟨hlinked, fun _ => ?_, h.armed⟩
        show laneCursorReads s.lane + replies.length = 0
        omega
  | cursorStops => exact ⟨hlinked, by rintro ⟨⟩, h.armed⟩
  | drain hrun harmed hr =>
    unfold onDrain at hr
    simp only at hr
    split_ifs at hr
    · split at hr
      · cases hr
      · cases hr
        exact ⟨hlinked, fun hrun => by simpa using hcursors hrun, h.armed⟩
    · cases hr
      exact ⟨hlinked, fun hrun => by simpa using hcursors hrun, h.armed⟩
  | drainStops => exact ⟨hlinked, by rintro ⟨⟩, h.armed⟩
  | readerReconnect hrun harmed =>
    have hl := h.linked
    unfold onReaderReconnect at hlinked ⊢
    split_ifs at hlinked ⊢ with hoff
    · refine ⟨hlinked, fun hrun => ?_, by rintro ⟨⟩⟩
      have hcount := hcursors hrun
      rw [hoff.2, Bool.toNat_false] at hcount
      simp only [laneCursorReads_append, laneCursorReads_cursor, laneCursorReads_nil,
        Bool.toNat_true]
      omega
    · refine ⟨hlinked, fun hrun => by simpa using hcursors hrun, fun hlink => ?_⟩
      -- an offline link has no cursor read under way
      have hlink' : s.control.reader = .offline := hlink
      rw [hlink'] at hl
      exact absurd ⟨hlink', hl.of_offline.1⟩ hoff
  | @serve request requests hlane =>
    rw [hlane] at hcursors
    cases request with
    | applySharedMessageBatch batch =>
      simp only [serveRequest] at hlinked ⊢
      split_ifs at hlinked ⊢ <;> exact ⟨hlinked, hcursors, h.armed⟩
    | readStableCursor =>
      refine ⟨hlinked, fun hrun => ?_, h.armed⟩
      have hcount := hcursors hrun
      rw [laneCursorReads_cursor] at hcount
      simp only [serveRequest, List.length_append, List.length_singleton]
      omega
  | @serveFails e request requests hlane =>
    rw [hlane] at hcursors
    cases request with
    | applySharedMessageBatch batch => exact ⟨hlinked, hcursors, h.armed⟩
    | readStableCursor =>
      refine ⟨hlinked, fun hrun => ?_, h.armed⟩
      have hcount := hcursors hrun
      rw [laneCursorReads_cursor] at hcount
      simp only [failRequest, List.length_append, List.length_singleton]
      omega
  | connect | deliver | disconnect | reconnect | ignore | append =>
    exact ⟨hlinked, hcursors, h.armed⟩
  | restart => exact linkInv_start

theorem linkInv_of_reached (h : (machine size).Reached s) : s.LinkInv := by
  refine h.invariant ?_ fun s a s' _ hs _ hstep => hs.turn (turn_of_step hstep)
  rintro s ⟨log, cursor, -, rfl⟩
  exact linkInv_start

/-- A lost reader link is being retried, by one connection. -/
structure ReaderRetried (s : ReaderLoop M size) : Prop where
  /-- An offline link has its timer. -/
  offline : s.control.reader = .offline → s.control.readerReconnectArmed = true
  /-- A reconnecting link has its cursor read in flight, or a request the waiting actor will take,
  or the actor connects, or its event is queued. -/
  reconnecting : s.control.reader = .reconnecting →
    0 < laneCursorReads s.lane + s.cursorReplies.length ∨
      (s.reader = .waiting ∧ ∃ startAt, .reconnect startAt ∈ s.readerRequests) ∨
      (∃ startAt, s.reader = .connecting startAt) ∨
      .connected ∈ s.readerEvents ∨ .disconnected ∈ s.readerEvents
  /-- Only a waiting actor finds a reconnect request. -/
  consumed : s.reader ≠ .waiting → s.readerRequests = []
  /-- It finds one. -/
  single : s.readerRequests.length ≤ 1

theorem LinkInv.readerRetried (h : s.LinkInv) (hrun : s.stopped = none) : s.ReaderRetried := by
  have hcount := h.cursors hrun
  have hl := h.linked
  refine ⟨h.armed, fun hlink => ?_, fun hw => hl.requests_eq_nil hw, ?_⟩
  · rw [hlink] at hl
    generalize ha : s.control.readerReconnectCursorInFlight = asks at hl
    generalize hr : s.reader = reader at hl
    generalize hq : s.readerRequests = requests at hl
    generalize he : s.readerEvents = events at hl
    cases hl with
    | connecting startAt => exact .inr (.inr (.inl ⟨startAt, rfl⟩))
    | opened next reads hevents =>
      rw [hevents]
      exact .inr (.inr (.inr (.inl List.mem_cons_self)))
    | lostUnseen reads hevents =>
      rw [hevents]
      exact .inr (.inr (.inr (.inl List.mem_cons_self)))
    | failed => exact .inr (.inr (.inr (.inr List.mem_cons_self)))
    | asking =>
      rw [ha, Bool.toNat_true] at hcount
      exact .inl (hcount ▸ Nat.one_pos)
    | asked startAt => exact .inr (.inl ⟨rfl, startAt, List.mem_cons_self⟩)
  · generalize s.control.reader = link at hl
    generalize s.control.readerReconnectCursorInFlight = asks at hl
    generalize s.reader = reader at hl
    generalize s.readerRequests = requests at hl
    generalize s.readerEvents = events at hl
    cases hl with
    | asked => exact le_rfl
    | connecting | opened | online | lostUnseen | failed | lost | offline | asking =>
      exact Nat.zero_le 1

end ReaderLoop

/-! ## Both links of one engine -/

/-- The action is a turn of the engine. -/
def OutboxAction.isEngine : OutboxAction M → Bool
  | .takeWriterEvent | .takeReadReply | .takeReleaseReply | .takeReadyEvent
  | .fireWriterReconnect => true
  | _ => false

/-- The action is a turn of the engine. -/
def ReaderAction.isEngine : ReaderAction M → Bool
  | .takeReaderEvent _ | .takeApplyReply _ | .takeCursorReply | .fireDrain
  | .fireReaderReconnect => true
  | _ => false

/-- The engine with the log writer and the log reader.  The requests of the two sides to the
semantic actor may be served in any order. -/
structure Connectivity (M : Type) (size : M → Nat) where
  /-- The engine's outbox side, with the writer. -/
  outbox : OutboxLoop M
  /-- The engine's reading side, with the reader. -/
  reader : ReaderLoop M size

/-- One turn of one of the tasks. -/
inductive ConnectivityAction (M : Type) where
  /-- A turn of the outbox side. -/
  | outbox (a : OutboxAction M)
  /-- A turn of the reading side. -/
  | reader (a : ReaderAction M)
  /-- The daemon stops at any point and starts again. -/
  | restart

namespace Connectivity

/-- The engine loop has not returned. -/
def running (s : Connectivity M size) : Bool := s.outbox.engineRunning && s.reader.stopped.isNone

/-- One turn: the engine takes part only while both of its sides run, and both sides restart
together. -/
def step (inlined : M → Bool) (s : Connectivity M size) :
    ConnectivityAction M → Option (Connectivity M size)
  | .outbox .restart => none
  | .outbox a =>
    if a.isEngine && !s.running then none
    else (s.outbox.step inlined a).map fun outbox => { s with outbox := outbox }
  | .reader .restart => none
  | .reader a =>
    if a.isEngine && !s.running then none
    else (s.reader.step a).map fun reader => { s with reader := reader }
  | .restart =>
    (s.outbox.step inlined .restart).bind fun outbox =>
      (s.reader.step .restart).map fun reader => ⟨outbox, reader⟩

/-- The product as a machine. -/
def machine (inlined : M → Bool) (size : M → Nat) :
    Machine (Connectivity M size) (ConnectivityAction M) where
  initial s := (OutboxLoop.machine inlined).initial s.outbox ∧
    (ReaderLoop.machine size).initial s.reader
  step := step inlined

variable {s s' : Connectivity M size} {a : ConnectivityAction M}

/-- A turn is a turn of each side, or leaves it alone. -/
theorem sides_of_step (h : s.step inlined a = some s') :
    (s'.outbox = s.outbox ∨ ∃ b, s.outbox.step inlined b = some s'.outbox) ∧
      (s'.reader = s.reader ∨ ∃ b, s.reader.step b = some s'.reader) := by
  unfold step at h
  split at h
  · cases h
  · next b hb =>
    split_ifs at h
    obtain ⟨outbox, houtbox, rfl⟩ := Option.map_eq_some_iff.mp h
    exact ⟨.inr ⟨b, houtbox⟩, .inl rfl⟩
  · cases h
  · next b hb =>
    split_ifs at h
    obtain ⟨reader, hreader, rfl⟩ := Option.map_eq_some_iff.mp h
    exact ⟨.inl rfl, .inr ⟨b, hreader⟩⟩
  · obtain ⟨outbox, houtbox, h⟩ := Option.bind_eq_some_iff.mp h
    obtain ⟨reader, hreader, rfl⟩ := Option.map_eq_some_iff.mp h
    exact ⟨.inr ⟨_, houtbox⟩, .inr ⟨_, hreader⟩⟩

/-- Each side of a run is a run of its own. -/
theorem sides_of_reached (h : (machine inlined size).Reached s) :
    (OutboxLoop.machine inlined).Reached s.outbox ∧ (ReaderLoop.machine size).Reached s.reader := by
  refine h.invariant (I := fun s => (OutboxLoop.machine inlined).Reached s.outbox ∧
    (ReaderLoop.machine size).Reached s.reader) ?_ ?_
  · intro s hs
    exact ⟨.init hs.1, .init hs.2⟩
  · intro s a s' _ hs _ hstep
    obtain ⟨houtbox, hreader⟩ := sides_of_step hstep
    constructor
    · rcases houtbox with heq | ⟨b, hb⟩
      · exact heq ▸ hs.1
      · exact hs.1.step trivial hb
    · rcases hreader with heq | ⟨b, hb⟩
      · exact heq ▸ hs.2
      · exact hs.2.step trivial hb

/-- In every reachable state of a running engine with its log reader and log writer, a link that
is held as offline has its retry timer, a link that is held as reconnecting has its reconnect under
way, and only a waiting actor finds a reconnect request. -/
theorem lost_links_are_retried (h : (machine inlined size).Reached s) (hrun : s.running = true) :
    s.outbox.WriterRetried ∧ s.reader.ReaderRetried := by
  obtain ⟨houtbox, hreader⟩ := sides_of_reached h
  obtain ⟨hlink, hpanicked⟩ := OutboxLoop.linkInv_of_reached houtbox
  rw [running, Bool.and_eq_true, Option.isNone_iff_eq_none] at hrun
  exact ⟨OutboxLoop.writerRetried hlink hpanicked,
    (ReaderLoop.linkInv_of_reached hreader).readerRetried hrun.2⟩

/-- Both links are lost; the writer is asked to reconnect, and the reader's cursor is read. -/
def bothLostRun : List (ConnectivityAction Nat) :=
  [.outbox .connect, .reader .connect, .outbox .takeWriterEvent, .reader (.takeReaderEvent 0),
    .outbox .disconnect, .reader .disconnect, .outbox .takeWriterEvent,
    .reader (.takeReaderEvent 0), .outbox .fireWriterReconnect, .reader .fireReaderReconnect]

theorem lost_links_are_retried_bothLostRun : ∃ s : Connectivity Nat fun _ => 1,
    (machine (fun _ => true) fun _ => 1).exec
        ⟨.start .empty [], .start 0 [] ReaderLoop.sampleLog⟩ bothLostRun = some s ∧
      s.running = true ∧ s.outbox.control.writer = .reconnecting ∧
      s.reader.control.reader = .reconnecting ∧ s.outbox.WriterRetried ∧ s.reader.ReaderRetried := by
  obtain ⟨s, hs, hp⟩ := Machine.exists_exec (M := machine (fun _ : Nat => true) fun _ => 1)
    (s := ⟨.start .empty [], .start 0 [] ReaderLoop.sampleLog⟩)
    (p := fun s => decide (s.running = true ∧ s.outbox.control.writer = .reconnecting ∧
      s.reader.control.reader = .reconnecting))
    (show (((machine _ _).exec _ bothLostRun).any _) = true by decide)
  obtain ⟨hrun, hwriter, hreader⟩ := of_decide_eq_true hp
  have hinit : (machine (fun _ : Nat => true) fun _ => 1).initial
      ⟨.start .empty [], .start 0 [] ReaderLoop.sampleLog⟩ :=
    ⟨rfl, ReaderLoop.sampleLog, 0, Nat.zero_le _, rfl⟩
  exact ⟨s, hs, hrun, hwriter, hreader,
    lost_links_are_retried (Machine.reached_of_exec hinit hs) hrun⟩

end Connectivity

end Opbox
