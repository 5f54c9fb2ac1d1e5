import Mathlib.Order.Bounds.Defs
import Opbox.Semantic.OutboxShape
import Opbox.Engine.OutboxSafety

/-!
# A connection appends a gap-free run of the outbox

While nothing waits to be released, the records that are reserved and not yet accepted by the
connection carry consecutive ids: from the id the connection expects next, or from the lowest id in
the table while it has accepted nothing, up to the last reserved row.  So the writer's contiguity
assertion holds on every append it receives.  As for the trims, this breaks in runs that forward a
stale read.
-/

namespace Opbox

/-- The request is a `trim_outbox`. -/
def OutboxRequest.isTrim : OutboxRequest → Bool
  | .trimOutbox _ => true
  | _ => false

theorem OutboxRequest.isTrim_iff {request : OutboxRequest} :
    request.isTrim = true ↔ ∃ k, request = .trimOutbox k := by
  cases request with
  | trimOutbox k => exact iff_of_true rfl ⟨k, rfl⟩
  | readOutbox n => exact iff_of_false Bool.false_ne_true fun ⟨k, h⟩ => by cases h
  | releaseOutbox => exact iff_of_false Bool.false_ne_true fun ⟨k, h⟩ => by cases h

/-- No trim is queued behind a release. -/
def TrimsFirst (lane : List OutboxRequest) : Prop :=
  lane.Pairwise fun x y => x = .releaseOutbox → y.isTrim = false

/-- A request that is no trim may be queued. -/
theorem TrimsFirst.append {lane requests : List OutboxRequest} (h : TrimsFirst lane)
    (hr : ∀ y ∈ requests, y.isTrim = false) : TrimsFirst (lane ++ requests) := by
  refine List.pairwise_append.mpr ⟨h, ?_, fun x _ y hy _ => hr y hy⟩
  exact List.pairwise_of_forall_mem_list fun x _ y hy _ => hr y hy

/-- A trim may be queued while no release is. -/
theorem TrimsFirst.trim {lane : List OutboxRequest} (h : TrimsFirst lane)
    (hno : .releaseOutbox ∉ lane) (k : OutboxId) : TrimsFirst (lane ++ [.trimOutbox k]) := by
  refine List.pairwise_append.mpr ⟨h, List.pairwise_singleton _ _, ?_⟩
  rintro x hx y - rfl
  exact absurd hx hno

/-- Two runs of ids that meet. -/
theorem range'_append_of_le {start middle : Nat} (h : start ≤ middle) (count : Nat) :
    List.range' start (middle - start) ++ List.range' middle count =
      List.range' start (middle + count - start) := by
  have hlength : middle + count - start = (middle - start) + count := by omega
  have hmiddle : start + (middle - start) = middle := Nat.add_sub_cancel' h
  rw [hlength, ← List.range'_append_1, hmiddle]

namespace OutboxControl

variable {M : Type} {e : OutboxControl}

theorem isTrim_maybeStartOutboxRead {y : OutboxRequest}
    (h : y ∈ (e.maybeStartOutboxRead : OutboxEffect M).semantic) : y.isTrim = false := by
  unfold maybeStartOutboxRead at h
  split_ifs at h
  · rw [List.mem_singleton.mp h]
    rfl
  · cases h

@[simp] theorem maybeStartOutboxRead_releaseRequested :
    (e.maybeStartOutboxRead : OutboxEffect M).control.outboxReleaseRequested =
      e.outboxReleaseRequested := by
  unfold maybeStartOutboxRead
  split_ifs <;> rfl

theorem isTrim_maybeStartOutboxRelease {y : OutboxRequest}
    (h : y ∈ (e.maybeStartOutboxRelease : OutboxEffect M).semantic) : y.isTrim = false := by
  unfold maybeStartOutboxRelease at h
  split_ifs at h
  · rw [List.mem_singleton.mp h]
    rfl
  · cases h

end OutboxControl

namespace Outbox

variable {M : Type} {o : Outbox M} {first middle : OutboxId}

/-- With nothing reserved the boundary is at the first id. -/
theorem Spans.eq_of_not_reserved (hs : o.Spans first middle) (hres : ∀ e, ¬o.Reserved e) :
    middle = first := by
  by_contra hne
  have hfirst := hs.first_le
  have hnext := hs.le_next
  obtain ⟨row, hrow, hid⟩ := (hs.mem_iff first).mpr ⟨le_rfl, by lia⟩
  have hlt : row.outboxId < middle := by lia
  exact hres row.entry ⟨row, hrow, rfl, (hs.inflight_iff row hrow).mpr hlt⟩

/-- The first id is the lowest in a table with reserved rows. -/
theorem Spans.isLeast (hs : o.Spans first middle) (hlt : first < middle) :
    IsLeast { id | ∃ row ∈ o.rows, row.outboxId = id } first := by
  have hnext := hs.le_next
  refine ⟨(hs.mem_iff first).mpr ⟨le_rfl, by lia⟩, ?_⟩
  intro id hid
  exact ((hs.mem_iff id).mp hid).1

end Outbox

namespace OutboxLoop

open OutboxControl

variable {M : Type} {inlined : M → Bool} {s s' : OutboxLoop M} {a : OutboxAction M}

/-- The id the current connection expects next, once it has accepted an append. -/
def expected (s : OutboxLoop M) : Option OutboxId :=
  match s.writer with
  | .connected c => c.nextExpectedOutboxId
  | _ => none

/-- The records the current connection has accepted and the log has not acknowledged. -/
def accepted (s : OutboxLoop M) : List (OutboxId × M) :=
  match s.writer with
  | .connected c => c.accepted
  | _ => []

/-- The records on their way to the current connection. -/
def sending (s : OutboxLoop M) : List (OutboxId × M) :=
  match s.writer with
  | .connected _ => requestedAppends s.writerRequests
  | _ => []

/-- The records reserved and not accepted by the current connection. -/
def waiting (s : OutboxLoop M) : List (OutboxId × M) :=
  s.sending ++ s.readReplies.flatMap replyMessages

theorem onConnection_eq (s : OutboxLoop M) : s.onConnection = s.accepted ++ s.sending := by
  unfold onConnection accepted sending
  cases s.writer <;> rfl

/-- The waiting records are the reserved rows from the expected id on. -/
def WaitsFrom (s : OutboxLoop M) (first middle : OutboxId) : Prop :=
  s.expected.getD first ≤ middle ∧ s.waiting.map Prod.fst =
    List.range' (s.expected.getD first) (middle - s.expected.getD first)

/-- What holds of the ids under way in the runs that forward no stale messages. -/
structure OrderInv (s : OutboxLoop M) : Prop where
  /-- The table has its shape. -/
  spans : ∃ first middle, s.outbox.Spans first middle
  /-- No assertion of the writer has failed. -/
  running : s.writer ≠ .panicked
  /-- While a release is wanted no acknowledgement is on its way to the engine. -/
  durables : ∀ k, .durable k ∈ s.writerEvents → s.Settled
  /-- No trim is queued behind a release. -/
  trimsFirst : TrimsFirst s.lane
  /-- Once the last release has been served no trim is queued. -/
  released : ¬s.Settled → s.control.outboxReleaseRequested = false → .releaseOutbox ∉ s.lane →
    ∀ k, .trimOutbox k ∉ s.lane
  /-- While a release is wanted the connection has accepted nothing. -/
  idle : ¬s.Settled → s.expected = none
  /-- What the connection has accepted ends at the expected id. -/
  accepted_none : s.expected = none → s.accepted = []
  accepted_some : ∀ next, s.expected = some next →
    ∃ start ≤ next, s.accepted.map Prod.fst = List.range' start (next - start)
  /-- Before the first append no trim and no acknowledgement is under way. -/
  untrimmed : s.Settled → s.Live → s.expected = none →
    (∀ k, .durable k ∉ s.writerEvents) ∧ ∀ k, .trimOutbox k ∉ s.lane
  /-- The waiting records continue what has been accepted, up to the last reserved row. -/
  waits : s.Settled → s.Live →
    ∃ first middle, s.outbox.Spans first middle ∧ s.WaitsFrom first middle

/-- With nothing reserved, accepted or waiting there is nothing to order. -/
theorem waits_of_none (hspans : ∃ first middle, s.outbox.Spans first middle)
    (hres : ∀ e, ¬s.outbox.Reserved e) (hexp : s.expected = none) (hwait : s.waiting = []) :
    ∃ first middle, s.outbox.Spans first middle ∧ s.WaitsFrom first middle := by
  obtain ⟨first, middle, hs⟩ := hspans
  have hmiddle := hs.eq_of_not_reserved hres
  refine ⟨first, middle, hs, ?_⟩
  rw [WaitsFrom, hexp, hwait, hmiddle, Option.getD_none, Nat.sub_self]
  exact ⟨le_rfl, rfl⟩

theorem orderInv_start {outbox : Outbox M} {durable : List (OutboxId × M)}
    (h : ∃ first middle, outbox.Spans first middle) : (start outbox durable).OrderInv := by
  have hspans : ∃ first middle, (start outbox durable).outbox.Spans first middle := by
    obtain ⟨first, middle, hs⟩ := h
    exact ⟨first, first, hs.release⟩
  refine ⟨hspans, by simp [start], fun k hk => absurd hk (by simp [start]), List.Pairwise.nil,
    fun hs => absurd ⟨rfl, rfl, rfl⟩ hs, fun _ => rfl, fun _ => rfl, nofun, fun _ _ _ => ?_,
    fun _ _ => waits_of_none hspans (Outbox.not_reserved_releaseOutboxMessages outbox) rfl rfl⟩
  exact ⟨fun k hk => absurd hk (by simp [start]), fun k hk => absurd hk (by simp [start,
    OutboxControl.new, requestOutboxRead, maybeStartOutboxRead, canStartOutboxRead])⟩

/-- The boundary stays, and so does the first id before the first append. -/
def KeepsBounds (s s' : OutboxLoop M) : Prop :=
  ∀ first middle, s.outbox.Spans first middle → ∃ first', s'.outbox.Spans first' middle ∧
    (s.Settled → s.Live → s.expected = none → first' = first)

theorem keepsBounds_of_eq (ho : s'.outbox = s.outbox) : s.KeepsBounds s' :=
  fun first _ hs => ⟨first, ho ▸ hs, fun _ _ _ => rfl⟩

/-- A turn that keeps the bounds of the table, what the connection has accepted and, while it
lives, what waits. -/
theorem OrderInv.quiet (h : s.OrderInv) (hbounds : s.KeepsBounds s') (hrunning : s'.writer ≠ .panicked)
    (hexp : s'.expected = s.expected) (hacc : s'.accepted = s.accepted)
    (hwait : s'.Live → s'.waiting = s.waiting) (hsettled : s'.Settled ↔ s.Settled)
    (hlive : s'.Live → s.Live)
    (hdurables : ∀ k, .durable k ∈ s'.writerEvents → .durable k ∈ s.writerEvents)
    (htrims : ∀ k, .trimOutbox k ∈ s'.lane → .trimOutbox k ∈ s.lane) (hfirst : TrimsFirst s'.lane)
    (hreleased : ¬s.Settled → s'.control.outboxReleaseRequested = false →
      .releaseOutbox ∉ s'.lane → s.control.outboxReleaseRequested = false ∧
        .releaseOutbox ∉ s.lane) : s'.OrderInv where
  spans := by
    obtain ⟨first, middle, hs⟩ := h.spans
    obtain ⟨first', hs', -⟩ := hbounds first middle hs
    exact ⟨first', middle, hs'⟩
  running := hrunning
  durables := fun k hk => hsettled.mpr (h.durables k (hdurables k hk))
  trimsFirst := hfirst
  released := by
    intro hs hreq hmem k hk
    have hs₀ : ¬s.Settled := mt hsettled.mpr hs
    obtain ⟨hreq₀, hmem₀⟩ := hreleased hs₀ hreq hmem
    exact h.released hs₀ hreq₀ hmem₀ k (htrims k hk)
  idle := fun hs => hexp.trans (h.idle (mt hsettled.mpr hs))
  accepted_none := by
    rw [hexp, hacc]
    exact h.accepted_none
  accepted_some := by
    rw [hexp, hacc]
    exact h.accepted_some
  untrimmed := by
    intro hs hl hnone
    obtain ⟨hdur, htrim⟩ := h.untrimmed (hsettled.mp hs) (hlive hl) (hexp.symm.trans hnone)
    exact ⟨fun k hk => hdur k (hdurables k hk), fun k hk => htrim k (htrims k hk)⟩
  waits := by
    intro hs hl
    obtain ⟨first, middle, hspans, hw⟩ := h.waits (hsettled.mp hs) (hlive hl)
    obtain ⟨first', hspans', hfirst'⟩ := hbounds first middle hspans
    have hstart : s.expected.getD first' = s.expected.getD first := by
      cases hnone : s.expected with
      | none => exact hfirst' (hsettled.mp hs) (hlive hl) hnone
      | some next => rfl
    refine ⟨first', middle, hspans', ?_⟩
    unfold WaitsFrom at hw ⊢
    rwa [hexp, hwait hl, hstart]

/-- A connected writer is live: a lost connection has no writer. -/
theorem live_of_connected (hlink : s.LinkInv) {c : WriterConnection M}
    (hw : s.writer = .connected c) : s.Live := by
  refine ⟨by simp [hw], ?_⟩
  rw [LinkInv, hw] at hlink
  generalize s.control.writer = link at hlink
  generalize s.control.writerReconnectArmed = armed at hlink
  generalize s.writerRequests = requests at hlink
  generalize s.writerEvents = events at hlink
  cases hlink with
  | opened => simp
  | online sent acks hr he => simp [he]

/-- A writer that connects has no requests. -/
theorem connecting_requests (hlink : s.LinkInv) (hw : s.writer = .connecting) :
    s.writerRequests = [] := by
  rw [LinkInv, hw] at hlink
  generalize s.control.writer = link at hlink
  generalize s.control.writerReconnectArmed = armed at hlink
  generalize s.writerRequests = requests at hlink
  generalize s.writerEvents = events at hlink
  cases hlink
  rfl

/-- A link that the engine does not take for online has accepted nothing, and no acknowledgement
is on its way. -/
theorem not_online (hlink : s.LinkInv) (hrunning : s.writer ≠ .panicked)
    (hon : s.control.writer ≠ .online) :
    s.expected = none ∧ ∀ k, .durable k ∉ s.writerEvents := by
  unfold LinkInv at hlink
  unfold expected
  generalize s.control.writer = link at hlink hon
  generalize s.control.writerReconnectArmed = armed at hlink
  generalize s.writer = w at hlink hrunning
  generalize s.writerRequests = requests at hlink
  generalize s.writerEvents = events at hlink
  cases hlink with
  | online => exact absurd rfl hon
  | lost => exact absurd rfl hon
  | panicked => exact absurd rfl hrunning
  | connecting | opened | lostUnseen | failed | offline | asked =>
    exact ⟨rfl, fun k hk => by simp at hk⟩

/-- One read is answered at a time. -/
theorem LaneOk.replies_eq_nil {result : Except SemanticTransactionError (List (OutboxId × M))}
    {replies : List (Except SemanticTransactionError (List (OutboxId × M)))} (h : s.LaneOk)
    (he : s.readReplies = result :: replies) : replies = [] := by
  have hreads := h.reads
  have hle := Bool.toNat_le s.control.outboxReadInFlight
  rw [he, List.length_cons] at hreads
  exact List.length_eq_zero_iff.mp (by omega)

/-! ## The turns of the engine -/

/-- The engine handled a writer event. -/
theorem OrderInv.writerEvent {event : LogWriterResponse} {events : List LogWriterResponse}
    {stale : Bool} (h : s.OrderInv) (hlane : s.LaneOk) (he : s.writerEvents = event :: events)
    (hs' : s' = { ({ s with writerEvents := events }).emit (s.control.onWriterEvent event) with
      staleRead := stale })
    (hstale : stale = if event = .disconnected then s.control.outboxReadInFlight else s.staleRead)
    (hlink' : s'.LinkInv) : s'.OrderInv := by
  have hevents : ∀ x ∈ events, x ∈ s.writerEvents := by
    intro x hx
    rw [he]
    exact List.mem_cons_of_mem _ hx
  cases event with
  | connected =>
    simp only [reduceCtorEq, if_false] at hstale
    subst hs' hstale
    refine h.quiet (keepsBounds_of_eq rfl) h.running rfl rfl (fun _ => ?_) settled_maybeStartOutboxRead (fun hl => ?_)
      (fun k hk => hevents _ hk) (fun k hk => ?_) ?_ fun _ hreq hmem => ?_
    · simp [waiting, sending, OutboxLoop.emit, onWriterEvent]
    · refine ⟨hl.1, fun hd => hl.2 ?_⟩
      rw [he] at hd
      exact (List.mem_cons.mp hd).resolve_left (by simp)
    · exact (List.mem_append.mp hk).resolve_right (trim_not_mem_maybeStartOutboxRead k)
    · exact h.trimsFirst.append fun y hy => isTrim_maybeStartOutboxRead hy
    · refine ⟨?_, fun hm => hmem (List.mem_append_left _ hm)⟩
      simpa [OutboxLoop.emit, onWriterEvent] using hreq
  | disconnected =>
    have hns : ¬s'.Settled := hs' ▸ not_settled_requestOutboxRelease
    have hwriter : s'.writer = s.writer := by rw [hs']; rfl
    have hexp : s'.expected = s.expected := by rw [expected, expected, hwriter]
    have hacc : s'.accepted = s.accepted := by rw [accepted, accepted, hwriter]
    have hoff : s'.control.writer ≠ .online := by
      rw [hs']
      simp [OutboxLoop.emit, onWriterEvent, markWriterDisconnected, requestOutboxRelease]
    obtain ⟨hnone, hdur⟩ := not_online hlink' (hwriter ▸ h.running) hoff
    have hreleased : Released _ (s.lane ++ _) stale False :=
      released_requestOutboxRelease (M := M) (e := { s.control with
        writer := .offline, writerReconnectArmed := true, outboxReadRequested := true })
    refine ⟨?_, hwriter ▸ h.running, fun k hk => absurd hk (hdur k), ?_, ?_, fun _ => hnone,
      by rw [hexp, hacc]; exact h.accepted_none, by rw [hexp, hacc]; exact h.accepted_some,
      fun hs => absurd hs hns, fun hs => absurd hs hns⟩
    · rw [hs']
      exact h.spans
    · rw [hs']
      exact h.trimsFirst.append fun y hy => isTrim_maybeStartOutboxRelease hy
    · intro _ hreq hmem
      rw [hs'] at hns hreq hmem
      exact (hreleased hns hreq hmem).1.elim
  | durable through =>
    simp only [reduceCtorEq, if_false] at hstale
    subst hstale
    have hsettled : s.Settled := h.durables through (by rw [he]; exact List.mem_cons_self)
    have hno : .releaseOutbox ∉ s.lane := hlane.release_not_mem (.inl hsettled.1)
    have hwait : s'.waiting = s.waiting := by
      rw [hs']
      simp [waiting, sending, OutboxLoop.emit, onWriterEvent]
    have hlive : s'.Live → s.Live := by
      intro hl
      rw [hs'] at hl
      refine ⟨hl.1, fun hd => hl.2 ?_⟩
      rw [he] at hd
      exact (List.mem_cons.mp hd).resolve_left (by simp)
    have hexp : s'.expected = s.expected := by rw [hs']; rfl
    have hacc : s'.accepted = s.accepted := by rw [hs']; rfl
    have ho : s'.outbox = s.outbox := by rw [hs']; rfl
    have hsettled' : s'.Settled := by rw [hs']; exact hsettled
    refine ⟨ho ▸ h.spans, ?_, fun _ _ => hsettled', ?_, fun hs => absurd hsettled' hs,
      fun hs => absurd hsettled' hs, by rw [hexp, hacc]; exact h.accepted_none,
      by rw [hexp, hacc]; exact h.accepted_some, ?_, ?_⟩
    · rw [hs']
      exact h.running
    · rw [hs']
      exact h.trimsFirst.trim hno through
    · -- an acknowledgement comes after an append
      intro _ hl hnone
      have hdur := (h.untrimmed hsettled (hlive hl) (hexp ▸ hnone)).1 through
      rw [he] at hdur
      exact absurd List.mem_cons_self hdur
    · intro _ hl
      obtain ⟨first, middle, hs, hw⟩ := h.waits hsettled (hlive hl)
      refine ⟨first, middle, ho ▸ hs, ?_⟩
      rw [WaitsFrom] at hw ⊢
      rwa [hwait, hexp]

/-- The engine took the response of a read and, if its messages are not given back, has asked for
more. -/
theorem OrderInv.readReply_forward {messages : List (OutboxId × M)} {requested : Bool}
    {replies : List (Except SemanticTransactionError (List (OutboxId × M)))} (h : s.OrderInv)
    (hinv : s.OutboxInv) (he : s.readReplies = .ok messages :: replies)
    (hon : s.control.writer = .online ∨ messages = [])
    (hstale : s.staleRead = true → messages = [])
    (hs' : s' = { ({ s with readReplies := replies }).emit (andThen
      { control :=
          { s.control with outboxReadInFlight := false, outboxReadRequested := requested }
        writer := messages.map appendRequest } maybeStartOutboxRead) with staleRead := false }) :
    s'.OrderInv := by
  have hset : s'.Settled ↔ s.control.outboxReleaseInFlight = false ∧
      s.control.outboxReleaseRequested = false := by
    rw [hs']
    exact settled_maybeStartOutboxRead.trans ⟨fun h => ⟨h.1, h.2.1⟩, fun h => ⟨h.1, h.2, rfl⟩⟩
  have hmono : s.Settled → s'.Settled := fun hs => hset.mpr ⟨hs.1, hs.2.1⟩
  have ho : s'.outbox = s.outbox := by rw [hs']; rfl
  have hwriter : s'.writer = s.writer := by rw [hs']; rfl
  have hevents : s'.writerEvents = s.writerEvents := by rw [hs']; rfl
  have hexp : s'.expected = s.expected := by rw [expected, expected, hwriter]
  have hacc : s'.accepted = s.accepted := by rw [accepted, accepted, hwriter]
  have hlive : s'.Live → s.Live := fun hl => ⟨hwriter ▸ hl.1, hevents ▸ hl.2⟩
  have htrims : ∀ k, .trimOutbox k ∈ s'.lane → .trimOutbox k ∈ s.lane := by
    intro k hk
    rw [hs'] at hk
    exact (List.mem_append.mp hk).resolve_right (trim_not_mem_maybeStartOutboxRead k)
  have hreq' : s'.control.outboxReleaseRequested = s.control.outboxReleaseRequested := by
    rw [hs']
    simp [OutboxLoop.emit, andThen]
  have hmem' : .releaseOutbox ∉ s'.lane → .releaseOutbox ∉ s.lane := by
    intro hmem hm
    rw [hs'] at hmem
    exact hmem (List.mem_append_left _ hm)
  -- a release that is not wanted any more has been served
  have hserved : s'.Settled → ¬s.Settled →
      s.control.outboxReleaseRequested = false ∧ .releaseOutbox ∉ s.lane := by
    intro hs _
    obtain ⟨hin, hreq⟩ := hset.mp hs
    exact ⟨hreq, hinv.lane.release_not_mem (.inl hin)⟩
  refine ⟨ho ▸ h.spans, hwriter ▸ h.running, fun k hk => hmono (h.durables k (hevents ▸ hk)), ?_,
    fun hs hreq hmem k hk => ?_, fun hs => hexp.trans (h.idle (mt hmono hs)),
    by rw [hexp, hacc]; exact h.accepted_none, by rw [hexp, hacc]; exact h.accepted_some, ?_, ?_⟩
  · rw [hs']
    exact h.trimsFirst.append fun y hy => isTrim_maybeStartOutboxRead hy
  · exact h.released (mt hmono hs) (hreq' ▸ hreq) (hmem' hmem) k (htrims k hk)
  · intro hs hl hnone
    rw [hexp] at hnone
    rw [hevents]
    by_cases hsettled : s.Settled
    · obtain ⟨hdur, htrim⟩ := h.untrimmed hsettled (hlive hl) hnone
      exact ⟨hdur, fun k hk => htrim k (htrims k hk)⟩
    · obtain ⟨hreq, hmem⟩ := hserved hs hsettled
      exact ⟨fun k hk => hsettled (h.durables k hk),
        fun k hk => h.released hsettled hreq hmem k (htrims k hk)⟩
  · intro hs hl
    have hsending : s.Live → s'.sending = s.sending ++ messages := by
      intro hlive
      have hsent : s'.writerRequests = s.writerRequests ++ messages.map appendRequest := by
        rw [hs']
        simp [OutboxLoop.emit, andThen]
      rw [sending, sending, hwriter, hsent]
      rcases hon with hon | hnil
      · obtain ⟨c, hc⟩ := hinv.link.connected hon hlive
        simp [hc]
      · simp [hnil]
    have hreplies : s'.readReplies = replies := by rw [hs']; rfl
    by_cases hsettled : s.Settled
    · obtain ⟨first, middle, hspans, hw⟩ := h.waits hsettled (hlive hl)
      refine ⟨first, middle, ho ▸ hspans, ?_⟩
      have hwait : s'.waiting = s.waiting := by
        rw [waiting, waiting, hsending (hlive hl), hreplies, he]
        simp [replyMessages]
      rw [WaitsFrom] at hw ⊢
      rwa [hexp, hwait]
    · -- nothing is reserved any more, so nothing waits
      obtain ⟨hreq, hmem⟩ := hserved hs hsettled
      have hres := (hinv.released hsettled hreq hmem).1
      have hnil := hstale (hinv.settle he hsettled)
      have hidle := hinv.idle hsettled
      rw [onConnection_eq, List.append_eq_nil_iff] at hidle
      have hwait : s'.waiting = [] := by
        rw [waiting, hsending (hlive hl), hreplies, hidle.2, hnil, hinv.lane.replies_eq_nil he]
        rfl
      exact waits_of_none (ho ▸ h.spans) (ho ▸ hres) (hexp.trans (h.idle hsettled)) hwait

/-- The engine took the response of a read while the writer was not online: its rows are to be
released. -/
theorem OrderInv.readReply_giveBack
    {replies : List (Except SemanticTransactionError (List (OutboxId × M)))} (h : s.OrderInv)
    (hlink : s.LinkInv) (hon : s.control.writer ≠ .online)
    (hs' : s' = { ({ s with readReplies := replies }).emit (andThen
      { (requestOutboxRelease { s.control with outboxReadInFlight := false } : OutboxEffect M) with
        control := { (requestOutboxRelease
            { s.control with outboxReadInFlight := false } : OutboxEffect M).control with
          outboxReadRequested := true } } maybeStartOutboxRead) with staleRead := false }) :
    s'.OrderInv := by
  have hns : ¬s'.Settled := by
    rw [hs']
    intro hs
    have hread := (settled_maybeStartOutboxRead (M := M) (e := { (requestOutboxRelease
      { s.control with outboxReadInFlight := false } : OutboxEffect M).control with
        outboxReadRequested := true })).mp hs
    exact not_settled_requestOutboxRelease (M := M)
      (e := { s.control with outboxReadInFlight := false }) hread
  have ho : s'.outbox = s.outbox := by rw [hs']; rfl
  have hwriter : s'.writer = s.writer := by rw [hs']; rfl
  have hevents : s'.writerEvents = s.writerEvents := by rw [hs']; rfl
  have hexp : s'.expected = s.expected := by rw [expected, expected, hwriter]
  have hacc : s'.accepted = s.accepted := by rw [accepted, accepted, hwriter]
  obtain ⟨hnone, hdur⟩ := not_online hlink h.running hon
  have hrel : Released _ (s.lane ++ _) false False :=
    released_requestOutboxRelease (M := M) (e := { s.control with outboxReadInFlight := false })
  have hreleased := Released.startRead (M := M) (e := { (requestOutboxRelease
    { s.control with outboxReadInFlight := false } : OutboxEffect M).control with
      outboxReadRequested := true }) hrel (fun hf => absurd hf Bool.false_ne_true)
  refine ⟨ho ▸ h.spans, hwriter ▸ h.running, fun k hk => absurd (hevents ▸ hk) (hdur k), ?_, ?_,
    fun _ => hexp.trans hnone, by rw [hexp, hacc]; exact h.accepted_none,
    by rw [hexp, hacc]; exact h.accepted_some, fun hs => absurd hs hns, fun hs => absurd hs hns⟩
  · rw [hs']
    refine h.trimsFirst.append fun y hy => ?_
    exact (List.mem_append.mp hy).elim isTrim_maybeStartOutboxRelease isTrim_maybeStartOutboxRead
  · intro _ hreq hmem
    rw [hs'] at hns hreq hmem
    refine (hreleased hns hreq ?_).1.elim
    simpa [OutboxLoop.emit, andThen] using hmem

/-- The engine handled a read response. -/
theorem OrderInv.readReply {messages : List (OutboxId × M)}
    {replies : List (Except SemanticTransactionError (List (OutboxId × M)))}
    {r : OutboxEffect M} (h : s.OrderInv) (hinv : s.OutboxInv)
    (he : s.readReplies = .ok messages :: replies)
    (hr : s.control.onReadOutbox (.ok messages) = some r)
    (hstale : s.control.writer = .online → s.staleRead = true → messages = [])
    (hs' : s' = { ({ s with readReplies := replies }).emit r with staleRead := false }) :
    s'.OrderInv := by
  obtain ⟨-, ⟨hon, rfl⟩ | ⟨hon, -, rfl⟩ | ⟨hon, hnil, rfl⟩⟩ := onReadOutbox_eq _ hr
  · exact h.readReply_forward hinv he (.inl hon) (hstale hon) hs'
  · exact h.readReply_giveBack hinv.link hon hs'
  · subst hnil
    exact h.readReply_forward hinv he (.inr rfl) (fun _ => rfl) hs'

/-- The engine handled a release response. -/
theorem OrderInv.releaseReply {released : Nat} {replies : List Nat} {r : OutboxEffect M}
    (h : s.OrderInv) (hinv : s.OutboxInv) (he : s.releaseReplies = released :: replies)
    (hr : s.control.onReleaseOutbox = some r)
    (hs' : s' = ({ s with releaseReplies := replies }).emit r) : s'.OrderInv := by
  have hno : .releaseOutbox ∉ s.lane :=
    hinv.lane.release_not_mem (.inr (by rw [he]; exact Nat.succ_pos _))
  have hkeep := onReleaseOutbox_keepsLink _ hr
  have hwait : s'.waiting = s.waiting := by
    rw [hs']
    simp [waiting, sending, OutboxLoop.emit, hkeep.writer]
  unfold onReleaseOutbox at hr
  split_ifs at hr with hin
  cases hr
  have hns : ¬s.Settled := fun hs => absurd hs.1 (by simp [hin])
  have ho : s'.outbox = s.outbox := by rw [hs']; rfl
  have hwriter : s'.writer = s.writer := by rw [hs']; rfl
  have hevents : s'.writerEvents = s.writerEvents := by rw [hs']; rfl
  have hexp : s'.expected = s.expected := by rw [expected, expected, hwriter]
  have hacc : s'.accepted = s.accepted := by rw [accepted, accepted, hwriter]
  have htrims : ∀ k, .trimOutbox k ∈ s'.lane → .trimOutbox k ∈ s.lane := by
    intro k hk
    rw [hs'] at hk
    refine (List.mem_append.mp hk).resolve_right fun hk => ?_
    exact (List.mem_append.mp hk).elim (trim_not_mem_maybeStartOutboxRelease k)
      (trim_not_mem_maybeStartOutboxRead k)
  -- what is left wanted decides whether the release is over
  have hsettle : s'.Settled → s.control.outboxReleaseRequested = false ∧ s.staleRead = false := by
    intro hs
    rw [hs'] at hs
    exact (settled_of_maybeStartOutboxRelease (M := M)
      (e := { s.control with outboxReleaseInFlight := false })
      ((settled_maybeStartOutboxRead (M := M)).mp hs)).2
  refine ⟨ho ▸ h.spans, hwriter ▸ h.running,
    fun k hk => absurd (h.durables k (hevents ▸ hk)) hns, ?_, ?_, fun _ => hexp.trans (h.idle hns),
    by rw [hexp, hacc]; exact h.accepted_none, by rw [hexp, hacc]; exact h.accepted_some, ?_, ?_⟩
  · rw [hs']
    refine h.trimsFirst.append fun y hy => ?_
    exact (List.mem_append.mp hy).elim isTrim_maybeStartOutboxRelease isTrim_maybeStartOutboxRead
  · intro hs hreq hmem k hk
    have hreleased : ({ s.control with outboxReleaseInFlight := false } : OutboxControl).Released
        s.lane s.staleRead (∀ k, .trimOutbox k ∉ s.lane) := by
      intro _ hreq hmem
      exact ⟨h.released hns hreq hmem, (hinv.released hns hreq hmem).2⟩
    have hstart := (hreleased.startRelease (M := M)).startRead (M := M)
      (by simpa using hinv.lane.stale_inFlight)
    rw [hs'] at hs hreq hmem
    exact (hstart hs hreq (by simpa [OutboxLoop.emit, andThen] using hmem)).1 k (htrims k hk)
  · intro hs _ _
    obtain ⟨hreq, -⟩ := hsettle hs
    exact ⟨fun k hk => absurd (h.durables k (hevents ▸ hk)) hns,
      fun k hk => h.released hns hreq hno k (htrims k hk)⟩
  · intro hs hl
    obtain ⟨hreq, hfresh⟩ := hsettle hs
    have hread : s.control.outboxReadInFlight = false := by
      by_contra hread
      have hstale := hinv.lane.stale_of_release (.inl hin) (by simpa using hread)
      exact absurd (hstale.symm.trans hfresh) (by simp)
    have hreplies : s.readReplies = [] :=
      List.length_eq_zero_iff.mp (hinv.lane.reads_eq_zero hread)
    have hidle := hinv.idle hns
    rw [onConnection_eq, List.append_eq_nil_iff] at hidle
    refine waits_of_none (ho ▸ h.spans) (ho ▸ (hinv.released hns hreq hno).1)
      (hexp.trans (h.idle hns)) ?_
    rw [hwait, waiting, hidle.2, hreplies]
    rfl

/-! ## The turns of the semantic lane -/

/-- The semantic actor reserved a batch. -/
theorem OrderInv.serveRead {numMessages : Nat} {requests : List OutboxRequest}
    {outbox : Outbox M} {messages : List (OutboxId × M)} (h : s.OrderInv)
    (hlane : s.lane = .readOutbox numMessages :: requests)
    (hres : s.outbox.reserveOutboxMessages numMessages = .ok (outbox, messages)) :
    OrderInv { s with
      lane := requests, outbox := outbox, readReplies := s.readReplies ++ [.ok messages] } := by
  have hmem : ∀ x ∈ requests, x ∈ s.lane := by
    intro x hx
    rw [hlane]
    exact List.mem_cons_of_mem _ hx
  have hrelease : .releaseOutbox ∉ requests → .releaseOutbox ∉ s.lane := by
    intro hno
    rw [hlane]
    simpa using hno
  have hfirst := h.trimsFirst
  rw [hlane] at hfirst
  refine ⟨?_, h.running, h.durables, (List.pairwise_cons.mp hfirst).2,
    fun hs hreq hno k hk => h.released hs hreq (hrelease hno) k (hmem _ hk), h.idle,
    h.accepted_none, h.accepted_some, fun hs hl hnone => ?_, fun hs hl => ?_⟩
  · obtain ⟨first, middle, hspans⟩ := h.spans
    obtain ⟨count, -, hspans'⟩ := hspans.reserve_of_ok hres
    exact ⟨_, _, hspans'⟩
  · obtain ⟨hdur, htrim⟩ := h.untrimmed hs ⟨hl.1, hl.2⟩ hnone
    exact ⟨hdur, fun k hk => htrim k (hmem _ hk)⟩
  · obtain ⟨first, middle, hspans, hle, hids⟩ := h.waits hs ⟨hl.1, hl.2⟩
    obtain ⟨count, hcount, hspans'⟩ := hspans.reserve_of_ok hres
    refine ⟨first, middle + count, hspans', ?_⟩
    have hwaiting : waiting { s with
        lane := requests, outbox := outbox, readReplies := s.readReplies ++ [.ok messages] } =
          s.waiting ++ messages := by
      simp [waiting, sending, replyMessages]
    have hexp : expected { s with
        lane := requests, outbox := outbox, readReplies := s.readReplies ++ [.ok messages] } =
          s.expected := rfl
    rw [WaitsFrom, hwaiting, hexp]
    refine ⟨by lia, ?_⟩
    rw [List.map_append, hids, hcount]
    exact range'_append_of_le hle count

/-- The semantic actor released all reservations. -/
theorem OrderInv.serveRelease {requests : List OutboxRequest} {released : Nat} (h : s.OrderInv)
    (hok : s.LaneOk) (hlane : s.lane = .releaseOutbox :: requests) :
    OrderInv { s with
      lane := requests, outbox := s.outbox.releaseOutboxMessages.1,
      releaseReplies := s.releaseReplies ++ [released] } := by
  have hns : ¬s.Settled := by
    intro hs
    have hno := hok.release_not_mem (.inl hs.1)
    rw [hlane] at hno
    exact hno List.mem_cons_self
  have hfirst := h.trimsFirst
  rw [hlane] at hfirst
  obtain ⟨hnone, hfirst⟩ := List.pairwise_cons.mp hfirst
  refine ⟨?_, h.running, h.durables, hfirst, fun _ _ _ k hk => ?_, h.idle, h.accepted_none,
    h.accepted_some, fun hs => absurd hs hns, fun hs => absurd hs hns⟩
  · obtain ⟨first, middle, hspans⟩ := h.spans
    exact ⟨first, first, hspans.release⟩
  · have htrim := hnone _ hk rfl
    cases htrim

/-! ## The turns of the writer -/

/-- The next append a connected writer receives: nothing waits to be released, and it is the first
of the waiting records. -/
theorem OrderInv.next_append (h : s.OrderInv) (hinv : s.OutboxInv) {c : WriterConnection M}
    {id : OutboxId} {message : M} {requests : List (LogWriterRequest M)}
    (hw : s.writer = .connected c) (hreq : s.writerRequests = .append id message :: requests) :
    s.Settled ∧ s.Live ∧ ∃ first middle, s.outbox.Spans first middle ∧
      s.expected.getD first = id ∧ id < middle ∧
      (requestedAppends requests ++ s.readReplies.flatMap replyMessages).map Prod.fst =
        List.range' (id + 1) (middle - (id + 1)) := by
  have hlive := live_of_connected hinv.link hw
  have hsending : s.sending = (id, message) :: requestedAppends requests := by
    rw [sending, hw, hreq]
    rfl
  have hsettled : s.Settled := by
    by_contra hns
    have hidle := hinv.idle hns
    rw [onConnection_eq, hsending] at hidle
    exact absurd (List.append_eq_nil_iff.mp hidle).2 (List.cons_ne_nil _ _)
  obtain ⟨first, middle, hspans, hle, hids⟩ := h.waits hsettled hlive
  refine ⟨hsettled, hlive, first, middle, hspans, ?_⟩
  rw [waiting, hsending, List.cons_append, List.map_cons] at hids
  cases hcount : middle - s.expected.getD first with
  | zero =>
    rw [hcount] at hids
    cases hids
  | succ count =>
    rw [hcount, List.range'_succ, List.cons.injEq] at hids
    obtain ⟨hid, hids⟩ := hids
    have hid : s.expected.getD first = id := hid.symm
    rw [hid] at hcount hids
    have hrest : middle - (id + 1) = count := by lia
    exact ⟨hid, by lia, hrest ▸ hids⟩

/-- A connected writer takes the next append. -/
theorem OrderInv.receive_isSome (h : s.OrderInv) (hinv : s.OutboxInv) {c : WriterConnection M}
    {id : OutboxId} {message : M} {requests : List (LogWriterRequest M)}
    (hw : s.writer = .connected c) (hreq : s.writerRequests = .append id message :: requests) :
    (c.receive inlined (.append id message)).isSome = true := by
  obtain ⟨-, -, first, middle, hspans, hid, hlt, -⟩ := h.next_append hinv hw hreq
  have hnext : id.checkedNext = some (id + 1) := by
    have hle := hspans.le_next
    have hmax := hspans.next_le
    have hbound : i64Max < 2 ^ 64 := by decide
    rw [OutboxId.checkedNext, if_pos (by lia)]
  have hexp : s.expected = c.nextExpectedOutboxId := by rw [expected, hw]
  have hall : c.nextExpectedOutboxId.all (· = id) = true := by
    rw [hexp] at hid
    cases hnext : c.nextExpectedOutboxId with
    | none => rfl
    | some next =>
      rw [hnext, Option.getD_some] at hid
      simpa using hid
  rw [WriterConnection.receive, if_pos hall, hnext]
  rfl

/-- What a connection has accepted after an append. -/
theorem receive_append_eq {c c' : WriterConnection M} {id : OutboxId} {message : M}
    (hc : c.receive inlined (.append id message) = some c') :
    c'.nextExpectedOutboxId = some (id + 1) := by
  rw [WriterConnection.receive] at hc
  split_ifs at hc with hall hin
  · obtain ⟨next, hnext, rfl⟩ := Option.map_eq_some_iff.mp hc
    rw [OutboxId.checkedNext] at hnext
    split_ifs at hnext
    exact hnext.symm
  · obtain ⟨next, hnext, rfl⟩ := Option.map_eq_some_iff.mp hc
    rw [OutboxId.checkedNext] at hnext
    split_ifs at hnext
    exact hnext.symm

/-- The connected writer took an append. -/
theorem OrderInv.acceptAppend (h : s.OrderInv) (hinv : s.OutboxInv) {c c' : WriterConnection M}
    {id : OutboxId} {message : M} {requests : List (LogWriterRequest M)}
    (hw : s.writer = .connected c) (hreq : s.writerRequests = .append id message :: requests)
    (hbig : c.bigUpload = none) (hc : c.receive inlined (.append id message) = some c') :
    OrderInv { s with writer := .connected c', writerRequests := requests } := by
  obtain ⟨hsettled, hlive, first, middle, hspans, hid, hlt, hids⟩ := h.next_append hinv hw hreq
  have hnext := receive_append_eq hc
  have hexp : s.expected = c.nextExpectedOutboxId := by rw [expected, hw]
  have hacc : s.accepted = c.accepted := by rw [accepted, hw]
  refine ⟨h.spans, by simp, fun _ _ => hsettled, h.trimsFirst, fun hs => absurd hsettled hs,
    fun hs => absurd hsettled hs, fun hnone => ?_, fun next hsome => ?_, fun _ _ hnone => ?_,
    fun _ _ => ⟨first, middle, hspans, ?_⟩⟩
  · exact absurd (hnext.symm.trans hnone) (Option.some_ne_none _)
  · have hsome' : id + 1 = next := Option.some.inj (hnext.symm.trans hsome)
    subst hsome'
    have haccepted : accepted { s with writer := .connected c', writerRequests := requests } =
        s.accepted ++ [(id, message)] := by
      rw [hacc]
      exact WriterConnection.receive_append hbig hc
    rw [haccepted, List.map_append]
    cases hprev : s.expected with
    | none =>
      rw [h.accepted_none hprev]
      refine ⟨id, Nat.le_succ id, ?_⟩
      rw [Nat.add_sub_cancel_left]
      rfl
    | some previous =>
      rw [hprev, Option.getD_some] at hid
      subst hid
      obtain ⟨start, hle, hbegins⟩ := h.accepted_some previous hprev
      refine ⟨start, Nat.le_succ_of_le hle, ?_⟩
      rw [hbegins]
      exact range'_append_of_le hle 1
  · exact absurd (hnext.symm.trans hnone) (Option.some_ne_none _)
  · have hexp' : expected { s with writer := .connected c', writerRequests := requests } =
        some (id + 1) := hnext
    rw [WaitsFrom, hexp']
    exact ⟨hlt, hids⟩

/-- The log acknowledged a record. -/
theorem OrderInv.acknowledge (h : s.OrderInv) (hinv : s.OutboxInv) {c : WriterConnection M}
    {record : OutboxId × M} {records : List (OutboxId × M)} (hw : s.writer = .connected c)
    (hp : c.pendingAppends = record :: records) :
    OrderInv { s with
      writer := .connected { c with pendingAppends := records }
      writerEvents := s.writerEvents ++ [.durable record.1]
      durable := record :: s.durable } := by
  have hacc : s.accepted = record :: (records ++ c.bigUpload.toList) := by
    rw [accepted, hw]
    show c.pendingAppends ++ c.bigUpload.toList = _
    rw [hp]
    rfl
  have hexp : s.expected = c.nextExpectedOutboxId := by rw [expected, hw]
  have hsettled : s.Settled := by
    by_contra hns
    have hidle := hinv.idle hns
    rw [onConnection_eq, hacc] at hidle
    exact absurd (List.append_eq_nil_iff.mp hidle).1 (List.cons_ne_nil _ _)
  have hsome : s.expected ≠ none := by
    intro hnone
    rw [h.accepted_none hnone] at hacc
    cases hacc
  have hlive := live_of_connected hinv.link hw
  refine ⟨h.spans, by simp, fun _ _ => hsettled, h.trimsFirst, fun hs => absurd hsettled hs,
    fun hs => absurd hsettled hs, fun hnone => absurd (hexp.trans hnone) hsome,
    fun next hnext => ?_, fun _ _ hnone => absurd (hexp.trans hnone) hsome, fun _ _ => ?_⟩
  · obtain ⟨start, hle, hids⟩ := h.accepted_some next (hexp.trans hnext)
    rw [hacc, List.map_cons] at hids
    cases hcount : next - start with
    | zero =>
      rw [hcount] at hids
      cases hids
    | succ count =>
      rw [hcount, List.range'_succ, List.cons.injEq] at hids
      have hrest : next - (start + 1) = count := by lia
      exact ⟨start + 1, by lia, hrest ▸ hids.2⟩
  · obtain ⟨first, middle, hspans, hwaits⟩ := h.waits hsettled hlive
    refine ⟨first, middle, hspans, ?_⟩
    unfold WaitsFrom at hwaits ⊢
    rw [hexp, waiting, sending, hw] at hwaits
    exact hwaits

/-- A connection that is lost or could not be opened has no appends. -/
theorem OrderInv.writerLost (h : s.OrderInv) :
    OrderInv { s with writer := .waiting, writerEvents := s.writerEvents ++ [.disconnected] } := by
  have hdead : ¬Live { s with
      writer := .waiting, writerEvents := s.writerEvents ++ [.disconnected] } :=
    fun hl => hl.2 (List.mem_append_right _ (List.mem_singleton_self _))
  refine ⟨h.spans, by simp, fun k hk => h.durables k ?_, h.trimsFirst, h.released, fun _ => rfl,
    fun _ => rfl, nofun, fun _ hl => absurd hl hdead, fun _ hl => absurd hl hdead⟩
  exact (List.mem_append.mp hk).resolve_right (by simp)

/-! ## Runs -/

/-- Every turn that forwards no stale messages keeps the invariant. -/
theorem OrderInv.turn (h : s.OrderInv) (hinv : s.OutboxInv) (hinv' : s'.OutboxInv)
    (hP : s.ForwardsNoStaleRead a) (ht : Turn inlined s a s') : s'.OrderInv := by
  cases ht with
  | writerEvent hrun he => exact h.writerEvent hinv.lane he rfl rfl hinv'.link
  | @readReply messages replies r hrun he hr =>
    refine h.readReply hinv he hr (fun hon hst => ?_) rfl
    have hempty := hP rfl hon hst
    rw [he] at hempty
    simpa [replyMessages] using hempty
  | releaseReply hrun he hr => exact h.releaseReply hinv he hr rfl
  | engineStops =>
    exact h.quiet (keepsBounds_of_eq rfl) h.running rfl rfl (fun _ => rfl) Iff.rfl
      (fun hl => ⟨hl.1, hl.2⟩) (fun _ => id) (fun _ => id) h.trimsFirst
      fun _ hreq hmem => ⟨hreq, hmem⟩
  | @readyEvent numMessages events hrun he =>
    simp only [OutboxLoop.emit, onOutboxReady]
    split_ifs
    · refine h.quiet (keepsBounds_of_eq rfl) h.running rfl rfl (fun _ => ?_)
        settled_maybeStartOutboxRead (fun hl => ⟨hl.1, hl.2⟩) (fun _ => id) (fun k hk => ?_) ?_
        fun _ hreq hmem => ⟨?_, fun hm => hmem (List.mem_append_left _ hm)⟩
      · simp [waiting, sending, requestOutboxRead]
      · exact (List.mem_append.mp hk).resolve_right (trim_not_mem_maybeStartOutboxRead k)
      · exact h.trimsFirst.append fun y hy => isTrim_maybeStartOutboxRead hy
      · simpa [requestOutboxRead] using hreq
    · simp only [List.append_nil]
      exact h.quiet (keepsBounds_of_eq rfl) h.running rfl rfl (fun _ => rfl) Iff.rfl
        (fun hl => ⟨hl.1, hl.2⟩) (fun _ => id) (fun _ => id) h.trimsFirst
        fun _ hreq hmem => ⟨hreq, hmem⟩
  | writerReconnect hrun harmed =>
    have hwait : waiting (s.emit s.control.onWriterReconnect) = s.waiting := by
      simp only [waiting, sending, OutboxLoop.emit, onWriterReconnect]
      split_ifs <;> simp [requestedAppends]
    have hlane : (s.emit s.control.onWriterReconnect).lane = s.lane := by
      simp only [OutboxLoop.emit, onWriterReconnect]
      split_ifs <;> exact List.append_nil _
    have hcontrol : (s.emit s.control.onWriterReconnect).control.outboxReleaseRequested =
        s.control.outboxReleaseRequested := by
      simp only [OutboxLoop.emit, onWriterReconnect]
      split_ifs <;> rfl
    have hset : (s.emit s.control.onWriterReconnect).Settled ↔ s.Settled := by
      simp only [Settled, OutboxLoop.emit, onWriterReconnect]
      split_ifs <;> exact Iff.rfl
    refine h.quiet (keepsBounds_of_eq rfl) h.running rfl rfl (fun _ => hwait) hset
      (fun hl => ⟨hl.1, hl.2⟩) (fun _ => id) (fun k hk => hlane ▸ hk) ?_
      fun _ hreq hmem => ⟨hcontrol ▸ hreq, hlane ▸ hmem⟩
    rw [hlane]
    exact h.trimsFirst
  | serveRead hlane hres => exact h.serveRead hlane hres
  | @serveReadFails numMessages requests e hlane =>
    have hfirst := h.trimsFirst
    rw [hlane] at hfirst
    refine h.quiet (keepsBounds_of_eq rfl) h.running rfl rfl (fun _ => ?_) Iff.rfl
      (fun hl => ⟨hl.1, hl.2⟩) (fun _ => id) (fun k hk => ?_) (List.pairwise_cons.mp hfirst).2
      fun _ hreq hmem => ⟨hreq, ?_⟩
    · simp [waiting, sending, replyMessages]
    · rw [hlane]
      exact List.mem_cons_of_mem _ hk
    · rw [hlane]
      simpa using hmem
  | serveRelease hlane => exact h.serveRelease hinv.lane hlane
  | @serveTrim through requests hlane =>
    have hfirst := h.trimsFirst
    rw [hlane] at hfirst
    refine h.quiet (fun first middle hs => ⟨_, hs.trim through, fun hset hl hnone => ?_⟩) h.running
      rfl rfl (fun _ => rfl) Iff.rfl (fun hl => ⟨hl.1, hl.2⟩) (fun _ => id) (fun k hk => ?_)
      (List.pairwise_cons.mp hfirst).2 fun _ hreq hmem => ⟨hreq, ?_⟩
    · have htrim := (h.untrimmed hset hl hnone).2 through
      rw [hlane] at htrim
      exact absurd List.mem_cons_self htrim
    · rw [hlane]
      exact List.mem_cons_of_mem _ hk
    · rw [hlane]
      simpa using hmem
  | mutate hpush =>
    exact h.quiet (fun first middle hs => ⟨first, hs.push hpush, fun _ _ _ => rfl⟩) h.running rfl
      rfl (fun _ => rfl) Iff.rfl (fun hl => ⟨hl.1, hl.2⟩) (fun _ => id) (fun _ => id) h.trimsFirst
      fun _ hreq hmem => ⟨hreq, hmem⟩
  | connect hw =>
    have hnil : s.writerRequests = [] := connecting_requests hinv.link hw
    have hexp : s.expected = none := by rw [expected, hw]
    have hacc : s.accepted = [] := by rw [accepted, hw]
    refine h.quiet (keepsBounds_of_eq rfl) (by simp) (by rw [hexp]; rfl) (by rw [hacc]; rfl)
      (fun _ => ?_) Iff.rfl (fun hl => ⟨by simp [hw], fun hd => hl.2 (List.mem_append_left _ hd)⟩)
      (fun k hk => by simpa using hk) (fun _ => id) h.trimsFirst fun _ hreq hmem => ⟨hreq, hmem⟩
    simp [waiting, sending, hw, hnil, requestedAppends]
  | writerLost hw => exact h.writerLost
  | @accept c c' request requests hw hreq hbig hc =>
    cases request with
    | append id message => exact h.acceptAppend hinv hw hreq hbig hc
    | reconnect =>
      cases hc
      have hexp : s.expected = c.nextExpectedOutboxId := by rw [expected, hw]
      have hacc : s.accepted = c.accepted := by rw [accepted, hw]
      refine h.quiet (keepsBounds_of_eq rfl) (by simp) hexp.symm hacc.symm (fun _ => ?_) Iff.rfl
        (fun hl => ⟨by simp [hw], hl.2⟩) (fun _ => id) (fun _ => id) h.trimsFirst
        fun _ hreq hmem => ⟨hreq, hmem⟩
      simp [waiting, sending, hw, hreq, requestedAppends]
  | @writerPanics c request requests hw hreq hbig hc =>
    cases request with
    | append id message =>
      have hsome : (c.receive inlined (.append id message)).isSome = true :=
        h.receive_isSome hinv hw hreq
      rw [hc] at hsome
      cases hsome
    | reconnect => cases hc
  | reconnect hw hreq =>
    have hexp : s.expected = none := by rw [expected, hw]
    have hacc : s.accepted = [] := by rw [accepted, hw]
    refine h.quiet (keepsBounds_of_eq rfl) (by simp) (by rw [hexp]; rfl) (by rw [hacc]; rfl)
      (fun _ => ?_) Iff.rfl (fun hl => ⟨by simp [hw], hl.2⟩) (fun _ => id) (fun _ => id)
      h.trimsFirst fun _ hreq hmem => ⟨hreq, hmem⟩
    simp [waiting, sending, hw]
  | discard hw hreq =>
    refine h.quiet (keepsBounds_of_eq rfl) h.running rfl rfl (fun _ => ?_) Iff.rfl
      (fun hl => ⟨hl.1, hl.2⟩) (fun _ => id) (fun _ => id) h.trimsFirst
      fun _ hreq hmem => ⟨hreq, hmem⟩
    simp [waiting, sending, hw]
  | @uploaded c pointer hw hbig =>
    have hexp : s.expected = c.nextExpectedOutboxId := by rw [expected, hw]
    have hacc : s.accepted = c.accepted := by rw [accepted, hw]
    refine h.quiet (keepsBounds_of_eq rfl) (by simp) hexp.symm ?_ (fun _ => ?_) Iff.rfl
      (fun hl => ⟨by simp [hw], hl.2⟩) (fun _ => id) (fun _ => id) h.trimsFirst
      fun _ hreq hmem => ⟨hreq, hmem⟩
    · rw [hacc]
      simp [accepted, WriterConnection.accepted, hbig]
    · simp [waiting, sending, hw]
  | acknowledge hw hp => exact h.acknowledge hinv hw hp
  | restart => exact orderInv_start h.spans

/-- The invariant holds along every run that forwards no stale messages. -/
theorem orderInv_of_reachable (h : (machine inlined).Reachable ForwardsNoStaleRead s) :
    s.OutboxInv ∧ s.OrderInv := by
  refine h.invariant (I := fun s => s.OutboxInv ∧ s.OrderInv) ?_ ?_
  · rintro s rfl
    exact ⟨outboxInv_start Outbox.allocated_empty, orderInv_start ⟨0, 0, Outbox.spans_empty⟩⟩
  · intro s a s' _ hs hP hstep
    have hinv' := hs.1.turn hP (turn_of_step hstep)
    exact ⟨hinv', hs.2.turn hs.1 hinv' hP (turn_of_step hstep)⟩

end OutboxLoop

end Opbox
