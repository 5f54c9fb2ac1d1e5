import Opbox.Engine.ReaderSafety

/-!
# Buffered messages are never stranded

The `SharedMessageBufferDrain` timer is armed when a record is buffered and no batch is in flight,
and when a batch is answered and records are left; it is consumed when it fires.  In every run the
timer runs on a non-empty buffer only, and a non-empty buffer has the timer or a batch in flight.
-/

namespace Opbox

namespace ReaderLoop

open ReaderControl

variable {M : Type} {size : M → Nat} {s s' : ReaderLoop M size} {a : ReaderAction M}

/-- The batches that have been handed to the semantic actor and are not answered: those it has not
served, and those whose answer the engine has not taken. -/
def appliesInFlight (s : ReaderLoop M size) : Nat :=
  (laneBatches s.lane).length + s.applyReplies.length

/-- What the drain timer, the buffer and the batches in flight have to do with each other. -/
structure DrainScheduled (s : ReaderLoop M size) : Prop where
  /-- At most one batch is in flight. -/
  inFlight_le : s.appliesInFlight ≤ 1
  /-- The engine counts it. -/
  counted : s.stopped = none →
    s.appliesInFlight = s.control.inFlightApplySharedMessageBatch
  /-- The timer runs on a non-empty buffer. -/
  armed : s.stopped = none → s.control.drainArmed = true →
    s.control.sharedMessageBuffer.envelopes ≠ []
  /-- A non-empty buffer has the timer or a batch in flight. -/
  scheduled : s.stopped = none → s.control.sharedMessageBuffer.envelopes ≠ [] →
    s.control.drainArmed = true ∨ 0 < s.appliesInFlight

theorem drainScheduled_start {cursor : SequenceNumber}
    {applied : List (SharedMessageEnvelope M)} {log : List (LogRecord M)} :
    (start cursor applied log : ReaderLoop M size).DrainScheduled where
  inFlight_le := Nat.zero_le 1
  counted := fun _ => rfl
  armed := fun _ harmed => absurd harmed Bool.false_ne_true
  scheduled := fun _ hne => absurd rfl hne

/-- A turn that neither touches the buffer and its timer nor moves a batch. -/
theorem DrainScheduled.of_eq (h : s.DrainScheduled) (hin : s'.appliesInFlight = s.appliesInFlight)
    (hrun : s'.stopped = none → s.stopped = none)
    (hcount : s'.control.inFlightApplySharedMessageBatch =
      s.control.inFlightApplySharedMessageBatch)
    (harmed : s'.control.drainArmed = s.control.drainArmed)
    (hbuffer : s'.control.sharedMessageBuffer = s.control.sharedMessageBuffer) :
    s'.DrainScheduled where
  inFlight_le := hin.le.trans h.inFlight_le
  counted := fun hr => by rw [hin, hcount, h.counted (hrun hr)]
  armed := by
    intro hr
    rw [harmed, hbuffer]
    exact h.armed (hrun hr)
  scheduled := by
    intro hr
    rw [harmed, hbuffer, hin]
    exact h.scheduled (hrun hr)

/-- An engine that has stopped schedules nothing any more. -/
theorem DrainScheduled.of_stopped (h : s.DrainScheduled)
    (hle : s'.appliesInFlight ≤ s.appliesInFlight) (hstopped : s'.stopped ≠ none) :
    s'.DrainScheduled where
  inFlight_le := hle.trans h.inFlight_le
  counted := fun hr => absurd hr hstopped
  armed := fun hr => absurd hr hstopped
  scheduled := fun hr => absurd hr hstopped

/-- The engine handled a reader event: a record is buffered, and the timer is armed unless a batch
is in flight. -/
theorem DrainScheduled.readerEvent {now : Nat} {event : LogReaderEvent M}
    {events : List (LogReaderEvent M)} (h : s.DrainScheduled) (hrun : s.stopped = none) :
    DrainScheduled
      { s with readerEvents := events, control := s.control.onReaderEvent now event } := by
  cases event with
  | connected => exact h.of_eq rfl id rfl rfl rfl
  | disconnected => exact h.of_eq rfl id rfl rfl rfl
  | read envelope =>
    have hcounted := h.counted hrun
    have hne : (s.control.sharedMessageBuffer.insert now envelope).envelopes ≠ [] := by
      simp [SharedMessageBuffer.insert]
    simp only [onReaderEvent, canAcceptApplySharedMessageBatch, decide_eq_true_eq]
    split_ifs with hzero
    · exact ⟨h.inFlight_le, fun _ => hcounted, fun _ _ => hne, fun _ _ => .inl rfl⟩
    · refine ⟨h.inFlight_le, fun _ => hcounted, fun _ _ => hne, fun _ _ => .inr ?_⟩
      show 0 < s.appliesInFlight
      omega

/-- The engine handled the response of a batch: what is left in the buffer gets the timer. -/
theorem DrainScheduled.applyReply {now : Nat} {result : Except SemanticTransactionError Unit}
    {replies : List (Except SemanticTransactionError Unit)} {control : ReaderControl M size}
    (h : s.DrainScheduled) (hrun : s.stopped = none) (he : s.applyReplies = result :: replies)
    (hr : s.control.onApplySharedMessageBatch now result = .ok control) :
    DrainScheduled { s with applyReplies := replies, control := control } := by
  have hin : appliesInFlight { s with applyReplies := replies, control := control } + 1 =
      s.appliesInFlight := by
    rw [appliesInFlight, appliesInFlight, he, List.length_cons]
    rfl
  have hle := h.inFlight_le
  have hcounted := h.counted hrun
  unfold onApplySharedMessageBatch at hr
  split at hr
  · cases hr
  · cases hr
  · next n hn =>
    simp only at hr
    split_ifs at hr with hfire
    · cases hr
      refine ⟨by omega, fun _ => ?_, fun _ _ hnil => ?_, fun _ _ => .inl rfl⟩
      · show appliesInFlight _ = n
        omega
      · rw [SharedMessageBuffer.nextFireAt_eq_none_iff.mpr hnil] at hfire
        exact Bool.false_ne_true hfire
    · cases hr
      refine ⟨by omega, fun _ => ?_, h.armed, fun _ hne => ?_⟩
      · show appliesInFlight _ = n
        omega
      · -- a buffer without a time to drain at is empty
        rw [Bool.not_eq_true, Option.isSome_eq_false_iff, Option.isNone_iff_eq_none,
          SharedMessageBuffer.nextFireAt_eq_none_iff] at hfire
        exact absurd hfire hne

/-- The drain timer fired: the buffer is handed over, or a batch in flight will arm the timer
again. -/
theorem DrainScheduled.drain {control : ReaderControl M size} {requests : List (ReaderRequest M)}
    (h : s.DrainScheduled) (hrun : s.stopped = none) (harmed : s.control.drainArmed = true)
    (hr : s.control.onDrain = .ok (control, requests)) :
    DrainScheduled { s with control := control, lane := s.lane ++ requests } := by
  have hcounted := h.counted hrun
  have hne := h.armed hrun harmed
  unfold onDrain at hr
  simp only [canAcceptApplySharedMessageBatch, decide_eq_true_eq] at hr
  by_cases hzero : s.control.inFlightApplySharedMessageBatch = 0
  · simp only [hzero, if_true, SharedMessageBuffer.drain, hne, if_false] at hr
    split at hr
    · cases hr
    · next batch hbatch =>
      cases hr
      have hin : ∀ control : ReaderControl M size, appliesInFlight { s with
          control := control, lane := s.lane ++ [.applySharedMessageBatch batch] } =
            s.appliesInFlight + 1 := by
        intro control
        simp only [appliesInFlight, laneBatches_append, laneBatches_apply, laneBatches_nil,
          List.length_append, List.length_singleton]
        omega
      refine ⟨by rw [hin]; omega, fun _ => ?_, fun _ harmed => absurd harmed Bool.false_ne_true,
        fun _ _ => .inr (by rw [hin]; omega)⟩
      rw [hin, hcounted, hzero]
  · simp only [hzero, if_false] at hr
    cases hr
    have hin : appliesInFlight { s with
        control := { s.control with drainArmed := false }, lane := s.lane ++ [] } =
          s.appliesInFlight := by
      rw [List.append_nil]
      rfl
    refine ⟨by rw [hin]; exact h.inFlight_le, fun _ => hin.trans hcounted,
      fun _ harmed => absurd harmed Bool.false_ne_true, fun _ _ => .inr ?_⟩
    rw [hin, hcounted]
    exact Nat.pos_of_ne_zero hzero

/-- Serving a request answers it. -/
theorem appliesInFlight_serve {request : ReaderRequest M} {requests : List (ReaderRequest M)}
    (hlane : s.lane = request :: requests) :
    (({ s with lane := requests }).serveRequest request).appliesInFlight = s.appliesInFlight := by
  cases request with
  | applySharedMessageBatch batch =>
    simp only [serveRequest]
    split_ifs
    · simp only [appliesInFlight, hlane, laneBatches_apply, List.length_cons, List.length_append,
        List.length_nil]
      omega
    · simp only [appliesInFlight, hlane, laneBatches_apply, List.length_cons, List.length_append,
        List.length_nil]
      omega
  | readStableCursor =>
    simp only [serveRequest, appliesInFlight, hlane, laneBatches_cursor]

theorem appliesInFlight_serveFails {e : SemanticTransactionError} {request : ReaderRequest M}
    {requests : List (ReaderRequest M)} (hlane : s.lane = request :: requests) :
    (({ s with lane := requests }).failRequest e request).appliesInFlight =
      s.appliesInFlight := by
  cases request with
  | applySharedMessageBatch batch =>
    simp only [failRequest, appliesInFlight, hlane, laneBatches_apply, List.length_cons,
      List.length_append, List.length_nil]
    omega
  | readStableCursor =>
    simp only [failRequest, appliesInFlight, hlane, laneBatches_cursor]

/-- The semantic actor touches the database only. -/
theorem control_serveRequest (s : ReaderLoop M size) (request : ReaderRequest M) :
    (s.serveRequest request).control = s.control ∧ (s.serveRequest request).stopped = s.stopped := by
  cases request with
  | applySharedMessageBatch batch =>
    simp only [serveRequest]
    split_ifs <;> exact ⟨rfl, rfl⟩
  | readStableCursor => exact ⟨rfl, rfl⟩

theorem control_failRequest (s : ReaderLoop M size) (e : SemanticTransactionError)
    (request : ReaderRequest M) :
    (s.failRequest e request).control = s.control ∧
      (s.failRequest e request).stopped = s.stopped := by
  cases request <;> exact ⟨rfl, rfl⟩

/-- Every turn keeps the schedule. -/
theorem DrainScheduled.turn (h : s.DrainScheduled) (ht : Turn s a s') : s'.DrainScheduled := by
  cases ht with
  | readerEvent hrun he => exact h.readerEvent hrun
  | applyReply hrun he hr => exact h.applyReply hrun he hr
  | @applyStops now result replies why hrun he hr =>
    refine h.of_stopped ?_ nofun
    rw [appliesInFlight, appliesInFlight, he, List.length_cons]
    exact Nat.add_le_add_left (Nat.le_succ _) _
  | @cursorReply result replies control requests hrun he hr =>
    have hkeep : control = { s.control with readerReconnectCursorInFlight := false } := by
      unfold onReadStableCursor at hr
      split_ifs at hr
      cases result with
      | error e => cases hr
      | ok cursor =>
        simp only at hr
        split_ifs at hr <;> (cases hr; rfl)
    rw [hkeep]
    exact h.of_eq rfl id rfl rfl rfl
  | cursorStops => exact h.of_stopped le_rfl nofun
  | drain hrun harmed hr => exact h.drain hrun harmed hr
  | drainStops => exact h.of_stopped le_rfl nofun
  | readerReconnect hrun harmed =>
    unfold onReaderReconnect
    split_ifs
    · exact h.of_eq (by simp [appliesInFlight]) id rfl rfl rfl
    · exact h.of_eq (by simp [appliesInFlight]) id rfl rfl rfl
  | @serve request requests hlane =>
    obtain ⟨hcontrol, hstopped⟩ := control_serveRequest { s with lane := requests } request
    exact h.of_eq (appliesInFlight_serve hlane) (fun hr => hstopped ▸ hr) (by rw [hcontrol])
      (by rw [hcontrol]) (by rw [hcontrol])
  | @serveFails e request requests hlane =>
    obtain ⟨hcontrol, hstopped⟩ := control_failRequest { s with lane := requests } e request
    exact h.of_eq (appliesInFlight_serveFails hlane) (fun hr => hstopped ▸ hr) (by rw [hcontrol])
      (by rw [hcontrol]) (by rw [hcontrol])
  | connect | deliver | disconnect | reconnect | ignore | append => exact h.of_eq rfl id rfl rfl rfl
  | restart => exact drainScheduled_start

theorem drainScheduled_of_reached (h : (machine size).Reached s) : s.DrainScheduled := by
  refine h.invariant ?_ fun s a s' _ hs _ hstep => hs.turn (turn_of_step hstep)
  rintro s ⟨log, cursor, -, rfl⟩
  exact drainScheduled_start

/-- In every reachable state of a running engine the drain timer runs on a non-empty buffer only,
so a drain finds messages; a non-empty buffer has the timer or a batch in flight; and at most one
batch is in flight. -/
theorem buffer_never_stranded (h : (machine size).Reached s) (hrun : s.stopped = none) :
    (s.control.drainArmed = true → s.control.sharedMessageBuffer.envelopes ≠ [] ∧
      s.control.onDrain ≠ .error .panic) ∧
    (s.control.sharedMessageBuffer.envelopes ≠ [] →
      s.control.drainArmed = true ∨ 0 < s.appliesInFlight) ∧
    s.appliesInFlight ≤ 1 := by
  have hs := drainScheduled_of_reached h
  refine ⟨fun harmed => ⟨hs.armed hrun harmed, fun hpanic => ?_⟩, hs.scheduled hrun, hs.inFlight_le⟩
  have hne := hs.armed hrun harmed
  unfold onDrain at hpanic
  simp only [SharedMessageBuffer.drain, hne, if_false] at hpanic
  split at hpanic
  · split at hpanic <;> cases hpanic
  · cases hpanic

/-- A batch is in flight when the timer fires, and the records behind it stay in the buffer. -/
def lateDrainRun : List (ReaderAction Nat) :=
  [.connect, .deliver, .deliver, .takeReaderEvent 0, .takeReaderEvent 0, .fireDrain,
    .takeReaderEvent 0, .serve, .takeApplyReply 1]

theorem buffer_never_stranded_lateDrainRun : ∃ s : ReaderLoop Nat fun _ => 1,
    (machine fun _ => 1).exec (start 0 [] sampleLog) lateDrainRun = some s ∧
      s.stopped = none ∧ s.control.drainArmed = true ∧
      (s.control.drainArmed = true → s.control.sharedMessageBuffer.envelopes ≠ [] ∧
        s.control.onDrain ≠ .error .panic) ∧
      (s.control.sharedMessageBuffer.envelopes ≠ [] →
        s.control.drainArmed = true ∨ 0 < s.appliesInFlight) ∧
      s.appliesInFlight ≤ 1 := by
  obtain ⟨s, hs, hp⟩ := Machine.exists_exec (M := machine fun _ : Nat => 1)
    (s := start 0 [] sampleLog)
    (p := fun s => decide (s.stopped = none ∧ s.control.drainArmed = true))
    (show (((machine _).exec _ lateDrainRun).any _) = true by decide)
  obtain ⟨hrun, harmed⟩ := of_decide_eq_true hp
  have hinit : (machine fun _ : Nat => 1).initial (start 0 [] sampleLog) :=
    ⟨sampleLog, 0, Nat.zero_le _, rfl⟩
  exact ⟨s, hs, hrun, harmed, buffer_never_stranded (Machine.reached_of_exec hinit hs) hrun⟩

end ReaderLoop

end Opbox
