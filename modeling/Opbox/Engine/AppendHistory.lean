import Opbox.Engine.OutboxOrder

/-!
# The appends of one connection

The product of `OutboxLoop` with a record of what the current connection has accepted, and what the
order of the ids under way says about it.
-/

namespace Opbox

/-- The product, with a record of the appends the current connection has accepted. -/
structure AppendHistory (M : Type) where
  /-- The product. -/
  loop : OutboxLoop M
  /-- The ids of the accepted appends of the current, or the last, connection, oldest first. -/
  appended : List OutboxId

namespace AppendHistory

variable {M : Type} {inlined : M → Bool} {r r' : AppendHistory M} {a : OutboxAction M}

/-- The accepted appends after an action: a new connection has none. -/
def appendedAfter (inlined : M → Bool) (r : AppendHistory M) (a : OutboxAction M) : List OutboxId :=
  match a, r.loop.writer, r.loop.writerRequests with
  | .connect, _, _ => []
  | .restart, _, _ => []
  | .receive, .connected c, .append id message :: _ =>
    if (c.receive inlined (.append id message)).isSome then r.appended ++ [id] else r.appended
  | _, _, _ => r.appended

/-- The product with its history. -/
def machine (inlined : M → Bool) : Machine (AppendHistory M) (OutboxAction M) where
  initial r := r = ⟨.start .empty [], []⟩
  step r a := (OutboxLoop.step inlined r.loop a).map fun s => ⟨s, r.appendedAfter inlined a⟩

/-- The writer's assertion holds, the appends of a connection are a gap-free run of ids that starts
at the lowest id in the table, and the log gets them in this order. -/
structure GapFree (inlined : M → Bool) (r : AppendHistory M) : Prop where
  /-- The writer has not panicked. -/
  running : r.loop.writer ≠ .panicked
  /-- The ids are consecutive. -/
  consecutive : ∃ first, r.appended = List.range' first r.appended.length
  /-- The next append is accepted, and the first one carries the lowest id in the table. -/
  next : ∀ c id message requests, r.loop.writer = .connected c → c.bigUpload = none →
    r.loop.writerRequests = .append id message :: requests →
      (c.receive inlined (.append id message)).isSome = true ∧
        (r.appended = [] → IsLeast { i | ∃ row ∈ r.loop.outbox.rows, row.outboxId = i } id)
  /-- What waits for its acknowledgement is the end of the run, in its order. -/
  submitted : ∀ c, r.loop.writer = .connected c → c.accepted.map Prod.fst <:+ r.appended

/-- What the history has to do with the connection. -/
structure HistoryInv (r : AppendHistory M) : Prop where
  /-- The ids are consecutive. -/
  consecutive : ∃ first, r.appended = List.range' first r.appended.length
  /-- A connection that expects any id has accepted nothing. -/
  untouched : ∀ c, r.loop.writer = .connected c → c.nextExpectedOutboxId = none → r.appended = []
  /-- The run ends before the expected id. -/
  continued : ∀ c next, r.loop.writer = .connected c → c.nextExpectedOutboxId = some next →
    ∃ start < next, r.appended = List.range' start (next - start)
  /-- What waits for its acknowledgement is the end of the run. -/
  submitted : ∀ c, r.loop.writer = .connected c → c.accepted.map Prod.fst <:+ r.appended

theorem historyInv_nil {s : OutboxLoop M}
    (h : ∀ c, s.writer = .connected c → c = WriterConnection.fresh) :
    HistoryInv ⟨s, []⟩ where
  consecutive := ⟨0, rfl⟩
  untouched := fun _ _ _ => rfl
  continued := by
    intro c next hw hnext
    rw [h c hw] at hnext
    cases hnext
  submitted := by
    intro c hw
    rw [h c hw]
    exact List.suffix_rfl

/-- Other actions than an append keep what a connection expects, and only acknowledge what it has
accepted. -/
theorem writer_of_step {s s' : OutboxLoop M} (h : OutboxLoop.step inlined s a = some s')
    (hconnect : a ≠ .connect) (hrestart : a ≠ .restart) (hreceive : a ≠ .receive)
    {c' : WriterConnection M} (hw' : s'.writer = .connected c') :
    ∃ c, s.writer = .connected c ∧ c'.nextExpectedOutboxId = c.nextExpectedOutboxId ∧
      c'.accepted <:+ c.accepted := by
  cases OutboxLoop.turn_of_step h with
  | writerEvent | readReply | releaseReply | engineStops | readyEvent | writerReconnect
  | serveRead | serveReadFails | serveRelease | serveTrim | mutate =>
    exact ⟨c', hw', rfl, List.suffix_rfl⟩
  | connect => exact absurd rfl hconnect
  | restart => exact absurd rfl hrestart
  | accept | writerPanics | reconnect | discard => exact absurd rfl hreceive
  | writerLost => cases hw'
  | @uploaded c pointer hw hbig =>
    cases hw'
    refine ⟨c, hw, rfl, ?_⟩
    simp [WriterConnection.accepted, hbig]
  | @acknowledge c record records hw hp =>
    cases hw'
    refine ⟨c, hw, rfl, [record], ?_⟩
    simp [WriterConnection.accepted, hp]

/-- An accepted append extends the run. -/
theorem HistoryInv.append (h : r.HistoryInv) {c c' : WriterConnection M} {id : OutboxId}
    {message : M} {requests : List (LogWriterRequest M)} (hw : r.loop.writer = .connected c)
    (hbig : c.bigUpload = none) (hc : c.receive inlined (.append id message) = some c') :
    HistoryInv ⟨{ r.loop with writer := .connected c', writerRequests := requests },
      r.appended ++ [id]⟩ := by
  have hnext := OutboxLoop.receive_append_eq hc
  have hrun : ∃ start < id + 1, r.appended ++ [id] = List.range' start (id + 1 - start) := by
    cases hexp : c.nextExpectedOutboxId with
    | none =>
      refine ⟨id, Nat.lt_succ_self id, ?_⟩
      rw [h.untouched c hw hexp, Nat.add_sub_cancel_left]
      rfl
    | some next =>
      obtain ⟨start, hlt, hids⟩ := h.continued c next hw hexp
      have hid : next = id := by
        by_contra hne
        rw [WriterConnection.receive, hexp, if_neg (by simpa using hne)] at hc
        cases hc
      subst hid
      refine ⟨start, Nat.lt_succ_of_lt hlt, ?_⟩
      rw [hids]
      exact range'_append_of_le hlt.le 1
  refine ⟨?_, ?_, ?_, ?_⟩
  · obtain ⟨start, -, hids⟩ := hrun
    refine ⟨start, ?_⟩
    show r.appended ++ [id] = List.range' start (r.appended ++ [id]).length
    rw [hids, List.length_range']
  · intro d hd hnone
    cases hd
    rw [hnext] at hnone
    cases hnone
  · intro d next hd hsome
    cases hd
    rw [hnext, Option.some.injEq] at hsome
    exact hsome ▸ hrun
  · intro d hd
    cases hd
    obtain ⟨pre, hpre⟩ := h.submitted c hw
    refine ⟨pre, ?_⟩
    rw [WriterConnection.receive_append hbig hc, List.map_append, ← List.append_assoc, hpre]
    rfl

/-- Every step keeps the history in line with the connection. -/
theorem HistoryInv.step (h : r.HistoryInv)
    (hstep : (machine inlined).step r a = some r') : r'.HistoryInv := by
  obtain ⟨s', hs', rfl⟩ := Option.map_eq_some_iff.mp hstep
  cases a with
  | connect =>
    refine historyInv_nil fun c hc => ?_
    simp only [OutboxLoop.step] at hs'
    split at hs' <;> cases hs'
    cases hc
    rfl
  | restart =>
    refine historyInv_nil fun c hc => ?_
    cases hs'
    cases hc
  | receive =>
    have hsame : ∀ {s : OutboxLoop M}, (∀ c, s.writer = .connected c → r.loop.writer = .connected c) →
        HistoryInv ⟨s, r.appended⟩ := fun hs =>
      ⟨h.consecutive, fun c hw => h.untouched c (hs c hw), fun c next hw => h.continued c next (hs c hw),
        fun c hw => h.submitted c (hs c hw)⟩
    simp only [OutboxLoop.step] at hs'
    split at hs'
    · next c request requests hw hreq =>
      split_ifs at hs' with hbig
      have hbig' : c.bigUpload = none := by simpa using hbig
      cases request with
      | reconnect =>
        have hafter : r.appendedAfter inlined .receive = r.appended := by
          simp [appendedAfter, hw, hreq]
        cases hs'
        rw [hafter]
        exact hsame fun d hd => hw.trans hd
      | append id message =>
        cases hc : c.receive inlined (.append id message) with
        | none =>
          have hafter : r.appendedAfter inlined .receive = r.appended := by
            simp [appendedAfter, hw, hreq, hc]
          rw [hc] at hs'
          cases hs'
          rw [hafter]
          exact hsame fun d hd => by cases hd
        | some c' =>
          have hafter : r.appendedAfter inlined .receive = r.appended ++ [id] := by
            simp [appendedAfter, hw, hreq, hc]
          rw [hc] at hs'
          cases hs'
          rw [hafter]
          exact h.append hw hbig' hc
    · next hw hreq =>
      have hafter : r.appendedAfter inlined .receive = r.appended := by
        simp [appendedAfter, hw, hreq]
      cases hs'
      rw [hafter]
      exact hsame fun d hd => by cases hd
    · next hw hreq =>
      have hafter : r.appendedAfter inlined .receive = r.appended := by
        simp [appendedAfter, hw, hreq]
      cases hs'
      rw [hafter]
      exact hsame fun d hd => hd
    · cases hs'
  | _ =>
    have hwriter : ∀ {c'}, s'.writer = .connected c' → _ :=
      fun hw' => writer_of_step hs' (by simp) (by simp) (by simp) hw'
    refine ⟨h.consecutive, fun c' hw' hnone => ?_, fun c' next hw' hsome => ?_, fun c' hw' => ?_⟩
    · obtain ⟨c, hw, hexp, -⟩ := hwriter hw'
      exact h.untouched c hw (hexp ▸ hnone)
    · obtain ⟨c, hw, hexp, -⟩ := hwriter hw'
      exact h.continued c next hw (hexp ▸ hsome)
    · obtain ⟨c, hw, -, hsuffix⟩ := hwriter hw'
      exact (hsuffix.map Prod.fst).trans (h.submitted c hw)

/-- The invariants hold along every run that forwards no stale messages. -/
theorem inv_of_reachable
    (h : (machine inlined).Reachable (fun r a => r.loop.ForwardsNoStaleRead a) r) :
    (r.loop.OutboxInv ∧ r.loop.OrderInv) ∧ r.HistoryInv := by
  have hloop : (OutboxLoop.machine inlined).Reachable OutboxLoop.ForwardsNoStaleRead r.loop ∧
      r.HistoryInv := by
    refine h.invariant (I := fun r => (OutboxLoop.machine inlined).Reachable
      OutboxLoop.ForwardsNoStaleRead r.loop ∧ r.HistoryInv) ?_ ?_
    · rintro r rfl
      exact ⟨.init rfl, historyInv_nil fun c hc => by cases hc⟩
    · intro r a r' _ hr hP hstep
      refine ⟨?_, hr.2.step hstep⟩
      obtain ⟨s', hs', rfl⟩ := Option.map_eq_some_iff.mp hstep
      exact hr.1.step hP hs'
  exact ⟨OutboxLoop.orderInv_of_reachable hloop.1, hloop.2⟩

/-- In every run that forwards no stale messages the writer's contiguity assertion holds, the
appends a connection accepts are consecutive and start at the lowest id in the table, and they are
submitted in this order. -/
theorem connection_appends_gap_free (inlined : M → Bool)
    (h : (machine inlined).Reachable (fun r a => r.loop.ForwardsNoStaleRead a) r) :
    r.GapFree inlined := by
  obtain ⟨⟨hinv, horder⟩, hhistory⟩ := inv_of_reachable h
  refine ⟨horder.running, hhistory.consecutive, fun c id message requests hw _ hreq => ?_,
    hhistory.submitted⟩
  refine ⟨horder.receive_isSome hinv hw hreq, fun hnil => ?_⟩
  obtain ⟨-, -, first, middle, hspans, hid, hlt, -⟩ := horder.next_append hinv hw hreq
  have hexp : r.loop.expected = none := by
    have hexp : r.loop.expected = c.nextExpectedOutboxId := by rw [OutboxLoop.expected, hw]
    rw [hexp]
    cases hnext : c.nextExpectedOutboxId with
    | none => rfl
    | some next =>
      obtain ⟨start, hlt, hids⟩ := hhistory.continued c next hw hnext
      rw [hnil] at hids
      have hlength := congrArg List.length hids
      rw [List.length_nil, List.length_range'] at hlength
      lia
  rw [hexp, Option.getD_none] at hid
  exact hid ▸ hspans.isLeast (hid ▸ hlt)

/-- Two messages are appended on one connection, the second in parts. -/
def twoAppendsRun : List (OutboxAction Nat) :=
  [.mutate [10, 11], .connect, .takeWriterEvent, .serve, .takeReadReply, .receive, .receive,
    .uploaded, .acknowledge]

theorem connection_appends_gap_free_twoAppendsRun : ∃ r : AppendHistory Nat,
    (machine fun m => decide (m = 10)).exec ⟨.start .empty [], []⟩ twoAppendsRun = some r ∧
      r.appended = [0, 1] ∧ r.GapFree fun m => decide (m = 10) := by
  have hmeets : (machine fun m : Nat => decide (m = 10)).Meets
      (fun r a => r.loop.ForwardsNoStaleRead a) ⟨.start .empty [], []⟩ twoAppendsRun := by
    decide +kernel
  obtain ⟨r, hr, hp⟩ := Machine.exists_exec
    (M := machine fun m : Nat => decide (m = 10)) (s := ⟨.start .empty [], []⟩)
    (p := fun r => decide (r.appended = [0, 1]))
    (show (((machine _).exec _ twoAppendsRun).any _) = true by decide +kernel)
  have hreach := Machine.Reachable.exec (.init rfl) hmeets hr
  exact ⟨r, hr, of_decide_eq_true hp, connection_appends_gap_free _ hreach⟩

/-- The stale read of `staleReadRun`, and then the read that reserves the released row again: the
connection that has accepted row 1 gets row 0. -/
def secondReadRun : List (OutboxAction Nat) :=
  OutboxLoop.staleReadRun.take 19 ++ [.takeReadReply, .receive]

/-- Not every run appends without a gap: after `secondReadRun` the writer's assertion has failed. -/
theorem not_connection_appends_gap_free :
    ¬∀ r : AppendHistory Nat, (machine fun _ => true).Reached r → r.GapFree fun _ => true := by
  intro h
  obtain ⟨r, hr, hp⟩ := Machine.exists_exec (M := machine fun _ : Nat => true)
    (s := ⟨.start .empty [], []⟩) (p := fun r => decide (r.loop.writer = .panicked))
    (show (((machine _).exec _ secondReadRun).any _) = true by decide +kernel)
  exact (h r (Machine.reached_of_exec rfl hr)).running (of_decide_eq_true hp)

end AppendHistory

end Opbox
