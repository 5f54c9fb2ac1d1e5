import Mathlib.Algebra.GroupWithZero.Nat
import Mathlib.Data.List.Sort
import Opbox.Foundation.Table

/-!
# The durable outbox

The `outbox` table with the id counter `daemon_state.next_outbox_id`, and the transaction
operations on them: allocation and insertion of messages, reservation of a batch for the log
writer, trimming of acknowledged rows and the release of all reservations
(`semantic/transaction.rs`).
-/

namespace Opbox

/-- Failures of a transaction on the local database. -/
inductive SemanticTransactionError where
  /-- A check of the transaction code failed. -/
  | invariantViolation (message : String)
  /-- A constraint of the schema failed. -/
  | constraint (table : String) (columns : String)
  /-- A conversion failed. -/
  | fatal (message : String)
  deriving DecidableEq, Repr

/-- `i64::MAX`, the largest integer a database column holds. -/
def i64Max : Nat := 2 ^ 63 - 1

/-- ID for a message within the durable operation outbox. -/
abbrev OutboxId := Nat

/-- `OutboxId::checked_next`: the next `u64`. -/
def OutboxId.checkedNext (id : OutboxId) : Option OutboxId :=
  if id + 1 < 2 ^ 64 then some (id + 1) else none

variable {M : Type}

/-- A row of the `outbox` table: a shared-log record not yet acknowledged by the log writer. -/
structure OutboxRow (M : Type) where
  /-- The primary key. -/
  outboxId : OutboxId
  /-- The record. -/
  sharedMessage : M
  /-- Reserved for the log writer. -/
  inflight : Bool
  deriving DecidableEq, Repr

/-- The record a row is appended as: its own id and message. -/
def OutboxRow.entry (row : OutboxRow M) : OutboxId × M := (row.outboxId, row.sharedMessage)

/-- The `outbox` table and the allocation counter. -/
structure Outbox (M : Type) where
  /-- The rows. -/
  rows : Table (OutboxRow.outboxId (M := M))
  /-- `daemon_state.next_outbox_id`. -/
  nextOutboxId : OutboxId

namespace Outbox

/-- The outbox of a new database. -/
def empty : Outbox M := ⟨Table.empty, 0⟩

/-- Allocate `count` consecutive ids; the first of them. -/
def reserveOutboxIds (o : Outbox M) (count : Nat) :
    Except SemanticTransactionError (Outbox M × Option OutboxId) :=
  if count = 0 then .ok (o, none)
  else if o.nextOutboxId + count ≤ i64Max then
    .ok ({ o with nextOutboxId := o.nextOutboxId + count }, some o.nextOutboxId)
  else .error (.invariantViolation "next_outbox_id overflow")

/-- Insert one row under an allocated id. -/
def insertOutboxMessage (o : Outbox M) (id : OutboxId) (message : M) :
    Except SemanticTransactionError (Outbox M) :=
  match o.rows.insert? ⟨id, message, false⟩ with
  | some rows => .ok { o with rows := rows }
  | none => .error (.constraint "outbox" "outbox_id")

/-- Insert rows under consecutive ids. -/
def insertOutboxMessages (o : Outbox M) (first : OutboxId) :
    List M → Except SemanticTransactionError (Outbox M)
  | [] => .ok o
  | message :: messages => do
    let o ← o.insertOutboxMessage first message
    o.insertOutboxMessages (first + 1) messages

/-- The outbox phase of a local mutation: allocate ids for its messages and insert them. -/
def pushOutboxMessages (o : Outbox M) (messages : List M) :
    Except SemanticTransactionError (Outbox M) := do
  let (o, first) ← o.reserveOutboxIds messages.length
  match first with
  | none => .ok o
  | some first => o.insertOutboxMessages first messages

/-- `assert_contiguous_outbox_rows`, from the second row on. -/
def assertContiguousFrom (expected : OutboxId) :
    List (OutboxRow M) → Except SemanticTransactionError Unit
  | [] => .ok ()
  | row :: rows =>
    if row.inflight then
      .error (.invariantViolation
        s!"selected outbox row OutboxId({row.outboxId}) was already inflight")
    else if row.outboxId ≠ expected then
      .error (.invariantViolation
        s!"outbox reservation selected non-contiguous rows; expected OutboxId({expected}), saw OutboxId({row.outboxId})")
    else
      match row.outboxId.checkedNext with
      | none => .error (.invariantViolation "outbox id overflow while validating reservation")
      | some next => assertContiguousFrom next rows

/-- `assert_contiguous_outbox_rows`. -/
def assertContiguousOutboxRows : List (OutboxRow M) → Except SemanticTransactionError Unit
  | [] => .ok ()
  | row :: rows => assertContiguousFrom row.outboxId (row :: rows)

/-- The rows that are not reserved, in id order. -/
def unreserved (o : Outbox M) : List (OutboxRow M) :=
  (o.rows.select fun row => !row.inflight).insertionSort fun a b => a.outboxId ≤ b.outboxId

/-- The rows the reserving update hits. -/
def reserveRange (first last : OutboxId) (row : OutboxRow M) : Bool :=
  !row.inflight && decide (first ≤ row.outboxId) && decide (row.outboxId ≤ last)

/-- Mark a row as reserved or not. -/
def setInflight (b : Bool) (row : OutboxRow M) : OutboxRow M := { row with inflight := b }

@[simp] theorem setInflight_outboxId (b : Bool) (row : OutboxRow M) :
    (setInflight b row).outboxId = row.outboxId := rfl

/-- `UPDATE outbox SET inflight = b WHERE hit`. -/
def setInflightWhere (o : Outbox M) (hit : OutboxRow M → Bool) (b : Bool) : Outbox M :=
  { o with rows := o.rows.updateWhere hit (setInflight b) (setInflight_outboxId b) }

/-- Reserve at most `limit` rows for the log writer, in id order. -/
def reserveOutboxMessages (o : Outbox M) (limit : Nat) :
    Except SemanticTransactionError (Outbox M × List (OutboxId × M)) := do
  if i64Max < limit then
    throw (.invariantViolation "outbox read limit out of range")
  let rows := o.unreserved.take limit
  assertContiguousOutboxRows rows
  match rows.head?, rows.getLast? with
  | some first, some last =>
    let hit := reserveRange first.outboxId last.outboxId
    let updated := (o.rows.select hit).length
    if updated ≠ rows.length then
      throw (.invariantViolation s!"reserved {updated} outbox rows, expected {rows.length}")
    return (o.setInflightWhere hit true, rows.map OutboxRow.entry)
  | _, _ => return (o, [])

/-- Delete the reserved rows up to an acknowledged id. -/
def trimOutbox (o : Outbox M) (through : OutboxId) : Outbox M :=
  { o with rows := o.rows.deleteWhere fun row => decide (row.outboxId ≤ through) && row.inflight }

/-- The trimming transaction: the bound has to fit a database column. -/
def trimOutboxTx (o : Outbox M) (through : OutboxId) :
    Except SemanticTransactionError (Outbox M) :=
  if i64Max < through then .error (.invariantViolation "trim outbox end out of range")
  else .ok (o.trimOutbox through)

/-- Give every reservation back; the number of rows released. -/
def releaseOutboxMessages (o : Outbox M) : Outbox M × Nat :=
  (o.setInflightWhere (·.inflight) false, (o.rows.select (·.inflight)).length)

/-! ## What the operations do to the records -/

/-- The records in the table. -/
def store (o : Outbox M) : Set (OutboxId × M) := { e | ∃ row ∈ o.rows, row.entry = e }

/-- A record of the table is reserved. -/
def Reserved (o : Outbox M) (e : OutboxId × M) : Prop :=
  ∃ row ∈ o.rows, row.entry = e ∧ row.inflight = true

/-- All ids in the table have been allocated. -/
def Allocated (o : Outbox M) : Prop := ∀ e ∈ o.store, e.1 < o.nextOutboxId

theorem allocated_empty : (empty : Outbox M).Allocated := by
  rintro e ⟨row, hrow, -⟩
  exact absurd hrow (by simp [empty])

theorem entry_mem_store {o : Outbox M} {row : OutboxRow M} (h : row ∈ o.rows) :
    row.entry ∈ o.store := ⟨row, h, rfl⟩

theorem Reserved.mem_store {o : Outbox M} {e : OutboxId × M} (h : o.Reserved e) : e ∈ o.store := by
  obtain ⟨row, hrow, he, -⟩ := h
  exact ⟨row, hrow, he⟩

/-- Records of one id are equal. -/
theorem eq_of_mem_store {o : Outbox M} {e e' : OutboxId × M} (he : e ∈ o.store)
    (he' : e' ∈ o.store) (h : e.1 = e'.1) : e = e' := by
  obtain ⟨row, hrow, rfl⟩ := he
  obtain ⟨row', hrow', rfl⟩ := he'
  rw [Table.eq_of_key_eq hrow hrow' h]

/-- Inserting one message adds its unreserved record. -/
theorem insertOutboxMessage_spec {o o' : Outbox M} {id : OutboxId} {message : M}
    (h : o.insertOutboxMessage id message = .ok o') :
    o'.nextOutboxId = o.nextOutboxId ∧
      ∀ row, row ∈ o'.rows ↔ row = ⟨id, message, false⟩ ∨ row ∈ o.rows := by
  unfold insertOutboxMessage at h
  split at h
  next rows hrows =>
    cases h
    exact ⟨rfl, fun row => Table.mem_insert? hrows⟩
  next => cases h

/-- Inserting a batch adds unreserved records with ids of the batch's interval. -/
theorem insertOutboxMessages_spec {messages : List M} {o o' : Outbox M} {first : OutboxId}
    (h : o.insertOutboxMessages first messages = .ok o') :
    o'.nextOutboxId = o.nextOutboxId ∧
      ∀ row, row ∈ o'.rows ↔ row ∈ o.rows ∨
        ∃ i, ∃ hi : i < messages.length, row = ⟨first + i, messages[i], false⟩ := by
  induction messages generalizing o first with
  | nil =>
    cases h
    simp
  | cons message messages ih =>
    rw [insertOutboxMessages] at h
    cases hins : o.insertOutboxMessage first message with
    | error e => rw [hins] at h; cases h
    | ok o₁ =>
      rw [hins] at h
      obtain ⟨hnext, hrows⟩ := insertOutboxMessage_spec hins
      obtain ⟨hnext', hrows'⟩ := ih h
      refine ⟨hnext'.trans hnext, fun row => ?_⟩
      rw [hrows', hrows]
      constructor
      · rintro ((rfl | hrow) | ⟨i, hi, rfl⟩)
        · exact .inr ⟨0, by simp, rfl⟩
        · exact .inl hrow
        · exact .inr ⟨i + 1, by simpa using hi, by simp [Nat.add_assoc, Nat.add_comm 1 i]⟩
      · rintro (hrow | ⟨_ | i, hi, rfl⟩)
        · exact .inl (.inr hrow)
        · exact .inl (.inl rfl)
        · exact .inr ⟨i, by simpa using hi, by simp [Nat.add_assoc, Nat.add_comm 1 i]⟩

/-- A local mutation adds unreserved records under newly allocated ids and keeps all others. -/
theorem pushOutboxMessages_spec {o o' : Outbox M} {messages : List M}
    (h : o.pushOutboxMessages messages = .ok o') :
    o'.nextOutboxId = o.nextOutboxId + messages.length ∧
      ∀ row, row ∈ o'.rows ↔ row ∈ o.rows ∨ ∃ i, ∃ hi : i < messages.length,
        row = ⟨o.nextOutboxId + i, messages[i], false⟩ := by
  unfold pushOutboxMessages reserveOutboxIds at h
  split_ifs at h with hz hmax
  · cases h
    simp only [hz, Nat.add_zero, true_and]
    intro row
    simp [List.length_eq_zero_iff.mp hz]
  · exact insertOutboxMessages_spec h
  · cases h

/-- A local mutation keeps the records and adds records under newly allocated ids. -/
theorem mem_store_pushOutboxMessages {o o' : Outbox M} {messages : List M}
    (h : o.pushOutboxMessages messages = .ok o') {e : OutboxId × M} (he : e ∈ o'.store) :
    e ∈ o.store ∨ (o.nextOutboxId ≤ e.1 ∧ e.1 < o'.nextOutboxId) := by
  obtain ⟨hnext, hrows⟩ := pushOutboxMessages_spec h
  obtain ⟨row, hrow, rfl⟩ := he
  rcases (hrows row).mp hrow with hrow | ⟨i, hi, rfl⟩
  · exact .inl ⟨row, hrow, rfl⟩
  · exact .inr ⟨Nat.le_add_right _ _, hnext ▸ Nat.add_lt_add_left hi _⟩

/-- A local mutation reserves nothing. -/
theorem reserved_of_pushOutboxMessages {o o' : Outbox M} {messages : List M}
    (h : o.pushOutboxMessages messages = .ok o') {e : OutboxId × M} (he : o'.Reserved e) :
    o.Reserved e := by
  obtain ⟨row, hrow, rfl, hin⟩ := he
  rcases ((pushOutboxMessages_spec h).2 row).mp hrow with hrow | ⟨i, hi, rfl⟩
  · exact ⟨row, hrow, rfl, hin⟩
  · exact absurd hin Bool.false_ne_true

theorem allocated_pushOutboxMessages {o o' : Outbox M} {messages : List M}
    (h : o.pushOutboxMessages messages = .ok o') (ho : o.Allocated) : o'.Allocated := by
  intro e he
  rcases mem_store_pushOutboxMessages h he with he | ⟨-, hlt⟩
  · exact (ho e he).trans_le ((pushOutboxMessages_spec h).1 ▸ Nat.le_add_right _ _)
  · exact hlt

/-- The rows that a local mutation adds are those of its messages. -/
theorem mem_pushed_iff {o o' : Outbox M} {messages : List M}
    (h : o.pushOutboxMessages messages = .ok o') (ho : o.Allocated) {row : OutboxRow M} :
    row ∈ o'.rows ∧ row ∉ o.rows ↔ ∃ i, ∃ hi : i < messages.length,
      row = ⟨o.nextOutboxId + i, messages[i], false⟩ := by
  rw [(pushOutboxMessages_spec h).2]
  constructor
  · rintro ⟨hrow | hrow, hnew⟩
    · exact absurd hrow hnew
    · exact hrow
  · rintro ⟨i, hi, rfl⟩
    refine ⟨.inr ⟨i, hi, rfl⟩, fun hold => ?_⟩
    have hlt : o.nextOutboxId + i < o.nextOutboxId := ho _ (entry_mem_store hold)
    exact absurd hlt (Nat.not_lt.mpr (Nat.le_add_right _ _))

/-- Where one message of a local mutation meets a condition, one row that it adds does. -/
theorem existsUnique_pushed {o o' : Outbox M} {messages : List M} {P : M → Prop}
    (h : o.pushOutboxMessages messages = .ok o') (ho : o.Allocated)
    (honce : messages.Pairwise fun a b => P a → ¬P b) {message : M} (hmem : message ∈ messages)
    (hmessage : P message) :
    ∃! row, (row ∈ o'.rows ∧ row ∉ o.rows) ∧ P row.sharedMessage := by
  obtain ⟨i, hi, rfl⟩ := List.getElem_of_mem hmem
  refine ⟨⟨o.nextOutboxId + i, messages[i], false⟩,
    ⟨(mem_pushed_iff h ho).mpr ⟨i, hi, rfl⟩, hmessage⟩, ?_⟩
  rintro row ⟨hrow, hP⟩
  obtain ⟨j, hj, rfl⟩ := (mem_pushed_iff h ho).mp hrow
  have hpair := List.pairwise_iff_getElem.mp honce
  rcases lt_trichotomy i j with hlt | rfl | hlt
  · exact absurd hP (hpair i j hi hj hlt hmessage)
  · rfl
  · exact absurd hmessage (hpair j i hj hi hlt hP)

/-- Trimming keeps the counter and deletes reserved rows up to the bound. -/
theorem mem_trimOutbox {o : Outbox M} {through : OutboxId} {row : OutboxRow M} :
    row ∈ (o.trimOutbox through).rows ↔
      row ∈ o.rows ∧ ¬(row.outboxId ≤ through ∧ row.inflight = true) := by
  rw [trimOutbox, Table.mem_deleteWhere]
  simp

/-- The transaction trims when it commits. -/
theorem trimOutboxTx_eq_ok {o o' : Outbox M} {through : OutboxId} :
    o.trimOutboxTx through = .ok o' ↔ through ≤ i64Max ∧ o' = o.trimOutbox through := by
  unfold trimOutboxTx
  split_ifs with hbound
  · exact iff_of_false (by simp) fun h => absurd h.1 (Nat.not_le.mpr hbound)
  · rw [Except.ok.injEq, eq_comm]
    exact (and_iff_right (Nat.le_of_not_lt hbound)).symm

/-- Trimming removes records and reservations only. -/
theorem store_trimOutbox_subset (o : Outbox M) (through : OutboxId) :
    (o.trimOutbox through).store ⊆ o.store := by
  rintro e ⟨row, hrow, rfl⟩
  exact ⟨row, (mem_trimOutbox.mp hrow).1, rfl⟩

theorem reserved_of_trimOutbox {o : Outbox M} {through : OutboxId} {e : OutboxId × M}
    (h : (o.trimOutbox through).Reserved e) : o.Reserved e := by
  obtain ⟨row, hrow, he, hin⟩ := h
  exact ⟨row, (mem_trimOutbox.mp hrow).1, he, hin⟩

theorem mem_setInflightWhere {o : Outbox M} {hit : OutboxRow M → Bool} {b : Bool}
    {row : OutboxRow M} : row ∈ (o.setInflightWhere hit b).rows ↔
      ∃ s ∈ o.rows, (if hit s then setInflight b s else s) = row :=
  (@Table.mem_updateWhere _ _ _ o.rows hit (setInflight b) (setInflight_outboxId b) row)

/-- Marking rows keeps the records. -/
theorem store_setInflightWhere (o : Outbox M) (hit : OutboxRow M → Bool) (b : Bool) :
    (o.setInflightWhere hit b).store = o.store := by
  ext e
  constructor
  · rintro ⟨row, hrow, rfl⟩
    obtain ⟨s, hs, rfl⟩ := mem_setInflightWhere.mp hrow
    exact ⟨s, hs, by split_ifs <;> rfl⟩
  · rintro ⟨row, hrow, rfl⟩
    exact ⟨_, mem_setInflightWhere.mpr ⟨row, hrow, rfl⟩, by split_ifs <;> rfl⟩

/-- After a release nothing is reserved. -/
theorem not_reserved_releaseOutboxMessages (o : Outbox M) (e : OutboxId × M) :
    ¬o.releaseOutboxMessages.1.Reserved e := by
  rintro ⟨row, hrow, -, hin⟩
  obtain ⟨s, -, rfl⟩ := mem_setInflightWhere.mp hrow
  split_ifs at hin with h
  · exact Bool.false_ne_true hin
  · exact h hin

/-- The unreserved rows are listed by strictly increasing ids. -/
theorem pairwise_unreserved (o : Outbox M) :
    o.unreserved.Pairwise fun a b => a.outboxId < b.outboxId := by
  have hperm := List.perm_insertionSort (fun a b : OutboxRow M => a.outboxId ≤ b.outboxId)
    (o.rows.select fun row => !row.inflight)
  have hnodup : (o.unreserved.map OutboxRow.outboxId).Nodup :=
    (hperm.map _).nodup_iff.mpr
      (o.rows.keys_nodup.sublist (List.filter_sublist.map OutboxRow.outboxId))
  have hle : o.unreserved.Pairwise fun a b => a.outboxId ≤ b.outboxId := by
    have : IsTrans (OutboxRow M) fun a b => a.outboxId ≤ b.outboxId := ⟨fun _ _ _ => le_trans⟩
    have : Std.Total fun a b : OutboxRow M => a.outboxId ≤ b.outboxId := ⟨fun _ _ => le_total _ _⟩
    exact List.pairwise_insertionSort _ _
  exact hle.imp₂ (fun _ _ h h' => lt_of_le_of_ne h h') (List.pairwise_map.mp hnodup)

theorem mem_unreserved {o : Outbox M} {row : OutboxRow M} :
    row ∈ o.unreserved ↔ row ∈ o.rows ∧ row.inflight = false := by
  simp [unreserved]

/-- Unreserved rows below a listed row are listed before it. -/
theorem mem_of_lt_of_take_unreserved {o : Outbox M} {limit : Nat} {pre post : List (OutboxRow M)}
    {x row : OutboxRow M} (h : o.unreserved.take limit = pre ++ x :: post)
    (hrow : row ∈ o.rows) (hin : row.inflight = false) (hlt : row.outboxId < x.outboxId) :
    row ∈ pre := by
  have hsplit : o.unreserved = pre ++ x :: (post ++ o.unreserved.drop limit) := by
    conv_lhs => rw [← List.take_append_drop limit o.unreserved, h]
    simp
  have hsorted := pairwise_unreserved o
  have hmem : row ∈ o.unreserved := mem_unreserved.mpr ⟨hrow, hin⟩
  rw [hsplit] at hsorted hmem
  rcases List.mem_append.mp hmem with hpre | hrest
  · exact hpre
  · rcases List.mem_cons.mp hrest with rfl | hpost
    · exact absurd hlt (lt_irrefl _)
    · have := (List.pairwise_cons.mp (List.pairwise_append.mp hsorted).2.1).1 row hpost
      exact absurd hlt (not_lt.mpr this.le)

/-- A successful reservation: the handed out messages are the first unreserved rows, and the rows
hit by the update are marked. -/
theorem reserveOutboxMessages_eq {o o' : Outbox M} {limit : Nat} {messages : List (OutboxId × M)}
    (h : o.reserveOutboxMessages limit = .ok (o', messages)) :
    messages = (o.unreserved.take limit).map OutboxRow.entry ∧
      (o' = o ∨ ∃ first last, (o.unreserved.take limit).getLast? = some last ∧
        o' = o.setInflightWhere (reserveRange first last.outboxId) true) := by
  simp only [reserveOutboxMessages, bind, Except.bind, pure, Except.pure, throw, throwThe,
    MonadExceptOf.throw] at h
  split_ifs at h with hlimit
  cases hassert : assertContiguousOutboxRows (o.unreserved.take limit) with
  | error e => simp [hassert] at h
  | ok u =>
    simp only [hassert] at h
    split at h
    next first last hfirst hlast =>
      split_ifs at h with hcount
      cases h
      exact ⟨rfl, .inr ⟨_, last, hlast, rfl⟩⟩
    next hnone =>
      cases h
      refine ⟨?_, .inl rfl⟩
      cases hrows : o.unreserved.take limit with
      | nil => rfl
      | cons row rows =>
        rw [hrows] at hnone
        exact absurd (List.getLast?_eq_some_getLast (List.cons_ne_nil row rows))
          (hnone row _ rfl)

/-- What a reservation does: the counter and the records stay, the handed out messages are the
records of the first unreserved rows, and what becomes reserved is handed out. -/
theorem reserveOutboxMessages_spec {o o' : Outbox M} {limit : Nat} {messages : List (OutboxId × M)}
    (h : o.reserveOutboxMessages limit = .ok (o', messages)) :
    o'.nextOutboxId = o.nextOutboxId ∧ o'.store = o.store ∧
      messages = (o.unreserved.take limit).map OutboxRow.entry ∧
      ∀ e, o'.Reserved e → o.Reserved e ∨ e ∈ messages := by
  obtain ⟨rfl, rfl | ⟨first, last, hlast, rfl⟩⟩ := reserveOutboxMessages_eq h
  · exact ⟨rfl, rfl, rfl, fun e he => .inl he⟩
  refine ⟨rfl, store_setInflightWhere .., rfl, ?_⟩
  rintro e ⟨row, hrow, rfl, hin⟩
  obtain ⟨s, hs, rfl⟩ := mem_setInflightWhere.mp hrow
  split_ifs at hin ⊢ with hhit
  · refine .inr (List.mem_map.mpr ⟨s, ?_, rfl⟩)
    simp only [reserveRange, Bool.and_eq_true, Bool.not_eq_true', decide_eq_true_eq] at hhit
    obtain ⟨pre, hpre⟩ := List.getLast?_eq_some_iff.mp hlast
    rcases hhit.2.lt_or_eq with hlt | heq
    · rw [hpre]
      exact List.mem_append_left _ (mem_of_lt_of_take_unreserved hpre hs hhit.1.1 hlt)
    · have hmem : last ∈ o.unreserved.take limit := List.mem_of_getLast? hlast
      have hlastRow := (mem_unreserved.mp (List.mem_of_mem_take hmem)).1
      rwa [Table.eq_of_key_eq hs hlastRow heq]
  · exact .inl ⟨s, hs, rfl, hin⟩

end Outbox

end Opbox
