import Opbox.Foundation.Text

/-!
# Shared log messages

Envelopes of records read from the shared log, and batches of envelopes with consecutive sequence
numbers (`log/types.rs`, `types.rs`).
-/

namespace Opbox

/-- Byte strings. -/
abbrev Bytes := List (Fin 256)

/-- Stable identity for a daemon within a workspace. -/
abbrev DaemonWriterId := Bytes

/-- Position of a record in the shared log. -/
abbrev SequenceNumber := Nat

/-- Who appended a record, and under which outbox id. -/
structure SharedMessageOrigin where
  /-- The appending daemon. -/
  daemonWriterId : DaemonWriterId
  /-- The outbox row the record was made from. -/
  outboxId : Nat
  deriving DecidableEq, Repr

/-- A record of the shared log as the reader delivers it. -/
structure SharedMessageEnvelope (M : Type) where
  /-- When the log took the record. -/
  timestamp : Nat
  /-- Its position. -/
  sequenceNumber : SequenceNumber
  /-- Who appended it. -/
  origin : SharedMessageOrigin
  /-- Its content. -/
  sharedMessage : M
  deriving DecidableEq, Repr

variable {M : Type}

/-- A record of the shared log, before it is read: everything but its position. -/
structure LogRecord (M : Type) where
  /-- When the log took the record. -/
  timestamp : Nat
  /-- Who appended it. -/
  origin : SharedMessageOrigin
  /-- Its content. -/
  sharedMessage : M
  deriving DecidableEq, Repr

/-- The envelope of a record at a position. -/
def LogRecord.envelope (r : LogRecord M) (n : SequenceNumber) : SharedMessageEnvelope M :=
  ⟨r.timestamp, n, r.origin, r.sharedMessage⟩

/-- The sequence numbers of a list of envelopes count up from `first`. -/
def Consecutive (first : SequenceNumber) : List (SharedMessageEnvelope M) → Prop
  | [] => True
  | e :: es => e.sequenceNumber = first ∧ Consecutive (first + 1) es

/-- `SharedMessageBatch`: a non-empty run of consecutive log records. -/
structure SharedMessageBatch (M : Type) where
  /-- The start of `sequence_range`. -/
  first : SequenceNumber
  /-- The records. -/
  messages : List (SharedMessageEnvelope M)
  /-- There is a record. -/
  nonempty : messages ≠ []
  /-- The records are consecutive. -/
  consecutive : Consecutive first messages

/-- The cursor after the batch: one past the end of `sequence_range`. -/
def SharedMessageBatch.next (b : SharedMessageBatch M) : SequenceNumber :=
  b.first + b.messages.length

/-- The loop of `SharedMessageBatch::try_from`: every message follows the one before. -/
def contiguousAfter (running : SequenceNumber) : List (SharedMessageEnvelope M) → Bool
  | [] => true
  | e :: es => decide (e.sequenceNumber = running + 1) && contiguousAfter e.sequenceNumber es

theorem contiguousAfter_iff {es : List (SharedMessageEnvelope M)} {running : SequenceNumber} :
    contiguousAfter running es = true ↔ Consecutive (running + 1) es := by
  induction es generalizing running with
  | nil => simp [contiguousAfter, Consecutive]
  | cons e es ih =>
    simp only [contiguousAfter, Consecutive, Bool.and_eq_true, decide_eq_true_eq, ih]
    constructor
    · rintro ⟨he, hes⟩
      exact ⟨he, he ▸ hes⟩
    · rintro ⟨he, hes⟩
      exact ⟨he, he ▸ hes⟩

/-- `SharedMessageBatch::try_from`. -/
def SharedMessageBatch.tryFrom :
    List (SharedMessageEnvelope M) → Except String (SharedMessageBatch M)
  | [] => .error "empty batch"
  | e :: es =>
    if ((e :: es).getLast (List.cons_ne_nil e es)).sequenceNumber < e.sequenceNumber then
      .error "sequence numbers out of order"
    else if h : contiguousAfter e.sequenceNumber es = true then
      .ok ⟨e.sequenceNumber, e :: es, List.cons_ne_nil e es, rfl, contiguousAfter_iff.mp h⟩
    else .error "sequence numbers not contiguous"

theorem consecutive_append {es es' : List (SharedMessageEnvelope M)} {first : Nat} :
    Consecutive first (es ++ es') ↔
      Consecutive first es ∧ Consecutive (first + es.length) es' := by
  induction es generalizing first with
  | nil => simp [Consecutive]
  | cons e es ih =>
    simp only [List.cons_append, Consecutive, ih, List.length_cons, Nat.add_assoc,
      Nat.add_comm 1 es.length, and_assoc]

/-- The last of consecutive envelopes does not precede the first. -/
theorem Consecutive.first_le {es : List (SharedMessageEnvelope M)} {first : Nat}
    (h : Consecutive first es) {e : SharedMessageEnvelope M} (he : e ∈ es) :
    first ≤ e.sequenceNumber := by
  induction es generalizing first with
  | nil => cases he
  | cons x es ih =>
    rcases List.mem_cons.mp he with rfl | he
    · exact h.1.ge
    · exact (Nat.le_succ first).trans (ih h.2 he)

/-- The envelopes of a piece of the log that starts at position `n`. -/
def envelopesFrom (n : SequenceNumber) : List (LogRecord M) → List (SharedMessageEnvelope M)
  | [] => []
  | r :: rs => r.envelope n :: envelopesFrom (n + 1) rs

theorem envelopesFrom_append {rs rs' : List (LogRecord M)} {n : Nat} :
    envelopesFrom n (rs ++ rs') = envelopesFrom n rs ++ envelopesFrom (n + rs.length) rs' := by
  induction rs generalizing n with
  | nil => simp [envelopesFrom]
  | cons r rs ih =>
    simp only [List.cons_append, envelopesFrom, ih, List.length_cons, Nat.add_assoc,
      Nat.add_comm 1 rs.length]

/-- The envelope is the log's record at its position. -/
def Genuine (log : List (LogRecord M)) (e : SharedMessageEnvelope M) : Prop :=
  ∃ r, log[e.sequenceNumber]? = some r ∧ e = r.envelope e.sequenceNumber

theorem Genuine.append {log : List (LogRecord M)} {e : SharedMessageEnvelope M}
    (h : Genuine log e) (r : LogRecord M) : Genuine (log ++ [r]) e := by
  obtain ⟨r', hr', he⟩ := h
  refine ⟨r', ?_, he⟩
  rw [List.getElem?_append_left (List.getElem?_eq_some_iff.mp hr').1]
  exact hr'

/-- Consecutive genuine envelopes are the piece of the log at their positions. -/
theorem Consecutive.eq_envelopesFrom {log : List (LogRecord M)}
    {es : List (SharedMessageEnvelope M)} {first : Nat} (h : Consecutive first es)
    (hg : ∀ e ∈ es, Genuine log e) :
    es = envelopesFrom first ((log.drop first).take es.length) ∧
      (es ≠ [] → first + es.length ≤ log.length) := by
  induction es generalizing first with
  | nil => simp [envelopesFrom]
  | cons e es ih =>
    obtain ⟨rfl, hes⟩ := h
    obtain ⟨ih, hle⟩ := ih hes fun x hx => hg x (List.mem_cons_of_mem _ hx)
    obtain ⟨r, hr, he⟩ := hg e List.mem_cons_self
    obtain ⟨hlt, hget⟩ := List.getElem?_eq_some_iff.mp hr
    refine ⟨?_, fun _ => ?_⟩
    · rw [List.length_cons, List.drop_eq_getElem_cons hlt, hget, List.take_succ_cons, envelopesFrom,
        ← he, ← ih]
    · cases es with
      | nil => exact hlt
      | cons x es =>
        have := hle (List.cons_ne_nil x es)
        simp only [List.length_cons] at this ⊢
        omega

/-- Consecutive envelopes form a batch. -/
theorem SharedMessageBatch.tryFrom_of_consecutive {es : List (SharedMessageEnvelope M)}
    {first : Nat} (hne : es ≠ []) (h : Consecutive first es) :
    ∃ b : SharedMessageBatch M, tryFrom es = .ok b ∧ b.first = first ∧ b.messages = es := by
  cases es with
  | nil => exact absurd rfl hne
  | cons e es =>
    obtain ⟨rfl, hes⟩ := h
    have hlast : ¬((e :: es).getLast (List.cons_ne_nil e es)).sequenceNumber <
        e.sequenceNumber := by
      have hall : Consecutive e.sequenceNumber (e :: es) := ⟨rfl, hes⟩
      exact Nat.not_lt.mpr (hall.first_le (List.getLast_mem (List.cons_ne_nil e es)))
    have hcont := contiguousAfter_iff.mpr hes
    refine ⟨⟨e.sequenceNumber, e :: es, List.cons_ne_nil e es, rfl, hes⟩, ?_, rfl, rfl⟩
    rw [tryFrom, if_neg hlast, dif_pos hcont]

/-! ## Runs of batches -/

/-- Every batch starts where the one before it ended, and the first at `first`. -/
def BatchesFrom (first : SequenceNumber) : List (SharedMessageBatch M) → Prop
  | [] => True
  | batch :: batches => batch.first = first ∧ BatchesFrom batch.next batches

/-- The records of some batches. -/
def recordsOf (batches : List (SharedMessageBatch M)) :
    List (SharedMessageEnvelope M) :=
  batches.flatMap SharedMessageBatch.messages

theorem recordsOf_cons {batch : SharedMessageBatch M}
    {batches : List (SharedMessageBatch M)} :
    recordsOf (batch :: batches) = batch.messages ++ recordsOf batches := List.flatMap_cons

theorem recordsOf_append {batches batches' : List (SharedMessageBatch M)} :
    recordsOf (batches ++ batches') = recordsOf batches ++ recordsOf batches' := List.flatMap_append

theorem batchesFrom_append {first : SequenceNumber}
    {batches batches' : List (SharedMessageBatch M)} :
    BatchesFrom first (batches ++ batches') ↔
      BatchesFrom first batches ∧ BatchesFrom (first + (recordsOf batches).length) batches' := by
  induction batches generalizing first with
  | nil => simp [BatchesFrom, recordsOf]
  | cons batch batches ih =>
    rw [List.cons_append, BatchesFrom, BatchesFrom, ih, and_assoc]
    refine and_congr_right fun hfirst => and_congr_right fun _ => ?_
    have hlength : batch.next + (recordsOf batches).length =
        first + (recordsOf (batch :: batches)).length := by
      rw [recordsOf_cons, List.length_append, SharedMessageBatch.next, hfirst]
      exact Nat.add_assoc _ _ _
    rw [hlength]

end Opbox
