import Opbox.Log.Types

/-!
# The shared message buffer

Records read from the log wait in the engine until they are handed to the semantic actor as one
batch (`engine/shared_message_buffer.rs`).
-/

namespace Opbox

/-- `MAX_SIZE_BYTES`. -/
def maxSizeBytes : Nat := 1024 * 1024 * 10

variable {M : Type}

/-- `SharedMessageBuffer`; `size` is `approximate_size_bytes`. -/
structure SharedMessageBuffer (M : Type) (size : M → Nat) where
  /-- The size of the buffered messages. -/
  sizeBytes : Nat
  /-- When the oldest message was buffered. -/
  earliestTimestamp : Option Nat
  /-- The messages, oldest first. -/
  envelopes : List (SharedMessageEnvelope M)
  /-- The size is kept up to date. -/
  size_eq : sizeBytes = (envelopes.map fun e => size e.sharedMessage).sum
  /-- There is a time exactly when there is a message. -/
  earliest_iff : earliestTimestamp.isSome = true ↔ envelopes ≠ []

namespace SharedMessageBuffer

variable {size : M → Nat}

/-- The empty buffer. -/
def new : SharedMessageBuffer M size := ⟨0, none, [], rfl, by simp⟩

/-- Append a message. -/
def insert (b : SharedMessageBuffer M size) (now : Nat) (envelope : SharedMessageEnvelope M) :
    SharedMessageBuffer M size where
  sizeBytes := b.sizeBytes + size envelope.sharedMessage
  earliestTimestamp := b.earliestTimestamp.or (some now)
  envelopes := b.envelopes ++ [envelope]
  size_eq := by simp [b.size_eq]
  earliest_iff := by simp

/-- More messages may be buffered. -/
def hasCapacity (b : SharedMessageBuffer M size) : Bool := decide (b.sizeBytes < maxSizeBytes)

/-- `next_fire_at`: when to drain, `maxCoalesce` after the oldest message or now if the buffer is
full. -/
def nextFireAt (b : SharedMessageBuffer M size) (maxCoalesce now : Nat) : Option Nat :=
  if b.hasCapacity then b.earliestTimestamp.map (· + maxCoalesce) else some now

/-- Empty the buffer; the messages it held. -/
def drain (b : SharedMessageBuffer M size) :
    List (SharedMessageEnvelope M) × SharedMessageBuffer M size := (b.envelopes, new)

/-- A drain is due only while there is something to drain. -/
theorem nextFireAt_eq_none_iff {b : SharedMessageBuffer M size} {maxCoalesce now : Nat} :
    b.nextFireAt maxCoalesce now = none ↔ b.envelopes = [] := by
  have hearliest := b.earliest_iff
  unfold nextFireAt
  split_ifs with hcap
  · cases he : b.earliestTimestamp <;> simp_all
  · have hne : b.envelopes ≠ [] := by
      rintro hnil
      simp [hasCapacity, b.size_eq, hnil, maxSizeBytes] at hcap
    simp [hne]

end SharedMessageBuffer

end Opbox
