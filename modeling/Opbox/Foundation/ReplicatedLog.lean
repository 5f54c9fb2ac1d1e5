import Mathlib.Data.Set.Lattice
import Mathlib.Tactic.Common

/-!
# Replicas of one append-only log

Several writers share an append-only log of messages, and every message carries a set of
operations.  A replica holds a set of operations, a cursor into the log and the messages it has
minted but not yet seen through.  It joins the operations of a message when it mints it, and the
operations of the messages of other writers when its cursor passes them; it never joins its own
messages a second time.

`Coherent` says that the contents of a replica are exactly these two parts.  There is one rule for
each thing that can happen, and at the tail of the log with nothing pending the contents are the
operations of the whole log, whichever replica it is.
-/

namespace Opbox

universe u v w

variable {ι : Type u} {M : Type v} {O : Type w}

/-- A replica of the log: what it holds, how far it has read, and what it still has to append. -/
structure Replica (M : Type v) (O : Type w) where
  /-- The operations it holds. -/
  contents : Set O
  /-- The number of log entries it has passed. -/
  cursor : ℕ
  /-- The messages that are minted but perhaps not in the log. -/
  pending : Set M

/-- The operations of a set of messages. -/
def operations (ops : M → Set O) (messages : Set M) : Set O := ⋃ m ∈ messages, ops m

theorem operations_union (ops : M → Set O) (s t : Set M) :
    operations ops (s ∪ t) = operations ops s ∪ operations ops t :=
  Set.biUnion_union s t ops

theorem operations_mono {ops : M → Set O} {s t : Set M} (h : s ⊆ t) :
    operations ops s ⊆ operations ops t :=
  Set.biUnion_subset_biUnion_left h

/-- The messages a writer has in the log. -/
def ownEntries (log : List (ι × M)) (i : ι) : Set M := { m | (i, m) ∈ log }

/-- The messages the other writers have in the log. -/
def foreignEntries (log : List (ι × M)) (i : ι) : Set M := { m | ∃ j ≠ i, (j, m) ∈ log }

/-- The contents of a replica are the operations of what its writer has minted and of what the
other writers have in the log below its cursor. -/
structure Coherent (ops : M → Set O) (log : List (ι × M)) (i : ι) (r : Replica M O) : Prop where
  /-- The cursor is within the log. -/
  cursor_le : r.cursor ≤ log.length
  /-- What the replica holds. -/
  contents_eq : r.contents = operations ops (r.pending ∪ ownEntries log i) ∪
    operations ops (foreignEntries (log.take r.cursor) i)

namespace Coherent

variable {ops : M → Set O} {log : List (ι × M)} {i j : ι} {r : Replica M O}

/-- A new replica of an empty log. -/
theorem initial {r : Replica M O} (hcontents : r.contents = ∅) (hcursor : r.cursor = 0)
    (hpending : r.pending = ∅) : Coherent ops ([] : List (ι × M)) i r where
  cursor_le := hcursor.le
  contents_eq := by
    rw [hcontents, hpending, hcursor]
    simp [operations, ownEntries, foreignEntries]

/-- Minting messages adds them to what is pending and their operations to the contents. -/
theorem mint (h : Coherent ops log i r) (minted : Set M) {r' : Replica M O}
    (hcontents : r'.contents = r.contents ∪ operations ops minted)
    (hcursor : r'.cursor = r.cursor) (hpending : r'.pending = r.pending ∪ minted) :
    Coherent ops log i r' where
  cursor_le := hcursor ▸ h.cursor_le
  contents_eq := by
    rw [hcontents, hcursor, hpending, h.contents_eq, operations_union, operations_union,
      operations_union]
    ac_rfl

/-- Appending a message that is pending, or once more one that is in the log, changes nothing for
its writer. -/
theorem append_own (h : Coherent ops log i r) {m : M} (hm : m ∈ r.pending ∪ ownEntries log i) :
    Coherent ops (log ++ [(i, m)]) i r where
  cursor_le := by
    rw [List.length_append]
    exact h.cursor_le.trans (Nat.le_add_right _ _)
  contents_eq := by
    have hown : r.pending ∪ ownEntries (log ++ [(i, m)]) i = r.pending ∪ ownEntries log i := by
      ext x
      constructor
      · rintro (hx | hx)
        · exact .inl hx
        · rcases List.mem_append.mp hx with hx | hx
          · exact .inr hx
          · rw [List.mem_singleton, Prod.mk.injEq] at hx
            exact hx.2 ▸ hm
      · rintro (hx | hx)
        · exact .inl hx
        · exact .inr (List.mem_append_left _ hx)
    rw [hown, List.take_append_of_le_length h.cursor_le]
    exact h.contents_eq

/-- Appending a message changes nothing for the other replicas: it lies past their cursors. -/
theorem append_foreign (h : Coherent ops log i r) (hj : j ≠ i) (m : M) :
    Coherent ops (log ++ [(j, m)]) i r where
  cursor_le := by
    rw [List.length_append]
    exact h.cursor_le.trans (Nat.le_add_right _ _)
  contents_eq := by
    have hown : ownEntries (log ++ [(j, m)]) i = ownEntries log i := by
      ext x
      constructor
      · intro hx
        rcases List.mem_append.mp hx with hx | hx
        · exact hx
        · rw [List.mem_singleton, Prod.mk.injEq] at hx
          exact absurd hx.1.symm hj
      · exact fun hx => List.mem_append_left _ hx
    rw [hown, List.take_append_of_le_length h.cursor_le]
    exact h.contents_eq

/-- Forgetting pending messages that are in the log changes nothing. -/
theorem trim (h : Coherent ops log i r) {r' : Replica M O} (hcontents : r'.contents = r.contents)
    (hcursor : r'.cursor = r.cursor) (hsub : r'.pending ⊆ r.pending)
    (hlog : ∀ m ∈ r.pending, m ∉ r'.pending → m ∈ ownEntries log i) : Coherent ops log i r' where
  cursor_le := hcursor ▸ h.cursor_le
  contents_eq := by
    have hsame : r'.pending ∪ ownEntries log i = r.pending ∪ ownEntries log i := by
      ext m
      constructor
      · rintro (hm | hm)
        · exact .inl (hsub hm)
        · exact .inr hm
      · rintro (hm | hm)
        · by_cases hm' : m ∈ r'.pending
          · exact .inl hm'
          · exact .inr (hlog m hm hm')
        · exact .inr hm
    rw [hcontents, hcursor, hsame]
    exact h.contents_eq

/-- Reading on joins the operations of the messages of the other writers that the cursor passes. -/
theorem advance (h : Coherent ops log i r) {n : ℕ} (hn : r.cursor + n ≤ log.length)
    {r' : Replica M O}
    (hcontents : r'.contents =
      r.contents ∪ operations ops (foreignEntries ((log.drop r.cursor).take n) i))
    (hcursor : r'.cursor = r.cursor + n) (hpending : r'.pending = r.pending) :
    Coherent ops log i r' where
  cursor_le := hcursor ▸ hn
  contents_eq := by
    have hforeign : foreignEntries (log.take (r.cursor + n)) i =
        foreignEntries (log.take r.cursor) i ∪ foreignEntries ((log.drop r.cursor).take n) i := by
      rw [List.take_add]
      ext m
      constructor
      · rintro ⟨j, hj, hm⟩
        rcases List.mem_append.mp hm with hm | hm
        · exact .inl ⟨j, hj, hm⟩
        · exact .inr ⟨j, hj, hm⟩
      · rintro (⟨j, hj, hm⟩ | ⟨j, hj, hm⟩)
        · exact ⟨j, hj, List.mem_append_left _ hm⟩
        · exact ⟨j, hj, List.mem_append_right _ hm⟩
    rw [hcontents, hcursor, hpending, hforeign, h.contents_eq, operations_union ops (foreignEntries _ _)]
    ac_rfl

/-- At the tail of the log with nothing pending a replica holds the operations of the whole log. -/
theorem contents_at_tail (h : Coherent ops log i r) (hcursor : r.cursor = log.length)
    (hpending : r.pending = ∅) : r.contents = operations ops { m | ∃ j, (j, m) ∈ log } := by
  rw [h.contents_eq, hcursor, hpending, List.take_length, Set.empty_union, ← operations_union]
  congr 1
  ext m
  constructor
  · rintro (hm | ⟨j, -, hm⟩)
    · exact ⟨i, hm⟩
    · exact ⟨j, hm⟩
  · rintro ⟨j, hm⟩
    by_cases hj : j = i
    · exact .inl (hj ▸ hm)
    · exact .inr ⟨j, hj, hm⟩

/-- Two replicas at the tail of the log with nothing pending hold the same. -/
theorem converge {r' : Replica M O} (h : Coherent ops log i r) (h' : Coherent ops log j r')
    (hcursor : r.cursor = log.length) (hcursor' : r'.cursor = log.length)
    (hpending : r.pending = ∅) (hpending' : r'.pending = ∅) : r.contents = r'.contents := by
  rw [h.contents_at_tail hcursor hpending, h'.contents_at_tail hcursor' hpending']

end Coherent

end Opbox
