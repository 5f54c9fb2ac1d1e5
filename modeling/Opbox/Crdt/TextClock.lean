import Mathlib.Data.Finset.Lattice.Fold
import Mathlib.Order.Lattice.Nat
import Opbox.Crdt.Snapshots

/-!
# Clocks of text operations

What the CRDT library says about the operations it mints.  An inserted piece of text is an operation
under the next clock of the client; a deletion marks such an operation and has no clock of its own.
An operation refers to others by client and clock: to the one its client minted before, and to its
neighbours in the text or to what it deletes.
-/

namespace Opbox

universe u

/-- Every operation a set refers to is in the set. -/
def ClosedOps {O K : Type*} (key : O → Option K) (needs : O → Set K) (s : Set O) : Prop :=
  ∀ op ∈ s, ∀ n ∈ needs op, ∃ op' ∈ s, key op' = some n

/-- The operations in `after` but not in `before` are minted by a client from a clock on. -/
structure MintedOps {O : Type*} (opId : O → Option (Nat × Nat)) (needs : O → Set (Nat × Nat))
    (client clock : Nat) (before after : Set O) : Prop where
  /-- Nothing is lost. -/
  subset : before ⊆ after
  /-- A new operation has no clock, or one of the client's next ones. -/
  fresh : ∀ op ∈ after, op ∉ before → ∀ c k, opId op = some (c, k) → c = client ∧ clock ≤ k
  /-- New operations have different clocks. -/
  injective : ∀ op ∈ after, op ∉ before → ∀ op' ∈ after, op' ∉ before → ∀ n, opId op = some n →
    opId op' = some n → op = op'
  /-- New operations refer to what is there. -/
  closed : ClosedOps opId needs before → ClosedOps opId needs after

/-- A CRDT library with its clocks. -/
class ClockedTextCrdt (D : Type) extends TextCrdt D where
  /-- The client and the clock of an operation; a deletion has none. -/
  opId : Op → Option (Nat × Nat)
  /-- What an operation refers to. -/
  needs : Op → Set (Nat × Nat)
  /-- `state_vector`: the next clock of a client. -/
  stateVector : D → Nat → Nat
  lt_stateVector (doc : D) (op : Op) (c k : Nat) : op ∈ ops doc → opId op = some (c, k) →
    k < stateVector doc c
  stateVector_le (doc : D) (c n : Nat) :
    (∀ op ∈ ops doc, ∀ k, opId op = some (c, k) → k < n) → stateVector doc c ≤ n
  minted_insert (client : Nat) (doc : D) (pos : Nat) (chunk : Bytes) :
    MintedOps opId needs client (stateVector doc client) (ops doc)
      (ops (insert client doc pos chunk))
  minted_removeRange (client : Nat) (doc : D) (pos len : Nat) :
    MintedOps opId needs client (stateVector doc client) (ops doc)
      (ops (removeRange client doc pos len))

namespace TextDoc

variable {D : Type} [ClockedTextCrdt D]

open TextCrdt ClockedTextCrdt

/-- A document grows by operations that a client mints. -/
def Minted (client : Nat) (doc doc' : D) : Prop :=
  MintedOps opId needs client (stateVector doc client) (ops doc) (ops doc')

theorem stateVector_mono {doc doc' : D} (h : ops doc ⊆ ops doc') (client : Nat) :
    stateVector doc client ≤ stateVector doc' client :=
  stateVector_le doc client _ fun op hop _ hid => lt_stateVector doc' op client _ (h hop) hid

/-- The state vector depends on the operations of the client only. -/
theorem stateVector_eq {doc doc' : D} {client : Nat}
    (h : ∀ op k, opId op = some (client, k) → (op ∈ ops doc ↔ op ∈ ops doc')) :
    stateVector doc client = stateVector doc' client :=
  le_antisymm
    (stateVector_le doc client _ fun op hop k hid =>
      lt_stateVector doc' op client k ((h op k hid).mp hop) hid)
    (stateVector_le doc' client _ fun op hop k hid =>
      lt_stateVector doc op client k ((h op k hid).mpr hop) hid)

theorem Minted.refl (client : Nat) (doc : D) : Minted client doc doc where
  subset := subset_rfl
  fresh _ hop hnot := absurd hop hnot
  injective _ hop hnot := absurd hop hnot
  closed h := h

theorem Minted.trans {client : Nat} {doc doc' doc'' : D} (h : Minted client doc doc')
    (h' : Minted client doc' doc'') : Minted client doc doc'' where
  subset := h.subset.trans h'.subset
  fresh op hop hnot c k hid := by
    by_cases hmid : op ∈ ops doc'
    · exact h.fresh op hmid hnot c k hid
    · obtain ⟨rfl, hk⟩ := h'.fresh op hop hmid c k hid
      exact ⟨rfl, (stateVector_mono h.subset c).trans hk⟩
  injective op hop hnot op' hop' hnot' n hid hid' := by
    obtain ⟨c, k⟩ := n
    by_cases hmid : op ∈ ops doc' <;> by_cases hmid' : op' ∈ ops doc'
    · exact h.injective op hmid hnot op' hmid' hnot' _ hid hid'
    · obtain ⟨rfl, hk⟩ := h'.fresh op' hop' hmid' c k hid'
      exact absurd (lt_stateVector doc' op c k hmid hid) (not_lt.mpr hk)
    · obtain ⟨rfl, hk⟩ := h'.fresh op hop hmid c k hid
      exact absurd (lt_stateVector doc' op' c k hmid' hid') (not_lt.mpr hk)
    · exact h'.injective op hop hmid op' hop' hmid' _ hid hid'
  closed hdoc := h'.closed (h.closed hdoc)

theorem minted_replay (client : Nat) (runs : List Change) (doc : D) (pos : Nat) :
    Minted client doc (replay client doc pos runs) := by
  induction runs generalizing doc pos with
  | nil => exact .refl client doc
  | cons c runs ih =>
    obtain ⟨tag, value⟩ := c
    cases tag with
    | equal => exact ih doc _
    | delete => exact Minted.trans (minted_removeRange client doc pos value.length) (ih _ pos)
    | insert => exact Minted.trans (minted_insert client doc pos value) (ih _ _)

theorem minted_replaceText (client : Nat) (doc : D) (oldLength : Nat) (new : Bytes) :
    Minted client doc (replaceText client doc oldLength new) := by
  have hremove : Minted client doc (removeRange client doc 0 oldLength) :=
    minted_removeRange client doc 0 oldLength
  unfold replaceText
  split_ifs with hnew
  · exact hremove
  · exact hremove.trans (minted_insert client _ 0 new)

/-- A captured edit is minted on the document it edits. -/
theorem minted_captureTextChange [CharDiff] {client : Nat} {doc : D} {old new : Bytes}
    {capture : TextCapture D} (h : captureTextChange client doc old new = some capture) :
    Minted client doc capture.fullStateBytes := by
  unfold captureTextChange at h
  split_ifs at h with hne
  cases h
  show Minted client doc (applyStringDiff client doc old new)
  unfold applyStringDiff
  split_ifs
  · exact minted_replaceText client doc _ new
  · exact minted_replay client _ doc 0

/-- The document of a new file is minted on the empty one. -/
theorem minted_textStateFromContent (client : Nat) (content : Bytes) :
    Minted client (emptyTextState : D) (textStateFromContent client content) := by
  unfold textStateFromContent
  split_ifs
  · exact .refl client _
  · exact minted_insert client TextCrdt.new 0 content

end TextDoc

namespace Snapshots

/-- The next clock of a client. -/
def Doc.stateVector (doc : Doc) (client : Nat) : Nat :=
  (doc.snapshots.filter fun s => (ofLex (ofLex s).2).1 = client).sup fun s => (ofLex s).1 + 1

theorem Doc.minted_write (doc : Doc) (client : Nat) (text : Bytes) :
    MintedOps (fun s : Snapshot => some ((ofLex (ofLex s).2).1, (ofLex s).1)) (fun _ => ∅) client
      (doc.stateVector client) (doc.snapshots : Set Snapshot) (doc.write client text).snapshots where
  subset := doc.subset_write client text
  fresh s hs hnot c k hid := by
    rcases Finset.mem_insert.mp (Finset.mem_coe.mp hs) with rfl | hs
    · cases hid
      refine ⟨rfl, Finset.sup_le fun t ht => ?_⟩
      obtain ⟨latest, hlatest, hle⟩ := le_latest (Finset.mem_filter.mp ht).1
      have hclock : doc.clock = (ofLex latest).1 := by rw [clock, hlatest]; rfl
      have hfst := Prod.Lex.monotone_fst _ _ hle
      show (ofLex t).1 + 1 ≤ doc.clock + 1
      rw [hclock]
      exact Nat.succ_le_succ hfst
    · exact absurd hs hnot
  injective s hs hnot t ht hnot' _ _ _ := by
    rcases Finset.mem_insert.mp (Finset.mem_coe.mp hs) with rfl | hs
    · rcases Finset.mem_insert.mp (Finset.mem_coe.mp ht) with rfl | ht
      · rfl
      · exact absurd ht hnot'
    · exact absurd hs hnot
  closed _ _ _ _ hn := absurd hn (Set.notMem_empty _)

/-- A snapshot stands on its own. -/
instance : ClockedTextCrdt Doc where
  opId s := some ((ofLex (ofLex s).2).1, (ofLex s).1)
  needs _ := ∅
  stateVector := Doc.stateVector
  lt_stateVector doc s c k hs hid := by
    cases hid
    exact Nat.lt_of_lt_of_le (Nat.lt_succ_self _) (Finset.le_sup
      (f := fun s : Snapshot => (ofLex s).1 + 1) (Finset.mem_filter.mpr ⟨hs, rfl⟩))
  stateVector_le doc c n h := by
    refine Finset.sup_le fun s hs => ?_
    obtain ⟨hmem, hclient⟩ := Finset.mem_filter.mp hs
    exact h s hmem _ (congrArg (fun client => some (client, _)) hclient)
  minted_insert client doc _ _ := doc.minted_write client _
  minted_removeRange client doc _ _ := doc.minted_write client _

end Snapshots

end Opbox
