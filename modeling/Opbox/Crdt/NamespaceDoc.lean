import Mathlib.Data.Finset.Lattice.Fold
import Mathlib.Data.Finset.Union
import Mathlib.Data.Finset.Option
import Mathlib.Data.Prod.Lex
import Mathlib.Order.Lattice.Nat
import Mathlib.Data.Fin.Basic
import Mathlib.Data.List.Lex
import Opbox.Foundation.SortedList
import Opbox.Fs.Path
import Opbox.Log.Types

/-!
# The namespace document

One replicated document per workspace with three maps: object metadata, placement claims and
removed claims (`crdt/namespace.rs`).  A document is the finite set of its operations and merging
is union.  A map entry is the last of the operations that set its key, in the order of client and
clock.
-/

namespace Opbox

/-- Stable identity for a synced object. -/
abbrev ObjectId := Bytes

/-- Stable identity for an immutable namespace placement claim. -/
abbrev NamespaceClaimId := Bytes

/-- `client_id_for_writer`: the first four bytes of the writer id, as a positive number. -/
def clientIdForWriter (writerId : DaemonWriterId) : Nat :=
  let id := ((writerId ++ List.replicate 4 0).take 4).foldl (fun n (b : Fin 256) => 256 * n + b.val) 0
  if id = 0 then 1 else id

/-- The bits of a byte, most significant first. -/
def byteBits (b : Fin 256) : List Bool :=
  [b.val.testBit 7, b.val.testBit 6, b.val.testBit 5, b.val.testBit 4, b.val.testBit 3,
    b.val.testBit 2, b.val.testBit 1, b.val.testBit 0]

/-- The number a bit string denotes, most significant bit first. -/
def bitsToNat (bits : List Bool) : Nat := bits.foldl (fun n b => 2 * n + b.toNat) 0

/-- The alphabet of `encode_b64`. -/
def base64Alphabet : List Char :=
  "ABCDEFGHIJKLMNOPQRSTUVWXYZabcdefghijklmnopqrstuvwxyz0123456789+/".toList

/-- Digits of a bit string, six bits each, with padding. -/
def base64Digits : List Bool → List Char
  | a :: b :: c :: d :: e :: f :: bits =>
    base64Alphabet.getD (bitsToNat [a, b, c, d, e, f]) 'A' :: base64Digits bits
  | [] => []
  | bits =>
    base64Alphabet.getD (bitsToNat (bits ++ List.replicate (6 - bits.length) false)) 'A' ::
      List.replicate ((6 - bits.length) / 2) '='

/-- `encode_b64`. -/
def encodeB64 (bytes : Bytes) : String := String.ofList (base64Digits (bytes.flatMap byteBits))

/-- What an object holds. -/
inductive ObjectKind where
  | text
  | binary
  | dir
  deriving DecidableEq, Repr

/-- The position of a kind in its declaration. -/
def ObjectKind.index : ObjectKind → Nat
  | text => 0
  | binary => 1
  | dir => 2

theorem ObjectKind.index_injective : Function.Injective ObjectKind.index := by
  intro a b h
  cases a <;> cases b <;> first | rfl | cases h

instance : LinearOrder ObjectKind := LinearOrder.lift' ObjectKind.index ObjectKind.index_injective

/-- Materialized object metadata. -/
structure ObjectMeta where
  /-- What the object holds. -/
  kind : ObjectKind
  /-- Who created it. -/
  creatorWriterId : DaemonWriterId
  deriving DecidableEq

/-- The order on metadata that breaks ties between operations of one key. -/
instance : LinearOrder ObjectMeta :=
  LinearOrder.lift' (fun m => toLex (m.kind, m.creatorWriterId)) fun ⟨_, _⟩ ⟨_, _⟩ h => by
    cases Prod.mk.inj (toLex.injective h) with | intro hk hc => subst hk hc; rfl

/-- The record of a claim: an object placed at a path. -/
structure ClaimRecord where
  /-- The object. -/
  objectId : ObjectId
  /-- The requested path. -/
  path : RelativePath
  deriving DecidableEq

/-- The order on claim records that breaks ties between operations of one key. -/
instance : LinearOrder ClaimRecord :=
  LinearOrder.lift' (fun r => toLex (r.objectId, r.path)) fun ⟨_, _⟩ ⟨_, _⟩ h => by
    cases Prod.mk.inj (toLex.injective h) with | intro ho hp => subst ho hp; rfl

/-- What an operation sets. -/
inductive NsEntry where
  /-- An entry of the `objects` map. -/
  | object (id : ObjectId) (metadata : ObjectMeta)
  /-- An entry of the `claims` map. -/
  | claim (id : NamespaceClaimId) (record : ClaimRecord)
  /-- An entry of the `removed_claims` map. -/
  | removed (id : NamespaceClaimId)
  deriving DecidableEq

/-- An operation: a map entry set under a client's clock. -/
structure NsOp where
  /-- The client that minted the operation. -/
  client : Nat
  /-- The client's clock then. -/
  clock : Nat
  /-- What it sets. -/
  entry : NsEntry
  deriving DecidableEq

/-- A namespace document, or an update to one: a set of operations. -/
abbrev NamespaceDoc := Finset NsOp

/-- The metadata an entry sets for an object. -/
def NsEntry.meta? (id : ObjectId) : NsEntry → Option ObjectMeta
  | .object id' m => if id' = id then some m else none
  | _ => none

/-- The record an entry sets for a claim. -/
def NsEntry.record? (id : NamespaceClaimId) : NsEntry → Option ClaimRecord
  | .claim id' r => if id' = id then some r else none
  | _ => none

/-- The object whose metadata an entry sets. -/
def NsEntry.object? : NsEntry → Option ObjectId
  | .object id _ => some id
  | _ => none

/-- The claim an entry records. -/
def NsEntry.claim? : NsEntry → Option NamespaceClaimId
  | .claim id _ => some id
  | _ => none

/-- The claim an entry removes. -/
def NsEntry.removed? : NsEntry → Option NamespaceClaimId
  | .removed id => some id
  | _ => none

namespace NamespaceDoc

/-- `empty_namespace_state`. -/
def emptyNamespaceState : NamespaceDoc := ∅

/-- `apply_update`: merging is union. -/
def applyUpdate (doc update : NamespaceDoc) : NamespaceDoc := doc ∪ update

/-- `state_vector`: the next clock of a client. -/
def stateVector (doc : NamespaceDoc) (client : Nat) : Nat :=
  (doc.filter fun op => op.client = client).sup fun op => op.clock + 1

/-- `encode_update_since`: the operations at or past a state vector. -/
def encodeUpdateSince (doc : NamespaceDoc) (sv : Nat → Nat) : NamespaceDoc :=
  doc.filter fun op => sv op.client ≤ op.clock

/-- A local mutation: one operation under the client's next clock. -/
def mint (client : Nat) (doc : NamespaceDoc) (entry : NsEntry) : NamespaceDoc :=
  insert ⟨client, doc.stateVector client, entry⟩ doc

/-- `add_new_object`. -/
def addNewObject (client : Nat) (doc : NamespaceDoc) (id : ObjectId) (kind : ObjectKind)
    (creator : DaemonWriterId) : NamespaceDoc :=
  mint client doc (.object id ⟨kind, creator⟩)

/-- `add_new_claim`. -/
def addNewClaim (client : Nat) (doc : NamespaceDoc) (id : NamespaceClaimId) (objectId : ObjectId)
    (path : RelativePath) : NamespaceDoc :=
  mint client doc (.claim id ⟨objectId, path⟩)

/-- `remove_claim`. -/
def removeClaim (client : Nat) (doc : NamespaceDoc) (id : NamespaceClaimId) : NamespaceDoc :=
  mint client doc (.removed id)

/-- What the entries of a document set, as a set of values. -/
def values {V : Type} [DecidableEq V] (doc : NamespaceDoc) (f : NsEntry → Option V) : Finset V :=
  doc.biUnion fun op => (f op.entry).toFinset

/-- The operations that set a key, with their values, ordered by client and clock. -/
def writes {V : Type} [LinearOrder V] (doc : NamespaceDoc) (f : NsEntry → Option V) :
    Finset (ℕ ×ₗ ℕ ×ₗ V) :=
  doc.biUnion fun op => (f op.entry).toFinset.image fun v => toLex (op.client, toLex (op.clock, v))

/-- The value of a map entry. -/
def mapGet {V : Type} [LinearOrder V] (doc : NamespaceDoc) (f : NsEntry → Option V) : Option V :=
  (sortedList (doc.writes f)).getLast?.map fun w => (ofLex (ofLex w).2).2

/-- `get_object`. -/
def getObject (doc : NamespaceDoc) (id : ObjectId) : Option ObjectMeta := doc.mapGet (NsEntry.meta? id)

/-- `get_claim`. -/
def getClaim (doc : NamespaceDoc) (id : NamespaceClaimId) : Option ClaimRecord :=
  doc.mapGet (NsEntry.record? id)

/-- `all_object_ids`. -/
def allObjectIds (doc : NamespaceDoc) : Finset ObjectId := doc.values NsEntry.object?

/-- The keys of the `claims` map. -/
def claimIds (doc : NamespaceDoc) : Finset NamespaceClaimId := doc.values NsEntry.claim?

/-- `removed_claim_ids`. -/
def removedClaimIds (doc : NamespaceDoc) : Finset NamespaceClaimId := doc.values NsEntry.removed?

/-- The claims that are present and not removed. -/
def activeClaimIds (doc : NamespaceDoc) : Finset NamespaceClaimId :=
  doc.claimIds \ doc.removedClaimIds

/-! ## Values of documents -/

section Values

variable {doc doc' : NamespaceDoc}

@[simp] theorem mem_values {V : Type} [DecidableEq V] {f : NsEntry → Option V} {v : V} :
    v ∈ doc.values f ↔ ∃ op ∈ doc, f op.entry = some v := by
  simp [values]

theorem values_union {V : Type} [DecidableEq V] (f : NsEntry → Option V) :
    (doc ∪ doc').values f = doc.values f ∪ doc'.values f :=
  Finset.union_biUnion

theorem mem_writes {V : Type} [LinearOrder V] {f : NsEntry → Option V} {w : ℕ ×ₗ ℕ ×ₗ V} :
    w ∈ doc.writes f ↔
      ∃ op ∈ doc, ∃ v, f op.entry = some v ∧ toLex (op.client, toLex (op.clock, v)) = w := by
  simp [writes]

theorem writes_union {V : Type} [LinearOrder V] (f : NsEntry → Option V) :
    (doc ∪ doc').writes f = doc.writes f ∪ doc'.writes f :=
  Finset.union_biUnion

variable {V : Type} [LinearOrder V] {f : NsEntry → Option V}

/-- An entry has the value of one of the operations that set its key. -/
theorem exists_of_mapGet {v : V} (h : doc.mapGet f = some v) :
    ∃ op ∈ doc, f op.entry = some v := by
  obtain ⟨w, hw, rfl⟩ := Option.map_eq_some_iff.mp h
  obtain ⟨op, hop, v, hv, rfl⟩ := mem_writes.mp (mem_sortedList.mp (List.mem_of_getLast? hw))
  exact ⟨op, hop, hv⟩

/-- A key without operations has no entry. -/
theorem mapGet_eq_none_iff : doc.mapGet f = none ↔ ∀ op ∈ doc, f op.entry = none := by
  rw [mapGet, Option.map_eq_none_iff, List.getLast?_eq_none_iff, sortedList_eq_nil,
    Finset.eq_empty_iff_forall_notMem]
  constructor
  · intro h op hop
    by_contra hne
    obtain ⟨v, hv⟩ := Option.ne_none_iff_exists'.mp hne
    exact h _ (mem_writes.mpr ⟨op, hop, v, hv, rfl⟩)
  · rintro h w hw
    obtain ⟨op, hop, v, hv, -⟩ := mem_writes.mp hw
    rw [h op hop] at hv
    cases hv

/-- A key all of whose operations agree has their value. -/
theorem mapGet_eq_some {op : NsOp} {v : V} (hop : op ∈ doc) (hv : f op.entry = some v)
    (hagree : ∀ op' ∈ doc, ∀ v', f op'.entry = some v' → v' = v) : doc.mapGet f = some v := by
  cases h : doc.mapGet f with
  | none => rw [mapGet_eq_none_iff.mp h op hop] at hv; cases hv
  | some v' =>
    obtain ⟨op', hop', hv'⟩ := exists_of_mapGet h
    rw [hagree op' hop' v' hv']

/-- Operations on other keys leave an entry as it is. -/
theorem mapGet_union (h : ∀ op ∈ doc', f op.entry = none) :
    (doc ∪ doc').mapGet f = doc.mapGet f := by
  have hempty : doc'.writes f = ∅ := by
    rw [Finset.eq_empty_iff_forall_notMem]
    intro w hw
    obtain ⟨op, hop, v, hv, -⟩ := mem_writes.mp hw
    rw [h op hop] at hv
    cases hv
  rw [mapGet, writes_union, hempty, Finset.union_empty]
  rfl

end Values

/-! ## Minting -/

section Minting

variable {client : Nat} {doc : NamespaceDoc}

/-- Apply several local mutations in order. -/
def mintAll (client : Nat) (doc : NamespaceDoc) (entries : List NsEntry) : NamespaceDoc :=
  entries.foldl (mint client) doc

/-- The operations minted for a list of entries from a clock on. -/
def mintedOps (client : Nat) : Nat → List NsEntry → NamespaceDoc
  | _, [] => ∅
  | clock, entry :: entries => insert ⟨client, clock, entry⟩ (mintedOps client (clock + 1) entries)

theorem lt_stateVector {op : NsOp} (h : op ∈ doc) : op.clock < doc.stateVector op.client :=
  Nat.lt_of_lt_of_le (Nat.lt_succ_self _)
    (Finset.le_sup (f := fun op : NsOp => op.clock + 1) (by simpa using h))

theorem stateVector_mint (entry : NsEntry) :
    (mint client doc entry).stateVector client = doc.stateVector client + 1 := by
  have hfilter : (mint client doc entry).filter (fun op => op.client = client) =
      insert ⟨client, doc.stateVector client, entry⟩
        (doc.filter fun op => op.client = client) := by
    rw [mint, Finset.filter_insert, if_pos rfl]
  rw [stateVector, hfilter, Finset.sup_insert]
  exact max_eq_left (Nat.le_succ _)

/-- Local mutations add the operations minted from the client's clock on. -/
theorem mintAll_eq (entries : List NsEntry) :
    mintAll client doc entries = doc ∪ mintedOps client (doc.stateVector client) entries := by
  induction entries generalizing doc with
  | nil => simp [mintAll, mintedOps]
  | cons entry entries ih =>
    have hstep : mintAll client doc (entry :: entries) =
        mintAll client (mint client doc entry) entries := rfl
    rw [hstep, ih, stateVector_mint, mintedOps, mint]
    rw [Finset.insert_union, Finset.union_insert]

theorem mem_mintedOps {clock : Nat} {entries : List NsEntry} {op : NsOp}
    (h : op ∈ mintedOps client clock entries) :
    op.client = client ∧ clock ≤ op.clock ∧ op.entry ∈ entries := by
  induction entries generalizing clock with
  | nil => simp [mintedOps] at h
  | cons entry entries ih =>
    rcases Finset.mem_insert.mp h with rfl | h
    · exact ⟨rfl, le_rfl, List.mem_cons_self⟩
    · obtain ⟨hclient, hclock, hentry⟩ := ih h
      exact ⟨hclient, (Nat.le_succ _).trans hclock, List.mem_cons_of_mem _ hentry⟩

/-- Every entry is set by a minted operation. -/
theorem exists_mem_mintedOps (client clock : Nat) {entries : List NsEntry} {entry : NsEntry}
    (h : entry ∈ entries) : ∃ op ∈ mintedOps client clock entries, op.entry = entry := by
  induction entries generalizing clock with
  | nil => cases h
  | cons e entries ih =>
    rcases List.mem_cons.mp h with rfl | h
    · exact ⟨_, Finset.mem_insert_self _ _, rfl⟩
    · obtain ⟨op, hop, he⟩ := ih (clock + 1) h
      exact ⟨op, Finset.mem_insert_of_mem hop, he⟩

/-- The update since the state vector before some local mutations is what they minted. -/
theorem encodeUpdateSince_mintAll (entries : List NsEntry) :
    (mintAll client doc entries).encodeUpdateSince doc.stateVector =
      mintedOps client (doc.stateVector client) entries := by
  ext op
  rw [encodeUpdateSince, Finset.mem_filter, mintAll_eq, Finset.mem_union]
  constructor
  · rintro ⟨hop | hop, hclock⟩
    · exact absurd hclock (Nat.not_le.mpr (lt_stateVector hop))
    · exact hop
  · intro hop
    obtain ⟨hclient, hclock, -⟩ := mem_mintedOps hop
    exact ⟨.inr hop, hclient ▸ hclock⟩

theorem mintedOps_eq_empty {clock : Nat} {entries : List NsEntry} :
    mintedOps client clock entries = ∅ ↔ entries = [] := by
  cases entries <;> simp [mintedOps]

end Minting

end NamespaceDoc

end Opbox
