import Mathlib.Data.List.Lex
import Mathlib.Data.List.Pairwise
import Mathlib.Data.Prod.Lex
import Opbox.Crdt.TextDoc
import Opbox.Foundation.SortedList
import Opbox.Fs.Types

/-!
# Documents as sets of snapshots

The smallest CRDT library the model can run with: a document is a finite set of snapshots, each a
whole text with a clock and the client that wrote it, merging is union, and the text of a document
is its latest snapshot.  Every local edit adds one snapshot.  It meets every assumption that
`TextCrdt` makes, and so do the whole-text diff and the identity as content hash for theirs.
-/

namespace Opbox

namespace Snapshots

/-- A snapshot: its clock, its client and the text. -/
abbrev Snapshot := Nat ×ₗ Nat ×ₗ Bytes

instance : DecidableEq Snapshot := inferInstanceAs (DecidableEq (Nat × Nat × Bytes))

/-- A document. -/
def Doc := Finset Snapshot

instance : DecidableEq Doc := inferInstanceAs (DecidableEq (Finset Snapshot))

/-- The snapshots of a document. -/
def Doc.snapshots (doc : Doc) : Finset Snapshot := doc

/-- The latest snapshot, if there is one. -/
def Doc.latest? (doc : Doc) : Option Snapshot := (sortedList doc.snapshots).getLast?

/-- The clock of a document. -/
def Doc.clock (doc : Doc) : Nat := (doc.latest?.map fun s => (ofLex s).1).getD 0

/-- The text of a document. -/
def Doc.text (doc : Doc) : Bytes := (doc.latest?.map fun s => (ofLex (ofLex s).2).2).getD []

/-- The next snapshot of a client. -/
def Doc.next (doc : Doc) (client : Nat) (text : Bytes) : Snapshot :=
  toLex (doc.clock + 1, toLex (client, text))

/-- Add a snapshot. -/
def Doc.write (doc : Doc) (client : Nat) (text : Bytes) : Doc :=
  (insert (doc.next client text) doc.snapshots : Finset Snapshot)

theorem Doc.le_latest {doc : Doc} {s : Snapshot} (hs : s ∈ doc.snapshots) :
    ∃ t, doc.latest? = some t ∧ s ≤ t := by
  have hmem := mem_sortedList.mpr hs
  have hne := List.ne_nil_of_mem hmem
  refine ⟨(sortedList doc.snapshots).getLast hne, List.getLast?_eq_some_getLast hne, ?_⟩
  have hsorted : (sortedList doc.snapshots).Pairwise (· ≤ ·) :=
    (pairwise_sortedList doc.snapshots).imp le_of_lt
  exact hsorted.rel_getLast hmem

theorem Doc.lt_next {doc : Doc} {s : Snapshot} (hs : s ∈ doc.snapshots) (client : Nat)
    (text : Bytes) : s < doc.next client text := by
  obtain ⟨t, ht, hle⟩ := le_latest hs
  have hclock : doc.clock = (ofLex t).1 := by rw [clock, ht]; rfl
  refine hle.trans_lt (Prod.Lex.lt_iff.mpr (.inl ?_))
  show (ofLex t).1 < doc.clock + 1
  omega

theorem Doc.latest?_write (doc : Doc) (client : Nat) (text : Bytes) :
    (doc.write client text).latest? = some (doc.next client text) := by
  have hsorted : sortedList (doc.write client text).snapshots =
      sortedList doc.snapshots ++ [doc.next client text] := by
    refine sortedList_eq ?_ fun s => ?_
    · refine List.pairwise_append.mpr ⟨pairwise_sortedList _, List.pairwise_singleton .., ?_⟩
      intro s hs t ht
      rw [List.mem_singleton.mp ht]
      exact doc.lt_next (mem_sortedList.mp hs) client text
    · rw [List.mem_append, mem_sortedList, List.mem_singleton, or_comm]
      exact Finset.mem_insert.symm
  rw [latest?, hsorted, List.getLast?_append, List.getLast?_singleton]
  rfl

theorem Doc.text_write (doc : Doc) (client : Nat) (text : Bytes) :
    (doc.write client text).text = text := by
  rw [Doc.text, latest?_write]
  rfl

theorem Doc.subset_write (doc : Doc) (client : Nat) (text : Bytes) :
    (doc.snapshots : Set Snapshot) ⊆ (doc.write client text).snapshots := by
  intro s hs
  exact Finset.mem_insert_of_mem hs

instance : TextCrdt Doc where
  Op := Snapshot
  ops doc := doc.snapshots
  getText := Doc.text
  new := (∅ : Finset Snapshot)
  insert client doc pos chunk := doc.write client (doc.text.take pos ++ chunk ++ doc.text.drop pos)
  removeRange client doc pos len := doc.write client (doc.text.take pos ++ doc.text.drop (pos + len))
  encodeUpdateSince doc earlier := (doc.snapshots \ earlier.snapshots : Finset Snapshot)
  applyUpdate doc update := (doc.snapshots ∪ update.snapshots : Finset Snapshot)
  ops_new := Finset.coe_empty
  getText_new := rfl
  ops_insert client doc _ _ := doc.subset_write client _
  getText_insert client doc _ _ _ := doc.text_write client _
  ops_removeRange client doc _ _ := doc.subset_write client _
  getText_removeRange client doc _ _ _ := doc.text_write client _
  ops_encodeUpdateSince doc earlier h := by
    show (earlier.snapshots : Set Snapshot) ∪ ↑(doc.snapshots \ earlier.snapshots) = doc.snapshots
    rw [Finset.coe_sdiff, Set.union_sdiff_cancel h]
  ops_applyUpdate doc update := Finset.coe_union _ _
  getText_eq_of_ops_eq doc doc' h := congrArg Doc.text (Finset.coe_injective h)

/-- The diff that replaces the whole text. -/
scoped instance : CharDiff where
  fromChars old new := [⟨.delete, old⟩, ⟨.insert, new⟩]
  oldText_fromChars old new := by simp [oldText]
  newText_fromChars old new := by simp [newText]

/-- The contents as their own hashes. -/
scoped instance : Xxh3 where
  xxh3_64 := id

/-! ## Files for concrete runs -/

instance neZero_digit : NeZero 10 := ⟨Nat.succ_ne_zero 9⟩

/-- The path of a file in the sync root whose name is a digit. -/
def rootFile (name : Fin 10) : RelativePath :=
  ⟨[[Nat.digitChar name]], by simp, by revert name; decide⟩

/-- The path of a file in a directory of the sync root, both with digits for names. -/
def fileIn (dir name : Fin 10) : RelativePath :=
  ⟨[[Nat.digitChar dir], [Nat.digitChar name]], by simp, by revert dir name; decide⟩

/-- The stat of a file. -/
def fileStat (inode size mtime : Nat) : FileStatFingerprint := ⟨⟨0, inode⟩, size, mtime⟩

/-- The fingerprint of a file that was read. -/
def contentFingerprint (stat : FileStatFingerprint) (content : Bytes) : FileFingerprint :=
  .statAndContent stat content

/-- The result of a scan that found these files. -/
def scanOf (scope : ScanScope) (files : List (RelativePath × FileStatFingerprint)) : ScanResult :=
  ⟨scope, match Tree.new (files.map fun f => ⟨f.1, .file (.statOnly f.2)⟩) with
    | .ok tree => tree
    | .error _ => ⟨[], .nil⟩⟩

end Snapshots

end Opbox
