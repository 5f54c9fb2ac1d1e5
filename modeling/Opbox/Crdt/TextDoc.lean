import Mathlib.Data.Set.Basic
import Opbox.Log.Types

/-!
# Text documents

One replicated text per synced object (`crdt/text_doc.rs`).  The CRDT library is a parameter,
`TextCrdt`: encoded documents of a type `D`, each a set of operations and a text.  The character
diff is a parameter, `CharDiff`.  Over them stands the code's own part: a local edit is replayed
from the diff of two texts, run by run, and the replay turns the old text into the new one.
-/

namespace Opbox

/-- The CRDT library as the text documents use it.  `D` holds encoded documents and encoded
updates alike. -/
class TextCrdt (D : Type) where
  /-- The operations a document is made of. -/
  Op : Type
  /-- The operations in an encoded document or update. -/
  ops : D → Set Op
  /-- The text of a document, in bytes. -/
  getText : D → Bytes
  /-- The document without operations. -/
  new : D
  /-- Insert a chunk at a byte position, by operations of a client. -/
  insert (client : Nat) (doc : D) (pos : Nat) (chunk : Bytes) : D
  /-- Remove a byte range, by operations of a client. -/
  removeRange (client : Nat) (doc : D) (pos len : Nat) : D
  /-- The update that holds what is new in a document since the state vector of an earlier one. -/
  encodeUpdateSince (doc earlier : D) : D
  /-- Merge an update. -/
  applyUpdate (doc update : D) : D
  ops_new : ops new = ∅
  getText_new : getText new = []
  ops_insert (client : Nat) (doc : D) (pos : Nat) (chunk : Bytes) :
    ops doc ⊆ ops (insert client doc pos chunk)
  getText_insert (client : Nat) (doc : D) (pos : Nat) (chunk : Bytes) :
    pos ≤ (getText doc).length → getText (insert client doc pos chunk) =
      (getText doc).take pos ++ chunk ++ (getText doc).drop pos
  ops_removeRange (client : Nat) (doc : D) (pos len : Nat) :
    ops doc ⊆ ops (removeRange client doc pos len)
  getText_removeRange (client : Nat) (doc : D) (pos len : Nat) :
    pos + len ≤ (getText doc).length → getText (removeRange client doc pos len) =
      (getText doc).take pos ++ (getText doc).drop (pos + len)
  ops_encodeUpdateSince (doc earlier : D) :
    ops earlier ⊆ ops doc → ops earlier ∪ ops (encodeUpdateSince doc earlier) = ops doc
  ops_applyUpdate (doc update : D) : ops (applyUpdate doc update) = ops doc ∪ ops update
  getText_eq_of_ops_eq (doc doc' : D) : ops doc = ops doc' → getText doc = getText doc'

/-- What a piece of a diff is. -/
inductive ChangeTag where
  | equal
  | delete
  | insert
  deriving DecidableEq, Repr

/-- A piece of a diff. -/
structure Change where
  /-- What it is. -/
  tag : ChangeTag
  /-- Its text. -/
  value : Bytes
  deriving DecidableEq, Repr

/-- The text a diff starts from. -/
def oldText (changes : List Change) : Bytes :=
  changes.flatMap fun c => if c.tag = .insert then [] else c.value

/-- The text a diff leads to. -/
def newText (changes : List Change) : Bytes :=
  changes.flatMap fun c => if c.tag = .delete then [] else c.value

/-- The diff library: `TextDiff::from_chars(old, new).iter_all_changes()`. -/
class CharDiff where
  /-- The pieces of a diff of two texts, one character each. -/
  fromChars (old new : Bytes) : List Change
  oldText_fromChars (old new : Bytes) : oldText (fromChars old new) = old
  newText_fromChars (old new : Bytes) : newText (fromChars old new) = new

namespace TextDoc

/-- Neighbouring pieces with one tag form a run. -/
def groupRuns : List Change → List Change
  | [] => []
  | c :: cs =>
    match groupRuns cs with
    | [] => [c]
    | r :: rs => if r.tag = c.tag then ⟨c.tag, c.value ++ r.value⟩ :: rs else c :: r :: rs

theorem flatMap_groupRuns (hide : ChangeTag) (changes : List Change) :
    ((groupRuns changes).flatMap fun c => if c.tag = hide then [] else c.value) =
      changes.flatMap fun c => if c.tag = hide then [] else c.value := by
  induction changes with
  | nil => rfl
  | cons c cs ih =>
    rw [List.flatMap_cons, ← ih, groupRuns]
    cases groupRuns cs with
    | nil => simp
    | cons r rs =>
      by_cases htag : r.tag = c.tag
      · by_cases hhide : c.tag = hide <;> simp [htag, hhide]
      · simp [htag]

theorem oldText_groupRuns (changes : List Change) : oldText (groupRuns changes) = oldText changes :=
  flatMap_groupRuns .insert changes

theorem newText_groupRuns (changes : List Change) : newText (groupRuns changes) = newText changes :=
  flatMap_groupRuns .delete changes

/-- `MIN_SIGNIFICANT_RUN`. -/
def minSignificantRun : Nat := 3

/-- The lengths of the runs both texts share. -/
def equalRuns (runs : List Change) : List Nat :=
  (runs.filter fun c => c.tag = .equal).map fun c => c.value.length

/-- The texts share too little for a fine-grained diff: no shared run covers a third of the old
text, and the significant ones cover less than half of it. -/
def isBlunt (old : Bytes) (runs : List Change) : Bool :=
  let maxRun := (equalRuns runs).foldl max 0
  let significantEqualBytes := ((equalRuns runs).filter (minSignificantRun ≤ ·)).sum
  decide (0 < old.length) && decide (3 * maxRun < old.length) &&
    decide (2 * significantEqualBytes < old.length)

variable {D : Type} [TextCrdt D]

open TextCrdt

/-- Replay the runs of a diff from a byte position on. -/
def replay (client : Nat) : D → Nat → List Change → D
  | doc, _, [] => doc
  | doc, pos, ⟨.equal, value⟩ :: runs => replay client doc (pos + value.length) runs
  | doc, pos, ⟨.delete, value⟩ :: runs =>
    replay client (removeRange client doc pos value.length) pos runs
  | doc, pos, ⟨.insert, value⟩ :: runs =>
    replay client (TextCrdt.insert client doc pos value) (pos + value.length) runs

/-- Replace the whole text. -/
def replaceText (client : Nat) (doc : D) (oldLength : Nat) (new : Bytes) : D :=
  if new = [] then removeRange client doc 0 oldLength
  else TextCrdt.insert client (removeRange client doc 0 oldLength) 0 new

/-- `apply_string_diff`. -/
def applyStringDiff [CharDiff] (client : Nat) (doc : D) (old new : Bytes) : D :=
  if isBlunt old (groupRuns (CharDiff.fromChars old new)) then
    replaceText client doc old.length new
  else replay client doc 0 (groupRuns (CharDiff.fromChars old new))

/-- What capturing a local edit yields. -/
structure TextCapture (D : Type) where
  /-- The operations of the edit. -/
  updateBytes : D
  /-- The document after it. -/
  fullStateBytes : D
  /-- The text after it. -/
  text : Bytes

/-- `capture_text_change`: the edit from one text to another, minted under a client id; nothing
when the texts are equal. -/
def captureTextChange [CharDiff] (client : Nat) (doc : D) (old new : Bytes) :
    Option (TextCapture D) :=
  if old = new then none
  else
    let next := applyStringDiff client doc old new
    some ⟨encodeUpdateSince next doc, next, getText next⟩

/-- `empty_text_state`. -/
def emptyTextState : D := TextCrdt.new

/-- `text_state_from_content`. -/
def textStateFromContent (client : Nat) (content : Bytes) : D :=
  if content = [] then TextCrdt.new else TextCrdt.insert client TextCrdt.new 0 content

/-- `apply_text_update`, the resulting full state. -/
def applyTextUpdate (base update : D) : D := applyUpdate base update

/-! ## What a capture does -/

theorem ops_replay (client : Nat) (runs : List Change) (doc : D) (pos : Nat) :
    ops doc ⊆ ops (replay client doc pos runs) := by
  induction runs generalizing doc pos with
  | nil => exact subset_rfl
  | cons c runs ih =>
    obtain ⟨tag, value⟩ := c
    cases tag with
    | equal => exact ih doc _
    | delete => exact (ops_removeRange client doc pos value.length).trans (ih _ pos)
    | insert => exact (ops_insert client doc pos value).trans (ih _ _)

/-- Replaying a diff at the end of `done` turns its old text into its new text. -/
theorem getText_replay (client : Nat) (runs : List Change) (doc : D) (done : Bytes)
    (hdoc : getText doc = done ++ oldText runs) :
    getText (replay client doc done.length runs) = done ++ newText runs := by
  induction runs generalizing doc done with
  | nil => simpa [replay, oldText, newText] using hdoc
  | cons c runs ih =>
    obtain ⟨tag, value⟩ := c
    cases tag with
    | equal =>
      have hnext : getText doc = (done ++ value) ++ oldText runs := by
        simpa [oldText] using hdoc
      simpa [replay, newText] using ih doc (done ++ value) hnext
    | delete =>
      have htext : getText doc = done ++ (value ++ oldText runs) := by
        simpa [oldText] using hdoc
      have hremoved := getText_removeRange client doc done.length value.length (by simp [htext])
      have hnext : getText (removeRange client doc done.length value.length) =
          done ++ oldText runs := by
        rw [hremoved, htext, List.take_left, ← List.drop_drop, List.drop_left, List.drop_left]
      simpa [replay, newText] using ih _ done hnext
    | insert =>
      have htext : getText doc = done ++ oldText runs := by simpa [oldText] using hdoc
      have hinserted := getText_insert client doc done.length value (by simp [htext])
      have hnext : getText (TextCrdt.insert client doc done.length value) =
          (done ++ value) ++ oldText runs := by
        rw [hinserted, htext, List.take_left, List.drop_left]
      simpa [replay, newText] using ih _ (done ++ value) hnext

theorem ops_replaceText (client : Nat) (doc : D) (oldLength : Nat) (new : Bytes) :
    ops doc ⊆ ops (replaceText client doc oldLength new) := by
  have hremove := ops_removeRange client doc 0 oldLength
  unfold replaceText
  split_ifs with hnew
  · exact hremove
  · exact hremove.trans (ops_insert client _ 0 new)

theorem getText_replaceText (client : Nat) (doc : D) (new : Bytes) :
    getText (replaceText client doc (getText doc).length new) = new := by
  have hremoved : getText (removeRange client doc 0 (getText doc).length) = [] := by
    rw [getText_removeRange client doc 0 _ (Nat.zero_add _).le]
    simp
  unfold replaceText
  split_ifs with hnew
  · rw [hremoved, hnew]
  · rw [getText_insert client _ 0 new (Nat.zero_le _), hremoved]
    simp

theorem ops_applyStringDiff [CharDiff] (client : Nat) (doc : D) (old new : Bytes) :
    ops doc ⊆ ops (applyStringDiff client doc old new) := by
  unfold applyStringDiff
  split_ifs
  · exact ops_replaceText client doc _ new
  · exact ops_replay client _ doc 0

/-- Replaying the diff of two texts on a document with the first yields the second. -/
theorem getText_applyStringDiff [CharDiff] (client : Nat) (doc : D) (new : Bytes) :
    getText (applyStringDiff client doc (getText doc) new) = new := by
  unfold applyStringDiff
  split_ifs
  · exact getText_replaceText client doc new
  · have hold : getText doc = [] ++ oldText (groupRuns (CharDiff.fromChars (getText doc) new)) := by
      rw [oldText_groupRuns, CharDiff.oldText_fromChars, List.nil_append]
    have hreplay := getText_replay client _ doc [] hold
    rwa [newText_groupRuns, CharDiff.newText_fromChars, List.nil_append] at hreplay

/-- A captured edit: the document gains exactly the operations of the update, and its text is the
new one. -/
theorem captureTextChange_spec [CharDiff] {client : Nat} {doc : D} {new : Bytes}
    {capture : TextCapture D} (h : captureTextChange client doc (getText doc) new = some capture) :
    ops capture.fullStateBytes = ops doc ∪ ops capture.updateBytes ∧
      getText capture.fullStateBytes = new := by
  unfold captureTextChange at h
  split_ifs at h with hne
  cases h
  exact ⟨(ops_encodeUpdateSince _ _ (ops_applyStringDiff client doc _ new)).symm,
    getText_applyStringDiff client doc new⟩

/-- Nothing is captured when nothing changed. -/
theorem captureTextChange_eq_none_iff [CharDiff] {client : Nat} {doc : D} {old new : Bytes} :
    captureTextChange client doc old new = none ↔ old = new := by
  unfold captureTextChange
  split_ifs with h <;> simp [h]

theorem getText_emptyTextState : getText (emptyTextState : D) = [] := getText_new

theorem ops_emptyTextState : ops (emptyTextState : D) = ∅ := ops_new

@[simp] theorem getText_textStateFromContent (client : Nat) (content : Bytes) :
    getText (textStateFromContent client content : D) = content := by
  unfold textStateFromContent
  split_ifs with h
  · rw [getText_new, h]
  · rw [getText_insert client _ 0 content (Nat.zero_le _), getText_new]
    simp

theorem ops_applyTextUpdate (base update : D) :
    ops (applyTextUpdate base update) = ops base ∪ ops update :=
  ops_applyUpdate base update

end TextDoc

end Opbox
