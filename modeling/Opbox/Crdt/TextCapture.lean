import Opbox.Crdt.Snapshots
import Opbox.Crdt.TextDoc
import Opbox.Foundation.Text

/-!
# Captured edits

`apply_string_diff` turns a diff of two texts into removals and insertions at byte positions, with
one of two scripts: the whole text is replaced, or the runs of the diff are replayed.  Either script
stays within the text that the document has at each of its edits, cuts no character in two, and ends
with the new text.
-/

namespace Opbox

/-- The bytes are a text: characters encoded one after the other. -/
def IsText (bytes : Bytes) : Prop := ∃ text, decodeUtf8 bytes = some text

/-- The position is in the text and between two of its characters. -/
def CharBoundary (bytes : Bytes) (pos : Nat) : Prop :=
  pos ≤ bytes.length ∧ IsText (bytes.take pos) ∧ IsText (bytes.drop pos)

theorem isText_nil : IsText [] := ⟨[], rfl⟩

theorem IsText.append {bytes more : Bytes} (h : IsText bytes) (h' : IsText more) :
    IsText (bytes ++ more) := by
  obtain ⟨text, htext⟩ := h
  obtain ⟨text', htext'⟩ := h'
  exact ⟨text ++ text', by rw [decodeUtf8_append htext, htext']; rfl⟩

theorem charBoundary_append {bytes more : Bytes} (h : IsText bytes) (h' : IsText more) :
    CharBoundary (bytes ++ more) bytes.length :=
  ⟨by simp, by rwa [List.take_left], by rwa [List.drop_left]⟩

/-- The value of a piece is one character. -/
def Change.IsChar (c : Change) : Prop := ∃ char, decodeUtf8 c.value = some [char]

namespace TextDoc

/-- An edit of a text. -/
inductive TextEdit where
  /-- `remove_range`. -/
  | removeRange (pos len : Nat)
  /-- `insert`. -/
  | insert (pos : Nat) (chunk : Bytes)
  deriving DecidableEq, Repr

/-- The edit as it is issued: positions and lengths are 32 bits wide. -/
def TextEdit.truncated : TextEdit → TextEdit
  | removeRange pos len => removeRange (pos % 2 ^ 32) (len % 2 ^ 32)
  | insert pos chunk => insert (pos % 2 ^ 32) chunk

/-- The edit stays within a text and cuts no character. -/
def TextEdit.Fits (text : Bytes) : TextEdit → Prop
  | removeRange pos len => CharBoundary text pos ∧ CharBoundary text (pos + len)
  | insert pos chunk => CharBoundary text pos ∧ IsText chunk

/-- The edits that replay the runs of a diff from a byte position on. -/
def replayEdits : Nat → List Change → List TextEdit
  | _, [] => []
  | pos, ⟨.equal, value⟩ :: runs => replayEdits (pos + value.length) runs
  | pos, ⟨.delete, value⟩ :: runs => .removeRange pos value.length :: replayEdits pos runs
  | pos, ⟨.insert, value⟩ :: runs => .insert pos value :: replayEdits (pos + value.length) runs

/-- The edits that replace the whole text. -/
def replaceEdits (oldLength : Nat) (new : Bytes) : List TextEdit :=
  .removeRange 0 oldLength :: if new = [] then [] else [.insert 0 new]

/-- The edits of `apply_string_diff` in one of its modes. -/
def stringDiffEdits [CharDiff] (blunt : Bool) (old new : Bytes) : List TextEdit :=
  if blunt then replaceEdits old.length new
  else replayEdits 0 (groupRuns (CharDiff.fromChars old new))

variable {D : Type} [TextCrdt D]

open TextCrdt

/-- Issue an edit under a client id. -/
def TextEdit.issue (client : Nat) (doc : D) : TextEdit → D
  | removeRange pos len => TextCrdt.removeRange client doc pos len
  | insert pos chunk => TextCrdt.insert client doc pos chunk

/-- Issue edits one after the other. -/
def issueAll (client : Nat) (doc : D) (edits : List TextEdit) : D :=
  edits.foldl (TextEdit.issue client) doc

/-- Every edit fits the text that the document has when it is issued. -/
def AllFit (client : Nat) : D → List TextEdit → Prop
  | _, [] => True
  | doc, edit :: edits => edit.Fits (getText doc) ∧ AllFit client (edit.issue client doc) edits

/-! ## The code issues these edits -/

theorem replay_eq_issueAll (client : Nat) (runs : List Change) (doc : D) (pos : Nat) :
    replay client doc pos runs = issueAll client doc (replayEdits pos runs) := by
  induction runs generalizing doc pos with
  | nil => rfl
  | cons c runs ih =>
    obtain ⟨tag, value⟩ := c
    cases tag with
    | equal => exact ih doc _
    | delete => exact ih _ pos
    | insert => exact ih _ _

theorem replaceText_eq_issueAll (client : Nat) (doc : D) (oldLength : Nat) (new : Bytes) :
    replaceText client doc oldLength new = issueAll client doc (replaceEdits oldLength new) := by
  unfold replaceText replaceEdits
  split_ifs
  · rfl
  · rfl

/-- `apply_string_diff` issues the edits of the mode that it picks. -/
theorem applyStringDiff_eq_issueAll [CharDiff] (client : Nat) (doc : D) (old new : Bytes) :
    applyStringDiff client doc old new = issueAll client doc
      (stringDiffEdits (isBlunt old (groupRuns (CharDiff.fromChars old new))) old new) := by
  unfold applyStringDiff stringDiffEdits
  split_ifs
  · exact replaceText_eq_issueAll client doc _ new
  · exact replay_eq_issueAll client _ doc 0

/-! ## The edits fit -/

theorem isText_groupRuns {changes : List Change} (h : ∀ c ∈ changes, IsText c.value) :
    ∀ c ∈ groupRuns changes, IsText c.value := by
  induction changes with
  | nil => exact fun c hc => absurd hc List.not_mem_nil
  | cons c cs ih =>
    obtain ⟨hc, hcs⟩ := List.forall_mem_cons.mp h
    have hruns := ih hcs
    rw [groupRuns]
    cases hgroup : groupRuns cs with
    | nil => exact List.forall_mem_singleton.mpr hc
    | cons r rs =>
      rw [hgroup] at hruns
      obtain ⟨hr, hrs⟩ := List.forall_mem_cons.mp hruns
      dsimp only
      split_ifs
      · exact List.forall_mem_cons.mpr ⟨hc.append hr, hrs⟩
      · exact List.forall_mem_cons.mpr ⟨hc, hruns⟩

/-- The parts of a diff are texts if its pieces are. -/
theorem isText_flatMap {changes : List Change} {hide : ChangeTag}
    (h : ∀ c ∈ changes, IsText c.value) :
    IsText (changes.flatMap fun c => if c.tag = hide then [] else c.value) := by
  induction changes with
  | nil => exact isText_nil
  | cons c cs ih =>
    obtain ⟨hc, hcs⟩ := List.forall_mem_cons.mp h
    rw [List.flatMap_cons]
    refine IsText.append ?_ (ih hcs)
    split_ifs
    · exact isText_nil
    · exact hc

/-- Replaying a diff behind `done` fits, run after run. -/
theorem allFit_replay (client : Nat) {runs : List Change} (hruns : ∀ c ∈ runs, IsText c.value)
    {doc : D} {done : Bytes} (hdone : IsText done) (hdoc : getText doc = done ++ oldText runs) :
    AllFit client doc (replayEdits done.length runs) := by
  induction runs generalizing doc done with
  | nil => trivial
  | cons c runs ih =>
    obtain ⟨hvalue, hrest⟩ := List.forall_mem_cons.mp hruns
    have hold : IsText (oldText runs) := isText_flatMap hrest
    obtain ⟨tag, value⟩ := c
    cases tag with
    | equal =>
      have hnext : getText doc = (done ++ value) ++ oldText runs := by simpa [oldText] using hdoc
      have hfit := ih hrest (hdone.append hvalue) hnext
      rwa [List.length_append] at hfit
    | delete =>
      have htext : getText doc = done ++ (value ++ oldText runs) := by simpa [oldText] using hdoc
      have hstart : CharBoundary (getText doc) done.length :=
        htext ▸ charBoundary_append hdone (hvalue.append hold)
      have hstop : CharBoundary (getText doc) (done.length + value.length) := by
        rw [htext, ← List.append_assoc, ← List.length_append]
        exact charBoundary_append (hdone.append hvalue) hold
      refine ⟨⟨hstart, hstop⟩, ih hrest hdone ?_⟩
      have hremoved := getText_removeRange client doc done.length value.length (by simp [htext])
      rw [TextEdit.issue, hremoved, htext, List.take_left, ← List.drop_drop, List.drop_left,
        List.drop_left]
    | insert =>
      have htext : getText doc = done ++ oldText runs := by simpa [oldText] using hdoc
      have hstart : CharBoundary (getText doc) done.length := htext ▸ charBoundary_append hdone hold
      have hnext : getText (TextCrdt.insert client doc done.length value) =
          (done ++ value) ++ oldText runs := by
        rw [getText_insert client doc done.length value (by simp [htext]), htext, List.take_left,
          List.drop_left]
      have hfit := ih hrest (hdone.append hvalue) hnext
      rw [List.length_append] at hfit
      exact ⟨⟨hstart, hvalue⟩, hfit⟩

/-- Replacing the whole text fits. -/
theorem allFit_replace (client : Nat) {doc : D} (hold : IsText (getText doc)) {new : Bytes}
    (hnew : IsText new) : AllFit client doc (replaceEdits (getText doc).length new) := by
  have hstart : CharBoundary (getText doc) 0 := ⟨Nat.zero_le _, isText_nil, hold⟩
  have hstop : CharBoundary (getText doc) (0 + (getText doc).length) := by
    rw [Nat.zero_add]
    exact ⟨le_rfl, by rwa [List.take_length], by rw [List.drop_length]; exact isText_nil⟩
  refine ⟨⟨hstart, hstop⟩, ?_⟩
  split_ifs with hempty
  · trivial
  · have hremoved : getText (TextCrdt.removeRange client doc 0 (getText doc).length) = [] := by
      rw [getText_removeRange client doc 0 _ (Nat.zero_add _).le]
      simp
    refine ⟨⟨?_, hnew⟩, trivial⟩
    rw [TextEdit.issue, hremoved]
    exact ⟨le_rfl, isText_nil, isText_nil⟩

/-! ## 32 bits suffice -/

/-- Positions in the new text and lengths of the old one lose nothing in 32 bits. -/
theorem truncated_replayEdits {runs : List Change} {pos : Nat}
    (hnew : pos + (newText runs).length < 2 ^ 32) (hold : (oldText runs).length < 2 ^ 32) :
    (replayEdits pos runs).map TextEdit.truncated = replayEdits pos runs := by
  induction runs generalizing pos with
  | nil => rfl
  | cons c runs ih =>
    obtain ⟨tag, value⟩ := c
    have hnewCons : newText (⟨tag, value⟩ :: runs) =
        (if tag = .delete then [] else value) ++ newText runs := rfl
    have holdCons : oldText (⟨tag, value⟩ :: runs) =
        (if tag = .insert then [] else value) ++ oldText runs := rfl
    rw [hnewCons, List.length_append] at hnew
    rw [holdCons, List.length_append] at hold
    cases tag with
    | equal =>
      have hvalue : (if ChangeTag.equal = .delete then [] else value) = value := rfl
      rw [hvalue] at hnew
      exact ih (by omega) (by omega)
    | delete =>
      have hvalue : (if ChangeTag.delete = .insert then [] else value) = value := rfl
      rw [hvalue] at hold
      rw [replayEdits, List.map_cons, ih (by omega) (by omega), TextEdit.truncated,
        Nat.mod_eq_of_lt (by omega), Nat.mod_eq_of_lt (by omega)]
    | insert =>
      have hvalue : (if ChangeTag.insert = .delete then [] else value) = value := rfl
      rw [hvalue] at hnew
      rw [replayEdits, List.map_cons, ih (by omega) (by omega), TextEdit.truncated,
        Nat.mod_eq_of_lt (by omega)]

theorem truncated_stringDiffEdits [CharDiff] (blunt : Bool) {old new : Bytes}
    (hold : old.length < 2 ^ 32) (hnew : new.length < 2 ^ 32) :
    (stringDiffEdits blunt old new).map TextEdit.truncated = stringDiffEdits blunt old new := by
  unfold stringDiffEdits
  split_ifs
  · unfold replaceEdits
    split_ifs
    · rw [List.map_singleton, TextEdit.truncated, Nat.mod_eq_of_lt hold, Nat.zero_mod]
    · rw [List.map_cons, List.map_singleton, TextEdit.truncated, TextEdit.truncated,
        Nat.mod_eq_of_lt hold, Nat.zero_mod]
  · refine truncated_replayEdits ?_ ?_
    · rwa [newText_groupRuns, CharDiff.newText_fromChars, Nat.zero_add]
    · rwa [oldText_groupRuns, CharDiff.oldText_fromChars]

/-! ## A capture realizes the edit -/

/-- Either script turns the old text into the new one. -/
theorem getText_issueAll [CharDiff] (client : Nat) (doc : D) (new : Bytes) (blunt : Bool) :
    getText (issueAll client doc (stringDiffEdits blunt (getText doc) new)) = new := by
  unfold stringDiffEdits
  split_ifs
  · rw [← replaceText_eq_issueAll]
    exact getText_replaceText client doc new
  · have hold : getText doc = [] ++ oldText (groupRuns (CharDiff.fromChars (getText doc) new)) := by
      rw [oldText_groupRuns, CharDiff.oldText_fromChars, List.nil_append]
    have hreplay := getText_replay client _ doc [] hold
    rw [List.length_nil, replay_eq_issueAll] at hreplay
    rwa [newText_groupRuns, CharDiff.newText_fromChars, List.nil_append] at hreplay

/-- A capture realizes the edit.  `apply_string_diff` issues the edits of one of its two modes, and in
either mode they fit the text of the document at their turn, lose nothing in 32 bits while the texts
are shorter than 4 GiB, and end with the new text; the captured update does the same to every document
with the same operations. -/
theorem text_capture_realizes_edit [CharDiff] (client : Nat) (doc : D) (new : Bytes)
    (hchars : ∀ c ∈ CharDiff.fromChars (getText doc) new, c.IsChar) :
    (∃ blunt, applyStringDiff client doc (getText doc) new =
      issueAll client doc (stringDiffEdits blunt (getText doc) new)) ∧
    (∀ blunt, AllFit client doc (stringDiffEdits blunt (getText doc) new) ∧
      getText (issueAll client doc (stringDiffEdits blunt (getText doc) new)) = new ∧
      ((getText doc).length < 2 ^ 32 → new.length < 2 ^ 32 →
        (stringDiffEdits blunt (getText doc) new).map TextEdit.truncated =
          stringDiffEdits blunt (getText doc) new)) ∧
    (captureTextChange client doc (getText doc) new = none ↔ getText doc = new) ∧
    ∀ capture, captureTextChange client doc (getText doc) new = some capture →
      capture.text = new ∧ getText capture.fullStateBytes = new ∧
      ∀ other : D, ops other = ops doc → getText (applyTextUpdate other capture.updateBytes) = new := by
  have hpieces : ∀ c ∈ CharDiff.fromChars (getText doc) new, IsText c.value :=
    fun c hc => let ⟨char, hchar⟩ := hchars c hc; ⟨[char], hchar⟩
  have hold : IsText (getText doc) := by
    rw [← CharDiff.oldText_fromChars (getText doc) new]
    exact isText_flatMap hpieces
  have hnew : IsText new := by
    rw [← CharDiff.newText_fromChars (getText doc) new]
    exact isText_flatMap hpieces
  refine ⟨⟨_, applyStringDiff_eq_issueAll client doc _ new⟩, fun blunt => ⟨?_, ?_, ?_⟩, ?_, ?_⟩
  · unfold stringDiffEdits
    split_ifs
    · exact allFit_replace client hold hnew
    · have hdoc : getText doc = [] ++ oldText (groupRuns (CharDiff.fromChars (getText doc) new)) := by
        rw [oldText_groupRuns, CharDiff.oldText_fromChars, List.nil_append]
      exact allFit_replay client (isText_groupRuns hpieces) isText_nil hdoc
  · exact getText_issueAll client doc new blunt
  · exact truncated_stringDiffEdits blunt
  · exact captureTextChange_eq_none_iff
  · intro capture hcapture
    obtain ⟨hops, htext⟩ := captureTextChange_spec hcapture
    refine ⟨?_, htext, fun other hother => ?_⟩
    · unfold captureTextChange at hcapture
      split_ifs at hcapture
      cases hcapture
      exact htext
    · rw [← htext]
      refine getText_eq_of_ops_eq _ _ ?_
      rw [ops_applyTextUpdate, hother, hops]

open Snapshots

/-- A document with one character of two bytes. -/
def twoBytesDoc : Doc := textStateFromContent 7 [195, 169]

/-- `text_capture_realizes_edit` for a character that is replaced by another one. -/
theorem text_capture_realizes_edit_twoBytesDoc : ∃ capture,
    captureTextChange 9 twoBytesDoc (getText twoBytesDoc) [195, 188] = some capture ∧
      getText (applyTextUpdate twoBytesDoc capture.updateBytes) = [195, 188] := by
  have hchars : ∀ c ∈ CharDiff.fromChars (getText twoBytesDoc) [195, 188], c.IsChar := by
    have hold : getText twoBytesDoc = [195, 169] := getText_textStateFromContent 7 [195, 169]
    rw [hold]
    refine List.forall_mem_cons.mpr ⟨⟨'é', by decide +kernel⟩, ?_⟩
    exact List.forall_mem_singleton.mpr ⟨'ü', by decide +kernel⟩
  obtain ⟨-, -, hnone, hsome⟩ := text_capture_realizes_edit 9 twoBytesDoc [195, 188] hchars
  cases hcapture : captureTextChange 9 twoBytesDoc (getText twoBytesDoc) [195, 188] with
  | none =>
    have hsame := hnone.mp hcapture
    rw [twoBytesDoc, getText_textStateFromContent] at hsame
    exact absurd hsame (by decide)
  | some capture => exact ⟨capture, rfl, (hsome capture hcapture).2.2 twoBytesDoc rfl⟩

end TextDoc

end Opbox
