import Opbox.Fs.GuardedWrite

/-!
# Guarded deletes

A guarded delete looks at its target, removes it if it is as expected, and looks again
(`fs/fio/local.rs`).  Others may change the files between any two of its system calls; the file that
is removed is the one that was seen, unless it was replaced right after the look.
-/

namespace Opbox

/-- `DeleteIfExistsResult`. -/
inductive DeleteIfExistsResult where
  | deleted
  | alreadyMissing
  deriving DecidableEq

section Delete

variable {F : Type} [FileCalls F] [Xxh3]

/-- `guarded_delete`. -/
def guardedDelete (path : RelativePath) (expectedBefore : ExpectedBefore) :
    Fio F GuardedDeleteResult := do
  let observed ← observeForExpected path expectedBefore
  if !observedMatchesExpected observed expectedBefore then pure (.conflict observed)
  else if observed.isNone then pure .alreadyDeleted
  else
    match ← Effect.call (FileCalls.removeFile path) with
    | .error .notFound => pure (.conflict none)
    | .error kind => throw (.io kind)
    | .ok _ => do
      let after ← statPath path
      if after.isNone then pure .deleted else pure (.conflict after)

omit [Xxh3] in
/-- `delete_if_exists`. -/
def deleteIfExists (path : RelativePath) : Fio F DeleteIfExistsResult := do
  match ← Effect.call (FileCalls.removeFile path) with
  | .ok _ => pure .deleted
  | .error .notFound => pure .alreadyMissing
  | .error kind => throw (.io kind)

end Delete

namespace Occurrence

variable {F : Type} [FileCalls F] (e : Occurrence F FileCall) (path : RelativePath)

/-- The file at the path was removed. -/
def Removes : Prop :=
  e.call = .removeFile path ∧ (FileCalls.removeFile path e.before).1 = .ok ()

/-- A look at the path saw this, nothing standing for all that is neither a file nor a directory. -/
def Sees (observed : Option TreeEntry) : Prop :=
  e.call = .symlinkMetadata path ∧
    (((Syscalls.symlinkMetadata path e.before).1 = .error .notFound ∧ observed = none) ∨
      ∃ metadata, (Syscalls.symlinkMetadata path e.before).1 = .ok metadata ∧
        metadata.entry path = observed)

variable {e path}

theorem Looks.not_removes (h : e.Looks) : ¬e.Removes path := by
  rintro ⟨hcall, -⟩
  obtain ⟨seen, hseen | hseen⟩ := h
  · rw [hseen] at hcall; cases hcall
  · rw [hseen] at hcall; cases hcall

end Occurrence

/-- The only element of a kind splits a list in one way. -/
theorem eq_of_only {α : Type} {p : α → Prop} {a b c d : List α} {x y : α}
    (h : a ++ x :: b = c ++ y :: d) (hx : p x) (hd : ∀ z ∈ c ++ d, ¬p z) : a = c ∧ b = d := by
  rcases List.append_eq_append_iff.mp h with ⟨more, rfl, hrest⟩ | ⟨more, rfl, hrest⟩
  · cases more with
    | nil => exact ⟨(List.append_nil a).symm, (List.cons.inj hrest).2⟩
    | cons z more =>
      refine absurd hx (hd x (List.mem_append_left _ ?_))
      rw [(List.cons.inj hrest).1]
      exact List.mem_append_right _ List.mem_cons_self
  · cases more with
    | nil => exact ⟨List.append_nil c, (List.cons.inj hrest).2.symm⟩
    | cons z more =>
      refine absurd hx (hd x (List.mem_append_right _ ?_))
      rw [(List.cons.inj hrest).2]
      exact List.mem_append_right _ List.mem_cons_self

section Parts

variable {F : Type} [FileCalls F] {path : RelativePath}

/-- What the calls saw at the path is what was expected there. -/
def SeenAs [Xxh3] (path : RelativePath) (log : List (Occurrence F FileCall)) : ExpectedBefore → Prop
  | .anything => True
  | .missing => ∃ e ∈ log, e.Sees path none
  | .presentWithFingerprint (.statOnly stat) =>
    ∃ e ∈ log, e.Sees path (some ⟨path, .file (.statOnly stat)⟩)
  | .presentWithFingerprint (.statAndContent stat hash) =>
    ∃ bytes, ObservedAs path bytes (.statAndContent stat hash) log

/-- `stat_path` is one look, and sees what it returns. -/
theorem statPath_looked (path : RelativePath) :
    (statPath path : Fio (Racing F) _).Ends fun r log => ∃ look, log = [look] ∧ look.Looks ∧
      ∀ observed, r = .ok observed → look.Sees path observed := by
  refine Effect.ends_perform fun files => ?_
  have hlook : Occurrence.Looks ⟨FileCall.symlinkMetadata path, files,
      (Syscalls.symlinkMetadata path files).2⟩ := ⟨path, .inl rfl⟩
  cases hmeta : (Syscalls.symlinkMetadata path files).1 with
  | error kind =>
    cases kind with
    | notFound =>
      refine Effect.ends_pure ⟨_, rfl, hlook, fun observed hobserved => ?_⟩
      cases hobserved
      exact ⟨rfl, .inl ⟨hmeta, rfl⟩⟩
    | _ => exact Effect.ends_throw ⟨_, rfl, hlook, nofun⟩
  | ok metadata =>
    refine Effect.ends_pure ⟨_, rfl, hlook, fun observed hobserved => ?_⟩
    cases hobserved
    exact ⟨rfl, .inr ⟨metadata, hmeta, rfl⟩⟩

/-- What `stat_path` returns was seen. -/
theorem statPath_sees (path : RelativePath) :
    (statPath path : Fio (Racing F) _).Ends fun r log => Looking path log ∧
      ∀ observed, r = .ok observed → ∃ look, log = [look] ∧ look.Sees path observed := by
  refine ((statPath_looks path path).and (statPath_looked path)).weaken ?_
  rintro r log ⟨hlook, look, rfl, -, hsees⟩
  exact ⟨hlook, fun observed hobserved => ⟨look, rfl, hsees observed hobserved⟩⟩

/-- It says nothing about the content of a file. -/
def Unhashed (observed : Option TreeEntry) : Prop :=
  ∀ entry ∈ observed, ∀ stat hash, entry.kind ≠ .file (.statAndContent stat hash)

theorem Occurrence.Sees.unhashed {look : Occurrence F FileCall} {observed : Option TreeEntry}
    (h : look.Sees path observed) : Unhashed observed := by
  obtain ⟨-, ⟨-, rfl⟩ | ⟨metadata, -, rfl⟩⟩ := h
  · exact fun entry hentry => absurd hentry (Option.not_mem_none entry)
  · intro entry hentry stat hash hkind
    cases metadata with
    | directory => cases hentry; cases hkind
    | file found => cases hentry; cases hkind
    | other => cases hentry

/-- A file that was not read while it had one stat comes without a content hash. -/
theorem stableReadFile_unhashed [Xxh3] (path : RelativePath) :
    (stableReadFile path : Fio (Racing F) _).Ends fun r _ => ∀ observed,
      r = .ok (.changed observed) ∨ r = .ok (.notFile observed) → Unhashed observed := by
  refine (statPath_sees path).bind (fun before log hbefore => ?_) fun e log _ => nofun
  obtain ⟨look, -, hlook⟩ := hbefore.2 before rfl
  cases before.bind TreeEntry.fileStat with
  | none =>
    refine Effect.ends_pure fun observed hend => ?_
    obtain hend | hend := hend
    · cases hend
    · cases hend
      exact hlook.unhashed
  | some stat =>
    refine Effect.ends_perform fun reading => ?_
    cases (Syscalls.read path reading).1 with
    | error kind =>
      cases kind with
      | notFound =>
        refine (statPath_sees path).bind (fun after log hafter => ?_) fun e log _ => nofun
        obtain ⟨look, -, hlook⟩ := hafter.2 after rfl
        refine Effect.ends_pure fun observed hend => ?_
        obtain hend | hend := hend
        · cases hend
          exact hlook.unhashed
        · cases hend
      | _ => exact Effect.ends_throw fun observed hend => by rcases hend with h | h <;> cases h
    | ok bytes =>
      refine (statPath_sees path).bind (fun after log hafter => ?_) fun e log _ => nofun
      obtain ⟨look, -, hlook⟩ := hafter.2 after rfl
      split_ifs with hchanged
      · refine Effect.ends_pure fun observed hend => ?_
        obtain hend | hend := hend
        · cases hend
          exact hlook.unhashed
        · cases hend
      · exact Effect.ends_pure fun observed hend => by rcases hend with h | h <;> cases h

/-- An entry that matches an expected content hash has it. -/
theorem matchesFingerprint_statAndContent {entry : TreeEntry} {stat : FileStatFingerprint}
    {hash : FileHash} : entry.matchesFingerprint (.statAndContent stat hash) = true ↔
      entry.kind = .file (.statAndContent stat hash) := by
  unfold TreeEntry.matchesFingerprint
  cases entry.kind with
  | directory => exact ⟨nofun, nofun⟩
  | file fingerprint =>
    rw [FileFingerprint.satisfies_statAndContent, TreeEntryKind.file.injEq]

/-- What matches the expectation was seen, and so was that nothing is there. -/
theorem observeForExpected_seen [Xxh3] (path : RelativePath) (expected : ExpectedBefore) :
    (observeForExpected path expected : Fio (Racing F) _).Ends fun r log => Looking path log ∧
      ∀ observed, r = .ok observed → observedMatchesExpected observed expected = true →
        SeenAs path log expected ∧ (observed = none → ∃ look ∈ log, look.Sees path none) := by
  have hstat : ∀ expected : ExpectedBefore, (∀ observed (look : Occurrence F FileCall), look.Sees path observed →
      observedMatchesExpected observed expected = true → SeenAs path [look] expected) →
      (statPath path : Fio (Racing F) _).Ends fun r log => Looking path log ∧
        ∀ observed, r = .ok observed → observedMatchesExpected observed expected = true →
          SeenAs path log expected ∧ (observed = none → ∃ look ∈ log, look.Sees path none) := by
    intro expected hseen
    refine (statPath_sees path).weaken fun r log h => ⟨h.1, fun observed hr hmatch => ?_⟩
    obtain ⟨look, rfl, hlook⟩ := h.2 observed hr
    exact ⟨hseen observed look hlook hmatch,
      fun hnone => ⟨look, List.mem_singleton_self look, hnone ▸ hlook⟩⟩
  cases expected with
  | anything => exact hstat .anything fun _ _ _ _ => trivial
  | missing =>
    refine hstat .missing fun observed look hlook hmatch => ?_
    cases observed with
    | none => exact ⟨look, List.mem_singleton_self look, hlook⟩
    | some entry => cases hmatch
  | presentWithFingerprint fingerprint =>
    cases fingerprint with
    | statOnly stat =>
      refine hstat _ fun observed look hlook hmatch => ?_
      obtain ⟨entry, rfl, hentry⟩ := (Option.any_eq_true _ _).mp hmatch
      refine ⟨look, List.mem_singleton_self look, ?_⟩
      obtain ⟨hcall, ⟨-, hnone⟩ | ⟨metadata, hmeta, hkind⟩⟩ := hlook
      · cases hnone
      · cases metadata with
        | directory => cases hkind; cases hentry
        | other => cases hkind
        | file found =>
          cases hkind
          have hsame : found = stat := of_decide_eq_true hentry
          exact ⟨hcall, .inr ⟨.file found, hmeta, by rw [hsame]; rfl⟩⟩
    | statAndContent stat hash =>
      unfold observeForExpected
      refine ((stableReadFile_ends path).and (stableReadFile_unhashed path)).bind
        (fun found log hfound => ?_) fun e log hlog => ⟨hlog.1.1, nofun⟩
      obtain ⟨⟨hlook, hread⟩, hunread⟩ := hfound
      rw [← List.append_nil log] at hlook
      have hnot : ∀ observed, Unhashed observed → observedMatchesExpected observed
          (.presentWithFingerprint (.statAndContent stat hash)) ≠ true := by
        intro observed hunhashed hmatch
        obtain ⟨entry, rfl, hentry⟩ := (Option.any_eq_true _ _).mp hmatch
        exact hunhashed entry rfl stat hash (matchesFingerprint_statAndContent.mp hentry)
      cases found with
      | read bytes fingerprint =>
        refine Effect.ends_pure ⟨hlook, fun observed hobserved hmatch => ?_⟩
        cases hobserved
        have hentry : TreeEntry.matchesFingerprint ⟨path, .file fingerprint⟩
            (.statAndContent stat hash) = true := hmatch
        obtain rfl : fingerprint = .statAndContent stat hash :=
          TreeEntryKind.file.inj (matchesFingerprint_statAndContent.mp hentry)
        rw [List.append_nil]
        exact ⟨⟨bytes, hread bytes _ rfl⟩, nofun⟩
      | changed after =>
        refine Effect.ends_pure ⟨hlook, fun observed hobserved hmatch => ?_⟩
        cases hobserved
        exact absurd hmatch (hnot after (hunread after (.inl rfl)))
      | notFile observed =>
        refine Effect.ends_pure ⟨hlook, fun seen hseen hmatch => ?_⟩
        cases hseen
        exact absurd hmatch (hnot observed (hunread observed (.inr rfl)))

/-- How a guarded delete may end, and what its calls were then. -/
structure DeleteReported [Xxh3] (path : RelativePath) (expected : ExpectedBefore)
    (r : Except Report GuardedDeleteResult) (log : List (Occurrence F FileCall)) : Prop where
  /-- The calls look at files, or are the removal of the target. -/
  calls : ∀ e ∈ log, e.Looks ∨ e.call = .removeFile path
  /-- A removal comes after a look that saw what was expected, and is followed by one look. -/
  removed : ∀ before remove after, log = before ++ remove :: after → remove.Removes path →
    SeenAs path before expected ∧ (∀ e ∈ before, e.Looks) ∧
      ((∃ e look, r = .error e ∧ look.Looks ∧ after = [look]) ∨
        ∃ look observed, after = [look] ∧ look.Sees path observed ∧
          r = .ok (if observed.isNone then .deleted else .conflict observed))
  /-- Without a removal nothing is said to be deleted. -/
  kept : (∀ e ∈ log, ¬e.Removes path) → r ≠ .ok .deleted
  alreadyDeleted : r = .ok .alreadyDeleted →
    (∀ e ∈ log, e.Looks) ∧ ∃ look ∈ log, look.Sees path none

variable [Xxh3] {expected : ExpectedBefore} {log : List (Occurrence F FileCall)}

/-- A delete that does not remove its target. -/
theorem DeleteReported.of_not_removes {r : Except Report GuardedDeleteResult}
    (hcalls : ∀ e ∈ log, e.Looks ∨ e.call = .removeFile path) (hnot : ∀ e ∈ log, ¬e.Removes path)
    (hdeleted : r ≠ .ok .deleted)
    (halready : r = .ok .alreadyDeleted →
      (∀ e ∈ log, e.Looks) ∧ ∃ look ∈ log, look.Sees path none) :
    DeleteReported path expected r log where
  calls := hcalls
  removed _ remove _ hlog hremove :=
    absurd hremove (hnot remove (hlog ▸ List.mem_append_right _ List.mem_cons_self))
  kept _ := hdeleted
  alreadyDeleted := halready

/-- A delete that removes its target ends with one look. -/
theorem DeleteReported.of_removes {r : Except Report GuardedDeleteResult}
    {looks : List (Occurrence F FileCall)} {remove look : Occurrence F FileCall}
    (hlooks : ∀ e ∈ looks, e.Looks) (hseen : SeenAs path looks expected)
    (hremove : remove.Removes path) (hlook : look.Looks)
    (hend : (∃ e, r = .error e) ∨ ∃ observed, look.Sees path observed ∧
      r = .ok (if observed.isNone then .deleted else .conflict observed)) :
    DeleteReported path expected r (looks ++ [remove, look]) where
  calls e he := by
    rcases List.mem_append.mp he with he | he
    · exact .inl (hlooks e he)
    · rcases List.mem_cons.mp he with rfl | he
      · exact .inr hremove.1
      · exact .inl (List.mem_singleton.mp he ▸ hlook)
  removed before remove' after hlog hremove' := by
    -- The only removal among the calls is the last but one.
    have honly : ∀ e ∈ looks ++ [look], ¬e.Removes path := by
      intro e he
      rcases List.mem_append.mp he with he | he
      · exact (hlooks e he).not_removes
      · exact List.mem_singleton.mp he ▸ hlook.not_removes
    obtain ⟨rfl, rfl⟩ := eq_of_only hlog.symm hremove' honly
    refine ⟨hseen, hlooks, ?_⟩
    obtain ⟨e, rfl⟩ | ⟨observed, hsees, rfl⟩ := hend
    · exact .inl ⟨e, look, rfl, hlook, rfl⟩
    · exact .inr ⟨look, observed, rfl, hsees, rfl⟩
  kept hnot := absurd hremove (hnot remove (List.mem_append_right _ List.mem_cons_self))
  alreadyDeleted h := by
    obtain ⟨e, rfl⟩ | ⟨observed, -, rfl⟩ := hend
    · cases h
    · cases observed with
      | none => cases h
      | some entry => cases h

/-- The calls of a delete up to the removal are looks. -/
theorem guardedDelete_reports (path : RelativePath) (expected : ExpectedBefore) :
    (guardedDelete path expected : Fio (Racing F) _).Ends (DeleteReported path expected) := by
  refine (observeForExpected_seen path expected).bind (fun observed looks hlooks => ?_) ?_
  · obtain ⟨hlook, hseen⟩ := hlooks
    have hall : ∀ e ∈ looks, e.Looks := fun e he => (hlook e he).2
    have hcalls : ∀ e ∈ looks ++ [], e.Looks ∨ e.call = .removeFile path := by
      rw [List.append_nil]
      exact fun e he => .inl (hall e he)
    have hnot : ∀ e ∈ looks ++ [], ¬e.Removes path := by
      rw [List.append_nil]
      exact fun e he => (hall e he).not_removes
    by_cases hmatch : observedMatchesExpected observed expected = true
    · rw [hmatch]
      obtain ⟨hexpected, hnone⟩ := hseen observed rfl hmatch
      cases observed with
      | none =>
        refine Effect.ends_pure (.of_not_removes hcalls hnot nofun fun _ => ?_)
        rw [List.append_nil]
        exact ⟨hall, hnone rfl⟩
      | some entry =>
        refine Effect.ends_perform fun files => ?_
        have hstep : ∀ e ∈ looks ++ [⟨.removeFile path, files, (FileCalls.removeFile path files).2⟩],
            e.Looks ∨ e.call = .removeFile path := by
          intro e he
          rcases List.mem_append.mp he with he | he
          · exact .inl (hall e he)
          · exact .inr (List.mem_singleton.mp he ▸ rfl)
        have hkept : ∀ kind, (FileCalls.removeFile path files).1 = .error kind →
            ∀ e ∈ looks ++ [⟨.removeFile path, files, (FileCalls.removeFile path files).2⟩],
              ¬e.Removes path := by
          intro kind hkind e he
          rcases List.mem_append.mp he with he | he
          · exact (hall e he).not_removes
          · rintro ⟨-, hok⟩
            rw [List.mem_singleton.mp he, hkind] at hok
            cases hok
        cases hremove : (FileCalls.removeFile path files).1 with
        | error kind =>
          cases kind with
          | notFound => exact Effect.ends_pure (.of_not_removes hstep (hkept _ hremove) nofun nofun)
          | _ => exact Effect.ends_throw (.of_not_removes hstep (hkept _ hremove) nofun nofun)
        | ok u =>
          refine (statPath_looked path).bind (fun after log hafter => ?_) fun e log hafter => ?_
          · obtain ⟨look, rfl, hlook, hsees⟩ := hafter
            cases after with
            | none =>
              exact Effect.ends_pure (.of_removes hall hexpected ⟨rfl, hremove⟩ hlook
                (.inr ⟨none, hsees none rfl, rfl⟩))
            | some entry =>
              exact Effect.ends_pure (.of_removes hall hexpected ⟨rfl, hremove⟩ hlook
                (.inr ⟨some entry, hsees (some entry) rfl, rfl⟩))
          · obtain ⟨look, rfl, hlook, -⟩ := hafter
            exact .of_removes hall hexpected ⟨rfl, hremove⟩ hlook (.inl ⟨e, rfl⟩)
    · rw [Bool.not_eq_true] at hmatch
      rw [hmatch]
      exact Effect.ends_pure (.of_not_removes hcalls hnot nofun nofun)
  · intro e looks hlooks
    refine .of_not_removes (fun e he => .inl (hlooks.1 e he).2)
      (fun e he => (hlooks.1 e he).2.not_removes) nofun nofun

/-- A guarded delete tells the truth, whatever others do between its calls.  It removes its target at
most once, after the target was seen as expected; `Deleted` is reported exactly if nothing was seen there
right after the removal, and a target that was removed and is there again is reported as a conflict. -/
theorem guarded_delete_truthful (path : RelativePath) (expected : ExpectedBefore) :
    (guardedDelete path expected : Fio (Racing F) _).Ends fun r log =>
      (∀ e ∈ log, e.Looks ∨ e.call = .removeFile path) ∧
      (∀ before remove after, log = before ++ remove :: after → remove.Removes path →
        SeenAs path before expected ∧ (∀ e ∈ before ++ after, e.Looks) ∧
          ((∃ e, r = .error e) ∨ ∃ look observed, after = [look] ∧ look.Sees path observed ∧
            r = .ok (if observed.isNone then .deleted else .conflict observed))) ∧
      (r = .ok .deleted → ∃ before remove look, log = before ++ [remove, look] ∧
        remove.Removes path ∧ SeenAs path before expected ∧ look.Sees path none) ∧
      (r = .ok .alreadyDeleted →
        (∀ e ∈ log, e.Looks) ∧ ∃ look ∈ log, look.Sees path none) := by
  refine (guardedDelete_reports path expected).weaken fun r log h => ?_
  refine ⟨h.calls, fun before remove after hlog hremove => ?_, fun hdeleted => ?_, h.alreadyDeleted⟩
  · obtain ⟨hseen, hlooks, hlast⟩ := h.removed before remove after hlog hremove
    have hall : ∀ look : Occurrence F FileCall, look.Looks → ∀ e ∈ before ++ [look], e.Looks := by
      intro look hlook e he
      rcases List.mem_append.mp he with he | he
      · exact hlooks e he
      · exact List.mem_singleton.mp he ▸ hlook
    obtain ⟨e, look, rfl, hlook, rfl⟩ | ⟨look, observed, rfl, hsees, hend⟩ := hlast
    · exact ⟨hseen, hall look hlook, .inl ⟨e, rfl⟩⟩
    · exact ⟨hseen, hall look ⟨path, .inl hsees.1⟩, .inr ⟨look, observed, rfl, hsees, hend⟩⟩
  · by_cases hnot : ∀ e ∈ log, ¬e.Removes path
    · exact absurd hdeleted (h.kept hnot)
    · simp only [not_forall, not_not] at hnot
      obtain ⟨remove, hmem, hremove⟩ := hnot
      obtain ⟨before, after, rfl⟩ := List.append_of_mem hmem
      obtain ⟨hseen, -, ⟨e, look, hend, -⟩ | ⟨look, observed, rfl, hsees, hend⟩⟩ :=
        h.removed before remove after rfl hremove
      · rw [hdeleted] at hend
        cases hend
      · refine ⟨before, remove, look, rfl, hremove, hseen, ?_⟩
        cases observed with
        | none => exact hsees
        | some entry =>
          rw [hdeleted] at hend
          cases hend

/-! ## Guarded reads -/

omit [Xxh3] in
/-- A look that saw a file saw its stat. -/
theorem Occurrence.Sees.stats {look : Occurrence F FileCall} {entry : TreeEntry}
    {stat : FileStatFingerprint} (h : look.Sees path (some entry))
    (hstat : entry.fileStat = some stat) :
    look.Stats path stat ∧ entry = ⟨path, .file (.statOnly stat)⟩ := by
  obtain ⟨hcall, ⟨-, hnone⟩ | ⟨metadata, hmeta, hentry⟩⟩ := h
  · cases hnone
  · cases metadata with
    | directory => cases hentry; cases hstat
    | other => cases hentry
    | file found =>
      cases hentry
      cases hstat
      exact ⟨⟨hcall, hmeta⟩, rfl⟩

/-- How a guarded read may end, and what its calls were then. -/
structure ReadReported (path : RelativePath) (expected : FileFingerprint)
    (r : Except Report GuardedReadResult) (log : List (Occurrence F FileCall)) : Prop where
  /-- The calls only look. -/
  looks : ∀ e ∈ log, e.Looks
  /-- What was read was there between two looks, and is as expected. -/
  read : ∀ bytes f, r = .ok (.read bytes f) →
    ObservedAs path bytes f log ∧ f.satisfies expected = true
  /-- What is said of the looks was seen. -/
  changed : ∀ before after, r = .ok (.changedBetweenStats before after) →
    ∃ first reading second, log = [first, reading, second] ∧ first.Sees path before ∧
      reading.call = .read path ∧ second.Sees path after
  /-- A conflict is another stat, or another content. -/
  conflict : ∀ observed, r = .ok (.conflictBeforeRead observed) →
    (∃ look, log = [look] ∧ look.Sees path observed ∧
      ∀ stat, observed.bind TreeEntry.fileStat = some stat → stat ≠ expected.stat) ∨
    ∃ bytes f, observed = some ⟨path, .file f⟩ ∧ ObservedAs path bytes f log ∧
      f.satisfies expected = false

/-- A guarded read tells the truth, whatever others do between its calls.  It only looks; the bytes it
returns were read between two looks that saw the file with the expected stat, and they have the hash
that was expected; and a change or a conflict that it reports was seen. -/
theorem guarded_read_truthful (path : RelativePath) (expected : FileFingerprint) :
    (guardedRead path expected : Fio (Racing F) _).Ends (ReadReported path expected) := by
  refine (statPath_looked path).bind (fun before log hbefore => ?_) fun e log hlog => ?_
  · obtain ⟨first, rfl, hfirst, hsees⟩ := hbefore
    have hone : ∀ e ∈ [first], e.Looks := fun e he => List.mem_singleton.mp he ▸ hfirst
    cases hstat : before.bind TreeEntry.fileStat with
    | none =>
      refine Effect.ends_pure ⟨hone, nofun, nofun, fun observed hend => ?_⟩
      cases hend
      refine .inl ⟨first, rfl, hsees before rfl, fun stat hsome => ?_⟩
      rw [hstat] at hsome
      cases hsome
    | some stat =>
      by_cases hother : stat ≠ expected.stat
      · simp only [if_pos hother]
        refine Effect.ends_pure ⟨hone, nofun, nofun, fun observed hend => ?_⟩
        cases hend
        refine .inl ⟨first, rfl, hsees before rfl, fun found hfound => ?_⟩
        rw [hstat] at hfound
        cases hfound
        exact hother
      · simp only [if_neg hother]
        obtain ⟨entry, rfl, hentry⟩ := Option.bind_eq_some_iff.mp hstat
        obtain ⟨hstats, rfl⟩ := (hsees _ rfl).stats hentry
        refine Effect.ends_perform fun reading => ?_
        have hread : Occurrence.Looks ⟨FileCall.read path, reading, (Syscalls.read path reading).2⟩ :=
          ⟨path, .inr rfl⟩
        have hall : ∀ second : Occurrence F FileCall, second.Looks →
            ∀ e ∈ [first, ⟨.read path, reading, (Syscalls.read path reading).2⟩, second],
              e.Looks := by
          intro second hsecond e he
          simp only [List.mem_cons, List.not_mem_nil, or_false] at he
          obtain rfl | rfl | rfl := he
          · exact hfirst
          · exact hread
          · exact hsecond
        cases hbytes : (Syscalls.read path reading).1 with
        | error kind =>
          cases kind with
          | notFound =>
            refine (statPath_looked path).bind (fun after log hafter => ?_) fun e log hlog => ?_
            · obtain ⟨second, rfl, hsecond, hsees'⟩ := hafter
              refine Effect.ends_pure ⟨hall second hsecond, nofun, fun b a hend => ?_, nofun⟩
              cases hend
              exact ⟨first, _, second, rfl, hsees _ rfl, rfl, hsees' _ rfl⟩
            · obtain ⟨second, rfl, hsecond, -⟩ := hlog
              exact ⟨hall second hsecond, nofun, nofun, nofun⟩
          | _ =>
            refine Effect.ends_throw ⟨fun e he => ?_, nofun, nofun, nofun⟩
            simp only [List.cons_append, List.nil_append, List.mem_cons, List.not_mem_nil,
              or_false] at he
            obtain rfl | rfl := he
            · exact hfirst
            · exact hread
        | ok bytes =>
          refine (statPath_looked path).bind (fun after log hafter => ?_) fun e log hlog => ?_
          · obtain ⟨second, rfl, hsecond, hsees'⟩ := hafter
            by_cases hsame : after = some ⟨path, .file (.statOnly stat)⟩
            · subst hsame
              rw [if_neg (not_not.mpr rfl)]
              obtain ⟨hstats', -⟩ := (hsees' _ rfl).stats rfl
              have hobserved : ObservedAs path bytes (statAndContentFingerprint stat bytes)
                  [first, ⟨.read path, reading, (Syscalls.read path reading).2⟩, second] :=
                ⟨[], first, _, second, [], stat, rfl, hstats, ⟨rfl, hbytes⟩, hstats', rfl⟩
              split_ifs with hmeets
              · refine Effect.ends_pure ⟨hall second hsecond, fun b f hend => ?_, nofun, nofun⟩
                cases hend
                exact ⟨hobserved, hmeets⟩
              · refine Effect.ends_pure ⟨hall second hsecond, nofun, nofun, fun o hend => ?_⟩
                cases hend
                exact .inr ⟨bytes, _, rfl, hobserved, by simpa using hmeets⟩
            · rw [if_pos hsame]
              refine Effect.ends_pure ⟨hall second hsecond, nofun, fun b a hend => ?_, nofun⟩
              cases hend
              exact ⟨first, _, second, rfl, hsees _ rfl, rfl, hsees' _ rfl⟩
          · obtain ⟨second, rfl, hsecond, -⟩ := hlog
            exact ⟨hall second hsecond, nofun, nofun, nofun⟩
  · obtain ⟨first, rfl, hfirst, -⟩ := hlog
    exact ⟨fun e he => List.mem_singleton.mp he ▸ hfirst, nofun, nofun, nofun⟩

end Parts

end Opbox
