import Opbox.Fs.GuardedWrite

/-!
# Temporary files

A guarded write makes a file with a random name beside its target.  A swap takes the name away, and a
conflict before the swap reports it.  When a call fails after the file was made, the write fails too, and
nothing reports the name: the file stays, unless it happens to be gone.  So the file is accounted for
exactly if no call of the write fails while it stays.
-/

namespace Opbox

/-! ## Unique elements -/

/-- What stands behind the only element of a kind. -/
theorem mem_of_append_cons_eq {α : Type} {p : α → Prop} {a b c d : List α} {x y : α}
    (h : a ++ x :: b = c ++ y :: d) (hx : p x) (hy : ¬p y) (hd : ∀ z ∈ d, ¬p z) : y ∈ b := by
  rcases List.append_eq_append_iff.mp h with ⟨more, hc, hrest⟩ | ⟨more, ha, hrest⟩
  · cases more with
    | nil => exact absurd hx ((List.cons.inj hrest).1 ▸ hy)
    | cons z more =>
      rw [(List.cons.inj hrest).2]
      exact List.mem_append_right _ List.mem_cons_self
  · cases more with
    | nil => exact absurd hx ((List.cons.inj hrest).1 ▸ hy)
    | cons z more =>
      refine absurd hx (hd x ?_)
      rw [(List.cons.inj hrest).2]
      exact List.mem_append_right _ List.mem_cons_self

/-! ## Calls that fail -/

section Calls

variable {F : Type} [FileCalls F]

/-- The answer is an error, and not that nothing is there. -/
def refused {α : Type} : Except IoErrorKind α → Bool
  | .error .notFound => false
  | .error _ => true
  | .ok _ => false

/-- The answer is an error. -/
def isError {α : Type} : Except IoErrorKind α → Bool
  | .error _ => true
  | .ok _ => false

/-- The two paths are one file. -/
def sameFile (source target : RelativePath) (files : F) : Bool :=
  match (Syscalls.symlinkMetadata source files).1, (Syscalls.symlinkMetadata target files).1 with
  | .ok (.file stat), .ok (.file stat') => decide (stat.fileKey = stat'.fileKey)
  | _, _ => false

namespace Occurrence

variable (e : Occurrence F FileCall)

/-- The call fails: it is refused an answer, or does not do what it is to do.  That nothing is at a path
is an answer to a look. -/
def fails : Bool :=
  match e.call with
  | .symlinkMetadata path => refused (Syscalls.symlinkMetadata path e.before).1
  | .read path => refused (Syscalls.read path e.before).1
  | .createDirAll dir => isError (FileCalls.createDirAll dir e.before).1
  | .write path bytes => isError (FileCalls.write path bytes e.before).1
  | .rename source target =>
    isError (FileCalls.rename source target e.before).1 || sameFile source target e.before
  | _ => false

/-- It writes a file. -/
def Writes (path : RelativePath) : Prop := ∃ bytes, e.call = .write path bytes

end Occurrence

/-- What the operating system promises about a rename: the old name is gone, unless both were names of
one file. -/
class LawfulRename (F : Type) [FileCalls F] : Prop where
  rename_source : ∀ (source target : RelativePath) (files : F), source ≠ target →
    sameFile source target files = false → (FileCalls.rename source target files).1 = .ok () →
      Unused source (FileCalls.rename source target files).2

/-- A file was written to the path, and something has been at the path ever since. -/
def Remains (path : RelativePath) (log : List (Occurrence F FileCall)) : Prop :=
  ∃ before write after, log = before ++ write :: after ∧ write.Writes path ∧
    ¬Unused path write.after ∧ ∀ e ∈ after, ¬Unused path e.before ∧ ¬Unused path e.after

variable {path : RelativePath} {e : Occurrence F FileCall} {log : List (Occurrence F FileCall)}

theorem not_remains_nil : ¬Remains path ([] : List (Occurrence F FileCall)) := by
  rintro ⟨before, write, after, hlog, -⟩
  exact List.append_ne_nil_of_right_ne_nil before (List.cons_ne_nil write after) hlog.symm

/-- The file was written first, or later. -/
theorem remains_cons_iff : Remains path (e :: log) ↔
    (e.Writes path ∧ ¬Unused path e.after ∧
      ∀ e' ∈ log, ¬Unused path e'.before ∧ ¬Unused path e'.after) ∨ Remains path log := by
  constructor
  · rintro ⟨before, write, after, hlog, hstays⟩
    cases before with
    | nil =>
      cases hlog
      exact .inl hstays
    | cons first before => exact .inr ⟨before, write, after, (List.cons.inj hlog).2, hstays⟩
  · rintro (hstays | ⟨before, write, after, rfl, hstays⟩)
    · exact ⟨[], e, log, rfl, hstays⟩
    · exact ⟨e :: before, write, after, rfl, hstays⟩

instance (path : RelativePath) (files : F) : Decidable (Unused path files) :=
  inferInstanceAs (Decidable ((Syscalls.symlinkMetadata path files).1 = .error .notFound))

instance (path : RelativePath) (e : Occurrence F FileCall) : Decidable (e.Writes path) :=
  match h : e.call with
  | .write other bytes =>
    decidable_of_iff (other = path)
      ⟨fun hpath => ⟨bytes, hpath ▸ h⟩, fun ⟨_, hcall⟩ => (FileCall.write.inj (h.symm.trans hcall)).1⟩
  | .symlinkMetadata _ | .readDir _ | .nextEntry | .read _ | .pathExists _ | .createDirAll _
  | .rename _ _ | .removeFile _ => .isFalse fun ⟨_, hcall⟩ => nomatch h.symm.trans hcall

/-- Whether the file stays can be decided from the calls. -/
instance decidableRemains (path : RelativePath) :
    (log : List (Occurrence F FileCall)) → Decidable (Remains path log)
  | [] => .isFalse not_remains_nil
  | e :: log =>
    have : Decidable (Remains path log) := decidableRemains path log
    decidable_of_iff ((e.Writes path ∧ ¬Unused path e.after ∧
      ∀ e' ∈ log, ¬Unused path e'.before ∧ ¬Unused path e'.after) ∨ Remains path log)
      remains_cons_iff.symm

end Calls

/-! ## Looking -/

section Looking

variable {F : Type} [FileCalls F] {α β : Type}

/-- The computation only looks, and fails exactly if a look does. -/
def LooksOnly (m : Fio (Racing F) α) : Prop :=
  m.Ends fun r log => (∀ e ∈ log, e.Looks) ∧
    ((∃ report, r = .error report) ↔ ∃ e ∈ log, e.fails = true)

theorem looksOnly_pure (a : α) : LooksOnly (pure a : Fio (Racing F) α) := by
  refine Effect.ends_pure ⟨nofun, ?_, ?_⟩
  · rintro ⟨report, h⟩
    cases h
  · rintro ⟨e, he, -⟩
    cases he

/-- One after the other. -/
theorem LooksOnly.bind {m : Fio (Racing F) α} {g : α → Fio (Racing F) β} (hm : LooksOnly m)
    (hg : ∀ a, LooksOnly (g a)) : LooksOnly (m >>= g) := by
  refine Effect.Ends.bind hm ?_ ?_
  · rintro a log ⟨hlook, hend⟩
    have hclean : ¬∃ e ∈ log, e.fails = true := by
      intro hfails
      obtain ⟨report, hreport⟩ := hend.mpr hfails
      cases hreport
    refine (hg a).weaken fun r more ⟨hmore, hlast⟩ => ⟨?_, hlast.trans ?_⟩
    · exact fun e he => (List.mem_append.mp he).elim (hlook e) (hmore e)
    · constructor
      · rintro ⟨e, he, hfails⟩
        exact ⟨e, List.mem_append_right _ he, hfails⟩
      · rintro ⟨e, he, hfails⟩
        rcases List.mem_append.mp he with he | he
        · exact absurd ⟨e, he, hfails⟩ hclean
        · exact ⟨e, he, hfails⟩
  · rintro report log ⟨hlook, hend⟩
    exact ⟨hlook, ⟨fun _ => hend.mp ⟨report, rfl⟩, fun _ => ⟨report, rfl⟩⟩⟩

/-- A look, and what is done with its answer: one that is refused ends the computation. -/
theorem looksOnly_perform {call : FileCall} {f : F → β × F} {g : β → Fio (Racing F) α}
    (hlook : ∀ before, (⟨call, before, (f before).2⟩ : Occurrence F FileCall).Looks)
    (hok : ∀ before, (⟨call, before, (f before).2⟩ : Occurrence F FileCall).fails = false →
      LooksOnly (g (f before).1))
    (herror : ∀ before, (⟨call, before, (f before).2⟩ : Occurrence F FileCall).fails = true →
      ∃ report, g (f before).1 = throw report) :
    LooksOnly (Effect.call (Raced.perform call f) >>= g) := by
  refine Effect.ends_perform fun before => ?_
  cases hfails : (⟨call, before, (f before).2⟩ : Occurrence F FileCall).fails with
  | true =>
    obtain ⟨report, hreport⟩ := herror before hfails
    rw [hreport]
    refine Effect.ends_throw ⟨?_, ⟨fun _ => ⟨_, List.mem_cons_self, hfails⟩, fun _ => ⟨report, rfl⟩⟩⟩
    intro e he
    cases List.mem_singleton.mp he
    exact hlook before
  | false =>
    refine (hok before hfails).weaken fun r more ⟨hmore, hend⟩ => ⟨?_, hend.trans ?_⟩
    · intro e he
      rcases List.mem_cons.mp he with rfl | he
      · exact hlook before
      · exact hmore e he
    · constructor
      · rintro ⟨e, he, hfail⟩
        exact ⟨e, List.mem_cons_of_mem _ he, hfail⟩
      · rintro ⟨e, he, hfail⟩
        rcases List.mem_cons.mp he with rfl | he
        · rw [hfails] at hfail
          cases hfail
        · exact ⟨e, he, hfail⟩

theorem statPath_looksOnly (path : RelativePath) : LooksOnly (statPath path : Fio (Racing F) _) := by
  refine looksOnly_perform (fun before => ⟨path, .inl rfl⟩) (fun before hok => ?_) fun before hfails => ?_
  · have hanswer : refused (Syscalls.symlinkMetadata path before).1 = false := hok
    cases hmeta : (Syscalls.symlinkMetadata path before).1 with
    | ok metadata => exact looksOnly_pure _
    | error kind =>
      rw [hmeta] at hanswer
      cases kind with
      | notFound => exact looksOnly_pure _
      | _ => cases hanswer
  · have hanswer : refused (Syscalls.symlinkMetadata path before).1 = true := hfails
    cases hmeta : (Syscalls.symlinkMetadata path before).1 with
    | ok metadata => rw [hmeta] at hanswer; cases hanswer
    | error kind =>
      rw [hmeta] at hanswer
      cases kind with
      | notFound => cases hanswer
      | _ => exact ⟨_, rfl⟩

variable [Xxh3]

theorem stableReadFile_looksOnly (path : RelativePath) :
    LooksOnly (stableReadFile path : Fio (Racing F) _) := by
  refine (statPath_looksOnly path).bind fun found => ?_
  cases hstat : found.bind TreeEntry.fileStat with
  | none => exact looksOnly_pure _
  | some stat =>
    refine looksOnly_perform (fun before => ⟨path, .inr rfl⟩) (fun before hok => ?_)
      fun before hfails => ?_
    · have hanswer : refused (Syscalls.read path before).1 = false := hok
      cases hread : (Syscalls.read path before).1 with
      | ok bytes =>
        refine (statPath_looksOnly path).bind fun after => ?_
        split_ifs
        · exact looksOnly_pure _
        · exact looksOnly_pure _
      | error kind =>
        rw [hread] at hanswer
        cases kind with
        | notFound => exact (statPath_looksOnly path).bind fun after => looksOnly_pure _
        | _ => cases hanswer
    · have hanswer : refused (Syscalls.read path before).1 = true := hfails
      cases hread : (Syscalls.read path before).1 with
      | ok bytes => rw [hread] at hanswer; cases hanswer
      | error kind =>
        rw [hread] at hanswer
        cases kind with
        | notFound => cases hanswer
        | _ => exact ⟨_, rfl⟩

theorem observeForExpected_looksOnly (path : RelativePath) (expected : ExpectedBefore) :
    LooksOnly (observeForExpected path expected : Fio (Racing F) _) := by
  unfold observeForExpected
  split
  · refine (stableReadFile_looksOnly path).bind fun found => ?_
    cases found with
    | read bytes fingerprint => exact looksOnly_pure _
    | changed after => exact looksOnly_pure _
    | notFile observed => exact looksOnly_pure _
  · exact statPath_looksOnly path

end Looking

/-! ## The temporary file of a write -/

section Write

variable {F β : Type} {random : Fin (2 ^ 64)} {path : RelativePath} {log : List (Occurrence F FileCall)}

theorem Occurrence.Looks.not_writes {e : Occurrence F FileCall} (h : e.Looks) (temp : RelativePath) :
    ¬e.Writes temp := by
  rintro ⟨bytes, hcall⟩
  obtain ⟨seen, hseen | hseen⟩ := h
  · rw [hseen] at hcall
    cases hcall
  · rw [hseen] at hcall
    cases hcall

/-- Only the temporary file is written. -/
def OnlyTemp (random : Fin (2 ^ 64)) (path : RelativePath) (log : List (Occurrence F FileCall)) : Prop :=
  ∀ e ∈ log, ∀ temp, e.Writes temp → tempPathFor random path = .ok temp

/-- Nothing is written. -/
def Unwritten (log : List (Occurrence F FileCall)) : Prop := ∀ e ∈ log, ∀ temp, ¬e.Writes temp

theorem unwritten_of_looks (h : ∀ e ∈ log, e.Looks) : Unwritten log :=
  fun e he temp => (h e he).not_writes temp

theorem Unwritten.onlyTemp (h : Unwritten log) : OnlyTemp random path log :=
  fun e he temp hwrites => absurd hwrites (h e he temp)

theorem OnlyTemp.append {log' : List (Occurrence F FileCall)} (h : OnlyTemp random path log)
    (h' : OnlyTemp random path log') : OnlyTemp random path (log ++ log') :=
  fun e he => (List.mem_append.mp he).elim (h e) (h' e)

variable [FileCalls F]

/-- The calls did not fail. -/
def Calm (log : List (Occurrence F FileCall)) : Prop := ∀ e ∈ log, e.fails = false

instance (log : List (Occurrence F FileCall)) : Decidable (Calm log) :=
  inferInstanceAs (Decidable (∀ e ∈ log, e.fails = false))

theorem Calm.append {log' : List (Occurrence F FileCall)} (h : Calm log) (h' : Calm log') :
    Calm (log ++ log') := fun e he => (List.mem_append.mp he).elim (h e) (h' e)

theorem calm_singleton {e : Occurrence F FileCall} (h : e.fails = false) : Calm [e] := by
  intro e' he'
  cases List.mem_singleton.mp he'
  exact h

/-- What the end of a write says about its temporary file. -/
structure TempHandled (random : Fin (2 ^ 64)) (path : RelativePath)
    (r : Except Report GuardedWriteResult) (log : List (Occurrence F FileCall)) : Prop where
  onlyTemp : OnlyTemp random path log
  /-- The file is reported if no call failed. -/
  reported : ∀ temp observed, r = .ok (.conflictBeforeSwap temp observed) →
    tempPathFor random path = .ok temp ∧ Calm log
  /-- Otherwise a call failed, or there is no such file, or it was swapped. -/
  unreported : (∀ temp observed, r ≠ .ok (.conflictBeforeSwap temp observed)) →
    (∃ e ∈ log, e.fails = true) ∨ Unwritten log ∨ ∃ before files after temp,
      log = before ++ ⟨.rename temp path, files, (FileCalls.rename temp path files).2⟩ :: after ∧
      tempPathFor random path = .ok temp ∧ (FileCalls.rename temp path files).1 = .ok () ∧ Unwritten after

/-- A write that ends with an error because a call failed. -/
theorem tempHandled_failed {report : Report} (hwrites : OnlyTemp random path log)
    (hfails : ∃ e ∈ log, e.fails = true) : TempHandled random path (.error report) log where
  onlyTemp := hwrites
  reported _ _ h := by cases h
  unreported _ := .inl hfails

/-- A write that ends before it writes. -/
theorem tempHandled_unwritten {r : Except Report GuardedWriteResult} (hnone : Unwritten log)
    (hr : ∀ temp observed, r ≠ .ok (.conflictBeforeSwap temp observed)) :
    TempHandled random path r log where
  onlyTemp := hnone.onlyTemp
  reported temp observed h := absurd h (hr temp observed)
  unreported _ := .inr (.inl hnone)

/-- A write that has swapped the file, and only looks after that. -/
theorem tempHandled_swapped {r : Except Report GuardedWriteResult} {temp : RelativePath} {files : F}
    {more : List (Occurrence F FileCall)} (htemp : tempPathFor random path = .ok temp)
    (hrename : (FileCalls.rename temp path files).1 = .ok ())
    (hwrites : OnlyTemp random path
      (log ++ [⟨.rename temp path, files, (FileCalls.rename temp path files).2⟩]))
    (hmore : ∀ e ∈ more, e.Looks) (hr : ∀ temp observed, r ≠ .ok (.conflictBeforeSwap temp observed)) :
    TempHandled random path r
      (log ++ [⟨.rename temp path, files, (FileCalls.rename temp path files).2⟩] ++ more) where
  onlyTemp := hwrites.append (unwritten_of_looks hmore).onlyTemp
  reported temp' observed h := absurd h (hr temp' observed)
  unreported _ := by
    refine .inr (.inr ⟨log, files, more, temp, ?_, htemp, hrename, unwritten_of_looks hmore⟩)
    rw [List.append_assoc, List.singleton_append]

/-- After the calls of a log, the rest of a write handles the temporary file. -/
def Handles (random : Fin (2 ^ 64)) (path : RelativePath) (log : List (Occurrence F FileCall))
    (m : Fio (Racing F) GuardedWriteResult) : Prop :=
  m.Ends fun r more => TempHandled random path r (log ++ more)

/-- A computation that only looks goes before the rest. -/
theorem Handles.look {m : Fio (Racing F) β} {g : β → Fio (Racing F) GuardedWriteResult}
    (hm : LooksOnly m) (hwrites : OnlyTemp random path log)
    (h : ∀ a seen, (∀ e ∈ seen, e.Looks) → Calm seen → Handles random path (log ++ seen) (g a)) :
    Handles random path log (m >>= g) := by
  refine Effect.Ends.bind hm ?_ ?_
  · rintro a seen ⟨hlook, hend⟩
    have hcalm : Calm seen := by
      intro e he
      by_contra hfails
      obtain ⟨report, hreport⟩ := hend.mpr ⟨e, he, (Bool.not_eq_false _).mp hfails⟩
      cases hreport
    refine (h a seen hlook hcalm).weaken fun r more hhandled => ?_
    rwa [List.append_assoc] at hhandled
  · rintro report seen ⟨hlook, hend⟩
    obtain ⟨e, he, hfails⟩ := hend.mp ⟨report, rfl⟩
    exact tempHandled_failed (hwrites.append (unwritten_of_looks hlook).onlyTemp)
      ⟨e, List.mem_append_right _ he, hfails⟩

/-- The next call joins the log. -/
theorem Handles.perform {call : FileCall} {f : F → β × F} {g : β → Fio (Racing F) GuardedWriteResult}
    (h : ∀ before, Handles random path (log ++ [⟨call, before, (f before).2⟩]) (g (f before).1)) :
    Handles random path log (Effect.call (Raced.perform call f) >>= g) := by
  refine Effect.ends_perform fun before => (h before).weaken fun r more hend => ?_
  rwa [List.append_assoc] at hend

/-- A call whose error ends the write. -/
theorem Handles.attempt {call : FileCall} {f : F → Except IoErrorKind Unit × F}
    {g : Unit → Fio (Racing F) GuardedWriteResult}
    (hfails : ∀ before, (⟨call, before, (f before).2⟩ : Occurrence F FileCall).fails =
      isError (f before).1)
    (hwrites : ∀ before, OnlyTemp random path (log ++ [⟨call, before, (f before).2⟩]))
    (h : ∀ before, (⟨call, before, (f before).2⟩ : Occurrence F FileCall).fails = false →
      Handles random path (log ++ [⟨call, before, (f before).2⟩]) (g ())) :
    Handles random path log
      (Effect.call (Raced.perform call f) >>= fun answer => orThrow answer >>= g) := by
  refine Handles.perform fun before => ?_
  cases hanswer : (f before).1 with
  | ok u => exact h before (by rw [hfails, hanswer]; rfl)
  | error kind =>
    refine Effect.ends_throw ?_
    rw [List.append_nil]
    exact tempHandled_failed (hwrites before)
      ⟨_, List.mem_append_right _ List.mem_cons_self, by rw [hfails, hanswer]; rfl⟩

variable [Xxh3]

/-- After the swap a write only looks, and reports no temporary file. -/
theorem observeSwapped_looks (path : RelativePath) (bytes : Bytes) :
    (observeSwapped path bytes : Fio (Racing F) _).Ends fun r log => (∀ e ∈ log, e.Looks) ∧
      ∀ temp observed, r ≠ .ok (.conflictBeforeSwap temp observed) := by
  refine Effect.Ends.bind (stableReadFile_looksOnly path) ?_ ?_
  · rintro found log ⟨hlook, -⟩
    rw [← List.append_nil log] at hlook
    cases found with
    | read current fingerprint =>
      dsimp only
      split_ifs
      · exact Effect.ends_pure ⟨hlook, nofun⟩
      · exact Effect.ends_pure ⟨hlook, nofun⟩
    | changed after => exact Effect.ends_pure ⟨hlook, nofun⟩
    | notFile observed => exact Effect.ends_pure ⟨hlook, nofun⟩
  · rintro report log ⟨hlook, -⟩
    exact ⟨hlook, nofun⟩

/-- The part that writes handles its temporary file. -/
theorem swapFile_handles (bytes : Bytes) (expectedBefore : ExpectedBefore) (hnone : Unwritten log)
    (hcalm : Calm log) :
    Handles random path log (swapFile random path bytes expectedBefore : Fio (Racing F) _) := by
  unfold swapFile
  cases htemp : tempPathFor random path with
  | error report =>
    refine Effect.ends_throw (tempHandled_unwritten ?_ nofun)
    rwa [List.append_nil]
  | ok temp =>
    have hother : ∀ (call : FileCall) (files files' : F), (∀ other bytes, call ≠ .write other bytes) →
        OnlyTemp random path [⟨call, files, files'⟩] := by
      intro call files files' hcall e he other ⟨bytes, hwrite⟩
      cases List.mem_singleton.mp he
      exact absurd hwrite (hcall other bytes)
    refine Handles.attempt (fun _ => rfl) (fun made => hnone.onlyTemp.append (hother _ _ _ nofun))
      fun made hmade => ?_
    have hmadeTemp := hnone.onlyTemp.append
      (hother (.createDirAll path.parent) made
        (FileCalls.createDirAll path.parent made).2 nofun)
    have hwrites : ∀ wrote : F, OnlyTemp random path
        [⟨.write temp bytes, wrote, (FileCalls.write temp bytes wrote).2⟩] := by
      rintro wrote e he other ⟨bytes', hwrite⟩
      cases List.mem_singleton.mp he
      cases hwrite
      exact htemp
    refine Handles.attempt (fun _ => rfl) (fun wrote => hmadeTemp.append (hwrites wrote))
      fun wrote hwrote => ?_
    refine Handles.look (observeForExpected_looksOnly path expectedBefore)
      (hmadeTemp.append (hwrites wrote)) fun observed seen hlook hseen => ?_
    have honly := (hmadeTemp.append (hwrites wrote)).append
      (unwritten_of_looks hlook).onlyTemp
    have hcalm' := ((hcalm.append (calm_singleton hmade)).append (calm_singleton hwrote)).append hseen
    split_ifs with hmatch
    · refine Effect.ends_pure ?_
      rw [List.append_nil]
      refine ⟨honly, fun temp' observed' h => ?_, fun h => absurd rfl (h temp observed)⟩
      cases h
      exact ⟨htemp, hcalm'⟩
    · refine Handles.perform fun files => ?_
      have hrenamed := honly.append (hother (.rename temp path) files
        (FileCalls.rename temp path files).2 nofun)
      cases hrename : (FileCalls.rename temp path files).1 with
      | error kind =>
        -- Whether the file is removed or not, the write fails.
        refine Handles.perform fun removed => Effect.ends_throw ?_
        rw [List.append_nil]
        refine tempHandled_failed (hrenamed.append (hother _ _ _ nofun)) ⟨_,
          List.mem_append_left _ (List.mem_append_right _ List.mem_cons_self), ?_⟩
        show (isError (FileCalls.rename temp path files).1 || _) = true
        rw [hrename]
        rfl
      | ok u =>
        exact (observeSwapped_looks path bytes).weaken fun r more ⟨hmore, hr⟩ =>
          tempHandled_swapped htemp hrename hrenamed hmore hr

/-- A guarded write handles its temporary file. -/
theorem guardedWrite_handles (random : Fin (2 ^ 64)) (path : RelativePath) (bytes : Bytes)
    (expectedBefore : ExpectedBefore) :
    Handles random path [] (guardedWrite random path bytes expectedBefore : Fio (Racing F) _) := by
  refine Handles.look (stableReadFile_looksOnly path) nofun fun found seen hlook hcalm => ?_
  rw [List.nil_append]
  have hnone := unwritten_of_looks hlook
  have hswap : Handles random path seen (swapFile random path bytes expectedBefore : Fio (Racing F) _) :=
    swapFile_handles bytes expectedBefore hnone hcalm
  cases found with
  | read current fingerprint =>
    dsimp only
    split_ifs
    · refine Effect.ends_pure (tempHandled_unwritten ?_ nofun)
      rwa [List.append_nil]
    · exact hswap
  | changed after => exact hswap
  | notFile observed => exact hswap

omit [Xxh3] in
/-- Where the temporary file stays, it is reported exactly if no call failed. -/
theorem TempHandled.reported_iff [LawfulRename F] {r : Except Report GuardedWriteResult}
    (h : TempHandled random path r log) {temp : RelativePath} (hremains : Remains temp log) :
    (∃ observed, r = .ok (.conflictBeforeSwap temp observed)) ↔ Calm log := by
  obtain ⟨before, write, after, hlog, hwrites, -, hstays⟩ := hremains
  have hwrite : write ∈ log := hlog ▸ List.mem_append_right _ List.mem_cons_self
  have htemp := h.onlyTemp write hwrite temp hwrites
  constructor
  · rintro ⟨observed, hr⟩
    exact (h.reported temp observed hr).2
  · intro hcalm
    by_contra hnot
    have hr : ∀ temp observed, r ≠ .ok (.conflictBeforeSwap temp observed) := by
      intro temp' observed hr
      have htemp' := (h.reported temp' observed hr).1
      rw [htemp] at htemp'
      cases htemp'
      exact hnot ⟨observed, hr⟩
    rcases h.unreported hr with ⟨e, he, hfails⟩ | hnone | ⟨before', files, after', temp', hlog', htemp',
      hrename, hrest⟩
    · rw [hcalm e he] at hfails
      cases hfails
    · exact hnone write hwrite temp hwrites
    · -- The swap comes after the write, and takes the file away.
      rw [htemp] at htemp'
      cases htemp'
      rw [hlog'] at hlog
      have hswap := mem_of_append_cons_eq (p := fun e => e.Writes temp) hlog.symm hwrites
        (by rintro ⟨bytes, hcall⟩; cases hcall) (fun e he => hrest e he temp)
      have hcalmSwap := hcalm _ (hlog' ▸ List.mem_append_right _ List.mem_cons_self)
      have hsame : sameFile temp path files = false :=
        (Bool.or_eq_false_iff.mp hcalmSwap).2
      have hne : temp ≠ path := (beside_of_tempPathFor htemp).2
      exact (hstays _ hswap).2 (LawfulRename.rename_source temp path files hne hsame hrename)

end Write

/-! ## A disk that runs full -/

/-- A folder on a disk that takes only so many bytes of a file. -/
structure FullFolder where
  folder : Folder
  /-- The space that is left. -/
  space : Nat

/-- A call of the folder alone. -/
def FullFolder.lift {α : Type} (f : Folder → α × Folder) (full : FullFolder) : α × FullFolder :=
  ((f full.folder).1, ⟨(f full.folder).2, full.space⟩)

instance : FileCalls FullFolder where
  Handle := Syscalls.Handle Folder
  symlinkMetadata path := FullFolder.lift (Syscalls.symlinkMetadata path)
  readDir dir := FullFolder.lift (Syscalls.readDir dir)
  nextEntry handle := FullFolder.lift (Syscalls.nextEntry handle)
  read path := FullFolder.lift (Syscalls.read path)
  pathExists path := FullFolder.lift (Syscalls.pathExists path)
  createDirAll dir := FullFolder.lift (FileCalls.createDirAll dir)
  -- A file that does not fit is cut off.
  write path bytes full :=
    let full' := FullFolder.lift (FileCalls.write path (bytes.take full.space)) full
    (if bytes.length ≤ full.space then .ok () else .error (.other 28), full'.2)
  rename source target := FullFolder.lift (FileCalls.rename source target)
  removeFile path := FullFolder.lift (FileCalls.removeFile path)

instance : LawfulRename FullFolder where
  rename_source source target full hne _ hok := by
    have hcall : FileCalls.rename source target full = FullFolder.lift (fun folder =>
        match folder.files source with
        | some file => (.ok (), (folder.update source none).update target (some file))
        | none => (.error .notFound, folder)) full := rfl
    rw [hcall, FullFolder.lift] at hok ⊢
    dsimp only at hok ⊢
    cases hfile : full.folder.files source with
    | none => rw [hfile] at hok; cases hok
    | some file =>
      have hgone : ((full.folder.update source none).update target (some file)).files source = none := by
        rw [Folder.files_update, if_neg hne, Folder.files_update, if_pos rfl]
      change (match ((full.folder.update source none).update target (some file)).files source with
        | some file => Except.ok (Metadata.file file.1)
        | none => Except.error IoErrorKind.notFound) = _
      rw [hgone]

end Opbox
