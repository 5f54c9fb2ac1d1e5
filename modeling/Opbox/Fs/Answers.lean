import Opbox.Foundation.Recorded
import Opbox.Fs.ScopedScan
import Opbox.Semantic.Staging

/-!
# Scans and reads while others change the disk

What ends a scan or the read of an import with an error that stops the daemon, in any world: others
may change anything between two system calls.  A scan fails on every error of a call but a missing
path, on a name that is no text, on an ignore file that cannot be read or has a line that is no
pattern, and on a path that is listed twice.  The read of an import fails on every error but a missing
path and a denied permission.
-/

namespace Opbox

/-- What the operating system says to a system call. -/
inductive Answer where
  | metadata (path : RelativePath) (result : Except IoErrorKind Metadata)
  | opened (dir : Option RelativePath) (result : Except IoErrorKind Unit)
  | listed (result : Except IoErrorKind (Option OsName))
  | bytes (path : RelativePath) (result : Except IoErrorKind Bytes)
  | found (path : RelativePath) (result : Bool)

variable {σ β : Type} [Syscalls σ]

/-- A world that records what it says to the system calls. -/
instance : Syscalls (Recorded σ Answer) where
  Handle := Syscalls.Handle σ
  symlinkMetadata path := Recorded.ask (Syscalls.symlinkMetadata path) (.metadata path)
  readDir dir :=
    Recorded.ask (Syscalls.readDir dir) fun result => .opened dir (result.map fun _ => ())
  nextEntry handle :=
    Recorded.ask (Syscalls.nextEntry handle) fun result => .listed (result.map (Option.map Prod.fst))
  read path := Recorded.ask (Syscalls.read path) (.bytes path)
  pathExists path := Recorded.ask (Syscalls.pathExists path) (.found path)

section Calls

variable {Q : Except Report β → List Answer → Prop}

theorem ends_symlinkMetadata {path : RelativePath}
    {g : Except IoErrorKind Metadata → Fio (Recorded σ Answer) β}
    (h : ∀ result, (g result).Ends fun r more => Q r (.metadata path result :: more)) :
    (Effect.call (Syscalls.symlinkMetadata path) >>= g).Ends Q :=
  Effect.ends_ask h

theorem ends_readDir {dir : Option RelativePath}
    {g : Except IoErrorKind (Syscalls.Handle σ) → Fio (Recorded σ Answer) β}
    (h : ∀ result, (g result).Ends fun r more => Q r (.opened dir (result.map fun _ => ()) :: more)) :
    (Effect.call (Syscalls.readDir (σ := Recorded σ Answer) dir) >>= g).Ends Q :=
  Effect.ends_ask h

theorem ends_nextEntry {handle : Syscalls.Handle σ}
    {g : Except IoErrorKind (Option (OsName × Syscalls.Handle σ)) → Fio (Recorded σ Answer) β}
    (h : ∀ result, (g result).Ends
      fun r more => Q r (.listed (result.map (Option.map Prod.fst)) :: more)) :
    (Effect.call (Syscalls.nextEntry (σ := Recorded σ Answer) handle) >>= g).Ends Q :=
  Effect.ends_ask h

theorem ends_read {path : RelativePath}
    {g : Except IoErrorKind Bytes → Fio (Recorded σ Answer) β}
    (h : ∀ result, (g result).Ends fun r more => Q r (.bytes path result :: more)) :
    (Effect.call (Syscalls.read path) >>= g).Ends Q :=
  Effect.ends_ask h

theorem ends_pathExists {path : RelativePath} {g : Bool → Fio (Recorded σ Answer) β}
    (h : ∀ result, (g result).Ends fun r more => Q r (.found path result :: more)) :
    (Effect.call (Syscalls.pathExists path) >>= g).Ends Q :=
  Effect.ends_ask h

end Calls

/-! ## Scans -/

section Scan

variable [Gitignore]

/-- The answer is none that a scan fails on. -/
def Answer.Harmless : Answer → Prop
  | metadata _ (.error kind) => kind = .notFound
  | metadata _ (.ok _) => True
  | opened _ (.error kind) => kind = .notFound
  | opened _ (.ok _) => True
  | listed (.error kind) => kind = .notFound
  | listed (.ok none) => True
  | listed (.ok (some name)) => ∃ component, name = .utf8 component ∧ ValidComponent component
  | bytes _ result =>
    ∃ matcher, Gitignore.build (IgnoreRules.addFile result).1 = .ok matcher
  | found _ result => result = false

/-- The entry that a scan with these rules keeps of a path with this answer. -/
def Answer.kept (rules : IgnoreRules) : Answer → Option TreeEntry
  | metadata path (.ok observed) =>
    (observed.entry path).filter fun entry => !rules.isIgnored path entry.isDir
  | _ => none

/-- The entries that a scan with these answers keeps; the first answer is the ignore file. -/
def keptEntries : List Answer → List TreeEntry
  | .bytes _ result :: answers =>
    match IgnoreRules.fromBuilder (IgnoreRules.addFile result).1 with
    | .ok rules => answers.filterMap (Answer.kept rules)
    | .error _ => []
  | _ => []

/-- The stat of a path gets one answer. -/
theorem statPath_ends (path : RelativePath) :
    (statPath path : Fio (Recorded σ Answer) _).Ends fun r answers =>
      ∃ result, answers = [.metadata path result] ∧ match r with
        | .ok entry => (Answer.metadata path result).Harmless ∧
          ∀ rules, (Answer.metadata path result).kept rules =
            entry.filter fun entry => !rules.isIgnored path entry.isDir
        | .error _ => ¬(Answer.metadata path result).Harmless := by
  refine ends_symlinkMetadata fun result => ?_
  cases result with
  | ok observed =>
    exact Effect.ends_pure ⟨_, rfl, trivial, fun rules => rfl⟩
  | error kind =>
    cases kind with
    | notFound => exact Effect.ends_pure ⟨_, rfl, rfl, fun rules => rfl⟩
    | _ => exact Effect.ends_throw ⟨_, rfl, nofun⟩

/-- The rules are loaded unless an answer is harmful, and what is kept depends on the later answers. -/
theorem load_ends : (IgnoreRules.load : Fio (Recorded σ Answer) _).Ends fun r answers =>
    match r with
    | .ok rules => (∀ a ∈ answers, a.Harmless) ∧
      ∀ more, keptEntries (answers ++ more) = more.filterMap (Answer.kept rules)
    | .error _ => ∃ a ∈ answers, ¬a.Harmless := by
  refine ends_read fun result => ?_
  -- The patterns compile or the answer is harmful.
  have hbuild : ∀ r, IgnoreRules.fromBuilder (IgnoreRules.addFile result).1 = r → match r with
      | .ok rules => (Answer.bytes ignoreFilePath result).Harmless ∧ ∀ more,
        keptEntries (.bytes ignoreFilePath result :: more) = more.filterMap (Answer.kept rules)
      | .error _ => ¬(Answer.bytes ignoreFilePath result).Harmless := by
    rintro r hr
    cases r with
    | ok rules =>
      refine ⟨?_, fun more => by rw [keptEntries, hr]⟩
      unfold IgnoreRules.fromBuilder at hr
      split at hr
      next matcher hmatcher => exact ⟨matcher, hmatcher⟩
      · cases hr
    | error e =>
      rintro ⟨matcher, hmatcher⟩
      rw [IgnoreRules.fromBuilder, hmatcher] at hr
      cases hr
  dsimp only
  split
  · refine Effect.ends_lift ?_
    cases hr : IgnoreRules.fromBuilder (IgnoreRules.addFile result).1 with
    | ok rules =>
      obtain ⟨hharmless, hkept⟩ := hbuild _ hr
      exact ⟨List.forall_mem_singleton.mpr hharmless, hkept⟩
    | error e => exact ⟨_, List.mem_cons_self, hbuild _ hr⟩
  · refine ends_pathExists fun found => ?_
    cases found with
    | true =>
      exact Effect.ends_throw ⟨_, List.mem_cons_of_mem _ List.mem_cons_self, Bool.true_eq_false.mp⟩
    | false =>
      refine Effect.ends_lift ?_
      cases hr : IgnoreRules.fromBuilder (IgnoreRules.addFile result).1 with
      | ok rules =>
        obtain ⟨hharmless, hkept⟩ := hbuild _ hr
        exact ⟨List.forall_mem_cons.mpr ⟨hharmless, List.forall_mem_singleton.mpr rfl⟩,
          fun more => hkept (.found ignoreFilePath false :: more)⟩
      | error e => exact ⟨_, List.mem_cons_self, hbuild _ hr⟩

/-- A child has a path exactly if its name is a valid text. -/
theorem childPath_cases (dir : Option RelativePath) (name : OsName) :
    match childPath dir name with
    | .ok _ => (Answer.listed (.ok (some name))).Harmless
    | .error _ => ¬(Answer.listed (.ok (some name))).Harmless := by
  unfold childPath
  cases name with
  | raw bytes => rintro ⟨component, hname, -⟩; cases hname
  | utf8 component =>
    dsimp only [OsName.toStr]
    have hvalid : (∃ path, RelativePath.new
        ((dir.map RelativePath.components).getD [] ++ [component]) = .ok path) ↔
        ValidComponent component := by
      rw [RelativePath.exists_new_iff, List.forall_mem_append, List.forall_mem_singleton]
      have hdir : ∀ c ∈ (dir.map RelativePath.components).getD [], ValidComponent c := by
        cases dir with
        | none => exact nofun
        | some parent => exact parent.valid
      exact ⟨fun h => h.2.2, fun h => ⟨by simp, hdir, h⟩⟩
    cases hnew : RelativePath.new
        ((dir.map RelativePath.components).getD [] ++ [component]) with
    | ok path => exact ⟨component, rfl, hvalid.mp ⟨path, hnew⟩⟩
    | error message =>
      rintro ⟨_, hname, hcomponent⟩
      cases hname
      obtain ⟨path, hpath⟩ := hvalid.mpr hcomponent
      cases hnew.symm.trans hpath

/-- How a part of the walk ends that has this much fuel and these entries to begin with. -/
def Collects (rules : IgnoreRules) (fuel : Nat) (entries : List TreeEntry)
    (r : Except Report (Option (List TreeEntry))) (answers : List Answer) : Prop :=
  match r with
  | .ok none => fuel ≤ answers.length
  | .ok (some found) =>
    (∀ a ∈ answers, a.Harmless) ∧ found = entries ++ answers.filterMap (Answer.kept rules)
  | .error _ => ∃ a ∈ answers, ¬a.Harmless

variable {rules : IgnoreRules} {fuel : Nat} {entries : List TreeEntry}
  {r : Except Report (Option (List TreeEntry))} {answers : List Answer}

theorem collects_error {a : Answer} {e : Report} (ha : ¬a.Harmless) :
    Collects rules fuel entries (.error e) (a :: answers) :=
  ⟨a, List.mem_cons_self, ha⟩

/-- One harmless answer. -/
theorem collects_single {a : Answer} {entry : Option TreeEntry} (ha : a.Harmless)
    (hkept : a.kept rules = entry) : Collects rules 0 [] (.ok (some entry.toList)) [a] := by
  refine ⟨List.forall_mem_singleton.mpr ha, ?_⟩
  cases entry with
  | none => rw [List.filterMap_cons_none hkept]; rfl
  | some entry => rw [List.filterMap_cons_some hkept]; rfl

/-- One more harmless answer is paid by one unit of fuel. -/
theorem Collects.cons {a : Answer} (ha : a.Harmless)
    (h : Collects rules fuel (entries ++ (a.kept rules).toList) r answers) :
    Collects rules (fuel + 1) entries r (a :: answers) := by
  unfold Collects at h ⊢
  split at h
  · exact Nat.succ_le_succ h
  · obtain ⟨hharmless, rfl⟩ := h
    refine ⟨List.forall_mem_cons.mpr ⟨ha, hharmless⟩, ?_⟩
    rw [List.append_assoc]
    cases hkept : a.kept rules with
    | none => rw [List.filterMap_cons_none hkept]; rfl
    | some entry => rw [List.filterMap_cons_some hkept]; rfl
  · obtain ⟨b, hb, hharmful⟩ := h
    exact ⟨b, List.mem_cons_of_mem _ hb, hharmful⟩

/-- An answer of which nothing is kept. -/
theorem Collects.skip {a : Answer} (ha : a.Harmless) (hkept : a.kept rules = none)
    (h : Collects rules fuel entries r answers) :
    Collects rules (fuel + 1) entries r (a :: answers) := by
  refine .cons ha ?_
  rw [hkept, Option.toList_none, List.append_nil]
  exact h

theorem Collects.less {fuel' : Nat} (hle : fuel' ≤ fuel) (h : Collects rules fuel entries r answers) :
    Collects rules fuel' entries r answers := by
  unfold Collects at h ⊢
  split at h
  · exact hle.trans h
  · exact h
  · exact h

/-- A walk goes on with what it has found. -/
theorem Collects.append {fuel' : Nat} {found : List TreeEntry} {more : List Answer}
    (h : Collects rules fuel' entries (.ok (some found)) answers)
    (hmore : Collects rules fuel found r more) :
    Collects rules fuel entries r (answers ++ more) := by
  obtain ⟨hharmless, rfl⟩ := h
  unfold Collects at hmore ⊢
  split at hmore
  · rw [List.length_append]
    exact hmore.trans (Nat.le_add_left _ _)
  · obtain ⟨hmore, rfl⟩ := hmore
    refine ⟨fun a ha => (List.mem_append.mp ha).elim (hharmless a) (hmore a), ?_⟩
    rw [List.filterMap_append, List.append_assoc]
  · obtain ⟨b, hb, hharmful⟩ := hmore
    exact ⟨b, List.mem_append_right _ hb, hharmful⟩

/-- What the inner loop finds. -/
theorem readEntries_ends (dir : Option RelativePath) (handle : Syscalls.Handle σ)
    (pending : List (Option RelativePath)) :
    (readEntries (σ := Recorded σ Answer) rules dir fuel handle pending entries).Ends
      fun r answers => Collects rules fuel entries (r.map (Option.map Prod.snd)) answers := by
  induction fuel generalizing handle pending entries with
  | zero => exact Effect.ends_pure (Nat.zero_le _)
  | succ fuel ih =>
    refine ends_nextEntry fun result => ?_
    cases result with
    | error kind =>
      cases kind with
      | notFound =>
        exact Effect.ends_pure ⟨List.forall_mem_singleton.mpr rfl, (List.append_nil _).symm⟩
      | _ => exact Effect.ends_throw (collects_error nofun)
    | ok next =>
      cases next with
      | none =>
        exact Effect.ends_pure ⟨List.forall_mem_singleton.mpr trivial, (List.append_nil _).symm⟩
      | some next =>
        obtain ⟨name, handle⟩ := next
        have hname := childPath_cases dir name
        dsimp only
        cases hchild : childPath dir name with
        | error e =>
          rw [hchild] at hname
          exact Effect.ends_throw (collects_error hname)
        | ok path =>
          rw [hchild] at hname
          change (if isHardIgnored path then _ else _ : Fio (Recorded σ Answer) _).Ends _
          split_ifs
          · exact (ih handle pending).weaken fun r later h => h.skip hname rfl
          · refine (statPath_ends path).bind ?_ ?_
            · rintro found _ ⟨result, rfl, hharmless, hkept⟩
              -- Where nothing is kept of the path, the loop goes on with the next name.
              have hskip : (Answer.metadata path result).kept rules = none →
                  (readEntries (σ := Recorded σ Answer) rules dir fuel handle pending entries).Ends
                    fun r later => Collects rules (fuel + 1) entries (r.map (Option.map Prod.snd))
                      (.listed (.ok (some name)) :: ([.metadata path result] ++ later)) :=
                fun hnone => (ih handle pending).weaken fun r later h =>
                  ((h.skip hharmless hnone).skip hname rfl).less (Nat.le_succ _)
              cases found with
              | none => exact hskip (hkept rules)
              | some entry =>
                dsimp only
                by_cases hignored : rules.isIgnored path entry.isDir = true
                · rw [if_pos hignored]
                  exact hskip (by rw [hkept, Option.filter_some, hignored]; rfl)
                · rw [if_neg hignored]
                  have hentry : (Answer.metadata path result).kept rules = some entry := by
                    rw [hkept, Option.filter_some, if_pos (by simpa using hignored)]
                  refine (ih handle _).weaken fun r later h => ?_
                  have h' : Collects rules (fuel + 1) entries (r.map (Option.map Prod.snd))
                      (.metadata path result :: later) :=
                    .cons hharmless (by rw [hentry]; exact h)
                  exact (h'.skip hname rfl).less (Nat.le_succ _)
            · rintro e _ ⟨result, rfl, hharmful⟩
              exact ⟨_, List.mem_cons_of_mem _ List.mem_cons_self, hharmful⟩

/-- What the outer loop finds. -/
theorem walkDirs_ends (pending : List (Option RelativePath)) :
    (walkDirs rules fuel pending entries : Fio (Recorded σ Answer) _).Ends
      (Collects rules fuel entries) := by
  induction fuel generalizing pending entries with
  | zero => exact Effect.ends_pure (Nat.zero_le _)
  | succ fuel ih =>
    cases pending with
    | nil => exact Effect.ends_pure ⟨nofun, (List.append_nil _).symm⟩
    | cons dir pending =>
      refine ends_readDir fun result => ?_
      cases result with
      | error kind =>
        cases kind with
        | notFound => exact (ih pending).weaken fun r later h => h.skip rfl rfl
        | _ => exact Effect.ends_throw (collects_error nofun)
      | ok handle =>
        refine (readEntries_ends dir handle pending).bind ?_ ?_
        · rintro (_ | ⟨pending, found⟩) answers h
          · exact Effect.ends_pure (by rw [List.append_nil]; exact Nat.succ_le_succ h)
          · exact (ih pending).weaken fun r later hlater => (h.append hlater).skip trivial rfl
        · rintro e answers h
          obtain ⟨a, ha, hharmful⟩ := h
          exact ⟨a, List.mem_cons_of_mem _ ha, hharmful⟩

/-- What a scan starts from. -/
theorem scanStart_ends (scope : ScanScope) :
    (scanStart rules scope : Fio (Recorded σ Answer) _).Ends fun r answers =>
      Collects rules 0 [] (r.map (some ∘ Prod.snd)) answers := by
  have hempty : Collects rules 0 [] (.ok (some [])) [] := ⟨nofun, rfl⟩
  -- A scope with a path: its entry, unless that is ignored.
  have hpath : ∀ (path : RelativePath)
      (next : Option TreeEntry → Fio (Recorded σ Answer) (List (Option RelativePath) × List TreeEntry))
      (dirs : TreeEntry → List (Option RelativePath)),
      next none = pure ([], []) → (∀ entry, next (some entry) =
        if rules.isIgnored path entry.isDir then pure ([], []) else pure (dirs entry, [entry])) →
      (statPath path >>= next).Ends fun r answers =>
        Collects rules 0 [] (r.map (some ∘ Prod.snd)) answers := by
    intro path next dirs hnone hsome
    refine (statPath_ends path).bind ?_ ?_
    · rintro found _ ⟨result, rfl, hharmless, hkept⟩
      cases found with
      | none =>
        rw [hnone]
        exact Effect.ends_pure (collects_single hharmless (hkept rules))
      | some entry =>
        rw [hsome]
        have hone := collects_single hharmless (hkept rules)
        by_cases hignored : rules.isIgnored path entry.isDir = true
        · rw [if_pos hignored]
          rw [Option.filter_some, hignored] at hone
          exact Effect.ends_pure hone
        · rw [if_neg hignored]
          rw [Option.filter_some, if_pos (by simpa using hignored)] at hone
          exact Effect.ends_pure hone
    · rintro e _ ⟨result, rfl, hharmful⟩
      exact ⟨_, List.mem_cons_self, hharmful⟩
  cases scope with
  | full => exact Effect.ends_pure hempty
  | subtree path =>
    rw [scanStart]
    split_ifs
    · exact Effect.ends_pure hempty
    · exact hpath path _ (fun entry => if entry.isDir then [some path] else []) rfl fun _ => rfl
  | singleFile path =>
    rw [scanStart]
    split_ifs
    · exact Effect.ends_pure hempty
    · exact hpath path _ (fun _ => []) rfl fun _ => rfl

/-- The end of a scan and the answers to it. -/
theorem scan_ends (fuel : Nat) (scope : ScanScope) :
    (scan fuel scope : Fio (Recorded σ Answer) _).Ends fun r answers =>
      (r = .ok none → fuel ≤ answers.length) ∧
        (r ≠ .ok none → ((∃ result, r = .ok (some result)) ↔
          (∀ a ∈ answers, a.Harmless) ∧ ((keptEntries answers).map TreeEntry.path).Nodup)) := by
  -- A harmful answer is one that the scan has failed on.
  have hfail : ∀ (e : Report) (answers : List Answer), (∃ a ∈ answers, ¬a.Harmless) →
      ((Except.error e : Except Report (Option ScanResult)) = .ok none → fuel ≤ answers.length) ∧
        ((Except.error e : Except Report (Option ScanResult)) ≠ .ok none →
          ((∃ result, (Except.error e : Except Report (Option ScanResult)) = .ok (some result)) ↔
            (∀ a ∈ answers, a.Harmless) ∧ ((keptEntries answers).map TreeEntry.path).Nodup)) := by
    rintro e answers ⟨a, ha, hharmful⟩
    refine ⟨nofun, fun _ => iff_of_false nofun ?_⟩
    exact fun h => hharmful (h.1 a ha)
  refine load_ends.bind ?_ fun e answers h => hfail e answers h
  rintro rules loaded ⟨hloaded, hkept⟩
  refine (scanStart_ends scope).bind ?_ ?_
  · rintro ⟨pending, entries⟩ started hstart
    refine (walkDirs_ends pending).bind ?_ ?_
    · rintro (_ | found) walked hwalk
      · refine Effect.ends_pure ⟨fun _ => ?_, fun h => absurd rfl h⟩
        have hle : fuel ≤ walked.length := hwalk
        simp only [List.append_nil, List.length_append]
        omega
      · obtain ⟨hharmless, hfound⟩ : Collects rules 0 [] (.ok (some found)) (started ++ walked) :=
          Collects.append hstart hwalk
        have hall : ∀ a ∈ loaded ++ (started ++ (walked ++ [])), a.Harmless := by
          rw [List.append_nil]
          exact fun a ha => (List.mem_append.mp ha).elim (hloaded a) (hharmless a)
        have hentries : keptEntries (loaded ++ (started ++ (walked ++ []))) = found := by
          rw [hkept, List.append_nil, hfound, List.nil_append]
        dsimp only
        cases htree : Tree.new found with
        | ok tree =>
          refine Effect.ends_pure ⟨nofun, fun _ => iff_of_true ⟨_, rfl⟩ ⟨hall, ?_⟩⟩
          rw [hentries]
          exact Tree.exists_new_iff.mp ⟨tree, htree⟩
        | error message =>
          refine Effect.ends_throw ⟨nofun, fun _ => iff_of_false nofun ?_⟩
          rw [hentries]
          rintro ⟨-, hnodup⟩
          obtain ⟨tree, hnew⟩ := Tree.exists_new_iff.mpr hnodup
          cases htree.symm.trans hnew
    · rintro e walked ⟨a, ha, hharmful⟩
      exact hfail e _ ⟨a, by simp [ha], hharmful⟩
  · rintro e started ⟨a, ha, hharmful⟩
    exact hfail e _ ⟨a, by simp [ha], hharmful⟩

/-- What is kept of a path is no file of the daemon's own. -/
theorem isHardIgnored_of_kept {a : Answer} {entry : TreeEntry} (h : a.kept rules = some entry) :
    isHardIgnored entry.path = false := by
  unfold Answer.kept at h
  split at h
  next path observed =>
    obtain ⟨hentry, hkept⟩ := Option.filter_eq_some_iff.mp h
    have hpath : entry.path = path := by
      unfold Metadata.entry at hentry
      split at hentry <;> cases hentry <;> rfl
    rw [Bool.not_eq_true', IgnoreRules.isIgnored, Bool.or_eq_false_iff] at hkept
    rw [hpath]
    exact hkept.1
  · cases h

/-- A scan reports no file of the daemon's own. -/
theorem scan_spares_own_files (fuel : Nat) (scope : ScanScope) :
    (scan fuel scope : Fio (Recorded σ Answer) _).Ends fun r _ =>
      ∀ result, r = .ok (some result) → result.SparesOwnFiles := by
  refine load_ends.bind ?_ fun _ _ _ => nofun
  rintro rules loaded -
  refine (scanStart_ends scope).bind ?_ fun _ _ _ => nofun
  rintro ⟨pending, entries⟩ started hstart
  refine (walkDirs_ends pending).bind ?_ fun _ _ _ => nofun
  rintro (_ | found) walked hwalk
  · exact Effect.ends_pure nofun
  · obtain ⟨-, rfl⟩ : Collects rules 0 [] (.ok (some found)) (started ++ walked) :=
      Collects.append hstart hwalk
    dsimp only
    split
    next tree htree =>
      refine Effect.ends_pure fun result hresult e he => ?_
      cases hresult
      obtain ⟨a, -, hkept⟩ := List.mem_filterMap.mp ((Tree.mem_entries_of_new htree).mp he)
      exact isHardIgnored_of_kept hkept
    · exact Effect.ends_throw nofun

end Scan

/-! ## Reads of an import -/

/-- The text of an error of the operating system. -/
def IoErrorKind.shown : IoErrorKind → String
  | notFound => "No such file or directory (os error 2)"
  | permissionDenied => "Permission denied (os error 13)"
  | notADirectory => "Not a directory (os error 20)"
  | isADirectory => "Is a directory (os error 21)"
  | filesystemLoop => "Too many levels of symbolic links (os error 40)"
  | other code => s!"os error {code}"

/-- What the file client makes of the end of a guarded read (`apply_import_action`). -/
def importReadOutcome : Except Report GuardedReadResult → ImportReadOutcome
  | .ok result => .completed result
  | .error (.io kind) => .failed (decide (kind = .permissionDenied)) kind.shown
  | .error (.bail message) => .failed false message

/-- The answer is none that ends the daemon when the read of an import gets it. -/
def Answer.HarmlessToImport : Answer → Prop
  | metadata _ (.error kind) => kind = .notFound ∨ kind = .permissionDenied
  | bytes _ (.error kind) => kind = .notFound ∨ kind = .permissionDenied
  | _ => True

/-- How a part of a read ends: with a result such as this and only harmless answers, or with the
error of an answer, which was harmless if it is a denied permission. -/
def EndsImport {α : Type} (P : α → Prop) (r : Except Report α) (answers : List Answer) : Prop :=
  match r with
  | .ok a => (∀ a ∈ answers, a.HarmlessToImport) ∧ P a
  | .error e => ∃ kind, e = .io kind ∧
    (kind = .permissionDenied ↔ ∀ a ∈ answers, a.HarmlessToImport)

section EndsImport

variable {α : Type} {P : α → Prop} {Q : β → Prop} {r : Except Report α}
  {before later : List Answer}

/-- After harmless answers it is the later ones that count. -/
theorem EndsImport.after (hbefore : ∀ a ∈ before, a.HarmlessToImport)
    (h : EndsImport P r later) : EndsImport P r (before ++ later) := by
  unfold EndsImport at h ⊢
  rw [List.forall_mem_append, and_iff_right hbefore]
  exact h

theorem EndsImport.imp {P' : α → Prop} (hP : ∀ a, P a → P' a) (h : EndsImport P r later) :
    EndsImport P' r later := by
  unfold EndsImport at h ⊢
  cases r with
  | ok a => exact h.imp_right (hP a)
  | error e => exact h

omit [Syscalls σ] in
theorem endsImport_bind {m : Fio (Recorded σ Answer) α} {f : α → Fio (Recorded σ Answer) β}
    (hm : m.Ends (EndsImport P)) (hf : ∀ a, P a → (f a).Ends (EndsImport Q)) :
    (m >>= f).Ends (EndsImport Q) :=
  hm.bind (fun a _ h => (hf a h.2).weaken fun _ _ hlater => hlater.after h.1) fun _ _ h => h

omit [Syscalls σ] in
theorem endsImport_pure {a : α} (h : P a) :
    (pure a : Fio (Recorded σ Answer) α).Ends (EndsImport P) :=
  Effect.ends_pure ⟨nofun, h⟩

omit [Syscalls σ] in
/-- A call that fails with a kind other than a missing path ends the read. -/
theorem endsImport_throw {a : Answer} {kind : IoErrorKind}
    (ha : a.HarmlessToImport ↔ kind = .permissionDenied) :
    (throw (.io kind) : Fio (Recorded σ Answer) α).Ends fun r more => EndsImport P r (a :: more) := by
  refine Effect.ends_throw ⟨kind, rfl, ?_⟩
  rw [List.forall_mem_singleton, ha]

end EndsImport

/-- The stat of a path for an import. -/
theorem statPath_ends_import (path : RelativePath) :
    (statPath path : Fio (Recorded σ Answer) _).Ends (EndsImport fun _ => True) := by
  refine ends_symlinkMetadata fun result => ?_
  cases result with
  | ok observed => exact Effect.ends_pure ⟨List.forall_mem_singleton.mpr trivial, trivial⟩
  | error kind =>
    cases kind with
    | notFound => exact Effect.ends_pure ⟨List.forall_mem_singleton.mpr (.inl rfl), trivial⟩
    | _ => exact endsImport_throw (by simp [Answer.HarmlessToImport])

/-- Content that was read is what was expected, with its hash. -/
def GuardedReadResult.Meets (expected : FileFingerprint) : GuardedReadResult → Prop
  | read _ fingerprint => fingerprint.satisfies expected = true ∧
    ∃ stat content, fingerprint = .statAndContent stat content
  | _ => True

/-- The end of a guarded read and the answers to it: content comes with its own hash. -/
theorem guardedRead_ends_hashed [Xxh3] (path : RelativePath) (expected : FileFingerprint) :
    (guardedRead path expected : Fio (Recorded σ Answer) _).Ends
      (EndsImport fun r => r.Meets expected ∧ r.HashesContent) := by
  refine endsImport_bind (statPath_ends_import path) fun before _ => ?_
  split
  · exact endsImport_pure ⟨trivial, trivial⟩
  next beforeStat hstat =>
    split_ifs
    · exact endsImport_pure ⟨trivial, trivial⟩
    · refine ends_read fun result => ?_
      cases result with
      | error kind =>
        cases kind with
        | notFound =>
          have hmissing : ∀ a ∈ [Answer.bytes path (.error .notFound)], a.HarmlessToImport :=
            List.forall_mem_singleton.mpr (.inl rfl)
          have hafter : ∀ after, (pure (.changedBetweenStats before after) :
              Fio (Recorded σ Answer) GuardedReadResult).Ends
                (EndsImport fun r => r.Meets expected ∧ r.HashesContent) :=
            fun after => endsImport_pure ⟨trivial, trivial⟩
          exact (endsImport_bind (statPath_ends_import path) fun after _ => hafter after).weaken
            fun r more h => h.after hmissing
        | _ => exact endsImport_throw (by simp [Answer.HarmlessToImport])
      | ok bytes =>
        have hbytes : ∀ a ∈ [Answer.bytes path (.ok bytes)], a.HarmlessToImport :=
          List.forall_mem_singleton.mpr trivial
        refine (endsImport_bind (Q := fun r => r.Meets expected ∧ r.HashesContent)
          (statPath_ends_import path) fun after _ => ?_).weaken fun r more h => h.after hbytes
        by_cases hchanged : after ≠ before
        · rw [if_pos hchanged]
          exact endsImport_pure ⟨trivial, trivial⟩
        · rw [if_neg hchanged]
          dsimp only
          split_ifs with hsatisfies
          · exact endsImport_pure ⟨⟨hsatisfies, _, _, rfl⟩, fun stat hash h => by cases h; rfl⟩
          · exact endsImport_pure ⟨trivial, trivial⟩

/-- The end of a guarded read and the answers to it. -/
theorem guardedRead_ends [Xxh3] (path : RelativePath) (expected : FileFingerprint) :
    (guardedRead path expected : Fio (Recorded σ Answer) _).Ends
      (EndsImport (GuardedReadResult.Meets expected)) :=
  (guardedRead_ends_hashed path expected).weaken fun _ _ h => h.imp fun _ hmeets => hmeets.1

/-- The semantic actor takes what the file client makes of a read that ends like this. -/
theorem prepareImportActionStage_of_endsImport {path : RelativePath} {expected : FileFingerprint}
    {epochKind : ImportEpochKind} {actionId : ImportActionId}
    {r : Except Report GuardedReadResult} {answers : List Answer}
    (h : EndsImport (GuardedReadResult.Meets expected) r answers) :
    (∃ decision, prepareImportActionStage ⟨epochKind, .read path expected⟩
      (.read actionId (importReadOutcome r)) = .ok decision) ↔
        ∀ a ∈ answers, a.HarmlessToImport := by
  cases r with
  | ok result =>
    refine iff_of_true ?_ h.1
    have hmeets := h.2
    cases result with
    | read bytes fingerprint =>
      obtain ⟨hsatisfies, stat, content, rfl⟩ := hmeets
      unfold prepareImportActionStage importReadOutcome
      dsimp only
      rw [hsatisfies, Bool.not_true, if_neg Bool.false_ne_true]
      split_ifs
      · exact ⟨_, rfl⟩
      · exact ⟨_, rfl⟩
      · exact ⟨_, rfl⟩
    | changedBetweenStats before after => exact ⟨_, rfl⟩
    | conflictBeforeRead observed => exact ⟨_, rfl⟩
  | error e =>
    obtain ⟨kind, rfl, hkind⟩ := h
    rw [← hkind]
    unfold prepareImportActionStage importReadOutcome
    by_cases hdenied : kind = .permissionDenied
    · exact iff_of_true ⟨_, if_pos (decide_eq_true hdenied)⟩ hdenied
    · refine iff_of_false ?_ hdenied
      rintro ⟨decision, hdecision⟩
      dsimp only at hdecision
      rw [decide_eq_false hdenied] at hdecision
      cases hdecision

/-! ## Every world -/

open Snapshots NoPatterns

/-- A sync root with a file whose name is no text, and a file in the place of a directory. -/
def rawDisk : Disk where
  entries := ⟨[⟨syncRoot, .directory true true⟩,
    ⟨syncRoot ++ [.raw [255]], .file (fileStat 8 0 0) [] true⟩,
    ⟨syncRoot ++ [digitName 1], .file (fileStat 7 0 0) [] true⟩], by decide⟩
  root := syncRoot

end Opbox
