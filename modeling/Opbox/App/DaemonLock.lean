import Mathlib.Data.List.GetD
import Opbox.Foundation.Machine

/-!
# The daemon lock

`DaemonLock` (`app/workspace.rs`): the lock of a sync root is a file that a daemon creates and writes
its process id to.  A daemon that finds the file removes it if the process in it is not alive, and
tries again.  Any number of processes acquire and drop the lock and die; a step is one operation on
the file.
-/

namespace Opbox

/-- Where a process is in `acquire` and `drop`.  Before each phase's operation. -/
inductive LockPhase where
  /-- Outside: `acquire` was not called or failed, or the lock was dropped. -/
  | outside
  /-- `acquire`: `create_new`. -/
  | creating
  /-- `acquire`: write the process id to the new file. -/
  | writing (file : Nat)
  /-- `read_pid_file` of `acquire`: open the file there is. -/
  | opening
  /-- `read_pid_file` of `acquire`: read it. -/
  | reading (file : Nat)
  /-- `process_is_alive`. -/
  | checking (file pid : Nat)
  /-- `acquire`: remove the file at the path; this file was found to be of a dead process. -/
  | removing (stale : Option Nat)
  /-- The lock is held. -/
  | holding
  /-- `read_pid_file` of `drop`: open the file. -/
  | dropOpening
  /-- `read_pid_file` of `drop`: read it. -/
  | dropReading (file : Nat)
  /-- `drop`: remove the file. -/
  | dropRemoving
  deriving DecidableEq, Repr

/-- Past a successful `acquire`, up to the end of `drop`. -/
def LockPhase.Holds : LockPhase → Prop
  | holding | dropOpening | dropReading _ | dropRemoving => True
  | _ => False

/-- From the creation of the lock file to the end of `drop`. -/
def LockPhase.Engaged : LockPhase → Prop
  | writing _ => True
  | phase => phase.Holds

instance (phase : LockPhase) : Decidable phase.Engaged := by
  cases phase <;> unfold LockPhase.Engaged <;> unfold LockPhase.Holds <;> infer_instance

/-- The next operation is the `remove_file` of `acquire`. -/
def LockPhase.Removes : LockPhase → Prop
  | removing _ => True
  | _ => False

instance (phase : LockPhase) : Decidable phase.Removes := by
  cases phase <;> unfold LockPhase.Removes <;> infer_instance

theorem LockPhase.Holds.engaged {phase : LockPhase} (h : phase.Holds) : phase.Engaged := by
  cases phase with
  | writing file => exact trivial
  | _ => exact h

/-- A process. -/
structure DaemonProcess where
  /-- Its id. -/
  pid : Nat
  /-- It has not died. -/
  alive : Bool
  /-- Where it is. -/
  phase : LockPhase
  deriving DecidableEq, Repr

/-- A lock file. -/
structure LockFile where
  /-- The process that created it, which no operation reads. -/
  creator : Nat
  /-- The process id in it. -/
  content : Option Nat
  deriving DecidableEq, Repr

/-- The processes, the lock files that were ever created, and the one at the path. -/
structure LockWorld where
  /-- The processes, in the order in which they started. -/
  processes : List DaemonProcess
  /-- The files: one that was removed from the path can still be open. -/
  files : List LockFile
  /-- The file at `daemon_lock_path`. -/
  lockFile : Option Nat
  deriving DecidableEq, Repr

namespace LockWorld

/-- A live process has this id. -/
def isAlive (w : LockWorld) (pid : Nat) : Bool := w.processes.any fun p => p.alive && p.pid == pid

/-- The process id in a file. -/
def content (w : LockWorld) (file : Nat) : Option Nat := w.files[file]?.bind LockFile.content

/-- The next operation of a process: its next phase, the files and the file at the path.  An operation
that does not succeed does nothing. -/
def fileOp (w : LockWorld) (who : Nat) (p : DaemonProcess) (succeeds : Bool) :
    Option (LockPhase × List LockFile × Option Nat) :=
  match p.phase with
  | .outside => none
  | .creating =>
    if succeeds then
      match w.lockFile with
      | none => some (.writing w.files.length, w.files ++ [⟨who, none⟩], some w.files.length)
      -- `AlreadyExists`.
      | some _ => some (.opening, w.files, w.lockFile)
    else some (.outside, w.files, w.lockFile)
  | .writing file =>
    if succeeds then
      some (.holding, w.files.modify file fun f => { f with content := some p.pid }, w.lockFile)
    else some (.outside, w.files, w.lockFile)
  | .opening =>
    if succeeds then
      match w.lockFile with
      | none => some (.removing none, w.files, w.lockFile)
      | some file => some (.reading file, w.files, w.lockFile)
    else some (.outside, w.files, w.lockFile)
  | .reading file =>
    if succeeds then
      match w.content file with
      | none => some (.removing none, w.files, w.lockFile)
      | some pid => some (.checking file pid, w.files, w.lockFile)
    else some (.outside, w.files, w.lockFile)
  | .checking file pid =>
    -- The `kill` that cannot be run counts as a dead process.
    if succeeds then
      if w.isAlive pid then some (.outside, w.files, w.lockFile)
      else some (.removing (some file), w.files, w.lockFile)
    else some (.removing none, w.files, w.lockFile)
  | .removing _ =>
    if succeeds && w.lockFile.isSome then some (.creating, w.files, none)
    else some (.outside, w.files, w.lockFile)
  | .holding => none
  | .dropOpening =>
    match w.lockFile with
    | none => some (.outside, w.files, w.lockFile)
    | some file =>
      if succeeds then some (.dropReading file, w.files, w.lockFile)
      else some (.outside, w.files, w.lockFile)
  | .dropReading file =>
    if succeeds && w.content file == some p.pid then some (.dropRemoving, w.files, w.lockFile)
    else some (.outside, w.files, w.lockFile)
  | .dropRemoving => some (.outside, w.files, if succeeds then none else w.lockFile)

/-- Put a process in a phase. -/
def setPhase (w : LockWorld) (who : Nat) (phase : LockPhase) : LockWorld :=
  { w with processes := w.processes.modify who fun p => { p with phase := phase } }

end LockWorld

/-- What happens. -/
inductive LockAction where
  /-- A process starts. -/
  | start (pid : Nat)
  /-- A process dies without dropping anything. -/
  | die (who : Nat)
  /-- A process calls `acquire`. -/
  | acquire (who : Nat)
  /-- A process that holds the lock drops it. -/
  | drop (who : Nat)
  /-- The next operation of a process on the file. -/
  | operate (who : Nat) (succeeds : Bool)
  deriving DecidableEq, Repr

namespace LockWorld

/-- The live process at this place. -/
def live? (w : LockWorld) (who : Nat) : Option DaemonProcess :=
  w.processes[who]?.filter DaemonProcess.alive

/-- One step.  A process id is given again only after the death of its process. -/
def step (w : LockWorld) : LockAction → Option LockWorld
  | .start pid =>
    if w.isAlive pid then none
    else some { w with processes := w.processes ++ [⟨pid, true, .outside⟩] }
  | .die who =>
    (w.live? who).map fun _ =>
      { w with processes := w.processes.modify who fun p => { p with alive := false } }
  | .acquire who =>
    (w.live? who).bind fun p => if p.phase = .outside then some (w.setPhase who .creating) else none
  | .drop who =>
    (w.live? who).bind fun p =>
      if p.phase = .holding then some (w.setPhase who .dropOpening) else none
  | .operate who succeeds =>
    (w.live? who).bind fun p => (w.fileOp who p succeeds).map fun next =>
      { w.setPhase who next.1 with files := next.2.1, lockFile := next.2.2 }

/-- No process has started and there is no lock file. -/
def initial : LockWorld := ⟨[], [], none⟩

/-- The runs of the lock. -/
def machine : Machine LockWorld LockAction := ⟨(· = initial), step⟩

/-- The live process is past a successful `acquire`. -/
def Holds (w : LockWorld) (who : Nat) : Prop := ∃ p ∈ w.live? who, p.phase.Holds

/-- The live process has created a lock file and is not at the end of its `drop`. -/
def Engaged (w : LockWorld) (who : Nat) : Prop := ∃ p ∈ w.live? who, p.phase.Engaged

instance (w : LockWorld) (who : Nat) : Decidable (w.Engaged who) :=
  inferInstanceAs (Decidable (∃ p ∈ w.live? who, p.phase.Engaged))

/-- The process that created a file. -/
def creator? (w : LockWorld) (file : Nat) : Option Nat := w.files[file]?.map LockFile.creator

/-- The step is no `remove_file` of an `acquire` that hits the lock file of an engaged process. -/
def Spares (w : LockWorld) : LockAction → Prop
  | .operate who true => ∀ p ∈ w.live? who, p.phase.Removes →
    ∀ file ∈ w.lockFile, ∀ owner ∈ w.creator? file, ¬w.Engaged owner
  | _ => True

instance (w : LockWorld) (a : LockAction) : Decidable (w.Spares a) :=
  match a with
  | .operate who true => inferInstanceAs (Decidable (∀ p ∈ w.live? who, p.phase.Removes →
    ∀ file ∈ w.lockFile, ∀ owner ∈ w.creator? file, ¬w.Engaged owner))
  | .operate _ false => isTrue trivial
  | .start _ => isTrue trivial
  | .die _ => isTrue trivial
  | .acquire _ => isTrue trivial
  | .drop _ => isTrue trivial

/-! ## What a step does to the processes -/

variable {w w' : LockWorld} {who i : Nat} {p : DaemonProcess} {phase : LockPhase}

theorem live?_eq_some_iff : w.live? i = some p ↔ w.processes[i]? = some p ∧ p.alive = true := by
  rw [live?, Option.filter_eq_some_iff]

/-- The live processes after one was put in a phase. -/
theorem live?_setPhase (w : LockWorld) (who i : Nat) (phase : LockPhase) (files : List LockFile)
    (lockFile : Option Nat) :
    ({ w.setPhase who phase with files := files, lockFile := lockFile } : LockWorld).live? i =
      if who = i then (w.live? i).map fun p => { p with phase := phase } else w.live? i := by
  simp only [live?, setPhase, List.getElem?_modify]
  cases w.processes[i]? with
  | none => simp
  | some p =>
    split_ifs
    · cases halive : p.alive with
      | true => simp [Option.filter_some, halive]
      | false => simp [Option.filter_some, halive]
    · rfl

/-- The engaged processes after one was put in a phase. -/
theorem engaged_setPhase {files : List LockFile} {lockFile : Option Nat}
    (h : ({ w.setPhase who phase with files := files, lockFile := lockFile } : LockWorld).Engaged i) :
    (i = who ∧ phase.Engaged) ∨ (i ≠ who ∧ w.Engaged i) := by
  obtain ⟨p, hp, hphase⟩ := h
  rw [live?_setPhase] at hp
  split_ifs at hp with hi
  · obtain ⟨q, hq, rfl⟩ := Option.map_eq_some_iff.mp hp
    exact .inl ⟨hi.symm, hphase⟩
  · exact .inr ⟨Ne.symm hi, p, hp, hphase⟩

/-- What a step does to the engaged processes and the lock file. -/
inductive Moves (w : LockWorld) (a : LockAction) (w' : LockWorld) : Prop
  /-- The file stays at the path, and no process becomes engaged. -/
  | quiet (hengaged : ∀ i, w'.Engaged i → w.Engaged i) (hpath : w'.lockFile = w.lockFile)
      (hfiles : ∀ file, w'.creator? file = w.creator? file)
  /-- A process creates the file. -/
  | create (who : Nat) (hnone : w.lockFile = none)
      (hpath : ∃ file, w'.lockFile = some file ∧ w'.creator? file = some who)
      (hengaged : ∀ i, w'.Engaged i → i = who ∨ w.Engaged i)
  /-- A process that acquires the lock removes the file. -/
  | takeOver (who : Nat) (p : DaemonProcess) (ha : a = .operate who true)
      (hp : w.live? who = some p) (hphase : p.phase.Removes)
      (hengaged : ∀ i, w'.Engaged i → w.Engaged i)
  /-- A process that drops the lock removes the file. -/
  | drop (who : Nat) (hwho : w.Engaged who)
      (hengaged : ∀ i, w'.Engaged i → i ≠ who ∧ w.Engaged i)

/-- An operation that leaves the file at the path alone. -/
theorem moves_quiet_of_fileOp {a : LockAction} {files : List LockFile}
    (hp : w.live? who = some p) (hengaged : phase.Engaged → p.phase.Engaged)
    (hfiles : files.map LockFile.creator = w.files.map LockFile.creator) :
    w.Moves a { w.setPhase who phase with files := files, lockFile := w.lockFile } := by
  refine .quiet (fun i hi => ?_) rfl fun file => ?_
  · rcases engaged_setPhase hi with ⟨rfl, hphase⟩ | ⟨-, hi⟩
    · exact ⟨p, hp, hengaged hphase⟩
    · exact hi
  · have hget := congrArg (fun creators : List Nat => creators[file]?) hfiles
    simpa only [creator?, List.getElem?_map] using hget

theorem map_creator_write (files : List LockFile) (file pid : Nat) :
    (files.modify file fun f => { f with content := some pid }).map LockFile.creator =
      files.map LockFile.creator := by
  refine List.ext_getElem? fun i => ?_
  rw [List.getElem?_map, List.getElem?_map, List.getElem?_modify]
  cases files[i]? with
  | none => rfl
  | some f => dsimp only [Option.map_some]; split_ifs <;> rfl

/-- What the operations do. -/
theorem moves_of_fileOp {succeeds : Bool} {next : LockPhase × List LockFile × Option Nat}
    (hp : w.live? who = some p) (h : w.fileOp who p succeeds = some next) :
    w.Moves (.operate who succeeds)
      { w.setPhase who next.1 with files := next.2.1, lockFile := next.2.2 } := by
  -- An operation that changes nothing but the phase of the process.
  have hquiet : ∀ phase : LockPhase, (phase.Engaged → p.phase.Engaged) →
      some (phase, w.files, w.lockFile) = some next → w.Moves (.operate who succeeds)
        { w.setPhase who next.1 with files := next.2.1, lockFile := next.2.2 } := by
    rintro phase hengaged hnext
    cases hnext
    exact moves_quiet_of_fileOp hp hengaged rfl
  unfold fileOp at h
  cases hphase : p.phase with
  | outside => rw [hphase] at h; cases h
  | creating =>
    rw [hphase] at h
    dsimp only at h
    split_ifs at h
    · split at h
      next hlock =>
        cases h
        refine .create who hlock ⟨_, rfl, ?_⟩ fun i hi => ?_
        · simp [creator?]
        · exact (engaged_setPhase hi).imp And.left And.right
      · exact hquiet _ False.elim h
    · exact hquiet _ False.elim h
  | writing file =>
    rw [hphase] at h
    dsimp only at h
    split_ifs at h
    · cases h
      exact moves_quiet_of_fileOp hp (fun _ => by rw [hphase]; trivial) (map_creator_write _ _ _)
    · exact hquiet _ False.elim h
  | opening =>
    rw [hphase] at h
    dsimp only at h
    split_ifs at h
    · split at h
      · exact hquiet _ False.elim h
      · exact hquiet _ False.elim h
    · exact hquiet _ False.elim h
  | reading file =>
    rw [hphase] at h
    dsimp only at h
    split_ifs at h
    · split at h
      · exact hquiet _ False.elim h
      · exact hquiet _ False.elim h
    · exact hquiet _ False.elim h
  | checking file pid =>
    rw [hphase] at h
    dsimp only at h
    split_ifs at h
    · exact hquiet _ False.elim h
    · exact hquiet _ False.elim h
    · exact hquiet _ False.elim h
  | removing stale =>
    rw [hphase] at h
    dsimp only at h
    split_ifs at h with hremoved
    · cases h
      rw [Bool.and_eq_true] at hremoved
      refine .takeOver who p (by rw [hremoved.1]) hp (by rw [hphase]; trivial) fun i hi => ?_
      rcases engaged_setPhase hi with ⟨-, hcreating⟩ | ⟨-, hi⟩
      · exact hcreating.elim
      · exact hi
    · exact hquiet _ False.elim h
  | holding => rw [hphase] at h; cases h
  | dropOpening =>
    rw [hphase] at h
    dsimp only at h
    have hengaged : ∀ phase : LockPhase, phase.Engaged → p.phase.Engaged :=
      fun _ _ => by rw [hphase]; trivial
    split at h
    · exact hquiet _ (hengaged _) h
    · split_ifs at h
      · exact hquiet _ (hengaged _) h
      · exact hquiet _ (hengaged _) h
  | dropReading file =>
    rw [hphase] at h
    dsimp only at h
    have hengaged : ∀ phase : LockPhase, phase.Engaged → p.phase.Engaged :=
      fun _ _ => by rw [hphase]; trivial
    split_ifs at h
    · exact hquiet _ (hengaged _) h
    · exact hquiet _ (hengaged _) h
  | dropRemoving =>
    rw [hphase] at h
    cases h
    refine .drop who ⟨p, hp, by rw [hphase]; trivial⟩ fun i hi => ?_
    rcases engaged_setPhase hi with ⟨-, houtside⟩ | ⟨hne, hi⟩
    · exact houtside.elim
    · exact ⟨hne, hi⟩

/-- What a step does. -/
theorem moves_of_step {a : LockAction} (h : w.step a = some w') : w.Moves a w' := by
  cases a with
  | start pid =>
    rw [step] at h
    split_ifs at h
    cases h
    refine .quiet (fun i hi => ?_) rfl fun _ => rfl
    obtain ⟨p, hp, hphase⟩ := hi
    rw [Option.mem_def, live?_eq_some_iff] at hp
    rw [List.getElem?_append] at hp
    split_ifs at hp
    · exact ⟨p, live?_eq_some_iff.mpr hp, hphase⟩
    · have hnew := List.mem_of_getElem? hp.1
      rw [List.mem_singleton] at hnew
      rw [hnew] at hphase
      exact hphase.elim
  | die who =>
    obtain ⟨-, -, rfl⟩ := Option.map_eq_some_iff.mp h
    refine .quiet (fun i hi => ?_) rfl fun _ => rfl
    obtain ⟨p, hp, hphase⟩ := hi
    rw [Option.mem_def, live?_eq_some_iff, List.getElem?_modify] at hp
    obtain ⟨q, hq, hdead⟩ := Option.map_eq_some_iff.mp hp.1
    split_ifs at hdead
    · rw [← hdead] at hp
      cases hp.2
    · exact ⟨p, live?_eq_some_iff.mpr ⟨hdead ▸ hq, hp.2⟩, hphase⟩
  | acquire who =>
    obtain ⟨p, hp, hstep⟩ := Option.bind_eq_some_iff.mp h
    split_ifs at hstep with hphase
    cases hstep
    exact moves_quiet_of_fileOp hp False.elim rfl
  | drop who =>
    obtain ⟨p, hp, hstep⟩ := Option.bind_eq_some_iff.mp h
    split_ifs at hstep with hphase
    cases hstep
    exact moves_quiet_of_fileOp hp (fun _ => by rw [hphase]; trivial) rfl
  | operate who succeeds =>
    obtain ⟨p, hp, hstep⟩ := Option.bind_eq_some_iff.mp h
    obtain ⟨next, hnext, rfl⟩ := Option.map_eq_some_iff.mp hstep
    exact moves_of_fileOp hp hnext

/-! ## Exclusion -/

/-- The file at the path is that of the engaged process. -/
def Guarded (w : LockWorld) : Prop :=
  ∀ who, w.Engaged who → ∃ file, w.lockFile = some file ∧ w.creator? file = some who

/-- Two engaged processes are one. -/
theorem Guarded.eq {j : Nat} (h : w.Guarded) (hi : w.Engaged i) (hj : w.Engaged j) : i = j := by
  obtain ⟨file, hpath, hcreator⟩ := h i hi
  obtain ⟨file', hpath', hcreator'⟩ := h j hj
  cases hpath.symm.trans hpath'
  exact Option.some.inj (hcreator.symm.trans hcreator')

theorem Guarded.step {a : LockAction} (h : w.Guarded) (ha : w.Spares a)
    (hs : w.step a = some w') : w'.Guarded := by
  cases moves_of_step hs with
  | quiet hengaged hpath hfiles =>
    intro i hi
    obtain ⟨file, hlock, hcreator⟩ := h i (hengaged i hi)
    exact ⟨file, hpath.trans hlock, (hfiles file).trans hcreator⟩
  | create who hnone hpath hengaged =>
    intro i hi
    rcases hengaged i hi with rfl | hold
    · exact hpath
    · -- Without a file at the path nobody was engaged.
      obtain ⟨file, hlock, -⟩ := h i hold
      cases hnone.symm.trans hlock
  | takeOver who p haction hp hphase hengaged =>
    intro i hi
    obtain ⟨file, hlock, hcreator⟩ := h i (hengaged i hi)
    subst haction
    exact absurd (hengaged i hi) (ha p hp hphase file hlock i hcreator)
  | drop who hwho hengaged =>
    intro i hi
    obtain ⟨hne, hold⟩ := hengaged i hi
    exact absurd (h.eq hold hwho) hne

/-- In every run in which no `acquire` removes the lock file of an engaged process, at most one live
process at a time is past a successful `acquire`. -/
theorem lock_exclusive (h : machine.Reachable Spares w) {j : Nat} (hi : w.Holds i)
    (hj : w.Holds j) : i = j := by
  have hguarded : w.Guarded := by
    refine Machine.Reachable.invariant (I := Guarded) ?_ ?_ h
    · rintro s rfl who ⟨p, hp, -⟩
      cases hp
    · exact fun s a s' _ hs ha hstep => hs.step ha hstep
  obtain ⟨p, hp, hphase⟩ := hi
  obtain ⟨q, hq, hphase'⟩ := hj
  exact hguarded.eq ⟨p, hp, hphase.engaged⟩ ⟨q, hq, hphase'.engaged⟩

/-- A process acquires the lock and dies, and another one takes the lock over. -/
def takeOverRun : List LockAction :=
  [.start 1, .acquire 0, .operate 0 true, .operate 0 true, .die 0, .start 2, .acquire 1,
    .operate 1 true, .operate 1 true, .operate 1 true, .operate 1 true, .operate 1 true,
    .operate 1 true, .operate 1 true]

/-- `lock_exclusive` for this run: nobody else holds the lock. -/
theorem lock_exclusive_takeOverRun :
    ∃ w, machine.Reachable Spares w ∧ w.Holds 1 ∧ ∀ i, w.Holds i → i = 1 := by
  have hrun : (machine.exec initial takeOverRun).any (fun w =>
      decide (w.live? 1 = some ⟨2, true, .holding⟩)) = true := by decide +kernel
  have hspares : machine.Meets Spares initial takeOverRun := by decide +kernel
  obtain ⟨w, hw, hholds⟩ := Machine.exists_exec hrun
  have hreach : machine.Reachable Spares w := Machine.Reachable.exec (.init rfl) hspares hw
  have hone : w.Holds 1 := ⟨_, of_decide_eq_true hholds, trivial⟩
  exact ⟨w, hreach, hone, fun i hi => lock_exclusive hreach hi hone⟩

/-! ## Stale files -/

/-- The id of a process, dead or alive. -/
def pid? (w : LockWorld) (who : Nat) : Option Nat := w.processes[who]?.map DaemonProcess.pid

/-- The process has died. -/
def Dead (w : LockWorld) (who : Nat) : Prop := w.pid? who ≠ none ∧ w.live? who = none

/-- What a process in this phase knows. -/
def Knows (w : LockWorld) (who : Nat) : LockPhase → Prop
  | .writing file => w.creator? file = some who
  | .checking file pid => w.content file = some pid
  | .removing (some file) => ∃ owner, w.creator? file = some owner ∧ w.Dead owner
  | _ => True

/-- Processes know what they act on, and files hold the ids of their creators. -/
structure Sound (w : LockWorld) : Prop where
  /-- What the processes know. -/
  knows : ∀ who p, w.live? who = some p → w.Knows who p.phase
  /-- Whose id a file holds. -/
  content : ∀ file pid, w.content file = some pid →
    ∃ owner, w.creator? file = some owner ∧ w.pid? owner = some pid

/-- What stays true of files and dead processes. -/
structure Extends (w w' : LockWorld) : Prop where
  creator : ∀ file owner, w.creator? file = some owner → w'.creator? file = some owner
  content : ∀ file pid, w.content file = some pid → w'.content file = some pid
  pid : ∀ who pid, w.pid? who = some pid → w'.pid? who = some pid
  dead : ∀ who, w.Dead who → w'.Dead who

theorem Knows.extends {phase : LockPhase} (h : w.Knows who phase) (hw : w.Extends w') :
    w'.Knows who phase := by
  cases phase with
  | writing file => exact hw.creator _ _ h
  | checking file pid => exact hw.content _ _ h
  | removing stale =>
    cases stale with
    | none => exact trivial
    | some file =>
      obtain ⟨owner, hcreator, hdead⟩ := h
      exact ⟨owner, hw.creator _ _ hcreator, hw.dead _ hdead⟩
  | _ => exact trivial

theorem pid?_setPhase (w : LockWorld) (who i : Nat) (phase : LockPhase) (files : List LockFile)
    (lockFile : Option Nat) :
    ({ w.setPhase who phase with files := files, lockFile := lockFile } : LockWorld).pid? i =
      w.pid? i := by
  simp only [pid?, setPhase, List.getElem?_modify]
  cases w.processes[i]? with
  | none => rfl
  | some p => dsimp only [Option.map_some]; split_ifs <;> rfl

/-- The files of a world in which a process has gone to another phase. -/
theorem extends_setPhase {files : List LockFile} {lockFile : Option Nat}
    (hcreator : ∀ file owner, w.creator? file = some owner →
      ({ w with files := files } : LockWorld).creator? file = some owner)
    (hcontent : ∀ file pid, w.content file = some pid →
      ({ w with files := files } : LockWorld).content file = some pid) :
    w.Extends { w.setPhase who phase with files := files, lockFile := lockFile } where
  creator := hcreator
  content := hcontent
  pid i pid h := by rw [pid?_setPhase, h]
  dead i h := by
    refine ⟨?_, ?_⟩
    · rw [pid?_setPhase]
      exact h.1
    · rw [live?_setPhase, h.2]
      split_ifs <;> rfl

/-- Processes still know what they act on if each is in the phase it was in or knows that of its new
one. -/
theorem Sound.next (h : w.Sound) (hw : w.Extends w')
    (hcontent : ∀ file pid, w'.content file = some pid →
      ∃ owner, w'.creator? file = some owner ∧ w'.pid? owner = some pid)
    (hlive : ∀ i q, w'.live? i = some q →
      (∃ p, w.live? i = some p ∧ p.phase = q.phase) ∨ w'.Knows i q.phase) : w'.Sound where
  content := hcontent
  knows i q hq := by
    rcases hlive i q hq with ⟨p, hp, hphase⟩ | hknows
    · exact hphase ▸ (h.knows i p hp).extends hw
    · exact hknows

/-- A process goes to another phase, and the files have grown. -/
theorem Sound.setPhase {files : List LockFile} {lockFile : Option Nat} (h : w.Sound)
    (hcreator : ∀ file owner, w.creator? file = some owner →
      ({ w with files := files } : LockWorld).creator? file = some owner)
    (hgrown : ∀ file pid, w.content file = some pid →
      ({ w with files := files } : LockWorld).content file = some pid)
    (hcontent : ∀ file pid, ({ w with files := files } : LockWorld).content file = some pid →
      w.content file = some pid ∨ ∃ owner,
        ({ w with files := files } : LockWorld).creator? file = some owner ∧
          w.pid? owner = some pid)
    (hphase : ({ w.setPhase who phase with files := files, lockFile := lockFile } :
      LockWorld).Knows who phase) :
    ({ w.setPhase who phase with files := files, lockFile := lockFile } : LockWorld).Sound := by
  have hw : w.Extends { w.setPhase who phase with files := files, lockFile := lockFile } :=
    extends_setPhase hcreator hgrown
  refine h.next hw (fun file pid hpid => ?_) fun i q hq => ?_
  · rcases hcontent file pid hpid with hold | ⟨owner, howner, hid⟩
    · obtain ⟨owner, howner, hid⟩ := h.content file pid hold
      exact ⟨owner, hw.creator _ _ howner, hw.pid _ _ hid⟩
    · exact ⟨owner, howner, hw.pid _ _ hid⟩
  · rw [live?_setPhase] at hq
    split_ifs at hq with hi
    · obtain ⟨p, -, rfl⟩ := Option.map_eq_some_iff.mp hq
      exact .inr (hi ▸ hphase)
    · exact .inl ⟨q, hq, rfl⟩

/-- A process goes to another phase, and the files stay. -/
theorem Sound.setPhase_files {lockFile : Option Nat} (h : w.Sound) (hphase : w.Knows who phase) :
    ({ w.setPhase who phase with lockFile := lockFile } : LockWorld).Sound := by
  refine Sound.setPhase h (fun _ _ => id) (fun _ _ => id) (fun _ _ => .inl) ?_
  exact hphase.extends (extends_setPhase (fun _ _ => id) fun _ _ => id)

/-- A live process whose id is not found to be alive is dead. -/
theorem dead_of_isAlive {pid : Nat} (hpid : w.pid? who = some pid) (h : w.isAlive pid = false) :
    w.Dead who := by
  refine ⟨by rw [hpid]; exact Option.some_ne_none _, ?_⟩
  obtain ⟨p, hp, rfl⟩ := Option.map_eq_some_iff.mp hpid
  rw [live?, hp, Option.filter_some, if_neg]
  intro halive
  have hany := List.any_eq_false.mp h p (List.mem_of_getElem? hp)
  rw [halive, beq_self_eq_true] at hany
  exact hany rfl

/-- Writing the process id to the new file. -/
theorem Sound.write {file : Nat} (h : w.Sound) (hp : w.live? who = some p)
    (hfile : w.creator? file = some who) :
    ({ w.setPhase who .holding with
        files := w.files.modify file fun f => { f with content := some p.pid } } :
      LockWorld).Sound := by
  have hid : w.pid? who = some p.pid :=
    Option.map_eq_some_iff.mpr ⟨p, (live?_eq_some_iff.mp hp).1, rfl⟩
  have hcreator : ∀ i, ({ w with
      files := w.files.modify file fun f => { f with content := some p.pid } } :
        LockWorld).creator? i = w.creator? i := by
    intro i
    have hget := congrArg (fun creators : List Nat => creators[i]?)
      (map_creator_write w.files file p.pid)
    simpa only [creator?, List.getElem?_map] using hget
  refine h.setPhase (fun i owner howner => (hcreator i).trans howner) (fun i pid hpid => ?_)
    (fun i pid hpid => ?_) trivial
  · obtain ⟨f, hf, hcontent⟩ := Option.bind_eq_some_iff.mp hpid
    rw [LockWorld.content, List.getElem?_modify, hf]
    dsimp only [Option.map_eq_map, Option.map_some, Option.bind_some]
    split_ifs with hi
    · -- The file held the id of its creator, which is the writer.
      obtain ⟨owner, howner, hsame⟩ := h.content i pid hpid
      rw [← hi, hfile] at howner
      cases howner
      exact hid.symm.trans hsame
    · exact hcontent
  · rw [hcreator i]
    obtain ⟨f', hf', hcontent⟩ := Option.bind_eq_some_iff.mp hpid
    rw [List.getElem?_modify] at hf'
    obtain ⟨f, hf, rfl⟩ := Option.map_eq_some_iff.mp hf'
    split_ifs at hcontent with hi
    · cases hcontent
      exact .inr ⟨who, hi ▸ hfile, hid⟩
    · exact .inl (Option.bind_eq_some_iff.mpr ⟨f, hf, hcontent⟩)

/-- The operations keep the processes' knowledge true. -/
theorem Sound.fileOp {succeeds : Bool} {next : LockPhase × List LockFile × Option Nat}
    (h : w.Sound) (hp : w.live? who = some p) (hop : w.fileOp who p succeeds = some next) :
    ({ w.setPhase who next.1 with files := next.2.1, lockFile := next.2.2 } : LockWorld).Sound := by
  have hknows := h.knows who p hp
  -- An operation after which the process has nothing new to know.
  have hquiet : ∀ phase : LockPhase, some (phase, w.files, w.lockFile) = some next →
      w.Knows who phase →
      ({ w.setPhase who next.1 with files := next.2.1, lockFile := next.2.2 } : LockWorld).Sound := by
    rintro phase hnext hphase
    cases hnext
    exact h.setPhase_files hphase
  unfold LockWorld.fileOp at hop
  cases hphase : p.phase with
  | outside => rw [hphase] at hop; cases hop
  | creating =>
    rw [hphase] at hop
    dsimp only at hop
    split_ifs at hop
    · split at hop
      · cases hop
        have hold : ∀ (file : Nat) (f : LockFile), w.files[file]? = some f →
            (w.files ++ [⟨who, none⟩])[file]? = some f :=
          fun file f hf => by rw [List.getElem?_append_left (List.getElem?_eq_some_iff.mp hf).1, hf]
        refine h.setPhase (fun file owner howner => ?_) (fun file pid hpid => ?_)
          (fun file pid hpid => .inl ?_) ?_
        · obtain ⟨f, hf, rfl⟩ := Option.map_eq_some_iff.mp howner
          exact Option.map_eq_some_iff.mpr ⟨f, hold _ _ hf, rfl⟩
        · obtain ⟨f, hf, hcontent⟩ := Option.bind_eq_some_iff.mp hpid
          exact Option.bind_eq_some_iff.mpr ⟨f, hold _ _ hf, hcontent⟩
        · obtain ⟨f, hf, hcontent⟩ := Option.bind_eq_some_iff.mp hpid
          replace hf : (w.files ++ [⟨who, none⟩])[file]? = some f := hf
          rw [List.getElem?_append] at hf
          split_ifs at hf
          · exact Option.bind_eq_some_iff.mpr ⟨f, hf, hcontent⟩
          · have hnew := List.mem_singleton.mp (List.mem_of_getElem? hf)
            rw [hnew] at hcontent
            cases hcontent
        · simp [Knows, creator?]
      · exact hquiet _ hop trivial
    · exact hquiet _ hop trivial
  | writing file =>
    rw [hphase] at hop hknows
    dsimp only at hop
    split_ifs at hop
    · cases hop
      exact h.write hp hknows
    · exact hquiet _ hop trivial
  | opening =>
    rw [hphase] at hop
    dsimp only at hop
    split_ifs at hop
    · split at hop
      · exact hquiet _ hop trivial
      · exact hquiet _ hop trivial
    · exact hquiet _ hop trivial
  | reading file =>
    rw [hphase] at hop
    dsimp only at hop
    split_ifs at hop
    · split at hop
      · exact hquiet _ hop trivial
      next pid hpid => exact hquiet _ hop hpid
    · exact hquiet _ hop trivial
  | checking file pid =>
    rw [hphase] at hop hknows
    dsimp only at hop
    split_ifs at hop with _ halive
    · exact hquiet _ hop trivial
    · obtain ⟨owner, howner, hid⟩ := h.content file pid hknows
      exact hquiet _ hop ⟨owner, howner, dead_of_isAlive hid (Bool.eq_false_iff.mpr halive)⟩
    · exact hquiet _ hop trivial
  | removing stale =>
    rw [hphase] at hop
    dsimp only at hop
    split_ifs at hop
    · cases hop
      exact h.setPhase_files trivial
    · exact hquiet _ hop trivial
  | holding => rw [hphase] at hop; cases hop
  | dropOpening =>
    rw [hphase] at hop
    dsimp only at hop
    split at hop
    · exact hquiet _ hop trivial
    · split_ifs at hop
      · exact hquiet _ hop trivial
      · exact hquiet _ hop trivial
  | dropReading file =>
    rw [hphase] at hop
    dsimp only at hop
    split_ifs at hop
    · exact hquiet _ hop trivial
    · exact hquiet _ hop trivial
  | dropRemoving =>
    rw [hphase] at hop
    cases hop
    exact h.setPhase_files trivial

/-- Every step keeps the processes' knowledge true. -/
theorem Sound.step {a : LockAction} (h : w.Sound) (hs : w.step a = some w') : w'.Sound := by
  cases a with
  | start pid =>
    rw [LockWorld.step] at hs
    split_ifs at hs
    cases hs
    have hold : ∀ (i : Nat) (p : DaemonProcess), w.processes[i]? = some p →
        (w.processes ++ [⟨pid, true, .outside⟩])[i]? = some p :=
      fun i p hp => by rw [List.getElem?_append_left (List.getElem?_eq_some_iff.mp hp).1, hp]
    have hpid : ∀ i id, w.pid? i = some id → ({ w with
        processes := w.processes ++ [⟨pid, true, .outside⟩] } : LockWorld).pid? i = some id := by
      intro i id hid
      obtain ⟨p, hp, rfl⟩ := Option.map_eq_some_iff.mp hid
      exact Option.map_eq_some_iff.mpr ⟨p, hold i p hp, rfl⟩
    refine h.next ⟨fun _ _ => id, fun _ _ => id, hpid, fun i hi => ?_⟩ (fun file id hid => ?_)
      fun i q hq => ?_
    · obtain ⟨id, hid⟩ := Option.ne_none_iff_exists'.mp hi.1
      refine ⟨by rw [hpid i id hid]; exact Option.some_ne_none _, ?_⟩
      obtain ⟨p, hp, -⟩ := Option.map_eq_some_iff.mp hid
      have hdead := hi.2
      rw [live?, hp] at hdead
      rw [live?, hold i p hp, hdead]
    · obtain ⟨owner, howner, hsame⟩ := h.content file id hid
      exact ⟨owner, howner, hpid _ _ hsame⟩
    · rw [live?_eq_some_iff, List.getElem?_append] at hq
      split_ifs at hq
      · exact .inl ⟨q, live?_eq_some_iff.mpr hq, rfl⟩
      · rw [List.mem_singleton.mp (List.mem_of_getElem? hq.1)]
        exact .inr trivial
  | die who =>
    obtain ⟨-, -, rfl⟩ := Option.map_eq_some_iff.mp hs
    have hpid : ∀ i, ({ w with
        processes := w.processes.modify who fun p => { p with alive := false } } :
          LockWorld).pid? i = w.pid? i := by
      intro i
      simp only [pid?, List.getElem?_modify]
      cases w.processes[i]? with
      | none => rfl
      | some p => dsimp only [Option.map_eq_map, Option.map_some]; split_ifs <;> rfl
    have hlive : ∀ i q, ({ w with
        processes := w.processes.modify who fun p => { p with alive := false } } :
          LockWorld).live? i = some q → w.live? i = some q := by
      intro i q hq
      rw [live?_eq_some_iff, List.getElem?_modify] at hq
      obtain ⟨p, hp, hdead⟩ := Option.map_eq_some_iff.mp hq.1
      split_ifs at hdead
      · rw [← hdead] at hq
        cases hq.2
      · exact live?_eq_some_iff.mpr ⟨hdead ▸ hp, hq.2⟩
    refine h.next ⟨fun _ _ => id, fun _ _ => id, fun i id hid => (hpid i).trans hid,
      fun i hi => ⟨by rw [hpid]; exact hi.1, ?_⟩⟩ (fun file id hid => ?_)
      fun i q hq => .inl ⟨q, hlive i q hq, rfl⟩
    · exact Option.eq_none_iff_forall_ne_some.mpr fun q hq =>
        Option.eq_none_iff_forall_ne_some.mp hi.2 q (hlive i q hq)
    · obtain ⟨owner, howner, hsame⟩ := h.content file id hid
      exact ⟨owner, howner, (hpid owner).trans hsame⟩
  | acquire who =>
    obtain ⟨p, -, hstep⟩ := Option.bind_eq_some_iff.mp hs
    split_ifs at hstep
    cases hstep
    exact h.setPhase_files trivial
  | drop who =>
    obtain ⟨p, -, hstep⟩ := Option.bind_eq_some_iff.mp hs
    split_ifs at hstep
    cases hstep
    exact h.setPhase_files trivial
  | operate who succeeds =>
    obtain ⟨p, hp, hstep⟩ := Option.bind_eq_some_iff.mp hs
    obtain ⟨next, hnext, rfl⟩ := Option.map_eq_some_iff.mp hstep
    exact h.fileOp hp hnext

/-- The step is no `remove_file` of an `acquire` that finds another file than the one it has read the
id of a dead process in. -/
def RemovesStale (w : LockWorld) : LockAction → Prop
  | .operate who true => ∀ p ∈ w.live? who, ∀ stale, p.phase = .removing stale →
    ∀ file ∈ w.lockFile, stale = some file
  | _ => True

/-- A file that holds the id of a dead process is that of no engaged process. -/
theorem Sound.spares {a : LockAction} (h : w.Sound) (ha : w.RemovesStale a) : w.Spares a := by
  cases a with
  | operate who succeeds =>
    cases succeeds with
    | false => exact trivial
    | true =>
      rintro p hp hphase file hlock owner howner ⟨q, hq, -⟩
      cases hremoving : p.phase with
      | removing stale =>
        have hknows := h.knows who p hp
        rw [hremoving, ha p hp stale hremoving file hlock] at hknows
        obtain ⟨owner', howner', hdead⟩ := hknows
        cases howner.symm.trans howner'
        cases hq.symm.trans hdead.2
      | _ => rw [hremoving] at hphase; exact hphase.elim
  | _ => exact trivial

/-- It is enough that every `acquire` removes just the file that it has read. -/
theorem exclusive_of_removesStale (h : machine.Reachable RemovesStale w) {j : Nat}
    (hi : w.Holds i) (hj : w.Holds j) : i = j := by
  have hreach : w.Sound ∧ machine.Reachable Spares w := by
    refine Machine.Reachable.invariant (I := fun w => w.Sound ∧ machine.Reachable Spares w) ?_ ?_ h
    · rintro s hs
      refine ⟨?_, .init hs⟩
      rw [show s = initial from hs]
      exact ⟨fun _ _ hp => (nomatch hp), fun _ _ hpid => (nomatch hpid)⟩
    · rintro s a s' - ⟨hsound, hspares⟩ ha hstep
      exact ⟨hsound.step hstep, hspares.step (hsound.spares ha) hstep⟩
  exact lock_exclusive hreach.2 hi hj

/-! ## Two daemons -/

/-- A second process finds the lock file of the first one while it is still empty, removes it and
acquires the lock, which the first one then acquires too. -/
def emptyFileRun : List LockAction :=
  [.start 1, .start 2, .acquire 0, .acquire 1, .operate 0 true, .operate 1 true, .operate 1 true,
    .operate 1 true, .operate 1 true, .operate 1 true, .operate 1 true, .operate 0 true]

/-- The lock is not exclusive. -/
theorem two_holders_emptyFileRun :
    ∃ w, machine.Reached w ∧ w.Holds 0 ∧ w.Holds 1 := by
  have hrun : (machine.exec initial emptyFileRun).any (fun w =>
      decide (w.live? 0 = some ⟨1, true, .holding⟩) &&
        decide (w.live? 1 = some ⟨2, true, .holding⟩)) = true := by decide +kernel
  obtain ⟨w, hw, hholds⟩ := Machine.exists_exec hrun
  rw [Bool.and_eq_true, decide_eq_true_eq, decide_eq_true_eq] at hholds
  exact ⟨w, Machine.reached_of_exec rfl hw, ⟨_, hholds.1, trivial⟩, ⟨_, hholds.2, trivial⟩⟩

end LockWorld

end Opbox
