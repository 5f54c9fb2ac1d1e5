import Opbox.Semantic.CompletedProjection
import Opbox.Workspace.Convergence

/-!
# Daemons at rest

A daemon is at rest when it has read the whole log, has nothing to publish and has nothing to
project.  Whatever happened before, all the daemons of a workspace that are at rest have accepted the
same files with the same texts, and these are the placements of the namespace that they share.
-/

namespace Opbox

section Placed

variable {D : Type} [TextCrdt D] {db db' : Db D}

/-- A placed file: its object and its text. -/
def Db.placedText (db : Db D) (path : RelativePath) : Option (ObjectId × Bytes) :=
  (db.stableSnapshot path).map fun placed => (placed.1, TextCrdt.getText placed.2)

theorem Db.placedText_eq (db : Db D) (path : RelativePath) :
    db.placedText path = ((db.stableTree.table.find? path).map StableTreeRow.file).map fun file =>
      (file.objectId, TextCrdt.getText (db.stableText file.objectId)) := by
  rw [placedText, stableSnapshot, stableTreeFile, Option.map_map, Option.map_map]
  rfl

/-- Daemons with the same operations, with stable trees that are in line with their namespaces, have
placed the same files with the same texts. -/
theorem placedText_eq_of_stableOps_eq (hops : db.stableOps = db'.stableOps)
    (hsynced : TreeSynced db.stableTree db.stableNamespace)
    (hsynced' : TreeSynced db'.stableTree db'.stableNamespace) (path : RelativePath) :
    db.placedText path = db'.placedText path := by
  have hns : db.stableNamespace = db'.stableNamespace := by
    ext op
    rw [← ns_mem_stableOps, hops, ns_mem_stableOps]
  have htexts : ∀ id, TextCrdt.getText (db.stableText id) = TextCrdt.getText (db'.stableText id) := by
    intro id
    apply TextCrdt.getText_eq_of_ops_eq
    ext op
    rw [← text_mem_stableOps, hops, text_mem_stableOps]
  rw [db.placedText_eq, db'.placedText_eq, hsynced.find?_eq (hns ▸ hsynced') path]
  exact congrArg (fun f => Option.map f _)
    (funext fun file => congrArg (Prod.mk file.objectId) (htexts file.objectId))

end Placed

namespace Workspace

section Agree

variable {ι D : Type} [TextCrdt D]

/-- An accepted file: its object and its text. -/
def acceptedText (db : Db D) (path : RelativePath) : Option (ObjectId × Bytes) :=
  (db.priorSnapshot path).map fun placed => (placed.1, TextCrdt.getText placed.2)

section Rest

variable [DecidableEq D] {w : Workspace ι D} {i : ι}

/-- The daemon has read the log to its tail, and has nothing to publish and nothing to project. -/
structure AtRest (w : Workspace ι D) (i : ι) : Prop where
  /-- The log is read. -/
  read : (w.daemons i).db.stableCursor = w.log.length
  /-- The outbox is empty. -/
  published : (w.daemons i).db.outbox.rows.rows = []
  /-- The plan is empty. -/
  projected : (w.daemons i).db.plannedProjections = []

/-- At rest the accepted files are the placed ones. -/
theorem AtRest.acceptedText_eq (hi : w.AtRest i) (path : RelativePath) :
    acceptedText (w.daemons i).db path = (w.daemons i).db.placedText path := by
  rw [acceptedText, ← congrFun (plannedProjections_eq_nil_iff.mp hi.projected) path]
  rfl

omit [DecidableEq D] in
/-- A daemon without a pending message holds nothing back. -/
theorem pending_eq_empty (h : (w.daemons i).db.outbox.rows.rows = []) :
    (w.daemons i).db.replica.pending = ∅ := by
  apply Set.eq_empty_of_forall_notMem
  rintro m ⟨row, hrow, -⟩
  rw [← Table.mem_rows, h] at hrow
  exact List.not_mem_nil hrow

omit [TextCrdt D] [DecidableEq D] in
/-- The rows of a stable tree that is in line with its namespace are the placements. -/
theorem exists_stableTreeFile_iff {db : Db D} {projection : NamespaceProjection}
    (hsynced : TreeSynced db.stableTree db.stableNamespace)
    (hproj : db.stableNamespace.materialize = .ok projection) {path : RelativePath} {id : ObjectId} :
    (∃ row, db.stableTreeFile path = some row ∧ row.objectId = id) ↔
      ∃ placement ∈ projection.placements, placement.path = path ∧ placement.objectId = id := by
  obtain ⟨projection', hproj', hmem⟩ := hsynced.mem_iff
  rw [hproj, Except.ok.injEq] at hproj'
  subst hproj'
  constructor
  · rintro ⟨row, hrow, rfl⟩
    obtain ⟨hmemrow, rfl⟩ := Table.find?_eq_some_iff.mp hrow
    obtain ⟨placement, hplacement, hfile⟩ := (hmem row.file).mp ⟨row, hmemrow, rfl⟩
    exact ⟨placement, hplacement, congrArg DesiredStableTreeFile.path hfile,
      congrArg DesiredStableTreeFile.objectId hfile⟩
  · rintro ⟨placement, hplacement, rfl, rfl⟩
    obtain ⟨row, hrow, hfile⟩ := (hmem placement.file).mpr ⟨placement, hplacement, rfl⟩
    have hpath : row.path = placement.path := congrArg DesiredStableTreeFile.path hfile
    exact ⟨row, Table.find?_eq_some_iff.mpr ⟨hrow, hpath⟩, congrArg DesiredStableTreeFile.objectId hfile⟩

end Rest

variable [DecidableEq ι] [CharDiff] [Xxh3] [DecidableEq D] {writers : WriterIds ι}
  {w : Workspace ι D} {i j : ι}

/-- Daemons that have read the whole log and have published everything hold the same operations. -/
theorem stableOps_eq (h : (workspaceMachine (D := D) writers).Reached w) (hi : w.AtRest i)
    (hj : w.AtRest j) : (w.daemons i).db.stableOps = (w.daemons j).db.stableOps := by
  have hw := inStep_of_reached h
  have hlength : (logEntries w.log).length = w.log.length := List.length_map ..
  apply (hw.daemon i).coherent.converge (hw.daemon j).coherent
  · exact hi.read.trans hlength.symm
  · exact hj.read.trans hlength.symm
  · exact pending_eq_empty hi.published
  · exact pending_eq_empty hj.published

/-- Two daemons at rest have accepted the same files with the same texts: those that the namespace
which they share places. -/
theorem resting_daemons_agree (h : (workspaceMachine (D := D) writers).Reached w)
    (hi : w.AtRest i) (hj : w.AtRest j) :
    ∃ projection, (w.daemons i).db.stableNamespace.materialize = .ok projection ∧
      (w.daemons j).db.stableNamespace.materialize = .ok projection ∧
      (∀ path, acceptedText (w.daemons i).db path = acceptedText (w.daemons j).db path) ∧
      ∀ path id text, acceptedText (w.daemons i).db path = some (id, text) ↔
        (∃ placement ∈ projection.placements, placement.path = path ∧ placement.objectId = id) ∧
          text = TextCrdt.getText ((w.daemons i).db.stableText id) := by
  have hw := inStep_of_reached h
  have hops := stableOps_eq h hi hj
  have hns : (w.daemons i).db.stableNamespace = (w.daemons j).db.stableNamespace := by
    ext op
    rw [← ns_mem_stableOps, hops, ns_mem_stableOps]
  have hsynced := (hw.daemon i).treeSynced
  obtain ⟨projection, -, hproj, -⟩ := id hsynced
  refine ⟨projection, hproj, hns ▸ hproj, fun path => ?_, fun path id text => ?_⟩
  · rw [hi.acceptedText_eq, hj.acceptedText_eq]
    exact placedText_eq_of_stableOps_eq hops hsynced (hw.daemon j).treeSynced path
  · rw [hi.acceptedText_eq, Db.placedText, Db.stableSnapshot, Option.map_map, Option.map_eq_some_iff,
      ← exists_stableTreeFile_iff hsynced hproj]
    constructor
    · rintro ⟨row, hrow, heq⟩
      obtain ⟨rfl, rfl⟩ := Prod.mk.inj heq
      exact ⟨⟨row, hrow, rfl⟩, rfl⟩
    · rintro ⟨⟨row, hrow, rfl⟩, rfl⟩
      exact ⟨row, hrow, rfl⟩

end Agree

/-! ## A file that reaches a second daemon and its disk -/

open Snapshots

/-- The file of `publishRun` is read by the second daemon, which writes it to its disk. -/
def projectRun : List (WorkspaceAction (Fin 2) Doc) :=
  publishRun ++ [.serve 1 .getNextWork,
    .serve 1 (.commitProjectionAction (.writeFile ⟨0, 0⟩
      (.written (.statAndContent (fileStat 9 2 1) [104, 105])))),
    .serve 1 (.commitProjectionEpoch .planExhausted 1)]

/-- `resting_daemons_agree` of the two daemons after this run: both have accepted the text. -/
theorem resting_daemons_agree_projectRun : ∃ w : Workspace (Fin 2) Doc,
    (workspaceMachine twoWriters).exec twoDaemons projectRun = some w ∧
      acceptedText (w.daemons 0).db (rootFile 1) = some ([1], [104, 105]) ∧
      acceptedText (w.daemons 1).db (rootFile 1) = acceptedText (w.daemons 0).db (rootFile 1) := by
  have hrun : ((workspaceMachine twoWriters).exec twoDaemons projectRun).any (fun w =>
      decide (((w.daemons 0).db.stableCursor = w.log.length ∧
          (w.daemons 1).db.stableCursor = w.log.length) ∧
        ((w.daemons 0).db.outbox.rows.rows.length = 0 ∧
          (w.daemons 1).db.outbox.rows.rows.length = 0) ∧
        ((w.daemons 0).db.plannedProjections.length = 0 ∧
          (w.daemons 1).db.plannedProjections.length = 0) ∧
        acceptedText (w.daemons 0).db (rootFile 1) = some ([1], [104, 105]))) = true := by
    decide +kernel
  obtain ⟨w, hw, hp⟩ := Machine.exists_exec hrun
  obtain ⟨⟨hread, hread'⟩, ⟨hpub, hpub'⟩, ⟨hproj, hproj'⟩, htext⟩ := of_decide_eq_true hp
  have hreach := Machine.reached_of_exec (M := workspaceMachine twoWriters)
    (s := twoDaemons) ⟨rfl, fun _ => rfl⟩ hw
  obtain ⟨-, -, -, hsame, -⟩ := resting_daemons_agree hreach
    ⟨hread', List.length_eq_zero_iff.mp hpub', List.length_eq_zero_iff.mp hproj'⟩
    ⟨hread, List.length_eq_zero_iff.mp hpub, List.length_eq_zero_iff.mp hproj⟩
  exact ⟨w, hw, htext, hsame _⟩

end Workspace

end Opbox
