import Opbox.Crdt.Placements
import Opbox.Semantic.Statements

/-!
# The stable tree

`write_stable_namespace_projection_tx` stores a new stable namespace and brings the `stable_tree`
table in line with its materialization: rows that changed or went are deleted, then the changed and
the new rows are inserted, and rows that still match stay untouched.
-/

namespace Opbox

variable {D : Type}

/-- `DesiredStableTreeFile`, with the path it is stored under. -/
structure DesiredStableTreeFile where
  /-- The rendered path. -/
  path : RelativePath
  /-- The path the claim asks for. -/
  claimedPath : RelativePath
  /-- The claim. -/
  claimId : NamespaceClaimId
  /-- The object placed there. -/
  objectId : ObjectId
  deriving DecidableEq

/-- The rows the stable tree should hold, by path. -/
abbrev DesiredTree := Table DesiredStableTreeFile.path

/-- What a placement asks for. -/
def DesiredPlacement.file (p : DesiredPlacement) : DesiredStableTreeFile :=
  ⟨p.path, p.claimedPath, p.claimId, p.objectId⟩

/-- A kind as the debug format prints it. -/
def ObjectKind.shown : ObjectKind → String
  | .text => "Text"
  | .binary => "Binary"
  | .dir => "Dir"

/-- Add a placement to `desired_tree`. -/
def addDesired (desired : DesiredTree) (placement : DesiredPlacement) :
    Except SemanticTransactionError DesiredTree :=
  match placement.kind with
  | .text =>
    match desired.insert? placement.file with
    | some desired => .ok desired
    | none =>
      let path := String.ofList placement.path.toDbPath
      .error (.invariantViolation s!"namespace materialized duplicate stable_tree path {path}")
  | other =>
    let kind := other.shown
    .error (.invariantViolation s!"unsupported namespace placement kind in v0: {kind}")

/-- `desired_tree`. -/
def desiredTree (placements : List DesiredPlacement) : Except SemanticTransactionError DesiredTree :=
  placements.foldlM addDesired Table.empty

/-- `stable_tree_row_matches_desired`. -/
def stableTreeRowMatchesDesired (row : StableTreeRow) (desired : DesiredStableTreeFile) : Bool :=
  decide (row.claimedPath = desired.claimedPath) && decide (row.claimId = desired.claimId) &&
    decide (row.objectId = desired.objectId)

/-- The row a desired file is inserted as. -/
def DesiredStableTreeFile.row (d : DesiredStableTreeFile) (updatedAt : Timestamp) : StableTreeRow :=
  ⟨d.path, d.claimedPath, d.claimId, d.objectId, updatedAt⟩

@[simp] theorem DesiredStableTreeFile.row_path (d : DesiredStableTreeFile) (updatedAt : Timestamp) :
    (d.row updatedAt).path = d.path := rfl

/-- `current_tree`, in path order. -/
def Db.currentTree (db : Db D) : List StableTreeRow :=
  db.stableTree.table.rows.insertionSort fun a b => a.path ≤ b.path

/-- `delete_paths`: the rows that are gone or changed. -/
def deletePaths (current : List StableTreeRow) (desired : DesiredTree) : List RelativePath :=
  (current.filter fun row =>
    !(desired.find? row.path).any (stableTreeRowMatchesDesired row)).map StableTreeRow.path

/-- `insert_rows`: the changed rows and the new ones. -/
def insertRows (current : List StableTreeRow) (desired : DesiredTree) :
    List DesiredStableTreeFile :=
  (deletePaths current desired).filterMap desired.find? ++
    desired.rows.filter fun d => d.path ∉ current.map StableTreeRow.path

/-- Make sure an object of the namespace has its row. -/
def ensureObject (object : ConfirmedObject) : Tx D PUnit :=
  match object.objectMeta.kind with
  | .text => insertOrIgnoreObject object.objectId .text object.objectMeta.creatorWriterId
  | other =>
    let kind := other.shown
    throw (.invariantViolation s!"unsupported namespace object kind in v0: {kind}")

/-- `materialize`, with its failures as failures of the transaction. -/
def materializeTx (doc : NamespaceDoc) : Except SemanticTransactionError NamespaceProjection :=
  match doc.materialize with
  | .ok projection => .ok projection
  | .error message => .error (.fatal message)

/-- `write_stable_namespace_projection_tx`. -/
def writeStableNamespaceProjectionTx (doc : NamespaceDoc) (updatedAt : Timestamp) :
    Tx D PUnit := do
  let projection ← materializeTx doc
  updateStableNamespace doc
  forM projection.confirmedObjects ensureObject
  let desired ← desiredTree projection.placements
  let db ← get
  forM (deletePaths db.currentTree desired) deleteStableTreeFile
  forM (insertRows db.currentTree desired) fun d => insertStableTreeFile (d.row updatedAt)

/-! ## What the stable tree becomes -/

theorem materializeTx_eq_ok {doc : NamespaceDoc} {projection : NamespaceProjection} :
    materializeTx doc = .ok projection ↔ doc.materialize = .ok projection := by
  unfold materializeTx
  cases doc.materialize <;> simp

/-- The desired tree holds the files of the placements. -/
theorem mem_desiredTree {placements : List DesiredPlacement} {desired : DesiredTree}
    (h : desiredTree placements = .ok desired) {d : DesiredStableTreeFile} :
    d ∈ desired ↔ ∃ p ∈ placements, p.file = d := by
  have key : ∀ (ps : List DesiredPlacement) (t t' : DesiredTree), ps.foldlM addDesired t = .ok t' →
      (d ∈ t' ↔ d ∈ t ∨ ∃ p ∈ ps, p.file = d) := by
    intro ps
    induction ps with
    | nil =>
      intro t t' h
      cases h
      simp
    | cons p ps ih =>
      intro t t' h
      rw [List.foldlM_cons] at h
      cases hp : addDesired t p with
      | error e => rw [hp] at h; cases h
      | ok t₁ =>
        rw [hp] at h
        rw [ih t₁ t' h]
        have hins : t.insert? p.file = some t₁ := by
          unfold addDesired at hp
          split at hp
          · split at hp
            next t₂ ht₂ =>
              rw [Except.ok.injEq] at hp
              exact hp ▸ ht₂
            next => cases hp
          · cases hp
        rw [Table.mem_insert? hins]
        constructor
        · rintro ((rfl | hd) | ⟨q, hq, rfl⟩)
          · exact .inr ⟨p, List.mem_cons_self, rfl⟩
          · exact .inl hd
          · exact .inr ⟨q, List.mem_cons_of_mem _ hq, rfl⟩
        · rintro (hd | ⟨q, hq, rfl⟩)
          · exact .inl (.inr hd)
          · rcases List.mem_cons.mp hq with rfl | hq
            · exact .inl (.inl rfl)
            · exact .inr ⟨q, hq, rfl⟩
  rw [key placements Table.empty desired h]
  simp

/-- Text placements on different paths make a tree. -/
theorem exists_desiredTree {placements : List DesiredPlacement}
    (hkind : ∀ p ∈ placements, p.kind = .text)
    (hnodup : (placements.map DesiredPlacement.path).Nodup) :
    ∃ desired, desiredTree placements = .ok desired := by
  have key : ∀ (ps : List DesiredPlacement) (t : DesiredTree), (∀ p ∈ ps, p.kind = .text) →
      (ps.map DesiredPlacement.path).Nodup → (∀ p ∈ ps, t.find? p.path = none) →
      ∃ t', ps.foldlM addDesired t = .ok t' := by
    intro ps
    induction ps with
    | nil => exact fun t _ _ _ => ⟨t, rfl⟩
    | cons p ps ih =>
      intro t hkind hnodup hfree
      rw [List.map_cons, List.nodup_cons] at hnodup
      have hnone := hfree p List.mem_cons_self
      cases hins : t.insert? p.file with
      | none =>
        obtain ⟨d, hd⟩ := Table.insert?_eq_none_iff.mp hins
        have hpath : t.find? p.path = some d := hd
        rw [hnone] at hpath
        cases hpath
      | some t₁ =>
        have hadd : addDesired t p = .ok t₁ := by
          rw [addDesired, hkind p List.mem_cons_self]
          simp only [hins]
        rw [List.foldlM_cons, hadd]
        refine ih t₁ (fun q hq => hkind q (List.mem_cons_of_mem _ hq)) hnodup.2 fun q hq => ?_
        rw [Table.find?_insert? hins, if_neg, hfree q (List.mem_cons_of_mem _ hq)]
        intro hpath
        exact hnodup.1 (List.mem_map.mpr ⟨q, hq, hpath.symm⟩)
  exact key placements Table.empty hkind hnodup fun p _ => Table.find?_empty p.path

/-- The row of a path after the projection of `desired` is written: none if nothing is desired
there, the current row while it matches, and otherwise a new row. -/
def renderedRow (current : Option StableTreeRow) (desired : Option DesiredStableTreeFile)
    (updatedAt : Timestamp) : Option StableTreeRow :=
  match desired with
  | none => none
  | some d =>
    match current with
    | some row => if stableTreeRowMatchesDesired row d then some row else some (d.row updatedAt)
    | none => some (d.row updatedAt)

theorem find?_delete (t : StableTree) (path p : RelativePath) :
    (t.delete path).table.find? p = if p = path then none else t.table.find? p := by
  have hfind : (t.delete path).table.find? p =
      (t.table.find? p).filter fun r => !decide (r.path = path) :=
    Table.find?_deleteWhere t.table _ p
  rw [hfind]
  cases hp : t.table.find? p with
  | none => simp
  | some r =>
    have hr := Table.key_of_find? hp
    by_cases hpath : p = path
    · simp [hpath, hr]
    · simp [hpath, hr, Option.filter]

/-- What deleting a list of paths leaves. -/
theorem runs_deletes {db db' : Db D} {paths : List RelativePath} {u : PUnit}
    (h : Runs (forM paths (deleteStableTreeFile (D := D))) db u db') :
    db' = { db with stableTree := db'.stableTree } ∧
      ∀ p, db'.stableTree.table.find? p =
        if p ∈ paths then none else db.stableTree.table.find? p := by
  refine Runs.forM_invariant (fun done t => t = { db with stableTree := t.stableTree } ∧
    ∀ p, t.stableTree.table.find? p =
      if p ∈ done then none else db.stableTree.table.find? p) h ⟨rfl, by simp⟩ ?_
  rintro done path rest t t' _ ⟨ht, hfind⟩ hrun
  rw [deleteStableTreeFile, Runs.modify_iff] at hrun
  subst hrun
  refine ⟨by rw [ht], fun p => ?_⟩
  show (t.stableTree.delete path).table.find? p = _
  rw [find?_delete, hfind]
  by_cases hp : p = path <;> by_cases hd : p ∈ done <;> simp [hp, hd]

/-- What inserting a list of files with different paths adds. -/
theorem runs_inserts {db db' : Db D} {files : List DesiredStableTreeFile} {updatedAt : Timestamp}
    {u : PUnit}
    (h : Runs (forM files fun d => insertStableTreeFile (D := D) (d.row updatedAt)) db u db') :
    db' = { db with stableTree := db'.stableTree } ∧
      (∀ d ∈ files, db.stableTree.table.find? d.path = none) ∧
      ∀ p, db'.stableTree.table.find? p =
        ((files.find? fun d => d.path = p).map fun d => d.row updatedAt).or
          (db.stableTree.table.find? p) := by
  refine Runs.forM_invariant (fun done t => t = { db with stableTree := t.stableTree } ∧
    (∀ d ∈ done, db.stableTree.table.find? d.path = none) ∧
    ∀ p, t.stableTree.table.find? p =
      ((done.find? fun d => d.path = p).map fun d => d.row updatedAt).or
        (db.stableTree.table.find? p)) h ⟨rfl, by simp, by simp⟩ ?_
  rintro done d rest t t' _ ⟨ht, hnew, hfind⟩ hrun
  obtain ⟨tree, hins, rfl⟩ := runs_insertStableTreeFile hrun
  have hput := (StableTree.insert_eq_ok hins).1
  have hnone : t.stableTree.table.find? d.path = none := Table.find?_eq_none_of_insert? hput
  rw [hfind, Option.or_eq_none_iff, Option.map_eq_none_iff] at hnone
  refine ⟨by rw [ht], ?_, fun p => ?_⟩
  · intro e he
    rcases List.mem_append.mp he with he | he
    · exact hnew e he
    · rw [List.mem_singleton.mp he]
      exact hnone.2
  · show tree.table.find? p = _
    rw [Table.find?_insert? hput, hfind, List.find?_append, DesiredStableTreeFile.row_path]
    by_cases hp : d.path = p
    · subst hp
      rw [if_pos rfl, hnone.1]
      simp
    · rw [if_neg hp]
      simp [hp]

/-- Every object the stable tree names has its row. -/
def Db.ObjectsKnown (db : Db D) : Prop :=
  ∀ row ∈ db.stableTree.table, ∃ object ∈ db.objects, object.objectId = row.objectId

/-- Ensuring an object adds its row if it is missing, and touches nothing else. -/
theorem runs_ensureObject {db db' : Db D} {object : ConfirmedObject} {u : PUnit}
    (h : Runs (ensureObject (D := D) object) db u db') :
    db' = { db with objects := db'.objects } ∧ (∀ o ∈ db.objects, o ∈ db'.objects) ∧
      ∃ o ∈ db'.objects, o.objectId = object.objectId := by
  unfold ensureObject at h
  split at h
  · rw [insertOrIgnoreObject, Runs.modify_iff] at h
    subst h
    split
    next objects hinsert =>
      refine ⟨rfl, fun o ho => ?_, ⟨_, (Table.mem_insert? hinsert).mpr (.inl rfl), rfl⟩⟩
      exact (Table.mem_insert? hinsert).mpr (.inr ho)
    next hnone =>
      obtain ⟨o, ho⟩ := Table.insert?_eq_none_iff.mp hnone
      exact ⟨rfl, fun _ ho => ho, o, Table.mem_of_find? ho, Table.key_of_find? ho⟩
  · exact absurd h Runs.throw_iff

/-- Objects are all that ensuring objects touches, and afterwards all of them have rows. -/
theorem runs_ensureObjects {db db' : Db D} {objects : List ConfirmedObject} {u : PUnit}
    (h : Runs (forM objects (ensureObject (D := D))) db u db') :
    db' = { db with objects := db'.objects } ∧ (∀ o ∈ db.objects, o ∈ db'.objects) ∧
      ∀ object ∈ objects, ∃ o ∈ db'.objects, o.objectId = object.objectId := by
  refine Runs.forM_invariant (fun done t => t = { db with objects := t.objects } ∧
    (∀ o ∈ db.objects, o ∈ t.objects) ∧
    ∀ object ∈ done, ∃ o ∈ t.objects, o.objectId = object.objectId) h
    ⟨rfl, fun _ ho => ho, by simp⟩ ?_
  intro done object rest t t' _ ⟨ht, hkeep, hdone⟩ hrun
  obtain ⟨ht', hkeep', hobject⟩ := runs_ensureObject hrun
  refine ⟨by rw [ht', ht], fun o ho => hkeep' o (hkeep o ho), fun o ho => ?_⟩
  rcases List.mem_append.mp ho with ho | ho
  · obtain ⟨r, hr, hid⟩ := hdone o ho
    exact ⟨r, hkeep' r hr, hid⟩
  · exact List.mem_singleton.mp ho ▸ hobject

theorem mem_deletePaths {current : List StableTreeRow} {desired : DesiredTree} {p : RelativePath} :
    p ∈ deletePaths current desired ↔ ∃ row ∈ current, row.path = p ∧
      (desired.find? p).any (stableTreeRowMatchesDesired row) = false := by
  simp only [deletePaths, List.mem_map, List.mem_filter, Bool.not_eq_true']
  constructor
  · rintro ⟨row, ⟨hrow, hmatch⟩, rfl⟩
    exact ⟨row, hrow, rfl, hmatch⟩
  · rintro ⟨row, hrow, rfl, hmatch⟩
    exact ⟨row, ⟨hrow, hmatch⟩, rfl⟩

theorem mem_insertRows {current : List StableTreeRow} {desired : DesiredTree}
    {d : DesiredStableTreeFile} :
    d ∈ insertRows current desired ↔ d ∈ desired ∧
      (d.path ∈ deletePaths current desired ∨ d.path ∉ current.map StableTreeRow.path) := by
  simp only [insertRows, List.mem_append, List.mem_filterMap, List.mem_filter, Table.mem_rows,
    decide_eq_true_eq]
  constructor
  · rintro (⟨p, hp, hd⟩ | ⟨hd, hp⟩)
    · refine ⟨Table.mem_of_find? hd, .inl ?_⟩
      have hpath : d.path = p := Table.key_of_find? hd
      rwa [hpath]
    · exact ⟨hd, .inr hp⟩
  · rintro ⟨hd, hp | hp⟩
    · exact .inl ⟨d.path, hp, Table.find?_key hd⟩
    · exact .inr ⟨hd, hp⟩

/-- The files to insert, looked up by path. -/
theorem find?_insertRows {current : List StableTreeRow} {desired : DesiredTree} (p : RelativePath) :
    (insertRows current desired).find? (fun d => d.path = p) =
      if p ∈ deletePaths current desired ∨ p ∉ current.map StableTreeRow.path then desired.find? p
      else none := by
  cases hf : (insertRows current desired).find? (fun d => d.path = p) with
  | some d =>
    have hpath : d.path = p := by simpa using List.find?_some hf
    obtain ⟨hd, hp⟩ := mem_insertRows.mp (List.mem_of_find?_eq_some hf)
    rw [hpath] at hp
    rw [if_pos hp, ← hpath]
    exact (Table.find?_key hd).symm
  | none =>
    split_ifs with hp
    · cases hd : desired.find? p with
      | none => rfl
      | some d =>
        have hpath : d.path = p := Table.key_of_find? hd
        have hmem := mem_insertRows.mpr ⟨Table.mem_of_find? hd, hpath ▸ hp⟩
        exact absurd hpath (by simpa using List.find?_eq_none.mp hf d hmem)
    · rfl

theorem find?_eq_none_iff_notMem_currentTree {db : Db D} {p : RelativePath} :
    p ∉ db.currentTree.map StableTreeRow.path ↔ db.stableTree.table.find? p = none := by
  simp [Db.currentTree, Table.find?_eq_none_iff, Table.mem_rows]

theorem mem_deletePaths_currentTree {db : Db D} {desired : DesiredTree} {p : RelativePath} :
    p ∈ deletePaths db.currentTree desired ↔ ∃ row, db.stableTree.table.find? p = some row ∧
      (desired.find? p).any (stableTreeRowMatchesDesired row) = false := by
  rw [mem_deletePaths]
  simp [Db.currentTree, Table.find?_eq_some_iff, Table.mem_rows, and_assoc]

/-- The table `after` is the materialization of `doc` written over the table `before`. -/
def StableTreeWritten (before after : StableTree) (doc : NamespaceDoc) (updatedAt : Timestamp) :
    Prop :=
  ∃ projection desired, doc.materialize = .ok projection ∧
    desiredTree projection.placements = .ok desired ∧
    ∀ p, after.table.find? p = renderedRow (before.table.find? p) (desired.find? p) updatedAt

/-! ## The table agrees with the namespace -/

/-- What a row of the stable tree records. -/
def StableTreeRow.file (r : StableTreeRow) : DesiredStableTreeFile :=
  ⟨r.path, r.claimedPath, r.claimId, r.objectId⟩

@[simp] theorem DesiredStableTreeFile.file_row (d : DesiredStableTreeFile) (updatedAt : Timestamp) :
    (d.row updatedAt).file = d := rfl

theorem file_eq_of_matches {row : StableTreeRow} {d : DesiredStableTreeFile}
    (hpath : row.path = d.path) (h : stableTreeRowMatchesDesired row d = true) : row.file = d := by
  simp only [stableTreeRowMatchesDesired, Bool.and_eq_true, decide_eq_true_eq] at h
  obtain ⟨⟨hclaimed, hclaim⟩, hobject⟩ := h
  cases row; cases d
  simp_all [StableTreeRow.file]

/-- The table is the materialization of the namespace. -/
def TreeSynced (tree : StableTree) (doc : NamespaceDoc) : Prop :=
  ∃ projection desired, doc.materialize = .ok projection ∧
    desiredTree projection.placements = .ok desired ∧
    ∀ p, (tree.table.find? p).map StableTreeRow.file = desired.find? p

/-- A written projection is in line with its namespace. -/
theorem StableTreeWritten.treeSynced {before after : StableTree} {doc : NamespaceDoc}
    {updatedAt : Timestamp} (h : StableTreeWritten before after doc updatedAt) :
    TreeSynced after doc := by
  obtain ⟨projection, desired, hproj, hdesired, hfind⟩ := h
  refine ⟨projection, desired, hproj, hdesired, fun p => ?_⟩
  rw [hfind]
  cases hdes : desired.find? p with
  | none => rfl
  | some d =>
    have hd : d.path = p := Table.key_of_find? hdes
    cases hcur : before.table.find? p with
    | none => rfl
    | some row =>
      have hrow : row.path = p := Table.key_of_find? hcur
      by_cases hm : stableTreeRowMatchesDesired row d = true
      · simp [renderedRow, hm, file_eq_of_matches (hrow.trans hd.symm) hm]
      · simp [renderedRow, hm]

/-- The rows of a synced table are the placements of the materialization. -/
theorem TreeSynced.mem_iff {tree : StableTree} {doc : NamespaceDoc} (h : TreeSynced tree doc) :
    ∃ projection, doc.materialize = .ok projection ∧
      ∀ d, (∃ row ∈ tree.table, row.file = d) ↔ ∃ p ∈ projection.placements, p.file = d := by
  obtain ⟨projection, desired, hproj, hdesired, hfind⟩ := h
  refine ⟨projection, hproj, fun d => ?_⟩
  rw [← mem_desiredTree hdesired]
  constructor
  · rintro ⟨row, hrow, rfl⟩
    have := hfind row.path
    rw [Table.find?_key hrow] at this
    exact Table.mem_of_find? this.symm
  · intro hd
    have := hfind d.path
    rw [Table.find?_key hd, Option.map_eq_some_iff] at this
    obtain ⟨row, hrow, hfile⟩ := this
    exact ⟨row, Table.mem_of_find? hrow, hfile⟩

/-- A table with the rows of a materialization into different paths is in line with it. -/
theorem treeSynced_of_mem {tree : StableTree} {doc : NamespaceDoc} {projection : NamespaceProjection}
    (hproj : doc.materialize = .ok projection)
    (hkind : ∀ p ∈ projection.placements, p.kind = .text)
    (hnodup : (projection.placements.map DesiredPlacement.path).Nodup)
    (hmem : ∀ d, (∃ row ∈ tree.table, row.file = d) ↔ ∃ p ∈ projection.placements, p.file = d) :
    TreeSynced tree doc := by
  obtain ⟨desired, hdesired⟩ := exists_desiredTree hkind hnodup
  refine ⟨projection, desired, hproj, hdesired, fun p => ?_⟩
  ext d
  rw [Option.map_eq_some_iff, Table.find?_eq_some_iff, mem_desiredTree hdesired, ← hmem]
  constructor
  · rintro ⟨row, hrow, rfl⟩
    obtain ⟨hmem', hpath⟩ := Table.find?_eq_some_iff.mp hrow
    exact ⟨⟨row, hmem', rfl⟩, hpath⟩
  · rintro ⟨⟨row, hrow, rfl⟩, hpath⟩
    exact ⟨row, Table.find?_eq_some_iff.mpr ⟨hrow, hpath⟩, rfl⟩

/-- Two tables that are materializations of one namespace agree row for row. -/
theorem TreeSynced.find?_eq {tree tree' : StableTree} {doc : NamespaceDoc} (h : TreeSynced tree doc)
    (h' : TreeSynced tree' doc) (p : RelativePath) :
    (tree.table.find? p).map StableTreeRow.file = (tree'.table.find? p).map StableTreeRow.file := by
  obtain ⟨projection, desired, hproj, hdesired, hfind⟩ := h
  obtain ⟨projection', desired', hproj', hdesired', hfind'⟩ := h'
  rw [hproj, Except.ok.injEq] at hproj'
  subst hproj'
  rw [hdesired, Except.ok.injEq] at hdesired'
  subst hdesired'
  rw [hfind, hfind']

/-- What writing a namespace projection does: the namespace and the object rows are stored, and the
stable tree holds, path by path, what the materialization asks for. -/
theorem runs_writeStableNamespaceProjectionTx {db db' : Db D} {doc : NamespaceDoc}
    {updatedAt : Timestamp} {u : PUnit}
    (h : Runs (writeStableNamespaceProjectionTx (D := D) doc updatedAt) db u db') :
    db' = { db with
      stableNamespace := doc, objects := db'.objects, stableTree := db'.stableTree } ∧
    StableTreeWritten db.stableTree db'.stableTree doc updatedAt ∧ db'.ObjectsKnown := by
  simp only [writeStableNamespaceProjectionTx, Runs.bind_iff, Runs.liftExcept_iff, Runs.get_iff,
    updateStableNamespace, Runs.modify_iff, materializeTx_eq_ok] at h
  obtain ⟨projection, _, ⟨hproj, rfl⟩, ⟨⟩, _, rfl, ⟨⟩, db₁, hobjects, desired, _, ⟨hdesired, rfl⟩,
    _, _, ⟨rfl, rfl⟩, ⟨⟩, db₂, hdeletes, hinserts⟩ := h
  obtain ⟨h₁, -, hknown⟩ := runs_ensureObjects hobjects
  obtain ⟨h₂, hdel⟩ := runs_deletes hdeletes
  obtain ⟨h₃, -, hins⟩ := runs_inserts hinserts
  suffices hwritten : StableTreeWritten db.stableTree db'.stableTree doc updatedAt by
    refine ⟨by rw [h₃, h₂, h₁], hwritten, fun row hrow => ?_⟩
    obtain ⟨projection', hproj', hmem⟩ := hwritten.treeSynced.mem_iff
    rw [hproj, Except.ok.injEq] at hproj'
    subst hproj'
    obtain ⟨placement, hplacement, hfile⟩ := (hmem row.file).mp ⟨row, hrow, rfl⟩
    obtain ⟨object, hobject, hid⟩ := exists_confirmedObject hproj hplacement
    obtain ⟨o, ho, hoid⟩ := hknown object hobject
    have hobjects' : db'.objects = db₁.objects := by rw [h₃, h₂]
    refine ⟨o, hobjects' ▸ ho, hoid.trans (hid.trans ?_)⟩
    exact congrArg DesiredStableTreeFile.objectId hfile
  refine ⟨projection, desired, hproj, hdesired, fun p => ?_⟩
  have htree : ∀ q, db₁.stableTree.table.find? q = db.stableTree.table.find? q := by
    intro q
    rw [h₁]
  have hdelete : p ∈ deletePaths db₁.currentTree desired ↔
      ∃ row, db.stableTree.table.find? p = some row ∧
        (desired.find? p).any (stableTreeRowMatchesDesired row) = false := by
    rw [mem_deletePaths_currentTree, htree]
  have hnew : p ∉ db₁.currentTree.map StableTreeRow.path ↔ db.stableTree.table.find? p = none := by
    rw [find?_eq_none_iff_notMem_currentTree, htree]
  rw [hins, hdel, find?_insertRows, htree]
  simp only [hdelete, hnew]
  cases hcur : db.stableTree.table.find? p with
  | none => cases desired.find? p <;> simp [renderedRow]
  | some row =>
    cases hdes : desired.find? p with
    | none => simp [renderedRow]
    | some d =>
      by_cases hm : stableTreeRowMatchesDesired row d = true <;> simp [renderedRow, hm]

theorem treeSynced_initial : TreeSynced StableTree.empty NamespaceDoc.emptyNamespaceState :=
  ⟨⟨[], []⟩, Table.empty, rfl, rfl, fun _ => rfl⟩

end Opbox
