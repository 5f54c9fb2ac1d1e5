import Opbox.Crdt.ConflictResolution
import Opbox.Semantic.StableTree

/-!
# The delta of the stable tree

The deletions and insertions that bring `stable_tree` in line with a materialization never meet a row
with the same path or the same claim, however the claims have moved among the paths: a row that is
kept is desired as it is, and no other desired row has its path or its claim.
-/

namespace Opbox

variable {D : Type}

/-- A row with a new path and a new claim is inserted. -/
theorem StableTree.exists_insert (t : StableTree) (row : StableTreeRow)
    (hpath : ∀ r ∈ t.table, r.path ≠ row.path) (hclaim : ∀ r ∈ t.table, r.claimId ≠ row.claimId) :
    ∃ t', t.insert row = .ok t' := by
  unfold insert
  split
  next hnone =>
    obtain ⟨r, hr⟩ := Table.insert?_eq_none_iff.mp hnone
    exact absurd (Table.key_of_find? hr) (hpath r (Table.mem_of_find? hr))
  next table htable =>
    split_ifs with hmem
    · obtain ⟨r, hr, hid⟩ := List.mem_map.mp hmem
      exact absurd hid (hclaim r hr)
    · exact ⟨_, rfl⟩

theorem runs_insertStableTreeFile_of_ok {db : Db D} {row : StableTreeRow} {tree : StableTree}
    (h : db.stableTree.insert row = .ok tree) :
    Runs (insertStableTreeFile row) db ⟨⟩ { db with stableTree := tree } := by
  simp only [insertStableTreeFile, Runs.bind_iff, Runs.liftExcept_iff, Runs.get_iff,
    runs_set_iff]
  exact ⟨db, db, ⟨rfl, rfl⟩, tree, db, ⟨h, rfl⟩, rfl⟩

/-- Rows with different paths and claims, none of them in the table, are all inserted. -/
theorem exists_runs_inserts (db : Db D) (files : List DesiredStableTreeFile) (updatedAt : Timestamp)
    (hdistinct : files.Pairwise fun d d' => d.path ≠ d'.path ∧ d.claimId ≠ d'.claimId)
    (hnew : ∀ d ∈ files, ∀ r ∈ db.stableTree.table, r.path ≠ d.path ∧ r.claimId ≠ d.claimId) :
    ∃ db', Runs (forM files fun d => insertStableTreeFile (D := D) (d.row updatedAt)) db ⟨⟩ db' := by
  obtain ⟨db', hrun, -⟩ : ∃ db', Runs (forM files fun d =>
      insertStableTreeFile (D := D) (d.row updatedAt)) db ⟨⟩ db' ∧
        ∀ r ∈ db'.stableTree.table, r ∈ db.stableTree.table ∨ ∃ d ∈ files, r = d.row updatedAt := by
    refine Runs.exists_forM (fun (done : List DesiredStableTreeFile) (t : Db D) =>
      ∀ r ∈ t.stableTree.table, r ∈ db.stableTree.table ∨ ∃ d ∈ done, r = d.row updatedAt)
      (fun r hr => .inl hr) ?_
    intro done d rest t hsplit hrows
    -- The rows in the table are old ones, or those of the files inserted before.
    have hother : ∀ r ∈ t.stableTree.table, r.path ≠ d.path ∧ r.claimId ≠ d.claimId := by
      intro r hr
      rcases hrows r hr with hold | ⟨d', hd', rfl⟩
      · exact hnew d (by rw [hsplit]; simp) r hold
      · rw [hsplit, List.pairwise_append] at hdistinct
        exact hdistinct.2.2 d' hd' d List.mem_cons_self
    obtain ⟨tree, htree⟩ := t.stableTree.exists_insert (d.row updatedAt)
      (fun r hr => (hother r hr).1) fun r hr => (hother r hr).2
    refine ⟨_, runs_insertStableTreeFile_of_ok htree, fun r hr => ?_⟩
    rcases (Table.mem_insert? (StableTree.insert_eq_ok htree).1).mp hr with rfl | hr
    · exact .inr ⟨d, by simp, rfl⟩
    · rcases hrows r hr with hold | ⟨d', hd', rfl⟩
      · exact .inl hold
      · exact .inr ⟨d', List.mem_append_left _ hd', rfl⟩
  exact ⟨db', hrun⟩

theorem exists_runs_deletes (db : Db D) (paths : List RelativePath) :
    ∃ db', Runs (forM paths (deleteStableTreeFile (D := D))) db ⟨⟩ db' :=
  (Runs.exists_forM (fun _ _ => True) trivial fun _ _ _ _ _ _ =>
    ⟨_, Runs.modify_iff.mpr rfl, trivial⟩).imp fun _ h => h.1

theorem nodup_deletePaths (db : Db D) (desired : DesiredTree) :
    (deletePaths db.currentTree desired).Nodup := by
  have hpaths : (db.currentTree.map StableTreeRow.path).Nodup :=
    ((List.perm_insertionSort _ _).map _).nodup_iff.mpr db.stableTree.table.keys_nodup
  exact hpaths.sublist (List.filter_sublist.map _)

theorem nodup_insertRows (db : Db D) (desired : DesiredTree) :
    (insertRows db.currentTree desired).Nodup := by
  refine List.Nodup.append ?_ (desired.keys_nodup.of_map.filter _) fun d hd hd' => ?_
  · refine (nodup_deletePaths db desired).filterMap fun p p' d hp hp' => ?_
    exact (Table.key_of_find? hp).symm.trans (Table.key_of_find? hp')
  · obtain ⟨p, hp, hfind⟩ := List.mem_filterMap.mp hd
    obtain ⟨row, hrow, hpath, -⟩ := mem_deletePaths.mp hp
    have hdpath : d.path = p := Table.key_of_find? hfind
    have hnot : d.path ∉ db.currentTree.map StableTreeRow.path :=
      of_decide_eq_true (List.mem_filter.mp hd').2
    exact hnot (List.mem_map.mpr ⟨row, hrow, hpath.trans hdpath.symm⟩)

/-- The deletions and then the insertions run: no statement meets a row with the same path or the same
claim. -/
theorem exists_runs_delta (db : Db D) {desired : DesiredTree}
    (hclaims : ∀ d ∈ desired, ∀ d' ∈ desired, d.claimId = d'.claimId → d = d')
    (updatedAt : Timestamp) :
    ∃ db₁ db', Runs (forM (deletePaths db.currentTree desired) (deleteStableTreeFile (D := D)))
        db ⟨⟩ db₁ ∧
      Runs (forM (insertRows db.currentTree desired) fun d =>
        insertStableTreeFile (D := D) (d.row updatedAt)) db₁ ⟨⟩ db' := by
  obtain ⟨db₁, hdeletes⟩ := exists_runs_deletes db (deletePaths db.currentTree desired)
  obtain ⟨-, hleft⟩ := runs_deletes hdeletes
  have hdesired : ∀ d ∈ insertRows db.currentTree desired, d ∈ desired := fun d hd =>
    (mem_insertRows.mp hd).1
  refine ⟨db₁, ?_⟩
  refine (exists_runs_inserts db₁ (insertRows db.currentTree desired) updatedAt ?_ ?_).imp
    fun _ hinserts => ⟨hdeletes, hinserts⟩
  · refine (nodup_insertRows db desired).imp_of_mem fun {d d'} hd hd' hne => ⟨fun h => hne ?_, fun h => hne ?_⟩
    · exact Table.eq_of_key_eq (hdesired d hd) (hdesired d' hd') h
    · exact hclaims d (hdesired d hd) d' (hdesired d' hd') h
  · intro d hd r hr
    obtain ⟨hmem, hwhere⟩ := mem_insertRows.mp hd
    have hfind := hleft r.path
    rw [Table.find?_key hr] at hfind
    split_ifs at hfind with hdeleted
    -- The row was kept, so that it is desired as it is.
    have hkept : r.path ∈ db.currentTree.map StableTreeRow.path := by
      by_contra hnot
      rw [find?_eq_none_iff_notMem_currentTree, ← hfind] at hnot
      cases hnot
    have hmatch : (desired.find? r.path).any (stableTreeRowMatchesDesired r) = true := by
      by_contra hnot
      exact hdeleted (mem_deletePaths_currentTree.mpr
        ⟨r, hfind.symm, Bool.eq_false_iff.mpr hnot⟩)
    obtain ⟨d', hd', hsame⟩ := (Option.any_eq_true _ _).mp hmatch
    have hfile := file_eq_of_matches (Table.key_of_find? hd').symm hsame
    have hpath : r.path ≠ d.path := by
      intro hpath
      rcases hwhere with hwhere | hwhere
      · exact hdeleted (hpath ▸ hwhere)
      · exact hwhere (hpath ▸ hkept)
    refine ⟨hpath, fun hid => hpath ?_⟩
    have hd'mem : d' ∈ desired := Table.mem_of_find? hd'
    rw [← hclaims d' hd'mem d hmem (hfile ▸ hid)]
    exact congrArg DesiredStableTreeFile.path hfile

/-- The object of a placement is among the objects of the document, with its kind. -/
theorem kind_of_confirmedObjects {doc : NamespaceDoc} {projection : NamespaceProjection}
    (h : doc.materialize = .ok projection) {kind : ObjectKind}
    (hkind : ∀ o ∈ projection.confirmedObjects, o.objectMeta.kind = kind) {p : DesiredPlacement}
    (hp : p ∈ projection.placements) : p.kind = kind := by
  obtain ⟨hobjects, claims, hclaims, hplacements⟩ := NamespaceDoc.materialize_eq_ok.mp h
  obtain ⟨c, hc, heq⟩ := mem_of_deriveVisiblePlacements hplacements hp
  obtain ⟨-, hok⟩ := (NamespaceDoc.mem_materializationClaims hclaims).mp hc
  have hmeta := (NamespaceDoc.materializationClaim_eq_ok.mp hok).2.2
  have hid : c.objectId ∈ doc.allObjectIds := NamespaceDoc.mem_allObjectIds.mpr ⟨_, hmeta⟩
  rw [heq]
  refine hkind ⟨c.objectId, c.objectMeta⟩ ((mem_of_mapM_eq_ok hobjects).mpr
    ⟨c.objectId, mem_sortedList.mpr hid, ?_⟩)
  rw [hmeta]

theorem exists_runs_ensureObjects (db : Db D) {objects : List ConfirmedObject}
    (hkind : ∀ o ∈ objects, o.objectMeta.kind = .text) :
    ∃ db', Runs (forM objects (ensureObject (D := D))) db ⟨⟩ db' := by
  obtain ⟨db', hrun, -⟩ : ∃ db', Runs (forM objects (ensureObject (D := D))) db ⟨⟩ db' ∧ True := by
    refine Runs.exists_forM (fun _ _ => True) trivial fun done object rest t hsplit _ => ?_
    have htext : object.objectMeta.kind = .text := hkind object (by rw [hsplit]; simp)
    unfold ensureObject
    rw [htext]
    exact ⟨_, Runs.modify_iff.mpr rfl, trivial⟩
  exact ⟨db', hrun⟩

/-- A materialization is always written. -/
theorem exists_runs_writeStableNamespaceProjectionTx (db : Db D) {doc : NamespaceDoc}
    {projection : NamespaceProjection} (hproj : doc.materialize = .ok projection)
    (hkind : ∀ o ∈ projection.confirmedObjects, o.objectMeta.kind = .text) (updatedAt : Timestamp) :
    ∃ db', Runs (writeStableNamespaceProjectionTx (D := D) doc updatedAt) db ⟨⟩ db' := by
  obtain ⟨-, claims, hclaims, hplacements⟩ := NamespaceDoc.materialize_eq_ok.mp hproj
  have hids := NamespaceDoc.nodup_materializationClaims hclaims
  obtain ⟨desired, hdesired⟩ :=
    exists_desiredTree (fun p hp => kind_of_confirmedObjects hproj hkind hp) (nodup_map_path hplacements)
  have hunique : ∀ d ∈ desired, ∀ d' ∈ desired, d.claimId = d'.claimId → d = d' := by
    intro d hd d' hd' hid
    obtain ⟨p, hp, rfl⟩ := (mem_desiredTree hdesired).mp hd
    obtain ⟨p', hp', rfl⟩ := (mem_desiredTree hdesired).mp hd'
    have hnodup := (perm_map_claimId hids hplacements).nodup_iff.mpr hids
    rw [List.inj_on_of_nodup_map hnodup hp hp' hid]
  -- The run, up to the deletions on the unchanged stable tree.
  obtain ⟨db₁, hobjects⟩ := exists_runs_ensureObjects { db with stableNamespace := doc } hkind
  obtain ⟨db₂, db', hdeletes, hinserts⟩ := exists_runs_delta db₁ hunique updatedAt
  refine ⟨db', ?_⟩
  simp only [writeStableNamespaceProjectionTx, Runs.bind_iff, Runs.liftExcept_iff, Runs.get_iff,
    updateStableNamespace, Runs.modify_iff, materializeTx_eq_ok]
  exact ⟨projection, _, ⟨hproj, rfl⟩, ⟨⟩, _, rfl, ⟨⟩, db₁, hobjects, desired, _, ⟨hdesired, rfl⟩,
    _, _, ⟨rfl, rfl⟩, ⟨⟩, db₂, hdeletes, hinserts⟩

/-- A namespace that is written has text objects only. -/
theorem kind_of_writeStableNamespaceProjectionTx {db db' : Db D} {doc : NamespaceDoc}
    {updatedAt : Timestamp} {u : PUnit}
    (h : Runs (writeStableNamespaceProjectionTx (D := D) doc updatedAt) db u db') :
    ∃ projection, doc.materialize = .ok projection ∧
      ∀ o ∈ projection.confirmedObjects, o.objectMeta.kind = .text := by
  simp only [writeStableNamespaceProjectionTx, Runs.bind_iff, Runs.liftExcept_iff, Runs.get_iff,
    updateStableNamespace, Runs.modify_iff, materializeTx_eq_ok] at h
  obtain ⟨projection, _, ⟨hproj, rfl⟩, ⟨⟩, _, rfl, ⟨⟩, db₁, hobjects, -⟩ := h
  refine ⟨projection, hproj, ?_⟩
  refine Runs.forM_invariant (fun done _ => ∀ o ∈ done, o.objectMeta.kind = .text) hobjects (by rintro o ⟨⟩) ?_
  intro done object rest t t' _ hdone hrun o ho
  rcases List.mem_append.mp ho with ho | ho
  · exact hdone o ho
  · obtain rfl := List.mem_singleton.mp ho
    unfold ensureObject at hrun
    split at hrun
    next htext => exact htext
    · exact absurd hrun Runs.throw_iff

/-- A materialization is always written: the deletions and insertions run, and then the table holds just
the placements.  The rows that matched one are the same as before, and no statement has touched their
paths; all others are new. -/
theorem stable_tree_delta_exact (db : Db D) {doc : NamespaceDoc} {projection : NamespaceProjection}
    (hproj : doc.materialize = .ok projection)
    (hkind : ∀ o ∈ projection.confirmedObjects, o.objectMeta.kind = .text) (updatedAt : Timestamp) :
    ∃ desired db', desiredTree projection.placements = .ok desired ∧
      Runs (writeStableNamespaceProjectionTx (D := D) doc updatedAt) db ⟨⟩ db' ∧
      (∀ d, (∃ row ∈ db'.stableTree.table, row.file = d) ↔
        ∃ p ∈ projection.placements, p.file = d) ∧
      (∀ row ∈ db.stableTree.table, (∃ p ∈ projection.placements, p.file = row.file) →
        row ∈ db'.stableTree.table ∧ row.path ∉ deletePaths db.currentTree desired ∧
          row.path ∉ (insertRows db.currentTree desired).map DesiredStableTreeFile.path) ∧
      ∀ row ∈ db'.stableTree.table, row ∈ db.stableTree.table ∨ row.updatedAt = updatedAt := by
  obtain ⟨db', hrun⟩ := exists_runs_writeStableNamespaceProjectionTx db hproj hkind updatedAt
  obtain ⟨-, hwritten, -⟩ := runs_writeStableNamespaceProjectionTx hrun
  have hsynced := hwritten.treeSynced.mem_iff
  obtain ⟨projection', desired, hproj', hdesired, hfind⟩ := hwritten
  cases hproj.symm.trans hproj'
  refine ⟨desired, db', hdesired, hrun, ?_, ?_, ?_⟩
  · obtain ⟨projection', hproj', hmem⟩ := hsynced
    cases hproj.symm.trans hproj'
    exact hmem
  · intro row hrow hplaced
    have hcurrent : db.stableTree.table.find? row.path = some row := Table.find?_key hrow
    have hwanted : desired.find? row.path = some row.file :=
      Table.find?_key ((mem_desiredTree hdesired).mpr hplaced)
    have hmatch : stableTreeRowMatchesDesired row row.file = true := by
      simp [stableTreeRowMatchesDesired, StableTreeRow.file]
    have hkept : row.path ∉ deletePaths db.currentTree desired := by
      rw [mem_deletePaths_currentTree, hcurrent, hwanted]
      rintro ⟨row', hsome, hnot⟩
      cases hsome
      rw [Option.any_some, hmatch] at hnot
      cases hnot
    refine ⟨?_, hkept, fun hinserted => ?_⟩
    · have hafter := hfind row.path
      rw [hcurrent, hwanted, renderedRow, if_pos hmatch] at hafter
      exact Table.mem_of_find? hafter
    · obtain ⟨d, hd, hpath⟩ := List.mem_map.mp hinserted
      rcases (mem_insertRows.mp hd).2 with hdeleted | hnew
      · exact hkept (hpath ▸ hdeleted)
      · rw [hpath, find?_eq_none_iff_notMem_currentTree, hcurrent] at hnew
        cases hnew
  · intro row hrow
    have hafter := hfind row.path
    rw [Table.find?_key hrow] at hafter
    unfold renderedRow at hafter
    split at hafter
    · cases hafter
    next d hd =>
      split at hafter
      next row' hrow' =>
        split_ifs at hafter
        · cases hafter
          exact .inl (Table.mem_of_find? hrow')
        · cases hafter
          exact .inr rfl
      · cases hafter
        exact .inr rfl

open Snapshots

/-- A document with two claims on one path. -/
def sharedPathDoc : NamespaceDoc :=
  NamespaceDoc.mintedOps 7 0 [.object [3] ⟨.text, [9]⟩, .claim [4] ⟨[3], rootFile 1⟩,
    .object [5] ⟨.text, [9]⟩, .claim [6] ⟨[5], rootFile 1⟩]

/-- A database in which the second claim still has the path. -/
def loserPlacedDb : Db Doc :=
  { Db.initialized Doc [9] 0 with
    stableTree := ⟨⟨[⟨rootFile 1, rootFile 1, [6], [5], 0⟩], by decide⟩, by decide⟩ }

/-- `stable_tree_delta_exact` for the first claim that takes the path over from the second one. -/
theorem stable_tree_delta_exact_loserPlaced : ∃ db',
    Runs (writeStableNamespaceProjectionTx (D := Doc) sharedPathDoc 5) loserPlacedDb ⟨⟩ db' ∧
      ∃ row ∈ db'.stableTree.table, row.file = ⟨rootFile 1, rootFile 1, [4], [3]⟩ := by
  have hok : (sharedPathDoc.materialize.toOption.any fun projection =>
      (projection.confirmedObjects.all fun o => decide (o.objectMeta.kind = .text)) &&
        (projection.placements.any fun p =>
          decide (p.file = ⟨rootFile 1, rootFile 1, [4], [3]⟩))) = true := by decide +kernel
  cases hproj : sharedPathDoc.materialize with
  | error e => rw [hproj] at hok; cases hok
  | ok projection =>
    rw [hproj] at hok
    obtain ⟨hkind, hplaced⟩ := (Bool.and_eq_true _ _).mp hok
    obtain ⟨p, hp, hfile⟩ := List.any_eq_true.mp hplaced
    obtain ⟨-, db', -, hrun, hrows, -, -⟩ := stable_tree_delta_exact loserPlacedDb hproj
      (fun o ho => of_decide_eq_true (List.all_eq_true.mp hkind o ho)) 5
    exact ⟨db', hrun, (hrows _).mpr ⟨p, hp, of_decide_eq_true hfile⟩⟩

end Opbox
