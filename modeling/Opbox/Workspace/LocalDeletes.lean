import Opbox.Workspace.Placements

/-!
# Local deletes

A scan that misses the file of a live prior row removes the claim that the row records.  The object
leaves the path exactly if none of its other claims holds the path then: by being the first on it, or
by being moved there.  The row records the claim under which the file was accepted, and no projection
refreshes it while the object and its text stay; so after a delete and a re-creation elsewhere the
local delete removes a claim that is gone, and the file comes back.
-/

namespace Opbox

/-! ## Removing claims from a document -/

namespace NamespaceDoc

variable {doc removals : NamespaceDoc} {claims : List MaterializationClaim}

/-- The document only removes claims. -/
def OnlyRemoves (doc : NamespaceDoc) : Prop := ∀ op ∈ doc, ∃ id, op.entry = .removed id

theorem activeClaimIds_union (h : OnlyRemoves removals) :
    (doc ∪ removals).activeClaimIds = doc.activeClaimIds \ removals.removedClaimIds := by
  have hclaims : removals.claimIds = ∅ := by
    rw [Finset.eq_empty_iff_forall_notMem]
    intro id hid
    obtain ⟨op, hop, hclaim⟩ := mem_values.mp hid
    obtain ⟨removed, hentry⟩ := h op hop
    rw [hentry] at hclaim
    cases hclaim
  have hunion : (doc ∪ removals).claimIds = doc.claimIds := by
    rw [claimIds, values_union]
    show doc.claimIds ∪ removals.claimIds = _
    rw [hclaims, Finset.union_empty]
  have hremoved : (doc ∪ removals).removedClaimIds =
      doc.removedClaimIds ∪ removals.removedClaimIds := values_union _
  rw [activeClaimIds, hunion, hremoved, activeClaimIds, Finset.sdiff_union_distrib]
  ext id
  simp only [Finset.mem_inter, Finset.mem_sdiff]
  tauto

/-- Removing claims changes neither the records nor the objects. -/
theorem materializationClaim_union (h : OnlyRemoves removals) (id : NamespaceClaimId) :
    (doc ∪ removals).materializationClaim id = doc.materializationClaim id := by
  have hclaim : (doc ∪ removals).getClaim id = doc.getClaim id := mapGet_union fun op hop => by
    obtain ⟨removed, hentry⟩ := h op hop
    rw [hentry]
    rfl
  have hobject : ∀ object, (doc ∪ removals).getObject object = doc.getObject object := fun object =>
    mapGet_union fun op hop => by
      obtain ⟨removed, hentry⟩ := h op hop
      rw [hentry]
      rfl
  rw [materializationClaim, materializationClaim, hclaim]
  simp only [hobject]

/-- The claims of a materialization are listed in their order. -/
theorem pairwise_materializationClaims (h : doc.materializationClaims = .ok claims) :
    claims.Pairwise (· ≤ ·) := by
  unfold materializationClaims at h
  cases hm : (sortedList doc.activeClaimIds).mapM doc.materializationClaim with
  | error e =>
    rw [hm] at h
    cases h
  | ok cs =>
    rw [hm] at h
    cases h
    exact List.pairwise_insertionSort _ _

/-- Every active claim can be placed, if the claims can be collected. -/
theorem exists_materializationClaim (h : doc.materializationClaims = .ok claims)
    {id : NamespaceClaimId} (hid : id ∈ doc.activeClaimIds) :
    ∃ c, doc.materializationClaim id = .ok c := by
  unfold materializationClaims at h
  cases hm : (sortedList doc.activeClaimIds).mapM doc.materializationClaim with
  | error e =>
    rw [hm] at h
    cases h
  | ok cs =>
    obtain ⟨n, hn, hget⟩ := List.mem_iff_getElem.mp (mem_sortedList.mpr hid)
    have hall := mapM_eq_ok_iff.mp hm
    have hc := hall.get hn (hall.length_eq ▸ hn)
    rw [List.get_eq_getElem, hget] at hc
    exact ⟨_, hc⟩

/-- Without the removed claims the others are as before. -/
theorem materializationClaims_union (h : OnlyRemoves removals)
    (hclaims : doc.materializationClaims = .ok claims) :
    (doc ∪ removals).materializationClaims =
      .ok (claims.filter fun c => c.claimId ∉ removals.removedClaimIds) := by
  obtain ⟨claims', hclaims'⟩ : ∃ claims', (doc ∪ removals).materializationClaims = .ok claims' := by
    refine materializationClaims_ok fun id hid => ?_
    rw [activeClaimIds_union h] at hid
    rw [materializationClaim_union h]
    exact exists_materializationClaim hclaims (Finset.mem_sdiff.mp hid).1
  rw [hclaims', Except.ok.injEq]
  have hperm : claims'.Perm (claims.filter fun c => c.claimId ∉ removals.removedClaimIds) := by
    refine (List.perm_ext_iff_of_nodup (nodup_materializationClaims hclaims').of_map
      ((nodup_materializationClaims hclaims).of_map.filter _)).mpr fun c => ?_
    rw [List.mem_filter, mem_materializationClaims hclaims', mem_materializationClaims hclaims,
      activeClaimIds_union h, materializationClaim_union h, Finset.mem_sdiff, decide_eq_true_eq]
    tauto
  exact hperm.eq_of_pairwise (fun _ _ _ _ => le_antisymm) (pairwise_materializationClaims hclaims')
    ((pairwise_materializationClaims hclaims).filter _)

end NamespaceDoc

/-! ## What holds a path -/

/-- One of the claims places the object at the path: it is the first on it, or it loses another path
and is moved there. -/
def HoldsPath (claims : List MaterializationClaim) (id : ObjectId) (path : RelativePath) : Prop :=
  (∃ c, (claimsAt claims path).head? = some c ∧ c.objectId = id) ∨
    ∃ requested suffixes,
      SuffixesGiven (requestedPaths claims) requested [] (claimsAt claims requested).tail suffixes ∧
      ∃ entry ∈ suffixes, entry.1.objectId = id ∧ requested.withSuffix entry.2 = .ok path

theorem exists_placement_iff {claims : List MaterializationClaim}
    {placements : List DesiredPlacement} (h : deriveVisiblePlacements claims = .ok placements)
    {id : ObjectId} {path : RelativePath} :
    (∃ p ∈ placements, p.path = path ∧ p.objectId = id) ↔ HoldsPath claims id path := by
  simp only [mem_deriveVisiblePlacements_iff h]
  constructor
  · rintro ⟨p, ⟨c, hc, rfl⟩ | ⟨requested, suffixes, hgiven, entry, hentry, q, hq, rfl⟩, rfl, rfl⟩
    · exact .inl ⟨c, hc, rfl⟩
    · exact .inr ⟨requested, suffixes, hgiven, entry, hentry, rfl, hq⟩
  · rintro (⟨c, hc, rfl⟩ | ⟨requested, suffixes, hgiven, entry, hentry, rfl, hq⟩)
    · have hpath := (mem_claimsAt.mp (List.mem_of_mem_head? hc)).2
      exact ⟨c.placeAt c.path, .inl ⟨c, by rw [hpath]; exact hc, rfl⟩, hpath, rfl⟩
    · exact ⟨entry.1.placeAt path, .inr ⟨requested, suffixes, hgiven, entry, hentry, path, hq, rfl⟩,
        rfl, rfl⟩

variable {ι D : Type} [TextCrdt D]

omit [TextCrdt D] in
/-- The stable tree places an object at a path if a claim of the namespace holds the path for it. -/
theorem TreeSynced.exists_row_iff {db : Db D} (h : TreeSynced db.stableTree db.stableNamespace)
    {claims : List MaterializationClaim}
    (hclaims : db.stableNamespace.materializationClaims = .ok claims) {id : ObjectId}
    {path : RelativePath} :
    (∃ row, db.stableTreeFile path = some row ∧ row.objectId = id) ↔ HoldsPath claims id path := by
  obtain ⟨projection, hproj, hmem⟩ := h.mem_iff
  obtain ⟨-, claims', hclaims', hplacements⟩ := NamespaceDoc.materialize_eq_ok.mp hproj
  rw [hclaims, Except.ok.injEq] at hclaims'
  subst hclaims'
  rw [← exists_placement_iff hplacements]
  constructor
  · rintro ⟨row, hrow, rfl⟩
    obtain ⟨p, hp, hfile⟩ := (hmem row.file).mp ⟨row, Table.mem_of_find? hrow, rfl⟩
    refine ⟨p, hp, ?_, congrArg DesiredStableTreeFile.objectId hfile⟩
    have hpath : row.path = path := Table.key_of_find? hrow
    exact (congrArg DesiredStableTreeFile.path hfile).trans hpath
  · rintro ⟨p, hp, rfl, rfl⟩
    obtain ⟨row, hrow, hfile⟩ := (hmem p.file).mpr ⟨p, hp, rfl⟩
    have hpath : row.path = p.path := congrArg DesiredStableTreeFile.path hfile
    exact ⟨row, Table.find?_eq_some_iff.mpr ⟨hrow, hpath⟩,
      congrArg DesiredStableTreeFile.objectId hfile⟩

/-- The claims that the live rows record whose files a scan misses. -/
def Db.missingClaims (db : Db D) (scan : ScanResult) : List NamespaceClaimId :=
  (db.missingPrior scan).map PriorTreeRow.claimId

omit [TextCrdt D] in
theorem mem_removedClaimIds_removalOps {db : Db D} {rows : List PriorTreeRow}
    {id : NamespaceClaimId} :
    id ∈ (db.removalOps rows).removedClaimIds ↔ id ∈ rows.map PriorTreeRow.claimId := by
  rw [NamespaceDoc.removedClaimIds, NamespaceDoc.mem_values, List.mem_map]
  constructor
  · rintro ⟨op, hop, hid⟩
    obtain ⟨-, -, hentry⟩ := NamespaceDoc.mem_mintedOps hop
    obtain ⟨row, hrow, heq⟩ := List.mem_map.mp hentry
    rw [← heq] at hid
    cases hid
    exact ⟨row, hrow, rfl⟩
  · rintro ⟨row, hrow, rfl⟩
    obtain ⟨op, hop, hentry⟩ := NamespaceDoc.exists_mem_mintedOps (clientIdForWriter db.writerId)
      (db.priorNamespace.stateVector (clientIdForWriter db.writerId))
      (List.mem_map_of_mem hrow : NsEntry.removed row.claimId ∈ removals rows)
    exact ⟨op, hop, by rw [hentry]; rfl⟩

omit [TextCrdt D] in
theorem onlyRemoves_removalOps {db : Db D} (rows : List PriorTreeRow) :
    (db.removalOps rows).OnlyRemoves := by
  intro op hop
  obtain ⟨-, -, hentry⟩ := NamespaceDoc.mem_mintedOps hop
  obtain ⟨row, -, heq⟩ := List.mem_map.mp hentry
  exact ⟨row.claimId, heq.symm⟩

omit [TextCrdt D] in
/-- After local deletes the stable tree places an object at a path if a claim that was not removed
holds the path for it. -/
theorem LocallyDeleted.exists_row_iff {db db' : Db D} {rows : List PriorTreeRow} {now : Timestamp}
    (h : LocallyDeleted db db' rows now) (hdb : TreeSynced db.stableTree db.stableNamespace)
    {claims : List MaterializationClaim}
    (hclaims : db.stableNamespace.materializationClaims = .ok claims) {id : ObjectId}
    {path : RelativePath} :
    (∃ row, db'.stableTreeFile path = some row ∧ row.objectId = id) ↔
      HoldsPath (claims.filter fun c => c.claimId ∉ rows.map PriorTreeRow.claimId) id path := by
  have hns : db'.stableNamespace = db.stableNamespace ∪ db.removalOps rows := by rw [h.eq]
  have hclaims' : db'.stableNamespace.materializationClaims =
      .ok (claims.filter fun c => c.claimId ∉ rows.map PriorTreeRow.claimId) := by
    rw [hns, NamespaceDoc.materializationClaims_union (onlyRemoves_removalOps rows) hclaims]
    simp only [mem_removedClaimIds_removalOps]
  exact (h.treeSynced hdb).exists_row_iff hclaims'

/-! ## Deletes in a workspace -/

section Runs

variable [DecidableEq ι] [CharDiff] [Xxh3] [DecidableEq D] {writers : WriterIds ι}
  {w w' : Workspace ι D}

/-- After a scan the stable tree does not place an object at a path, and no projection writes it
there, exactly if no claim holds the path for the object besides those that the live rows record
whose files are missing. -/
theorem delete_takes_effect_iff (h : (workspaceMachine writers).Reached w) {i : ι} {scan : ScanResult}
    {now : Timestamp} (hstep : w.step (.serve i (.applyScan scan now)) = some w')
    {claims : List MaterializationClaim}
    (hclaims : (w.daemons i).db.stableNamespace.materializationClaims = .ok claims)
    (path : RelativePath) (id : ObjectId) :
    ((∀ row, (w'.daemons i).db.stableTreeFile path = some row → row.objectId ≠ id) ∧
      ∀ planned ∈ (w'.daemons i).db.plannedProjections, ∀ bytes expected,
        planned.1 = .writeFile path bytes expected → planned.2.objectId ≠ id) ↔
      ¬HoldsPath (claims.filter fun c => c.claimId ∉ (w.daemons i).db.missingClaims scan) id path := by
  have hsynced := ((Workspace.inStep_of_reached h).daemon i).treeSynced
  unfold Workspace.step at hstep
  dsimp only at hstep
  split_ifs at hstep
  obtain ⟨s, hs, rfl⟩ := Option.map_eq_some_iff.mp hstep
  rw [Workspace.setDaemon_daemons_self]
  have hserved := served_of_step hs
  cases hserved with
  | @applyScan _ _ output db hidle hrun =>
    rw [Db.missingClaims, ← (runs_applyScan hrun).1.exists_row_iff hsynced hclaims]
    constructor
    · rintro ⟨hrows, -⟩ ⟨row, hrow, hid⟩
      exact hrows row hrow hid
    · intro hnone
      refine ⟨fun row hrow hid => hnone ⟨row, hrow, hid⟩, ?_⟩
      intro planned hplanned bytes expected hkind hid
      rw [Db.plannedProjections, List.mem_append, List.mem_map, List.mem_map] at hplanned
      rcases hplanned with ⟨⟨row, before⟩, hrow, rfl⟩ | ⟨prior, -, rfl⟩
      · obtain ⟨row', hrow', hexpected⟩ := List.mem_filterMap.mp hrow
        obtain ⟨before', -, heq⟩ := Option.map_eq_some_iff.mp hexpected
        cases heq
        cases hkind
        exact hnone ⟨row, Table.find?_key (Db.mem_stableTreeFiles.mp hrow'), hid⟩
      · cases hkind

end Runs

open Snapshots Workspace

/-- `delete_takes_effect_iff` where a daemon scans its root without the file it has imported. -/
theorem delete_takes_effect_iff_importFile :
    ∃ (w w' : Workspace (Fin 2) Doc) (claims : List MaterializationClaim),
    ((∀ row, (w'.daemons 0).db.stableTreeFile (rootFile 1) = some row → row.objectId ≠ [1]) ∧
      ∀ planned ∈ (w'.daemons 0).db.plannedProjections, ∀ bytes expected,
        planned.1 = .writeFile (rootFile 1) bytes expected → planned.2.objectId ≠ [1]) ↔
      ¬HoldsPath (claims.filter fun c =>
        c.claimId ∉ (w.daemons 0).db.missingClaims (scanOf .full []))
        [1] (rootFile 1) := by
  have hrun : ((workspaceMachine twoWriters).exec twoDaemons (importFile 0 (rootFile 1) [1] [2])).any
      (fun w => (w.step (.serve 0 (.applyScan (scanOf .full []) 1))).isSome &&
        (w.daemons 0).db.stableNamespace.materializationClaims.toOption.isSome) = true := by
    decide +kernel
  obtain ⟨w, hw, hlast⟩ := Machine.exists_exec hrun
  obtain ⟨hstep, hclaims⟩ := Bool.and_eq_true_iff.mp hlast
  obtain ⟨w', hw'⟩ := Option.isSome_iff_exists.mp hstep
  cases h : (w.daemons 0).db.stableNamespace.materializationClaims with
  | error e =>
    rw [h] at hclaims
    cases hclaims
  | ok claims =>
    have hreach := Machine.reached_of_exec (M := workspaceMachine twoWriters) (s := twoDaemons)
      ⟨rfl, fun _ => rfl⟩ hw
    exact ⟨w, w', claims, delete_takes_effect_iff hreach hw' h (rootFile 1) [1]⟩

/-- The fingerprint of the file of a run, by its inode. -/
def inodeFingerprint (inode : Nat) : FileFingerprint :=
  .statAndContent (fileStat inode 2 0) [104, 105]

/-- The second daemon deletes and re-creates a file of the first one, which reads this; the object
and the text stay, so that the first daemon has nothing to project. -/
def recreateRun : List (WorkspaceAction (Fin 2) Doc) :=
  importFile 0 (rootFile 1) [1] [2] ++ [.append 0 0 0, .append 0 1 0, .read 1 2,
    .serve 1 .getNextWork,
    .serve 1 (.commitProjectionAction (.writeFile ⟨0, 0⟩ (.written (inodeFingerprint 8)))),
    .serve 1 (.commitProjectionEpoch .planExhausted 1),
    .serve 1 (.applyScan (scanOf .full []) 2),
    .serve 1 (.applyScan (scanOf .full [(rootFile 1, fileStat 9 2 0)]) 3),
    .serve 1 (.commitImportAction (.read ⟨1, 0⟩ (.completed (.read [104, 105]
      (inodeFingerprint 9)))) 4 [7] [4]),
    .serve 1 (.commitImportEpoch 5), .append 1 0 0, .append 1 1 0, .read 0 4,
    .serve 0 .getNextWork]

/-- A local delete need not take effect: the scan misses the file of a live row, the stable tree has
the object of the row at its path, and has it there after the scan. -/
theorem not_delete_takes_effect : ¬∀ w w' : Workspace (Fin 2) Doc,
    (workspaceMachine twoWriters).Reached w → ∀ i scan now,
      w.step (.serve i (.applyScan scan now)) = some w' →
      ∀ row ∈ (w.daemons i).db.missingPrior scan, ∀ stable,
        (w.daemons i).db.stableTreeFile row.path = some stable → stable.objectId = row.objectId →
        ∀ stable', (w'.daemons i).db.stableTreeFile row.path = some stable' →
          stable'.objectId ≠ row.objectId := by
  intro hall
  have hrun : ((workspaceMachine twoWriters).exec twoDaemons recreateRun).any (fun w =>
      (w.step (.serve 0 (.applyScan (scanOf .full []) 9))).any fun w' =>
        decide (∃ row ∈ (w.daemons 0).db.missingPrior (scanOf .full []), row.path = rootFile 1 ∧
          row.objectId = [1] ∧
          ((w.daemons 0).db.stableTreeFile (rootFile 1)).map StableTreeRow.objectId = some [1] ∧
          ((w'.daemons 0).db.stableTreeFile (rootFile 1)).map StableTreeRow.objectId =
            some [1])) = true := by
    decide +kernel
  obtain ⟨w, hw, hany⟩ := Machine.exists_exec hrun
  obtain ⟨w', hw', hlast⟩ := Option.any_eq_true _ _ |>.mp hany
  obtain ⟨row, hrow, hpath, hid, hbefore, hafter⟩ := of_decide_eq_true hlast
  obtain ⟨stable, hstable, hobject⟩ := Option.map_eq_some_iff.mp hbefore
  obtain ⟨stable', hstable', hobject'⟩ := Option.map_eq_some_iff.mp hafter
  have hreach := Machine.reached_of_exec (M := workspaceMachine twoWriters) (s := twoDaemons)
    ⟨rfl, fun _ => rfl⟩ hw
  refine hall w w' hreach 0 (scanOf .full []) 9 hw' row hrow stable ?_ ?_ stable' ?_ ?_
  · rw [hpath, hstable]
  · rw [hobject, hid]
  · rw [hpath, hstable']
  · rw [hobject', hid]

end Opbox
