import Opbox.Crdt.PathConflicts
import Opbox.Workspace.Convergence

/-!
# What daemons can ask for together

Claims are resolved path by path, and the names for losing claims are few.  So the placements of a
document need not form a directory tree, and a losing claim may find all its names taken.  Both
theorems say exactly when this happens, and two daemons that work without seeing each other reach
both situations.
-/

namespace Opbox

/-- No path of the set lies below another one. -/
def PrefixFree (paths : Set RelativePath) : Prop :=
  ∀ p ∈ paths, ∀ q ∈ paths, p.components <+: q.components → p = q

namespace NamespaceDoc

/-- The paths of the placements. -/
def placementPaths (projection : NamespaceProjection) : Set RelativePath :=
  { q | ∃ p ∈ projection.placements, p.path = q }

/-- A path with a suffix lies beside the path, so what lies above the one lies above the other. -/
theorem prefix_of_prefix_withSuffix {path p q : RelativePath} {suffix : List Char}
    (hq : path.withSuffix suffix = .ok q) (h : p.components <+: q.components) :
    p = q ∨ (p.components <+: path.components ∧ p ≠ path) := by
  rw [RelativePath.components_of_withFileName hq, List.prefix_concat_iff] at h
  rcases h with h | h
  · exact .inl (RelativePath.components_injective
      (h.trans (RelativePath.components_of_withFileName hq).symm))
  · refine .inr ⟨h.trans (List.dropLast_prefix _), fun heq => ?_⟩
    have hle := h.length_le
    rw [heq, List.length_dropLast] at hle
    have hpos := List.length_pos_iff.mpr path.nonempty
    omega

/-- No placement lies below another one exactly if no requested path lies below another requested
path, or below the path that a losing claim is moved to. -/
theorem prefixFree_placements_iff {doc : NamespaceDoc} {projection : NamespaceProjection}
    {claims : List MaterializationClaim} (h : doc.materialize = .ok projection)
    (hclaims : doc.materializationClaims = .ok claims) :
    PrefixFree (placementPaths projection) ↔
      PrefixFree { q | q ∈ requestedPaths claims } ∧
        ∀ path suffixes,
          SuffixesGiven (requestedPaths claims) path [] (claimsAt claims path).tail suffixes →
          ∀ entry ∈ suffixes, ∀ q, path.withSuffix entry.2 = .ok q →
            ∀ r ∈ requestedPaths claims, ¬q.components <+: r.components := by
  obtain ⟨-, claims', hclaims', hplacements⟩ := materialize_eq_ok.mp h
  rw [hclaims, Except.ok.injEq] at hclaims'
  subst hclaims'
  have hmem : ∀ q, q ∈ placementPaths projection ↔ q ∈ requestedPaths claims ∨
      ∃ path suffixes,
        SuffixesGiven (requestedPaths claims) path [] (claimsAt claims path).tail suffixes ∧
        ∃ entry ∈ suffixes, path.withSuffix entry.2 = .ok q := fun q =>
    mem_map_deriveVisiblePlacements_iff hplacements
  constructor
  · intro hfree
    refine ⟨fun p hp q hq => hfree p ((hmem p).mpr (.inl hp)) q ((hmem q).mpr (.inl hq)), ?_⟩
    intro path suffixes hgiven entry hentry q hq r hr hbelow
    have hsame := hfree q ((hmem q).mpr (.inr ⟨path, suffixes, hgiven, entry, hentry, hq⟩)) r
      ((hmem r).mpr (.inl hr)) hbelow
    subst hsame
    exact hgiven.not_requested hentry ⟨q, hr, hq⟩
  · rintro ⟨hrequested, hclear⟩ p hp q hq hbelow
    -- What lies above a placement lies above a requested path, or is the placement.
    have habove : ∀ p, p ∈ requestedPaths claims ∨ (∃ path suffixes,
          SuffixesGiven (requestedPaths claims) path [] (claimsAt claims path).tail suffixes ∧
          ∃ entry ∈ suffixes, path.withSuffix entry.2 = .ok p) →
        ∀ r ∈ requestedPaths claims, p.components <+: r.components → p = r := by
      rintro p (hp | ⟨path, suffixes, hgiven, entry, hentry, hp⟩) r hr hbelow
      · exact hrequested p hp r hr hbelow
      · exact absurd hbelow (hclear path suffixes hgiven entry hentry p hp r hr)
    rcases (hmem q).mp hq with hreq | ⟨path, suffixes, hgiven, entry, hentry, hmoved⟩
    · exact habove p ((hmem p).mp hp) q hreq hbelow
    · rcases prefix_of_prefix_withSuffix hmoved hbelow with hsame | ⟨hpath, hne⟩
      · exact hsame
      · have hpathRequested : path ∈ requestedPaths claims := by
          cases hat : claimsAt claims path with
          | nil =>
            rw [hat] at hgiven
            cases hgiven
            cases hentry
          | cons c cs =>
            have hc := mem_claimsAt.mp (hat ▸ List.mem_cons_self : c ∈ claimsAt claims path)
            exact mem_requestedPaths.mpr ⟨c, hc.1, hc.2⟩
        exact absurd (habove p ((hmem p).mp hp) path hpathRequested hpath) hne

end NamespaceDoc

/-! ## A file below a file -/

open Snapshots Workspace

/-- A document with two claims on one path. -/
def conflictDoc : NamespaceDoc :=
  NamespaceDoc.mintedOps 77 0 [.object [3] ⟨.text, [9]⟩, .claim [4] ⟨[3], rootFile 1⟩,
    .object [5] ⟨.text, [9]⟩, .claim [6] ⟨[5], rootFile 1⟩]

/-- `prefixFree_placements_iff` for this document. -/
theorem prefixFree_placements_iff_conflictDoc : ∃ projection claims,
    conflictDoc.materialize = .ok projection ∧ conflictDoc.materializationClaims = .ok claims ∧
      (PrefixFree (NamespaceDoc.placementPaths projection) ↔
        PrefixFree { q | q ∈ requestedPaths claims } ∧
          ∀ path suffixes,
            SuffixesGiven (requestedPaths claims) path [] (claimsAt claims path).tail suffixes →
            ∀ entry ∈ suffixes, ∀ q, path.withSuffix entry.2 = .ok q →
              ∀ r ∈ requestedPaths claims, ¬q.components <+: r.components) := by
  have hok : conflictDoc.materialize.toOption.isSome = true := by decide +kernel
  cases hproj : conflictDoc.materialize with
  | error e =>
    rw [hproj] at hok
    cases hok
  | ok projection =>
    obtain ⟨-, claims, hclaims, -⟩ := NamespaceDoc.materialize_eq_ok.mp hproj
    exact ⟨projection, claims, rfl, hclaims, NamespaceDoc.prefixFree_placements_iff hproj hclaims⟩

/-- The first import of a daemon whose sync root has one file. -/
def importFile (i : Fin 2) (path : RelativePath) (objectId : ObjectId)
    (claimId : NamespaceClaimId) : List (WorkspaceAction (Fin 2) Doc) :=
  [.serve i (.applyInitScan (scanOf .full [(path, fileStat 7 2 0)])),
    .serve i (.commitImportAction (.read ⟨0, 0⟩ (.completed (.read [104, 105]
      (.statAndContent (fileStat 7 2 0) [104, 105])))) 0 objectId claimId),
    .serve i (.commitImportEpoch 0)]

/-- One daemon imports a file, the other one a file in a directory of that name, and the first one
reads what the second one has published. -/
def nestedRun : List (WorkspaceAction (Fin 2) Doc) :=
  importFile 0 (rootFile 1) [1] [2] ++ importFile 1 (fileIn 1 2) [3] [4] ++
    [.append 1 0 0, .append 1 1 0, .read 0 2]

/-- The placements of a daemon need not be prefix free. -/
theorem not_prefixFree_placements : ¬∀ w : Workspace (Fin 2) Doc,
    (workspaceMachine twoWriters).Reached w → ∀ i projection,
      (w.daemons i).db.stableNamespace.materialize = .ok projection →
        PrefixFree (NamespaceDoc.placementPaths projection) := by
  intro hall
  have hrun : ((workspaceMachine twoWriters).exec twoDaemons nestedRun).any (fun w =>
      (w.daemons 0).db.stableNamespace.materialize.toOption.any fun projection =>
        decide (rootFile 1 ∈ projection.placements.map DesiredPlacement.path ∧
          fileIn 1 2 ∈ projection.placements.map DesiredPlacement.path)) = true := by
    decide +kernel
  obtain ⟨w, hw, hany⟩ := Machine.exists_exec hrun
  cases hproj : (w.daemons 0).db.stableNamespace.materialize with
  | error e =>
    rw [hproj] at hany
    cases hany
  | ok projection =>
    rw [hproj] at hany
    obtain ⟨hfile, hbelow⟩ := of_decide_eq_true hany
    have hreach := Machine.reached_of_exec (M := workspaceMachine twoWriters) (s := twoDaemons)
      ⟨rfl, fun _ => rfl⟩ hw
    have hsame := hall w hreach 0 projection hproj (rootFile 1) (List.mem_map.mp hfile) (fileIn 1 2)
      (List.mem_map.mp hbelow) (by decide)
    exact absurd hsame (by decide)

/-! ## Names that are all taken -/

namespace NamespaceDoc

/-- Every active claim has a record, and its object has metadata. -/
def WellFormed (doc : NamespaceDoc) : Prop :=
  ∀ id ∈ doc.activeClaimIds, ∃ record objectMeta, doc.getClaim id = some record ∧
    doc.getObject record.objectId = some objectMeta

/-- A well-formed document has its claims. -/
theorem WellFormed.exists_claims {doc : NamespaceDoc} (h : doc.WellFormed) :
    ∃ claims, doc.materializationClaims = .ok claims := by
  refine materializationClaims_ok fun id hid => ?_
  obtain ⟨record, objectMeta, hrecord, hmeta⟩ := h id hid
  exact ⟨⟨id, record.objectId, record.path, objectMeta⟩,
    materializationClaim_eq_ok.mpr ⟨rfl, hrecord, hmeta⟩⟩

/-- A well-formed document is materialized exactly if on every path each losing claim, in turn, has
a suffix that gives no requested path and that no claim before it got. -/
theorem exists_materialize_iff {doc : NamespaceDoc} (h : doc.WellFormed) :
    (∃ projection, doc.materialize = .ok projection) ↔
      ∀ claims, doc.materializationClaims = .ok claims → ∀ path, ∃ suffixes,
        SuffixesGiven (requestedPaths claims) path [] (claimsAt claims path).tail suffixes := by
  obtain ⟨claims, hclaims⟩ := h.exists_claims
  obtain ⟨objects, hobjects⟩ := doc.confirmedObjects_ok
  constructor
  · rintro ⟨projection, hproj⟩ claims' hclaims'
    obtain ⟨-, claims'', hclaims'', hplacements⟩ := materialize_eq_ok.mp hproj
    rw [hclaims', Except.ok.injEq] at hclaims''
    subst hclaims''
    exact exists_deriveVisiblePlacements_iff.mp ⟨_, hplacements⟩
  · intro hall
    obtain ⟨placements, hplacements⟩ := exists_deriveVisiblePlacements_iff.mpr (hall claims hclaims)
    exact ⟨⟨objects, placements⟩, materialize_eq_ok.mpr ⟨hobjects, claims, hclaims, hplacements⟩⟩

end NamespaceDoc

theorem exists_meta_of_isSome {doc : NamespaceDoc} {id : NamespaceClaimId}
    (h : ((doc.getClaim id).bind fun record => doc.getObject record.objectId).isSome = true) :
    ∃ record objectMeta, doc.getClaim id = some record ∧
      doc.getObject record.objectId = some objectMeta := by
  obtain ⟨objectMeta, hmeta⟩ := Option.isSome_iff_exists.mp h
  obtain ⟨record, hrecord, hobject⟩ := Option.bind_eq_some_iff.mp hmeta
  exact ⟨record, objectMeta, hrecord, hobject⟩

/-- `exists_materialize_iff` for a document with two claims on one path. -/
theorem exists_materialize_iff_conflictDoc :
    (∃ projection, conflictDoc.materialize = .ok projection) ↔
      ∀ claims, conflictDoc.materializationClaims = .ok claims → ∀ path, ∃ suffixes,
        SuffixesGiven (requestedPaths claims) path [] (claimsAt claims path).tail suffixes := by
  refine NamespaceDoc.exists_materialize_iff fun id hid => ?_
  have hall : ∀ id ∈ conflictDoc.activeClaimIds, ((conflictDoc.getClaim id).bind fun record =>
      conflictDoc.getObject record.objectId).isSome = true := by decide +kernel
  exact exists_meta_of_isSome (hall id hid)

/-- A claim of the second daemon. -/
def secondClaim : MaterializationClaim :=
  ⟨List.replicate 16 2, List.replicate 16 1, rootFile 1, ⟨.text, twoWriters.id 1⟩⟩

/-- The paths it could be moved to. -/
def secondClaimPaths : List RelativePath :=
  (conflictSuffixes secondClaim).filterMap fun suffix => ((rootFile 1).withSuffix suffix).toOption

/-- The second daemon imports its file, and later five files that have the names this file would get
if it lost its path.  Meanwhile the first daemon imports a file of the same name. -/
def namesTakenRun : List (WorkspaceAction (Fin 2) Doc) :=
  importFile 1 (rootFile 1) secondClaim.objectId secondClaim.claimId ++
    [.serve 1 (.applyScan (scanOf .full ((rootFile 1, fileStat 7 2 0) ::
      secondClaimPaths.zipIdx.map fun file => (file.1, fileStat (8 + file.2) 2 0))) 1)] ++
    (List.range 5).map (fun seq => .serve 1 (.commitImportAction (.read ⟨1, seq⟩ (.completed
      (.read [104, 105] (.statAndContent (fileStat (8 + seq) 2 0) [104, 105])))) 2
      [5, Fin.ofNat 256 seq] [6, Fin.ofNat 256 seq])) ++
    [.serve 1 (.commitImportEpoch 3)] ++ importFile 0 (rootFile 1) [3] [4] ++
    [.append 0 0 0, .append 0 1 0]

/-- What two daemons have produced together need not have a materialization, although every claim
names an object with metadata; the second daemon then cannot apply the records of the first one. -/
theorem not_exists_materialize : ∃ w : Workspace (Fin 2) Doc,
    (workspaceMachine twoWriters).exec twoDaemons namesTakenRun = some w ∧
      ((w.daemons 0).db.stableNamespace.applyUpdate (w.daemons 1).db.stableNamespace).WellFormed ∧
      (¬∃ projection, ((w.daemons 0).db.stableNamespace.applyUpdate
        (w.daemons 1).db.stableNamespace).materialize = .ok projection) ∧
      w.step (.read 1 2) = none := by
  have hrun : ((workspaceMachine twoWriters).exec twoDaemons namesTakenRun).any (fun w =>
      let doc := (w.daemons 0).db.stableNamespace.applyUpdate (w.daemons 1).db.stableNamespace
      decide ((∀ id ∈ doc.activeClaimIds,
          ((doc.getClaim id).bind fun record => doc.getObject record.objectId).isSome = true) ∧
        doc.materialize.toOption.isSome = false ∧ (w.step (.read 1 2)).isNone = true)) = true := by
    decide +kernel
  obtain ⟨w, hw, hlast⟩ := Machine.exists_exec hrun
  obtain ⟨hwell, hnone, hstep⟩ := of_decide_eq_true hlast
  refine ⟨w, hw, fun id hid => exists_meta_of_isSome (hwell id hid), ?_,
    Option.isNone_iff_eq_none.mp hstep⟩
  rintro ⟨projection, hproj⟩
  rw [hproj] at hnone
  cases hnone

end Opbox
