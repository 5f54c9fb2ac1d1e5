import Opbox.Semantic.DiskStep
import Opbox.Semantic.SqlRows
import Opbox.Semantic.StableTreeDelta

/-!
# Wall clocks

A row of the prior tree carries the time it was accepted at and, once it is tombstoned, the time it was
deleted at.  Both are readings of the wall clock, taken in different transactions, and the schema refuses
a row that was deleted before it was accepted.  So a scan or a projection that tombstones rows commits at
a reading of the clock exactly if none of these rows was accepted later than that.  What is stored is
always in order, whatever the clock did.
-/

namespace Opbox

variable {D : Type}

/-! ## Tombstones -/

section Tombstones

variable {db db' : Db D} {now : Timestamp}

/-- A path can be tombstoned exactly if its live row was not accepted later. -/
theorem exists_tombstone_iff {path : RelativePath} :
    (∃ db', Runs (tombstonePriorTreeFile (D := D) path now) db ⟨⟩ db') ↔
      ∀ r ∈ db.priorTreeLiveFile path, r.acceptedAt ≤ now := by
  have hcheck : (db.priorTreeLiveFile path).any (fun r => decide (now < r.acceptedAt)) = true ↔
      ¬∀ r ∈ db.priorTreeLiveFile path, r.acceptedAt ≤ now := by
    rw [Option.any_eq_true]
    simp only [decide_eq_true_eq, not_forall, not_le, exists_prop, Option.mem_def]
  simp only [tombstonePriorTreeFile, Runs.bind_iff, Runs.get_iff, Runs.ite_iff, Runs.throw_iff,
    and_false, false_or, runs_set_iff]
  constructor
  · rintro ⟨db', db, _, ⟨rfl, rfl⟩, hpassed, -⟩
    exact not_not.mp fun hlate => hpassed (hcheck.mpr hlate)
  · intro hclock
    exact ⟨_, db, db, ⟨rfl, rfl⟩, fun hlate => hcheck.mp hlate hclock, rfl⟩

/-- Tombstoning a path leaves the live rows of the others. -/
theorem priorTreeLiveFile_of_tombstone {path : RelativePath} {u : PUnit}
    (h : Runs (tombstonePriorTreeFile (D := D) path now) db u db') (path' : RelativePath) :
    db'.priorTreeLiveFile path' = if path = path' then none else db.priorTreeLiveFile path' := by
  rw [runs_tombstonePriorTreeFile h]
  exact priorTreeLiveFile_deleteAccepted path'

/-- Different live rows are tombstoned exactly if none was accepted later. -/
theorem exists_tombstones_iff {rows : List PriorTreeRow} (hpaths : (rows.map PriorTreeRow.path).Nodup)
    (hlive : ∀ r ∈ rows, db.priorTreeLiveFile r.path = some r) :
    (∃ db', Runs (forM rows fun r => tombstonePriorTreeFile (D := D) r.path now) db ⟨⟩ db') ↔
      ∀ r ∈ rows, r.acceptedAt ≤ now := by
  induction rows generalizing db with
  | nil => exact ⟨fun _ => nofun, fun _ => ⟨db, Runs.forM_nil_iff.mpr rfl⟩⟩
  | cons row rows ih =>
    rw [List.map_cons, List.nodup_cons] at hpaths
    have hrow := hlive row List.mem_cons_self
    -- After the first row the others are still live.
    have hrest : ∀ t, Runs (tombstonePriorTreeFile (D := D) row.path now) db ⟨⟩ t →
        ∀ r ∈ rows, t.priorTreeLiveFile r.path = some r := by
      intro t ht r hr
      have hne : row.path ≠ r.path := fun heq => hpaths.1 (heq ▸ List.mem_map_of_mem hr)
      rw [priorTreeLiveFile_of_tombstone ht, if_neg hne]
      exact hlive r (List.mem_cons_of_mem _ hr)
    have hfirst : (∃ t, Runs (tombstonePriorTreeFile (D := D) row.path now) db ⟨⟩ t) ↔
        row.acceptedAt ≤ now := by
      rw [exists_tombstone_iff, hrow]
      exact ⟨fun h => h row rfl, fun h r hr => by cases hr; exact h⟩
    simp only [Runs.forM_cons_iff, List.forall_mem_cons]
    constructor
    · rintro ⟨db', t, ht, hrun⟩
      exact ⟨hfirst.mp ⟨t, ht⟩, (ih hpaths.2 (hrest t ht)).mp ⟨db', hrun⟩⟩
    · rintro ⟨hclock, hclocks⟩
      obtain ⟨t, ht⟩ := hfirst.mpr hclock
      obtain ⟨db', hrun⟩ := (ih hpaths.2 (hrest t ht)).mpr hclocks
      exact ⟨db', t, ht, hrun⟩

end Tombstones

/-! ## Scans -/

section Scans

variable {db : Db D} {scan : ScanResult} {now₀ now : Timestamp}

/-- Local deletes that commit at some reading of the clock commit at another one exactly if none of the
rows was accepted later. -/
theorem exists_localDeletes_iff {rows : List PriorTreeRow} {n : Nat} {db₀ : Db D}
    (hpaths : (rows.map PriorTreeRow.path).Nodup)
    (hlive : ∀ r ∈ rows, db.priorTreeLiveFile r.path = some r)
    (h : Runs (applyMissingPriorPathsAsLocalDeletesTx (D := D) rows now₀) db n db₀) :
    (∃ n db', Runs (applyMissingPriorPathsAsLocalDeletesTx (D := D) rows now) db n db') ↔
      ∀ r ∈ rows, r.acceptedAt ≤ now := by
  by_cases hrows : rows = []
  · subst hrows
    refine ⟨fun _ => nofun, fun _ => ⟨0, db, ?_⟩⟩
    unfold applyMissingPriorPathsAsLocalDeletesTx
    rw [if_pos rfl]
    exact Runs.pure_iff.mpr ⟨rfl, rfl⟩
  · obtain ⟨-, db₁, db₂, hwrite₀, htombs₀, hpush₀⟩ := (runs_localDeletes_iff hrows).mp h
    -- The tombstones are set on the prior tree as it was.
    have hframe : ∀ {now t}, Runs (writeStableNamespaceProjectionTx (D := D)
        (db.stableNamespace.applyUpdate (db.removalOps rows)) now)
        { db with priorNamespace := db.priorNamespace ∪ db.removalOps rows } ⟨⟩ t →
        t.outbox = db.outbox ∧ ∀ r ∈ rows, t.priorTreeLiveFile r.path = some r := by
      intro now t ht
      have heq := (runs_writeStableNamespaceProjectionTx ht).1
      refine ⟨by rw [heq], fun r hr => ?_⟩
      rw [Db.priorTreeLiveFile, show t.priorTree = db.priorTree by rw [heq]]
      exact hlive r hr
    constructor
    · rintro ⟨n', db', hrun⟩
      obtain ⟨-, t₁, t₂, hwrite, htombs, -⟩ := (runs_localDeletes_iff hrows).mp hrun
      exact (exists_tombstones_iff hpaths (hframe hwrite).2).mp ⟨t₂, htombs⟩
    · intro hclock
      obtain ⟨projection, hproj, hkind⟩ := kind_of_writeStableNamespaceProjectionTx hwrite₀
      obtain ⟨t₁, hwrite⟩ := exists_runs_writeStableNamespaceProjectionTx
        { db with priorNamespace := db.priorNamespace ∪ db.removalOps rows } hproj hkind now
      obtain ⟨t₂, htombs⟩ := (exists_tombstones_iff hpaths (hframe hwrite).2).mpr hclock
      obtain ⟨outbox, hpushed, -⟩ := runs_pushOutbox hpush₀
      have hpushed' : t₂.outbox.pushOutboxMessages [.namespaceUpdate (db.removalOps rows)] =
          .ok outbox := by
        have hout : t₂.outbox = t₁.outbox := by rw [runs_tombstones htombs]
        have hout₀ : db₂.outbox = db₁.outbox := by rw [runs_tombstones htombs₀]
        rw [hout, (hframe hwrite).1]
        rwa [hout₀, (hframe hwrite₀).1] at hpushed
      refine ⟨1, { t₂ with outbox := outbox },
        (runs_localDeletes_iff hrows).mpr ⟨rfl, t₁, t₂, hwrite, htombs, ?_⟩⟩
      simp only [pushOutbox, Runs.bind_iff, Runs.get_iff, Runs.liftExcept_iff, runs_set_iff]
      exact ⟨t₂, t₂, ⟨rfl, rfl⟩, outbox, t₂, ⟨hpushed', rfl⟩, rfl⟩

/-- A scan that commits at some reading of the clock commits at another one exactly if no missing row
was accepted later. -/
theorem exists_applyScan_iff {epoch : Nat} {output : ApplyScanOutput D} {db₀ : Db D}
    (h : Runs (applyScan scan epoch now₀) db output db₀) :
    (∃ output db', Runs (applyScan scan epoch now) db output db') ↔
      ∀ r ∈ db.missingPrior scan, r.acceptedAt ≤ now := by
  simp only [applyScan, Runs.bind_iff, Runs.liftExcept_iff, Runs.get_iff, Runs.pure_iff] at h ⊢
  obtain ⟨⟨⟩, _, ⟨hscope, rfl⟩, db, _, ⟨rfl, rfl⟩, actions, db₁, hplan, ⟨⟩, db₂, hstale, n, db₃,
    hdelete, -⟩ := h
  have hpaths : ((db.missingPrior scan).map PriorTreeRow.path).Nodup :=
    List.pairwise_map.mpr ((pairwise_priorInScope db scan).filter _)
  have hlive : ∀ r ∈ db.missingPrior scan, db₂.priorTreeLiveFile r.path = some r := by
    intro r hr
    have htree : db₂.priorTree = db.priorTree := by
      rw [runs_deleteIgnoredFiles hstale, (runs_planReads hplan).1]
    rw [Db.priorTreeLiveFile, htree]
    obtain ⟨⟨hmem, hlive⟩, -⟩ := mem_missingPrior.mp hr
    exact Db.priorTreeLiveFile_eq_some_iff.mpr ⟨hmem, rfl, hlive⟩
  rw [← exists_localDeletes_iff hpaths hlive hdelete]
  constructor
  · rintro ⟨_, db', ⟨⟩, _, ⟨-, rfl⟩, _, _, ⟨rfl, rfl⟩, actions', t₁, hplan', ⟨⟩, t₂, hstale', n', t₃,
      hdelete', -⟩
    obtain ⟨-, rfl⟩ := hplan.unique hplan'
    obtain ⟨-, rfl⟩ := hstale.unique hstale'
    exact ⟨n', t₃, hdelete'⟩
  · rintro ⟨n', db', hdelete'⟩
    exact ⟨_, db', ⟨⟩, _, ⟨hscope, rfl⟩, _, _, ⟨rfl, rfl⟩, actions, db₁, hplan, ⟨⟩, db₂, hstale, n', db',
      hdelete', rfl, rfl⟩

end Scans

/-! ## Projections -/

section Projections

variable {db t t₀ t₀' : Db D} {now₀ now : Timestamp} {action : CompletedProjectionAction D}

/-- An action that is accepted at some reading of the clock is accepted at another one exactly if it
does not delete a row that was accepted later. -/
theorem exists_commitAction_iff
    (h : Runs (commitCompletedProjectionActionTx now₀ action) t₀ ⟨⟩ t₀') :
    (∃ t', Runs (commitCompletedProjectionActionTx now action) t ⟨⟩ t') ↔
      (action.result.deleted = true →
        ∀ r ∈ t.priorTreeLiveFile action.commitContext.path, r.acceptedAt ≤ now) := by
  have hwrite : ∀ fp, Runs (acceptWrite action fp now₀) t₀ ⟨⟩ t₀' →
      ∃ t', Runs (acceptWrite action fp now) t ⟨⟩ t' := by
    intro fp hrun
    unfold acceptWrite at hrun ⊢
    dsimp only at hrun ⊢
    split at hrun
    · exact absurd hrun Runs.throw_iff
    next doc hdoc =>
      simp only [upsertPriorTextObject, upsertPriorTreeFile, deleteProjectionWriteIntentsForPath,
        Runs.bind_iff, Runs.modify_iff, Runs.liftExcept_iff] at hrun ⊢
      obtain ⟨⟨⟩, _, -, ⟨⟩, _, ⟨columns, _, ⟨hcolumns, -⟩, -⟩, -⟩ := hrun
      exact ⟨_, ⟨⟩, _, rfl, ⟨⟩, _, ⟨columns, _, ⟨hcolumns, rfl⟩, rfl⟩, rfl⟩
  have hdelete : (∃ t', Runs (acceptDelete action now) t ⟨⟩ t') ↔
      ∀ r ∈ t.priorTreeLiveFile action.commitContext.path, r.acceptedAt ≤ now := by
    rw [← exists_tombstone_iff]
    simp only [acceptDelete, deleteProjectionWriteIntentsForPath, Runs.bind_iff, Runs.modify_iff]
    constructor
    · rintro ⟨_, ⟨⟩, t', ht', _⟩
      exact ⟨t', ht'⟩
    · rintro ⟨t', ht'⟩
      exact ⟨_, ⟨⟩, t', ht', rfl⟩
  unfold commitCompletedProjectionActionTx at h ⊢
  unfold ProjectionActionResult.deleted
  split at h
  next fp hresult =>
    rw [hresult]
    exact ⟨by rintro - ⟨⟩, fun _ => hwrite fp h⟩
  next fp hresult =>
    rw [hresult]
    exact ⟨by rintro - ⟨⟩, fun _ => hwrite fp h⟩
  · exact absurd h Runs.throw_iff
  next hresult =>
    rw [hresult]
    exact hdelete.trans ⟨fun hclock _ => hclock, fun hclock => hclock rfl⟩
  next hresult =>
    rw [hresult]
    exact hdelete.trans ⟨fun hclock _ => hclock, fun hclock => hclock rfl⟩
  · exact absurd h Runs.throw_iff
  · exact absurd h Runs.throw_iff

/-- An accepted action leaves the live rows of the other paths. -/
theorem priorTreeLiveFile_of_commitAction {t' : Db D} {path : RelativePath}
    (h : Runs (commitCompletedProjectionActionTx now action) t ⟨⟩ t')
    (hpath : action.commitContext.path ≠ path) :
    t'.priorTreeLiveFile path = t.priorTreeLiveFile path := by
  rcases runs_commitCompletedProjectionActionTx h with ⟨doc, stat, hash, -, -, rfl⟩ | ⟨-, rfl⟩
  · rw [priorTreeLiveFile_writeAccepted, if_neg hpath]
  · rw [priorTreeLiveFile_deleteAccepted, if_neg hpath]

/-- Actions on different paths that are accepted at some reading of the clock are accepted at another
one exactly if none deletes a row that was accepted later. -/
theorem exists_commitActions_iff {actions : List (CompletedProjectionAction D)}
    (hpaths : (actions.map fun a => a.commitContext.path).Nodup)
    (h : Runs (forM actions (commitCompletedProjectionActionTx now₀)) t₀ ⟨⟩ t₀') :
    (∃ t', Runs (forM actions (commitCompletedProjectionActionTx now)) t ⟨⟩ t') ↔
      ∀ a ∈ actions, a.result.deleted = true →
        ∀ r ∈ t.priorTreeLiveFile a.commitContext.path, r.acceptedAt ≤ now := by
  induction actions generalizing t t₀ with
  | nil => exact ⟨fun _ => nofun, fun _ => ⟨t, Runs.forM_nil_iff.mpr rfl⟩⟩
  | cons a actions ih =>
    rw [List.map_cons, List.nodup_cons] at hpaths
    obtain ⟨t₁, hfirst, hrest⟩ := Runs.forM_cons_iff.mp h
    have hother : ∀ u, Runs (commitCompletedProjectionActionTx now a) t ⟨⟩ u → ∀ b ∈ actions,
        u.priorTreeLiveFile b.commitContext.path = t.priorTreeLiveFile b.commitContext.path := by
      intro u hu b hb
      exact priorTreeLiveFile_of_commitAction hu
        fun heq => hpaths.1 (heq ▸ List.mem_map_of_mem (f := fun a => a.commitContext.path) hb)
    simp only [Runs.forM_cons_iff, List.forall_mem_cons, ← exists_commitAction_iff hfirst]
    constructor
    · rintro ⟨t', u, hu, hrun⟩
      refine ⟨⟨u, hu⟩, fun b hb hdeleted => ?_⟩
      rw [← hother u hu b hb]
      exact (ih hpaths.2 hrest).mp ⟨t', hrun⟩ b hb hdeleted
    · rintro ⟨⟨u, hu⟩, hclock⟩
      obtain ⟨t', hrun⟩ := (ih hpaths.2 hrest (t := u)).mpr fun b hb hdeleted => by
        rw [hother u hu b hb]
        exact hclock b hb hdeleted
      exact ⟨t', u, hu, hrun⟩

/-- No path is in a plan twice. -/
theorem nodup_paths_plannedProjections [TextCrdt D] [DecidableEq D] (db : Db D) :
    (db.plannedProjections.map fun p => p.2.path).Nodup := by
  have hrows : db.stableTreeFiles.Pairwise fun r r' => r.path ≠ r'.path :=
    (List.perm_insertionSort _ _).symm.pairwise (List.pairwise_map.mp db.stableTree.table.keys_nodup)
      fun h => h.symm
  have hwrites : db.rowsToWrite.Pairwise fun r r' => r.1.path ≠ r'.1.path := by
    refine hrows.filterMap _ fun r r' hne p hp p' hp' => ?_
    obtain ⟨_, -, rfl⟩ := Option.map_eq_some_iff.mp hp
    obtain ⟨_, -, rfl⟩ := Option.map_eq_some_iff.mp hp'
    exact hne
  have hdeletes : db.rowsToDelete.Pairwise fun r r' => r.path ≠ r'.path := by
    have hlive : db.priorTreeLiveFiles.Pairwise fun r r' => r.path ≠ r'.path :=
      (List.perm_insertionSort _ _).symm.pairwise
        ((List.pairwise_map.mp db.priorTree.keys_nodup).filter _) fun h => h.symm
    exact (List.perm_insertionSort _ _).symm.pairwise (hlive.filter _) fun h => h.symm
  rw [Db.plannedProjections, List.map_append, List.map_map, List.map_map]
  refine List.Nodup.append (List.pairwise_map.mpr hwrites) (List.pairwise_map.mpr hdeletes) ?_
  intro path hwrite hdelete
  obtain ⟨⟨row, expected⟩, hrow, rfl⟩ := List.mem_map.mp hwrite
  obtain ⟨prior, hprior, hpath⟩ := List.mem_map.mp hdelete
  have hnone := (mem_rowsToDelete.mp hprior).2
  have hsome : db.stableTreeFile row.path = some row := Table.find?_key (mem_rowsToWrite.mp hrow).1
  have hpath' : prior.path = row.path := hpath
  rw [hpath', hsome] at hnone
  cases hnone

end Projections

/-! ## The rows of the prior tree -/

/-- The times of a row fit their columns, and it was not deleted before it was accepted. -/
def PriorTreeRow.Clocked (r : PriorTreeRow) : Prop :=
  r.TimesFit ∧ ∀ deletedAt ∈ r.deletedAt, r.acceptedAt ≤ deletedAt

/-- A live row was accepted at a time that fits. -/
theorem clocked_live {r : PriorTreeRow} (hfits : FitsColumn r.acceptedAt) (hlive : r.deletedAt = none) :
    r.Clocked := by
  refine ⟨⟨hfits, ?_⟩, ?_⟩
  · rw [hlive]
    exact nofun
  · rw [hlive]
    exact nofun

/-- A row can be tombstoned at a time that fits, if it was not accepted later. -/
theorem PriorTreeRow.Clocked.tombstone {r : PriorTreeRow} (h : r.Clocked) {now : Timestamp}
    (hfits : FitsColumn now) (hclock : r.acceptedAt ≤ now) : (r.tombstone now).Clocked := by
  refine ⟨⟨h.1.1, ?_⟩, ?_⟩
  · rintro _ ⟨⟩
    exact hfits
  · rintro _ ⟨⟩
    exact hclock

/-- An accepted action keeps the rows in order. -/
theorem clocked_of_commitAction {db db' : Db D} {now : Timestamp} {action : CompletedProjectionAction D}
    (hrun : Runs (commitCompletedProjectionActionTx now action) db ⟨⟩ db') (hfits : FitsColumn now)
    (h : ∀ r ∈ db.priorTree, r.Clocked) : ∀ r ∈ db'.priorTree, r.Clocked := by
  have hclock := exists_commitAction_iff hrun |>.mp ⟨db', hrun⟩
  rcases runs_commitCompletedProjectionActionTx hrun with ⟨doc, stat, hash, -, -, rfl⟩ | ⟨hdeleted, rfl⟩
  · intro r hr
    rcases Table.mem_put.mp hr with rfl | ⟨hr, -⟩
    · exact clocked_live hfits rfl
    · exact h r hr
  · intro r' hr'
    have hmem : r' ∈ tombstoneAt db.priorTree action.commitContext.path now := hr'
    rw [tombstoneAt, Table.mem_updateWhere] at hmem
    obtain ⟨r, hr, rfl⟩ := hmem
    split_ifs with hlive
    · obtain ⟨hpath, hnone⟩ := Bool.and_eq_true_iff.mp hlive
      have hfound : db.priorTreeLiveFile action.commitContext.path = some r :=
        Db.priorTreeLiveFile_eq_some_iff.mpr
          ⟨hr, of_decide_eq_true hpath, Option.isNone_iff_eq_none.mp hnone⟩
      exact (h r hr).tombstone hfits (hclock hdeleted r hfound)
    · exact h r hr

/-! ## Runs -/

section Runs

variable [TextCrdt D] [CharDiff] [Xxh3] [DecidableEq D] {s s' : SemanticActor D}
  {writer : DaemonWriterId} {active : ActiveProjectionEpoch D}

/-- The plan of the active epoch has no path twice. -/
def PlansApart (s : SemanticActor D) : Prop :=
  ∀ active, s.active = .projecting active →
    (active.started.actions.map fun action => action.commitContext.path).Nodup

/-- In every run the plans have no path twice. -/
theorem plansApart_of_reached (h : (daemonMachine D writer).Reached s) : PlansApart s := by
  refine h.invariant ?_ ?_
  · rintro s rfl
    exact nofun
  · intro s action s' _ hs _ hstep
    cases action with
    | restart =>
      cases hstep
      exact nofun
    | serve request =>
      intro active hactive
      cases (served_of_step hstep).diskStep with
      | shared isShared disk active' => exact hs active (active' ▸ hactive)
      | plan idle disk active' =>
        rw [active'] at hactive
        split_ifs at hactive
        cases hactive
        have hpaths : (projectionActions s.nextProjectionEpoch s.db.plannedProjections).map
            (fun action => action.commitContext.path) =
            s.db.plannedProjections.map fun p => p.2.path := by
          conv_rhs => rw [← map_projectionActions s.nextProjectionEpoch s.db.plannedProjections]
          rw [List.map_map]
          rfl
        exact hpaths ▸ nodup_paths_plannedProjections s.db
      | record active₀ context projecting expected disk active' =>
        rw [active'] at hactive
        cases hactive
        exact hs active₀ projecting
      | initScan files found disk active' idle => rw [active'] at hactive; cases hactive
      | scan idle disk active' =>
        rw [active'] at hactive
        split_ifs at hactive
        cases hactive
      | stage active₀ context plan rows importing expected decided inserted disk active' =>
        rw [active'] at hactive
        cases hactive
      | realign active₀ context plan stat hash row doc importing expected decided fingerprint
          realignment disk active' =>
        rw [active'] at hactive
        cases hactive
      | skip active₀ context importing expected decided disk active' =>
        rw [active'] at hactive
        cases hactive
      | commit active₀ importing disk active' => rw [active'] at hactive; cases hactive
      | drop active₀ projecting disk active' => rw [active'] at hactive; cases hactive
      | project active₀ projecting run active' => rw [active'] at hactive; cases hactive

/-- The reading of the clock in a request that writes to the prior tree. -/
def SemanticRequest.reading : SemanticRequest D → Option Timestamp
  | .applyScan _ now => some now
  | .commitImportAction _ now _ _ => some now
  | .commitImportEpoch now => some now
  | .commitProjectionEpoch _ now => some now
  | _ => none

/-- The readings of the clock fit a column: they lie between the years 1677 and 2262. -/
def ReadingsFit : SemanticActor D → DaemonAction D → Prop
  | _, .serve request => ∀ now ∈ request.reading, FitsColumn now
  | _, .restart => True

instance (s : SemanticActor D) : ∀ action, Decidable (ReadingsFit s action)
  | .serve request => inferInstanceAs (Decidable (∀ now ∈ request.reading, FitsColumn now))
  | .restart => .isTrue trivial

/-- A scan that is served tombstones no row that was accepted later. -/
theorem clock_of_applyScan {scan : ScanResult} {now : Timestamp}
    (h : Served s (.applyScan scan now) s') : ∀ r ∈ s.db.missingPrior scan, r.acceptedAt ≤ now := by
  cases h with
  | applyScan _ hrun => exact exists_applyScan_iff hrun |>.mp ⟨_, _, hrun⟩

/-- Every request keeps the rows in order. -/
theorem clocked_of_served {request : SemanticRequest D} (hserved : Served s request s')
    (hfits : ∀ now ∈ request.reading, FitsColumn now) (h : ∀ r ∈ s.db.priorTree, r.Clocked) :
    ∀ r ∈ s'.db.priorTree, r.Clocked := by
  have hsame : s'.db.disk.priorTree = s.db.disk.priorTree → ∀ r ∈ s'.db.priorTree, r.Clocked := by
    intro heq
    rw [show s'.db.priorTree = s.db.priorTree from heq]
    exact h
  cases hserved.diskStep with
  | @scan scan now idle disk =>
    rw [show s'.db.priorTree = _ from congrArg DiskTables.priorTree disk]
    intro r' hr'
    rcases mem_tombstoneAll_missingPrior.mp hr' with ⟨hr, -⟩ | ⟨r, hmissing, rfl⟩
    · exact h r' hr
    · exact (h r hmissing.1).tombstone (hfits now rfl)
        (clock_of_applyScan hserved r (mem_missingPrior_iff.mpr hmissing))
  | @realign result now objectId claimId active context plan stat hash row doc importing expected decided
      fingerprint realignment disk =>
    rw [show s'.db.priorTree = _ from congrArg DiskTables.priorTree disk]
    intro r hr
    rcases Table.mem_put.mp hr with rfl | ⟨hr, -⟩
    · exact clocked_live (hfits now rfl) rfl
    · exact h r hr
  | @commit now active importing disk =>
    rw [show s'.db.priorTree = _ from congrArg DiskTables.priorTree disk]
    intro r hr
    rcases Table.mem_of_mem_putAll hr with hnew | ⟨hr, -⟩
    · obtain ⟨row, -, rfl⟩ := List.mem_map.mp hnew
      exact clocked_live (hfits now rfl) rfl
    · exact h r hr
  | @project now active projecting run =>
    exact Runs.forM_preserves (fun t => ∀ r ∈ t.priorTree, r.Clocked) run h
      fun action _ t t' ht hrun => clocked_of_commitAction hrun (hfits now rfl) ht
  | shared isShared disk => exact hsame (by rw [disk])
  | initScan files found disk => exact hsame (by rw [disk])
  | stage active context plan rows importing expected decided inserted disk =>
    exact hsame (by rw [disk])
  | skip active context importing expected decided disk => exact hsame (by rw [disk])
  | plan idle disk => exact hsame (by rw [disk])
  | record active context projecting expected disk =>
    rcases disk with disk | ⟨_, _, -, -, disk⟩
    · exact hsame (by rw [disk])
    · exact hsame (by rw [disk])
  | drop active projecting disk => exact hsame (by rw [disk])

/-- In every run no row is deleted before it was accepted. -/
theorem clocked_of_reachable (h : (daemonMachine D writer).Reachable ReadingsFit s) :
    ∀ r ∈ s.db.priorTree, r.Clocked := by
  refine Machine.Reachable.invariant (I := fun s => ∀ r ∈ s.db.priorTree, r.Clocked) ?_ ?_ h
  · rintro s rfl
    exact nofun
  · intro s action s' _ hs hfits hstep
    cases action with
    | serve request => exact clocked_of_served (served_of_step hstep) hfits hs
    | restart =>
      cases hstep
      exact hs

/-- A scan is served exactly if the daemon is idle and its transaction commits. -/
theorem exists_applyScan_step_iff {scan : ScanResult} {now : Timestamp} :
    (∃ s', s.step (.applyScan scan now) = some s') ↔ s.active = .idle ∧
      ∃ output db', Runs (applyScan scan s.nextImportEpoch now) s.db output db' := by
  constructor
  · rintro ⟨s', hstep⟩
    cases served_of_step hstep with
    | applyScan hidle hrun => exact ⟨hidle, _, _, hrun⟩
  · rintro ⟨hidle, output, db', hrun⟩
    refine Option.isSome_iff_exists.mp ?_
    unfold SemanticActor.step
    dsimp only
    rw [hidle]
    dsimp only
    rw [attempt_eq_some_iff.mpr hrun]
    rfl

/-- An exhausted plan is committed exactly if all results are in and its transaction commits. -/
theorem exists_commitProjectionEpoch_step_iff {now : Timestamp} (hactive : s.active = .projecting active) :
    (∃ s', s.step (.commitProjectionEpoch .planExhausted now) = some s') ↔ active.complete = true ∧
      ∃ db', Runs (forM active.finish.actions (commitCompletedProjectionActionTx now))
        { s.db with priorNamespace := active.finish.targetNamespaceDocBlob } ⟨⟩ db' := by
  constructor
  · rintro ⟨s', hstep⟩
    cases served_of_step hstep with
    | @commitProjectionEpoch _ _ active' u db hactive' hcomplete hrun =>
      rw [hactive] at hactive'
      cases hactive'
      rcases runs_commitProjectionEpochTx hrun with ⟨hne, -⟩ | ⟨-, hrun⟩
      · exact absurd rfl hne
      · exact ⟨hcomplete rfl, db, hrun⟩
  · rintro ⟨hcomplete, db', hrun⟩
    have htx : Runs (commitProjectionEpochTx active.finish .planExhausted now) s.db ⟨⟩ db' := by
      simp only [commitProjectionEpochTx, updatePriorNamespace, Runs.bind_iff, Runs.modify_iff]
      exact ⟨⟨⟩, _, rfl, hrun⟩
    refine Option.isSome_iff_exists.mp ?_
    unfold SemanticActor.step
    dsimp only
    rw [hactive]
    dsimp only
    rw [hcomplete, if_neg (by simp), attempt_eq_some_iff.mpr htx]
    rfl

omit [TextCrdt D] [CharDiff] [Xxh3] [DecidableEq D] in
/-- The committed actions are on different paths if the planned ones are. -/
theorem nodup_paths_finish
    (h : (active.started.actions.map fun action => action.commitContext.path).Nodup) :
    (active.finish.actions.map fun action => action.commitContext.path).Nodup := by
  refine List.pairwise_map.mpr ((List.pairwise_map.mp h).filterMap _ ?_)
  intro action action' hne completed hcompleted completed' hcompleted'
  obtain ⟨result, -, rfl⟩ := Option.map_eq_some_iff.mp hcompleted
  obtain ⟨result', -, rfl⟩ := Option.map_eq_some_iff.mp hcompleted'
  exact hne

/-- In every run, a scan or a projection that commits at some reading of the clock commits at another
one exactly if no row it tombstones was accepted later; and the times of every row that is stored fit
their columns and are decoded. -/
theorem deletes_commit_iff (h : (daemonMachine D writer).Reachable ReadingsFit s) :
    (∀ scan now₀ now s₀, FitsColumn now → s.step (.applyScan scan now₀) = some s₀ →
      ((∃ s', s.step (.applyScan scan now) = some s') ↔
        ∀ r ∈ s.db.missingPrior scan, r.acceptedAt ≤ now)) ∧
    (∀ active now₀ now s₀, FitsColumn now → s.active = .projecting active →
      s.step (.commitProjectionEpoch .planExhausted now₀) = some s₀ →
      ((∃ s', s.step (.commitProjectionEpoch .planExhausted now) = some s') ↔
        ∀ action ∈ active.finish.actions, action.result.deleted = true →
          ∀ r ∈ s.db.priorTreeLiveFile action.commitContext.path, r.acceptedAt ≤ now)) ∧
    ∀ r ∈ s.db.priorTree, r.TimesFit ∧ ∀ row r', r.fingerprint.stat.fileKey.Is64Bit →
      r.toSqlRow = .ok row → (row.fromSqlRow = .ok r' ↔ (r.claimId ≠ [] ∧ r.objectId ≠ []) ∧ r' = r) := by
  refine ⟨fun scan now₀ now s₀ _ hstep => ?_, fun active now₀ now s₀ _ hactive hstep => ?_,
    fun r hr => ?_⟩
  · obtain ⟨hidle, output, db₀, hrun⟩ := exists_applyScan_step_iff.mp ⟨s₀, hstep⟩
    rw [exists_applyScan_step_iff, ← exists_applyScan_iff hrun]
    exact and_iff_right hidle
  · have hpaths := nodup_paths_finish
      (plansApart_of_reached (h.mono fun _ _ _ => trivial) active hactive)
    obtain ⟨hcomplete, db₀, hrun⟩ := (exists_commitProjectionEpoch_step_iff hactive).mp ⟨s₀, hstep⟩
    rw [exists_commitProjectionEpoch_step_iff hactive, exists_commitActions_iff hpaths hrun]
    exact and_iff_right hcomplete
  · obtain ⟨hfits, horder⟩ := clocked_of_reachable h r hr
    refine ⟨hfits, fun row r' hkey hrow => ?_⟩
    rw [PriorTreeRow.fromSqlRow_iff hkey hrow, PriorTreeRow.Decodable]
    exact and_congr_left' ⟨fun hids => ⟨hids.1, hids.2.1⟩, fun hids => ⟨hids.1, hids.2, horder⟩⟩

end Runs

open Snapshots

/-- A daemon imports a file, and accepts it when the clock reads 10. -/
def acceptedRun : List (DaemonAction Doc) :=
  [.serve (.applyInitScan (scanOf .full [(rootFile 1, fileStat 7 2 0)])),
    .serve (.commitImportAction (.read ⟨0, 0⟩ (.completed (.read [104, 105]
      (.statAndContent (fileStat 7 2 0) [104, 105])))) 10 [1] [2]),
    .serve (.commitImportEpoch 10)]

/-- The row of the file. -/
def acceptedRow : PriorTreeRow :=
  ⟨rootFile 1, rootFile 1, [2], [1], .statAndContent (fileStat 7 2 0) [104, 105], 10, none⟩

/-- `deletes_commit_iff` for a file that is gone: its scan commits at 12, and its row is decoded. -/
theorem deletes_commit_iff_gone : ∃ s : SemanticActor Doc,
    (daemonMachine Doc [0, 0, 0, 1]).Reachable ReadingsFit s ∧
      (∃ s', s.step (.applyScan (scanOf .full []) 12) = some s') ∧
      ∃ row, acceptedRow.toSqlRow = .ok row ∧ row.fromSqlRow = .ok acceptedRow := by
  have hrun : ((daemonMachine Doc [0, 0, 0, 1]).exec
      (.start (Db.initialized Doc [0, 0, 0, 1] 0)) acceptedRun).any (fun s =>
        (s.step (.applyScan (scanOf .full []) 10)).isSome &&
          decide ((∀ r ∈ s.db.missingPrior (scanOf .full []), r.acceptedAt ≤ 12) ∧
            s.db.priorTree.rows = [acceptedRow])) = true := by decide +kernel
  have hmeets : (daemonMachine Doc [0, 0, 0, 1]).Meets ReadingsFit
      (.start (Db.initialized Doc [0, 0, 0, 1] 0)) acceptedRun := by decide +kernel
  obtain ⟨s, hs, hscan⟩ := Machine.exists_exec hrun
  obtain ⟨hstep, hrow⟩ := Bool.and_eq_true_iff.mp hscan
  obtain ⟨s₀, hstep⟩ := Option.isSome_iff_exists.mp hstep
  obtain ⟨hclock, hrows⟩ := of_decide_eq_true hrow
  have hreach : (daemonMachine Doc [0, 0, 0, 1]).Reachable ReadingsFit s :=
    Machine.Reachable.exec (.init rfl) hmeets hs
  obtain ⟨hscans, -, hdecoded⟩ := deletes_commit_iff hreach
  have hmem : acceptedRow ∈ s.db.priorTree := by
    rw [Table.mem_rows.symm, hrows]
    exact List.mem_cons_self
  obtain ⟨row, hstored⟩ : ∃ row, acceptedRow.toSqlRow = .ok row :=
    ⟨_, PriorTreeRow.toSqlRow_eq_ok_iff.mpr ⟨_, _, rfl, by decide, (hdecoded _ hmem).1, rfl⟩⟩
  exact ⟨s, hreach, (hscans (scanOf .full []) 10 12 s₀ (by decide) hstep).mpr hclock, row, hstored,
    ((hdecoded _ hmem).2 row acceptedRow ⟨by decide, by decide⟩ hstored).mpr
      ⟨⟨by decide, by decide⟩, rfl⟩⟩

/-- The clock is set back after a file was accepted, and the file is deleted: no scan commits before the
clock reads 10 again. -/
theorem clock_stops_scan : ∃ s : SemanticActor Doc,
    (daemonMachine Doc [0, 0, 0, 1]).exec (.start (Db.initialized Doc [0, 0, 0, 1] 0)) acceptedRun =
        some s ∧
      s.step (.applyScan (scanOf .full []) 9) = none ∧
      (s.step (.applyScan (scanOf .full []) 10)).isSome = true := by
  have hrun : ((daemonMachine Doc [0, 0, 0, 1]).exec
      (.start (Db.initialized Doc [0, 0, 0, 1] 0)) acceptedRun).any (fun s =>
        (s.step (.applyScan (scanOf .full []) 9)).isNone &&
          (s.step (.applyScan (scanOf .full []) 10)).isSome) = true := by decide +kernel
  obtain ⟨s, hs, hscan⟩ := Machine.exists_exec hrun
  obtain ⟨hnone, hsome⟩ := Bool.and_eq_true_iff.mp hscan
  exact ⟨s, hs, Option.isNone_iff_eq_none.mp hnone, hsome⟩

end Opbox
