import Opbox.Crdt.Snapshots
import Opbox.Engine.EngineSteps

/-!
# Requested scans

Scans are requested by notify hints, by conflicts and by the periodic timer, also while the engine is
busy.  Then the requested scope is folded into the pending one (`engine/actor.rs`).  The fold may widen
the scope: two scopes where none is below the other become a full scan.  It never loses a path of either
one, so after any requests the pending scope covers every one of them, and the next boundary scans it.
-/

namespace Opbox

variable {D : Type}

/-! ## Scopes -/

/-- The second scope covers the first one. -/
def ScanScope.Within (inner outer : ScanScope) : Prop :=
  ∀ path, inner.containsPath path = true → outer.containsPath path = true

theorem ScanScope.Within.refl (scope : ScanScope) : scope.Within scope := fun _ h => h

theorem ScanScope.Within.trans {a b c : ScanScope} (hab : a.Within b) (hbc : b.Within c) :
    a.Within c := fun path h => hbc path (hab path h)

theorem ScanScope.within_full (scope : ScanScope) : scope.Within .full := fun _ _ => rfl

/-- A subtree contains what its path is a prefix of. -/
theorem ScanScope.containsPath_subtree {top path : RelativePath} :
    (ScanScope.subtree top).containsPath path = true ↔ top.components <+: path.components := by
  rw [ScanScope.containsPath, Bool.or_eq_true, decide_eq_true_eq, List.isPrefixOf_iff_prefix]
  constructor
  · rintro (rfl | hprefix)
    · exact List.prefix_refl _
    · exact hprefix
  · exact .inr

/-- A scope below a subtree is covered by it. -/
theorem ScanScope.within_subtree {top : RelativePath} {scope : ScanScope}
    (h : subtreeContainsScope top scope = true) : scope.Within (.subtree top) := by
  intro path hpath
  cases scope with
  | full => cases h
  | singleFile single =>
    have hsame : path = single := of_decide_eq_true hpath
    exact hsame ▸ h
  | subtree inner =>
    have htop : top.components <+: inner.components := ScanScope.containsPath_subtree.mp h
    exact ScanScope.containsPath_subtree.mpr
      (htop.trans (ScanScope.containsPath_subtree.mp hpath))

/-- `coalesceSubtrees` covers both scopes. -/
theorem within_coalesceSubtrees (left right : ScanScope) :
    left.Within (coalesceSubtrees left right) ∧ right.Within (coalesceSubtrees left right) := by
  have hfull := And.intro (ScanScope.within_full left) (ScanScope.within_full right)
  unfold coalesceSubtrees
  split
  next leftPath rightPath =>
    split_ifs with hleft hright
    · exact ⟨.refl _, ScanScope.within_subtree hleft⟩
    · exact ⟨ScanScope.within_subtree hright, .refl _⟩
    · exact hfull
  next leftPath scope _ =>
    split_ifs with hleft
    · exact ⟨.refl _, ScanScope.within_subtree hleft⟩
    · exact hfull
  next scope rightPath _ =>
    split_ifs with hright
    · exact ⟨ScanScope.within_subtree hright, .refl _⟩
    · exact hfull
  next => exact hfull

/-- `coalesce_scan_scopes` covers both scopes. -/
theorem within_coalesceScanScopes (left right : ScanScope) :
    left.Within (coalesceScanScopes left right) ∧ right.Within (coalesceScanScopes left right) := by
  unfold coalesceScanScopes
  split
  next => exact ⟨.refl _, ScanScope.within_full _⟩
  next => exact ⟨ScanScope.within_full _, .refl _⟩
  next leftPath rightPath =>
    split_ifs with hsame
    · exact ⟨.refl _, hsame ▸ .refl _⟩
    · exact within_coalesceSubtrees _ _
  next => exact within_coalesceSubtrees _ _

/-! ## Requests -/

namespace Engine

variable {e : Engine D}

/-- What the engine is to scan covers the scope. -/
def WillScan (e : Engine D) (scope : ScanScope) : Prop :=
  ∃ pending, e.pendingScanScope = some pending ∧ scope.Within pending

theorem willScan_addScanScope (e : Engine D) (scope : ScanScope) :
    (e.addScanScope scope).WillScan scope := by
  cases hpending : e.pendingScanScope with
  | none =>
    refine ⟨scope, ?_, .refl _⟩
    rw [addScanScope, hpending]
  | some pending =>
    refine ⟨coalesceScanScopes pending scope, ?_, (within_coalesceScanScopes _ _).2⟩
    rw [addScanScope, hpending]

/-- A further request keeps what is to be scanned. -/
theorem WillScan.addScanScope {scope : ScanScope} (h : e.WillScan scope) (further : ScanScope) :
    (e.addScanScope further).WillScan scope := by
  obtain ⟨pending, hpending, hwithin⟩ := h
  refine ⟨coalesceScanScopes pending further, ?_, hwithin.trans (within_coalesceScanScopes _ _).1⟩
  rw [Engine.addScanScope, hpending]

/-- Requests to a busy engine add their scopes and nothing else. -/
theorem foldl_requestScan (hbusy : e.phase ≠ .idle) (scopes : List ScanScope) :
    scopes.foldl requestScan e = scopes.foldl addScanScope e := by
  induction scopes generalizing e with
  | nil => rfl
  | cons scope scopes ih =>
    rw [List.foldl_cons, List.foldl_cons, requestScan_of_ne hbusy]
    exact ih hbusy

/-- After the requests all of them are to be scanned, and what was to be scanned before. -/
theorem willScan_foldl (scopes : List ScanScope) :
    (∀ scope, e.WillScan scope → (scopes.foldl addScanScope e).WillScan scope) ∧
      ∀ scope ∈ scopes, (scopes.foldl addScanScope e).WillScan scope := by
  induction scopes generalizing e with
  | nil => exact ⟨fun _ h => h, nofun⟩
  | cons first scopes ih =>
    rw [List.foldl_cons]
    obtain ⟨hkept, hadded⟩ := @ih (e.addScanScope first)
    refine ⟨fun scope h => hkept scope (h.addScanScope first), fun scope hscope => ?_⟩
    rcases List.mem_cons.mp hscope with rfl | hscope
    · exact hkept scope (willScan_addScanScope e scope)
    · exact hadded scope hscope

/-- Requested scans are never narrowed: whatever scopes are requested of a busy engine, in whatever
order, the pending scope and the scan of the next boundary cover every path of any of them. -/
theorem scan_requests_never_narrowed (e : Engine D) (hbusy : e.phase ≠ .idle)
    (scopes : List ScanScope) :
    (scopes.foldl requestScan e).phase = e.phase ∧
      ∀ scope, scope ∈ scopes ∨ e.pendingScanScope = some scope →
        ∃ pending, (scopes.foldl requestScan e).pendingScanScope = some pending ∧
          (scopes.foldl requestScan e).enterBoundary.phase = .scanning pending ∧
          ∀ path, scope.containsPath path = true → pending.containsPath path = true := by
  have hphase : (scopes.foldl addScanScope e).phase = e.phase := by
    induction scopes generalizing e with
    | nil => rfl
    | cons scope scopes ih => exact ih (e.addScanScope scope) hbusy
  rw [foldl_requestScan hbusy]
  refine ⟨hphase, fun scope hscope => ?_⟩
  have hscan : (scopes.foldl addScanScope e).WillScan scope := by
    rcases hscope with hmem | hpending
    · exact (willScan_foldl scopes).2 scope hmem
    · exact (willScan_foldl scopes).1 scope ⟨scope, hpending, .refl _⟩
  obtain ⟨pending, hpending, hwithin⟩ := hscan
  refine ⟨pending, hpending, ?_, hwithin⟩
  rw [Engine.enterBoundary, hpending]

/-- `scan_requests_never_narrowed` for two requests while the first scan runs. -/
theorem scan_requests_never_narrowed_firstScan :
    ∃ pending, ([.singleFile (Snapshots.rootFile 1), .subtree (Snapshots.rootFile 2)].foldl requestScan
        (Engine.new.requestScan .full : Engine Unit)).pendingScanScope = some pending ∧
      pending.containsPath (Snapshots.rootFile 1) = true := by
  obtain ⟨pending, hpending, -, hcovers⟩ := (scan_requests_never_narrowed
    (Engine.new.requestScan .full : Engine Unit) nofun
    [.singleFile (Snapshots.rootFile 1), .subtree (Snapshots.rootFile 2)]).2
      (.singleFile (Snapshots.rootFile 1)) (.inl List.mem_cons_self)
  exact ⟨pending, hpending, hcovers (Snapshots.rootFile 1) rfl⟩

end Engine

end Opbox
