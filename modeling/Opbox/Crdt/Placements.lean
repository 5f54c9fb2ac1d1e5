import Opbox.Crdt.Materialize

/-!
# What a materialization holds

Facts about the materialization of a namespace document: it has one placement for every active
claim, no two of them share a path, and claims that ask for different paths get what they ask for.
-/

namespace Opbox

/-! ## Loops that may fail -/

section MapM

variable {α β ε : Type} {f : α → Except ε β}

/-- A loop over a list succeeds with the list of the results. -/
theorem mapM_eq_ok_iff {xs : List α} {ys : List β} :
    xs.mapM f = .ok ys ↔ List.Forall₂ (fun x y => f x = .ok y) xs ys := by
  induction xs generalizing ys with
  | nil =>
    rw [List.mapM_nil, List.forall₂_nil_left_iff]
    exact ⟨fun h => (Except.ok.inj h).symm, fun h => h ▸ rfl⟩
  | cons x xs ih =>
    rw [List.mapM_cons, List.forall₂_cons_left_iff]
    constructor
    · intro h
      cases hx : f x with
      | error e => rw [hx] at h; cases h
      | ok y =>
        cases hxs : xs.mapM f with
        | error e => rw [hx, hxs] at h; cases h
        | ok zs =>
          rw [hx, hxs] at h
          cases h
          exact ⟨y, zs, rfl, ih.mp hxs, rfl⟩
    · rintro ⟨y, zs, hx, hxs, rfl⟩
      rw [hx, ih.mpr hxs]
      rfl

theorem mem_of_mapM_eq_ok {xs : List α} {ys : List β} (h : xs.mapM f = .ok ys) {y : β} :
    y ∈ ys ↔ ∃ x ∈ xs, f x = .ok y := by
  have hall := mapM_eq_ok_iff.mp h
  induction hall with
  | nil => simp
  | cons hx hxs ih =>
    simp only [List.mem_cons, ih (mapM_eq_ok_iff.mpr hxs)]
    constructor
    · rintro (rfl | ⟨x, hx', hy⟩)
      · exact ⟨_, .inl rfl, hx⟩
      · exact ⟨x, .inr hx', hy⟩
    · rintro ⟨x, rfl | hx', hy⟩
      · rw [hx, Except.ok.injEq] at hy
        exact .inl hy.symm
      · exact .inr ⟨x, hx', hy⟩

/-- A loop all of whose items succeed succeeds. -/
theorem exists_mapM_eq_ok (f : α → Except ε β) {xs : List α} (h : ∀ x ∈ xs, ∃ y, f x = .ok y) :
    ∃ ys, xs.mapM f = .ok ys := by
  induction xs with
  | nil => exact ⟨[], rfl⟩
  | cons x xs ih =>
    obtain ⟨y, hy⟩ := h x List.mem_cons_self
    obtain ⟨ys, hys⟩ := ih fun x' hx' => h x' (List.mem_cons_of_mem _ hx')
    refine ⟨y :: ys, ?_⟩
    rw [List.mapM_cons, hy, hys]
    rfl

/-- A key of the items that the results keep is listed in the same order. -/
theorem map_eq_of_mapM_eq_ok {γ : Type} {xs : List α} {ys : List β} (h : xs.mapM f = .ok ys)
    {g : α → γ} {g' : β → γ} (hg : ∀ x y, f x = .ok y → g' y = g x) : ys.map g' = xs.map g := by
  have hall := mapM_eq_ok_iff.mp h
  induction hall with
  | nil => rfl
  | cons hx hxs ih =>
    rw [List.map_cons, List.map_cons, hg _ _ hx, ih (mapM_eq_ok_iff.mpr hxs)]

end MapM

/-! ## Claims -/

namespace NamespaceDoc

variable {doc : NamespaceDoc}

theorem mem_allObjectIds {id : ObjectId} :
    id ∈ doc.allObjectIds ↔ ∃ objectMeta, doc.getObject id = some objectMeta := by
  rw [allObjectIds, mem_values]
  constructor
  · rintro ⟨op, hop, hid⟩
    rw [← Option.ne_none_iff_exists']
    intro hnone
    have hentry := mapGet_eq_none_iff.mp hnone op hop
    cases hop' : op.entry with
    | object id' m =>
      rw [hop'] at hid hentry
      simp only [NsEntry.object?, Option.some.injEq] at hid
      simp [NsEntry.meta?, hid] at hentry
    | claim => rw [hop'] at hid; cases hid
    | removed => rw [hop'] at hid; cases hid
  · rintro ⟨m, hm⟩
    obtain ⟨op, hop, hv⟩ := exists_of_mapGet hm
    refine ⟨op, hop, ?_⟩
    cases hop' : op.entry with
    | object id' m' =>
      rw [hop'] at hv
      simp only [NsEntry.meta?] at hv
      split_ifs at hv with hid
      exact congrArg some hid
    | claim => rw [hop'] at hv; cases hv
    | removed => rw [hop'] at hv; cases hv

theorem mem_claimIds {id : NamespaceClaimId} :
    id ∈ doc.claimIds ↔ ∃ record, doc.getClaim id = some record := by
  rw [claimIds, mem_values]
  constructor
  · rintro ⟨op, hop, hid⟩
    rw [← Option.ne_none_iff_exists']
    intro hnone
    have hentry := mapGet_eq_none_iff.mp hnone op hop
    cases hop' : op.entry with
    | object => rw [hop'] at hid; cases hid
    | claim id' r =>
      rw [hop'] at hid hentry
      simp only [NsEntry.claim?, Option.some.injEq] at hid
      simp [NsEntry.record?, hid] at hentry
    | removed => rw [hop'] at hid; cases hid
  · rintro ⟨r, hr⟩
    obtain ⟨op, hop, hv⟩ := exists_of_mapGet hr
    refine ⟨op, hop, ?_⟩
    cases hop' : op.entry with
    | object => rw [hop'] at hv; cases hv
    | claim id' r' =>
      rw [hop'] at hv
      simp only [NsEntry.record?] at hv
      split_ifs at hv with hid
      exact congrArg some hid
    | removed => rw [hop'] at hv; cases hv

theorem confirmedObjects_ok : ∃ objects, doc.confirmedObjects = .ok objects := by
  refine exists_mapM_eq_ok _ fun id hid => ?_
  obtain ⟨m, hm⟩ := mem_allObjectIds.mp (mem_sortedList.mp hid)
  exact ⟨⟨id, m⟩, by rw [hm]⟩

/-- A claim that can be placed has a record, and its object has metadata. -/
theorem materializationClaim_eq_ok {id : NamespaceClaimId} {c : MaterializationClaim} :
    doc.materializationClaim id = .ok c ↔
      c.claimId = id ∧ doc.getClaim id = some ⟨c.objectId, c.path⟩ ∧
        doc.getObject c.objectId = some c.objectMeta := by
  unfold materializationClaim
  constructor
  · intro h
    split at h
    · cases h
    next record hrecord =>
      split at h
      · cases h
      next objectMeta hmeta =>
        cases h
        exact ⟨rfl, hrecord, hmeta⟩
  · rintro ⟨rfl, hclaim, hobject⟩
    rw [hclaim]
    simp only [hobject]

theorem mem_materializationClaims {claims : List MaterializationClaim}
    (h : doc.materializationClaims = .ok claims) {c : MaterializationClaim} :
    c ∈ claims ↔ c.claimId ∈ doc.activeClaimIds ∧ doc.materializationClaim c.claimId = .ok c := by
  unfold materializationClaims at h
  cases hm : (sortedList doc.activeClaimIds).mapM doc.materializationClaim with
  | error e => rw [hm] at h; cases h
  | ok cs =>
    rw [hm] at h
    cases h
    rw [List.mem_insertionSort, mem_of_mapM_eq_ok hm]
    constructor
    · rintro ⟨id, hid, hc⟩
      have := (materializationClaim_eq_ok.mp hc).1
      subst this
      exact ⟨mem_sortedList.mp hid, hc⟩
    · rintro ⟨hid, hc⟩
      exact ⟨c.claimId, mem_sortedList.mpr hid, hc⟩

/-- The claims of a materialization have different ids. -/
theorem nodup_materializationClaims {claims : List MaterializationClaim}
    (h : doc.materializationClaims = .ok claims) :
    (claims.map MaterializationClaim.claimId).Nodup := by
  unfold materializationClaims at h
  cases hm : (sortedList doc.activeClaimIds).mapM doc.materializationClaim with
  | error e => rw [hm] at h; cases h
  | ok cs =>
    rw [hm] at h
    cases h
    have hids : cs.map MaterializationClaim.claimId = (sortedList doc.activeClaimIds).map id :=
      map_eq_of_mapM_eq_ok hm fun id c hc => (materializationClaim_eq_ok.mp hc).1
    rw [((List.perm_insertionSort (· ≤ ·) cs).map _).nodup_iff, hids, List.map_id]
    exact nodup_sortedList _

theorem materializationClaims_ok
    (h : ∀ id ∈ doc.activeClaimIds, ∃ c, doc.materializationClaim id = .ok c) :
    ∃ claims, doc.materializationClaims = .ok claims := by
  obtain ⟨cs, hcs⟩ := exists_mapM_eq_ok doc.materializationClaim fun id hid =>
    h id (mem_sortedList.mp hid)
  refine ⟨cs.insertionSort (· ≤ ·), ?_⟩
  unfold materializationClaims
  rw [hcs]
  rfl

/-- A materialization consists of the objects and the placements of the claims. -/
theorem materialize_eq_ok {projection : NamespaceProjection} :
    doc.materialize = .ok projection ↔
      doc.confirmedObjects = .ok projection.confirmedObjects ∧
        ∃ claims, doc.materializationClaims = .ok claims ∧
          deriveVisiblePlacements claims = .ok projection.placements := by
  unfold materialize
  constructor
  · intro h
    cases ho : doc.confirmedObjects with
    | error e => rw [ho] at h; cases h
    | ok objects =>
      cases hc : doc.materializationClaims with
      | error e => rw [ho, hc] at h; cases h
      | ok claims =>
        cases hp : deriveVisiblePlacements claims with
        | error e =>
          simp only [ho, hc, bind, Except.bind, hp] at h
          cases h
        | ok placements =>
          simp only [ho, hc, bind, Except.bind, hp, pure, Except.pure] at h
          cases h
          exact ⟨rfl, claims, rfl, hp⟩
  · rintro ⟨ho, claims, hc, hp⟩
    simp only [ho, hc, bind, Except.bind, hp]
    rfl

end NamespaceDoc

/-! ## Placements -/

section Placements

variable {claims : List MaterializationClaim}

@[simp] theorem mem_requestedPaths {path : RelativePath} :
    path ∈ requestedPaths claims ↔ ∃ c ∈ claims, c.path = path := by
  simp [requestedPaths]

@[simp] theorem mem_claimsAt {path : RelativePath} {c : MaterializationClaim} :
    c ∈ claimsAt claims path ↔ c ∈ claims ∧ c.path = path := by
  simp [claimsAt]

/-- The winner of a path is one of the claims on it. -/
theorem winnerAt_eq_some {path : RelativePath} {p : DesiredPlacement}
    (h : winnerAt claims path = some p) :
    ∃ c ∈ claims, c.path = path ∧ p = c.placeAt path := by
  obtain ⟨c, hc, rfl⟩ := Option.map_eq_some_iff.mp h
  obtain ⟨hmem, hpath⟩ := mem_claimsAt.mp (List.mem_of_mem_head? hc)
  exact ⟨c, hmem, hpath, rfl⟩

/-- On a requested path there is a winner. -/
theorem exists_winnerAt {path : RelativePath} (h : path ∈ requestedPaths claims) :
    ∃ p, winnerAt claims path = some p := by
  obtain ⟨c, hc, hpath⟩ := mem_requestedPaths.mp h
  cases hat : claimsAt claims path with
  | nil => simpa [hat] using mem_claimsAt.mpr ⟨hc, hpath⟩
  | cons w ws => exact ⟨w.placeAt path, by rw [winnerAt, hat]; rfl⟩

/-- Winners stand on different paths. -/
theorem nodup_winners :
    (((requestedPaths claims).filterMap (winnerAt claims)).map DesiredPlacement.path).Nodup := by
  rw [List.map_filterMap]
  refine List.Nodup.filterMap ?_ (nodup_sortedList _)
  intro path path' q hq hq'
  obtain ⟨p, hp, rfl⟩ := Option.map_eq_some_iff.mp hq
  obtain ⟨p', hp', hpath⟩ := Option.map_eq_some_iff.mp hq'
  obtain ⟨c, -, -, rfl⟩ := winnerAt_eq_some hp
  obtain ⟨c', -, -, rfl⟩ := winnerAt_eq_some hp'
  exact hpath.symm

/-- What placing the losing claims yields: one placement for each of them, in order. -/
theorem placeLosers_eq_ok_cons {occupied : List RelativePath} {claim : MaterializationClaim}
    {placements : List DesiredPlacement} :
    placeLosers occupied (claim :: claims) = .ok placements ↔
      ∃ path rest, nextAvailableConflictPath claim occupied = .ok path ∧
        placeLosers (path :: occupied) claims = .ok rest ∧
        placements = claim.placeAt path :: rest := by
  rw [placeLosers]
  cases hnext : nextAvailableConflictPath claim occupied with
  | error e => simp [bind, Except.bind]
  | ok path =>
    cases hrest : placeLosers (path :: occupied) claims with
    | error e => simp [bind, Except.bind, hrest]
    | ok rest =>
      simp only [bind, Except.bind, hrest, pure, Except.pure, Except.ok.injEq, exists_and_left,
        exists_eq_left', eq_comm]

/-- Every losing claim is placed somewhere. -/
theorem mem_of_placeLosers {occupied : List RelativePath} {placements : List DesiredPlacement}
    (h : placeLosers occupied claims = .ok placements) {p : DesiredPlacement} (hp : p ∈ placements) :
    ∃ c ∈ claims, p = c.placeAt p.path := by
  induction claims generalizing occupied placements with
  | nil =>
    cases h
    cases hp
  | cons c claims ih =>
    obtain ⟨path, rest, -, hrest, rfl⟩ := placeLosers_eq_ok_cons.mp h
    rcases List.mem_cons.mp hp with rfl | hp
    · exact ⟨c, List.mem_cons_self, rfl⟩
    · obtain ⟨c', hc', heq⟩ := ih hrest hp
      exact ⟨c', List.mem_cons_of_mem _ hc', heq⟩

theorem mem_losingClaims {c : MaterializationClaim} :
    c ∈ losingClaims claims ↔ c ∈ (claimsAt claims c.path).tail := by
  rw [losingClaims, List.mem_flatMap]
  constructor
  · rintro ⟨path, -, hc⟩
    have hpath := (mem_claimsAt.mp (List.mem_of_mem_tail hc)).2
    rwa [hpath]
  · intro hc
    obtain ⟨hmem, -⟩ := mem_claimsAt.mp (List.mem_of_mem_tail hc)
    exact ⟨c.path, mem_requestedPaths.mpr ⟨c, hmem, rfl⟩, hc⟩

theorem deriveVisiblePlacements_eq_ok {placements : List DesiredPlacement} :
    deriveVisiblePlacements claims = .ok placements ↔
      ∃ losers, placeLosers (requestedPaths claims) (losingClaims claims) = .ok losers ∧
        placements = ((requestedPaths claims).filterMap (winnerAt claims) ++ losers).insertionSort
          fun a b => a.path ≤ b.path := by
  rw [deriveVisiblePlacements]
  cases placeLosers (requestedPaths claims) (losingClaims claims) with
  | error e => simp [bind, Except.bind]
  | ok losers => simp [bind, Except.bind, pure, Except.pure, eq_comm]

/-- Every placement is that of a claim. -/
theorem mem_of_deriveVisiblePlacements {placements : List DesiredPlacement}
    (h : deriveVisiblePlacements claims = .ok placements) {p : DesiredPlacement}
    (hp : p ∈ placements) : ∃ c ∈ claims, p = c.placeAt p.path := by
  obtain ⟨losers, hlosers, rfl⟩ := deriveVisiblePlacements_eq_ok.mp h
  rw [List.mem_insertionSort, List.mem_append, List.mem_filterMap] at hp
  rcases hp with ⟨path, -, hwin⟩ | hp
  · obtain ⟨c, hc, -, rfl⟩ := winnerAt_eq_some hwin
    exact ⟨c, hc, rfl⟩
  · obtain ⟨c, hc, heq⟩ := mem_of_placeLosers hlosers hp
    have hlose := mem_losingClaims.mp hc
    exact ⟨c, (mem_claimsAt.mp (List.mem_of_mem_tail hlose)).1, heq⟩

/-- Claims that ask for different paths do not lose. -/
theorem losingClaims_eq_nil (h : (claims.map MaterializationClaim.path).Nodup) :
    losingClaims claims = [] := by
  rw [losingClaims, List.flatMap_eq_nil_iff]
  intro path _
  have hnodup : ((claimsAt claims path).map MaterializationClaim.path).Nodup :=
    ((List.perm_insertionSort (· ≤ ·) _).map _).nodup_iff.mpr
      (h.sublist (List.filter_sublist.map _))
  cases hat : claimsAt claims path with
  | nil => rfl
  | cons c cs =>
    cases cs with
    | nil => rfl
    | cons c' cs =>
      have hc : c ∈ claimsAt claims path := hat ▸ List.mem_cons_self
      have hc' : c' ∈ claimsAt claims path := hat ▸ List.mem_cons_of_mem _ List.mem_cons_self
      rw [hat] at hnodup
      simp [(mem_claimsAt.mp hc).2, (mem_claimsAt.mp hc').2] at hnodup

/-- Claims that ask for different paths get what they ask for. -/
theorem deriveVisiblePlacements_of_nodup (h : (claims.map MaterializationClaim.path).Nodup) :
    ∃ placements, deriveVisiblePlacements claims = .ok placements ∧
      (placements.map DesiredPlacement.path).Nodup ∧
      ∀ p, p ∈ placements ↔ ∃ c ∈ claims, p = c.placeAt c.path := by
  refine ⟨_, by rw [deriveVisiblePlacements, losingClaims_eq_nil h]; rfl, ?_, fun p => ?_⟩
  · rw [((List.perm_insertionSort _ _).map _).nodup_iff, List.append_nil]
    exact nodup_winners
  rw [List.mem_insertionSort, List.append_nil, List.mem_filterMap]
  constructor
  · rintro ⟨path, -, hwin⟩
    obtain ⟨c, hc, rfl, hp⟩ := winnerAt_eq_some hwin
    exact ⟨c, hc, hp⟩
  · rintro ⟨c, hc, rfl⟩
    have hpath : c.path ∈ requestedPaths claims := mem_requestedPaths.mpr ⟨c, hc, rfl⟩
    obtain ⟨p, hp⟩ := exists_winnerAt hpath
    obtain ⟨c', hc', hpath', rfl⟩ := winnerAt_eq_some hp
    have : c' = c := List.inj_on_of_nodup_map h hc' hc hpath'
    exact ⟨c.path, hpath, this ▸ hp⟩

end Placements

/-- The materialization of a document whose active claims can be placed and ask for different
paths. -/
theorem materialize_of_distinct_paths (doc : NamespaceDoc)
    (hplace : ∀ id ∈ doc.activeClaimIds, ∃ c, doc.materializationClaim id = .ok c)
    (hpaths : ∀ id ∈ doc.activeClaimIds, ∀ id' ∈ doc.activeClaimIds, ∀ c c',
      doc.materializationClaim id = .ok c → doc.materializationClaim id' = .ok c' →
      c.path = c'.path → id = id') :
    ∃ projection, doc.materialize = .ok projection ∧
      (projection.placements.map DesiredPlacement.path).Nodup ∧
      ∀ p, p ∈ projection.placements ↔ ∃ id ∈ doc.activeClaimIds, ∃ c,
        doc.materializationClaim id = .ok c ∧ p = c.placeAt c.path := by
  obtain ⟨objects, hobjects⟩ := doc.confirmedObjects_ok
  obtain ⟨claims, hclaims⟩ := NamespaceDoc.materializationClaims_ok hplace
  have hnodup : (claims.map MaterializationClaim.path).Nodup := by
    refine List.Nodup.map_on ?_ (NamespaceDoc.nodup_materializationClaims hclaims).of_map
    intro c hc c' hc' hpath
    obtain ⟨hid, hok⟩ := (NamespaceDoc.mem_materializationClaims hclaims).mp hc
    obtain ⟨hid', hok'⟩ := (NamespaceDoc.mem_materializationClaims hclaims).mp hc'
    have := hpaths _ hid _ hid' c c' hok hok' hpath
    rw [this, hok', Except.ok.injEq] at hok
    exact hok.symm
  obtain ⟨placements, hplacements, hdistinct, hmem⟩ := deriveVisiblePlacements_of_nodup hnodup
  refine ⟨⟨objects, placements⟩,
    NamespaceDoc.materialize_eq_ok.mpr ⟨hobjects, claims, hclaims, hplacements⟩, hdistinct,
    fun p => ?_⟩
  rw [hmem]
  constructor
  · rintro ⟨c, hc, rfl⟩
    obtain ⟨hid, hok⟩ := (NamespaceDoc.mem_materializationClaims hclaims).mp hc
    exact ⟨c.claimId, hid, c, hok, rfl⟩
  · rintro ⟨id, hid, c, hok, rfl⟩
    have hcid := (NamespaceDoc.materializationClaim_eq_ok.mp hok).1
    subst hcid
    exact ⟨c, (NamespaceDoc.mem_materializationClaims hclaims).mpr ⟨hid, hok⟩, rfl⟩

/-- The object of a placement is among the objects of the document. -/
theorem exists_confirmedObject {doc : NamespaceDoc} {projection : NamespaceProjection}
    (h : doc.materialize = .ok projection) {p : DesiredPlacement} (hp : p ∈ projection.placements) :
    ∃ object ∈ projection.confirmedObjects, object.objectId = p.objectId := by
  obtain ⟨hobjects, claims, hclaims, hplacements⟩ := NamespaceDoc.materialize_eq_ok.mp h
  obtain ⟨c, hc, heq⟩ := mem_of_deriveVisiblePlacements hplacements hp
  obtain ⟨-, hok⟩ := (NamespaceDoc.mem_materializationClaims hclaims).mp hc
  have hmeta := (NamespaceDoc.materializationClaim_eq_ok.mp hok).2.2
  have hid : c.objectId ∈ doc.allObjectIds := NamespaceDoc.mem_allObjectIds.mpr ⟨_, hmeta⟩
  refine ⟨⟨c.objectId, c.objectMeta⟩, ?_, ?_⟩
  · refine (mem_of_mapM_eq_ok hobjects).mpr ⟨c.objectId, mem_sortedList.mpr hid, ?_⟩
    rw [hmeta]
  · rw [heq]
    rfl

end Opbox
