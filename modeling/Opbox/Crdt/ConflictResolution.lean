import Mathlib.Data.List.Perm.Basic
import Opbox.Crdt.PathConflicts
import Opbox.Crdt.Snapshots

/-!
# Conflict resolution is a function of the claims

Whatever the order in which a document lists its active claims, the placements are the same: one for
each claim, all on different paths, the first claim on a requested path there and the other ones
next to it under conflict names.
-/

namespace Opbox

/-- What decides among the claims on one path: creator of the object, object and claim. -/
def MaterializationClaim.rank (c : MaterializationClaim) :
    DaemonWriterId ×ₗ ObjectId ×ₗ NamespaceClaimId :=
  toLex (c.objectMeta.creatorWriterId, toLex (c.objectId, c.claimId))

/-- Among the claims on one path the order is that of the ranks. -/
theorem MaterializationClaim.rank_le_of_le {c c' : MaterializationClaim} (hpath : c.path = c'.path)
    (h : c ≤ c') : c.rank ≤ c'.rank := by
  have hkey : c.sortKey ≤ c'.sortKey := h
  simp only [sortKey, hpath, Prod.Lex.toLex_le_toLex, lt_self_iff_false, true_and, false_or] at hkey
  rw [rank, rank, Prod.Lex.toLex_le_toLex]
  refine hkey.imp_right fun h => ⟨h.1, ?_⟩
  rw [Prod.Lex.toLex_le_toLex]
  rcases h.2 with hlt | ⟨heq, hlt | ⟨hid, -⟩⟩
  · exact .inl hlt
  · exact .inr ⟨heq, hlt.le⟩
  · exact .inr ⟨heq, hid.le⟩

section Claims

variable {claims claims' : List MaterializationClaim} {occupied : List RelativePath}
  {placements : List DesiredPlacement}

/-! ## The order of the claims -/

theorem requestedPaths_perm (h : claims'.Perm claims) : requestedPaths claims' = requestedPaths claims := by
  rw [requestedPaths, requestedPaths, List.toFinset_eq_of_perm _ _ (h.map _)]

theorem claimsAt_perm (h : claims'.Perm claims) (path : RelativePath) :
    claimsAt claims' path = claimsAt claims path := by
  have hperm : (claimsAt claims' path).Perm (claimsAt claims path) :=
    (List.perm_insertionSort _ _).trans
      ((h.filter _).trans (List.perm_insertionSort _ _).symm)
  exact hperm.eq_of_pairwise (fun a b _ _ => le_antisymm) (List.pairwise_insertionSort _ _)
    (List.pairwise_insertionSort _ _)

/-- The placements do not depend on the order of the claims. -/
theorem deriveVisiblePlacements_perm (h : claims'.Perm claims) :
    deriveVisiblePlacements claims' = deriveVisiblePlacements claims := by
  have hwinner : winnerAt claims' = winnerAt claims := by
    funext path
    rw [winnerAt, winnerAt, claimsAt_perm h]
  have hlosing : losingClaims claims' = losingClaims claims := by
    rw [losingClaims, losingClaims, requestedPaths_perm h]
    simp only [claimsAt_perm h]
  rw [deriveVisiblePlacements, deriveVisiblePlacements, requestedPaths_perm h, hwinner, hlosing]

/-! ## One placement for each claim -/

/-- The losing claims are placed in their order. -/
theorem map_claimId_placeLosers (h : placeLosers occupied claims = .ok placements) :
    placements.map DesiredPlacement.claimId = claims.map MaterializationClaim.claimId := by
  induction claims generalizing occupied placements with
  | nil =>
    cases h
    rfl
  | cons claim claims ih =>
    obtain ⟨path, rest, -, hrest, rfl⟩ := placeLosers_eq_ok_cons.mp h
    rw [List.map_cons, List.map_cons, ih hrest]
    rfl

/-- The first claims and the others are all claims on these paths. -/
theorem perm_winners_losers (paths : List RelativePath) :
    ((paths.filterMap (winnerAt claims)).map DesiredPlacement.claimId ++
        (paths.flatMap fun path => (claimsAt claims path).tail).map
          MaterializationClaim.claimId).Perm
      ((paths.flatMap (claimsAt claims)).map MaterializationClaim.claimId) := by
  induction paths with
  | nil => exact .refl _
  | cons path paths ih =>
    rw [List.flatMap_cons, List.flatMap_cons, List.map_append, List.map_append]
    cases hat : claimsAt claims path with
    | nil =>
      have hnone : winnerAt claims path = none := by rw [winnerAt, hat]; rfl
      rw [List.filterMap_cons_none hnone]
      exact ih
    | cons c cs =>
      have hsome : winnerAt claims path = some (c.placeAt path) := by rw [winnerAt, hat]; rfl
      rw [List.filterMap_cons_some hsome, List.tail_cons, List.map_cons, List.map_cons,
        List.cons_append, List.cons_append]
      refine .cons _ ?_
      rw [← List.append_assoc]
      refine (List.perm_append_comm.append_right _).trans ?_
      rw [List.append_assoc]
      exact ih.append_left _

/-- Every claim is among those on its path. -/
theorem perm_flatMap_claimsAt (hnodup : claims.Nodup) :
    ((requestedPaths claims).flatMap (claimsAt claims)).Perm claims := by
  refine (List.perm_ext_iff_of_nodup ?_ hnodup).mpr fun c => ?_
  · refine List.nodup_flatMap.mpr ⟨fun path _ => ?_, ?_⟩
    · exact (List.perm_insertionSort _ _).nodup_iff.mpr (hnodup.filter _)
    · refine (nodup_sortedList _).imp fun {path path'} hne => ?_
      intro c hc hc'
      exact hne ((mem_claimsAt.mp hc).2.symm.trans (mem_claimsAt.mp hc').2)
  · rw [List.mem_flatMap]
    constructor
    · rintro ⟨path, -, hc⟩
      exact (mem_claimsAt.mp hc).1
    · exact fun hc => ⟨c.path, mem_requestedPaths.mpr ⟨c, hc, rfl⟩, mem_claimsAt.mpr ⟨hc, rfl⟩⟩

/-- The claims of the placements are the claims. -/
theorem perm_map_claimId (hids : (claims.map MaterializationClaim.claimId).Nodup)
    (h : deriveVisiblePlacements claims = .ok placements) :
    (placements.map DesiredPlacement.claimId).Perm (claims.map MaterializationClaim.claimId) := by
  obtain ⟨losers, hlosers, rfl⟩ := deriveVisiblePlacements_eq_ok.mp h
  refine ((List.perm_insertionSort _ _).map _).trans ?_
  rw [List.map_append, map_claimId_placeLosers hlosers]
  exact (perm_winners_losers _).trans ((perm_flatMap_claimsAt hids.of_map).map _)

/-! ## Different paths -/

/-- The losing claims are placed on different paths, none of them occupied. -/
theorem nodup_placeLosers (h : placeLosers occupied claims = .ok placements) :
    (placements.map DesiredPlacement.path).Nodup ∧ ∀ p ∈ placements, p.path ∉ occupied := by
  induction claims generalizing occupied placements with
  | nil =>
    cases h
    exact ⟨List.nodup_nil, nofun⟩
  | cons claim claims ih =>
    obtain ⟨path, rest, hnext, hrest, rfl⟩ := placeLosers_eq_ok_cons.mp h
    obtain ⟨hnodup, hfree⟩ := ih hrest
    obtain ⟨-, -, -, -, -, -, hnew⟩ :=
      (firstAvailable_eq_ok fun s hs => suffixText_of_mem hs).mp hnext
    refine ⟨List.nodup_cons.mpr ⟨fun hmem => ?_, hnodup⟩, List.forall_mem_cons.mpr ⟨hnew, ?_⟩⟩
    · obtain ⟨p, hp, hpath⟩ := List.mem_map.mp hmem
      exact hfree p hp (hpath ▸ List.mem_cons_self)
    · exact fun p hp hocc => hfree p hp (List.mem_cons_of_mem _ hocc)

/-- Placements stand on different paths. -/
theorem nodup_map_path (h : deriveVisiblePlacements claims = .ok placements) :
    (placements.map DesiredPlacement.path).Nodup := by
  obtain ⟨losers, hlosers, rfl⟩ := deriveVisiblePlacements_eq_ok.mp h
  obtain ⟨hnodup, hfree⟩ := nodup_placeLosers hlosers
  refine ((List.perm_insertionSort _ _).map _).nodup_iff.mpr ?_
  rw [List.map_append]
  refine nodup_winners.append hnodup fun path hwin hlose => ?_
  obtain ⟨p, hp, rfl⟩ := List.mem_map.mp hwin
  obtain ⟨q, hq, hpath⟩ := List.mem_map.mp hlose
  obtain ⟨r, hr, hwinner⟩ := List.mem_filterMap.mp hp
  obtain ⟨c, -, -, rfl⟩ := winnerAt_eq_some hwinner
  exact hfree q hq (hpath ▸ hr)

/-! ## Winners and losers -/

/-- The claim that is least among those on its path is the first of them. -/
theorem head?_claimsAt_of_least (hids : (claims.map MaterializationClaim.claimId).Nodup)
    {c : MaterializationClaim} (hc : c ∈ claims)
    (hleast : ∀ c' ∈ claims, c'.path = c.path → c.rank ≤ c'.rank) :
    (claimsAt claims c.path).head? = some c := by
  have hmem : c ∈ claimsAt claims c.path := mem_claimsAt.mpr ⟨hc, rfl⟩
  cases hat : claimsAt claims c.path with
  | nil => rw [hat] at hmem; cases hmem
  | cons first rest =>
    have hfirst : first ∈ claims ∧ first.path = c.path :=
      mem_claimsAt.mp (hat ▸ List.mem_cons_self)
    have hle : first.rank ≤ c.rank := by
      have hsorted : (claimsAt claims c.path).Pairwise (· ≤ ·) := List.pairwise_insertionSort _ _
      rw [hat] at hsorted hmem
      rcases List.mem_cons.mp hmem with rfl | hrest
      · exact le_refl _
      · exact MaterializationClaim.rank_le_of_le hfirst.2
          ((List.pairwise_cons.mp hsorted).1 c hrest)
    have hrank : first.rank = c.rank := le_antisymm hle (hleast first hfirst.1 hfirst.2)
    have hid : first.claimId = c.claimId :=
      congrArg (fun rank => (ofLex (ofLex rank).2).2) hrank
    rw [List.head?_cons, List.inj_on_of_nodup_map hids hfirst.1 hc hid]

/-- A losing claim stands next to its requested path. -/
theorem exists_conflictName_of_tail (h : deriveVisiblePlacements claims = .ok placements)
    {c : MaterializationClaim} (hc : c ∈ (claimsAt claims c.path).tail) :
    ∃ suffix q, suffix ∈ conflictSuffixes c ∧ c.path.withSuffix suffix = .ok q ∧
      q ∉ requestedPaths claims ∧ c.placeAt q ∈ placements := by
  obtain ⟨suffixes, hgiven⟩ := exists_deriveVisiblePlacements_iff.mp ⟨placements, h⟩ c.path
  have hentry : ∀ {given claims' suffixes},
      SuffixesGiven (requestedPaths claims) c.path given claims' suffixes → c ∈ claims' →
      ∃ suffix, (c, suffix) ∈ suffixes ∧ suffix ∈ conflictSuffixes c := by
    intro given claims' suffixes hgiven hmem
    induction hgiven with
    | nil => cases hmem
    | @cons _ claim _ before after suffix _ own _ _ _ _ ih =>
      rcases List.mem_cons.mp hmem with rfl | hmem
      · refine ⟨suffix, List.mem_cons_self, ?_⟩
        rw [own]
        exact List.mem_append_right _ List.mem_cons_self
      · obtain ⟨suffix', hin, hown⟩ := ih hmem
        exact ⟨suffix', List.mem_cons_of_mem _ hin, hown⟩
  obtain ⟨suffix, hin, hown⟩ := hentry hgiven hc
  obtain ⟨q, hq⟩ := c.path.exists_withSuffix (suffixText_of_mem hown)
  refine ⟨suffix, q, hown, hq, fun hreq => ?_, ?_⟩
  · exact hgiven.not_requested hin ⟨q, hreq, hq⟩
  · exact (mem_deriveVisiblePlacements_iff h).mpr
      (.inr ⟨c.path, suffixes, hgiven, (c, suffix), hin, q, hq, rfl⟩)

/-- The resolution of conflicts: it does not depend on the order of the claims, gives each claim one
placement and each placement a path of its own, leaves a requested path to the least claim on it, and
places every other claim in the same directory under a name with the same stem and extension that
no claim asks for. -/
theorem conflict_resolution_fair (hids : (claims.map MaterializationClaim.claimId).Nodup)
    (h : deriveVisiblePlacements claims = .ok placements) :
    (∀ claims', claims'.Perm claims → deriveVisiblePlacements claims' = .ok placements) ∧
    (∀ p ∈ placements, ∃ c ∈ claims, p = c.placeAt p.path) ∧
    (∀ c ∈ claims, ∃! p, p ∈ placements ∧ p.claimId = c.claimId) ∧
    (placements.map DesiredPlacement.path).Nodup ∧
    ∀ c ∈ claims,
      ((∀ c' ∈ claims, c'.path = c.path → c.rank ≤ c'.rank) → c.placeAt c.path ∈ placements) ∧
      (¬(∀ c' ∈ claims, c'.path = c.path → c.rank ≤ c'.rank) →
        ∃ q stem ext suffix, c.placeAt q ∈ placements ∧
          q.components.dropLast = c.path.components.dropLast ∧
          splitFilenameForConflict c.path.fileName = (stem, ext) ∧
          q.fileName = stem ++ " (conflict ".toList ++ suffix ++ ")".toList ++ ext ∧
          ∀ c' ∈ claims, c'.path ≠ q) := by
  have hperm := perm_map_claimId hids h
  have hnodup : (placements.map DesiredPlacement.claimId).Nodup := hperm.nodup_iff.mpr hids
  refine ⟨fun claims' hclaims => (deriveVisiblePlacements_perm hclaims).trans h,
    fun p hp => mem_of_deriveVisiblePlacements h hp, fun c hc => ?_, nodup_map_path h,
    fun c hc => ⟨fun hleast => ?_, fun hnot => ?_⟩⟩
  · obtain ⟨p, hp, hid⟩ := List.mem_map.mp (hperm.mem_iff.mpr (List.mem_map_of_mem hc))
    exact ⟨p, ⟨hp, hid⟩, fun q hq => List.inj_on_of_nodup_map hnodup hq.1 hp (hq.2.trans hid.symm)⟩
  · exact (mem_deriveVisiblePlacements_iff h).mpr
      (.inl ⟨c, head?_claimsAt_of_least hids hc hleast, rfl⟩)
  · have htail : c ∈ (claimsAt claims c.path).tail := by
      have hmem : c ∈ claimsAt claims c.path := mem_claimsAt.mpr ⟨hc, rfl⟩
      have hsorted : (claimsAt claims c.path).Pairwise (· ≤ ·) := List.pairwise_insertionSort _ _
      cases hat : claimsAt claims c.path with
      | nil => rw [hat] at hmem; cases hmem
      | cons first rest =>
        rw [hat] at hmem
        rcases List.mem_cons.mp hmem with rfl | hrest
        · -- The first claim on a path is the least one.
          refine absurd (fun c' hc' hpath => ?_) hnot
          have hmem' : c' ∈ claimsAt claims c.path := mem_claimsAt.mpr ⟨hc', hpath⟩
          rw [hat] at hmem' hsorted
          rcases List.mem_cons.mp hmem' with rfl | hrest
          · exact le_refl _
          · exact MaterializationClaim.rank_le_of_le hpath.symm
              ((List.pairwise_cons.mp hsorted).1 c' hrest)
        · exact hrest
    obtain ⟨suffix, q, -, hq, hfree, hplaced⟩ := exists_conflictName_of_tail h htail
    have hcomponents := RelativePath.components_of_withFileName hq
    refine ⟨q, _, _, suffix, hplaced, ?_, rfl, ?_, fun c' hc' hpath => ?_⟩
    · rw [hcomponents, List.dropLast_concat]
    · rw [RelativePath.fileName]
      simp only [hcomponents, List.getLast_concat]
      rfl
    · exact hfree (mem_requestedPaths.mpr ⟨c', hc', hpath⟩)

end Claims

open Snapshots

/-- A claim of a writer on the file `1`. -/
def claimOfWriter (writer : Fin 256) : MaterializationClaim :=
  ⟨List.replicate 16 writer, List.replicate 16 writer, rootFile 1,
    ⟨.text, List.replicate 16 writer⟩⟩

/-- `conflict_resolution_fair` for two claims on one path: the first writer gets it. -/
theorem conflict_resolution_fair_twoWriters : ∃ placements,
    deriveVisiblePlacements [claimOfWriter 2, claimOfWriter 1] = .ok placements ∧
      deriveVisiblePlacements [claimOfWriter 1, claimOfWriter 2] = .ok placements ∧
      (claimOfWriter 1).placeAt (rootFile 1) ∈ placements := by
  have hok : (deriveVisiblePlacements [claimOfWriter 2, claimOfWriter 1]).toOption.isSome = true := by
    decide +kernel
  cases hplace : deriveVisiblePlacements [claimOfWriter 2, claimOfWriter 1] with
  | error e => rw [hplace] at hok; cases hok
  | ok placements =>
    obtain ⟨hperm, -, -, -, hclaims⟩ := conflict_resolution_fair (by decide +kernel) hplace
    refine ⟨placements, rfl, hperm _ (List.Perm.swap _ _ _), ?_⟩
    refine (hclaims (claimOfWriter 1) (by simp)).1 ?_
    decide +kernel

end Opbox
