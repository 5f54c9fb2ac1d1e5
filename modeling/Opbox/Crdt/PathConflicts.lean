import Opbox.Crdt.ConflictNames

/-!
# Where losing claims go

The claims that lose one path get suffixes, one after the other: each the first of its own that
gives no requested path and that no claim before it got.  `SuffixesGiven` states this path by path,
since conflict names of different paths never meet.  Materialization succeeds exactly if every path
has suffixes for its losing claims, and the placements then are the requested paths and the paths
with these suffixes.
-/

namespace Opbox

/-- The path a claim on `path` is moved to with a suffix. -/
def RelativePath.withSuffix (path : RelativePath) (suffix : List Char) :
    Except String RelativePath :=
  path.withFileName (formatConflictName path.fileName suffix)

theorem RelativePath.validComponent_fileName (path : RelativePath) :
    ValidComponent path.fileName :=
  path.valid _ (List.getLast_mem path.nonempty)

theorem RelativePath.components_of_withFileName {path q : RelativePath} {name : Component}
    (h : path.withFileName name = .ok q) : q.components = path.components.dropLast ++ [name] := by
  unfold withFileName at h
  split at h
  · cases h
  · cases h
    rfl

/-- A suffix always gives a path. -/
theorem RelativePath.exists_withSuffix (path : RelativePath) {suffix : List Char}
    (h : SuffixText suffix) : ∃ q, path.withSuffix suffix = .ok q := by
  have hvalid := validComponent_formatConflictName path.validComponent_fileName h
  have hok := validateComponent_eq_ok.mpr hvalid
  unfold withSuffix withFileName
  split
  next e he =>
    rw [hok] at he
    cases he
  next => exact ⟨_, rfl⟩

/-- Conflict names of different paths, or with different suffixes, are different. -/
theorem RelativePath.withSuffix_injective {path path' q : RelativePath} {suffix suffix' : List Char}
    (hsuffix : SuffixText suffix) (hsuffix' : SuffixText suffix')
    (h : path.withSuffix suffix = .ok q) (h' : path'.withSuffix suffix' = .ok q) :
    path = path' ∧ suffix = suffix' := by
  have hcomponents := components_of_withFileName h
  rw [components_of_withFileName h'] at hcomponents
  obtain ⟨hparent, hname⟩ := List.append_inj' hcomponents rfl
  obtain ⟨hfile, hsame⟩ := formatConflictName_injective path'.validComponent_fileName.1
    path.validComponent_fileName.1 hsuffix' hsuffix (List.singleton_inj.mp hname)
  refine ⟨components_injective ?_, hsame.symm⟩
  rw [← path.dropLast_append_fileName, ← path'.dropLast_append_fileName, hparent, hfile]

/-- The suffix gives a path that some claim asks for. -/
def SuffixRequested (requested : List RelativePath) (path : RelativePath) (suffix : List Char) :
    Prop := ∃ q ∈ requested, path.withSuffix suffix = .ok q

/-- The suffixes that the losing claims of one path get: each the first of its own that gives no
requested path and was not given before. -/
inductive SuffixesGiven (requested : List RelativePath) (path : RelativePath) :
    List (List Char) → List MaterializationClaim → List (MaterializationClaim × List Char) → Prop
  /-- No claim is left. -/
  | nil {given : List (List Char)} : SuffixesGiven requested path given [] []
  /-- The next claim gets a suffix. -/
  | cons {given : List (List Char)} {claim : MaterializationClaim}
      {claims : List MaterializationClaim} {before after : List (List Char)} {suffix : List Char}
      {suffixes : List (MaterializationClaim × List Char)}
      (own : conflictSuffixes claim = before ++ suffix :: after)
      (used : ∀ s ∈ before, SuffixRequested requested path s ∨ s ∈ given)
      (free : ¬SuffixRequested requested path suffix) (new : suffix ∉ given)
      (rest : SuffixesGiven requested path (suffix :: given) claims suffixes) :
      SuffixesGiven requested path given (claim :: claims) ((claim, suffix) :: suffixes)

/-- A suffix that is given gives no requested path. -/
theorem SuffixesGiven.not_requested {requested : List RelativePath} {path : RelativePath}
    {given : List (List Char)} {claims : List MaterializationClaim}
    {suffixes : List (MaterializationClaim × List Char)}
    (h : SuffixesGiven requested path given claims suffixes)
    {entry : MaterializationClaim × List Char} (hentry : entry ∈ suffixes) :
    ¬SuffixRequested requested path entry.2 := by
  induction h with
  | nil => cases hentry
  | cons own used free new rest ih =>
    rcases List.mem_cons.mp hentry with rfl | hentry
    · exact free
    · exact ih hentry

section Placing

variable {requested occupied : List RelativePath} {given : RelativePath → List (List Char)}

/-- What is occupied: the requested paths, and the paths with the suffixes given so far. -/
def OccupiedBy (requested : List RelativePath) (given : RelativePath → List (List Char))
    (occupied : List RelativePath) : Prop :=
  ∀ q, q ∈ occupied ↔ q ∈ requested ∨
    ∃ path, ∃ suffix ∈ given path, SuffixText suffix ∧ path.withSuffix suffix = .ok q

/-- A suffix of a path is occupied if it gives a requested path or was given before. -/
theorem OccupiedBy.mem_iff (h : OccupiedBy requested given occupied) {path q : RelativePath}
    {suffix : List Char} (hsuffix : SuffixText suffix) (hq : path.withSuffix suffix = .ok q) :
    q ∈ occupied ↔ SuffixRequested requested path suffix ∨ suffix ∈ given path := by
  rw [h q]
  refine or_congr ⟨fun hreq => ⟨q, hreq, hq⟩, ?_⟩ ⟨?_, fun hgiven => ⟨path, suffix, hgiven, hsuffix, hq⟩⟩
  · rintro ⟨q', hq', heq⟩
    rw [hq, Except.ok.injEq] at heq
    exact heq ▸ hq'
  · rintro ⟨path', suffix', hgiven, htext, hq'⟩
    obtain ⟨rfl, rfl⟩ := RelativePath.withSuffix_injective hsuffix htext hq hq'
    exact hgiven

/-- Giving one more suffix occupies one more path. -/
theorem OccupiedBy.cons (h : OccupiedBy requested given occupied) {path q : RelativePath}
    {suffix : List Char} (hsuffix : SuffixText suffix) (hq : path.withSuffix suffix = .ok q) :
    OccupiedBy requested (Function.update given path (suffix :: given path)) (q :: occupied) := by
  intro r
  rw [List.mem_cons, h r]
  constructor
  · rintro (rfl | hreq | ⟨path', suffix', hgiven, htext, hr⟩)
    · refine .inr ⟨path, suffix, ?_, hsuffix, hq⟩
      rw [Function.update_self]
      exact List.mem_cons_self
    · exact .inl hreq
    · refine .inr ⟨path', suffix', ?_, htext, hr⟩
      by_cases hpath : path' = path
      · subst hpath
        rw [Function.update_self]
        exact List.mem_cons_of_mem _ hgiven
      · rwa [Function.update_of_ne hpath]
  · rintro (hreq | ⟨path', suffix', hgiven, htext, hr⟩)
    · exact .inr (.inl hreq)
    · by_cases hpath : path' = path
      · subst hpath
        rw [Function.update_self] at hgiven
        rcases List.mem_cons.mp hgiven with rfl | hgiven
        · rw [hq, Except.ok.injEq] at hr
          exact .inl hr.symm
        · exact .inr (.inr ⟨path', suffix', hgiven, htext, hr⟩)
      · rw [Function.update_of_ne hpath] at hgiven
        exact .inr (.inr ⟨path', suffix', hgiven, htext, hr⟩)

/-- The search for a free path ends at the first suffix that is not used. -/
theorem firstAvailable_eq_ok {claim : MaterializationClaim} {suffixes : List (List Char)}
    {path : RelativePath} (htext : ∀ s ∈ suffixes, SuffixText s) :
    firstAvailable claim occupied suffixes = .ok path ↔
      ∃ before suffix after, suffixes = before ++ suffix :: after ∧
        (∀ s ∈ before, ∃ q ∈ occupied, claim.path.withSuffix s = .ok q) ∧
        claim.path.withSuffix suffix = .ok path ∧ path ∉ occupied := by
  induction suffixes with
  | nil => simp [firstAvailable]
  | cons s suffixes ih =>
    obtain ⟨q, hq⟩ := claim.path.exists_withSuffix (htext s List.mem_cons_self)
    have hq' : claim.path.withFileName (formatConflictName claim.path.fileName s) = .ok q := hq
    have ih := ih fun t ht => htext t (List.mem_cons_of_mem _ ht)
    rw [firstAvailable, hq']
    by_cases hocc : q ∈ occupied
    · simp only [bind, Except.bind, hocc, not_true, if_false]
      rw [ih]
      constructor
      · rintro ⟨before, suffix, after, rfl, hbefore, hpath, hfree⟩
        exact ⟨s :: before, suffix, after, rfl,
          List.forall_mem_cons.mpr ⟨⟨q, hocc, hq⟩, hbefore⟩, hpath, hfree⟩
      · rintro ⟨before, suffix, after, hsplit, hbefore, hpath, hfree⟩
        cases before with
        | nil =>
          obtain ⟨rfl, rfl⟩ := List.cons.inj hsplit
          rw [hq, Except.ok.injEq] at hpath
          exact absurd (hpath ▸ hocc) hfree
        | cons t before =>
          obtain ⟨rfl, hrest⟩ := List.cons.inj hsplit
          exact ⟨before, suffix, after, hrest, (List.forall_mem_cons.mp hbefore).2, hpath, hfree⟩
    · simp only [bind, Except.bind, hocc, not_false_iff, if_true, pure, Except.pure,
        Except.ok.injEq]
      constructor
      · rintro rfl
        exact ⟨[], s, suffixes, rfl, by simp, hq, hocc⟩
      · rintro ⟨before, suffix, after, hsplit, hbefore, hpath, -⟩
        cases before with
        | nil =>
          obtain ⟨rfl, rfl⟩ := List.cons.inj hsplit
          rw [hq, Except.ok.injEq] at hpath
          exact hpath
        | cons t before =>
          obtain ⟨rfl, -⟩ := List.cons.inj hsplit
          obtain ⟨q', hq'', hsame⟩ := hbefore s List.mem_cons_self
          rw [hq, Except.ok.injEq] at hsame
          exact absurd (hsame ▸ hq'') hocc

theorem suffixText_of_mem {c : MaterializationClaim} {suffix : List Char}
    (h : suffix ∈ conflictSuffixes c) : SuffixText suffix :=
  fun _ hc => suffixChar_of_mem_conflictSuffixes h hc

/-- A losing claim goes to the path with the first suffix that is not used. -/
theorem nextAvailableConflictPath_eq_ok (h : OccupiedBy requested given occupied)
    {claim : MaterializationClaim} {path : RelativePath} :
    nextAvailableConflictPath claim occupied = .ok path ↔
      ∃ before suffix after, conflictSuffixes claim = before ++ suffix :: after ∧
        (∀ s ∈ before, SuffixRequested requested claim.path s ∨ s ∈ given claim.path) ∧
        claim.path.withSuffix suffix = .ok path ∧
        ¬SuffixRequested requested claim.path suffix ∧ suffix ∉ given claim.path := by
  rw [nextAvailableConflictPath, firstAvailable_eq_ok fun s hs => suffixText_of_mem hs]
  have htext : ∀ {before after : List (List Char)} {suffix : List Char},
      conflictSuffixes claim = before ++ suffix :: after →
        (∀ s ∈ before, SuffixText s) ∧ SuffixText suffix := by
    intro before after suffix hsplit
    refine ⟨fun s hs => suffixText_of_mem (c := claim) ?_, suffixText_of_mem (c := claim) ?_⟩
    · rw [hsplit]
      exact List.mem_append_left _ hs
    · rw [hsplit]
      exact List.mem_append_right _ List.mem_cons_self
  refine exists_congr fun before => exists_congr fun suffix => exists_congr fun after => ?_
  refine and_congr_right fun hsplit => and_congr ?_ (and_congr_right fun hpath => ?_)
  · refine forall_congr' fun s => forall_congr' fun hs => ?_
    have hs' := (htext hsplit).1 s hs
    constructor
    · rintro ⟨q, hocc, hq⟩
      exact (h.mem_iff hs' hq).mp hocc
    · intro hused
      obtain ⟨q, hq⟩ := claim.path.exists_withSuffix hs'
      exact ⟨q, (h.mem_iff hs' hq).mpr hused, hq⟩
  · rw [h.mem_iff (htext hsplit).2 hpath, not_or]

/-- The claims of a list that ask for a path. -/
def claimsOn (claims : List MaterializationClaim) (path : RelativePath) :
    List MaterializationClaim := claims.filter fun c => c.path = path

theorem claimsOn_cons_self (claim : MaterializationClaim) (claims : List MaterializationClaim) :
    claimsOn (claim :: claims) claim.path = claim :: claimsOn claims claim.path := by
  have hself : decide (claim.path = claim.path) = true := decide_eq_true rfl
  exact List.filter_cons_of_pos hself

theorem claimsOn_cons_of_ne {claim : MaterializationClaim} {path : RelativePath}
    (h : claim.path ≠ path) (claims : List MaterializationClaim) :
    claimsOn (claim :: claims) path = claimsOn claims path :=
  List.filter_cons_of_neg (by simpa using h)

/-- The losing claims are placed exactly if every path has suffixes for those on it. -/
theorem exists_placeLosers_iff {claims : List MaterializationClaim}
    (h : OccupiedBy requested given occupied) :
    (∃ placements, placeLosers occupied claims = .ok placements) ↔
      ∀ path, ∃ suffixes, SuffixesGiven requested path (given path) (claimsOn claims path) suffixes := by
  induction claims generalizing occupied given with
  | nil => exact ⟨fun _ _ => ⟨[], .nil⟩, fun _ => ⟨[], rfl⟩⟩
  | cons claim claims ih =>
    constructor
    · rintro ⟨placements, hplace⟩
      obtain ⟨q, rest, hnext, hrest, -⟩ := placeLosers_eq_ok_cons.mp hplace
      obtain ⟨before, suffix, after, hsplit, hused, hq, hfree, hnew⟩ :=
        (nextAvailableConflictPath_eq_ok h).mp hnext
      have htext : SuffixText suffix := suffixText_of_mem (by rw [hsplit]; simp)
      have hall := (ih (h.cons htext hq)).mp ⟨rest, hrest⟩
      intro path
      obtain ⟨suffixes, hgiven⟩ := hall path
      by_cases hpath : claim.path = path
      · subst hpath
        rw [Function.update_self] at hgiven
        rw [claimsOn_cons_self]
        exact ⟨(claim, suffix) :: suffixes, .cons hsplit hused hfree hnew hgiven⟩
      · rw [Function.update_of_ne (Ne.symm hpath)] at hgiven
        rw [claimsOn_cons_of_ne hpath]
        exact ⟨suffixes, hgiven⟩
    · intro hall
      obtain ⟨suffixes, hgiven⟩ := hall claim.path
      rw [claimsOn_cons_self] at hgiven
      cases hgiven with
      | @cons _ _ _ before after suffix rest hsplit hused hfree hnew hrest =>
        have htext : SuffixText suffix := suffixText_of_mem (by rw [hsplit]; simp)
        obtain ⟨q, hq⟩ := claim.path.exists_withSuffix htext
        have hnext := (nextAvailableConflictPath_eq_ok h).mpr
          ⟨before, suffix, after, hsplit, hused, hq, hfree, hnew⟩
        obtain ⟨placements, hplace⟩ := (ih (h.cons htext hq)).mpr fun path => by
          by_cases hpath : claim.path = path
          · subst hpath
            rw [Function.update_self]
            exact ⟨rest, hrest⟩
          · rw [Function.update_of_ne (Ne.symm hpath)]
            obtain ⟨suffixes, hgiven⟩ := hall path
            rw [claimsOn_cons_of_ne hpath] at hgiven
            exact ⟨suffixes, hgiven⟩
        exact ⟨_, placeLosers_eq_ok_cons.mpr ⟨q, placements, hnext, hplace, rfl⟩⟩

/-- The losing claims are placed on the paths with the suffixes they got. -/
theorem mem_placeLosers_iff {claims : List MaterializationClaim} {placements : List DesiredPlacement}
    (h : OccupiedBy requested given occupied) (hplace : placeLosers occupied claims = .ok placements)
    {p : DesiredPlacement} : p ∈ placements ↔
      ∃ path suffixes, SuffixesGiven requested path (given path) (claimsOn claims path) suffixes ∧
        ∃ entry ∈ suffixes, ∃ q, path.withSuffix entry.2 = .ok q ∧ p = entry.1.placeAt q := by
  induction claims generalizing occupied given placements with
  | nil =>
    cases hplace
    simp only [List.not_mem_nil, false_iff]
    rintro ⟨path, suffixes, hgiven, entry, hentry, -⟩
    cases hgiven
    cases hentry
  | cons claim claims ih =>
    obtain ⟨r, rest, hnext, hrest, rfl⟩ := placeLosers_eq_ok_cons.mp hplace
    obtain ⟨before, suffix, after, hsplit, hused, hr, hfree, hnew⟩ :=
      (nextAvailableConflictPath_eq_ok h).mp hnext
    have htext : SuffixText suffix := suffixText_of_mem (by rw [hsplit]; simp)
    have ih := ih (h.cons htext hr) hrest
    rw [List.mem_cons, ih]
    constructor
    · rintro (rfl | ⟨path, suffixes, hgiven, entry, hentry, hq⟩)
      · have hall := (exists_placeLosers_iff (h.cons htext hr)).mp ⟨rest, hrest⟩
        obtain ⟨suffixes, hgiven⟩ := hall claim.path
        rw [Function.update_self] at hgiven
        refine ⟨claim.path, (claim, suffix) :: suffixes, ?_, _, List.mem_cons_self, r, hr, rfl⟩
        rw [claimsOn_cons_self]
        exact .cons hsplit hused hfree hnew hgiven
      · by_cases hpath : claim.path = path
        · subst hpath
          rw [Function.update_self] at hgiven
          refine ⟨claim.path, (claim, suffix) :: suffixes, ?_, entry,
            List.mem_cons_of_mem _ hentry, hq⟩
          rw [claimsOn_cons_self]
          exact .cons hsplit hused hfree hnew hgiven
        · rw [Function.update_of_ne (Ne.symm hpath)] at hgiven
          refine ⟨path, suffixes, ?_, entry, hentry, hq⟩
          rw [claimsOn_cons_of_ne hpath]
          exact hgiven
    · rintro ⟨path, suffixes, hgiven, entry, hentry, q, hq, rfl⟩
      by_cases hpath : claim.path = path
      · subst hpath
        rw [claimsOn_cons_self] at hgiven
        cases hgiven with
        | @cons _ _ _ before' after' suffix' suffixes' hsplit' hused' hfree' hnew' hrest' =>
          -- Both are the first suffix that is not used.
          have htext' : SuffixText suffix' := suffixText_of_mem (by rw [hsplit']; simp)
          obtain ⟨r', hr'⟩ := claim.path.exists_withSuffix htext'
          have hnext' := (nextAvailableConflictPath_eq_ok h).mpr
            ⟨before', suffix', after', hsplit', hused', hr', hfree', hnew'⟩
          rw [hnext, Except.ok.injEq] at hnext'
          subst hnext'
          obtain ⟨-, rfl⟩ := RelativePath.withSuffix_injective htext htext' hr hr'
          rcases List.mem_cons.mp hentry with rfl | hentry
          · rw [hr, Except.ok.injEq] at hq
            rw [hq]
            exact .inl rfl
          · refine .inr ⟨claim.path, suffixes', ?_, entry, hentry, q, hq, rfl⟩
            rw [Function.update_self]
            exact hrest'
      · rw [claimsOn_cons_of_ne hpath] at hgiven
        refine .inr ⟨path, suffixes, ?_, entry, hentry, q, hq, rfl⟩
        rw [Function.update_of_ne (Ne.symm hpath)]
        exact hgiven

end Placing

/-! ## The placements of a document -/

section Claims

variable {claims : List MaterializationClaim}

theorem claimsOn_claimsAt_tail (path path' : RelativePath) :
    claimsOn (claimsAt claims path).tail path' =
      if path = path' then (claimsAt claims path).tail else [] := by
  have hpath : ∀ c ∈ (claimsAt claims path).tail, c.path = path := fun c hc =>
    (mem_claimsAt.mp (List.mem_of_mem_tail hc)).2
  by_cases h : path = path'
  · rw [if_pos h]
    refine List.filter_eq_self.mpr fun c hc => ?_
    rw [hpath c hc, decide_eq_true h]
  · rw [if_neg h]
    refine List.filter_eq_nil_iff.mpr fun c hc => ?_
    rw [hpath c hc, decide_eq_true_eq]
    exact h

/-- The losing claims on a path are those after its first one. -/
theorem claimsOn_losingClaims (path : RelativePath) :
    claimsOn (losingClaims claims) path = (claimsAt claims path).tail := by
  have hflat : ∀ paths : List RelativePath, paths.Nodup →
      claimsOn (paths.flatMap fun p => (claimsAt claims p).tail) path =
        if path ∈ paths then (claimsAt claims path).tail else [] := by
    intro paths hnodup
    induction paths with
    | nil => rfl
    | cons p paths ih =>
      obtain ⟨hp, hnodup⟩ := List.nodup_cons.mp hnodup
      rw [List.flatMap_cons, claimsOn, List.filter_append]
      show claimsOn (claimsAt claims p).tail path ++ claimsOn _ path = _
      rw [ih hnodup, claimsOn_claimsAt_tail]
      by_cases h : p = path
      · subst h
        simp [hp]
      · have h' : path ≠ p := Ne.symm h
        simp [h, h']
  rw [losingClaims, hflat (requestedPaths claims) (nodup_sortedList _)]
  by_cases hpath : path ∈ requestedPaths claims
  · rw [if_pos hpath]
  · rw [if_neg hpath]
    cases hat : claimsAt claims path with
    | nil => rfl
    | cons c cs =>
      have hc := mem_claimsAt.mp (hat ▸ List.mem_cons_self : c ∈ claimsAt claims path)
      exact absurd (mem_requestedPaths.mpr ⟨c, hc.1, hc.2⟩) hpath

theorem occupiedBy_requestedPaths :
    OccupiedBy (requestedPaths claims) (fun _ => []) (requestedPaths claims) := by
  intro q
  simp

/-- All claims can be placed exactly if every path has suffixes for its losing claims. -/
theorem exists_deriveVisiblePlacements_iff :
    (∃ placements, deriveVisiblePlacements claims = .ok placements) ↔
      ∀ path, ∃ suffixes,
        SuffixesGiven (requestedPaths claims) path [] (claimsAt claims path).tail suffixes := by
  have hlosers : (∃ placements, placeLosers (requestedPaths claims) (losingClaims claims) =
      .ok placements) ↔ ∀ path, ∃ suffixes, SuffixesGiven (requestedPaths claims) path []
        (claimsOn (losingClaims claims) path) suffixes :=
    exists_placeLosers_iff occupiedBy_requestedPaths
  simp only [claimsOn_losingClaims] at hlosers
  rw [← hlosers]
  constructor
  · rintro ⟨placements, h⟩
    obtain ⟨losers, hlose, -⟩ := deriveVisiblePlacements_eq_ok.mp h
    exact ⟨losers, hlose⟩
  · rintro ⟨losers, hlose⟩
    exact ⟨_, deriveVisiblePlacements_eq_ok.mpr ⟨losers, hlose, rfl⟩⟩

/-- The placements are those of the first claims on the requested paths, and those of the losing
claims with the suffixes given. -/
theorem mem_deriveVisiblePlacements_iff {placements : List DesiredPlacement}
    (h : deriveVisiblePlacements claims = .ok placements) {p : DesiredPlacement} :
    p ∈ placements ↔ (∃ c, (claimsAt claims c.path).head? = some c ∧ p = c.placeAt c.path) ∨
      ∃ path suffixes,
        SuffixesGiven (requestedPaths claims) path [] (claimsAt claims path).tail suffixes ∧
        ∃ entry ∈ suffixes, ∃ q, path.withSuffix entry.2 = .ok q ∧ p = entry.1.placeAt q := by
  obtain ⟨losers, hlose, rfl⟩ := deriveVisiblePlacements_eq_ok.mp h
  have hlosers := mem_placeLosers_iff (p := p) occupiedBy_requestedPaths hlose
  simp only [claimsOn_losingClaims] at hlosers
  rw [List.mem_insertionSort, List.mem_append, hlosers, List.mem_filterMap]
  refine or_congr ⟨?_, ?_⟩ Iff.rfl
  · rintro ⟨path, -, hwin⟩
    obtain ⟨c, hc, rfl⟩ := Option.map_eq_some_iff.mp hwin
    have hpath := (mem_claimsAt.mp (List.mem_of_mem_head? hc)).2
    refine ⟨c, by rw [hpath]; exact hc, by rw [hpath]⟩
  · rintro ⟨c, hc, rfl⟩
    obtain ⟨hmem, -⟩ := mem_claimsAt.mp (List.mem_of_mem_head? hc)
    refine ⟨c.path, mem_requestedPaths.mpr ⟨c, hmem, rfl⟩, ?_⟩
    rw [winnerAt, hc]
    rfl

/-- The placements stand on the requested paths and on the paths with the suffixes given. -/
theorem mem_map_deriveVisiblePlacements_iff {placements : List DesiredPlacement}
    (h : deriveVisiblePlacements claims = .ok placements) {q : RelativePath} :
    (∃ p ∈ placements, p.path = q) ↔ q ∈ requestedPaths claims ∨
      ∃ path suffixes,
        SuffixesGiven (requestedPaths claims) path [] (claimsAt claims path).tail suffixes ∧
        ∃ entry ∈ suffixes, path.withSuffix entry.2 = .ok q := by
  simp only [mem_deriveVisiblePlacements_iff h]
  constructor
  · rintro ⟨p, ⟨c, hc, rfl⟩ | ⟨path, suffixes, hgiven, entry, hentry, r, hr, rfl⟩, rfl⟩
    · obtain ⟨hmem, -⟩ := mem_claimsAt.mp (List.mem_of_mem_head? hc)
      exact .inl (mem_requestedPaths.mpr ⟨c, hmem, rfl⟩)
    · exact .inr ⟨path, suffixes, hgiven, entry, hentry, hr⟩
  · rintro (hq | ⟨path, suffixes, hgiven, entry, hentry, hq⟩)
    · obtain ⟨p, hwin⟩ := exists_winnerAt hq
      obtain ⟨c, hc, rfl⟩ := Option.map_eq_some_iff.mp hwin
      have hpath := (mem_claimsAt.mp (List.mem_of_mem_head? hc)).2
      refine ⟨_, .inl ⟨c, by rw [hpath]; exact hc, rfl⟩, hpath⟩
    · exact ⟨_, .inr ⟨path, suffixes, hgiven, entry, hentry, q, hq, rfl⟩, rfl⟩

end Claims

end Opbox
