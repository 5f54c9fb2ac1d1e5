import Opbox.Crdt.Placements

/-!
# Conflict names

The name a losing claim is moved to determines the requested name and the suffix: the suffix has
neither blanks nor dots, so it stands after the last blank of the stem.  A conflict name is
therefore always a valid component, and it can collide with a conflict name of the same requested
path and suffix only, or with a path that is requested under that very name.
-/

namespace Opbox

/-! ## Splitting a name -/

/-- What follows the last occurrence of a character. -/
theorem takeWhile_reverse_append_cons {c : Char} {b after : List Char} (h : c ∉ after) :
    ((b ++ c :: after).reverse.takeWhile (· ≠ c)).reverse = after := by
  rw [List.reverse_append, List.reverse_cons, List.append_assoc, List.singleton_append,
    List.takeWhile_append_of_pos]
  · simp
  · intro d hd
    rw [List.mem_reverse] at hd
    have hne : d ≠ c := fun heq => h (heq ▸ hd)
    simp [hne]

theorem rsplitOnceDot_append {stem ext : List Char} (hext : '.' ∉ ext) :
    rsplitOnceDot (stem ++ '.' :: ext) = some (stem, ext) := by
  have hmem : '.' ∈ stem ++ '.' :: ext := by simp
  have hlength : (stem ++ '.' :: ext).length - ext.length - 1 = stem.length := by
    rw [List.length_append, List.length_cons]
    omega
  unfold rsplitOnceDot
  rw [takeWhile_reverse_append_cons hext, if_pos hmem, hlength, List.take_left']
  rfl

/-- A list with a member is split at its last occurrence. -/
theorem exists_append_of_mem_last {c : Char} {cs : List Char} (h : c ∈ cs) :
    ∃ before after, cs = before ++ c :: after ∧ c ∉ after := by
  obtain ⟨after, before, hsplit, hnot⟩ := List.eq_append_cons_of_mem (List.mem_reverse.mpr h)
  refine ⟨before.reverse, after.reverse, ?_, by simpa using hnot⟩
  rw [← List.reverse_inj, hsplit]
  simp

/-- A name is split before its last dot, unless it has none or starts with it. -/
theorem splitFilenameForConflict_cases (name : List Char) :
    (∃ stem ext, stem ≠ [] ∧ '.' ∉ ext ∧ name = stem ++ '.' :: ext ∧
        splitFilenameForConflict name = (stem, '.' :: ext)) ∨
      ('.' ∉ name.tail ∧ splitFilenameForConflict name = (name, [])) := by
  by_cases hdot : '.' ∈ name
  · obtain ⟨stem, ext, rfl, hext⟩ := exists_append_of_mem_last hdot
    by_cases hstem : stem = []
    · subst hstem
      refine .inr ⟨hext, ?_⟩
      rw [splitFilenameForConflict, rsplitOnceDot_append hext]
      rfl
    · refine .inl ⟨stem, ext, hstem, hext, rfl, ?_⟩
      rw [splitFilenameForConflict, rsplitOnceDot_append hext]
      exact if_pos hstem
  · refine .inr ⟨fun h => hdot (List.mem_of_mem_tail h), ?_⟩
    rw [splitFilenameForConflict, rsplitOnceDot, if_neg hdot]

theorem append_splitFilenameForConflict (name : List Char) :
    (splitFilenameForConflict name).1 ++ (splitFilenameForConflict name).2 = name := by
  rcases splitFilenameForConflict_cases name with ⟨stem, ext, -, -, hname, hsplit⟩ | ⟨-, hsplit⟩
  · rw [hsplit, hname]
  · rw [hsplit, List.append_nil]

/-! ## Suffixes -/

/-- The characters of a suffix. -/
def SuffixChar (c : Char) : Prop := c ≠ ' ' ∧ c ≠ '.' ∧ c ≠ '/' ∧ c ≠ '\x00'

instance (c : Char) : Decidable (SuffixChar c) := by
  unfold SuffixChar; infer_instance

theorem crockfordAlphabet_eq : crockfordAlphabet =
    ['0', '1', '2', '3', '4', '5', '6', '7', '8', '9', 'a', 'b', 'c', 'd', 'e', 'f', 'g', 'h',
      'j', 'k', 'm', 'n', 'p', 'q', 'r', 's', 't', 'v', 'w', 'x', 'y', 'z'] :=
  String.toList_ofList

theorem suffixChar_getD (n : Nat) : SuffixChar (crockfordAlphabet.getD n '0') := by
  have hall : (crockfordAlphabet.all fun c => decide (SuffixChar c)) = true := by
    rw [crockfordAlphabet_eq]
    rfl
  rw [List.getD_eq_getElem?_getD]
  cases hn : crockfordAlphabet[n]? with
  | none => decide
  | some c => exact of_decide_eq_true (List.all_eq_true.mp hall c (List.mem_of_getElem? hn))

theorem suffixChar_of_mem_base32Digits {bits : List Bool} {c : Char} (h : c ∈ base32Digits bits) :
    SuffixChar c := by
  induction bits using base32Digits.induct with
  | case1 a b c' d e bits ih =>
    rw [base32Digits, List.mem_cons] at h
    rcases h with rfl | h
    · exact suffixChar_getD _
    · exact ih h
  | case2 => cases h
  | case3 bits hlong hne =>
    rw [base32Digits.eq_3 bits hlong hne, List.mem_singleton] at h
    rw [h]
    exact suffixChar_getD _

theorem suffixChar_of_mem_crockford {bytes : Bytes} {c : Char}
    (h : c ∈ crockfordBase32Lower bytes) : SuffixChar c := suffixChar_of_mem_base32Digits h

/-- Neither blanks nor dots nor slashes stand in a suffix. -/
theorem suffixChar_of_mem_conflictSuffixes {claim : MaterializationClaim} {suffix : List Char}
    (hsuffix : suffix ∈ conflictSuffixes claim) {c : Char} (hc : c ∈ suffix) : SuffixChar c := by
  unfold conflictSuffixes at hsuffix
  have hmem := (List.destutter_sublist (· ≠ ·) _).subset hsuffix
  simp only [List.mem_cons, List.not_mem_nil, or_false] at hmem
  rcases hmem with rfl | rfl | rfl | rfl | rfl
  · exact suffixChar_of_mem_crockford (List.mem_of_mem_take hc)
  · exact suffixChar_of_mem_crockford (List.mem_of_mem_take hc)
  · exact suffixChar_of_mem_crockford (List.mem_of_mem_take hc)
  · exact suffixChar_of_mem_crockford hc
  · rcases List.mem_append.mp hc with hc | hc
    · exact suffixChar_of_mem_crockford hc
    · rcases List.mem_cons.mp hc with rfl | hc
      · decide
      · exact suffixChar_of_mem_crockford (List.mem_of_mem_take hc)

/-- A text that may stand in a conflict name as the suffix. -/
def SuffixText (suffix : List Char) : Prop := ∀ c ∈ suffix, SuffixChar c

/-! ## Formatting -/

/-- What stands before the extension of a conflict name. -/
def conflictStem (stem suffix : List Char) : List Char :=
  stem ++ " (conflict ".toList ++ suffix ++ ")".toList

theorem formatConflictName_eq (name suffix : List Char) :
    formatConflictName name suffix =
      conflictStem (splitFilenameForConflict name).1 suffix ++ (splitFilenameForConflict name).2 := rfl

/-- A conflict name is split where the requested name is. -/
theorem splitFilenameForConflict_formatConflictName {name suffix : List Char} (hname : name ≠ [])
    (hsuffix : SuffixText suffix) :
    splitFilenameForConflict (formatConflictName name suffix) =
      (conflictStem (splitFilenameForConflict name).1 suffix, (splitFilenameForConflict name).2) := by
  rw [formatConflictName_eq]
  rcases splitFilenameForConflict_cases name with ⟨stem, ext, -, hext, -, hsplit⟩ | ⟨hdot, hsplit⟩
  · rw [hsplit]
    have hstem : conflictStem stem suffix ≠ [] := by simp [conflictStem]
    rw [splitFilenameForConflict, rsplitOnceDot_append hext]
    exact if_pos hstem
  · -- No dot joins the name.
    rw [hsplit, List.append_nil]
    have hnot : '.' ∉ (conflictStem name suffix).tail := by
      obtain ⟨c, cs, rfl⟩ := List.exists_cons_of_ne_nil hname
      rw [conflictStem, List.append_assoc, List.append_assoc, List.cons_append, List.tail_cons]
      simp only [List.mem_append, not_or]
      exact ⟨hdot, by decide, fun h => (hsuffix '.' h).2.1 rfl, by decide⟩
    rcases splitFilenameForConflict_cases (conflictStem name suffix) with
      ⟨stem, ext, hstem, -, heq, -⟩ | ⟨-, heq⟩
    · obtain ⟨c, cs, rfl⟩ := List.exists_cons_of_ne_nil hstem
      rw [heq, List.cons_append, List.tail_cons] at hnot
      exact absurd (List.mem_append_right cs List.mem_cons_self) hnot
    · exact heq

/-- What follows the last blank of a text. -/
theorem append_blank_injective {text text' suffix suffix' : List Char} (hsuffix : ' ' ∉ suffix)
    (hsuffix' : ' ' ∉ suffix') (h : text ++ ' ' :: suffix = text' ++ ' ' :: suffix') :
    text = text' ∧ suffix = suffix' := by
  have hsame : suffix = suffix' := by
    rw [← takeWhile_reverse_append_cons (b := text) hsuffix, h,
      takeWhile_reverse_append_cons hsuffix']
  subst hsame
  exact ⟨List.append_cancel_right h, rfl⟩

/-- A conflict name determines the requested name and the suffix. -/
theorem formatConflictName_injective {name name' suffix suffix' : List Char} (hname : name ≠ [])
    (hname' : name' ≠ []) (hsuffix : SuffixText suffix) (hsuffix' : SuffixText suffix')
    (h : formatConflictName name suffix = formatConflictName name' suffix') :
    name = name' ∧ suffix = suffix' := by
  have hsplit := congrArg splitFilenameForConflict h
  rw [splitFilenameForConflict_formatConflictName hname hsuffix,
    splitFilenameForConflict_formatConflictName hname' hsuffix', Prod.mk.injEq] at hsplit
  obtain ⟨hstem, hext⟩ := hsplit
  have hblank : ∀ s : List Char, SuffixText s → ' ' ∉ s := fun s hs hmem => (hs ' ' hmem).1 rfl
  have hopen : " (conflict ".toList = " (conflict".toList ++ [' '] := by decide
  have hcut : ((splitFilenameForConflict name).1 ++ " (conflict".toList) ++ ' ' :: suffix =
      ((splitFilenameForConflict name').1 ++ " (conflict".toList) ++ ' ' :: suffix' := by
    have hdrop := List.append_cancel_right hstem
    rw [hopen] at hdrop
    simpa only [List.append_assoc, List.singleton_append] using hdrop
  obtain ⟨hstems, rfl⟩ := append_blank_injective (hblank suffix hsuffix) (hblank suffix' hsuffix') hcut
  have hstems := List.append_cancel_right hstems
  refine ⟨?_, rfl⟩
  rw [← append_splitFilenameForConflict name, ← append_splitFilenameForConflict name', hstems, hext]

theorem mem_formatConflictName {name suffix : List Char} {c : Char}
    (h : c ∈ formatConflictName name suffix) :
    c ∈ name ∨ c ∈ " (conflict ".toList ∨ c ∈ suffix ∨ c ∈ ")".toList := by
  have hname := append_splitFilenameForConflict name
  rw [formatConflictName_eq, conflictStem] at h
  simp only [List.mem_append] at h
  rcases h with (((h | h) | h) | h) | h
  · exact .inl (hname ▸ List.mem_append_left _ h)
  · exact .inr (.inl h)
  · exact .inr (.inr (.inl h))
  · exact .inr (.inr (.inr h))
  · exact .inl (hname ▸ List.mem_append_right _ h)

/-- A conflict name is a valid component. -/
theorem validComponent_formatConflictName {name suffix : List Char} (hname : ValidComponent name)
    (hsuffix : SuffixText suffix) : ValidComponent (formatConflictName name suffix) := by
  have hblank : ' ' ∈ formatConflictName name suffix := by
    rw [formatConflictName_eq, conflictStem]
    simp only [List.mem_append]
    exact .inl (.inl (.inl (.inr (by decide))))
  have hnot : ∀ c, c ∉ name → c ∉ " (conflict ".toList → ¬SuffixChar c → c ∉ ")".toList →
      c ∉ formatConflictName name suffix := by
    intro c hc hopen hchar hclose h
    rcases mem_formatConflictName h with h | h | h | h
    · exact hc h
    · exact hopen h
    · exact hchar (hsuffix c h)
    · exact hclose h
  refine ⟨?_, ?_, ?_, ?_, ?_⟩
  · exact List.ne_nil_of_mem hblank
  · intro heq
    rw [heq] at hblank
    exact absurd hblank (by decide)
  · intro heq
    rw [heq] at hblank
    exact absurd hblank (by decide)
  · exact hnot '/' hname.2.2.2.1 (by decide) (by decide) (by decide)
  · exact hnot '\x00' hname.2.2.2.2 (by decide) (by decide) (by decide)

end Opbox
