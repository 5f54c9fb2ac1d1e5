import Opbox.Fs.Path

/-!
# The text of a path

Paths are stored as text and parsed whenever they are read (`fs/types.rs`).  The text of a path is its
components joined by slashes.  A valid component has no slash in it and is not empty, so the text can be
split again, and it neither starts nor ends with a slash.  The other way round, a text that passes these
two checks is the join of what it is split into.
-/

namespace Opbox

namespace RelativePath

/-- The join starts as its first component does. -/
theorem head?_intercalate {c : Component} (hc : c ≠ []) (cs : List Component) :
    (['/'].intercalate (c :: cs)).head? = c.head? := by
  cases cs with
  | nil => rw [List.intercalate_singleton]
  | cons d ds =>
    rw [List.intercalate_cons_cons, List.append_assoc]
    exact List.head?_append_of_ne_nil _ hc

/-- The join ends as its last component does. -/
theorem getLast?_intercalate {cs : List Component} (hcs : ∀ c ∈ cs, c ≠ []) :
    (['/'].intercalate cs).getLast? = cs.getLast?.bind List.getLast? := by
  induction cs with
  | nil => rfl
  | cons c cs ih =>
    cases cs with
    | nil =>
      rw [List.intercalate_singleton]
      rfl
    | cons d ds =>
      have ih' := ih fun x hx => hcs x (List.mem_cons_of_mem _ hx)
      have hd : d ≠ [] := hcs d (List.mem_cons_of_mem _ List.mem_cons_self)
      have hjoin : ['/'].intercalate (d :: ds) ≠ [] := by
        intro hnil
        have hhead := head?_intercalate hd ds
        rw [hnil] at hhead
        exact hd (List.head?_eq_none_iff.mp hhead.symm)
      rw [List.intercalate_cons_cons, List.getLast?_append_of_ne_nil _ hjoin, ih',
        List.getLast?_cons_cons]

/-- The text of a path does not start with a slash. -/
theorem head?_toDbPath (p : RelativePath) : p.toDbPath.head? ≠ some '/' := by
  obtain ⟨c, cs, hcs⟩ := List.exists_cons_of_ne_nil p.nonempty
  have hc := p.valid c (hcs ▸ List.mem_cons_self)
  rw [toDbPath, hcs, head?_intercalate hc.1]
  exact fun hslash => hc.2.2.2.1 (List.mem_of_head? hslash)

/-- Nor does it end with one. -/
theorem getLast?_toDbPath (p : RelativePath) : p.toDbPath.getLast? ≠ some '/' := by
  rw [toDbPath, getLast?_intercalate fun c hc => (p.valid c hc).1]
  intro hslash
  obtain ⟨c, hc, hlast⟩ := Option.bind_eq_some_iff.mp hslash
  exact (p.valid c (List.mem_of_getLast? hc)).2.2.2.1 (List.mem_of_getLast? hlast)

/-- It is not empty. -/
theorem toDbPath_ne_nil (p : RelativePath) : p.toDbPath ≠ [] := by
  intro hnil
  have hsplit := splitOn_toDbPath p
  rw [hnil, List.splitOn_nil] at hsplit
  exact (p.valid [] (hsplit ▸ List.mem_singleton_self _)).1 rfl

/-- The text of a path is parsed back. -/
theorem parse_toDbPath (p : RelativePath) : parse p.toDbPath = .ok p := by
  unfold parse
  dsimp only
  rw [if_neg p.toDbPath_ne_nil, if_neg p.head?_toDbPath, if_neg p.getLast?_toDbPath,
    splitOn_toDbPath, new_components]

/-- What is parsed has the text it was parsed from. -/
theorem toDbPath_of_parse {s : List Char} {p : RelativePath} (h : parse s = .ok p) :
    p.toDbPath = s := by
  unfold parse at h
  dsimp only at h
  split_ifs at h
  rw [toDbPath, components_of_new h]
  exact List.intercalate_splitOn '/'

/-- The text codec of paths: exactly the joins of valid components are parsed, to the path with that
text; and paths are the same exactly if their texts are. -/
theorem path_text_codec (s : List Char) :
    ((∃ p, parse s = .ok p) ↔
      ∃ cs : List Component, cs ≠ [] ∧ (∀ c ∈ cs, ValidComponent c) ∧ s = ['/'].intercalate cs) ∧
    (∀ p, parse s = .ok p ↔ p.toDbPath = s) ∧
    ∀ p q : RelativePath, p.toDbPath = q.toDbPath ↔ p = q := by
  have hparse : ∀ p, parse s = .ok p ↔ p.toDbPath = s := by
    intro p
    constructor
    · exact toDbPath_of_parse
    · rintro rfl
      exact parse_toDbPath p
  refine ⟨⟨?_, ?_⟩, hparse, fun p q => toDbPath_injective.eq_iff⟩
  · rintro ⟨p, hp⟩
    exact ⟨p.components, p.nonempty, p.valid, (toDbPath_of_parse hp).symm⟩
  · rintro ⟨cs, hne, hvalid, rfl⟩
    exact ⟨⟨cs, hne, hvalid⟩, parse_toDbPath ⟨cs, hne, hvalid⟩⟩

end RelativePath

end Opbox
