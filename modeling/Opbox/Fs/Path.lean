import Mathlib.Data.List.Lex
import Mathlib.Data.Char
import Mathlib.Tactic.Common

/-!
# Relative paths

Paths relative to the sync root, with their components checked, and the scopes of a scan
(`fs/types.rs`).
-/

namespace Opbox

/-- A component of a path. -/
abbrev Component := List Char

/-- `validate_component`. -/
def validateComponent (component : Component) : Except String Unit :=
  let shown := (String.ofList component).quote
  if component = [] then .error "relative path component must not be empty"
  else if component = ['.'] ∨ component = ['.', '.'] then
    .error s!"relative path component must not be {shown}"
  else if '/' ∈ component then .error s!"relative path component must not contain /: {shown}"
  else if '\x00' ∈ component then .error "relative path component must not contain NUL"
  else .ok ()

/-- What a path component must be. -/
def ValidComponent (component : Component) : Prop :=
  component ≠ [] ∧ component ≠ ['.'] ∧ component ≠ ['.', '.'] ∧ '/' ∉ component ∧
    '\x00' ∉ component

instance (component : Component) : Decidable (ValidComponent component) := by
  unfold ValidComponent; infer_instance

theorem validateComponent_eq_ok {component : Component} :
    validateComponent component = .ok () ↔ ValidComponent component := by
  unfold validateComponent ValidComponent
  split_ifs <;> simp_all
  tauto

/-- A path below the sync root: at least one component, all of them valid. -/
structure RelativePath where
  /-- The components, outermost first. -/
  components : List Component
  /-- The root itself is not a relative path. -/
  nonempty : components ≠ []
  /-- Every component has been checked. -/
  valid : ∀ c ∈ components, ValidComponent c
  deriving DecidableEq

namespace RelativePath

theorem components_injective : Function.Injective components := by
  rintro ⟨_, _, _⟩ ⟨_, _, _⟩ rfl
  rfl

/-- Paths are ordered by their components. -/
instance : LinearOrder RelativePath := LinearOrder.lift' components components_injective

/-- The checks of `RelativePath::new` over all components. -/
def validateComponents : List Component → Except String Unit
  | [] => .ok ()
  | c :: cs => do
    validateComponent c
    validateComponents cs

theorem validateComponents_eq_ok {cs : List Component} :
    validateComponents cs = .ok () ↔ ∀ c ∈ cs, ValidComponent c := by
  induction cs with
  | nil => simp [validateComponents]
  | cons c cs ih =>
    rw [List.forall_mem_cons, ← validateComponent_eq_ok, ← ih]
    cases h : validateComponent c <;> simp [validateComponents, h, bind, Except.bind]

/-- `RelativePath::new`. -/
def new (components : List Component) : Except String RelativePath :=
  if hne : components = [] then .error "relative path must have at least one component"
  else
    match h : validateComponents components with
    | .error e => .error e
    | .ok () => .ok ⟨components, hne, validateComponents_eq_ok.mp h⟩

@[simp] theorem new_components (p : RelativePath) : new p.components = .ok p := by
  have hok := validateComponents_eq_ok.mpr p.valid
  unfold new
  rw [dif_neg p.nonempty]
  split
  next e he => simp [hok] at he
  next h => rfl

/-- A path made by `new` has the given components. -/
theorem components_of_new {cs : List Component} {p : RelativePath} (h : new cs = .ok p) :
    p.components = cs := by
  unfold new at h
  split_ifs at h with hne
  split at h
  · cases h
  · cases h; rfl

/-- `new` accepts valid components. -/
theorem exists_new_iff {cs : List Component} :
    (∃ p, new cs = .ok p) ↔ cs ≠ [] ∧ ∀ c ∈ cs, ValidComponent c := by
  constructor
  · rintro ⟨p, hp⟩
    exact components_of_new hp ▸ ⟨p.nonempty, p.valid⟩
  · rintro ⟨hne, hvalid⟩
    exact ⟨⟨cs, hne, hvalid⟩, new_components ⟨cs, hne, hvalid⟩⟩

/-- `RelativePath::parse`. -/
def parse (value : List Char) : Except String RelativePath :=
  let shown := (String.ofList value).quote
  if value = [] then .error "relative path must not be empty"
  else if value.head? = some '/' then .error s!"relative path must not start with /: {shown}"
  else if value.getLast? = some '/' then .error s!"relative path must not end with /: {shown}"
  else new (value.splitOn '/')

/-- The components joined by slashes. -/
def toDbPath (p : RelativePath) : List Char := ['/'].intercalate p.components

/-- The last component. -/
def fileName (p : RelativePath) : Component := p.components.getLast p.nonempty

/-- The path without its last component. -/
def parent (p : RelativePath) : Option RelativePath :=
  if h : p.components.dropLast = [] then none
  else some ⟨p.components.dropLast, h, fun c hc => p.valid c (List.dropLast_subset _ hc)⟩

/-- The path with its last component replaced. -/
def withFileName (p : RelativePath) (name : Component) : Except String RelativePath :=
  match h : validateComponent name with
  | .error e => .error e
  | .ok () => .ok ⟨p.components.dropLast ++ [name], by simp, by
      intro c hc
      rcases List.mem_append.mp hc with hc | hc
      · exact p.valid c (List.dropLast_subset _ hc)
      · exact List.mem_singleton.mp hc ▸ validateComponent_eq_ok.mp h⟩

theorem dropLast_append_fileName (p : RelativePath) :
    p.components.dropLast ++ [p.fileName] = p.components :=
  List.dropLast_append_getLast p.nonempty

/-! ## The text of a path -/

theorem splitOn_toDbPath (p : RelativePath) : p.toDbPath.splitOn '/' = p.components :=
  List.splitOn_intercalate '/' (fun c hc => (p.valid c hc).2.2.2.1) p.nonempty

/-- Paths with the same text are equal. -/
theorem toDbPath_injective : Function.Injective toDbPath := fun p q h =>
  components_injective (by rw [← splitOn_toDbPath p, h, splitOn_toDbPath q])

end RelativePath

/-- What a scan covers. -/
inductive ScanScope where
  /-- The whole sync root. -/
  | full
  /-- A directory and everything below it. -/
  | subtree (path : RelativePath)
  /-- One path. -/
  | singleFile (path : RelativePath)
  deriving DecidableEq

/-- `ScanScope::contains_path`. -/
def ScanScope.containsPath : ScanScope → RelativePath → Bool
  | .full, _ => true
  | .singleFile single, path => decide (path = single)
  | .subtree top, path =>
    decide (path = top) || top.components.isPrefixOf path.components

end Opbox
