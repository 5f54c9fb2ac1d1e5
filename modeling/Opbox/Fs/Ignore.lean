import Mathlib.Data.List.Infix
import Opbox.Fs.Syscalls

/-!
# Ignore rules

What a scan leaves out (`fs/ignore.rs`): the metadata directory and the temporary files of
projections always, and what the patterns of `.opboxignore` say.  The patterns are matched by a
library.
-/

namespace Opbox

/-- `METADATA_DIR_NAME`. -/
def metadataDirName : Component := ".opbox".toList

/-- `IGNORE_FILE_NAME`. -/
def ignoreFileName : Component := ".opboxignore".toList

/-- The path of the ignore file. -/
def ignoreFilePath : RelativePath :=
  ⟨[ignoreFileName], by simp, by decide +kernel⟩

/-- `is_projection_temp_component`. -/
def isProjectionTempComponent (component : Component) : Bool :=
  decide (component.head? = some '.') && decide (".opbox-tmp-".toList <:+: component)

theorem isProjectionTempComponent_iff {component : Component} :
    isProjectionTempComponent component = true ↔
      component.head? = some '.' ∧ ".opbox-tmp-".toList <:+: component := by
  rw [isProjectionTempComponent, Bool.and_eq_true, decide_eq_true_eq, decide_eq_true_eq]

/-- The component is ignored wherever it stands. -/
def isHardIgnoredComponent (component : Component) : Bool :=
  decide (component = metadataDirName) || isProjectionTempComponent component

theorem isHardIgnoredComponent_iff {component : Component} :
    isHardIgnoredComponent component = true ↔
      component = metadataDirName ∨ isProjectionTempComponent component = true := by
  rw [isHardIgnoredComponent, Bool.or_eq_true, decide_eq_true_eq]

/-- `is_hard_ignored`. -/
def isHardIgnored (path : RelativePath) : Bool := path.components.any isHardIgnoredComponent

/-- The scan reports no file of the daemon's own. -/
def ScanResult.SparesOwnFiles (scan : ScanResult) : Prop :=
  ∀ e ∈ scan.tree.entries, isHardIgnored e.path = false

instance (scan : ScanResult) : Decidable scan.SparesOwnFiles :=
  inferInstanceAs (Decidable (∀ e ∈ scan.tree.entries, _))

/-- `ignore::Match`. -/
inductive Match where
  | none
  | ignore
  | whitelist
  deriving DecidableEq, Repr

/-- `Match::is_ignore`. -/
def Match.isIgnore : Match → Bool
  | ignore => true
  | _ => false

/-- The gitignore matcher of the `ignore` library. -/
class Gitignore where
  /-- `GitignoreBuilder`. -/
  Builder : Type
  /-- A compiled matcher. -/
  Matcher : Type
  /-- `GitignoreBuilder::new`. -/
  new : Builder
  /-- `GitignoreBuilder::add`, from when the file is open: the patterns of its lines, and an error if
  some of them are none. -/
  addLines : Builder → Bytes → Builder × Option String
  /-- `GitignoreBuilder::build`. -/
  build : Builder → Except String Matcher
  /-- `Gitignore::matched_path_or_any_parents`. -/
  matchedPathOrAnyParents : Matcher → List Char → Bool → Match

/-- `IgnoreRules`. -/
structure IgnoreRules [Gitignore] where
  /-- The compiled patterns. -/
  matcher : Gitignore.Matcher

namespace IgnoreRules

variable [Gitignore] {σ : Type} [Syscalls σ]

/-- `is_ignored`. -/
def isIgnored (rules : IgnoreRules) (path : RelativePath) (isDir : Bool) : Bool :=
  isHardIgnored path ||
    (Gitignore.matchedPathOrAnyParents rules.matcher path.toDbPath isDir).isIgnore

/-- `from_builder`. -/
def fromBuilder (builder : Gitignore.Builder) : Except Report IgnoreRules :=
  match Gitignore.build builder with
  | .ok matcher => .ok ⟨matcher⟩
  | .error message => .error (.bail message)

/-- `GitignoreBuilder::add` of the ignore file. -/
def addFile (read : Except IoErrorKind Bytes) : Gitignore.Builder × Option Report :=
  match read with
  | .ok bytes =>
    let added := Gitignore.addLines Gitignore.new bytes
    (added.1, added.2.map .bail)
  | .error kind => (Gitignore.new, some (.io kind))

/-- `load`: an error does not count if there is no ignore file. -/
def load : Fio σ IgnoreRules := do
  let added := addFile (← Effect.call (Syscalls.read ignoreFilePath))
  match added.2 with
  | none => liftM (fromBuilder added.1)
  | some error =>
    if ← Effect.call (Syscalls.pathExists ignoreFilePath) then throw error
    else liftM (fromBuilder added.1)

end IgnoreRules

/-- What lies below an ignored component is ignored. -/
theorem isHardIgnored_mono {path path' : RelativePath}
    (h : path.components <+: path'.components) (hpath : isHardIgnored path = true) :
    isHardIgnored path' = true := by
  obtain ⟨component, hmem, hcomponent⟩ := List.any_eq_true.mp hpath
  exact List.any_eq_true.mpr ⟨component, h.subset hmem, hcomponent⟩

end Opbox
