import Opbox.Engine.Clone
import Opbox.Engine.QuietCycle

/-!
# Cloning: what was pulled is written to the sync root

A clone that has pulled the shared log plans one projection and carries it out itself, action by action
(`run` of `engine/clone.rs`).  Nothing is accepted yet, so the plan has writes only, each on the condition
that no file is there.  A clone that may clobber drops the conditions; any other one has looked before
that the sync root is empty, and changes no file that is there, be it an ignored one.
-/

namespace Opbox

variable {D : Type}

/-! ## The projection of a clone -/

/-- The semantic actor and the files of a clone. -/
structure CloneParties (D F : Type) where
  /-- The semantic actor. -/
  semantic : SemanticActor D
  /-- The files. -/
  files : F

/-- Why the projection of a clone fails. -/
inductive CloneFailure where
  /-- The clone bails. -/
  | report (text : String)
  /-- The semantic actor has failed a request. -/
  | semantic
  deriving DecidableEq

/-- A part of a clone. -/
abbrev CloneRun (D F α : Type) := Effect (CloneParties D F) CloneFailure α

/-- `unguard_write_action`. -/
def unguardWriteAction (action : ProjectionAction D) : Except CloneFailure (ProjectionAction D) :=
  match action.kind with
  | .writeFile path bytes _ => .ok { action with kind := .writeFile path bytes .anything }
  | .deleteFile path _ =>
    let shown := String.ofList path.toDbPath
    .error (.report s!"clone projection plan unexpectedly contains a delete for {shown}")

/-- The action that is applied: a clone that may clobber drops the precondition. -/
def prepareAction (clobber : Bool) (action : ProjectionAction D) :
    Except CloneFailure (ProjectionAction D) :=
  if clobber then unguardWriteAction action else .ok action

/-- The name of a result. -/
def ProjectionActionResult.name : ProjectionActionResult → String
  | writeFile _ _ => "write_file"
  | deleteFile _ _ => "delete_file"
  | failed _ _ => "failed"

/-- `fail_if_projection_action_invalidated`. -/
def failIfProjectionActionInvalidated (result : ProjectionActionResult) : Except CloneFailure Unit :=
  if result.invalidatesProjection then
    let name := result.name
    .error (.report s!"clone projection action invalidated projection; result={name}")
  else .ok ()

section Check

variable {F : Type} [Syscalls F]

/-- Look at the files. -/
def onFiles {α : Type} (m : Fio F α) : CloneRun D F α := do
  let answer ← Effect.call fun s => ((m.exec s.files).1, { s with files := (m.exec s.files).2 })
  liftM (answer.mapError fun report => CloneFailure.report report.shown)

/-- The check that the sync root is empty, with fuel for the walk. -/
def checkEmpty [Gitignore] (fuel : Nat) : CloneRun D F (Option Unit) := do
  match ← onFiles (scan fuel .full) with
  | none => pure none
  | some result =>
    if result.tree.entries ≠ [] then
      let count := result.tree.entries.length
      throw (.report s!"clone sync root is not empty; observed {count} entries")
    else pure (some ())

end Check

section Run

variable {F : Type} [FileCalls F] [Xxh3]

/-- Hand an action to the file layer. -/
def applyAction (random : ProjectionActionId → Fin (2 ^ 64)) (action : ProjectionAction D) :
    CloneRun D F ProjectionActionResult :=
  Effect.call fun s =>
    let (result, files) := applyProjectionAction (random action.id) action s.files
    (result, { s with files := files })

variable [TextCrdt D] [CharDiff] [DecidableEq D]

/-- Hand a request to the semantic actor. -/
def askSemantic (request : SemanticRequest D) : CloneRun D F Unit := do
  match (← Effect.call fun s => (s, s)).semantic.step request with
  | none => throw .semantic
  | some semantic => Effect.call fun s => ((), { s with semantic := semantic })

/-- The loop over the actions of the plan. -/
def projectActions (clobber : Bool) (random : ProjectionActionId → Fin (2 ^ 64)) :
    List (ProjectionAction D) → CloneRun D F Nat
  | [] => pure 0
  | action :: actions => do
    let action ← liftM (prepareAction clobber action)
    let result ← applyAction random action
    liftM (failIfProjectionActionInvalidated result)
    askSemantic (.commitProjectionAction result)
    let projectedActions ← projectActions clobber random actions
    pure (projectedActions + 1)

/-- The part of `run` after the pull: the number of actions that were carried out. -/
def projectWork (clobber : Bool) (random : ProjectionActionId → Fin (2 ^ 64)) (now : Timestamp) :
    CloneRun D F Nat := do
  askSemantic .getNextWork
  match (← Effect.call fun s => (s, s)).semantic.active with
  | .idle => pure 0
  | .importing _ => throw (.report "clone returned import work after pulling shared log")
  | .projecting active => do
    let projectedActions ← projectActions clobber random active.started.actions
    askSemantic (.commitProjectionEpoch .planExhausted now)
    pure projectedActions

end Run

/-! ## The loop and the plan -/

section Loop

variable {F : Type} [FileCalls F] [Xxh3] [TextCrdt D] [CharDiff] [DecidableEq D] {clobber : Bool}
  {random : ProjectionActionId → Fin (2 ^ 64)} {s s' : CloneParties D F}

omit [FileCalls F] in
theorem exec_askSemantic_of_some {request : SemanticRequest D} {semantic : SemanticActor D}
    (h : s.semantic.step request = some semantic) :
    (askSemantic request : CloneRun D F Unit).exec s = (.ok (), { s with semantic := semantic }) := by
  rw [askSemantic, Effect.exec_bind, Effect.exec_call]
  simp only [h]
  rfl

omit [FileCalls F] in
theorem exec_askSemantic_of_none {request : SemanticRequest D} (h : s.semantic.step request = none) :
    (askSemantic request : CloneRun D F Unit).exec s = (.error .semantic, s) := by
  rw [askSemantic, Effect.exec_bind, Effect.exec_call]
  simp only [h]
  rfl

omit [FileCalls F] in
theorem exec_askSemantic_eq_ok {request : SemanticRequest D} :
    (askSemantic request : CloneRun D F Unit).exec s = (.ok (), s') ↔
      s.semantic.step request = some s'.semantic ∧ s'.files = s.files := by
  obtain ⟨semantic', files'⟩ := s'
  cases h : s.semantic.step request with
  | none => simp [exec_askSemantic_of_none h]
  | some semantic => simp [exec_askSemantic_of_some h, eq_comm]

omit [FileCalls F] in
/-- Asking the semantic actor leaves the files alone. -/
theorem files_of_askSemantic (request : SemanticRequest D) :
    ((askSemantic request : CloneRun D F Unit).exec s).2.files = s.files := by
  cases h : s.semantic.step request with
  | none => rw [exec_askSemantic_of_none h]
  | some semantic => rw [exec_askSemantic_of_some h]

/-- A step of the loop: the action lands, and the semantic actor records its result. -/
theorem exec_projectActions_cons {action action' : ProjectionAction D}
    {actions : List (ProjectionAction D)} {n : Nat} {result : ProjectionActionResult} {files : F}
    (h : prepareAction clobber action = .ok action')
    (happly : applyProjectionAction (random action'.id) action' s.files = (result, files)) :
    (projectActions clobber random (action :: actions)).exec s = (.ok n, s') ↔
      result.invalidatesProjection = false ∧ ∃ semantic m,
        s.semantic.step (.commitProjectionAction result) = some semantic ∧
        (projectActions clobber random actions).exec ⟨semantic, files⟩ = (.ok m, s') ∧ n = m + 1 := by
  have hprepared : (liftM (prepareAction clobber action) : CloneRun D F _).exec s = (.ok action', s) := by
    rw [Effect.exec_lift, h]
  have happlied : (applyAction random action').exec s = (.ok result, ⟨s.semantic, files⟩) := by
    simp only [applyAction, Effect.exec_call, happly]
  rw [projectActions, Effect.exec_bind_ok hprepared, Effect.exec_bind_ok happlied]
  constructor
  · intro hexec
    obtain ⟨_, t, hchecked, hexec⟩ := Effect.exec_bind_eq_ok.mp hexec
    obtain ⟨_, t', hasked, hexec⟩ := Effect.exec_bind_eq_ok.mp hexec
    obtain ⟨m, t'', hrest, hend⟩ := Effect.exec_bind_eq_ok.mp hexec
    obtain ⟨hvalid, rfl⟩ := Prod.mk.inj hchecked
    obtain ⟨hstep, hfiles⟩ := exec_askSemantic_eq_ok.mp hasked
    obtain ⟨hn, rfl⟩ := Prod.mk.inj hend
    obtain ⟨semantic, files'⟩ := t'
    cases hfiles
    unfold failIfProjectionActionInvalidated at hvalid
    split_ifs at hvalid with hinvalid
    exact ⟨Bool.eq_false_of_not_eq_true hinvalid, semantic, m, hstep, hrest,
      (Except.ok.inj hn).symm⟩
  · rintro ⟨hvalid, semantic, m, hstep, hrest, rfl⟩
    have hchecked : (liftM (failIfProjectionActionInvalidated result) : CloneRun D F Unit).exec
        ⟨s.semantic, files⟩ = (.ok (), ⟨s.semantic, files⟩) := by
      rw [Effect.exec_lift, failIfProjectionActionInvalidated, hvalid]
      rfl
    have hasked : (askSemantic (.commitProjectionAction result) : CloneRun D F Unit).exec
        ⟨s.semantic, files⟩ = (.ok (), ⟨semantic, files⟩) :=
      exec_askSemantic_eq_ok.mpr ⟨hstep, rfl⟩
    rw [Effect.exec_bind_ok hchecked, Effect.exec_bind_ok hasked, Effect.exec_bind_ok hrest]
    rfl

/-- The loop ends well if no action misses its target and every result is recorded. -/
theorem exec_projectActions (writer : DaemonWriterId) {plan plan' : List (ProjectionAction D)} {n : Nat}
    (h : List.Forall₂ (fun a a' => prepareAction clobber a = .ok a') plan plan') :
    (projectActions clobber random plan).exec s = (.ok n, s') ↔
      n = plan.length ∧ AllLand (carryOut random plan' s.files).1 ∧
        s'.files = (carryOut random plan' s.files).2 ∧
        (daemonMachine D writer).exec s.semantic
          (((carryOut random plan' s.files).1.map .commitProjectionAction).map .serve) =
            some s'.semantic := by
  induction h generalizing s n with
  | nil =>
    obtain ⟨semantic', files'⟩ := s'
    simp only [projectActions, Effect.exec_pure, carryOut, AllLand, Prod.mk.injEq]
    constructor
    · rintro ⟨hn, rfl⟩
      exact ⟨(Except.ok.inj hn).symm, fun r hr => absurd hr List.not_mem_nil, rfl, rfl⟩
    · rintro ⟨rfl, -, rfl, hsemantic⟩
      refine ⟨rfl, ?_⟩
      rw [← Option.some.inj hsemantic]
  | @cons action action' plan plan' hprepare hrest ih =>
    obtain ⟨result, files, happly⟩ : ∃ result files,
      applyProjectionAction (random action'.id) action' s.files = (result, files) := ⟨_, _, rfl⟩
    rw [exec_projectActions_cons hprepare happly]
    cases hvalid : result.invalidatesProjection with
    | true =>
      rw [carryOut_cons_of_misses happly hvalid]
      refine iff_of_false (fun h => by cases h.1) ?_
      rintro ⟨-, hlands, -⟩
      rw [hlands result (List.mem_singleton_self _)] at hvalid
      cases hvalid
    | false =>
      rw [carryOut_cons_of_lands happly hvalid]
      simp only [ih, List.map_cons, Machine.exec, Option.bind_eq_some_iff, List.length_cons]
      constructor
      · rintro ⟨-, semantic, m, hstep, ⟨rfl, hlands, hfiles, hexec⟩, rfl⟩
        exact ⟨rfl, List.forall_mem_cons.mpr ⟨hvalid, hlands⟩, hfiles, semantic, hstep, hexec⟩
      · rintro ⟨rfl, hlands, hfiles, semantic, hstep, hexec⟩
        exact ⟨trivial, semantic, plan.length, hstep,
          ⟨rfl, fun r hr => hlands r (List.mem_cons_of_mem _ hr), hfiles, hexec⟩, rfl⟩

/-- However the loop ends: what each action keeps of the files holds at the end, be it after an action
that missed its target. -/
theorem files_of_projectActions {P Q : F → Prop} {plan plan' : List (ProjectionAction D)}
    (h : List.Forall₂ (fun a a' => prepareAction clobber a = .ok a') plan plan')
    (hends : ∀ files, P files → Q files)
    (hstep : ∀ a ∈ plan', ∀ files result files', P files →
      applyProjectionAction (random a.id) a files = (result, files') →
      Q files' ∧ (result.invalidatesProjection = false → P files')) (hfiles : P s.files) :
    Q ((projectActions clobber random plan).exec s).2.files := by
  induction h generalizing s with
  | nil => exact hends _ hfiles
  | @cons action action' plan plan' hprepare hrest ih =>
    obtain ⟨result, files, happly⟩ : ∃ result files,
      applyProjectionAction (random action'.id) action' s.files = (result, files) := ⟨_, _, rfl⟩
    obtain ⟨hmissed, hlanded⟩ := hstep action' List.mem_cons_self s.files result files hfiles happly
    have hprepared : (liftM (prepareAction clobber action) : CloneRun D F _).exec s =
        (.ok action', s) := by
      rw [Effect.exec_lift, hprepare]
    have happlied : (applyAction random action').exec s = (.ok result, ⟨s.semantic, files⟩) := by
      simp only [applyAction, Effect.exec_call, happly]
    rw [projectActions, Effect.exec_bind_ok hprepared, Effect.exec_bind_ok happlied]
    refine Effect.exec_bind_ends (Q := fun t : CloneParties D F => Q t.files) (fun e t hfails => ?_)
      fun _ t hchecked => ?_
    · rw [Effect.exec_lift] at hfails
      obtain ⟨-, rfl⟩ := Prod.mk.inj hfails
      exact hmissed
    · rw [Effect.exec_lift] at hchecked
      obtain ⟨hvalid, rfl⟩ := Prod.mk.inj hchecked
      unfold failIfProjectionActionInvalidated at hvalid
      split_ifs at hvalid with hinvalid
      have hgoes := hlanded (Bool.eq_false_of_not_eq_true hinvalid)
      refine Effect.exec_bind_ends (Q := fun t : CloneParties D F => Q t.files)
        (fun e t hasked => ?_) fun _ t hasked => ?_
      · have hsame := files_of_askSemantic (s := ⟨s.semantic, files⟩) (.commitProjectionAction result)
        rw [hasked] at hsame
        rw [hsame]
        exact hends _ hgoes
      · have hsame := files_of_askSemantic (s := ⟨s.semantic, files⟩) (.commitProjectionAction result)
        rw [hasked] at hsame
        have hloop := ih (fun a ha => hstep a (List.mem_cons_of_mem _ ha)) (s := t) (by rwa [hsame])
        refine Effect.exec_bind_ends (Q := fun t : CloneParties D F => Q t.files)
          (fun e t' hrest => ?_) fun n t' hrest => ?_
        · rwa [hrest] at hloop
        · rwa [hrest] at hloop

/-- A clone with nothing to project. -/
theorem exec_projectWork_idle {now : Timestamp} {planned : SemanticActor D}
    (h : s.semantic.step .getNextWork = some planned) (hidle : planned.active = .idle) :
    (projectWork clobber random now).exec s = (.ok 0, ⟨planned, s.files⟩) := by
  have hasked : (askSemantic .getNextWork : CloneRun D F Unit).exec s = (.ok (), ⟨planned, s.files⟩) :=
    exec_askSemantic_eq_ok.mpr ⟨h, rfl⟩
  rw [projectWork, Effect.exec_bind_ok hasked, Effect.exec_bind, Effect.exec_call]
  simp only [hidle]
  rfl

/-- A clone with a plan carries it out and commits the epoch. -/
theorem exec_projectWork_projecting {now : Timestamp} {planned : SemanticActor D}
    {active : ActiveProjectionEpoch D} {n : Nat} (h : s.semantic.step .getNextWork = some planned)
    (hactive : planned.active = .projecting active) :
    (projectWork clobber random now).exec s = (.ok n, s') ↔ ∃ t,
      (projectActions clobber random active.started.actions).exec ⟨planned, s.files⟩ = (.ok n, t) ∧
        t.semantic.step (.commitProjectionEpoch .planExhausted now) = some s'.semantic ∧
        s'.files = t.files := by
  have hasked : (askSemantic .getNextWork : CloneRun D F Unit).exec s = (.ok (), ⟨planned, s.files⟩) :=
    exec_askSemantic_eq_ok.mpr ⟨h, rfl⟩
  rw [projectWork, Effect.exec_bind_ok hasked, Effect.exec_bind, Effect.exec_call]
  simp only [hactive]
  rw [Effect.exec_bind_eq_ok]
  constructor
  · rintro ⟨m, t, hactions, hexec⟩
    obtain ⟨_, t', hcommit, hend⟩ := Effect.exec_bind_eq_ok.mp hexec
    obtain ⟨hm, rfl⟩ := Prod.mk.inj hend
    obtain ⟨hstep, hfiles⟩ := exec_askSemantic_eq_ok.mp hcommit
    cases hm
    exact ⟨t, hactions, hstep, hfiles⟩
  · rintro ⟨t, hactions, hstep, hfiles⟩
    refine ⟨n, t, hactions, ?_⟩
    rw [Effect.exec_bind_ok (exec_askSemantic_eq_ok.mpr ⟨hstep, hfiles⟩)]
    rfl

/-- However the projection ends, it leaves the files as its loop does. -/
theorem files_of_projectWork {now : Timestamp} {planned : SemanticActor D}
    {active : ActiveProjectionEpoch D} (h : s.semantic.step .getNextWork = some planned)
    (hactive : planned.active = .projecting active) :
    ((projectWork clobber random now).exec s).2.files =
      ((projectActions clobber random active.started.actions).exec ⟨planned, s.files⟩).2.files := by
  have hasked : (askSemantic .getNextWork : CloneRun D F Unit).exec s = (.ok (), ⟨planned, s.files⟩) :=
    exec_askSemantic_eq_ok.mpr ⟨h, rfl⟩
  rw [projectWork, Effect.exec_bind_ok hasked, Effect.exec_bind, Effect.exec_call]
  simp only [hactive]
  refine Effect.exec_bind_ends (Q := fun t : CloneParties D F => t.files = _) (fun e t hfails => ?_)
    fun n t hloop => ?_
  · rw [hfails]
  · rw [hloop]
    have hsame := files_of_askSemantic (s := t) (.commitProjectionEpoch .planExhausted now)
    refine Effect.exec_bind_ends (Q := fun t' : CloneParties D F => t'.files = t.files)
      (fun e t' hcommit => ?_) fun _ t' hcommit => ?_
    · rwa [hcommit] at hsame
    · rwa [hcommit] at hsame

end Loop

/-! ## What the semantic actor answers -/

/-- The fingerprint of the file that landed fits the columns of the database. -/
def ProjectionActionResult.Fits (result : ProjectionActionResult) : Prop :=
  ∀ f, result.landed = some f → ∃ columns, fingerprintColumns "prior_tree" f = .ok columns

section Semantic

variable [TextCrdt D] [CharDiff] [Xxh3] [DecidableEq D] {db : Db D} {s s' : SemanticActor D}
  {active : ActiveProjectionEpoch D} {writer : DaemonWriterId}

/-- The desired tree is the same, with its documents. -/
structure SameDesired (db db' : Db D) : Prop where
  /-- The rows of the tree. -/
  stableTree : db'.stableTree = db.stableTree
  /-- The documents. -/
  stableTextObjects : db'.stableTextObjects = db.stableTextObjects

omit [CharDiff] [Xxh3] [DecidableEq D] in
theorem SameDesired.stableSnapshot {db' : Db D} (h : SameDesired db db') :
    db'.stableSnapshot = db.stableSnapshot := by
  funext path
  simp only [Db.stableSnapshot, Db.stableTreeFile, Db.stableText, Db.stableTextObjectDoc, h.stableTree,
    h.stableTextObjects]

omit [CharDiff] [Xxh3] [DecidableEq D] [TextCrdt D] in
theorem SameDesired.trans {db' db'' : Db D} (h : SameDesired db db') (h' : SameDesired db' db'') :
    SameDesired db db'' :=
  ⟨h'.stableTree.trans h.stableTree, h'.stableTextObjects.trans h.stableTextObjects⟩

/-- Planning does not fail: it leaves the trees and their documents alone, and there is an active epoch
if something is planned. -/
theorem exists_plan (hidle : s.active = .idle) : ∃ s₁, s.step .getNextWork = some s₁ ∧
    SameDesired s.db s₁.db ∧ s₁.db.priorTree = s.db.priorTree ∧
    (s.db.plannedProjections = [] → s₁.active = .idle) ∧
    (s.db.plannedProjections ≠ [] → ∃ active, s₁.active = .projecting active ∧
      active.started.actions = projectionActions s.nextProjectionEpoch s.db.plannedProjections ∧
      active.completed = []) := by
  obtain ⟨s₁, hstep, -, -⟩ := exists_getNextWork hidle
  refine ⟨s₁, hstep, ?_⟩
  cases served_of_step hstep with
  | getNextWork _ hrun =>
    obtain ⟨rfl, rfl⟩ := runs_getNextWorkTx hrun
    refine ⟨⟨rfl, rfl⟩, rfl, fun hnil => ?_, fun hne => ?_⟩
    · rw [if_pos hnil]
      rfl
    · rw [if_neg hne]
      exact ⟨_, rfl, rfl, rfl⟩

/-- Results are recorded without a change of the desired tree. -/
theorem sameDesired_of_commitActions {results : List ProjectionActionResult}
    (h : (daemonMachine D writer).exec s ((results.map .commitProjectionAction).map .serve) = some s') :
    SameDesired s.db s'.db := by
  induction results generalizing s with
  | nil =>
    cases h
    exact ⟨rfl, rfl⟩
  | cons result results ih =>
    rw [List.map_cons, List.map_cons, Machine.exec, Option.bind_eq_some_iff] at h
    obtain ⟨t, hstep, h⟩ := h
    obtain ⟨htree, htexts⟩ := ih h
    have hserved : Served s (.commitProjectionAction result) t := served_of_step hstep
    cases hserved with
    | commitProjectionAction hactive hcontext hrun =>
      obtain ⟨-, rfl⟩ | ⟨stat, hash, -, rfl⟩ := runs_commitProjectionAction hrun
      · exact ⟨htree, htexts⟩
      · dsimp only at htree htexts
        split_ifs at htree htexts
        · exact ⟨htree, htexts⟩
        · exact ⟨htree, htexts⟩

/-- The commit of the epoch accepts its actions, in the order of the plan. -/
theorem accepted_of_commitEpoch {now : Timestamp} (hactive : s.active = .projecting active)
    (h : s.step (.commitProjectionEpoch .planExhausted now) = some s') :
    SameDesired s.db s'.db ∧
      Runs (forM active.finish.actions (commitCompletedProjectionActionTx now))
        { s.db with priorNamespace := active.started.targetNamespaceDocBlob } ⟨⟩ s'.db := by
  cases served_of_step h with
  | @commitProjectionEpoch _ _ active' u db' hactive' hcomplete hrun =>
    rw [hactive] at hactive'
    cases hactive'
    obtain ⟨hreason, -⟩ | ⟨-, hrun⟩ := runs_commitProjectionEpochTx hrun
    · exact absurd rfl hreason
    · refine ⟨?_, hrun⟩
      dsimp only
      rw [runs_commitCompletedProjectionActions_frame hrun]
      exact ⟨rfl, rfl⟩

omit [CharDiff] [Xxh3] [DecidableEq D] [TextCrdt D] in
/-- The actions of an epoch with their results. -/
theorem actions_finish {results : List ProjectionActionResult}
    (hids : List.Forall₂ (fun action result => result.actionId = action.id) active.started.actions
      results)
    (hnodup : (active.completed.map ProjectionActionResult.actionId).Nodup)
    (hresults : ∀ result ∈ results, result ∈ active.completed) :
    active.finish.actions = completedActions active.started.actions results := by
  have hfind : List.Forall₂ (fun action result =>
      active.completed.find? (fun r => r.actionId = action.id) = some result) active.started.actions
        results := by
    obtain ⟨hlength, hpairs⟩ := List.forall₂_iff_zip.mp hids
    refine List.forall₂_iff_zip.mpr ⟨hlength, fun {action result} hmem => ?_⟩
    have hresult := hresults result (List.of_mem_zip hmem).2
    have hid := hpairs hmem
    obtain ⟨r, hr⟩ : ∃ r, active.completed.find? (fun r => r.actionId = action.id) = some r :=
      Option.isSome_iff_exists.mp (List.find?_isSome.mpr ⟨result, hresult, by simp [hid]⟩)
    have hsame : r.actionId = action.id := by simpa using List.find?_some hr
    rw [hr, List.inj_on_of_nodup_map hnodup (List.mem_of_find?_eq_some hr) hresult
      (hsame.trans hid.symm)]
  clear hids hresults
  unfold ActiveProjectionEpoch.finish completedActions
  dsimp only
  generalize active.started.actions = actions at hfind
  induction hfind with
  | nil => rfl
  | @cons action result actions results hhead hrest ih =>
    rw [List.filterMap_cons, hhead, List.zipWith_cons_cons]
    exact congrArg _ ih

omit [CharDiff] [Xxh3] [TextCrdt D] [DecidableEq D] in
/-- The commit of a result fails only if the fingerprint of its file does not fit. -/
theorem exists_runs_commitProjectionAction {context : ProjectionActionCommitContext D}
    {result : ProjectionActionResult} (h : result.Fits) :
    ∃ db', Runs (commitProjectionAction context result) db ⟨⟩ db' := by
  have hmark : ∀ path f, result.landed = some f →
      ∃ db', Runs (markProjectionWriteIntentApplied path f) db ⟨⟩ db' := by
    intro path f hlanded
    obtain ⟨columns, hcolumns⟩ := h f hlanded
    simp only [markProjectionWriteIntentApplied, Runs.bind_iff, Runs.liftExcept_iff, Runs.modify_iff]
    exact ⟨_, columns, db, ⟨fingerprintColumns_table hcolumns, rfl⟩, rfl⟩
  unfold commitProjectionAction
  split
  · exact hmark _ _ rfl
  · exact hmark _ _ rfl
  · exact ⟨db, rfl⟩

/-- The result of an action that succeeded is recorded. -/
theorem Underway.exists_commitAction (h : Underway db active s) {action : ProjectionAction D}
    {result : ProjectionActionResult} (haction : action ∈ active.started.actions)
    (hid : result.actionId = action.id)
    (hnew : action.id ∉ active.completed.map ProjectionActionResult.actionId)
    (hsucceeds : result.succeeds action.kind = true) (hcolumns : result.Fits) :
    ∃ s₁, s.step (.commitProjectionAction result) = some s₁ ∧
      Underway db { active with completed := result :: active.completed } s₁ := by
  have hfind : active.context result = some action.commitContext := by
    have hnodup : (active.started.actions.map ProjectionAction.id).Nodup := by
      obtain ⟨epoch, hplanned⟩ := h.planned
      rw [hplanned]
      exact nodup_projectionActions _ _
    have hsame : ∀ a ∈ active.started.actions, a.id = result.actionId → a = action := fun a ha heq =>
      List.inj_on_of_nodup_map hnodup ha haction (heq.trans hid)
    obtain ⟨a, ha⟩ : ∃ a, active.started.actions.find? (fun a => a.id = result.actionId) = some a :=
      Option.isSome_iff_exists.mp (List.find?_isSome.mpr ⟨action, haction, by simp [hid]⟩)
    rw [ActiveProjectionEpoch.context, hid, if_neg hnew, ← hid, ha,
      hsame a (List.mem_of_find?_eq_some ha) (by simpa using List.find?_some ha)]
    rfl
  obtain ⟨db₁, hrun⟩ : ∃ db₁, Runs (commitProjectionAction action.commitContext result) s.db ⟨⟩ db₁ :=
    exists_runs_commitProjectionAction hcolumns
  obtain ⟨⟨htree, htexts⟩, -⟩ := frame_of_commitProjectionAction hrun
  refine ⟨⟨db₁, s.nextImportEpoch, s.nextProjectionEpoch,
    .projecting { active with completed := result :: active.completed }⟩, ?_, rfl, h.target, h.planned,
    ?_, ?_, ?_, htree.trans h.priorTree, htexts.trans h.priorTextObjects⟩
  · unfold SemanticActor.step
    rw [h.projecting]
    dsimp only
    rw [hfind, Option.bind_some, attempt_eq_some_iff.mpr hrun]
    rfl
  · rw [List.map_cons, List.nodup_cons, hid]
    exact ⟨hnew, h.nodup⟩
  · exact List.forall_mem_cons.mpr ⟨⟨action, haction, hid.symm, hsucceeds⟩, h.succeeded⟩
  · exact List.forall_mem_cons.mpr ⟨hcolumns, h.columns⟩

/-- The run of it: the results of some actions that succeeded are recorded, the last one first. -/
theorem Underway.exists_commitActions {actions : List (ProjectionAction D)}
    {results : List ProjectionActionResult} (h : Underway db active s)
    (hresults : List.Forall₂ (fun action result => result.actionId = action.id ∧
      result.succeeds action.kind = true) actions results)
    (hfit : ∀ result ∈ results, result.Fits)
    (hactions : ∀ action ∈ actions, action ∈ active.started.actions)
    (hnodup : (actions.map ProjectionAction.id).Nodup)
    (hnew : ∀ action ∈ actions, action.id ∉ active.completed.map ProjectionActionResult.actionId) :
    ∃ s₁, (daemonMachine D writer).exec s ((results.map .commitProjectionAction).map .serve) =
        some s₁ ∧
      Underway db { active with completed := results.reverse ++ active.completed } s₁ := by
  induction hresults generalizing s active with
  | nil => exact ⟨s, rfl, h⟩
  | @cons action result actions results hresult _ ih =>
    obtain ⟨hid, hsucceeds⟩ := hresult
    rw [List.map_cons, List.nodup_cons] at hnodup
    obtain ⟨s₁, hstep, hunder⟩ := h.exists_commitAction (hactions action List.mem_cons_self) hid
      (hnew action List.mem_cons_self) hsucceeds (hfit result List.mem_cons_self)
    obtain ⟨s₂, hrun, hdone⟩ := ih hunder (fun r hr => hfit r (List.mem_cons_of_mem _ hr))
      (fun a ha => hactions a (List.mem_cons_of_mem _ ha)) hnodup.2 fun a ha => by
        rw [List.map_cons, List.mem_cons, not_or, hid]
        exact ⟨fun heq => hnodup.1 (heq ▸ List.mem_map_of_mem ha), hnew a (List.mem_cons_of_mem _ ha)⟩
    refine ⟨s₂, ?_, ?_⟩
    · rw [List.map_cons, List.map_cons, Machine.exec, Option.bind_eq_some_iff]
      exact ⟨s₁, hstep, hrun⟩
    · rw [List.reverse_cons, List.append_assoc]
      exact hdone

end Semantic

/-! ## The plan of a clone -/

/-- The precondition of the writes of a clone. -/
def cloneGuard (clobber : Bool) : ExpectedBefore := if clobber then .anything else .missing

/-- The kind with another precondition of a write. -/
def ProjectionActionKind.underGuard (expected : ExpectedBefore) :
    ProjectionActionKind → ProjectionActionKind
  | writeFile path bytes _ => .writeFile path bytes expected
  | deleteFile path expectedBefore => .deleteFile path expectedBefore

/-- What a clone applies for an action of its plan. -/
def ProjectionAction.cloned (clobber : Bool) (action : ProjectionAction D) : ProjectionAction D :=
  { action with kind := action.kind.underGuard (cloneGuard clobber) }

@[simp] theorem ProjectionAction.id_cloned (clobber : Bool) (action : ProjectionAction D) :
    (action.cloned clobber).id = action.id := rfl

@[simp] theorem ProjectionAction.path_cloned (clobber : Bool) (action : ProjectionAction D) :
    (action.cloned clobber).kind.path = action.kind.path := by
  unfold cloned ProjectionActionKind.underGuard
  cases action.kind with
  | writeFile path bytes expected => rfl
  | deleteFile path expected => rfl

theorem prepareAction_of_write {clobber : Bool} {action : ProjectionAction D} {path : RelativePath}
    {bytes : Bytes} (h : action.kind = .writeFile path bytes .missing) :
    prepareAction clobber action = .ok (action.cloned clobber) := by
  obtain ⟨id, kind, context⟩ := action
  cases h
  cases clobber with
  | true => rfl
  | false => rfl

theorem kind_cloned {clobber : Bool} {action : ProjectionAction D} {path : RelativePath} {bytes : Bytes}
    {expected : ExpectedBefore} (h : action.kind = .writeFile path bytes expected) :
    (action.cloned clobber).kind = .writeFile path bytes (cloneGuard clobber) := by
  unfold ProjectionAction.cloned
  rw [h]
  rfl

/-- A write of a clone would land on the files as they are if it may clobber, if no file is there, or if
the file has the text already. -/
theorem lands_cloneGuard [Xxh3] {clobber : Bool} {action : ProjectionAction D} {path : RelativePath}
    {bytes : Bytes} {disk : Disk} (h : action.kind = .writeFile path bytes (cloneGuard clobber)) :
    action.kind.Lands disk ↔
      clobber = true ∨ disk.fileAt path = none ∨ ∃ stat, disk.fileAt path = some (stat, bytes) := by
  have hmeets : action.kind.Meets disk ↔ clobber = true ∨ disk.fileAt path = none := by
    rw [h, ProjectionActionKind.Meets]
    cases clobber with
    | true => exact iff_of_true rfl (.inl rfl)
    | false => simp [cloneGuard, ExpectedBefore.meets, ProjectionActionKind.expectedBefore,
        ProjectionActionKind.path]
  rw [ProjectionActionKind.Lands, hmeets, or_assoc, h]
  refine or_congr_right (or_congr_right ⟨?_, ?_⟩)
  · rintro ⟨_, _, _, stat, heq, hfile⟩
    cases heq
    exact ⟨stat, hfile⟩
  · rintro ⟨stat, hfile⟩
    exact ⟨path, bytes, _, stat, rfl, hfile⟩

section Plan

variable [TextCrdt D] [DecidableEq D] {db : Db D} {epoch : Nat} {path : RelativePath}

/-- Where nothing is accepted every action writes a row of the stable tree, on the condition that no file
is there. -/
theorem write_of_unaccepted (hprior : db.priorTree.rows = []) {action : ProjectionAction D}
    (h : action ∈ projectionActions epoch db.plannedProjections) : ∃ path id doc,
      db.stableSnapshot path = some (id, doc) ∧
        action.kind = .writeFile path (TextCrdt.getText doc) .missing := by
  have hnone := priorTreeLiveFile_of_empty (List.length_eq_zero_iff.mpr hprior)
  have hplanned := (mem_projectionActions h).1
  rw [Db.plannedProjections, List.mem_append, List.mem_map, List.mem_map] at hplanned
  rcases hplanned with ⟨⟨row, expected⟩, hrow, heq⟩ | ⟨prior, hdelete, -⟩
  · obtain ⟨hmem, hexpected⟩ := mem_rowsToWrite.mp hrow
    rcases expectedBefore_eq_some hexpected with ⟨-, rfl⟩ | ⟨prior, hlive, -⟩
    · exact ⟨row.path, row.objectId, db.stableText row.objectId, stableSnapshot_of_mem hmem,
        (Prod.mk.inj heq).1.symm⟩
    · rw [hnone] at hlive
      cases hlive
  · have hmem := (mem_rowsToDelete.mp hdelete).1.1
    rw [← Table.mem_rows, hprior] at hmem
    cases hmem

/-- Where nothing is accepted every placed path is written. -/
theorem exists_write_of_unaccepted (hprior : db.priorTree.rows = []) {id : ObjectId} {doc : D}
    (h : db.stableSnapshot path = some (id, doc)) (epoch : Nat) :
    ∃ action ∈ projectionActions epoch db.plannedProjections,
      action.kind = .writeFile path (TextCrdt.getText doc) .missing := by
  have hnone := priorTreeLiveFile_of_empty (List.length_eq_zero_iff.mpr hprior)
  have hdiffers : db.stableSnapshot path ≠ db.priorSnapshot path := by
    rw [priorSnapshot_eq_none_iff.mpr (hnone path), h]
    exact Option.some_ne_none _
  obtain ⟨row, expected, hrow, rfl⟩ := exists_rowsToWrite_iff.mpr
    ⟨by rw [h]; exact Option.some_ne_none _, hdiffers⟩
  have hplanned : db.plannedWrite row expected ∈ db.plannedProjections :=
    List.mem_append_left _ (List.mem_map.mpr ⟨_, hrow, rfl⟩)
  obtain ⟨action, haction, hkind⟩ := exists_action_of_mem hplanned epoch
  obtain ⟨path, id', doc', hplaced, hwrite⟩ := write_of_unaccepted hprior haction
  have hpath : row.path = path := by
    have h := congrArg ProjectionActionKind.path (hkind.symm.trans hwrite)
    exact h
  subst hpath
  rw [h] at hplaced
  cases hplaced
  exact ⟨action, haction, hwrite⟩

end Plan

/-! ## Clones on a volume -/

/-- A clone that has pulled the log, on a volume that nobody else changes. -/
structure CloneReady [TextCrdt D] [DecidableEq D] (random : ProjectionActionId → Fin (2 ^ 64))
    (s : CloneParties D Volume) : Prop where
  /-- The semantic actor is in no epoch. -/
  idle : s.semantic.active = .idle
  /-- Nothing is accepted. -/
  unaccepted : s.semantic.db.priorTree.rows = []
  /-- The volume holds directories and files. -/
  plain : s.files.disk.Plain
  /-- No placed path is hard ignored. -/
  notIgnored : ∀ path, s.semantic.db.stableSnapshot path ≠ none → isHardIgnored path = false
  /-- The swap files are not there. -/
  fresh : ∀ action ∈ projectionActions s.semantic.nextProjectionEpoch s.semantic.db.plannedProjections,
    Volume.Fresh (random action.id) action.kind.path s.files.disk

section Volume

variable [TextCrdt D] [Xxh3] [DecidableEq D] {random : ProjectionActionId → Fin (2 ^ 64)}
  {s s' : CloneParties D Volume} {clobber : Bool}

/-- What a clone applies. -/
def CloneParties.plan (clobber : Bool) (s : CloneParties D Volume) : List (ProjectionAction D) :=
  (projectionActions s.semantic.nextProjectionEpoch s.semantic.db.plannedProjections).map
    (ProjectionAction.cloned clobber)

omit [Xxh3] in
theorem CloneReady.prepared (h : CloneReady random s) (clobber : Bool) :
    List.Forall₂ (fun a a' => prepareAction clobber a = .ok a')
      (projectionActions s.semantic.nextProjectionEpoch s.semantic.db.plannedProjections)
      (s.plan clobber) := by
  rw [CloneParties.plan, List.forall₂_map_right_iff, List.forall₂_same]
  intro action haction
  obtain ⟨path, id, doc, -, hkind⟩ := write_of_unaccepted h.unaccepted haction
  exact prepareAction_of_write hkind

omit [Xxh3] in
/-- What a clone applies writes the placed paths with their texts. -/
theorem CloneReady.write (h : CloneReady random s) {action : ProjectionAction D}
    (haction : action ∈ s.plan clobber) : ∃ path id doc,
      s.semantic.db.stableSnapshot path = some (id, doc) ∧
        action.kind = .writeFile path (TextCrdt.getText doc) (cloneGuard clobber) := by
  obtain ⟨planned, hplanned, rfl⟩ := List.mem_map.mp haction
  obtain ⟨path, id, doc, hplaced, hkind⟩ := write_of_unaccepted h.unaccepted hplanned
  exact ⟨path, id, doc, hplaced, kind_cloned hkind⟩

omit [Xxh3] in
theorem CloneReady.exists_write (h : CloneReady random s) {path : RelativePath} {id : ObjectId} {doc : D}
    (hplaced : s.semantic.db.stableSnapshot path = some (id, doc)) (clobber : Bool) :
    ∃ action ∈ s.plan clobber,
      action.kind = .writeFile path (TextCrdt.getText doc) (cloneGuard clobber) := by
  obtain ⟨action, haction, hkind⟩ := exists_write_of_unaccepted h.unaccepted hplaced
    s.semantic.nextProjectionEpoch
  exact ⟨action.cloned clobber, List.mem_map_of_mem haction, kind_cloned hkind⟩

omit [Xxh3] in
theorem CloneReady.startable (h : CloneReady random s) {action : ProjectionAction D}
    (haction : action ∈ s.plan clobber) : action.Startable random s.files.disk := by
  obtain ⟨path, id, doc, hplaced, hkind⟩ := h.write haction
  obtain ⟨planned, hplanned, rfl⟩ := List.mem_map.mp haction
  refine ⟨?_, ?_⟩
  · rw [hkind]
    exact h.notIgnored path (by rw [hplaced]; exact Option.some_ne_none _)
  · rw [ProjectionAction.path_cloned]
    exact h.fresh planned hplanned

omit [Xxh3] in
theorem nodup_paths_plan (clobber : Bool) (s : CloneParties D Volume) :
    ((s.plan clobber).map fun a => a.kind.path).Nodup := by
  have hpaths : (s.plan clobber).map (fun a => a.kind.path) =
      (projectionActions s.semantic.nextProjectionEpoch s.semantic.db.plannedProjections).map
        fun a => a.kind.path := by
    rw [CloneParties.plan, List.map_map]
    exact List.map_congr_left fun a _ => a.path_cloned clobber
  rw [hpaths]
  exact nodup_paths_projectionActions _ _

/-- The plan of a clone lands exactly if nothing is in the way of a placed path, none is above another
one, and the clone may write over the file there, if there is one with another text. -/
theorem CloneReady.landed (h : CloneReady random s) (clobber : Bool) :
    (AllLand (carryOut random (s.plan clobber) s.files).1 ↔
      ∀ path id doc, s.semantic.db.stableSnapshot path = some (id, doc) →
        s.files.disk.Clear path ∧
        (∀ other : RelativePath, other.IsAbove path → s.semantic.db.stableSnapshot other = none) ∧
        (clobber = true ∨ s.files.disk.fileAt path = none ∨
          ∃ stat, s.files.disk.fileAt path = some (stat, TextCrdt.getText doc))) ∧
    (AllLand (carryOut random (s.plan clobber) s.files).1 →
      PlanLanded (s.plan clobber) (carryOut random (s.plan clobber) s.files).1 s.files.disk
        (carryOut random (s.plan clobber) s.files).2.disk) := by
  obtain ⟨hiff, hdone⟩ := carryOut_writes h.plain (nodup_paths_plan clobber s)
    (fun a ha => h.startable ha) fun a ha => by
      obtain ⟨path, id, doc, -, hkind⟩ := h.write ha
      exact ⟨_, _, _, hkind⟩
  refine ⟨hiff.trans ⟨fun hlands path id doc hplaced => ?_, fun hlands a ha => ?_⟩, hdone⟩
  · obtain ⟨a, ha, hkind⟩ := h.exists_write hplaced clobber
    obtain ⟨hmet, hclear, habove⟩ := hlands a ha
    have hpath : a.kind.path = path := by rw [hkind]; rfl
    rw [hpath] at hclear habove
    refine ⟨hclear, fun other hother => ?_, (lands_cloneGuard hkind).mp hmet⟩
    by_contra hne
    obtain ⟨⟨id', doc'⟩, hplaced'⟩ := Option.ne_none_iff_exists'.mp hne
    obtain ⟨b, hb, hkind'⟩ := h.exists_write hplaced' clobber
    refine habove b hb ?_
    rw [hkind']
    exact hother
  · obtain ⟨path, id, doc, hplaced, hkind⟩ := h.write ha
    obtain ⟨hclear, habove, hmet⟩ := hlands path id doc hplaced
    refine ⟨(lands_cloneGuard hkind).mpr hmet, ?_⟩
    rw [hkind]
    refine ⟨hclear, fun b hb hother => ?_⟩
    obtain ⟨path', id', doc', hplaced', hkind'⟩ := h.write hb
    rw [hkind'] at hother
    rw [habove path' hother] at hplaced'
    cases hplaced'

/-- The results of a plan that has landed are successes of the actions of the epoch. -/
theorem CloneReady.succeeded (h : CloneReady random s)
    (hlands : AllLand (carryOut random (s.plan clobber) s.files).1) :
    List.Forall₂ (fun action result => result.actionId = action.id ∧
        result.succeeds action.kind = true)
      (projectionActions s.semantic.nextProjectionEpoch s.semantic.db.plannedProjections)
      (carryOut random (s.plan clobber) s.files).1 := by
  have hachieved := ((h.landed clobber).2 hlands).achieved
  generalize (carryOut random (s.plan clobber) s.files).1 = results at hachieved
  rw [CloneParties.plan, List.forall₂_map_left_iff] at hachieved
  obtain ⟨hlength, hpairs⟩ := List.forall₂_iff_zip.mp hachieved
  refine List.forall₂_iff_zip.mpr ⟨hlength, fun {action result} hmem => ?_⟩
  obtain ⟨path, id, doc, -, hkind⟩ := write_of_unaccepted h.unaccepted (List.of_mem_zip hmem).1
  obtain ⟨hid, hachieved⟩ := hpairs hmem
  rw [kind_cloned hkind] at hachieved
  obtain ⟨stat, -, hlanded⟩ := hachieved
  refine ⟨hid, ?_⟩
  rw [hkind, ProjectionActionResult.succeeds, hlanded]
  rfl

/-- Each action of the epoch has a result, if the plan has landed. -/
theorem CloneReady.exists_result (h : CloneReady random s)
    (hlands : AllLand (carryOut random (s.plan clobber) s.files).1) {action : ProjectionAction D}
    (haction : action ∈
      projectionActions s.semantic.nextProjectionEpoch s.semantic.db.plannedProjections) :
    ∃ result ∈ (carryOut random (s.plan clobber) s.files).1, result.actionId = action.id ∧
      result.succeeds action.kind = true := by
  have hsucceeded := h.succeeded hlands
  obtain ⟨i, hi, rfl⟩ := List.getElem_of_mem haction
  have hi' := hi
  rw [hsucceeded.length_eq] at hi'
  exact ⟨_, List.getElem_mem hi', hsucceeded.get hi hi'⟩

/-- Each result is that of an action of the epoch. -/
theorem CloneReady.exists_action (h : CloneReady random s)
    (hlands : AllLand (carryOut random (s.plan clobber) s.files).1) {result : ProjectionActionResult}
    (hresult : result ∈ (carryOut random (s.plan clobber) s.files).1) :
    ∃ action ∈ projectionActions s.semantic.nextProjectionEpoch s.semantic.db.plannedProjections,
      action.id = result.actionId ∧ result.succeeds action.kind = true := by
  have hsucceeded := h.succeeded hlands
  obtain ⟨i, hi, rfl⟩ := List.getElem_of_mem hresult
  have hi' := hi
  rw [← hsucceeded.length_eq] at hi'
  obtain ⟨hid, hsucceeds⟩ := hsucceeded.get hi' hi
  exact ⟨_, List.getElem_mem hi', hid.symm, hsucceeds⟩

/-- An action of a clone changes no file that the clone may not touch, and the next ones can be started
if it did not miss its target. -/
theorem CloneReady.spares (h : CloneReady random s) {path : RelativePath}
    {file : FileStatFingerprint × Bytes}
    (hpath : clobber = true → s.semantic.db.stableSnapshot path = none) {volume volume' : Volume}
    (hplain : volume.disk.Plain) (hstart : ∀ b ∈ s.plan clobber, b.Startable random volume.disk)
    (hfile : volume.disk.fileAt path = some file) {action : ProjectionAction D}
    (haction : action ∈ s.plan clobber) {result : ProjectionActionResult}
    (happly : applyProjectionAction (random action.id) action volume = (result, volume')) :
    volume'.disk.fileAt path = some file ∧ (result.invalidatesProjection = false →
      volume'.disk.Plain ∧ ∀ b ∈ s.plan clobber, b.Startable random volume'.disk) := by
  obtain ⟨target, id, doc, hplaced, hkind⟩ := h.write haction
  by_cases hgoes : action.kind.Lands volume.disk ∧ volume.disk.Clear target
  · obtain ⟨hlands, hdir, hblocked⟩ := hgoes
    obtain ⟨result', stat, volume'', happly', -, -, hwrote, hkept⟩ :=
      applyProjectionAction_write hkind hplain (hstart action haction) hlands hdir hblocked
    rw [happly] at happly'
    obtain ⟨-, rfl⟩ := Prod.mk.inj happly'
    refine ⟨?_, fun _ => ⟨hwrote.plain, fun b hb => (hstart b hb).congr
      (h.notIgnored target (by rw [hplaced]; exact Option.some_ne_none _)) hwrote.fileAt
      fun other hother => (hwrote.dirAt other).mp hother⟩⟩
    rw [hwrote.fileAt]
    split_ifs with heq
    · -- The file has the text that is written there.
      subst heq
      rcases (lands_cloneGuard hkind).mp hlands with hclobber | hnone | ⟨old, hold⟩
      · rw [hpath hclobber] at hplaced
        cases hplaced
      · rw [hfile] at hnone
        cases hnone
      · rw [hkept old hold, ← hold, hfile]
    · exact hfile
  · obtain ⟨result', volume'', happly', hinvalid, hkept⟩ :=
      applyProjectionAction_write_fails hkind hplain (hstart action haction) hgoes
    rw [happly] at happly'
    obtain ⟨rfl, rfl⟩ := Prod.mk.inj happly'
    refine ⟨hkept path file hfile, fun hvalid => ?_⟩
    rw [hinvalid] at hvalid
    cases hvalid

end Volume

section Outcome

variable [TextCrdt D] [CharDiff] [Xxh3] [DecidableEq D] {random : ProjectionActionId → Fin (2 ^ 64)}
  {s s' : CloneParties D Volume} {clobber : Bool} {n : Nat} {now : Timestamp}

/-- A clone that is undisturbed succeeds exactly if its plan lands. -/
theorem CloneReady.succeeds_iff_lands (h : CloneReady random s)
    (hfit : ∀ result ∈ (carryOut random (s.plan clobber) s.files).1, result.Fits) (now : Timestamp) :
    (∃ n s', (projectWork clobber random now).exec s = (.ok n, s')) ↔
      AllLand (carryOut random (s.plan clobber) s.files).1 := by
  obtain ⟨planned, hstep, -, -, hidle, hprojecting⟩ := exists_plan h.idle
  by_cases hnil : s.semantic.db.plannedProjections = []
  · refine iff_of_true ⟨_, _, exec_projectWork_idle hstep (hidle hnil)⟩ ?_
    rw [CloneParties.plan, hnil]
    exact fun r hr => absurd hr List.not_mem_nil
  · obtain ⟨active, hactive, hactions, hcompleted⟩ := hprojecting hnil
    have hunder := underway_of_getNextWork hstep hactive
    simp only [exec_projectWork_projecting hstep hactive, hactions,
      exec_projectActions [] (h.prepared clobber)]
    constructor
    · rintro ⟨n, s', t, ⟨-, hlands, -⟩, -⟩
      exact hlands
    · intro hlands
      have hsucceeded := h.succeeded hlands
      obtain ⟨recorded, hrun, hdone⟩ := hunder.exists_commitActions hsucceeded hfit
        (fun a ha => by rwa [hactions]) (nodup_projectionActions _ _) fun a _ => by
          rw [hcompleted]
          exact List.not_mem_nil
      obtain ⟨committed, hcommit, -⟩ := hdone.commit (fun a ha => by
        rw [hactions] at ha
        obtain ⟨result, hresult, hid, -⟩ := h.exists_result hlands ha
        exact ⟨result, List.mem_append_left _ (List.mem_reverse.mpr hresult), hid⟩)
        fun row hrow => by
          rw [← Table.mem_rows, h.unaccepted] at hrow
          cases hrow
      exact ⟨_, ⟨committed, _⟩, ⟨recorded, _⟩, ⟨rfl, hlands, rfl, hrun⟩, hcommit, rfl⟩

omit [CharDiff] in
/-- What is accepted after the commit of a plan that has landed. -/
theorem CloneReady.accepted (h : CloneReady random s)
    (hlands : AllLand (carryOut random (s.plan clobber) s.files).1) {db db' : Db D}
    (hprior : db.priorTree = s.semantic.db.priorTree)
    (hrun : Runs (forM (completedActions
      (projectionActions s.semantic.nextProjectionEpoch s.semantic.db.plannedProjections)
      (carryOut random (s.plan clobber) s.files).1) (commitCompletedProjectionActionTx now)) db ⟨⟩ db') :
    (∀ a ∈ s.plan clobber, (db'.priorTreeLiveFile a.kind.path).map PriorTreeRow.fingerprint =
      ((carryOut random (s.plan clobber) s.files).2.disk.fileAt a.kind.path).map fun f =>
        statAndContentFingerprint f.1 f.2) ∧
    ∀ path, (∀ a ∈ s.plan clobber, a.kind.path ≠ path) → db'.priorTreeLiveFile path = none := by
  have hplan : completedActions (s.plan clobber) (carryOut random (s.plan clobber) s.files).1 =
      completedActions
        (projectionActions s.semantic.nextProjectionEpoch s.semantic.db.plannedProjections)
        (carryOut random (s.plan clobber) s.files).1 := by
    rw [completedActions, CloneParties.plan, List.zipWith_map_left]
    rfl
  rw [← hplan] at hrun
  have hcontext : ∀ a ∈ s.plan clobber, a.commitContext.path = a.kind.path := by
    intro a ha
    obtain ⟨planned, hplanned, rfl⟩ := List.mem_map.mp ha
    rw [ProjectionAction.path_cloned]
    exact (path_of_mem_plannedProjections (mem_projectionActions hplanned).1).1
  obtain ⟨hrows, hothers⟩ := fingerprints_of_commit
    ((h.landed clobber).2 hlands).achieved (nodup_paths_plan clobber s) hcontext hrun
  refine ⟨hrows, fun path hpath => ?_⟩
  rw [hothers path hpath, Db.priorTreeLiveFile, hprior]
  exact priorTreeLiveFile_of_empty (List.length_eq_zero_iff.mpr h.unaccepted) path

/-- A clone that succeeds and has something to project has carried out its plan and has committed the
epoch. -/
theorem CloneReady.committed (h : CloneReady random s) (hne : s.semantic.db.plannedProjections ≠ [])
    (hexec : (projectWork clobber random now).exec s = (.ok n, s')) :
    n = s.semantic.db.plannedProjections.length ∧
      AllLand (carryOut random (s.plan clobber) s.files).1 ∧
      s'.files = (carryOut random (s.plan clobber) s.files).2 ∧ s'.semantic.active = .idle ∧
      SameDesired s.semantic.db s'.semantic.db ∧
      s'.semantic.db.priorSnapshot = s.semantic.db.stableSnapshot ∧
      ∃ db : Db D, db.priorTree = s.semantic.db.priorTree ∧
        Runs (forM (completedActions
          (projectionActions s.semantic.nextProjectionEpoch s.semantic.db.plannedProjections)
          (carryOut random (s.plan clobber) s.files).1) (commitCompletedProjectionActionTx now))
          db ⟨⟩ s'.semantic.db := by
  obtain ⟨planned, hstep, hplanned, -, -, hprojecting⟩ := exists_plan h.idle
  obtain ⟨active, hactive, hactions, hcompleted⟩ := hprojecting hne
  rw [exec_projectWork_projecting hstep hactive, hactions] at hexec
  obtain ⟨t, hloop, hcommit, hfiles⟩ := hexec
  obtain ⟨hn, hlands, hlanded, hrecord⟩ := (exec_projectActions [] (h.prepared clobber)).mp hloop
  -- Each result is the one of its action.
  have hids : ∀ result, .commitProjectionAction result ∈
        ((carryOut random (s.plan clobber) s.files).1.map SemanticRequest.commitProjectionAction :
          List (SemanticRequest D)) →
      ∀ action ∈ active.started.actions, action.id = result.actionId →
        result.succeeds action.kind = true := by
    intro result hresult action haction hid
    obtain ⟨result', hmem, heq⟩ := List.mem_map.mp hresult
    cases heq
    obtain ⟨action', haction', hid', hsucceeds⟩ := h.exists_action hlands hmem
    rw [hactions] at haction
    rw [List.inj_on_of_nodup_map (nodup_projectionActions _ _) haction haction' (hid.trans hid'.symm)]
    exact hsucceeds
  obtain ⟨completed, hunder, -, hresults⟩ := (underway_of_getNextWork hstep hactive).run hrecord
    (fun request hrequest => by
      obtain ⟨result, -, rfl⟩ := List.mem_map.mp hrequest
      rfl) hids
  have hall : ∀ action ∈ active.started.actions, ∃ result ∈ completed,
      result.actionId = action.id := by
    intro action haction
    rw [hactions] at haction
    obtain ⟨result, hresult, hid, -⟩ := h.exists_result hlands haction
    exact ⟨result, hresults result (List.mem_map_of_mem hresult), hid⟩
  have hclock : ∀ row ∈ s.semantic.db.priorTree, row.acceptedAt ≤ now := by
    intro row hrow
    rw [← Table.mem_rows, h.unaccepted] at hrow
    cases hrow
  obtain ⟨committed, hcommit', hidle, hprior, -⟩ := hunder.commit hall hclock
  rw [hcommit] at hcommit'
  cases hcommit'
  obtain ⟨hsame, hrun⟩ := accepted_of_commitEpoch hunder.projecting hcommit
  have hfinish : ({ active with completed := completed } : ActiveProjectionEpoch D).finish.actions =
      completedActions active.started.actions (carryOut random (s.plan clobber) s.files).1 := by
    refine actions_finish ?_ hunder.nodup fun result hresult =>
      hresults result (List.mem_map_of_mem hresult)
    rw [hactions]
    exact (h.succeeded hlands).imp fun _ _ hpair => hpair.1
  rw [hfinish, hactions] at hrun
  refine ⟨?_, hlands, hfiles.trans hlanded, hidle,
    hplanned.trans ((sameDesired_of_commitActions hrecord).trans hsame), hprior, _, ?_, hrun⟩
  · rw [hn, projectionActions, List.length_map, List.length_zipIdx]
  · exact hunder.priorTree

omit [CharDiff] [Xxh3] in
/-- Where nothing is accepted, each placed file is planned. -/
theorem CloneReady.length_plannedProjections (h : CloneReady random s) :
    s.semantic.db.plannedProjections.length = s.semantic.db.stableTreeFiles.length := by
  have hnone := priorTreeLiveFile_of_empty (List.length_eq_zero_iff.mpr h.unaccepted)
  have hdeletes : s.semantic.db.rowsToDelete = [] := by
    rw [List.eq_nil_iff_forall_not_mem]
    intro prior hprior
    have hmem := (mem_rowsToDelete.mp hprior).1.1
    rw [← Table.mem_rows, h.unaccepted] at hmem
    cases hmem
  have hwrites : s.semantic.db.rowsToWrite =
      s.semantic.db.stableTreeFiles.map fun row => (row, ExpectedBefore.missing) := by
    rw [Db.rowsToWrite, ← List.filterMap_eq_map]
    refine List.filterMap_congr fun row _ => ?_
    rw [Db.expectedBefore, hnone]
    rfl
  rw [Db.plannedProjections, hdeletes, hwrites, List.map_nil, List.append_nil, List.length_map,
    List.length_map]

omit [CharDiff] [Xxh3] in
/-- Without a plan nothing is placed. -/
theorem CloneReady.stableSnapshot_eq_none (h : CloneReady random s)
    (hnil : s.semantic.db.plannedProjections = []) (path : RelativePath) :
    s.semantic.db.stableSnapshot path = none := by
  by_contra hne
  obtain ⟨⟨id, doc⟩, hsome⟩ := Option.ne_none_iff_exists'.mp hne
  obtain ⟨action, haction, -⟩ := exists_write_of_unaccepted h.unaccepted hsome 0
  rw [hnil] at haction
  cases haction

/-- The files of a clone that succeeds, and the rows of its prior tree. -/
theorem CloneReady.files (h : CloneReady random s)
    (hexec : (projectWork clobber random now).exec s = (.ok n, s')) :
    s'.files.disk.Plain ∧
      (∀ path id doc, s.semantic.db.stableSnapshot path = some (id, doc) →
        ∃ stat, s'.files.disk.fileAt path = some (stat, TextCrdt.getText doc) ∧
          (s'.semantic.db.priorTreeLiveFile path).map PriorTreeRow.fingerprint =
            some (statAndContentFingerprint stat (TextCrdt.getText doc)) ∧
          ∀ old, s.files.disk.fileAt path = some (old, TextCrdt.getText doc) → stat = old) ∧
      ∀ path, s.semantic.db.stableSnapshot path = none →
        s'.files.disk.fileAt path = s.files.disk.fileAt path ∧
        s'.semantic.db.priorTreeLiveFile path = none := by
  by_cases hnil : s.semantic.db.plannedProjections = []
  · obtain ⟨planned, hstep, -, hprior, hidle, -⟩ := exists_plan h.idle
    rw [exec_projectWork_idle hstep (hidle hnil)] at hexec
    obtain ⟨-, rfl⟩ := Prod.mk.inj hexec
    refine ⟨h.plain, fun path id doc hsome => ?_, fun path _ => ⟨rfl, ?_⟩⟩
    · rw [h.stableSnapshot_eq_none hnil path] at hsome
      cases hsome
    · rw [Db.priorTreeLiveFile, hprior]
      exact priorTreeLiveFile_of_empty (List.length_eq_zero_iff.mpr h.unaccepted) path
  · obtain ⟨-, hlands, hfiles, -, -, -, db, hdb, hrun⟩ := h.committed hnil hexec
    have hlanded := (h.landed clobber).2 hlands
    obtain ⟨hrows, hothers⟩ := h.accepted hlands hdb hrun
    rw [hfiles]
    refine ⟨hlanded.plain, fun path id doc hplaced => ?_, fun path hnone => ?_⟩
    · obtain ⟨action, haction, hkind⟩ := h.exists_write hplaced clobber
      have hpath : action.kind.path = path := by rw [hkind]; rfl
      obtain ⟨result, -, hachieved⟩ := hlanded.exists_achieved haction
      have hrow := hrows action haction
      rw [hkind] at hachieved
      rw [hpath] at hrow
      obtain ⟨stat, hfile, -⟩ := hachieved
      change (carryOut random (s.plan clobber) s.files).2.disk.fileAt path = _ at hfile
      rw [hfile] at hrow
      refine ⟨stat, hfile, hrow, fun old hold => ?_⟩
      have hkept := hlanded.kept action haction path _ _ hkind old hold
      rw [hfile] at hkept
      cases hkept
      rfl
    · have hne : ∀ action ∈ s.plan clobber, action.kind.path ≠ path := by
        intro action haction heq
        obtain ⟨path', id, doc, hplaced, hkind⟩ := h.write haction
        rw [hkind] at heq
        change path' = path at heq
        rw [heq, hnone] at hplaced
        cases hplaced
      exact ⟨hlanded.others path hne, hothers path hne⟩

end Outcome

/-! ## Clones that have looked first -/

section Checked

variable {F : Type} {s t : CloneParties D F} {fuel : Nat} [Gitignore]

/-- The check sees a scan without entries. -/
theorem scan_of_checkEmpty [Syscalls F] (h : (checkEmpty fuel).exec s = (.ok (some ()), t)) :
    ∃ result, (scan fuel .full : Fio F _).exec s.files = (.ok (some result), t.files) ∧
      result.tree.entries = [] := by
  obtain ⟨found, t', hlook, hcheck⟩ := Effect.exec_bind_eq_ok.mp h
  have hscan : (scan fuel .full : Fio F _).exec s.files = (.ok found, t'.files) := by
    rw [onFiles, Effect.exec_bind, Effect.exec_call] at hlook
    obtain ⟨hfound, rfl⟩ := Prod.mk.inj hlook
    cases hresult : ((scan fuel .full : Fio F _).exec s.files).1 with
    | error report =>
      rw [hresult] at hfound
      cases hfound
    | ok value =>
      rw [hresult] at hfound
      cases hfound
      exact Prod.ext hresult rfl
  cases found with
  | none =>
    cases (Prod.mk.inj hcheck).1
  | some result =>
    dsimp only at hcheck
    split_ifs at hcheck with hempty
    · cases (Prod.mk.inj hcheck).1
    · obtain ⟨-, rfl⟩ := Prod.mk.inj hcheck
      exact ⟨result, hscan, not_not.mp hempty⟩

/-- What is at a path of a plain disk is found by the full scan, if the rules ignore nothing on the way. -/
theorem exists_finds {disk : Disk} {rules : IgnoreRules} {path : RelativePath} (hplain : disk.Plain)
    (hthere : disk.fileAt path ≠ none ∨ disk.dirAt path = true)
    (hrules : ∀ p : RelativePath, p.components <+: path.components →
      ∀ isDir, rules.isIgnored p isDir = false) :
    ∃ entry, disk.Finds rules .full entry := by
  have hnode : disk.node? (disk.place path) ≠ none :=
    hthere.elim hplain.node?_ne_none_of_fileAt hplain.node?_ne_none_of_dirAt
  have hopen : ∀ dir : RelativePath, dir.IsAbove path → disk.Open rules dir := fun dir habove =>
    ⟨hplain.metadata_of_dir (hplain.dirAt_of_inDir (hplain.inDir_of_node hnode) habove),
      hrules dir (habove.trans (List.dropLast_prefix _)) true⟩
  rcases hthere with hfile | hdir
  · obtain ⟨file, hfile⟩ := Option.ne_none_iff_exists'.mp hfile
    have hkept : disk.Kept rules ⟨path, .file (.statOnly file.1)⟩ :=
      kept_file_iff.mpr ⟨file.1, rfl, hplain.metadata_of_file hfile, hrules path (List.prefix_refl _) false⟩
    exact ⟨_, rfl, hkept, fun dir habove _ => hopen dir habove⟩
  · have hkept : disk.Kept rules ⟨path, .directory⟩ :=
      (kept_directory_iff.mpr
        ⟨⟨hplain.metadata_of_dir hdir, hrules path (List.prefix_refl _) true⟩, rfl⟩).1
    exact ⟨_, rfl, hkept, fun dir habove _ => hopen dir habove⟩

/-- Nothing is on the way to a path if the check has seen nothing and nothing on the way is ignored. -/
theorem nothing_there_of_checkEmpty {disk : Disk} {rules : IgnoreRules} {path p : RelativePath}
    {started ended : CloneParties D Disk} (hplain : disk.Plain)
    (hload : (IgnoreRules.load : Fio Disk _).exec disk = (.ok rules, disk))
    (hfiles : started.files = disk) (hcheck : (checkEmpty fuel).exec started = (.ok (some ()), ended))
    (hrules : ∀ p : RelativePath, p.components <+: path.components →
      ∀ isDir, rules.isIgnored p isDir = false) (hp : p.components <+: path.components) :
    disk.fileAt p = none ∧ disk.dirAt p = false := by
  obtain ⟨result, hscan, hempty⟩ := scan_of_checkEmpty hcheck
  rw [hfiles] at hscan
  obtain ⟨-, -, hfinds⟩ := scan_eq_some hscan hload
  by_contra hthere
  rw [not_and_or, Bool.not_eq_false] at hthere
  obtain ⟨entry, hentry⟩ : ∃ entry, disk.Finds rules .full entry :=
    exists_finds hplain hthere fun q hq => hrules q (hq.trans hp)
  have hmem := (hfinds entry).mpr hentry
  rw [hempty] at hmem
  cases hmem

end Checked

section Outcome

variable [TextCrdt D] [CharDiff] [Xxh3] [DecidableEq D] [Gitignore]
  {random : ProjectionActionId → Fin (2 ^ 64)} {s : CloneParties D Volume} {rules : IgnoreRules}
  {fuel : Nat} {started ended : CloneParties D Disk}

end Outcome

/-! ## Clones of one file in a new directory -/

section Placed

open Snapshots NoPatterns

/-- The volume of one binary file has no other file, and no directory in its sync root. -/
theorem only_binaryRoot (path : RelativePath) :
    (path ≠ rootFile 1 → Volume.binaryRoot.disk.fileAt path = none) ∧
      Volume.binaryRoot.disk.dirAt path = false := by
  by_cases hpath : path = rootFile 1
  · rw [hpath]
    exact ⟨fun hne => absurd rfl hne, by decide⟩
  · have hnode : Volume.binaryRoot.disk.node? path.names = none := by
      have hfile : [digitName 1] ≠ path.names := fun heq =>
        hpath (RelativePath.names_injective (heq.symm.trans rfl))
      simp [Disk.node?, Table.find?, Volume.binaryRoot, path.names_ne_nil.symm, hfile]
    refine ⟨fun _ => ?_, ?_⟩
    · change (Volume.binaryRoot.disk.node? path.names).bind Node.data = none
      rw [hnode]
      rfl
    · change (Volume.binaryRoot.disk.node? path.names).any Node.isDirectory = false
      rw [hnode]
      rfl

/-- A clone that has pulled `placedRun`, into an empty sync root and into one with a binary file. -/
theorem cloneReady_placedRun : ∃ s : SemanticActor Doc,
    (daemonMachine Doc [0, 0, 0, 1]).exec (.start (Db.initialized Doc [0, 0, 0, 1] 0)) placedRun =
        some s ∧
      CloneReady (fun _ => 0) ⟨s, .emptyRoot⟩ ∧ CloneReady (fun _ => 0) ⟨s, .binaryRoot⟩ ∧
      s.db.stableSnapshot (rootFile 1) = none ∧
      (∃ id doc, s.db.stableSnapshot (fileIn 1 2) = some (id, doc)) ∧
      (∀ path, s.db.stableSnapshot path ≠ none → path = fileIn 1 2) ∧
      (∀ result ∈ (carryOut (fun _ => 0) ((⟨s, .emptyRoot⟩ : CloneParties Doc Volume).plan false)
        Volume.emptyRoot).1, result.Fits) ∧
      ∃ n s', (projectWork false (fun _ => 0) 1 : CloneRun Doc Volume Nat).exec ⟨s, .emptyRoot⟩ =
        (.ok n, s') := by
  have hrun : ((daemonMachine Doc [0, 0, 0, 1]).exec (.start (Db.initialized Doc [0, 0, 0, 1] 0))
      placedRun).any (fun s => s.active.importing?.isNone && s.active.projecting?.isNone &&
        decide (s.db.priorTree.rows.length = 0 ∧
          s.db.stableTree.table.rows.map StableTreeRow.path = [fileIn 1 2] ∧
          isHardIgnored (fileIn 1 2) = false ∧ fileIn 1 2 ≠ rootFile 1) &&
        (s.db.stableSnapshot (fileIn 1 2)).isSome &&
        (carryOut (fun _ => 0) ((⟨s, .emptyRoot⟩ : CloneParties Doc Volume).plan false)
          Volume.emptyRoot).1.all (fun r =>
            r.landed.all fun f => (fingerprintColumns "prior_tree" f).toOption.isSome) &&
        ((projectWork false (fun _ => 0) 1 : CloneRun Doc Volume Nat).exec
          ⟨s, .emptyRoot⟩).1.toOption.isSome) = true := by
    decide +kernel
  obtain ⟨s, hs, hp⟩ := Machine.exists_exec hrun
  simp only [Bool.and_eq_true, Option.isNone_iff_eq_none, decide_eq_true_eq] at hp
  obtain ⟨⟨⟨⟨⟨himporting, hprojecting⟩, hprior, hrows, hignored, hne⟩, hplaced⟩, hfit⟩, hends⟩ := hp
  have hidle : s.active = .idle := by
    cases hactive : s.active with
    | idle => rfl
    | importing active =>
      rw [hactive] at himporting
      cases himporting
    | projecting active =>
      rw [hactive] at hprojecting
      cases hprojecting
  have honly : ∀ path, s.db.stableSnapshot path ≠ none → path = fileIn 1 2 := by
    intro path hpath
    obtain ⟨row, hrow, rfl⟩ := exists_row_of_stableSnapshot hpath
    have hmem : row.path ∈ s.db.stableTree.table.rows.map StableTreeRow.path :=
      List.mem_map_of_mem hrow
    rw [hrows] at hmem
    exact List.mem_singleton.mp hmem
  have hnotIgnored : ∀ path, s.db.stableSnapshot path ≠ none → isHardIgnored path = false :=
    fun path hpath => by rw [honly path hpath, hignored]
  refine ⟨s, hs, ⟨hidle, List.length_eq_zero_iff.mp hprior, Volume.plain_emptyRoot, hnotIgnored,
      fun _ _ temp _ => ⟨Volume.fileAt_emptyRoot temp, Volume.dirAt_emptyRoot temp⟩⟩,
    ⟨hidle, List.length_eq_zero_iff.mp hprior, Volume.plain_binaryRoot, hnotIgnored,
      fun _ _ temp htemp => ⟨(only_binaryRoot temp).1 ?_, (only_binaryRoot temp).2⟩⟩, ?_, ?_, honly,
    fun result hresult f hlanded => ?_, ?_⟩
  · rintro rfl
    exact absurd (isHardIgnored_of_tempPathFor htemp) (by decide)
  · by_contra hsome
    exact hne (honly _ hsome).symm
  · obtain ⟨⟨id, doc⟩, hsome⟩ := Option.isSome_iff_exists.mp hplaced
    exact ⟨id, doc, hsome⟩
  · have hcolumns := List.all_eq_true.mp hfit result hresult
    rw [hlanded, Option.all_some] at hcolumns
    obtain ⟨columns, hcolumns⟩ := Option.isSome_iff_exists.mp hcolumns
    exact ⟨columns, toOption_eq_some_iff.mp hcolumns⟩
  · obtain ⟨n, hn⟩ := Option.isSome_iff_exists.mp hends
    exact ⟨n, _, Prod.ext (toOption_eq_some_iff.mp hn) rfl⟩

end Placed

end Opbox
