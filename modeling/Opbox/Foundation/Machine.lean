import Mathlib.Data.List.Basic
import Mathlib.Tactic.Common

/-!
# Partial step machines and their runs

A `Machine` has a set of initial states and a partial step function: `step s a = none` means that
the action `a` is not enabled at `s`.  `Machine.Reachable P` are the states reached by runs whose
every step `(s, a)` meets the condition `P`; the unconditioned runs are `Machine.Reachable ⊤`.
The induction over runs is done once, in `Machine.Reachable.invariant`, and a concrete run is
checked by evaluating `Machine.exec`.
-/

namespace Opbox

universe u v

/-- A labelled transition system whose steps are computed by a partial function. -/
structure Machine (σ : Type u) (α : Type v) where
  /-- The states a run may start from. -/
  initial : σ → Prop
  /-- One step: `none` when the action is not enabled. -/
  step : σ → α → Option σ

namespace Machine

variable {σ : Type u} {α : Type v} {M : Machine σ α} {P Q : σ → α → Prop}

/-- The states reached by runs all of whose steps meet the condition `P`. -/
inductive Reachable (M : Machine σ α) (P : σ → α → Prop) : σ → Prop
  /-- Runs start in an initial state. -/
  | init {s : σ} (h : M.initial s) : Reachable M P s
  /-- An enabled action that meets the condition extends the run. -/
  | step {s s' : σ} {a : α} (h : Reachable M P s) (hP : P s a) (hs : M.step s a = some s') :
      Reachable M P s'

/-- Reachability by any run at all. -/
abbrev Reached (M : Machine σ α) : σ → Prop := M.Reachable fun _ _ => True

/-- The invariant rule: what holds initially and is preserved by every step of a run that meets
the condition holds in every state of every such run. -/
theorem Reachable.invariant {I : σ → Prop} (h0 : ∀ s, M.initial s → I s)
    (hstep : ∀ s a s', M.Reachable P s → I s → P s a → M.step s a = some s' → I s')
    {s : σ} (hs : M.Reachable P s) : I s := by
  induction hs with
  | init h => exact h0 _ h
  | step hr hP hs ih => exact hstep _ _ _ hr ih hP hs

/-- A weaker condition reaches at least as much. -/
theorem Reachable.mono (hPQ : ∀ s a, P s a → Q s a) {s : σ} (hs : M.Reachable P s) :
    M.Reachable Q s := by
  induction hs with
  | init h => exact .init h
  | step _ hP hs ih => exact ih.step (hPQ _ _ hP) hs

/-- The state after a list of actions, if all of them are enabled. -/
def exec (M : Machine σ α) : σ → List α → Option σ
  | s, [] => some s
  | s, a :: as => (M.step s a).bind fun s' => M.exec s' as

/-- A run in two parts. -/
theorem exec_append (s : σ) (as bs : List α) :
    M.exec s (as ++ bs) = (M.exec s as).bind fun t => M.exec t bs := by
  induction as generalizing s with
  | nil => rfl
  | cons a as ih =>
    rw [List.cons_append, exec, exec, Option.bind_assoc]
    exact congrArg _ (funext ih)

/-- Every step of the run `as` from `s` meets the condition. -/
def Meets (M : Machine σ α) (P : σ → α → Prop) : σ → List α → Prop
  | _, [] => True
  | s, a :: as => P s a ∧ ∀ s' ∈ M.step s a, M.Meets P s' as

/-- A run that meets the condition ends in a reachable state. -/
theorem Reachable.exec {as : List α} : ∀ {s s' : σ}, M.Reachable P s → M.Meets P s as →
    M.exec s as = some s' → M.Reachable P s' := by
  induction as with
  | nil =>
    intro s s' hs _ he
    rw [Machine.exec, Option.some.injEq] at he
    exact he ▸ hs
  | cons a as ih =>
    intro s s' hs hm he
    rw [Machine.exec, Option.bind_eq_some_iff] at he
    obtain ⟨t, ht, he⟩ := he
    exact ih (hs.step hm.1 ht) (hm.2 t ht) he

/-- Every run meets the trivial condition. -/
theorem meets_true : ∀ (s : σ) (as : List α), M.Meets (fun _ _ => True) s as
  | _, [] => trivial
  | _, _ :: as => ⟨trivial, fun s' _ => meets_true s' as⟩

/-- A condition on actions holds along every run of such actions. -/
theorem meets_of_forall_mem {as : List α} : ∀ {s : σ}, (∀ a ∈ as, ∀ t, P t a) → M.Meets P s as := by
  induction as with
  | nil => exact fun _ => trivial
  | cons a as ih =>
    exact fun h => ⟨h a List.mem_cons_self _, fun _ _ =>
      ih fun b hb => h b (List.mem_cons_of_mem _ hb)⟩

/-- The invariant rule for a given run: what holds where it starts and is preserved by every step that
meets the condition holds where it ends. -/
theorem Meets.invariant {I : σ → Prop} {as : List α} : ∀ {s s' : σ}, M.Meets P s as → I s →
    (∀ t a t', I t → P t a → M.step t a = some t' → I t') → M.exec s as = some s' → I s' := by
  induction as with
  | nil =>
    intro s s' _ hs _ he
    rw [Machine.exec, Option.some.injEq] at he
    exact he ▸ hs
  | cons a as ih =>
    intro s s' hm hs hstep he
    rw [Machine.exec, Option.bind_eq_some_iff] at he
    obtain ⟨t, ht, he⟩ := he
    exact ih (hm.2 t ht) (hstep s a t hs hm.1 ht) hstep he

/-- A run from an initial state ends in a reached state. -/
theorem reached_of_exec {s s' : σ} {as : List α} (h0 : M.initial s)
    (he : M.exec s as = some s') : M.Reached s' :=
  Reachable.exec (.init h0) (meets_true s as) he

/-- A checked property of the last state of a concrete run. -/
theorem exists_exec {p : σ → Bool} {s : σ} {as : List α} (h : (M.exec s as).any p = true) :
    ∃ t, M.exec s as = some t ∧ p t = true := by
  cases ht : M.exec s as with
  | none => simp [ht] at h
  | some t => exact ⟨t, rfl, by simpa [ht] using h⟩

/-- A checked property of the last step of a concrete run. -/
theorem exists_last_step {p : σ → σ → Bool} {s : σ} {as : List α} {a : α}
    (h : ((M.exec s as).any fun t => (M.step t a).any fun t' => p t t') = true) :
    ∃ t t', M.exec s as = some t ∧ M.step t a = some t' ∧ p t t' = true := by
  cases ht : M.exec s as with
  | none => simp [ht] at h
  | some t =>
    cases ht' : M.step t a with
    | none => simp [ht, ht'] at h
    | some t' => exact ⟨t, t', rfl, ht', by simpa [ht, ht'] using h⟩

/-- Deciding the condition along a run. -/
instance Meets.decidable [∀ s a, Decidable (P s a)] :
    ∀ (s : σ) (as : List α), Decidable (M.Meets P s as)
  | _, [] => inferInstanceAs (Decidable True)
  | s, a :: as =>
    have : Decidable (∀ s' ∈ M.step s a, M.Meets P s' as) :=
      match h : M.step s a with
      | none => isTrue fun s' hs' => by simp at hs'
      | some t =>
        match Meets.decidable t as with
        | isTrue ht => isTrue fun s' hs' => by
            rw [Option.mem_some_iff] at hs'; exact hs' ▸ ht
        | isFalse ht => isFalse fun hall => ht (hall t rfl)
    inferInstanceAs (Decidable (P s a ∧ _))

end Machine

end Opbox
