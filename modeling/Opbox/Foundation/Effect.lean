import Mathlib.Tactic.Common

/-!
# Effects that outlive errors

A computation on a world that may fail part way: what it did to the world before it failed stays
done.  `m.exec w` is how it ends, with the world it leaves; the lemmas compute it along the
structure of `m`.
-/

namespace Opbox

variable {σ ε α β : Type}

/-- A computation on a world that may fail. -/
abbrev Effect (σ ε α : Type) := ExceptT ε (StateM σ) α

namespace Effect

/-- How a computation ends, and the world it leaves. -/
def exec (m : Effect σ ε α) (w : σ) : Except ε α × σ := StateT.run (ExceptT.run m) w

/-- Ask the world for an answer. -/
def call (f : σ → α × σ) : Effect σ ε α := ExceptT.mk fun w => ((.ok (f w).1, (f w).2) : _ × _)

variable {m : Effect σ ε α} {w w' : σ} {a : α} {b : β}

@[simp] theorem exec_pure (a : α) (w : σ) : (pure a : Effect σ ε α).exec w = (.ok a, w) := rfl

@[simp] theorem exec_throw (e : ε) (w : σ) :
    (throw e : Effect σ ε α).exec w = (.error e, w) := rfl

@[simp] theorem exec_call (f : σ → α × σ) (w : σ) :
    (call f : Effect σ ε α).exec w = (.ok (f w).1, (f w).2) := rfl

@[simp] theorem exec_lift (r : Except ε α) (w : σ) :
    (liftM r : Effect σ ε α).exec w = (r, w) := rfl

/-- A sequence goes on from where its first part ended, unless that failed. -/
theorem exec_bind (m : Effect σ ε α) (f : α → Effect σ ε β) (w : σ) :
    (m >>= f).exec w = match m.exec w with
      | (.ok a, w') => (f a).exec w'
      | (.error e, w') => (.error e, w') := by
  unfold exec
  rw [ExceptT.run_bind, StateT.run_bind]
  obtain ⟨r, w'⟩ := StateT.run (ExceptT.run m) w
  cases r with
  | ok a => rfl
  | error e => rfl

theorem exec_bind_ok {f : α → Effect σ ε β} (h : m.exec w = (.ok a, w')) :
    (m >>= f).exec w = (f a).exec w' := by
  rw [exec_bind, h]

theorem exec_bind_error {f : α → Effect σ ε β} {e : ε} (h : m.exec w = (.error e, w')) :
    (m >>= f).exec w = (.error e, w') := by
  rw [exec_bind, h]

/-- A sequence that ends well is two computations that do. -/
theorem exec_bind_eq_ok {f : α → Effect σ ε β} :
    (m >>= f).exec w = (.ok b, w') ↔
      ∃ a t, m.exec w = (.ok a, t) ∧ (f a).exec t = (.ok b, w') := by
  rw [exec_bind]
  cases h : m.exec w with
  | mk r t => cases r <;> simp

/-- What holds wherever the first part fails, and wherever the rest ends after it, holds at the end. -/
theorem exec_bind_ends {f : α → Effect σ ε β} {Q : σ → Prop}
    (hfails : ∀ e t, m.exec w = (.error e, t) → Q t)
    (hrest : ∀ a t, m.exec w = (.ok a, t) → Q ((f a).exec t).2) : Q ((m >>= f).exec w).2 := by
  rw [exec_bind]
  cases h : m.exec w with
  | mk r t =>
    cases r with
    | ok a => exact hrest a t h
    | error e => exact hfails e t h

end Effect

end Opbox
