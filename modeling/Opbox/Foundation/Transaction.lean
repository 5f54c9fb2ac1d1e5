import Mathlib.Data.List.Basic
import Mathlib.Tactic.Common

/-!
# Transactions

A transaction reads and writes a store and may fail; a failed transaction has no effect.  It is a
state transformer over `Except`, and `Runs m s a s'` says that it succeeds from the store `s` with
the value `a` and leaves the store `s'`.  The lemmas invert a successful run along the structure of
the transaction, and a loop is inverted by an invariant over the items done so far.
-/

namespace Opbox

universe u

variable {σ ε α β γ : Type u}

/-- A computation that may fail succeeds if both of its parts do. -/
theorem bind_eq_ok {x : Except ε α} {f : α → Except ε β} {b : β} :
    (x >>= f) = .ok b ↔ ∃ a, x = .ok a ∧ f a = .ok b := by
  cases x with
  | ok a => exact ⟨fun h => ⟨a, rfl, h⟩, fun ⟨_, ha, h⟩ => by cases ha; exact h⟩
  | error e => exact ⟨nofun, nofun⟩

theorem toOption_eq_some_iff {x : Except ε α} {a : α} : x.toOption = some a ↔ x = .ok a := by
  cases x <;> simp [Except.toOption]

/-- Fail with an error unless a condition holds. -/
def require {ε : Type} (p : Prop) [Decidable p] (e : ε) : Except ε PUnit :=
  if p then .ok ⟨⟩ else .error e

theorem require_of {ε : Type} {p : Prop} [Decidable p] (h : p) (e : ε) : require p e = .ok ⟨⟩ :=
  if_pos h

theorem require_eq_ok_iff {ε : Type} {p : Prop} [Decidable p] {e : ε} {u : PUnit} :
    require p e = .ok u ↔ p := by
  unfold require
  split_ifs with h
  · exact ⟨fun _ => h, fun _ => rfl⟩
  · exact ⟨nofun, fun hp => absurd hp h⟩

/-- A computation on a store that succeeds with a value or fails. -/
abbrev Transaction (σ ε α : Type u) := StateT σ (Except ε) α

/-- The transaction succeeds from `s` with the value `a` and leaves the store `s'`. -/
def Runs (m : Transaction σ ε α) (s : σ) (a : α) (s' : σ) : Prop := m.run s = .ok (a, s')

/-- Run a transaction: nothing if it fails. -/
def attempt (m : Transaction σ ε α) (s : σ) : Option (α × σ) :=
  match m.run s with
  | .ok r => some r
  | .error _ => none

theorem attempt_eq_some_iff {m : Transaction σ ε α} {s s' : σ} {a : α} :
    attempt m s = some (a, s') ↔ Runs m s a s' := by
  unfold attempt Runs
  cases m.run s <;> simp

namespace Runs

variable {m : Transaction σ ε α} {s s' : σ} {a : α}

/-- A transaction is a function of the store. -/
theorem unique {b : α} {t : σ} (h : Runs m s a s') (h' : Runs m s b t) : a = b ∧ s' = t := by
  have heq : Except.ok (ε := ε) (a, s') = .ok (b, t) := Eq.trans (Eq.symm h) h'
  exact Prod.mk.inj (Except.ok.inj heq)

@[simp] theorem pure_iff {b : α} : Runs (pure a : Transaction σ ε α) s b s' ↔ a = b ∧ s = s' := by
  have hrun : Runs (pure a : Transaction σ ε α) s b s' ↔
      Except.ok (ε := ε) (a, s) = .ok (b, s') := Iff.rfl
  rw [hrun, Except.ok.injEq, Prod.mk.injEq]

@[simp] theorem bind_iff {f : α → Transaction σ ε β} {b : β} :
    Runs (m >>= f) s b s' ↔ ∃ a t, Runs m s a t ∧ Runs (f a) t b s' := by
  unfold Runs
  rw [StateT.run_bind]
  cases m.run s with
  | error e => simp [bind, Except.bind]
  | ok r =>
    obtain ⟨x, t⟩ := r
    simp [bind, Except.bind]

@[simp] theorem get_iff {t : σ} : Runs (get : Transaction σ ε σ) s t s' ↔ s = t ∧ s = s' := by
  have hrun : Runs (get : Transaction σ ε σ) s t s' ↔
      Except.ok (ε := ε) (s, s) = .ok (t, s') := Iff.rfl
  rw [hrun, Except.ok.injEq, Prod.mk.injEq]

@[simp] theorem modify_iff {f : σ → σ} {a : PUnit} :
    Runs (modify f : Transaction σ ε PUnit) s a s' ↔ s' = f s := by
  have hrun : Runs (modify f : Transaction σ ε PUnit) s a s' ↔
      Except.ok (ε := ε) (PUnit.unit, f s) = .ok (a, s') := Iff.rfl
  rw [hrun, Except.ok.injEq, Prod.mk.injEq]
  exact ⟨fun h => h.2.symm, fun h => ⟨rfl, h.symm⟩⟩

@[simp] theorem throw_iff {e : ε} : ¬Runs (throw e : Transaction σ ε α) s a s' := nofun

@[simp] theorem liftExcept_iff {r : Except ε α} :
    Runs (liftM r : Transaction σ ε α) s a s' ↔ r = .ok a ∧ s = s' := by
  unfold Runs
  rw [liftM, StateT.run_monadLift]
  cases r with
  | error e =>
    refine ⟨fun h => ?_, fun h => ?_⟩
    · cases h
    · cases h.1
  | ok b =>
    have hrun : ((monadLift (Except.ok b : Except ε α) : Except ε α) >>= fun a => pure (a, s)) =
        .ok (b, s) := rfl
    rw [hrun, Except.ok.injEq, Prod.mk.injEq, Except.ok.injEq]

@[simp] theorem map_iff {f : α → β} {b : β} :
    Runs (f <$> m) s b s' ↔ ∃ a, Runs m s a s' ∧ b = f a := by
  unfold Runs
  rw [StateT.run_map]
  cases m.run s with
  | error e => simp
  | ok r =>
    obtain ⟨x, t⟩ := r
    simp [eq_comm, and_comm]

theorem ite_iff {c : Prop} [Decidable c] {m' : Transaction σ ε α} :
    Runs (if c then m else m') s a s' ↔ (c ∧ Runs m s a s') ∨ (¬c ∧ Runs m' s a s') := by
  split_ifs with h <;> simp [h]

/-- A run of a loop over no items. -/
@[simp] theorem forM_nil_iff {f : α → Transaction σ ε PUnit} {u : PUnit} :
    Runs (forM ([] : List α) f) s u s' ↔ s = s' := by
  rw [List.forM_nil, pure_iff]
  exact ⟨And.right, fun h => ⟨rfl, h⟩⟩

/-- A run of a loop is a run of its first item and a run over the rest. -/
@[simp] theorem forM_cons_iff {f : α → Transaction σ ε PUnit} {x : α} {xs : List α} {u : PUnit} :
    Runs (forM (x :: xs) f) s u s' ↔ ∃ t, Runs (f x) s ⟨⟩ t ∧ Runs (forM xs f) t u s' := by
  rw [List.forM_cons, bind_iff]
  exact ⟨fun ⟨⟨⟩, t, hx, hxs⟩ => ⟨t, hx, hxs⟩, fun ⟨t, hx, hxs⟩ => ⟨⟨⟩, t, hx, hxs⟩⟩

/-- The loop rule: an invariant of the items done and the store that every item preserves holds of
all items at the end. -/
theorem forM_invariant {f : α → Transaction σ ε PUnit} (I : List α → σ → Prop) {xs : List α}
    {u : PUnit} (h : Runs (forM xs f) s u s') (h0 : I [] s)
    (hstep : ∀ done x rest t t', xs = done ++ x :: rest → I done t → Runs (f x) t ⟨⟩ t' →
      I (done ++ [x]) t') : I xs s' := by
  have key : ∀ (rest done : List α) (t : σ), xs = done ++ rest → I done t →
      Runs (forM rest f) t u s' → I xs s' := by
    intro rest
    induction rest with
    | nil =>
      intro done t hxs hI hrun
      rw [← forM_nil_iff.mp hrun, hxs, List.append_nil]
      exact hI
    | cons x rest ih =>
      intro done t hxs hI hrun
      obtain ⟨t', hx, hrest⟩ := forM_cons_iff.mp hrun
      exact ih (done ++ [x]) t' (by simp [hxs]) (hstep done x rest t t' hxs hI hx) hrest
  exact key xs [] s rfl h0 h

/-- The loop rule for success: if each item runs from where the invariant holds of the items done and
takes it one item further, then so does the loop. -/
theorem exists_forM {f : α → Transaction σ ε PUnit} (I : List α → σ → Prop) {xs : List α}
    (h0 : I [] s)
    (hstep : ∀ done x rest t, xs = done ++ x :: rest → I done t →
      ∃ t', Runs (f x) t ⟨⟩ t' ∧ I (done ++ [x]) t') :
    ∃ s', Runs (forM xs f) s ⟨⟩ s' ∧ I xs s' := by
  have key : ∀ (rest done : List α) (t : σ), xs = done ++ rest → I done t →
      ∃ s', Runs (forM rest f) t ⟨⟩ s' ∧ I xs s' := by
    intro rest
    induction rest with
    | nil =>
      intro done t hxs hI
      refine ⟨t, forM_nil_iff.mpr rfl, ?_⟩
      rw [hxs, List.append_nil]
      exact hI
    | cons x rest ih =>
      intro done t hxs hI
      obtain ⟨t', hx, hI'⟩ := hstep done x rest t hxs hI
      obtain ⟨s', hrest, hI⟩ := ih (done ++ [x]) t' (by simp [hxs]) hI'
      exact ⟨s', forM_cons_iff.mpr ⟨t', hx, hrest⟩, hI⟩
  exact key xs [] s rfl h0

/-- What every item preserves, the loop preserves. -/
theorem forM_preserves {f : α → Transaction σ ε PUnit} (I : σ → Prop) {xs : List α} {u : PUnit}
    (h : Runs (forM xs f) s u s') (h0 : I s)
    (hstep : ∀ x ∈ xs, ∀ t t', I t → Runs (f x) t ⟨⟩ t' → I t') : I s' :=
  forM_invariant (fun _ t => I t) h h0 fun _ x _ t t' hxs hI hrun =>
    hstep x (by simp [hxs]) t t' hI hrun

end Runs

/-- The transaction fails in the store `s` with the error `e`. -/
def Fails (m : Transaction σ ε α) (s : σ) (e : ε) : Prop := m.run s = .error e

namespace Fails

variable {m : Transaction σ ε α} {s : σ} {e : ε}

@[simp] theorem pure_iff {a : α} : ¬Fails (pure a : Transaction σ ε α) s e := nofun

@[simp] theorem throw_iff {e' : ε} : Fails (throw e' : Transaction σ ε α) s e ↔ e' = e := by
  have hrun : Fails (throw e' : Transaction σ ε α) s e ↔
      Except.error (α := α × σ) e' = .error e := Iff.rfl
  rw [hrun, Except.error.injEq]

@[simp] theorem get_iff : ¬Fails (get : Transaction σ ε σ) s e := nofun

@[simp] theorem modify_iff {f : σ → σ} : ¬Fails (modify f : Transaction σ ε PUnit) s e := nofun

/-- A sequence fails in its first part or in its second. -/
@[simp] theorem bind_iff {f : α → Transaction σ ε β} :
    Fails (m >>= f) s e ↔ Fails m s e ∨ ∃ a t, Runs m s a t ∧ Fails (f a) t e := by
  unfold Fails Runs
  rw [StateT.run_bind]
  cases m.run s with
  | error e' => simp [bind, Except.bind]
  | ok r =>
    obtain ⟨x, t⟩ := r
    simp [bind, Except.bind]

@[simp] theorem liftExcept_iff {r : Except ε α} :
    Fails (liftM r : Transaction σ ε α) s e ↔ r = .error e := by
  unfold Fails
  rw [liftM, StateT.run_monadLift]
  cases r with
  | error e' =>
    have hrun : ((monadLift (Except.error e' : Except ε α) : Except ε α) >>= fun a => pure (a, s)) =
        Except.error (α := α × σ) e' := rfl
    rw [hrun, Except.error.injEq, Except.error.injEq]
  | ok b =>
    refine ⟨fun h => ?_, fun h => ?_⟩
    · cases h
    · cases h

theorem ite_iff {c : Prop} [Decidable c] {m' : Transaction σ ε α} :
    Fails (if c then m else m') s e ↔ (c ∧ Fails m s e) ∨ (¬c ∧ Fails m' s e) := by
  split_ifs with h <;> simp [h]

end Fails

end Opbox
