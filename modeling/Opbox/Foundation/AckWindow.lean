import Mathlib.Data.Set.Basic
import Mathlib.Order.Defs.LinearOrder
import Mathlib.Tactic.Common

/-!
# Cumulative acknowledgement

A sender keeps a `store` of indexed items, sends some of them in a list and gets the sent items
acknowledged in order.  One acknowledgement of the item at index `i` is read as "everything in the
store up to `i` is safe".  `AckWindow store acked sent` is the condition that makes this reading
sound: below every sent item, each stored item was acknowledged or is sent earlier.
-/

namespace Opbox

universe u v

variable {ι : Type u} {M : Type v} [LinearOrder ι]

/-- Everything in the store up to the index `i` has been acknowledged. -/
def AckedThrough (store acked : Set (ι × M)) (i : ι) : Prop :=
  ∀ r ∈ store, r.1 ≤ i → r ∈ acked

/-- The sent, not yet acknowledged items `sent` of a store whose items `acked` are safe. -/
structure AckWindow (store acked : Set (ι × M)) (sent : List (ι × M)) : Prop where
  /-- Below a sent item, every stored item is acknowledged or was sent before it. -/
  below : ∀ pre x post, sent = pre ++ x :: post →
    ∀ r ∈ store, r.1 < x.1 → r ∈ acked ∨ r ∈ pre
  /-- A sent item is the stored item of its index. -/
  agree : ∀ x ∈ sent, ∀ r ∈ store, r.1 = x.1 → r = x

variable {store store' acked acked' : Set (ι × M)} {sent : List (ι × M)}

/-- A cumulative acknowledgement stays sound while the store loses items, gains items above the
index, and more items are acknowledged. -/
theorem AckedThrough.mono {i : ι} (h : AckedThrough store acked i)
    (hs : ∀ r ∈ store', r ∈ store ∨ i < r.1) (ha : acked ⊆ acked') :
    AckedThrough store' acked' i := by
  intro r hr hi
  rcases hs r hr with hr' | hlt
  · exact ha (h r hr' hi)
  · exact absurd hi (not_le.mpr hlt)

namespace AckWindow

/-- With nothing sent there is nothing to check. -/
theorem nil : AckWindow store acked [] where
  below := by
    intro pre x post h
    exact absurd h (by simp)
  agree := by simp

/-- The window survives when the store loses items or gains items above everything sent, and when
more items are acknowledged. -/
theorem mono (h : AckWindow store acked sent)
    (hs : ∀ r ∈ store', r ∈ store ∨ ∀ x ∈ sent, x.1 < r.1) (ha : acked ⊆ acked') :
    AckWindow store' acked' sent where
  below := by
    intro pre x post hsent r hr hlt
    rcases hs r hr with hr' | hnew
    · exact (h.below pre x post hsent r hr' hlt).imp_left fun hx => ha hx
    · exact absurd hlt (not_lt.mpr (hnew x (by simp [hsent])).le)
  agree := by
    intro x hx r hr heq
    rcases hs r hr with hr' | hnew
    · exact h.agree x hx r hr' heq
    · exact absurd heq (hnew x hx).ne'

/-- Acknowledging the first sent item makes everything up to its index safe. -/
theorem ackedThrough_head {x : ι × M} (h : AckWindow store acked (x :: sent)) :
    AckedThrough store (insert x acked) x.1 := by
  intro r hr hle
  rcases hle.lt_or_eq with hlt | heq
  · rcases h.below [] x sent rfl r hr hlt with hx | hx
    · exact .inr hx
    · exact absurd hx (by simp)
  · exact .inl (h.agree x (by simp) r hr heq)

/-- Acknowledging the first sent item leaves a window of the others. -/
theorem tail {x : ι × M} (h : AckWindow store acked (x :: sent)) :
    AckWindow store (insert x acked) sent where
  below := by
    intro pre y post hsent r hr hlt
    have hsent' : x :: sent = (x :: pre) ++ y :: post := by rw [hsent]; rfl
    rcases h.below (x :: pre) y post hsent' r hr hlt with hx | hx
    · exact .inl (.inr hx)
    · rcases List.mem_cons.mp hx with rfl | hx
      · exact .inl (.inl rfl)
      · exact .inr hx
  agree := fun y hy => h.agree y (List.mem_cons_of_mem _ hy)

/-- Sending more items: below each new item every stored item must be acknowledged, sent before,
or sent earlier in the same batch. -/
theorem append {new : List (ι × M)} (h : AckWindow store acked sent)
    (hbelow : ∀ pre x post, new = pre ++ x :: post →
      ∀ r ∈ store, r.1 < x.1 → r ∈ acked ∨ r ∈ sent ∨ r ∈ pre)
    (hagree : ∀ x ∈ new, ∀ r ∈ store, r.1 = x.1 → r = x) :
    AckWindow store acked (sent ++ new) where
  below := by
    intro pre x post heq r hr hlt
    rcases List.append_eq_append_iff.mp heq with ⟨mid, hpre, hnew⟩ | ⟨mid, hsent, hnew⟩
    · rcases hbelow mid x post hnew r hr hlt with hx | hx | hx
      · exact .inl hx
      · exact .inr (by simp [hpre, hx])
      · exact .inr (by simp [hpre, hx])
    · cases mid with
      | nil =>
        rcases hbelow [] x post (by simpa using hnew.symm) r hr hlt with hx | hx | hx
        · exact .inl hx
        · exact .inr (by simpa [hsent] using hx)
        · exact absurd hx (by simp)
      | cons y mid =>
        rw [List.cons_append, List.cons.injEq] at hnew
        obtain ⟨rfl, -⟩ := hnew
        exact h.below pre x mid hsent r hr hlt
  agree := by
    intro x hx r hr heq
    rcases List.mem_append.mp hx with hx | hx
    · exact h.agree x hx r hr heq
    · exact hagree x hx r hr heq

end AckWindow

end Opbox
