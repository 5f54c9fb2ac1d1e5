import Mathlib.Data.Finset.Basic
import Mathlib.Data.List.Sort

/-!
# Sorted listings of finite sets

`sortedList s` lists the members of a finite set in increasing order.  It is computed by a
structural insertion sort, so that listings of concrete sets evaluate, and it depends on the set
only: two sets with the same members are listed alike.
-/

namespace Opbox

universe u

variable {α : Type u} [LinearOrder α]

/-- The members of a finite set in increasing order. -/
def sortedList (s : Finset α) : List α :=
  Quotient.liftOn s.val (List.insertionSort (· ≤ ·)) fun _ _ h =>
    List.Perm.eq_of_pairwise (fun _ _ _ _ => le_antisymm) (List.pairwise_insertionSort _ _)
      (List.pairwise_insertionSort _ _)
      (((List.perm_insertionSort _ _).trans h).trans (List.perm_insertionSort _ _).symm)

theorem coe_sortedList (s : Finset α) : (sortedList s : Multiset α) = s.val := by
  obtain ⟨m, hm⟩ := s
  induction m using Quotient.inductionOn with
  | h l => exact Quotient.sound (List.perm_insertionSort (· ≤ ·) l)

@[simp] theorem mem_sortedList {s : Finset α} {a : α} : a ∈ sortedList s ↔ a ∈ s := by
  rw [← Finset.mem_val, ← coe_sortedList, Multiset.mem_coe]

theorem nodup_sortedList (s : Finset α) : (sortedList s).Nodup := by
  rw [← Multiset.coe_nodup, coe_sortedList]
  exact s.nodup

/-- The listing increases strictly. -/
theorem pairwise_sortedList (s : Finset α) : (sortedList s).Pairwise (· < ·) := by
  have hle : (sortedList s).Pairwise (· ≤ ·) := by
    obtain ⟨m, hm⟩ := s
    induction m using Quotient.inductionOn with
    | h l => exact List.pairwise_insertionSort _ _
  exact hle.imp₂ (fun _ _ h h' => lt_of_le_of_ne h h') (nodup_sortedList s)

@[simp] theorem sortedList_eq_nil {s : Finset α} : sortedList s = [] ↔ s = ∅ := by
  rw [List.eq_nil_iff_forall_not_mem, Finset.eq_empty_iff_forall_notMem]
  simp

@[simp] theorem sortedList_singleton (a : α) : sortedList {a} = [a] := rfl

/-- A strictly increasing list is the listing of its members. -/
theorem sortedList_eq {s : Finset α} {l : List α} (hl : l.Pairwise (· < ·))
    (h : ∀ a, a ∈ l ↔ a ∈ s) : sortedList s = l := by
  have hperm : (sortedList s).Perm l :=
    (List.perm_ext_iff_of_nodup (nodup_sortedList s) (hl.imp ne_of_lt)).mpr
      fun a => mem_sortedList.trans (h a).symm
  exact hperm.eq_of_pairwise (fun _ _ _ _ h h' => absurd h (lt_asymm h'))
    (pairwise_sortedList s) hl

end Opbox
