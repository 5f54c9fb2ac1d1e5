import Mathlib.Data.List.Nodup
import Mathlib.Tactic.Common

/-!
# Keyed tables

A `Table key` is a list of rows whose primary keys `key row` are pairwise distinct: the key
constraint of a database table is a field, so a table that breaks it cannot be built.  The
statements of a row store are total functions (`put`, `deleteWhere`, `updateWhere`) or fail exactly
on a key conflict (`insert?`).  Two views describe a table: membership of rows, and the row at a
key (`find?`); every statement has one lemma for each view.
-/

namespace Opbox

universe u v

/-- A list of rows with pairwise distinct primary keys. -/
structure Table {R : Type u} {K : Type v} (key : R → K) where
  /-- The rows, in insertion order. -/
  rows : List R
  /-- The primary key constraint. -/
  keys_nodup : (rows.map key).Nodup

namespace Table

variable {R : Type u} {K : Type v} {key : R → K}

instance : Membership R (Table key) := ⟨fun t r => r ∈ t.rows⟩

theorem mem_rows {t : Table key} {r : R} : r ∈ t.rows ↔ r ∈ t := Iff.rfl

@[ext] theorem ext {t t' : Table key} (h : t.rows = t'.rows) : t = t' := by
  cases t; cases t'; cases h; rfl

instance [DecidableEq R] : DecidableEq (Table key) := fun t t' =>
  decidable_of_iff (t.rows = t'.rows) Table.ext_iff.symm

/-- A row is determined by its key. -/
theorem eq_of_key_eq {t : Table key} {r s : R} (hr : r ∈ t) (hs : s ∈ t) (h : key r = key s) :
    r = s :=
  List.inj_on_of_nodup_map t.keys_nodup hr hs h

/-- The table without rows. -/
def empty : Table key := ⟨[], List.nodup_nil⟩

@[simp] theorem not_mem_empty {r : R} : r ∉ (empty : Table key) := List.not_mem_nil

/-- The rows a predicate selects. -/
def select (t : Table key) (p : R → Bool) : List R := t.rows.filter p

@[simp] theorem mem_select {t : Table key} {p : R → Bool} {r : R} :
    r ∈ t.select p ↔ r ∈ t ∧ p r = true := List.mem_filter

/-- Delete the rows a predicate selects. -/
def deleteWhere (t : Table key) (p : R → Bool) : Table key where
  rows := t.rows.filter fun r => !p r
  keys_nodup := t.keys_nodup.sublist ((List.filter_sublist (l := t.rows)).map key)

@[simp] theorem mem_deleteWhere {t : Table key} {p : R → Bool} {r : R} :
    r ∈ t.deleteWhere p ↔ r ∈ t ∧ p r = false := by
  rw [← mem_rows, deleteWhere, List.mem_filter, mem_rows, Bool.not_eq_true']

/-- Change the rows a predicate selects by a function that keeps their keys. -/
def updateWhere (t : Table key) (p : R → Bool) (f : R → R) (hf : ∀ r, key (f r) = key r) :
    Table key where
  rows := t.rows.map fun r => if p r then f r else r
  keys_nodup := by
    have hkeys : (t.rows.map fun r => if p r then f r else r).map key = t.rows.map key := by
      rw [List.map_map]
      refine List.map_congr_left fun r _ => ?_
      by_cases hp : p r <;> simp [hp, hf]
    rw [hkeys]
    exact t.keys_nodup

@[simp] theorem mem_updateWhere {t : Table key} {p : R → Bool} {f : R → R}
    {hf : ∀ r, key (f r) = key r} {r : R} :
    r ∈ t.updateWhere p f hf ↔ ∃ s ∈ t, (if p s then f s else s) = r := by
  rw [← mem_rows, updateWhere, List.mem_map]
  rfl

section Keyed

variable [DecidableEq K]

/-- The row with a given primary key. -/
def find? (t : Table key) (k : K) : Option R := t.rows.find? fun r => key r = k

theorem find?_eq_some_iff {t : Table key} {k : K} {r : R} :
    t.find? k = some r ↔ r ∈ t ∧ key r = k := by
  constructor
  · intro h
    exact ⟨List.mem_of_find?_eq_some h, by simpa using List.find?_some h⟩
  · rintro ⟨hr, hk⟩
    cases hf : t.find? k with
    | none => exact absurd hk (by simpa using List.find?_eq_none.mp hf r hr)
    | some s =>
      have hs : s ∈ t := List.mem_of_find?_eq_some hf
      have hsk : key s = k := by simpa using List.find?_some hf
      rw [eq_of_key_eq hs hr (hsk.trans hk.symm)]

theorem find?_eq_none_iff {t : Table key} {k : K} : t.find? k = none ↔ ∀ r ∈ t, key r ≠ k := by
  rw [find?, List.find?_eq_none]
  simp [mem_rows]

theorem find?_key {t : Table key} {r : R} (hr : r ∈ t) : t.find? (key r) = some r :=
  find?_eq_some_iff.mpr ⟨hr, rfl⟩

theorem mem_of_find? {t : Table key} {k : K} {r : R} (h : t.find? k = some r) : r ∈ t :=
  (find?_eq_some_iff.mp h).1

theorem key_of_find? {t : Table key} {k : K} {r : R} (h : t.find? k = some r) : key r = k :=
  (find?_eq_some_iff.mp h).2

@[simp] theorem find?_empty (k : K) : (empty : Table key).find? k = none := rfl

@[simp] theorem find?_deleteWhere (t : Table key) (p : R → Bool) (k : K) :
    (t.deleteWhere p).find? k = (t.find? k).filter fun r => !p r := by
  ext r
  simp only [Option.filter_eq_some_iff, find?_eq_some_iff, mem_deleteWhere, Bool.not_eq_true']
  tauto

@[simp] theorem find?_updateWhere (t : Table key) (p : R → Bool) (f : R → R)
    (hf : ∀ r, key (f r) = key r) (k : K) :
    (t.updateWhere p f hf).find? k = (t.find? k).map fun r => if p r then f r else r := by
  have hkey : ∀ r, key (if p r then f r else r) = key r := fun r => by
    by_cases hp : p r <;> simp [hp, hf]
  ext r
  simp only [Option.map_eq_some_iff, find?_eq_some_iff, mem_updateWhere]
  constructor
  · rintro ⟨⟨s, hs, rfl⟩, hk⟩
    exact ⟨s, ⟨hs, (hkey s).symm.trans hk⟩, rfl⟩
  · rintro ⟨s, ⟨hs, hk⟩, rfl⟩
    exact ⟨⟨s, hs, rfl⟩, (hkey s).trans hk⟩

/-- Insert a row, replacing the row with its key if there is one. -/
def put (t : Table key) (r : R) : Table key where
  rows := (t.rows.filter fun s => key s ≠ key r) ++ [r]
  keys_nodup := by
    rw [List.map_append, List.map_singleton]
    refine List.Nodup.append (t.keys_nodup.sublist (List.filter_sublist.map key))
      (List.nodup_singleton _) ?_
    rintro k hk hk'
    obtain ⟨s, hs, rfl⟩ := List.mem_map.mp hk
    exact absurd (List.mem_singleton.mp hk') (by simpa using (List.mem_filter.mp hs).2)

@[simp] theorem mem_put {t : Table key} {r s : R} :
    s ∈ t.put r ↔ s = r ∨ (s ∈ t ∧ key s ≠ key r) := by
  rw [← mem_rows, put]
  simp only [List.mem_append, List.mem_filter, List.mem_singleton, decide_eq_true_eq, mem_rows]
  tauto

@[simp] theorem find?_put (t : Table key) (r : R) (k : K) :
    (t.put r).find? k = if key r = k then some r else t.find? k := by
  split_ifs with hk
  · exact find?_eq_some_iff.mpr ⟨mem_put.mpr (.inl rfl), hk⟩
  · ext s
    simp only [find?_eq_some_iff, mem_put]
    constructor
    · rintro ⟨rfl | ⟨hs, _⟩, hsk⟩
      · exact absurd hsk hk
      · exact ⟨hs, hsk⟩
    · rintro ⟨hs, rfl⟩
      exact ⟨.inr ⟨hs, fun h => hk h.symm⟩, rfl⟩

/-- Insert a row: `none` when a row with its key exists. -/
def insert? (t : Table key) (r : R) : Option (Table key) :=
  if h : key r ∈ t.rows.map key then none
  else some ⟨t.rows ++ [r], by
    rw [List.map_append, List.map_singleton]
    exact List.Nodup.append t.keys_nodup (List.nodup_singleton _)
      fun k hk hk' => h (List.mem_singleton.mp hk' ▸ hk)⟩

theorem insert?_eq_some_iff {t t' : Table key} {r : R} :
    t.insert? r = some t' ↔ t.find? (key r) = none ∧ t'.rows = t.rows ++ [r] := by
  have hfree : t.find? (key r) = none ↔ key r ∉ t.rows.map key := by
    simp [find?_eq_none_iff, ← mem_rows]
  rw [hfree, insert?]
  split_ifs with h
  · simp [h]
  · simp only [Option.some.injEq, h, not_false_eq_true, true_and, Table.ext_iff]
    exact eq_comm

theorem insert?_eq_none_iff {t : Table key} {r : R} :
    t.insert? r = none ↔ ∃ s, t.find? (key r) = some s := by
  rw [insert?]
  split_ifs with h
  · obtain ⟨s, hs, hk⟩ := List.mem_map.mp h
    exact iff_of_true rfl ⟨s, find?_eq_some_iff.mpr ⟨hs, hk⟩⟩
  · refine iff_of_false (by simp) ?_
    rintro ⟨s, hs⟩
    exact h (List.mem_map.mpr ⟨s, mem_of_find? hs, key_of_find? hs⟩)

theorem mem_insert? {t t' : Table key} {r s : R} (h : t.insert? r = some t') :
    s ∈ t' ↔ s = r ∨ s ∈ t := by
  rw [← mem_rows, (insert?_eq_some_iff.mp h).2, List.mem_append, List.mem_singleton, or_comm]
  rfl

theorem find?_insert? {t t' : Table key} {r : R} (h : t.insert? r = some t') (k : K) :
    t'.find? k = if key r = k then some r else t.find? k := by
  split_ifs with hk
  · exact find?_eq_some_iff.mpr ⟨(mem_insert? h).mpr (.inl rfl), hk⟩
  · ext s
    simp only [find?_eq_some_iff, mem_insert? h]
    constructor
    · rintro ⟨rfl | hs, hsk⟩
      · exact absurd hsk hk
      · exact ⟨hs, hsk⟩
    · rintro ⟨hs, hsk⟩
      exact ⟨.inr hs, hsk⟩

/-- An insertion that succeeds is a put. -/
theorem eq_put_of_insert? {t t' : Table key} {r : R} (h : t.insert? r = some t') : t' = t.put r := by
  obtain ⟨hnone, hrows⟩ := insert?_eq_some_iff.mp h
  have hkeep : (t.rows.filter fun s => key s ≠ key r) = t.rows :=
    List.filter_eq_self.mpr fun s hs => decide_eq_true (find?_eq_none_iff.mp hnone s hs)
  refine Table.ext (hrows.trans ?_)
  show t.rows ++ [r] = (t.rows.filter fun s => key s ≠ key r) ++ [r]
  rw [hkeep]

/-- Insertion fails on the key of an existing row only. -/
theorem find?_eq_none_of_insert? {t t' : Table key} {r : R} (h : t.insert? r = some t') :
    t.find? (key r) = none :=
  (insert?_eq_some_iff.mp h).1

/-- Put several rows in order. -/
def putAll (t : Table key) (rows : List R) : Table key := rows.foldl put t

@[simp] theorem putAll_nil (t : Table key) : t.putAll [] = t := rfl

@[simp] theorem putAll_cons (t : Table key) (r : R) (rows : List R) :
    t.putAll (r :: rows) = (t.put r).putAll rows := rfl

theorem putAll_append (t : Table key) (rows rows' : List R) :
    t.putAll (rows ++ rows') = (t.putAll rows).putAll rows' := List.foldl_append

/-- Rows of other keys stay where they are. -/
theorem find?_putAll_of_notMem {rows : List R} {k : K} (h : k ∉ rows.map key) (t : Table key) :
    (t.putAll rows).find? k = t.find? k := by
  induction rows generalizing t with
  | nil => rfl
  | cons r rows ih =>
    rw [List.map_cons, List.mem_cons, not_or] at h
    rw [putAll_cons, ih h.2, find?_put, if_neg fun hk => h.1 hk.symm]

/-- Of rows with different keys every one is found. -/
theorem find?_putAll_of_mem {rows : List R} (hnodup : (rows.map key).Nodup) {r : R} (h : r ∈ rows)
    (t : Table key) : (t.putAll rows).find? (key r) = some r := by
  induction rows generalizing t with
  | nil => cases h
  | cons s rows ih =>
    rw [List.map_cons, List.nodup_cons] at hnodup
    rcases List.mem_cons.mp h with rfl | h
    · rw [putAll_cons, find?_putAll_of_notMem hnodup.1, find?_put, if_pos rfl]
    · exact ih hnodup.2 h _

/-- A key is free after some puts if it was free before and is not put. -/
theorem find?_putAll_eq_none_iff {rows : List R} {t : Table key} {k : K} :
    (t.putAll rows).find? k = none ↔ t.find? k = none ∧ k ∉ rows.map key := by
  induction rows generalizing t with
  | nil => simp
  | cons r rows ih =>
    rw [putAll_cons, ih, find?_put, List.map_cons, List.mem_cons, not_or]
    by_cases hk : key r = k
    · simp [hk]
    · simp [hk, Ne.symm hk]

/-- What is in a table after some puts is one of the rows put, or was there before. -/
theorem mem_of_mem_putAll {rows : List R} {t : Table key} {r : R} (h : r ∈ t.putAll rows) :
    r ∈ rows ∨ (r ∈ t ∧ key r ∉ rows.map key) := by
  induction rows generalizing t with
  | nil => exact .inr ⟨h, List.not_mem_nil⟩
  | cons s rows ih =>
    rcases ih h with h | ⟨h, hkey⟩
    · exact .inl (List.mem_cons_of_mem _ h)
    · rcases mem_put.mp h with rfl | ⟨h, hne⟩
      · exact .inl List.mem_cons_self
      · refine .inr ⟨h, ?_⟩
        rw [List.map_cons, List.mem_cons, not_or]
        exact ⟨hne, hkey⟩

end Keyed

end Table

end Opbox
