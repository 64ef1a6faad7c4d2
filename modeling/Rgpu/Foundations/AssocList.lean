import Mathlib.Data.List.Basic
import Mathlib.Data.List.Nodup

/-! # Association lists

A table kept as a list of keyed entries, with the operations a program performs on one: look a key
up, change the entry of a key in place, take a key out, change every entry. Beside the value each
operation leaves under a key, the file says what it does to the entries *up to order*, which is what
conservation arguments about such a table count. -/

namespace Foundations.AssocList

variable {κ ν ν' : Type*}

/-- The keys, in order. -/
def keys (l : List (κ × ν)) : List κ := l.map Prod.fst

/-- Change every value. -/
def mapValues (f : ν → ν') (l : List (κ × ν)) : List (κ × ν') := l.map fun e => (e.1, f e.2)

/-- No entries, no keys. -/
@[simp] theorem keys_nil : keys ([] : List (κ × ν)) = [] := rfl

/-- The keys of a list, entry by entry. -/
@[simp] theorem keys_cons (e : κ × ν) (l : List (κ × ν)) : keys (e :: l) = e.1 :: keys l := rfl

/-- The keys of two lists. -/
@[simp] theorem keys_append (l m : List (κ × ν)) : keys (l ++ m) = keys l ++ keys m :=
  List.map_append

/-- Changing values leaves the keys. -/
@[simp] theorem keys_mapValues (f : ν → ν') (l : List (κ × ν)) : keys (mapValues f l) = keys l := by
  rw [keys, mapValues, List.map_map]
  rfl

/-- Changing values leaves the length. -/
@[simp] theorem length_mapValues (f : ν → ν') (l : List (κ × ν)) :
    (mapValues f l).length = l.length := List.length_map _

/-- The values of two lists change in each. -/
@[simp] theorem mapValues_append (f : ν → ν') (l m : List (κ × ν)) :
    mapValues f (l ++ m) = mapValues f l ++ mapValues f m := List.map_append

/-- What does not see a change of the values is the same after it. -/
theorem mapValues_mapValues {g : ν → ν'} {f : ν → ν} (hg : ∀ v, g (f v) = g v) (l : List (κ × ν)) :
    mapValues g (mapValues f l) = mapValues g l := by
  rw [mapValues, mapValues, List.map_map]
  refine List.map_congr_left fun e _ => ?_
  rw [Function.comp_apply, hg]

section Decidable

variable [DecidableEq κ]

/-- Change the value under `k` in place, if it has one. -/
def adjust (k : κ) (f : ν → ν) (l : List (κ × ν)) : List (κ × ν) :=
  l.map fun e => if e.1 = k then (e.1, f e.2) else e

/-- Take `k` out. -/
def remove (k : κ) (l : List (κ × ν)) : List (κ × ν) := l.filter fun e => e.1 ≠ k

/-- Adjusting one value leaves the keys. -/
@[simp] theorem keys_adjust (k : κ) (f : ν → ν) (l : List (κ × ν)) :
    keys (adjust k f l) = keys l := by
  rw [keys, adjust, List.map_map]
  refine List.map_congr_left fun e _ => ?_
  simp only [Function.comp_apply]
  split <;> rfl

/-- Adjusting one value leaves the length. -/
@[simp] theorem length_adjust (k : κ) (f : ν → ν) (l : List (κ × ν)) :
    (adjust k f l).length = l.length := List.length_map _

/-- A change of one value, seen through a function of the values. -/
theorem mapValues_adjust {g : ν → ν'} {f : ν → ν} {f' : ν' → ν'} (hg : ∀ v, g (f v) = f' (g v)) (k : κ)
    (l : List (κ × ν)) : mapValues g (adjust k f l) = adjust k f' (mapValues g l) := by
  rw [mapValues, adjust, adjust, mapValues, List.map_map, List.map_map]
  refine List.map_congr_left fun e _ => ?_
  simp only [Function.comp_apply]
  split
  · rw [hg]
  · rfl

/-- What does not see the change of a value is the same after it. -/
theorem mapValues_adjust_same {g : ν → ν'} {f : ν → ν} (hg : ∀ v, g (f v) = g v) (k : κ)
    (l : List (κ × ν)) : mapValues g (adjust k f l) = mapValues g l := by
  have hid : adjust k id (mapValues g l) = mapValues g l := by
    refine (List.map_congr_left fun e _ => ?_).trans (List.map_id _)
    split <;> rfl
  exact (mapValues_adjust (show ∀ v, g (f v) = id (g v) from hg) k l).trans hid

/-- A key is there if it is found. -/
theorem mem_keys_iff {k : κ} {l : List (κ × ν)} : k ∈ keys l ↔ ∃ v, l.lookup k = some v := by
  induction l with
  | nil => simp
  | cons e l ih =>
      obtain ⟨k', v'⟩ := e
      by_cases h : k = k'
      · subst h
        simp
      · have hbeq : (k == k') = false := by simpa using h
        simp [List.lookup_cons, hbeq, h, ih]

/-- A key is not found if it is not there. -/
theorem lookup_eq_none_iff {k : κ} {l : List (κ × ν)} : l.lookup k = none ↔ k ∉ keys l := by
  rw [mem_keys_iff]
  cases l.lookup k <;> simp

/-- What is found is an entry. -/
theorem mem_of_lookup {k : κ} {v : ν} {l : List (κ × ν)} (h : l.lookup k = some v) :
    (k, v) ∈ l := by
  obtain ⟨l₁, l₂, rfl, -⟩ := List.lookup_eq_some_iff.mp h
  simp

/-- With distinct keys, the entry under a key is the one looked up. -/
theorem lookup_of_mem {k : κ} {v : ν} {l : List (κ × ν)} (hnd : (keys l).Nodup)
    (h : (k, v) ∈ l) : l.lookup k = some v := by
  induction l with
  | nil => simp at h
  | cons e l ih =>
      obtain ⟨k', v'⟩ := e
      rw [keys_cons, List.nodup_cons] at hnd
      rcases List.mem_cons.mp h with heq | hmem
      · rw [Prod.mk.injEq] at heq
        rw [heq.1, heq.2, List.lookup_cons_self]
      · have hne : k ≠ k' := by
          rintro rfl
          exact hnd.1 (List.mem_map.mpr ⟨(k, v), hmem, rfl⟩)
        rw [List.lookup_cons, show (k == k') = false by simpa using hne]
        exact ih hnd.2 hmem

/-- Adjusting one value adjusts no other. -/
theorem lookup_adjust (k k' : κ) (f : ν → ν) (l : List (κ × ν)) :
    (adjust k f l).lookup k' = if k' = k then (l.lookup k').map f else l.lookup k' := by
  induction l with
  | nil => simp [adjust]
  | cons e l ih =>
      obtain ⟨a, v⟩ := e
      rw [adjust, List.map_cons, ← adjust]
      by_cases ha : a = k
      · subst ha
        rw [if_pos rfl]
        by_cases hk : k' = a
        · subst hk
          simp
        · simp only [if_neg hk] at ih ⊢
          simp [List.lookup_cons, show (k' == a) = false by simpa using hk, ih]
      · rw [if_neg ha]
        by_cases hk : k' = a
        · subst hk
          simp [ha]
        · simp [List.lookup_cons, show (k' == a) = false by simpa using hk, ih]

/-- Changing all values changes the one that is found. -/
theorem lookup_mapValues (k : κ) (f : ν → ν') (l : List (κ × ν)) :
    (mapValues f l).lookup k = (l.lookup k).map f := by
  induction l with
  | nil => rfl
  | cons e l ih =>
      obtain ⟨a, v⟩ := e
      rw [mapValues, List.map_cons, ← mapValues]
      by_cases hk : k = a
      · subst hk
        simp
      · simp [List.lookup_cons, show (k == a) = false by simpa using hk, ih]

/-- A key that is removed is not found, and the others are as before. -/
theorem lookup_remove (k k' : κ) (l : List (κ × ν)) :
    (remove k l).lookup k' = if k' = k then none else l.lookup k' := by
  induction l with
  | nil => simp [remove]
  | cons e l ih =>
      obtain ⟨a, v⟩ := e
      by_cases ha : a = k
      · subst ha
        have hdrop : remove a ((a, v) :: l) = remove a l := by simp [remove]
        rw [hdrop, ih]
        by_cases hk : k' = a
        · simp [hk]
        · simp [List.lookup_cons, show (k' == a) = false by simpa using hk, hk]
      · have hkeep : remove k ((a, v) :: l) = (a, v) :: remove k l := by simp [remove, ha]
        rw [hkeep]
        by_cases hk : k' = a
        · subst hk
          simp [ha]
        · simp only [List.lookup_cons, show (k' == a) = false by simpa using hk]
          exact ih

/-- The keys that stay are the others. -/
theorem mem_keys_remove {k k' : κ} {l : List (κ × ν)} :
    k' ∈ keys (remove k l) ↔ k' ∈ keys l ∧ k' ≠ k := by
  rw [mem_keys_iff, mem_keys_iff, lookup_remove]
  split <;> simp_all

/-- Removing a key makes none appear twice. -/
theorem nodup_keys_remove {k : κ} {l : List (κ × ν)} (h : (keys l).Nodup) :
    (keys (remove k l)).Nodup :=
  h.sublist (List.Sublist.map _ List.filter_sublist)

/-- Removing a key does not make the list longer. -/
theorem length_remove_le (k : κ) (l : List (κ × ν)) : (remove k l).length ≤ l.length :=
  List.length_filter_le _ _

/-- A key that is not there leaves the table as it is when it is taken out. -/
theorem remove_of_notMem {k : κ} {l : List (κ × ν)} (h : k ∉ keys l) : remove k l = l := by
  refine List.filter_eq_self.mpr fun e he => ?_
  rw [decide_eq_true_iff]
  rintro rfl
  exact h (List.mem_map.mpr ⟨e, he, rfl⟩)

/-- A table with distinct keys is, up to order, an entry and the table without it. -/
theorem perm_remove {k : κ} {v : ν} {l : List (κ × ν)} (hnd : (keys l).Nodup)
    (h : l.lookup k = some v) : l.Perm ((k, v) :: remove k l) := by
  induction l with
  | nil => simp at h
  | cons e l ih =>
      obtain ⟨a, u⟩ := e
      rw [keys_cons, List.nodup_cons] at hnd
      by_cases ha : a = k
      · subst ha
        rw [List.lookup_cons_self, Option.some.injEq] at h
        have hdrop : remove a ((a, u) :: l) = remove a l := by simp [remove]
        rw [hdrop, remove_of_notMem hnd.1, h]
      · have hkeep : remove k ((a, u) :: l) = (a, u) :: remove k l := by simp [remove, ha]
        have hbeq : (k == a) = false := by simpa using fun h' : k = a => ha h'.symm
        rw [List.lookup_cons, hbeq] at h
        rw [hkeep]
        exact ((ih hnd.2 h).cons (a, u)).trans (List.Perm.swap (k, v) (a, u) _)

/-- Changing the value under a key changes, up to order, that one entry. -/
theorem perm_adjust {k : κ} {v : ν} {l : List (κ × ν)} (hnd : (keys l).Nodup)
    (h : l.lookup k = some v) (f : ν → ν) : (adjust k f l).Perm ((k, f v) :: remove k l) := by
  have hremove : remove k (adjust k f l) = remove k l := by
    have hkey : ((fun e : κ × ν => decide (e.1 ≠ k)) ∘ fun e => if e.1 = k then (e.1, f e.2) else e) =
        fun e => decide (e.1 ≠ k) := by
      funext e
      rw [Function.comp_apply]
      split <;> rfl
    rw [adjust, remove, remove, List.filter_map, hkey]
    refine (List.map_congr_left fun e he => ?_).trans (List.map_id _)
    rw [List.mem_filter] at he
    exact if_neg (by simpa using he.2)
  rw [← hremove]
  refine perm_remove (by rwa [keys_adjust]) ?_
  rw [lookup_adjust, if_pos rfl, h, Option.map_some]

end Decidable

end Foundations.AssocList
