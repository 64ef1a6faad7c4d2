import Mathlib.Data.List.Basic
import Mathlib.Data.List.Infix

/-! # Lists that count up by one

The numbers of a stream's consecutive messages.

* **`EndsAt n l`** — `l` counts up to `n`: what is left of a stream whose last message is `n`.
* **`Continues r l`** — `l` counts up from at most the number after `r`: what a receiver that has had
  everything up to `r` can be sent without a gap. -/

namespace Foundations

/-- `l` counts up by one, from a positive number, and ends at `n`. -/
def EndsAt (n : ℕ) (l : List ℕ) : Prop :=
  l.length ≤ n ∧ l = List.range' (n + 1 - l.length) l.length

/-- `l` counts up by one and starts at `r + 1` or before. -/
def Continues (r : ℕ) (l : List ℕ) : Prop :=
  ∃ a, a ≤ r + 1 ∧ l = List.range' a l.length

variable {n r : ℕ} {l l' : List ℕ}

/-- Both parts of a list that counts up count up. -/
theorem range'_parts {a : ℕ} (h : l ++ l' = List.range' a (l ++ l').length) :
    l = List.range' a l.length ∧ l' = List.range' (a + l.length) l'.length := by
  rw [List.length_append, ← List.range'_append_1] at h
  exact List.append_inj h (by rw [List.length_range'])

/-- Nothing ends anywhere. -/
@[simp] theorem EndsAt.nil : EndsAt n [] := ⟨Nat.zero_le _, rfl⟩

/-- Nothing goes on from anywhere. -/
@[simp] theorem Continues.nil : Continues r [] := ⟨0, Nat.zero_le _, rfl⟩

/-- The next number. -/
theorem EndsAt.concat (h : EndsAt n l) : EndsAt (n + 1) (l ++ [n + 1]) := by
  obtain ⟨hle, heq⟩ := h
  have hlength : (l ++ [n + 1]).length = l.length + 1 := List.length_append
  refine ⟨by omega, ?_⟩
  have hlast : n + 1 - l.length + l.length = n + 1 := by omega
  rw [hlength, show n + 1 + 1 - (l.length + 1) = n + 1 - l.length by omega, List.range'_concat,
    ← heq, Nat.one_mul, hlast]

/-- A last part ends where the whole does. -/
theorem EndsAt.suffix (h : EndsAt n (l ++ l')) : EndsAt n l' := by
  obtain ⟨hle, heq⟩ := h
  have hl' := (range'_parts heq).2
  rw [List.length_append] at hle hl'
  refine ⟨by omega, ?_⟩
  rwa [show n + 1 - (l.length + l'.length) + l.length = n + 1 - l'.length by omega] at hl'

/-- What is left after some have been dropped ends where the whole does. -/
theorem EndsAt.dropWhile (h : EndsAt n l) (p : ℕ → Bool) : EndsAt n (l.dropWhile p) := by
  rw [← List.takeWhile_append_dropWhile (p := p) (l := l)] at h
  exact h.suffix

/-- Where such a list starts. -/
theorem EndsAt.head {a : ℕ} (h : EndsAt n (a :: l)) : a + l.length = n := by
  obtain ⟨hle, heq⟩ := h
  rw [List.length_cons, List.range'_succ, List.cons.injEq] at heq
  rw [List.length_cons] at hle
  omega

/-- One that starts in time, but for what lies below, still starts in time. -/
theorem EndsAt.le_dropWhile (h : EndsAt n l) (hstart : n ≤ r + l.length) :
    n ≤ r + (l.dropWhile fun k => k ≤ r).length := by
  induction l with
  | nil => exact hstart
  | cons a l ih =>
      have hhead := h.head
      rw [List.dropWhile_cons]
      split
      · rename_i ha
        rw [decide_eq_true_eq] at ha
        exact ih (EndsAt.suffix (l := [a]) h) (by omega)
      · exact hstart

/-- No number is above the last. -/
theorem EndsAt.le {k : ℕ} (h : EndsAt n l) (hk : k ∈ l) : k ≤ n := by
  obtain ⟨hle, heq⟩ := h
  rw [heq, List.mem_range'_1] at hk
  omega

/-- What ends at a number goes on from one that is near enough. -/
theorem EndsAt.continues (h : EndsAt n l) (hstart : n ≤ r + l.length) : Continues r l :=
  ⟨n + 1 - l.length, by omega, h.2⟩

/-- The length of the list says whether its first number is early enough. -/
theorem EndsAt.start_iff {a : ℕ} (h : EndsAt n (a :: l)) : n ≤ r + (a :: l).length ↔ a ≤ r + 1 := by
  have hhead := h.head
  rw [List.length_cons]
  omega

/-- A first part goes on from where the whole does. -/
theorem Continues.init (h : Continues r (l ++ l')) : Continues r l := by
  obtain ⟨a, ha, heq⟩ := h
  exact ⟨a, ha, (range'_parts heq).1⟩

/-- What comes before a number of the list. -/
theorem Continues.mem_or {m : ℕ} (h : Continues r (l ++ m :: l')) {k : ℕ} (hk : k < m) :
    k ≤ r ∨ k ∈ l := by
  obtain ⟨a, ha, heq⟩ := h
  obtain ⟨hl, hrest⟩ := range'_parts heq
  rw [List.length_cons, List.range'_succ, List.cons.injEq] at hrest
  rw [hl, List.mem_range'_1]
  omega

/-- **No gap**: a receiver that has had everything up to `b`, among which is all that was before it in
the list, is not sent a number after `b + 1`. -/
theorem Continues.le_succ {m b : ℕ} (h : Continues r (l ++ m :: l')) (hr : r ≤ b)
    (hl : ∀ k ∈ l, k ≤ b) : m ≤ b + 1 := by
  by_contra hlt
  rcases h.mem_or (show b + 1 < m by omega) with hle | hmem
  · omega
  · exact absurd (hl _ hmem) (by omega)

end Foundations
