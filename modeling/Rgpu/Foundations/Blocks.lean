import Mathlib.Data.List.Basic

/-! # Blocks written into a list

* **`overwrite xs at src`** — `xs` with `src` in place of what is at the indices from `at` on.
* **`overwriteAll xs blocks`** — the same for several blocks, in order; blocks that are `Apart` are all found there
afterwards, and nothing else has changed. -/

namespace Foundations

variable {α : Type*}

/-- The list with a block written at an index. -/
def overwrite (xs : List α) (start : ℕ) (src : List α) : List α :=
  xs.take start ++ (src ++ xs.drop (start + src.length))

/-- Overwriting a block within the list keeps its length. -/
theorem length_overwrite {xs : List α} {start : ℕ} {src : List α} (h : start + src.length ≤ xs.length) :
    (overwrite xs start src).length = xs.length := by
  rw [overwrite, List.length_append, List.length_append, List.length_take, List.length_drop]
  omega

/-- Within the block. -/
theorem getElem?_overwrite_inside {xs : List α} {start : ℕ} {src : List α} (h : start + src.length ≤ xs.length)
    {k : ℕ} (hk : k < src.length) : (overwrite xs start src)[start + k]? = src[k]? := by
  have htake : (xs.take start).length = start := by
    rw [List.length_take]
    omega
  rw [overwrite, List.getElem?_append_right (by omega), htake, Nat.add_sub_cancel_left, List.getElem?_append_left hk]

/-- Outside of the block. -/
theorem getElem?_overwrite_outside {xs : List α} {start : ℕ} {src : List α} (h : start + src.length ≤ xs.length)
    {k : ℕ} (hk : k < start ∨ start + src.length ≤ k) : (overwrite xs start src)[k]? = xs[k]? := by
  have htake : (xs.take start).length = start := by
    rw [List.length_take]
    omega
  rcases hk with hk | hk
  · rw [overwrite, List.getElem?_append_left (by omega), List.getElem?_take_of_lt hk]
  · rw [overwrite, List.getElem?_append_right (by omega), htake, List.getElem?_append_right (by omega),
      List.getElem?_drop]
    congr 1
    omega

/-- The list with blocks written at their indices, one after another. -/
def overwriteAll (xs : List α) : List (ℕ × List α) → List α
  | [] => xs
  | b :: blocks => overwriteAll (overwrite xs b.1 b.2) blocks

/-- The blocks have no index in common. -/
def Apart (a b : ℕ × List α) : Prop := a.1 + a.2.length ≤ b.1 ∨ b.1 + b.2.length ≤ a.1

variable {xs : List α} {blocks : List (ℕ × List α)}

/-- Overwriting several blocks within the list keeps its length. -/
theorem length_overwriteAll (h : ∀ b ∈ blocks, b.1 + b.2.length ≤ xs.length) :
    (overwriteAll xs blocks).length = xs.length := by
  induction blocks generalizing xs with
  | nil => rfl
  | cons b blocks ih =>
      have hlen := length_overwrite (h b List.mem_cons_self)
      rw [overwriteAll, ih fun c hc => hlen ▸ h c (List.mem_cons_of_mem _ hc), hlen]

/-- What lies outside all blocks stays as it was. -/
theorem getElem?_overwriteAll_outside (h : ∀ b ∈ blocks, b.1 + b.2.length ≤ xs.length) {k : ℕ}
    (hk : ∀ b ∈ blocks, k < b.1 ∨ b.1 + b.2.length ≤ k) : (overwriteAll xs blocks)[k]? = xs[k]? := by
  induction blocks generalizing xs with
  | nil => rfl
  | cons b blocks ih =>
      have hb := h b List.mem_cons_self
      have hrest := ih (fun c hc => (length_overwrite hb).symm ▸ h c (List.mem_cons_of_mem _ hc))
        (fun c hc => hk c (List.mem_cons_of_mem _ hc))
      rw [overwriteAll, hrest, getElem?_overwrite_outside hb (hk b List.mem_cons_self)]

/-- Blocks that are apart are all found afterwards. -/
theorem getElem?_overwriteAll_inside (h : ∀ b ∈ blocks, b.1 + b.2.length ≤ xs.length) (hapart : blocks.Pairwise Apart)
    {b : ℕ × List α} (hb : b ∈ blocks) {k : ℕ} (hk : k < b.2.length) :
    (overwriteAll xs blocks)[b.1 + k]? = b.2[k]? := by
  induction blocks generalizing xs with
  | nil => cases hb
  | cons c blocks ih =>
      have hc := h c List.mem_cons_self
      have hfit : ∀ d ∈ blocks, d.1 + d.2.length ≤ (overwrite xs c.1 c.2).length :=
        fun d hd => (length_overwrite hc).symm ▸ h d (List.mem_cons_of_mem _ hd)
      obtain ⟨hhead, htail⟩ := List.pairwise_cons.mp hapart
      rw [overwriteAll]
      rcases List.mem_cons.mp hb with rfl | hmem
      · -- nothing later is written where the first block is
        have hclear : ∀ d ∈ blocks, b.1 + k < d.1 ∨ d.1 + d.2.length ≤ b.1 + k := by
          intro d hd
          rcases hhead d hd with hle | hle
          · exact .inl (by omega)
          · exact .inr (by omega)
        rw [getElem?_overwriteAll_outside hfit hclear, getElem?_overwrite_inside hc hk]
      · exact ih hfit htail hmem

/-- A block is the part of the list that starts where it was written. -/
theorem slice_overwriteAll (h : ∀ b ∈ blocks, b.1 + b.2.length ≤ xs.length) (hapart : blocks.Pairwise Apart)
    {b : ℕ × List α} (hb : b ∈ blocks) : ((overwriteAll xs blocks).drop b.1).take b.2.length = b.2 := by
  apply List.ext_getElem?
  intro k
  by_cases hk : k < b.2.length
  · rw [List.getElem?_take_of_lt hk, List.getElem?_drop, getElem?_overwriteAll_inside h hapart hb hk]
  · have hle : b.2.length ≤ k := by omega
    rw [List.getElem?_take_eq_none hle, List.getElem?_eq_none hle]

end Foundations
