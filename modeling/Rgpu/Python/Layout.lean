import Rgpu.Foundations.Offsets
import Mathlib.Data.List.Sort

/-! # Dense layouts (`dispatch.py`)

What comes over the wire is contiguous. A tensor that is downloaded gets the strides it has on the server back if
these pack the elements: no gaps, no overlap.

* **`denseLoop`**, **`denseLayout`** — the pass over the dimensions, sorted by stride.
* **`downloadStride`** — the strides of what is downloaded.
* **`denseLayout_iff`** — the test is right about every layout.
* **`bijOn_downloadStride`** — what is downloaded is dense in any case. -/

namespace Rgpu.Layout

open Foundations

/-- The loop of `_dense_layout`. -/
def denseLoop (expected : ℕ) : List (ℕ × ℕ) → Bool
  | [] => true
  | (size, step) :: rest =>
      -- a length-1 dimension can have any stride
      if size = 1 then denseLoop expected rest
      else if step ≠ expected then false
      else denseLoop (expected * size) rest

/-- `sorted(..., key=lambda pair: pair[1])`, which is stable. -/
def sortedByStride (ds : List (ℕ × ℕ)) : List (ℕ × ℕ) := ds.insertionSort fun a b => a.2 ≤ b.2

/-- `_dense_layout` -/
def denseLayout (shape stride : List ℕ) : Bool := denseLoop 1 (sortedByStride (shape.zip stride))

/-- The strides of a contiguous tensor. -/
def contiguousStride : List ℕ → List ℕ
  | [] => []
  | _ :: ns => (ns.map fun n => max n 1).prod :: contiguousStride ns

/-- The strides of what `_download` returns, for a tensor of this shape and these strides. -/
def downloadStride (shape stride : List ℕ) : List ℕ :=
  if stride ≠ contiguousStride shape ∧ denseLayout shape stride then stride else contiguousStride shape

/-! ### The loop -/

/-- The loop of `_dense_layout` says whether the dimensions are packed. -/
theorem denseLoop_iff {expected : ℕ} {ds : List (ℕ × ℕ)} : denseLoop expected ds = true ↔ Packed expected ds := by
  induction ds generalizing expected with
  | nil => exact iff_of_true rfl trivial
  | cons d ds ih =>
      obtain ⟨size, step⟩ := d
      rw [denseLoop, Packed]
      by_cases hone : size = 1
      · rw [if_pos hone, if_pos hone]
        exact ih
      rw [if_neg hone, if_neg hone]
      by_cases hstep : step = expected
      · rw [if_neg (not_not_intro hstep), ih, and_iff_right hstep]
      · rw [if_pos hstep]
        exact iff_of_false Bool.false_ne_true fun h => hstep h.1

/-- Sorting by stride changes the order only. -/
theorem sortedByStride_perm (ds : List (ℕ × ℕ)) : (sortedByStride ds).Perm ds := List.perm_insertionSort _ ds

/-- Sorted by stride, the strides go up. -/
theorem sortedByStride_pairwise (ds : List (ℕ × ℕ)) : (sortedByStride ds).Pairwise fun a b => a.2 ≤ b.2 := by
  have htotal : Std.Total fun a b : ℕ × ℕ => a.2 ≤ b.2 := ⟨fun a b => Nat.le_total a.2 b.2⟩
  have htrans : IsTrans (ℕ × ℕ) fun a b => a.2 ≤ b.2 := ⟨fun _ _ _ => Nat.le_trans⟩
  exact List.pairwise_insertionSort _ ds

/-- **A layout is dense** exactly if its dimensions, in the order of their strides, are packed. -/
theorem bijOn_iff_packed {shape stride : List ℕ} (hlength : shape.length = stride.length)
    (hsizes : ∀ n ∈ shape, 1 ≤ n) :
    Set.BijOn (offset stride) {index | List.Forall₂ (· < ·) index shape} (Set.Iio shape.prod) ↔
      Packed 1 (sortedByStride (shape.zip stride)) :=
  bijOn_offset_iff hlength (sortedByStride_perm _) hsizes (sortedByStride_pairwise _)

/-- **The test is right**: whatever the strides are, it is passed exactly by the layouts that are bijections. -/
theorem denseLayout_iff (shape stride : List ℕ) (hlength : shape.length = stride.length)
    (hsizes : ∀ n ∈ shape, 1 ≤ n) :
    denseLayout shape stride = true ↔
      Set.BijOn (offset stride) {index | List.Forall₂ (· < ·) index shape} (Set.Iio shape.prod) := by
  rw [denseLayout, denseLoop_iff, bijOn_iff_packed hlength hsizes]

/-- A transposed matrix passes, for all that its dimension of one element has an odd stride. -/
theorem denseLayout_transposed :
    Set.BijOn (offset [1, 7, 3]) {index | List.Forall₂ (· < ·) index [3, 1, 2]} (Set.Iio [3, 1, 2].prod) :=
  (denseLayout_iff [3, 1, 2] [1, 7, 3] rfl (by decide)).mp (by decide)

/-! ### What is downloaded -/

/-- Where no dimension is empty, `max(n, 1)` is `n`. -/
theorem map_max_one {ns : List ℕ} (hsizes : ∀ n ∈ ns, 1 ≤ n) : (ns.map fun n => max n 1).prod = ns.prod := by
  rw [List.map_congr_left fun n hn => Nat.max_eq_left (hsizes n hn), List.map_id']

/-- There is a stride for every dimension. -/
theorem length_contiguousStride (shape : List ℕ) : (contiguousStride shape).length = shape.length := by
  induction shape with
  | nil => rfl
  | cons _ _ ih => rw [contiguousStride, List.length_cons, List.length_cons, ih]

/-- From the last dimension to the first, each stride is what the dimensions after it fill. -/
theorem packed_contiguous {shape : List ℕ} (hsizes : ∀ n ∈ shape, 1 ≤ n) :
    Packed 1 (shape.zip (contiguousStride shape)).reverse := by
  induction shape with
  | nil => trivial
  | cons n ns ih =>
      rw [List.forall_mem_cons] at hsizes
      have hvolume : volume (ns.zip (contiguousStride ns)).reverse = ns.prod := by
        rw [volume, List.map_reverse, List.prod_reverse, List.map_fst_zip (length_contiguousStride ns).ge]
      rw [contiguousStride, List.zip_cons_cons, List.reverse_cons, packed_append, hvolume, Nat.one_mul,
        map_max_one hsizes.2]
      refine ⟨ih hsizes.2, ?_⟩
      by_cases hone : n = 1
      · rw [Packed, if_pos hone]
        trivial
      · rw [Packed, if_neg hone]
        exact ⟨rfl, trivial⟩

/-- No stride is above the number of elements. -/
theorem stride_le_prod {shape : List ℕ} (hsizes : ∀ n ∈ shape, 1 ≤ n) :
    ∀ s ∈ contiguousStride shape, s ≤ shape.prod := by
  induction shape with
  | nil => exact List.forall_mem_nil _
  | cons n ns ih =>
      rw [List.forall_mem_cons] at hsizes
      rw [contiguousStride, List.forall_mem_cons, List.prod_cons, map_max_one hsizes.2]
      have hle : ns.prod ≤ n * ns.prod := Nat.le_mul_of_pos_left _ hsizes.1
      exact ⟨hle, fun s hs => (ih hsizes.2 s hs).trans hle⟩

/-- The strides go up from the last dimension to the first. -/
theorem contiguous_pairwise {shape : List ℕ} (hsizes : ∀ n ∈ shape, 1 ≤ n) :
    (shape.zip (contiguousStride shape)).reverse.Pairwise fun a b => a.2 ≤ b.2 := by
  rw [List.pairwise_reverse]
  induction shape with
  | nil => exact .nil
  | cons n ns ih =>
      rw [List.forall_mem_cons] at hsizes
      rw [contiguousStride, List.zip_cons_cons, List.pairwise_cons, map_max_one hsizes.2]
      exact ⟨fun d hd => stride_le_prod hsizes.2 d.2 (List.of_mem_zip hd).2, ih hsizes.2⟩

/-- A contiguous tensor is dense, and so is every view of it with its dimensions in another order. -/
theorem denseLayout_of_perm {shape stride whole : List ℕ} (hlength : shape.length = stride.length)
    (hsizes : ∀ n ∈ whole, 1 ≤ n) (hperm : (whole.zip (contiguousStride whole)).Perm (shape.zip stride)) :
    denseLayout shape stride = true := by
  have hshape : shape.Perm whole := by
    have hfst := hperm.map Prod.fst
    rw [List.map_fst_zip (length_contiguousStride whole).ge, List.map_fst_zip hlength.le] at hfst
    exact hfst.symm
  have hsizes' : ∀ n ∈ shape, 1 ≤ n := fun n hn => hsizes n (hshape.mem_iff.mp hn)
  rw [denseLayout, denseLoop_iff, ← bijOn_iff_packed hlength hsizes']
  -- from its last dimension to its first a contiguous tensor is sorted as well
  exact (bijOn_offset_iff hlength ((List.reverse_perm _).trans hperm) hsizes' (contiguous_pairwise hsizes)).mpr
    (packed_contiguous hsizes)

/-- **What is downloaded is dense**, with the strides it has on the server or with those of a copy. -/
theorem bijOn_downloadStride {shape stride : List ℕ} (hlength : shape.length = stride.length)
    (hsizes : ∀ n ∈ shape, 1 ≤ n) :
    Set.BijOn (offset (downloadStride shape stride)) {index | List.Forall₂ (· < ·) index shape}
      (Set.Iio shape.prod) := by
  rw [downloadStride]
  split
  · rename_i h
    rw [bijOn_iff_packed hlength hsizes, ← denseLoop_iff]
    exact h.2
  · have hcontiguous := (length_contiguousStride shape).symm
    rw [bijOn_iff_packed hcontiguous hsizes, ← denseLoop_iff]
    exact denseLayout_of_perm hcontiguous hsizes (List.Perm.refl _)

end Rgpu.Layout
