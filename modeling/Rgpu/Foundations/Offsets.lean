import Mathlib.Algebra.BigOperators.Group.List.Basic
import Mathlib.Algebra.GroupWithZero.Nat
import Mathlib.Data.List.Forall2
import Mathlib.Data.Multiset.Bind
import Mathlib.Data.Multiset.Pairwise
import Mathlib.Data.Multiset.Range
import Mathlib.Data.Set.Function
import Mathlib.Order.Interval.Set.Defs

/-! # Offsets of a strided layout

A layout is a list of dimensions, each with its size and its stride. An element is found by its index in each
dimension, at the sum of the indices times the strides.

* **`indices`**, **`offset`** — the index tuples of a shape, and where each leads.
* **`offsets`** — the offsets that are reached, each as often as it is.
* **`Packed`** — the strides are what the dimensions before them fill.
* **`bijOn_offset_iff`** — sorted by stride, the offsets are those below the number of elements, each reached
  once, exactly if the dimensions are packed. -/

namespace Foundations

/-- The index tuples of a shape. -/
def indices : List ℕ → Multiset (List ℕ)
  | [] => {[]}
  | n :: ns => (Multiset.range n).bind fun i => (indices ns).map (i :: ·)

/-- The sum of the indices times the strides. -/
def offset (stride index : List ℕ) : ℕ := (List.zipWith (· * ·) index stride).sum

/-- The offsets from those of a base, by dimensions of a size and a stride. -/
def offsets (base : Multiset ℕ) : List (ℕ × ℕ) → Multiset ℕ
  | [] => base
  | (n, s) :: ds => (Multiset.range n).bind fun i => (offsets base ds).map (i * s + ·)

/-! ### Index tuples -/

/-- The index tuples of a shape are those below it. -/
theorem mem_indices {shape index : List ℕ} : index ∈ indices shape ↔ List.Forall₂ (· < ·) index shape := by
  induction shape generalizing index with
  | nil => rw [indices, Multiset.mem_singleton, List.forall₂_nil_right_iff]
  | cons n ns ih =>
      rw [indices, Multiset.mem_bind]
      constructor
      · rintro ⟨i, hi, hindex⟩
        obtain ⟨rest, hrest, rfl⟩ := Multiset.mem_map.mp hindex
        exact .cons (Multiset.mem_range.mp hi) (ih.mp hrest)
      · rintro (_ | ⟨hi, hrest⟩)
        exact ⟨_, Multiset.mem_range.mpr hi, Multiset.mem_map.mpr ⟨_, ih.mpr hrest, rfl⟩⟩

/-- Each index tuple is there once. -/
theorem nodup_indices (shape : List ℕ) : (indices shape).Nodup := by
  induction shape with
  | nil => exact Multiset.nodup_singleton _
  | cons n ns ih =>
      rw [indices, Multiset.nodup_bind]
      -- of one first index the rest is told apart, and two first indices are
      refine ⟨fun i _ => ih.map (List.cons_injective), ?_⟩
      refine (Multiset.nodup_range n).pairwise ?_
      intro i _ j _ hne
      show Disjoint ((indices ns).map (i :: ·)) ((indices ns).map (j :: ·))
      rw [Multiset.disjoint_left]
      intro index hi hj
      obtain ⟨rest, -, rfl⟩ := Multiset.mem_map.mp hi
      obtain ⟨rest', -, heq⟩ := Multiset.mem_map.mp hj
      exact hne (List.cons.inj heq).1.symm

/-- The offsets of a layout are where its index tuples lead. -/
theorem offsets_zip {shape stride : List ℕ} (hlength : shape.length = stride.length) :
    offsets {0} (shape.zip stride) = (indices shape).map (offset stride) := by
  induction shape generalizing stride with
  | nil => rfl
  | cons n ns ih =>
      cases stride with
      | nil => cases hlength
      | cons s ss =>
          rw [List.zip_cons_cons, offsets, indices, Multiset.map_bind, ih (Nat.succ.inj hlength)]
          refine Multiset.bind_congr fun i _ => ?_
          rw [Multiset.map_map, Multiset.map_map]
          refine Multiset.map_congr rfl fun index _ => ?_
          rw [Function.comp_apply, Function.comp_apply, offset, offset, List.zipWith_cons_cons, List.sum_cons]

/-- A map is a bijection onto the numbers below `n` if these are what it takes the elements to, each once. -/
theorem bijOn_iff_map_eq_range {α : Type*} {f : α → ℕ} {S : Multiset α} (hS : S.Nodup) (n : ℕ) :
    Set.BijOn f {x | x ∈ S} (Set.Iio n) ↔ S.map f = Multiset.range n := by
  constructor
  · rintro ⟨hmaps, hinj, hsurj⟩
    have hnodup : (S.map f).Nodup := (Multiset.nodup_map_iff_inj_on hS).mpr fun x hx y hy h => hinj hx hy h
    refine (Multiset.Nodup.ext hnodup (Multiset.nodup_range n)).mpr fun k => ?_
    rw [Multiset.mem_map, Multiset.mem_range]
    constructor
    · rintro ⟨x, hx, rfl⟩
      exact hmaps hx
    · exact fun hk => hsurj hk
  · intro h
    have hinj := Multiset.inj_on_of_nodup_map (h ▸ Multiset.nodup_range n)
    refine ⟨fun x hx => ?_, fun x hx y hy heq => hinj x hx y hy heq, fun k hk => ?_⟩
    · exact Multiset.mem_range.mp (h ▸ Multiset.mem_map_of_mem f hx)
    · exact Multiset.mem_map.mp (h ▸ Multiset.mem_range.mpr hk)

/-! ### Rules for offsets -/

section Rules

variable {base : Multiset ℕ} {ds es : List (ℕ × ℕ)} {n s x : ℕ}

/-- Two dimensions may change places. -/
theorem offsets_swap (a b : ℕ × ℕ) : offsets base (a :: b :: ds) = offsets base (b :: a :: ds) := by
  obtain ⟨n, s⟩ := a
  obtain ⟨m, t⟩ := b
  simp only [offsets, Multiset.map_bind, Multiset.map_map]
  rw [Multiset.bind_bind]
  refine Multiset.bind_congr fun j _ => Multiset.bind_congr fun i _ => Multiset.map_congr rfl fun x _ => ?_
  exact Nat.add_left_comm _ _ _

/-- The order of the dimensions does not matter. -/
theorem offsets_perm (h : ds.Perm es) : offsets base ds = offsets base es := by
  induction h with
  | nil => rfl
  | cons a _ ih =>
      obtain ⟨n, s⟩ := a
      rw [offsets, offsets, ih]
  | swap a b ds => exact offsets_swap b a
  | trans _ _ ih ih' => exact ih.trans ih'

/-- A dimension of one element adds nothing. -/
theorem offsets_one (s : ℕ) : offsets base ((1, s) :: ds) = offsets base ds := by
  have hone : Multiset.range 1 = {0} := rfl
  rw [offsets, hone, Multiset.singleton_bind, Nat.zero_mul]
  simp only [Nat.zero_add, Multiset.map_id']

/-- A dimension can be made part of the base. -/
theorem offsets_cons (n s : ℕ) (ds : List (ℕ × ℕ)) :
    offsets base ((n, s) :: ds) = offsets ((Multiset.range n).bind fun i => base.map (i * s + ·)) ds := by
  induction ds with
  | nil => rfl
  | cons d ds ih =>
      obtain ⟨m, t⟩ := d
      rw [offsets_swap, offsets, ih]
      rfl

/-- The offsets with one dimension more. -/
theorem mem_offsets_cons : x ∈ offsets base ((n, s) :: ds) ↔ ∃ i < n, ∃ y ∈ offsets base ds, i * s + y = x := by
  simp only [offsets, Multiset.mem_bind, Multiset.mem_range, Multiset.mem_map]

/-- What is in the base is reached with the first index in every dimension. -/
theorem mem_offsets_of_mem (hsizes : ∀ d ∈ ds, 1 ≤ d.1) (hx : x ∈ base) : x ∈ offsets base ds := by
  induction ds with
  | nil => exact hx
  | cons d ds ih =>
      obtain ⟨n, s⟩ := d
      rw [List.forall_mem_cons] at hsizes
      exact mem_offsets_cons.mpr ⟨0, hsizes.1, x, ih hsizes.2, by rw [Nat.zero_mul, Nat.zero_add]⟩

/-- What is not in the base is a stride away at least. -/
theorem mem_or_le_of_mem_offsets (hstrides : ∀ d ∈ ds, s ≤ d.2) (hx : x ∈ offsets base ds) : x ∈ base ∨ s ≤ x := by
  induction ds generalizing x with
  | nil => exact .inl hx
  | cons d ds ih =>
      obtain ⟨m, t⟩ := d
      rw [List.forall_mem_cons] at hstrides
      obtain ⟨i, -, y, hy, rfl⟩ := mem_offsets_cons.mp hx
      cases i with
      | zero =>
          rw [Nat.zero_mul, Nat.zero_add]
          exact ih hstrides.2 hy
      | succ i =>
          refine .inr (hstrides.1.trans ?_)
          rw [Nat.succ_mul, Nat.add_assoc]
          exact (Nat.le_add_right t y).trans (Nat.le_add_left _ _)

/-- Counting in blocks is counting. -/
theorem bind_range_mul (n e : ℕ) :
    ((Multiset.range n).bind fun i => (Multiset.range e).map (i * e + ·)) = Multiset.range (e * n) := by
  induction n with
  | zero => rfl
  | succ n ih =>
      rw [Multiset.range_succ, Multiset.cons_bind, ih, Nat.mul_succ, Multiset.range_add, Nat.mul_comm n e,
        Multiset.add_comm]

/-- A dimension that begins where the base ends makes it longer. -/
theorem offsets_range_cons (n e : ℕ) :
    offsets (Multiset.range e) ((n, e) :: ds) = offsets (Multiset.range (e * n)) ds := by
  rw [offsets_cons, bind_range_mul]

end Rules

/-! ### Packed dimensions -/

/-- Each stride is what the dimensions before it fill, from `e` on; where there is one element the stride does not
matter. -/
def Packed (e : ℕ) : List (ℕ × ℕ) → Prop
  | [] => True
  | (n, s) :: ds => if n = 1 then Packed e ds else s = e ∧ Packed (e * n) ds

/-- The number of elements. -/
def volume (ds : List (ℕ × ℕ)) : ℕ := (ds.map Prod.fst).prod

/-- Dimensions are packed if the first are, and the others above them. -/
theorem packed_append {e : ℕ} {ds es : List (ℕ × ℕ)} :
    Packed e (ds ++ es) ↔ Packed e ds ∧ Packed (e * volume ds) es := by
  induction ds generalizing e with
  | nil => rw [List.nil_append, Packed, true_and, volume, List.map_nil, List.prod_nil, Nat.mul_one]
  | cons d ds ih =>
      obtain ⟨n, s⟩ := d
      rw [List.cons_append, Packed, Packed, volume, List.map_cons, List.prod_cons, ← volume]
      by_cases hone : n = 1
      · rw [if_pos hone, if_pos hone, ih, hone, Nat.one_mul]
      · rw [if_neg hone, if_neg hone, ih, and_assoc, Nat.mul_assoc]

/-- Without an empty dimension there is something. -/
theorem one_le_volume {ds : List (ℕ × ℕ)} (hsizes : ∀ d ∈ ds, 1 ≤ d.1) : 1 ≤ volume ds := by
  induction ds with
  | nil => exact le_rfl
  | cons d ds ih =>
      rw [List.forall_mem_cons] at hsizes
      rw [volume, List.map_cons, List.prod_cons]
      exact Nat.mul_pos hsizes.1 (ih hsizes.2)

/-- A stride below the end of the base reaches an element of the base again. -/
theorem le_of_nodup_offsets {e n s : ℕ} {ds : List (ℕ × ℕ)} (hn : 2 ≤ n) (hsizes : ∀ d ∈ ds, 1 ≤ d.1) (he : 0 < e)
    (h : (offsets (Multiset.range e) ((n, s) :: ds)).Nodup) : e ≤ s := by
  by_contra hlt
  rw [not_le] at hlt
  rw [offsets, Multiset.nodup_bind] at h
  have hmem : ∀ {x}, x < e → x ∈ offsets (Multiset.range e) ds := fun hx =>
    mem_offsets_of_mem hsizes (Multiset.mem_range.mpr hx)
  -- it is in the base, and a step of the dimension away from its beginning
  have hzero : s ∈ (offsets (Multiset.range e) ds).map (0 * s + ·) :=
    Multiset.mem_map.mpr ⟨s, hmem hlt, by rw [Nat.zero_mul, Nat.zero_add]⟩
  have hone : s ∈ (offsets (Multiset.range e) ds).map (1 * s + ·) :=
    Multiset.mem_map.mpr ⟨0, hmem he, by rw [Nat.one_mul, Nat.add_zero]⟩
  have hdisjoint := Multiset.Pairwise.forall h.2 (Multiset.mem_range.mpr (show 0 < n by omega))
    (Multiset.mem_range.mpr (show 1 < n by omega)) Nat.zero_ne_one
  exact Multiset.disjoint_left.mp hdisjoint hzero hone

/-- **A sorted layout reaches each offset once exactly if it is packed.** -/
theorem offsets_eq_range_iff {e : ℕ} {ds : List (ℕ × ℕ)} (he : 0 < e) (hsizes : ∀ d ∈ ds, 1 ≤ d.1)
    (hsorted : ds.Pairwise fun a b => a.2 ≤ b.2) :
    offsets (Multiset.range e) ds = Multiset.range (e * volume ds) ↔ Packed e ds := by
  induction ds generalizing e with
  | nil => exact iff_of_true (by rw [offsets, volume, List.map_nil, List.prod_nil, Nat.mul_one]) trivial
  | cons d ds ih =>
      obtain ⟨n, s⟩ := d
      rw [List.forall_mem_cons] at hsizes
      rw [List.pairwise_cons] at hsorted
      rw [Packed, volume, List.map_cons, List.prod_cons, ← volume]
      by_cases hone : n = 1
      · rw [if_pos hone, hone, offsets_one, Nat.one_mul]
        exact ih he hsizes.2 hsorted.2
      rw [if_neg hone, ← Nat.mul_assoc]
      by_cases hs : s = e
      · rw [hs, offsets_range_cons]
        exact (ih (Nat.mul_pos he hsizes.1) hsizes.2 hsorted.2).trans (and_iff_right rfl).symm
      · refine iff_of_false (fun h => ?_) fun h => hs h.1
        have hn : 2 ≤ n := by have := hsizes.1; dsimp only at this; omega
        have hle := le_of_nodup_offsets hn hsizes.2 he (h ▸ Multiset.nodup_range _)
        -- the first offset past the base is reached by no dimension
        have hlt : e < e * n * volume ds := by
          have hpos := Nat.mul_le_mul_left e (Nat.mul_le_mul hn (one_le_volume hsizes.2))
          rw [Nat.mul_assoc]
          omega
        have hmem : e ∈ offsets (Multiset.range e) ((n, s) :: ds) := h ▸ Multiset.mem_range.mpr hlt
        have hstrides : ∀ d ∈ (n, s) :: ds, s ≤ d.2 := List.forall_mem_cons.mpr ⟨le_rfl, hsorted.1⟩
        rcases mem_or_le_of_mem_offsets hstrides hmem with hbase | hreach
        · exact lt_irrefl e (Multiset.mem_range.mp hbase)
        · exact hs (le_antisymm hreach hle)

/-- The same of the map from index tuples to offsets. -/
theorem bijOn_offset_iff {shape stride : List ℕ} {ds : List (ℕ × ℕ)} (hlength : shape.length = stride.length)
    (hperm : ds.Perm (shape.zip stride)) (hsizes : ∀ n ∈ shape, 1 ≤ n)
    (hsorted : ds.Pairwise fun a b => a.2 ≤ b.2) :
    Set.BijOn (offset stride) {index | List.Forall₂ (· < ·) index shape} (Set.Iio shape.prod) ↔ Packed 1 ds := by
  have hvolume : volume ds = shape.prod := by
    rw [volume, (hperm.map Prod.fst).prod_eq, List.map_fst_zip hlength.le]
  have hsizes' : ∀ d ∈ ds, 1 ≤ d.1 := fun d hd => hsizes d.1 (List.of_mem_zip (hperm.mem_iff.mp hd)).1
  simp only [← mem_indices]
  rw [bijOn_iff_map_eq_range (nodup_indices shape), ← offsets_zip hlength, ← offsets_perm hperm, ← hvolume]
  have hiff := offsets_eq_range_iff (e := 1) Nat.one_pos hsizes' hsorted
  rw [Nat.one_mul] at hiff
  exact hiff

end Foundations
