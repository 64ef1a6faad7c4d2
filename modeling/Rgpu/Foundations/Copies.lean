import Mathlib.Data.Nat.Basic
import Mathlib.Logic.Function.Basic

/-! # Two copies of a value

Every update is made at the first copy, where it is numbered, and later at the second, by whoever made it.
The updates need not reach the second copy in their order, and some may never be needed there: it is enough
that none overtakes a later one.

* **`Copies`** — what holds between the copies: the second is up to date, or the last update is on its way.
* **`Copies.update`**, **`Copies.deliver`** — it is kept by an update, and by one that reaches the second copy
  after no later one has.
* **`Copies.settled`** — where no update is on its way, the copies are equal. -/

namespace Foundations

variable {ν : Type*} {first second v : ν} {issued reached k : ℕ} {pending pending' : ℕ → ν → Prop}

/-- So many updates have been made at the first copy; the second has had the one of that number last;
`pending k v` says that the update of number `k`, to `v`, is on its way. -/
structure Copies (first second : ν) (issued reached : ℕ) (pending : ℕ → ν → Prop) : Prop where
  last : reached = issued ∧ second = first ∨ pending issued first
  bound : ∀ k v, pending k v → k ≤ issued
  same : ∀ v, pending issued v → v = first
  behind : reached ≤ issued

/-- Equal copies, of which nothing is known to have been updated. -/
theorem Copies.init (v : ν) (hpending : ∀ k w, ¬pending k w) : Copies v v 0 0 pending :=
  ⟨Or.inl ⟨rfl, rfl⟩, fun k w h => absurd h (hpending k w), fun w h => absurd h (hpending 0 w), Nat.le_refl _⟩

/-- What is on its way may be said in other words. -/
theorem Copies.congr (h : Copies first second issued reached pending)
    (hpending : ∀ k v, pending' k v ↔ pending k v) : Copies first second issued reached pending' := by
  refine ⟨?_, fun k v hk => h.bound k v ((hpending k v).mp hk), fun v hv => h.same v ((hpending _ v).mp hv),
    h.behind⟩
  rcases h.last with hdone | hlast
  · exact Or.inl hdone
  · exact Or.inr ((hpending _ _).mpr hlast)

/-- An update is made at the first copy. -/
theorem Copies.update (h : Copies first second issued reached pending) (v : ν)
    (hpending : ∀ k w, pending' k w ↔ pending k w ∨ k = issued + 1 ∧ w = v) :
    Copies v second (issued + 1) reached pending' := by
  refine ⟨Or.inr ((hpending _ _).mpr (Or.inr ⟨rfl, rfl⟩)), fun k w hk => ?_, fun w hw => ?_, ?_⟩
  · rcases (hpending k w).mp hk with hk | ⟨rfl, -⟩
    · exact Nat.le_succ_of_le (h.bound k w hk)
    · exact Nat.le_refl _
  · rcases (hpending _ w).mp hw with hw | ⟨-, rfl⟩
    · have hle := h.bound _ w hw
      omega
    · rfl
  · exact Nat.le_succ_of_le h.behind

/-- An update reaches the second copy, and no later one has. -/
theorem Copies.deliver (h : Copies first second issued reached pending) (hk : pending k v) (hlate : reached ≤ k)
    (hfewer : ∀ j w, pending' j w → pending j w) (hothers : ∀ j w, j ≠ k → pending j w → pending' j w) :
    Copies first v issued k pending' := by
  have hbound := h.bound k v hk
  refine ⟨?_, fun j w hj => h.bound j w (hfewer j w hj), fun w hw => h.same w (hfewer _ w hw), hbound⟩
  by_cases hlast : k = issued
  · subst hlast
    exact Or.inl ⟨rfl, h.same v hk⟩
  · rcases h.last with ⟨hreached, -⟩ | hpending
    · omega
    · exact Or.inr (hothers _ _ (fun heq => hlast heq.symm) hpending)

/-- Nothing is on its way. -/
theorem Copies.settled (h : Copies first second issued reached pending) (hnone : ∀ v, ¬pending issued v) :
    second = first := by
  rcases h.last with ⟨-, heq⟩ | hlast
  · exact heq
  · exact absurd hlast (hnone first)

/-! ### Updates that threads make

Each update is on its way with the thread that made it, and a thread has one at most. -/

section Threads

variable {ι : Type*} [DecidableEq ι] {due : ι → Option (ℕ × ν)} {t : ι}

/-- A thread has made the update. -/
def OnTheWay (due : ι → Option (ℕ × ν)) (k : ℕ) (v : ν) : Prop := ∃ t, due t = some (k, v)

/-- What is on the way after one writer has changed what it is about to write. -/
theorem OnTheWay.update_iff {w : Option (ℕ × ν)} :
    OnTheWay (Function.update due t w) k v ↔ w = some (k, v) ∨ ∃ u, u ≠ t ∧ due u = some (k, v) := by
  constructor
  · rintro ⟨u, hu⟩
    by_cases hut : u = t
    · subst hut
      rw [Function.update_self] at hu
      exact Or.inl hu
    · rw [Function.update_of_ne hut] at hu
      exact Or.inr ⟨u, hut, hu⟩
  · rintro (hw | ⟨u, hut, hu⟩)
    · exact ⟨t, by rw [Function.update_self, hw]⟩
    · exact ⟨u, by rw [Function.update_of_ne hut, hu]⟩

/-- A thread goes on, with the update that it had. -/
theorem Copies.keep (h : Copies first second issued reached (OnTheWay due)) {w : Option (ℕ × ν)} (hw : w = due t) :
    Copies first second issued reached (OnTheWay (Function.update due t w)) := by
  rw [hw, Function.update_eq_self]
  exact h

/-- A thread updates the first copy. -/
theorem Copies.begin (h : Copies first second issued reached (OnTheWay due)) (v : ν) (hnone : due t = none) :
    Copies v second (issued + 1) reached (OnTheWay (Function.update due t (some (issued + 1, v)))) := by
  refine h.update v fun k w => ?_
  rw [OnTheWay.update_iff]
  constructor
  · rintro (heq | ⟨u, -, hu⟩)
    · obtain ⟨rfl, rfl⟩ := Prod.mk.inj (Option.some.inj heq)
      exact Or.inr ⟨rfl, rfl⟩
    · exact Or.inl ⟨u, hu⟩
  · rintro (⟨u, hu⟩ | ⟨rfl, rfl⟩)
    · refine Or.inr ⟨u, ?_, hu⟩
      rintro rfl
      rw [hnone] at hu
      cases hu
    · exact Or.inl rfl

/-- A thread updates the second copy. -/
theorem Copies.finish (h : Copies first second issued reached (OnTheWay due)) (hdue : due t = some (k, v))
    (hlate : reached ≤ k) : Copies first v issued k (OnTheWay (Function.update due t none)) := by
  refine h.deliver ⟨t, hdue⟩ hlate (fun j w hj => ?_) fun j w hj hw => ?_
  · rcases OnTheWay.update_iff.mp hj with heq | ⟨u, -, hu⟩
    · cases heq
    · exact ⟨u, hu⟩
  · obtain ⟨u, hu⟩ := hw
    refine OnTheWay.update_iff.mpr (Or.inr ⟨u, ?_, hu⟩)
    rintro rfl
    rw [hdue] at hu
    exact hj (Prod.mk.inj (Option.some.inj hu)).1.symm

end Threads

end Foundations
