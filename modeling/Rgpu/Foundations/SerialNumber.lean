import Mathlib.Data.Nat.ModEq
import Mathlib.Tactic.Ring

/-! # Serial numbers that skip zero

Numbers are handed out in a circle of `2 * half` values of which zero is left out (it means "none"),
so the circle of the numbers themselves has `2 * half - 1` members while their distances are taken
modulo `2 * half`. Two numbers are ordered by the forward distance between them, as in sequence-number
arithmetic. This file shows for which positions that order is the order of handing out.

* **`nth half start n`** — the number `n` places after `start`.
* **`AtOrBefore half a b`** — the forward distance from `a` to `b` is under half the circle.
* **`Near half i j`** — the positions are fewer than `half - 1` apart; `atOrBefore_nth_iff` and
  `nth_injective_near` are the two facts that make the order usable. -/

namespace Foundations.SerialNumber

variable {half start i j n d : ℕ}

/-- The number `n` places after `start` on the circle `1, …, 2 * half - 1`. -/
def nth (half start n : ℕ) : ℕ := (start - 1 + n) % (2 * half - 1) + 1

/-- The forward distance from `a` to `b`, modulo the whole circle, is under half of it. -/
def AtOrBefore (half a b : ℕ) : Prop := (b + 2 * half - a) % (2 * half) < half

instance (half a b : ℕ) : Decidable (AtOrBefore half a b) :=
  inferInstanceAs (Decidable (_ < _))

/-- Fewer than `half - 1` places apart, in either direction. -/
def Near (half i j : ℕ) : Prop := i + 1 < j + half ∧ j + 1 < i + half

instance (half i j : ℕ) : Decidable (Near half i j) := inferInstanceAs (Decidable (_ ∧ _))

/-- Two positions are near whichever comes first. -/
theorem Near.symm (h : Near half i j) : Near half j i := ⟨h.2, h.1⟩

/-- No number is zero. -/
theorem nth_pos (half start n : ℕ) : 0 < nth half start n := Nat.succ_pos _

/-- Every number lies on the circle. -/
theorem nth_lt (hhalf : 1 ≤ half) (start n : ℕ) : nth half start n < 2 * half := by
  have h := Nat.mod_lt (start - 1 + n) (show 2 * half - 1 > 0 by omega)
  rw [nth]
  omega

/-- The first number handed out is the start itself. -/
theorem nth_zero (hpos : 1 ≤ start) (hlt : start < 2 * half) : nth half start 0 = start := by
  rw [nth, Nat.add_zero, Nat.mod_eq_of_lt (by omega)]
  omega

/-- The next number is one more, or the first of the circle again. -/
theorem nth_succ (hhalf : 1 ≤ half) (start n : ℕ) :
    nth half start (n + 1) = if nth half start n + 1 = 2 * half then 1 else nth half start n + 1 := by
  have hlt := Nat.mod_lt (start - 1 + n) (show 2 * half - 1 > 0 by omega)
  have hstep : (start - 1 + (n + 1)) % (2 * half - 1) =
      ((start - 1 + n) % (2 * half - 1) + 1) % (2 * half - 1) := by
    rw [← Nat.add_assoc, Nat.mod_add_mod]
  by_cases hwrap : nth half start n + 1 = 2 * half
  · rw [if_pos hwrap]
    rw [nth] at hwrap
    rw [nth, hstep, show (start - 1 + n) % (2 * half - 1) + 1 = 2 * half - 1 by omega,
      Nat.mod_self]
  · rw [if_neg hwrap]
    rw [nth] at hwrap
    rw [nth, nth, hstep, Nat.mod_eq_of_lt (by omega)]

/-- Going `d` places forward adds `d`, less one turn of the circle if it passes the end. -/
theorem nth_add (hd : d < 2 * half - 1) (start i : ℕ) :
    nth half start (i + d) = nth half start i + d ∨
      nth half start (i + d) + (2 * half - 1) = nth half start i + d := by
  have hlt := Nat.mod_lt (start - 1 + i) (show 2 * half - 1 > 0 by omega)
  have hstep : (start - 1 + (i + d)) % (2 * half - 1) =
      ((start - 1 + i) % (2 * half - 1) + d) % (2 * half - 1) := by
    rw [← Nat.add_assoc, Nat.mod_add_mod]
  simp only [nth, hstep]
  by_cases hpass : (start - 1 + i) % (2 * half - 1) + d < 2 * half - 1
  · left
    rw [Nat.mod_eq_of_lt hpass]
    omega
  · right
    rw [Nat.mod_eq_sub_mod (by omega), Nat.mod_eq_of_lt (by omega)]
    omega

/-- The distance between two numbers of the circle, in the two ways it can be. -/
theorem distance_of_le {a b : ℕ} (hab : a ≤ b) (hb : b < 2 * half) :
    (b + 2 * half - a) % (2 * half) = b - a := by
  rw [show b + 2 * half - a = (b - a) + 2 * half by omega, Nat.add_mod_right,
    Nat.mod_eq_of_lt (by omega)]

/-- The distance to a number behind goes around. -/
theorem distance_of_lt {a b : ℕ} (hba : b < a) (ha : a < 2 * half) :
    (b + 2 * half - a) % (2 * half) = b + 2 * half - a :=
  Nat.mod_eq_of_lt (by omega)

/-- A number is at or before every one handed out fewer than `half - 1` places after it. -/
theorem atOrBefore_nth_of_le (hij : i ≤ j) (hnear : Near half i j) (start : ℕ) :
    AtOrBefore half (nth half start i) (nth half start j) := by
  obtain ⟨d, rfl⟩ := Nat.exists_eq_add_of_le hij
  have hhalf : 1 ≤ half := by unfold Near at hnear; omega
  have hd : d + 1 < half := by have := hnear.2; omega
  have hi := nth_lt hhalf start i
  have hj := nth_lt hhalf start (i + d)
  have hpos := nth_pos half start (i + d)
  unfold AtOrBefore
  rcases nth_add (show d < 2 * half - 1 by omega) start i with h | h
  · rw [distance_of_le (by omega) hj]
    omega
  · rw [distance_of_lt (by omega) hi]
    omega

/-- A number is not at or before one handed out fewer than `half - 1` places ahead of it. -/
theorem not_atOrBefore_nth_of_lt (hji : j < i) (hnear : Near half i j) (start : ℕ) :
    ¬ AtOrBefore half (nth half start i) (nth half start j) := by
  obtain ⟨d, rfl⟩ := Nat.exists_eq_add_of_lt hji
  have hhalf : 1 ≤ half := by unfold Near at hnear; omega
  have hd : d + 2 < half := by have := hnear.1; omega
  have hj := nth_lt hhalf start j
  have hi := nth_lt hhalf start (j + (d + 1))
  have hpos := nth_pos half start (j + (d + 1))
  unfold AtOrBefore
  rcases nth_add (show d + 1 < 2 * half - 1 by omega) start j with h | h
  · rw [Nat.add_assoc, distance_of_lt (by omega) hi]
    omega
  · rw [Nat.add_assoc, distance_of_le (by omega) hj]
    omega

/-- **Serial numbers order positions.** For positions fewer than `half - 1` apart the order of the
numbers is the order in which they were handed out. -/
theorem atOrBefore_nth_iff (hnear : Near half i j) (start : ℕ) :
    AtOrBefore half (nth half start i) (nth half start j) ↔ i ≤ j := by
  constructor
  · intro h
    by_contra hlt
    exact not_atOrBefore_nth_of_lt (Nat.lt_of_not_le hlt) hnear start h
  · intro hij
    exact atOrBefore_nth_of_le hij hnear start

/-- The number `half - 1` places ahead is out of order exactly if the circle was passed in between: leaving
out zero has made the distance `half`. -/
theorem atOrBefore_nth_half (hhalf : 2 ≤ half) (start i : ℕ) :
    AtOrBefore half (nth half start i) (nth half start (i + (half - 1))) ↔ nth half start i ≤ half := by
  have hhalf' : 1 ≤ half := Nat.le_of_succ_le hhalf
  have hi := nth_lt hhalf' start i
  have hj := nth_lt hhalf' start (i + (half - 1))
  have hposi := nth_pos half start i
  have hpos := nth_pos half start (i + (half - 1))
  unfold AtOrBefore
  rcases nth_add (show half - 1 < 2 * half - 1 by omega) start i with h | h
  · rw [distance_of_le (by omega) hj]
    omega
  · rw [distance_of_lt (by omega) hi]
    omega

/-- A number is not at or before the one `half - 1` places behind it. -/
theorem not_atOrBefore_nth_half (hhalf : 2 ≤ half) (start j : ℕ) :
    ¬ AtOrBefore half (nth half start (j + (half - 1))) (nth half start j) := by
  have hhalf' : 1 ≤ half := Nat.le_of_succ_le hhalf
  have hj := nth_lt hhalf' start j
  have hi := nth_lt hhalf' start (j + (half - 1))
  have hposj := nth_pos half start j
  unfold AtOrBefore
  rcases nth_add (show half - 1 < 2 * half - 1 by omega) start j with h | h
  · rw [distance_of_lt (by omega) hi]
    omega
  · rw [distance_of_le (by omega) hj]
    omega

/-- **The whole window.** For positions fewer than `half` apart the order of the numbers is that in which
they were handed out, but for the last place ahead when the circle was passed on the way there. -/
theorem atOrBefore_nth_iff_of_lt (hhalf : 2 ≤ half) (hi : i < j + half) (hj : j < i + half) (start : ℕ) :
    (AtOrBefore half (nth half start i) (nth half start j) ↔ i ≤ j) ↔
      ¬(j = i + (half - 1) ∧ half < nth half start i) := by
  by_cases hahead : j = i + (half - 1)
  · subst hahead
    rw [atOrBefore_nth_half hhalf]
    constructor
    · intro h hwrap
      have := h.mpr (Nat.le_add_right _ _)
      omega
    · intro h
      exact ⟨fun _ => Nat.le_add_right _ _, fun _ => by omega⟩
  by_cases hbehind : i = j + (half - 1)
  · subst hbehind
    refine iff_of_true (iff_of_false (not_atOrBefore_nth_half hhalf start j) (by omega)) fun h => ?_
    omega
  have hnear : Near half i j := by
    unfold Near
    omega
  exact iff_of_true (atOrBefore_nth_iff hnear start) fun h => hahead h.1

/-- Positions fewer than `half - 1` apart that were handed the same number are the same. -/
theorem nth_injective_near (hnear : Near half i j) (heq : nth half start i = nth half start j) :
    i = j := by
  have hhalf : 1 ≤ half := by unfold Near at hnear; omega
  have hself : AtOrBefore half (nth half start i) (nth half start i) := by
    unfold AtOrBefore
    rw [distance_of_le le_rfl (nth_lt hhalf start i)]
    omega
  refine Nat.le_antisymm ((atOrBefore_nth_iff hnear start).mp (heq ▸ hself)) ?_
  refine (atOrBefore_nth_iff hnear.symm start).mp ?_
  rw [← heq]
  exact hself

end Foundations.SerialNumber
