import Mathlib.Data.Nat.Basic
import Mathlib.Tactic.Ring

/-! # Little-endian numbers of a fixed width

A number in a fixed number of bytes, the least significant first, and back.

* **`LittleEndian.bytes w n`** — the `w` bytes of `n`.
* **`LittleEndian.value bs`** — the number that bytes stand for.
* **`value_bytes`** — the number of the bytes of a number is that number, if it fits. -/

namespace Foundations.LittleEndian

/-- The `w` bytes of a number; what does not fit is cut off. -/
def bytes : ℕ → ℕ → List UInt8
  | 0, _ => []
  | w + 1, n => UInt8.ofNat n :: bytes w (n / 256)

/-- The number that bytes stand for. -/
def value : List UInt8 → ℕ
  | [] => 0
  | b :: bs => b.toNat + 256 * value bs

/-- A number is written in as many bytes as asked. -/
@[simp] theorem length_bytes (w n : ℕ) : (bytes w n).length = w := by
  induction w generalizing n with
  | zero => rfl
  | succ w ih => rw [bytes, List.length_cons, ih]

/-- Bytes and back, modulo the width. -/
theorem value_bytes_mod (w n : ℕ) : value (bytes w n) = n % 256 ^ w := by
  induction w generalizing n with
  | zero => rw [bytes, value, Nat.pow_zero, Nat.mod_one]
  | succ w ih =>
      have hbyte : (UInt8.ofNat n).toNat = n % 256 := UInt8.toNat_ofNat'
      rw [bytes, value, ih, hbyte, Nat.pow_succ, Nat.mul_comm (256 ^ w), Nat.mod_mul]

/-- A number that fits comes back. -/
theorem value_bytes {w n : ℕ} (h : n < 256 ^ w) : value (bytes w n) = n := by
  rw [value_bytes_mod, Nat.mod_eq_of_lt h]

end Foundations.LittleEndian
