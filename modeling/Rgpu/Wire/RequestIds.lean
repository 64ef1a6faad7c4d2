import Rgpu.Foundations.SerialNumber

/-! # Request ids (`common/wire.h`, `client/rpc.cpp`)

A client numbers its requests in the order it queues them, with 32 bits that wrap and skip `0`, which
means "no request". Both sides order ids with `req_at_or_before`. `reqIdAt first n` is the id of the
`n`-th request of a client whose first id is `first` (position `0` stands for "no request"), and
`reqAtOrBefore_reqIdAt` says between which positions the order of ids is the order of queueing.

* **`reqAtOrBefore`** — `req_at_or_before`.
* **`mintReqId`** — `mint_req_id_locked`, on its two variables `g_req_ids_started` and `g_next_req`.
* **`RequestId`** — an id together with the position it was minted at, which no code reads. -/

namespace Rgpu

open Foundations

/-- Whether request `a` is at or before request `b`. No request (`0`) is before every request, and no
request but itself is before it. -/
def reqAtOrBefore (a b : UInt32) : Bool :=
  if a = 0 then true
  else if b = 0 then false
  else decide (b - a < 0x80000000)

/-- The counter of `mint_req_id_locked`: whether it has been given its first value, and the next id. -/
structure ReqCounter where
  /-- `g_req_ids_started`. -/
  started : Bool := false
  /-- `g_next_req`. -/
  nextReq : UInt32 := 0
  deriving DecidableEq, Repr

/-- The next request id and the counter after it. `first` is the value the counter starts from: `1`,
or what `RGPU_TEST_FIRST_REQ_ID` says. -/
def mintReqId (first : UInt32) (c : ReqCounter) : UInt32 × ReqCounter :=
  let next := if c.started then c.nextReq else first
  let next := if next = 0 then 1 else next
  (next, { started := true, nextReq := next + 1 })

/-- The counter after `n` ids have been minted. -/
def counterAt (first : UInt32) : ℕ → ReqCounter
  | 0 => {}
  | n + 1 => (mintReqId first (counterAt first n)).2

/-- The id of the `n`-th request, counting from one; `0`, no request, for `n = 0`. -/
def reqIdAt (first : UInt32) : ℕ → UInt32
  | 0 => 0
  | n + 1 => (mintReqId first (counterAt first n)).1

/-- Before the first request there is none. -/
@[simp] theorem reqIdAt_zero (first : UInt32) : reqIdAt first 0 = 0 := rfl

/-- The number the ids start at once zero is skipped. -/
def firstNumber (first : UInt32) : ℕ := if first = 0 then 1 else first.toNat

/-- The first number is not zero. -/
theorem firstNumber_pos (first : UInt32) : 1 ≤ firstNumber first := by
  unfold firstNumber
  split
  · exact le_rfl
  · rename_i h
    exact Nat.one_le_iff_ne_zero.mpr fun h0 => h (UInt32.toNat_inj.mp (by simpa using h0))

/-- The first number is below the size of the circle. -/
theorem firstNumber_lt (first : UInt32) : firstNumber first < 2 * 2 ^ 31 := by
  unfold firstNumber
  split
  · norm_num
  · exact first.toNat_lt

/-- Minting turns a number into the next one of the circle. -/
theorem toNat_mint_succ (a : UInt32) :
    (if a + 1 = 0 then (1 : UInt32) else a + 1).toNat =
      if a.toNat + 1 = 2 * 2 ^ 31 then 1 else a.toNat + 1 := by
  have hlt := a.toNat_lt
  have hadd : (a + 1).toNat = (a.toNat + 1) % 2 ^ 32 := by
    rw [UInt32.toNat_add]
    rfl
  by_cases hwrap : a.toNat + 1 = 2 * 2 ^ 31
  · have hzero : a + 1 = 0 := UInt32.toNat_inj.mp (by rw [hadd, hwrap]; rfl)
    rw [if_pos hzero, if_pos hwrap]
    rfl
  · have hsmall : (a + 1).toNat = a.toNat + 1 := by rw [hadd, Nat.mod_eq_of_lt (by omega)]
    have hne : a + 1 ≠ 0 := by
      intro h
      rw [h] at hsmall
      exact absurd hsmall (by simp)
    rw [if_neg hne, if_neg hwrap, hsmall]

/-- **The ids are the numbers of the circle**, in order. -/
theorem toNat_reqIdAt_succ (first : UInt32) (n : ℕ) :
    (reqIdAt first (n + 1)).toNat = SerialNumber.nth (2 ^ 31) (firstNumber first) n := by
  induction n with
  | zero =>
      rw [SerialNumber.nth_zero (firstNumber_pos first) (firstNumber_lt first)]
      have hfirst : reqIdAt first 1 = if first = 0 then 1 else first := rfl
      rw [hfirst, firstNumber]
      split <;> rfl
  | succ n ih =>
      rw [SerialNumber.nth_succ (by norm_num), ← ih, ← toNat_mint_succ]
      rfl

/-- No request has the number zero. -/
theorem reqIdAt_succ_ne_zero (first : UInt32) (n : ℕ) : reqIdAt first (n + 1) ≠ 0 := by
  intro h
  have hpos := SerialNumber.nth_pos (2 ^ 31) (firstNumber first) n
  rw [← toNat_reqIdAt_succ, h] at hpos
  exact absurd hpos (by simp)

/-- For ids that name a request, `req_at_or_before` is the order of the serial numbers. -/
theorem reqAtOrBefore_iff {a b : UInt32} (ha : a ≠ 0) (hb : b ≠ 0) :
    reqAtOrBefore a b = true ↔ SerialNumber.AtOrBefore (2 ^ 31) a.toNat b.toNat := by
  have halt := a.toNat_lt
  have hblt := b.toNat_lt
  rw [reqAtOrBefore, if_neg ha, if_neg hb, decide_eq_true_iff, UInt32.lt_iff_toNat_lt,
    UInt32.toNat_sub, SerialNumber.AtOrBefore,
    show 2 ^ 32 - a.toNat + b.toNat = b.toNat + 2 * 2 ^ 31 - a.toNat by omega]
  exact Iff.rfl

/-- Positions whose ids `req_at_or_before` orders as they were minted: one of them is no request, or
they are fewer than `2 ^ 31 - 1` requests apart. -/
def Ordered (i j : ℕ) : Prop := i = 0 ∨ j = 0 ∨ SerialNumber.Near (2 ^ 31) i j

instance (i j : ℕ) : Decidable (Ordered i j) := inferInstanceAs (Decidable (_ ∨ _))

/-- Two positions that are ordered by the window, the other way round. -/
theorem Ordered.symm {i j : ℕ} (h : Ordered i j) : Ordered j i := by
  rcases h with h | h | h
  · exact Or.inr (Or.inl h)
  · exact Or.inl h
  · exact Or.inr (Or.inr h.symm)

/-- **Ids order positions**: on ordered positions `req_at_or_before` is the order of minting. -/
theorem reqAtOrBefore_reqIdAt (first : UInt32) {i j : ℕ} (h : Ordered i j) :
    reqAtOrBefore (reqIdAt first i) (reqIdAt first j) = true ↔ i ≤ j := by
  cases i with
  | zero => simp [reqAtOrBefore]
  | succ i =>
      cases j with
      | zero => simp [reqAtOrBefore, reqIdAt_succ_ne_zero]
      | succ j =>
          have hnear : SerialNumber.Near (2 ^ 31) i j := by
            rcases h with h | h | h
            · exact absurd h (Nat.succ_ne_zero i)
            · exact absurd h (Nat.succ_ne_zero j)
            · unfold SerialNumber.Near at h ⊢
              omega
          rw [reqAtOrBefore_iff (reqIdAt_succ_ne_zero first i) (reqIdAt_succ_ne_zero first j),
            toNat_reqIdAt_succ, toNat_reqIdAt_succ, SerialNumber.atOrBefore_nth_iff hnear]
          omega

/-- **The order of ids across the wrap.** For two requests fewer than `2 ^ 31` apart, `req_at_or_before`
is the order of minting, and no request is at or before none: unless the second is exactly `2 ^ 31 - 1`
after the first and the numbering wraps in between, where the zero left out makes it one too many. -/
theorem reqAtOrBefore_window (first : UInt32) {i j : ℕ} (hi : i < j + 2 ^ 31) (hj : j < i + 2 ^ 31) :
    ((reqAtOrBefore (reqIdAt first (i + 1)) (reqIdAt first (j + 1)) = true ↔ i ≤ j) ∧
        reqAtOrBefore (reqIdAt first (i + 1)) 0 = false) ↔
      ¬(j = i + (2 ^ 31 - 1) ∧ 2 ^ 31 < (reqIdAt first (i + 1)).toNat) := by
  have hnone : reqAtOrBefore (reqIdAt first (i + 1)) 0 = false := by
    rw [reqAtOrBefore, if_neg (reqIdAt_succ_ne_zero first i), if_pos rfl]
  rw [and_iff_left hnone, reqAtOrBefore_iff (reqIdAt_succ_ne_zero first i) (reqIdAt_succ_ne_zero first j),
    toNat_reqIdAt_succ, toNat_reqIdAt_succ]
  exact SerialNumber.atOrBefore_nth_iff_of_lt (by omega) hi hj _

/-- The first two ids of a client that starts at the last one: `0xFFFFFFFF` and `1`. -/
theorem reqAtOrBefore_over_wrap :
    reqAtOrBefore (reqIdAt 0xFFFFFFFF 1) (reqIdAt 0xFFFFFFFF 2) = true :=
  ((reqAtOrBefore_window 0xFFFFFFFF (i := 0) (j := 1) (by omega) (by omega)).mpr
    (fun h => absurd h.1 (by omega))).1.mpr (Nat.zero_le 1)

/-- `2 ^ 31 - 1` requests after `0xFFFFFFFF` comes the id `0x7FFFFFFF`, which is not after it. -/
theorem reqAtOrBefore_fails_over_wrap :
    ¬∀ (first : UInt32) (i j : ℕ), i < j + 2 ^ 31 → j < i + 2 ^ 31 →
      (reqAtOrBefore (reqIdAt first (i + 1)) (reqIdAt first (j + 1)) = true ↔ i ≤ j) := by
  intro h
  have hfirst : firstNumber 0xFFFFFFFF = 2 ^ 32 - 1 := rfl
  have hafter := (h 0xFFFFFFFF 0 (2 ^ 31 - 1) (by omega) (by omega)).mpr (Nat.zero_le _)
  rw [reqAtOrBefore_iff (reqIdAt_succ_ne_zero _ _) (reqIdAt_succ_ne_zero _ _), toNat_reqIdAt_succ,
    toNat_reqIdAt_succ, hfirst] at hafter
  have hhalf := (SerialNumber.atOrBefore_nth_half (by omega) (2 ^ 32 - 1) 0).mp
    ((Nat.zero_add (2 ^ 31 - 1)).symm ▸ hafter)
  rw [SerialNumber.nth_zero (by omega) (by omega)] at hhalf
  omega

/-- On ordered positions the same id means the same position. -/
theorem reqIdAt_injective {first : UInt32} {i j : ℕ} (h : Ordered i j)
    (heq : reqIdAt first i = reqIdAt first j) : i = j := by
  have hself : ∀ k, reqAtOrBefore (reqIdAt first k) (reqIdAt first k) = true := fun k =>
    (reqAtOrBefore_reqIdAt first (Or.inr (Or.inr ⟨by omega, by omega⟩))).mpr le_rfl
  refine Nat.le_antisymm ((reqAtOrBefore_reqIdAt first h).mp ?_)
    ((reqAtOrBefore_reqIdAt first h.symm).mp ?_)
  · rw [← heq]
    exact hself i
  · rw [heq]
    exact hself j

/-- A request id as it is held and sent. `pos` is the position the client minted it at; it is not on
the wire and nothing in the program reads it. -/
structure RequestId where
  /-- The 32 bits that travel. -/
  id : UInt32
  /-- The position among the client's requests, from one. -/
  pos : ℕ
  deriving DecidableEq, Repr

/-- No request: what a session that completed none, and a client that had no reply, hold. -/
def RequestId.none : RequestId := ⟨0, 0⟩

/-- The request before all has the number zero. -/
@[simp] theorem RequestId.none_id : RequestId.none.id = 0 := rfl

/-- The request before all has the position zero. -/
@[simp] theorem RequestId.none_pos : RequestId.none.pos = 0 := rfl

/-- `req_at_or_before` on ids as they are held. -/
def RequestId.atOrBefore (a b : RequestId) : Bool := reqAtOrBefore a.id b.id

/-- The id is the one minted at its position, by a client that starts at `first` and has queued at
most `issued` requests. -/
def RequestId.Minted (first : UInt32) (issued : ℕ) (r : RequestId) : Prop :=
  r.id = reqIdAt first r.pos ∧ r.pos ≤ issued

/-- The request before all counts as minted. -/
theorem RequestId.minted_none (first : UInt32) (issued : ℕ) :
    RequestId.none.Minted first issued := ⟨rfl, Nat.zero_le _⟩

/-- What has been minted stays minted. -/
theorem RequestId.Minted.mono {first : UInt32} {m n : ℕ} {r : RequestId}
    (h : r.Minted first m) (hmn : m ≤ n) : r.Minted first n := ⟨h.1, h.2.trans hmn⟩

/-- Minted ids at ordered positions compare as their positions do. -/
theorem RequestId.Minted.atOrBefore_iff {first : UInt32} {m n : ℕ} {a b : RequestId}
    (ha : a.Minted first m) (hb : b.Minted first n) (h : Ordered a.pos b.pos) :
    a.atOrBefore b = true ↔ a.pos ≤ b.pos := by
  rw [RequestId.atOrBefore, ha.1, hb.1]
  exact reqAtOrBefore_reqIdAt first h

end Rgpu
