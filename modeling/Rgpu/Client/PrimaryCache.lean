import Rgpu.Driver.Contexts
import Rgpu.Foundations.StepSystem
import Mathlib.Data.Finset.Card
import Mathlib.Logic.Function.Basic

/-! # The state of a primary context (`shim.cpp`)

While the process holds a reference to a device's primary context, `cuDevicePrimaryCtxGetState` is answered from a
record that the calls that retain, release, reset and configure the context keep, each after its reply.

* **`PrimaryCtx.after`** — what each call makes of the record.
* **`PrimaryCaching.step`** — any number of threads, each call with its server step and its record apart.
* **`PrimaryCaching.answers_current`** — the answers that are given from the record, where what changes the context is
not overlapped. -/

namespace Rgpu

open Foundations

/-- `PrimaryCtx` -/
structure PrimaryCtx where
  /-- The process's own references, not the driver's. -/
  retained : ℕ := 0
  flags : ℕ := 0
  flagsKnown : Bool := false
  deriving DecidableEq

/-- A device's primary context, on the server. -/
structure Primary where
  retains : ℕ := 0
  active : Bool := false
  flags : ℕ := 0
  deriving DecidableEq

/-- A call about a device's primary context. -/
inductive PrimaryCall
  | retain
  | release
  | reset
  | setFlags (flags : ℕ)
  /-- `cuDevicePrimaryCtxGetState`, with which of the two are asked for. -/
  | getState (wantFlags wantActive : Bool)
  deriving DecidableEq

namespace PrimaryCtx

/-- The record after a call was answered; `got` are the flags that `cuDevicePrimaryCtxGetState` has read. -/
def after (p : PrimaryCtx) (r : CUresult) (got : ℕ) : PrimaryCall → PrimaryCtx
  | .retain => if r = .success then { p with retained := p.retained + 1 } else p
  | .release =>
      { p with retained := p.retained - 1, flagsKnown := if p.retained - 1 = 0 then false else p.flagsKnown }
  | .reset => if r = .notSupported then p else {}
  | .setFlags flags =>
      if r = .success then { p with flags := flags, flagsKnown := true } else { p with flagsKnown := false }
  | .getState wantFlags _ =>
      if r = .success ∧ wantFlags = true then { p with flags := got, flagsKnown := true } else p

/-- The record may answer. -/
def licensed (p : PrimaryCtx) (wantFlags : Bool) : Bool := decide (0 < p.retained) && (!wantFlags || p.flagsKnown)

end PrimaryCtx

namespace Primary

/-- The call runs. What the driver makes of a context that is destroyed or reset, it chooses. -/
def runs (p chosen : Primary) : PrimaryCall → Primary
  | .retain => { p with retains := p.retains + 1, active := true }
  | .release =>
      if p.retains = 1 then ⟨0, false, chosen.flags⟩ else { p with retains := p.retains - 1 }
  | .reset => ⟨p.retains, chosen.active, chosen.flags⟩
  | .setFlags flags => { p with flags := flags }
  | .getState _ _ => p

end Primary

/-- The calls after which what was known may be wrong. -/
def PrimaryCall.Withdraws : PrimaryCall → Prop
  | .release | .reset | .setFlags _ => True
  | .retain | .getState _ _ => False

instance (c : PrimaryCall) : Decidable c.Withdraws := by
  cases c
  case retain => exact .isFalse id
  case release => exact .isTrue trivial
  case reset => exact .isTrue trivial
  case setFlags => exact .isTrue trivial
  case getState => exact .isFalse id

/-- Where a thread is. -/
inductive Calling
  | idle
  /-- In a call, before its server step; `cuDevicePrimaryCtxGetState` has not looked into the record. -/
  | called (dev : ℕ) (c : PrimaryCall)
  /-- In `cuDevicePrimaryCtxGetState`, to be answered by the server. -/
  | asking (dev : ℕ) (wantFlags wantActive : Bool)
  /-- Answered, before the record. -/
  | answered (dev : ℕ) (c : PrimaryCall) (ran : Bool) (r : CUresult) (got : ℕ)
  deriving DecidableEq

/-- What comes of a call on the server. -/
structure ServerStep where
  /-- The call took effect. -/
  ran : Bool
  /-- Its result, which may be an earlier failure's, or that of the connection. -/
  result : CUresult
  chosen : Primary := {}

/-- An answer from the record. -/
structure StateAnswer where
  dev : ℕ
  flags : Option ℕ
  active : Option Bool
  /-- The contexts as they were on the server at the moments since the call began. -/
  seen : List (ℕ → Primary)

/-- The state of the device's context at some moment of the call is the one that was answered. -/
def StateAnswer.Right (a : StateAnswer) : Prop :=
  ∃ server ∈ a.seen, (∀ f, a.flags = some f → f = (server a.dev).flags) ∧
    ∀ b, a.active = some b → b = (server a.dev).active

/-- The process, and the server. -/
structure PrimaryCaching where
  /-- `g_primary` -/
  record : ℕ → PrimaryCtx := fun _ => {}
  server : ℕ → Primary := fun _ => {}
  doing : ℕ → Calling := fun _ => .idle
  /-- The contexts on the server since a thread's call began. No code reads it. -/
  seen : ℕ → List (ℕ → Primary) := fun _ => []
  /-- The threads whose retain is not in the record yet. No code reads it. -/
  owing : ℕ → Finset ℕ := fun _ => ∅
  answers : List StateAnswer := []

/-- What a thread does next. -/
inductive PrimaryAction
  | start (t dev : ℕ) (c : PrimaryCall)
  /-- `cuDevicePrimaryCtxGetState` looks into the record. -/
  | lookup (t : ℕ)
  | serve (t : ℕ) (o : ServerStep)
  /-- The reply is received, and the record changed. -/
  | finish (t : ℕ)

namespace PrimaryCaching

def at' (s : PrimaryCaching) (t : ℕ) (d : Calling) : PrimaryCaching :=
  { s with doing := Function.update s.doing t d }

/-- The answer from the record. -/
def answer (s : PrimaryCaching) (t dev : ℕ) (wantFlags wantActive : Bool) : StateAnswer where
  dev := dev
  flags := if wantFlags then some (s.record dev).flags else none
  active := if wantActive then some true else none
  seen := s.seen t

/-- The call on the server. -/
def serve (s : PrimaryCaching) (t dev : ℕ) (c : PrimaryCall) (o : ServerStep) : PrimaryCaching :=
  let server := if o.ran then Function.update s.server dev ((s.server dev).runs o.chosen c) else s.server
  { s with
    server := server
    doing := Function.update s.doing t (.answered dev c o.ran o.result (s.server dev).flags)
    seen := fun t' => s.seen t' ++ [server]
    owing := if c = .retain ∧ o.result = .success then Function.update s.owing dev (insert t (s.owing dev)) else s.owing }

/-- What can come of a call: success is to have taken effect, and a release is of a reference that there is. -/
def Possible (p : Primary) (c : PrimaryCall) (o : ServerStep) : Prop :=
  (o.result = .success → o.ran = true) ∧ (c = .release → o.ran = true → 0 < p.retains)

instance (p : Primary) (c : PrimaryCall) (o : ServerStep) : Decidable (Possible p c o) :=
  inferInstanceAs (Decidable (_ ∧ _))

def step (s : PrimaryCaching) : PrimaryAction → Option PrimaryCaching
  | .start t dev c =>
      match s.doing t with
      | .idle => some { s.at' t (.called dev c) with seen := Function.update s.seen t [s.server] }
      | _ => none
  | .lookup t =>
      match s.doing t with
      | .called dev (.getState wantFlags wantActive) =>
          if (s.record dev).licensed wantFlags then
            some { s.at' t .idle with answers := s.answers ++ [s.answer t dev wantFlags wantActive] }
          else some (s.at' t (.asking dev wantFlags wantActive))
      | _ => none
  | .serve t o =>
      match s.doing t with
      | .called _ (.getState _ _) => none
      | .called dev c => if Possible (s.server dev) c o then some (s.serve t dev c o) else none
      | .asking dev wantFlags wantActive =>
          if Possible (s.server dev) (.getState wantFlags wantActive) o then
            some (s.serve t dev (.getState wantFlags wantActive) o)
          else none
      | _ => none
  | .finish t =>
      match s.doing t with
      | .answered dev c _ r got =>
          some { s.at' t .idle with
            record := Function.update s.record dev ((s.record dev).after r got c)
            owing := Function.update s.owing dev ((s.owing dev).erase t) }
      | _ => none

/-- A thread is between the server step of its call on a device and the record. -/
def Pending (s : PrimaryCaching) (t dev : ℕ) : Prop := ∃ c ran r got, s.doing t = .answered dev c ran r got

/-- So, with a call that took effect and after which what was known may be wrong. -/
def Withdrawing (s : PrimaryCaching) (t dev : ℕ) : Prop :=
  ∃ c r got, s.doing t = .answered dev c true r got ∧ c.Withdraws

/-- A thread's call is about to be served. -/
def Due (s : PrimaryCaching) (t dev : ℕ) (c : PrimaryCall) : Prop :=
  s.doing t = .called dev c ∨ ∃ f a, s.doing t = .asking dev f a ∧ c = .getState f a

/-- A call on a device is served only where no release, reset or setting of flags that took effect on it is yet to be
recorded; and one that itself takes effect so, only where no call on it is; no reset that took effect is answered as one
that is refused; and the record does not answer where such a change is yet to be recorded. -/
def Exclusive (s : PrimaryCaching) : PrimaryAction → Prop
  | .lookup t => ∀ dev wantFlags wantActive, s.doing t = .called dev (.getState wantFlags wantActive) →
      (s.record dev).licensed wantFlags = true → ∀ t', ¬ s.Withdrawing t' dev
  | .serve t o => ∀ dev c, s.Due t dev c →
      (∀ t', ¬ s.Withdrawing t' dev) ∧
        (c.Withdraws → o.ran = true → ∀ t', ¬ s.Pending t' dev) ∧
        (c = .reset → o.ran = true → o.result ≠ .notSupported)
  | _ => True

/-! ### What the record says -/

/-- The references recorded, and those that are to be, are held on the server and keep the context active; and flags that
are known are the server's. -/
structure Coherent (p : PrimaryCtx) (q : Primary) (owed : ℕ) : Prop where
  count : p.retained + owed ≤ q.retains
  active : 0 < p.retained + owed → q.active = true
  flags : p.flagsKnown = true → p.flags = q.flags

variable {p : PrimaryCtx} {q chosen : Primary} {k got : ℕ} {r : CUresult} {c : PrimaryCall}

/-- A retain that takes effect, recorded later or never. -/
theorem Coherent.retain (h : Coherent p q k) : Coherent p (q.runs chosen .retain) (k + 1) where
  count := Nat.succ_le_succ h.count
  active := fun _ => rfl
  flags := h.flags

/-- A retain that will never be recorded may be forgotten. -/
theorem Coherent.fewer (h : Coherent p q (k + 1)) : Coherent p q k where
  count := by
    have hcount := h.count
    omega
  active := fun hpos => h.active (by omega)
  flags := h.flags

/-- Recording a retain. -/
theorem Coherent.retained (h : Coherent p q (k + 1)) : Coherent (p.after .success got .retain) q k where
  count := by
    have hcount := h.count
    rw [PrimaryCtx.after, if_pos rfl]
    dsimp only
    omega
  active := fun _ => h.active (by omega)
  flags := by
    rw [PrimaryCtx.after, if_pos rfl]
    exact h.flags

/-- Recording flags that were read. -/
theorem Coherent.asked (h : Coherent p q k) {wantFlags wantActive : Bool} (hgot : r = .success → got = q.flags) :
    Coherent (p.after r got (.getState wantFlags wantActive)) q k := by
  rw [PrimaryCtx.after]
  split
  · rename_i hr
    exact ⟨h.count, h.active, fun _ => hgot hr.1⟩
  · exact h

/-- A change that took effect alone, once it is recorded. -/
theorem Coherent.withdrawn (h : Coherent p q 0) (hc : c.Withdraws) (hrelease : c = .release → 0 < q.retains)
    (hreset : c = .reset → r ≠ .notSupported) : Coherent (p.after r got c) (q.runs chosen c) 0 := by
  cases c with
  | retain => exact hc.elim
  | getState => exact hc.elim
  | release =>
      have hcount := h.count
      have hpos := hrelease rfl
      rw [PrimaryCtx.after, Primary.runs]
      by_cases hone : q.retains = 1
      · -- the last reference: none is recorded any more
        have hzero : p.retained - 1 = 0 := by omega
        rw [hzero, if_pos rfl, if_pos hone]
        exact ⟨le_rfl, nofun, nofun⟩
      · rw [if_neg hone]
        refine ⟨by dsimp only; omega, fun hsome => h.active (by dsimp only at hsome; omega), fun hknown => ?_⟩
        dsimp only at hknown ⊢
        split at hknown
        · cases hknown
        · exact h.flags hknown
  | reset =>
      rw [PrimaryCtx.after, if_neg (hreset rfl)]
      exact ⟨Nat.zero_le _, nofun, nofun⟩
  | setFlags flags =>
      rw [PrimaryCtx.after]
      split
      · exact ⟨h.count, h.active, fun _ => rfl⟩
      · exact ⟨h.count, h.active, nofun⟩

/-- Such a call that did not take effect, once it is recorded. -/
theorem Coherent.failed (h : Coherent p q k) (hc : c.Withdraws) (hr : r ≠ .success) :
    Coherent (p.after r got c) q k := by
  have hcount := h.count
  cases c with
  | retain => exact hc.elim
  | getState => exact hc.elim
  | release =>
      rw [PrimaryCtx.after]
      refine ⟨by dsimp only; omega, fun hsome => h.active (by dsimp only at hsome; omega), fun hknown => ?_⟩
      dsimp only at hknown ⊢
      split at hknown
      · cases hknown
      · exact h.flags hknown
  | reset =>
      rw [PrimaryCtx.after]
      split
      · exact h
      · exact ⟨by show 0 + k ≤ q.retains; omega, fun hsome => h.active (Nat.lt_of_lt_of_le hsome (by show 0 + k ≤ _; omega)),
          nofun⟩
  | setFlags flags =>
      rw [PrimaryCtx.after, if_neg hr]
      exact ⟨h.count, h.active, nofun⟩

/-! ### The invariant -/

variable {s s' : PrimaryCaching}

/-- The record is right where nothing is withdrawn, and will be right again where something is; only one call on a device
is then under way. What was read is what there is, and every call has seen the present. -/
structure Kept (s : PrimaryCaching) : Prop where
  owing : ∀ t dev, t ∈ s.owing dev ↔ ∃ ran got, s.doing t = .answered dev .retain ran .success got
  alone : ∀ t t' dev, s.Withdrawing t dev → s.Pending t' dev → t' = t
  coherent : ∀ dev, (∀ t, ¬ s.Withdrawing t dev) → Coherent (s.record dev) (s.server dev) (s.owing dev).card
  withdrawn : ∀ t dev c r got, s.doing t = .answered dev c true r got → c.Withdraws →
    Coherent ((s.record dev).after r got c) (s.server dev) 0
  failed : ∀ t dev c r got, s.doing t = .answered dev c false r got → r ≠ .success
  asked : ∀ t dev f a ran got, s.doing t = .answered dev (.getState f a) ran .success got → got = (s.server dev).flags
  current : ∀ t, s.doing t ≠ .idle → s.server ∈ s.seen t
  right : ∀ a ∈ s.answers, a.Right

/-- Nothing is recorded in a process that has just begun. -/
theorem kept_init : Kept {} where
  owing := fun t dev => iff_of_false (Finset.notMem_empty t) (by rintro ⟨ran, got, h⟩; cases h)
  alone := by
    rintro t t' dev ⟨c, r, got, h, -⟩
    cases h
  coherent := fun dev _ => ⟨le_rfl, fun h => absurd h (Nat.lt_irrefl 0), nofun⟩
  withdrawn := nofun
  failed := nofun
  asked := nofun
  current := fun t h => absurd rfl h
  right := nofun

/-- A call that is still to be served has no answer. -/
theorem Due.not_answered {t dev : ℕ} {c : PrimaryCall} (h : s.Due t dev c) (dev' : ℕ) (c' : PrimaryCall)
    (ran : Bool) (r : CUresult) (got : ℕ) : s.doing t ≠ .answered dev' c' ran r got := by
  intro heq
  rcases h with h | ⟨f, a, h, -⟩
  · rw [h] at heq
    cases heq
  · rw [h] at heq
    cases heq

/-- Where threads go on without an answer, and nothing else changes, the invariant is kept. -/
theorem kept_congr (h : Kept s) (hrecord : s'.record = s.record) (hserver : s'.server = s.server)
    (howing : s'.owing = s.owing)
    (hdoing : ∀ t dev c ran r got, s'.doing t = .answered dev c ran r got ↔ s.doing t = .answered dev c ran r got)
    (hcurrent : ∀ t, s'.doing t ≠ .idle → s'.server ∈ s'.seen t) (hright : ∀ a ∈ s'.answers, a.Right) : Kept s' := by
  have hwithdrawing : ∀ t dev, s'.Withdrawing t dev ↔ s.Withdrawing t dev := by
    intro t dev
    simp only [Withdrawing, hdoing]
  have hpending : ∀ t dev, s'.Pending t dev ↔ s.Pending t dev := by
    intro t dev
    simp only [Pending, hdoing]
  refine ⟨?_, ?_, ?_, ?_, ?_, ?_, hcurrent, hright⟩
  · intro t dev
    simp only [howing, hdoing]
    exact h.owing t dev
  · intro t t' dev hw hp
    exact h.alone t t' dev ((hwithdrawing t dev).mp hw) ((hpending t' dev).mp hp)
  · intro dev hnone
    rw [hrecord, hserver, howing]
    exact h.coherent dev fun t hw => hnone t ((hwithdrawing t dev).mpr hw)
  · intro t dev c r got hd hc
    rw [hrecord, hserver]
    exact h.withdrawn t dev c r got ((hdoing t dev c true r got).mp hd) hc
  · intro t dev c r got hd
    exact h.failed t dev c r got ((hdoing t dev c false r got).mp hd)
  · intro t dev f a ran got hd
    rw [hserver]
    exact h.asked t dev f a ran got ((hdoing t dev _ ran _ got).mp hd)

/-- A thread that was not answered goes on to where it is not. -/
theorem at_answered {t : ℕ} {d : Calling} (hold : ∀ dev c ran r got, s.doing t ≠ .answered dev c ran r got)
    (hnew : ∀ dev c ran r got, d ≠ .answered dev c ran r got) (t' dev : ℕ) (c : PrimaryCall) (ran : Bool)
    (r : CUresult) (got : ℕ) :
    Function.update s.doing t d t' = .answered dev c ran r got ↔ s.doing t' = .answered dev c ran r got := by
  by_cases ht : t' = t
  · subst ht
    rw [Function.update_self]
    exact iff_of_false (hnew dev c ran r got) (hold dev c ran r got)
  · rw [Function.update_of_ne ht]

/-- A call that begins has seen the state it begins in. -/
theorem kept_start (h : Kept s) {t dev : ℕ} {c : PrimaryCall} (hidle : s.doing t = .idle) :
    Kept { s.at' t (.called dev c) with seen := Function.update s.seen t [s.server] } := by
  refine kept_congr h rfl rfl rfl ?_ ?_ h.right
  · exact at_answered (fun _ _ _ _ _ heq => by rw [hidle] at heq; cases heq) nofun
  · intro t' hd
    dsimp only [at'] at hd ⊢
    by_cases ht : t' = t
    · subst ht
      rw [Function.update_self]
      exact List.mem_singleton_self _
    · rw [Function.update_of_ne ht] at hd ⊢
      exact h.current t' hd

/-- A query that the record cannot answer goes to the server. -/
theorem kept_missed (h : Kept s) {t dev : ℕ} {f a : Bool} (hcalled : s.doing t = .called dev (.getState f a)) :
    Kept (s.at' t (.asking dev f a)) := by
  refine kept_congr h rfl rfl rfl ?_ ?_ h.right
  · exact at_answered (fun _ _ _ _ _ heq => by rw [hcalled] at heq; cases heq) nofun
  · intro t' hd
    dsimp only [at'] at hd ⊢
    by_cases ht : t' = t
    · subst ht
      exact h.current t' (by rw [hcalled]; nofun)
    · rw [Function.update_of_ne ht] at hd
      exact h.current t' hd

/-- An answer from the record. -/
theorem kept_answered (h : Kept s) {t dev : ℕ} {f a : Bool} (hcalled : s.doing t = .called dev (.getState f a))
    (hlicensed : (s.record dev).licensed f = true) (hnone : ∀ t', ¬ s.Withdrawing t' dev) :
    Kept { s.at' t .idle with answers := s.answers ++ [s.answer t dev f a] } := by
  have hcoherent := h.coherent dev hnone
  rw [PrimaryCtx.licensed, Bool.and_eq_true, decide_eq_true_iff] at hlicensed
  refine kept_congr h rfl rfl rfl ?_ ?_ ?_
  · exact at_answered (fun _ _ _ _ _ heq => by rw [hcalled] at heq; cases heq) nofun
  · intro t' hd
    dsimp only [at'] at hd ⊢
    by_cases ht : t' = t
    · subst ht
      rw [Function.update_self] at hd
      exact absurd rfl hd
    · rw [Function.update_of_ne ht] at hd
      exact h.current t' hd
  · intro b hb
    rcases List.mem_append.mp hb with hb | hb
    · exact h.right b hb
    · rw [List.mem_singleton.mp hb]
      refine ⟨s.server, h.current t (by rw [hcalled]; nofun), ?_, ?_⟩
      · intro flags hflags
        rw [answer] at hflags
        cases f with
        | false => cases hflags
        | true =>
            cases hflags
            exact hcoherent.flags hlicensed.2
      · intro active hactive
        rw [answer] at hactive
        cases a with
        | false => cases hactive
        | true =>
            cases hactive
            exact (hcoherent.active (by omega)).symm

section Serve

variable {t dev : ℕ} {o : ServerStep}

/-- The call that is served has its answer, with the flags the server had when it came. -/
theorem serve_doing_self : (s.serve t dev c o).doing t = .answered dev c o.ran o.result (s.server dev).flags :=
  Function.update_self _ _ _

/-- The other threads do what they did. -/
theorem serve_doing_of_ne {t' : ℕ} (h : t' ≠ t) : (s.serve t dev c o).doing t' = s.doing t' :=
  Function.update_of_ne h _ _

/-- The other devices' contexts are as they were. -/
theorem serve_server_of_ne {d : ℕ} (h : d ≠ dev) : (s.serve t dev c o).server d = s.server d := by
  rw [serve]
  dsimp only
  split
  · exact Function.update_of_ne h _ _
  · rfl

/-- A call that takes effect does so on its own device. -/
theorem serve_server_ran (h : o.ran = true) :
    (s.serve t dev c o).server dev = (s.server dev).runs o.chosen c := by
  rw [serve]
  dsimp only
  rw [if_pos h, Function.update_self]

/-- A call that takes no effect changes nothing on the server. -/
theorem serve_server_not (h : o.ran = false) : (s.serve t dev c o).server = s.server := by
  rw [serve]
  dsimp only
  rw [if_neg (by rw [h]; nofun)]

/-- A retain that is granted is owed to the record until the thread has entered it. -/
theorem serve_owing (d : ℕ) : (s.serve t dev c o).owing d =
    if d = dev ∧ c = .retain ∧ o.result = .success then insert t (s.owing dev) else s.owing d := by
  rw [serve]
  dsimp only
  by_cases hretain : c = .retain ∧ o.result = .success
  · rw [if_pos hretain]
    by_cases hd : d = dev
    · subst hd
      rw [Function.update_self, if_pos ⟨rfl, hretain⟩]
    · rw [Function.update_of_ne hd, if_neg fun h => hd h.1]
  · rw [if_neg hretain, if_neg fun h => hretain h.2]

/-- Only a call that takes effect and withdraws something changes the flags. -/
theorem serve_flags (h : ¬ (c.Withdraws ∧ o.ran = true)) (d : ℕ) :
    ((s.serve t dev c o).server d).flags = (s.server d).flags := by
  by_cases hd : d = dev
  · subst hd
    cases hran : o.ran with
    | false => rw [serve_server_not hran]
    | true =>
        rw [serve_server_ran hran]
        cases c with
        | retain => rfl
        | getState => rfl
        | release => exact absurd ⟨trivial, hran⟩ h
        | reset => exact absurd ⟨trivial, hran⟩ h
        | setFlags => exact absurd ⟨trivial, hran⟩ h
  · rw [serve_server_of_ne hd]

/-- A thread whose call is still to be served owes the record nothing. -/
theorem Kept.notMem_owing (h : Kept s) (hdue : s.Due t dev c) (d : ℕ) : t ∉ s.owing d := by
  intro hmem
  obtain ⟨ran, got, hd⟩ := (h.owing t d).mp hmem
  exact hdue.not_answered _ _ _ _ _ hd

/-- What is owed are still the granted retains that are not recorded. -/
theorem Kept.owing_serve (h : Kept s) (hdue : s.Due t dev c) (t' d : ℕ) : t' ∈ (s.serve t dev c o).owing d ↔
    ∃ ran got, (s.serve t dev c o).doing t' = .answered d .retain ran .success got := by
  rw [serve_owing]
  by_cases ht : t' = t
  · subst ht
    rw [serve_doing_self]
    by_cases hretain : d = dev ∧ c = .retain ∧ o.result = .success
    · rw [if_pos hretain]
      obtain ⟨rfl, rfl, hr⟩ := hretain
      exact iff_of_true (Finset.mem_insert_self _ _) ⟨o.ran, _, by rw [hr]⟩
    · rw [if_neg hretain]
      refine iff_of_false (h.notMem_owing hdue d) ?_
      rintro ⟨ran, got, heq⟩
      injection heq with hdev hcall _ hr
      exact hretain ⟨hdev.symm, hcall, hr⟩
  · rw [serve_doing_of_ne ht]
    split
    · rename_i hretain
      obtain ⟨rfl, -, -⟩ := hretain
      rw [Finset.mem_insert, or_iff_right ht]
      exact h.owing t' d
    · exact h.owing t' d

/-- A call that withdraws something is still the only one pending on its device. -/
theorem Kept.alone_serve (h : Kept s) (hnone : ∀ t', ¬ s.Withdrawing t' dev)
    (halone : c.Withdraws → o.ran = true → ∀ t', ¬ s.Pending t' dev) (t₁ t₂ d : ℕ)
    (hwithdrawing : (s.serve t dev c o).Withdrawing t₁ d) (hpending : (s.serve t dev c o).Pending t₂ d) : t₂ = t₁ := by
  obtain ⟨c₁, r₁, got₁, hd₁, hc₁⟩ := hwithdrawing
  obtain ⟨c₂, ran₂, r₂, got₂, hd₂⟩ := hpending
  by_cases ht₁ : t₁ = t
  · subst ht₁
    -- the call served is the one that withdraws: no other is open on the device
    by_contra hne
    rw [serve_doing_self] at hd₁
    rw [serve_doing_of_ne hne] at hd₂
    injection hd₁ with hdev hcall hran
    subst hdev hcall
    exact halone hc₁ hran t₂ ⟨_, _, _, _, hd₂⟩
  · rw [serve_doing_of_ne ht₁] at hd₁
    by_cases ht₂ : t₂ = t
    · subst ht₂
      rw [serve_doing_self] at hd₂
      injection hd₂ with hdev
      subst hdev
      exact absurd ⟨c₁, r₁, got₁, hd₁, hc₁⟩ (hnone t₁)
    · rw [serve_doing_of_ne ht₂] at hd₂
      exact h.alone t₁ t₂ d ⟨c₁, r₁, got₁, hd₁, hc₁⟩ ⟨c₂, ran₂, r₂, got₂, hd₂⟩

/-- The device that is served is known as well as before, where its call has withdrawn nothing. -/
theorem Kept.coherent_served (h : Kept s) (hdue : s.Due t dev c) (hpossible : Possible (s.server dev) c o)
    (hnone : ∀ t', ¬ s.Withdrawing t' dev) (heffect : ¬ (c.Withdraws ∧ o.ran = true)) :
    Coherent (s.record dev) ((s.serve t dev c o).server dev) ((s.serve t dev c o).owing dev).card := by
  have hcoherent := h.coherent dev hnone
  rw [serve_owing]
  cases hran : o.ran with
  | false =>
      have hr : ¬ (dev = dev ∧ c = .retain ∧ o.result = .success) := by
        rintro ⟨-, -, hr⟩
        rw [hpossible.1 hr] at hran
        cases hran
      rw [if_neg hr, serve_server_not hran]
      exact hcoherent
  | true =>
      rw [serve_server_ran hran]
      cases c with
      | retain =>
          -- a retain that is answered with an earlier error is held on the server and owed by nobody
          split
          · rw [Finset.card_insert_of_notMem (h.notMem_owing hdue dev)]
            exact hcoherent.retain
          · exact hcoherent.retain.fewer
      | getState f a =>
          rw [if_neg (by rintro ⟨-, h, -⟩; cases h)]
          exact hcoherent
      | release => exact absurd ⟨trivial, hran⟩ heffect
      | reset => exact absurd ⟨trivial, hran⟩ heffect
      | setFlags => exact absurd ⟨trivial, hran⟩ heffect

/-- Where nothing is being withdrawn, the record agrees with the server, but for what is owed. -/
theorem Kept.coherent_serve (h : Kept s) (hdue : s.Due t dev c) (hpossible : Possible (s.server dev) c o)
    (hnone : ∀ t', ¬ s.Withdrawing t' dev) (d : ℕ) (hquiet : ∀ t', ¬ (s.serve t dev c o).Withdrawing t' d) :
    Coherent (s.record d) ((s.serve t dev c o).server d) ((s.serve t dev c o).owing d).card := by
  by_cases hd : d = dev
  · subst hd
    refine h.coherent_served hdue hpossible hnone ?_
    rintro ⟨hc, hran⟩
    exact hquiet t ⟨c, o.result, _, by rw [serve_doing_self, hran], hc⟩
  · rw [serve_server_of_ne hd, serve_owing, if_neg fun h => hd h.1]
    refine h.coherent d ?_
    rintro t' ⟨c', r, got, hd', hc'⟩
    by_cases ht : t' = t
    · subst ht
      exact hdue.not_answered _ _ _ _ _ hd'
    · exact hquiet t' ⟨c', r, got, (serve_doing_of_ne ht).trans hd', hc'⟩

/-- Where something is being withdrawn, the record will agree with the server once it is entered. -/
theorem Kept.withdrawn_serve (h : Kept s) (hpossible : Possible (s.server dev) c o)
    (hnone : ∀ t', ¬ s.Withdrawing t' dev) (halone : c.Withdraws → o.ran = true → ∀ t', ¬ s.Pending t' dev)
    (hreset : c = .reset → o.ran = true → o.result ≠ .notSupported) (t' d : ℕ) (c' : PrimaryCall) (r : CUresult)
    (got : ℕ) (hd : (s.serve t dev c o).doing t' = .answered d c' true r got) (hc : c'.Withdraws) :
    Coherent ((s.record d).after r got c') ((s.serve t dev c o).server d) 0 := by
  by_cases ht : t' = t
  · subst ht
    rw [serve_doing_self] at hd
    injection hd with hdev hcall hran hr hgot
    subst hdev hcall hr hgot
    -- no other call on the device is open, so no retain on it is owed
    have hempty : s.owing dev = ∅ := by
      rw [Finset.eq_empty_iff_forall_notMem]
      intro t₁ hmem
      obtain ⟨ran, got, hd₁⟩ := (h.owing t₁ dev).mp hmem
      exact halone hc hran t₁ ⟨_, _, _, _, hd₁⟩
    have hcoherent := h.coherent dev hnone
    rw [hempty, Finset.card_empty] at hcoherent
    rw [serve_server_ran hran]
    exact hcoherent.withdrawn hc (fun hrel => hpossible.2 hrel hran) fun hres => hreset hres hran
  · rw [serve_doing_of_ne ht] at hd
    have hne : d ≠ dev := by
      rintro rfl
      exact hnone t' ⟨c', r, got, hd, hc⟩
    rw [serve_server_of_ne hne]
    exact h.withdrawn t' d c' r got hd hc

/-- The flags that a query was answered with are still the server's. -/
theorem Kept.asked_serve (h : Kept s) (halone : c.Withdraws → o.ran = true → ∀ t', ¬ s.Pending t' dev)
    (t' d : ℕ) (f a : Bool) (ran : Bool) (got : ℕ)
    (hd : (s.serve t dev c o).doing t' = .answered d (.getState f a) ran .success got) :
    got = ((s.serve t dev c o).server d).flags := by
  by_cases ht : t' = t
  · subst ht
    rw [serve_doing_self] at hd
    injection hd with hdev hcall hran hr hgot
    subst hdev hcall hgot
    exact (serve_flags (c := .getState f a) (fun hw => hw.1.elim) dev).symm
  · rw [serve_doing_of_ne ht] at hd
    have hgot := h.asked t' d f a ran got hd
    by_cases hdd : d = dev
    · subst hdd
      rw [serve_flags fun hw => halone hw.1 hw.2 t' ⟨_, _, _, _, hd⟩]
      exact hgot
    · rw [serve_server_of_ne hdd]
      exact hgot

/-- A call that is served keeps the invariant, if nothing is being withdrawn on the device and what
it withdraws no other call sees. -/
theorem kept_serve (h : Kept s) (hdue : s.Due t dev c) (hpossible : Possible (s.server dev) c o)
    (hnone : ∀ t', ¬ s.Withdrawing t' dev) (halone : c.Withdraws → o.ran = true → ∀ t', ¬ s.Pending t' dev)
    (hreset : c = .reset → o.ran = true → o.result ≠ .notSupported) : Kept (s.serve t dev c o) where
  owing := h.owing_serve hdue
  alone := h.alone_serve hnone halone
  coherent := h.coherent_serve hdue hpossible hnone
  withdrawn := h.withdrawn_serve hpossible hnone halone hreset
  failed := by
    intro t' d c' r got hd
    by_cases ht : t' = t
    · subst ht
      rw [serve_doing_self] at hd
      injection hd with hdev hcall hran hr hgot
      rw [← hr]
      intro hsuccess
      rw [hpossible.1 hsuccess] at hran
      cases hran
    · rw [serve_doing_of_ne ht] at hd
      exact h.failed t' d c' r got hd
  asked := h.asked_serve halone
  current := fun t' _ => List.mem_append_right _ (List.mem_singleton_self _)
  right := h.right

end Serve

/-- The reply of a thread's call is recorded. -/
def finished (s : PrimaryCaching) (t dev : ℕ) (c : PrimaryCall) (r : CUresult) (got : ℕ) : PrimaryCaching :=
  { s.at' t .idle with
    record := Function.update s.record dev ((s.record dev).after r got c)
    owing := Function.update s.owing dev ((s.owing dev).erase t) }

section Finish

variable {t dev : ℕ} {ran : Bool}

/-- The record of the device once the reply is recorded. -/
theorem coherent_finished (h : Kept s) (hd : s.doing t = .answered dev c ran r got)
    (hquiet : ∀ t', t' ≠ t → ¬ s.Withdrawing t' dev) :
    Coherent ((s.record dev).after r got c) (s.server dev) ((s.owing dev).erase t).card := by
  by_cases hw : c.Withdraws ∧ ran = true
  · -- it was alone, so nothing is owed
    obtain ⟨hc, rfl⟩ := hw
    have hempty : (s.owing dev).erase t = ∅ := by
      rw [Finset.eq_empty_iff_forall_notMem]
      intro t' hmem
      obtain ⟨hne, hmem⟩ := Finset.mem_erase.mp hmem
      obtain ⟨ran', got', hd'⟩ := (h.owing t' dev).mp hmem
      exact hne (h.alone t t' dev ⟨c, r, got, hd, hc⟩ ⟨_, _, _, _, hd'⟩)
    rw [hempty, Finset.card_empty]
    exact h.withdrawn t dev c r got hd hc
  · have hnone : ∀ t', ¬ s.Withdrawing t' dev := by
      intro t' hw'
      by_cases ht : t' = t
      · subst ht
        obtain ⟨c', r', got', hd', hc'⟩ := hw'
        rw [hd] at hd'
        injection hd' with _ hcall hran
        exact hw ⟨hcall ▸ hc', hran⟩
      · exact hquiet t' ht hw'
    -- nothing is being withdrawn, so the record was right when the reply came
    have hcoherent := h.coherent dev hnone
    have hnotin : ¬ (c = .retain ∧ r = .success) → (s.owing dev).erase t = s.owing dev := by
      intro hother
      refine Finset.erase_eq_of_notMem fun hmem => ?_
      obtain ⟨ran', got', hd'⟩ := (h.owing t dev).mp hmem
      rw [hd] at hd'
      injection hd' with _ hcall _ hr
      exact hother ⟨hcall, hr⟩
    -- a call that would withdraw and was not run has failed
    have hfailed : c.Withdraws → r ≠ .success := by
      intro hc
      cases hran : ran with
      | true => exact absurd ⟨hc, hran⟩ hw
      | false => exact h.failed t dev c r got (hran ▸ hd)
    cases c with
    | retain =>
        by_cases hr : r = .success
        · subst hr
          have hmem : t ∈ s.owing dev := (h.owing t dev).mpr ⟨ran, got, hd⟩
          have hcard : (s.owing dev).card = ((s.owing dev).erase t).card + 1 :=
            (Finset.card_erase_add_one hmem).symm
          rw [hcard] at hcoherent
          exact hcoherent.retained
        · rw [hnotin fun hand => hr hand.2, PrimaryCtx.after, if_neg hr]
          exact hcoherent
    | getState f a =>
        rw [hnotin (by rintro ⟨heq, -⟩; cases heq)]
        refine hcoherent.asked fun hr => ?_
        subst hr
        exact h.asked t dev f a ran got hd
    | release =>
        rw [hnotin (by rintro ⟨heq, -⟩; cases heq)]
        exact hcoherent.failed trivial (hfailed trivial)
    | reset =>
        rw [hnotin (by rintro ⟨heq, -⟩; cases heq)]
        exact hcoherent.failed trivial (hfailed trivial)
    | setFlags flags =>
        rw [hnotin (by rintro ⟨heq, -⟩; cases heq)]
        exact hcoherent.failed trivial (hfailed trivial)

/-- A call that is over has been entered in the record, or there was nothing to enter. -/
theorem kept_finished (h : Kept s) (hd : s.doing t = .answered dev c ran r got) : Kept (s.finished t dev c r got) := by
  have hself : (s.finished t dev c r got).doing t = .idle := Function.update_self _ _ _
  have hother : ∀ {t'}, t' ≠ t → (s.finished t dev c r got).doing t' = s.doing t' :=
    fun hne => Function.update_of_ne hne _ _
  -- whoever is answered now was answered before, and is another thread
  have hanswered : ∀ {t' d c' ran' r' got'}, (s.finished t dev c r got).doing t' = .answered d c' ran' r' got' →
      t' ≠ t ∧ s.doing t' = .answered d c' ran' r' got' := by
    intro t' d c' ran' r' got' hd'
    by_cases ht : t' = t
    · subst ht
      rw [hself] at hd'
      cases hd'
    · exact ⟨ht, (hother ht).symm.trans hd'⟩
  have hwithdrawing : ∀ {t' d}, t' ≠ t → s.Withdrawing t' d → (s.finished t dev c r got).Withdrawing t' d := by
    rintro t' d hne ⟨c', r', got', hd', hc'⟩
    exact ⟨c', r', got', (hother hne).trans hd', hc'⟩
  refine ⟨?_, ?_, ?_, ?_, ?_, ?_, ?_, h.right⟩
  · intro t' d
    rw [finished]
    dsimp only [at']
    by_cases ht : t' = t
    · subst ht
      rw [Function.update_self]
      refine iff_of_false (fun hmem => ?_) (by rintro ⟨_, _, heq⟩; cases heq)
      by_cases hdd : d = dev
      · subst hdd
        rw [Function.update_self] at hmem
        exact Finset.notMem_erase _ _ hmem
      · rw [Function.update_of_ne hdd] at hmem
        obtain ⟨ran', got', hd'⟩ := (h.owing t' d).mp hmem
        rw [hd] at hd'
        injection hd' with hdev
        exact hdd hdev.symm
    · rw [Function.update_of_ne ht]
      by_cases hdd : d = dev
      · subst hdd
        rw [Function.update_self, Finset.mem_erase, and_iff_right ht]
        exact h.owing t' d
      · rw [Function.update_of_ne hdd]
        exact h.owing t' d
  · rintro t₁ t₂ d ⟨c₁, r₁, got₁, hd₁, hc₁⟩ ⟨c₂, ran₂, r₂, got₂, hd₂⟩
    exact h.alone t₁ t₂ d ⟨c₁, r₁, got₁, (hanswered hd₁).2, hc₁⟩ ⟨c₂, ran₂, r₂, got₂, (hanswered hd₂).2⟩
  · intro d hquiet
    have hquiet' : ∀ t', t' ≠ t → ¬ s.Withdrawing t' d := fun t' hne hw => hquiet t' (hwithdrawing hne hw)
    rw [finished]
    dsimp only [at']
    by_cases hdd : d = dev
    · subst hdd
      rw [Function.update_self, Function.update_self]
      exact coherent_finished h hd hquiet'
    · rw [Function.update_of_ne hdd, Function.update_of_ne hdd]
      refine h.coherent d fun t' hw => ?_
      by_cases ht : t' = t
      · subst ht
        obtain ⟨c', r', got', hd', -⟩ := hw
        rw [hd] at hd'
        injection hd' with hdev
        exact hdd hdev.symm
      · exact hquiet' t' ht hw
  · intro t' d c' r' got' hd' hc'
    obtain ⟨hne, hbefore⟩ := hanswered hd'
    have hdd : d ≠ dev := by
      rintro rfl
      exact hne (h.alone t' t d ⟨c', r', got', hbefore, hc'⟩ ⟨_, _, _, _, hd⟩).symm
    rw [finished]
    dsimp only [at']
    rw [Function.update_of_ne hdd]
    exact h.withdrawn t' d c' r' got' hbefore hc'
  · intro t' d c' r' got' hd'
    exact h.failed t' d c' r' got' (hanswered hd').2
  · intro t' d f a ran' got' hd'
    exact h.asked t' d f a ran' got' (hanswered hd').2
  · intro t' hbusy
    have hne : t' ≠ t := by
      rintro rfl
      exact hbusy hself
    rw [hother hne] at hbusy
    exact h.current t' hbusy

end Finish

/-- **Each step keeps the invariant.** -/
theorem kept_step {a : PrimaryAction} (h : Kept s) (hex : s.Exclusive a) (hstep : s.step a = some s') : Kept s' := by
  cases a with
  | start t dev c =>
      rw [step] at hstep
      split at hstep
      · cases hstep
        exact kept_start h ‹_›
      · cases hstep
  | lookup t =>
      rw [step] at hstep
      split at hstep
      · rename_i dev f a hcalled
        split at hstep
        · rename_i hlicensed
          cases hstep
          exact kept_answered h hcalled hlicensed (hex dev f a hcalled hlicensed)
        · cases hstep
          exact kept_missed h hcalled
      · cases hstep
  | serve t o =>
      rw [step] at hstep
      split at hstep
      · cases hstep
      · rename_i dev c _ hcalled
        split at hstep
        · rename_i hpossible
          cases hstep
          obtain ⟨hnone, halone, hreset⟩ := hex dev c (.inl hcalled)
          exact kept_serve h (.inl hcalled) hpossible hnone halone hreset
        · cases hstep
      · rename_i dev f a hasking
        split at hstep
        · rename_i hpossible
          cases hstep
          have hdue : s.Due t dev (.getState f a) := .inr ⟨f, a, hasking, rfl⟩
          obtain ⟨hnone, halone, hreset⟩ := hex dev _ hdue
          exact kept_serve h hdue hpossible hnone halone hreset
        · cases hstep
      · cases hstep
  | finish t =>
      rw [step] at hstep
      split at hstep
      · rename_i dev c ran r got hd
        cases hstep
        exact kept_finished h hd
      · cases hstep

/-- **Answers from the record** are the state of the context on the server at a moment of the call, where no change of the
context is overlapped by another call on the device. -/
theorem answers_current (as : List PrimaryAction) (s : PrimaryCaching) (hex : Along step Exclusive {} as)
    (hrun : run step {} as = some s) : ∀ a ∈ s.answers, a.Right :=
  Kept.right (Always.of_step kept_init (fun _ _ _ h hex hstep => kept_step h hex hstep) as s hex hrun)

/-- A call that withdraws is pending. -/
theorem Withdrawing.pending {t dev : ℕ} (h : s.Withdrawing t dev) : s.Pending t dev :=
  let ⟨c, r, got, hd, _⟩ := h
  ⟨c, true, r, got, hd⟩

/-- A thread retains the context of device 0, and asks whether it is active. -/
def retainedAndAsked : List PrimaryAction :=
  [.start 1 0 .retain, .serve 1 ⟨true, .success, {}⟩, .finish 1, .start 1 0 (.getState false true), .lookup 1]

/-- A context is retained and asked about, and the record answers that it is active. -/
theorem answers_current_retained : ∃ s, run step {} retainedAndAsked = some s ∧
    s.answers.map (fun a => (a.flags, a.active)) = [(none, some true)] ∧ ∀ a ∈ s.answers, a.Right := by
  obtain ⟨s, hs, hanswers⟩ : ∃ s, run step {} retainedAndAsked = some s ∧
      s.answers.map (fun a => (a.flags, a.active)) = [(none, some true)] := ⟨_, rfl, rfl⟩
  -- the other threads are idle, and this one is not between a server step and the record
  have hquiet : ∀ (u : PrimaryCaching) (d : Calling), u.doing 1 = d → (∀ dev c ran r got, d ≠ .answered dev c ran r got) →
      (∀ t, t ≠ 1 → u.doing t = .idle) → ∀ t dev, ¬ u.Pending t dev := by
    rintro u d hd hnot hidle t dev ⟨c, ran, r, got, hp⟩
    by_cases ht : t = 1
    · subst ht
      exact hnot _ _ _ _ _ (hd.symm.trans hp)
    · rw [hidle t ht] at hp
      cases hp
  refine ⟨s, hs, hanswers, answers_current retainedAndAsked s ?_ hs⟩
  refine ⟨trivial, ?_, trivial, trivial, ?_, trivial⟩
  · intro dev c hdue
    have hidle : ∀ (f : ℕ → Calling) d t, t ≠ 1 → Function.update f 1 d t = f t :=
      fun f d t ht => Function.update_of_ne ht d f
    refine ⟨fun t' hw => ?_, fun _ _ t' hp => ?_, fun _ _ => by decide⟩
    · exact hquiet _ (.called 0 .retain) rfl nofun (hidle (fun _ => .idle) _) t' dev hw.pending
    · exact hquiet _ (.called 0 .retain) rfl nofun (hidle (fun _ => .idle) _) t' dev hp
  · intro dev f a hcalled hlicensed t' hw
    have hidle : ∀ (f : ℕ → Calling) d₁ d₂ d₃ d₄ t, t ≠ 1 →
        Function.update (Function.update (Function.update (Function.update f 1 d₁) 1 d₂) 1 d₃) 1 d₄ t = f t := by
      intro f d₁ d₂ d₃ d₄ t ht
      rw [Function.update_of_ne ht, Function.update_of_ne ht, Function.update_of_ne ht, Function.update_of_ne ht]
    exact hquiet _ (.called 0 (.getState false true)) rfl nofun (hidle (fun _ => .idle) _ _ _ _) t' dev hw.pending

/-- A thread releases the context that another has retained; before the release is recorded, the second asks whether the
context is active, and is told that it is. -/
theorem released_context_active : ∃ s a, run step {} ([.start 1 0 .retain, .serve 1 ⟨true, .success, {}⟩, .finish 1,
      .start 2 0 .release, .serve 2 ⟨true, .success, {}⟩, .start 1 0 (.getState false true), .lookup 1]) = some s ∧
    s.answers = [a] ∧ a.active = some true ∧ a.seen = [s.server] ∧ (s.server 0).active = false ∧ ¬ a.Right := by
  obtain ⟨s, a, hs, hanswers, hactive, hseen, hserver, hdev⟩ : ∃ s a,
      run step {} ([.start 1 0 .retain, .serve 1 ⟨true, .success, {}⟩, .finish 1, .start 2 0 .release,
        .serve 2 ⟨true, .success, {}⟩, .start 1 0 (.getState false true), .lookup 1]) = some s ∧ s.answers = [a] ∧
      a.active = some true ∧ a.seen = [s.server] ∧ (s.server 0).active = false ∧ a.dev = 0 :=
    ⟨_, _, rfl, rfl, rfl, rfl, rfl, rfl⟩
  refine ⟨s, a, hs, hanswers, hactive, hseen, hserver, ?_⟩
  rintro ⟨server, hmem, -, hright⟩
  rw [hseen, List.mem_singleton] at hmem
  have hwrong := hright true hactive
  rw [hmem, hdev, hserver] at hwrong
  cases hwrong

end PrimaryCaching

end Rgpu
