import Rgpu.Foundations.StepSystem
import Rgpu.Server.ClientThreads

/-! # Threads that exit (`client/rpc.cpp`)

A thread that exits puts its id on a list, under a lock of its own. The next frame that any other thread queues is
queued behind a notice of the ids on the list, so that the server can forget them. A thread can call after it was
retired, from the destructors of its thread-local variables; it is never named ahead of its own frame, and is put on
the list again behind it.

* **`Process.step`** — what the threads do, one section of a lock at a time.
* **`Fresh`** — the counter of thread ids has not come round.
* **`Announced`** — a notice of an id follows the last frame of its thread.
* **`Next`** — what is queued from a point on names an id ahead of the first frame of another thread.
* **`Sound`** — the invariant.
* **`retirement_notices`** — every thread that exited is announced, or will be. -/

namespace Rgpu.Retirement

open Foundations

/-! ### The source -/

/-- The variables of a thread. -/
structure Local where
  /-- `t_thread_id`: 0 until the thread first calls. -/
  id : ThreadId := 0
  /-- `t_retired` -/
  retired : Bool := false

/-- A frame in the queue: a call, or an `rgpu_thread_gone` ahead of one. -/
inductive Queued
  | call (issuer : ThreadId)
  | notice (issuer : ThreadId) (gone : List ThreadId)
  deriving DecidableEq

namespace Queued

/-- The thread that a frame says it is of. -/
def issuer : Queued → ThreadId
  | call issuer => issuer
  | notice issuer _ => issuer

/-- The threads that a frame names. -/
def gone : Queued → List ThreadId
  | call _ => []
  | notice _ gone => gone

end Queued

/-- Where the thread that holds `g_mu` is. -/
inductive Pc
  /-- It is connecting, or about to enter `queue_frame_locked`. -/
  | locked
  /-- It has seen `g_have_retired` set. -/
  | reporting
  /-- It has taken these ids off the list, and goes on to queue a notice of them. -/
  | took (gone : List ThreadId)
  /-- It goes on to queue its own frame. -/
  | reported
  /-- Its frame is queued, and it looks whether it is retired. -/
  | queued
  /-- It has left `queue_frame_locked`. -/
  | done
  deriving DecidableEq

namespace Pc

/-- The thread has looked at the list, and not queued its frame yet. -/
def passed : Pc → Bool
  | took _ | reported => true
  | _ => false

/-- An id is in the notice that is about to be queued; or it is the thread's own, until it is listed again. -/
def Hands (id : ThreadId) (own : Prop) : Pc → Prop
  | took gone => id ∈ gone
  | reported | queued => own
  | _ => False

end Pc

/-- The client process, as far as its threads go. -/
structure Process where
  /-- `g_next_thread` -/
  nextThread : UInt32 := 1
  threads : ℕ → Local := fun _ => {}
  /-- `g_retired` -/
  retired : List ThreadId := []
  /-- `g_have_retired` -/
  haveRetired : Bool := false
  /-- The thread that holds `g_mu`. -/
  holder : Option (ℕ × Pc) := none
  /-- All that was queued, in order. -/
  queue : List Queued := []

/-- What can happen. -/
inductive Action
  /-- One turn of the loop of `mint_thread_id`. -/
  | mint (t : ℕ)
  /-- The thread exits. -/
  | exit (t : ℕ)
  /-- `call` and `call_async` take `g_mu`. -/
  | lock (t : ℕ)
  /-- The server cannot be reached, and the call fails. -/
  | fail
  /-- The thread that holds `g_mu` goes on, up to the end of a section of `g_retired_mu` at most. -/
  | advance
  deriving DecidableEq

namespace Process

/-- An id of 0 is none, and the loop goes round. -/
def mint (s : Process) (t : ℕ) : Process :=
  { s with
    nextThread := s.nextThread + 1
    threads := Function.update s.threads t { id := s.nextThread } }

/-- `~ThreadRetirer` -/
def exit (s : Process) (t : ℕ) : Process :=
  { s with
    threads := Function.update s.threads t { s.threads t with retired := true }
    retired := s.retired ++ [(s.threads t).id]
    haveRetired := true }

/-- The thread goes on, in its section of `g_mu`. -/
def goOn (s : Process) (t : ℕ) (pc : Pc) : Process := { s with holder := some (t, pc) }

/-- What is left of the list once it was taken: the id of the thread that took it, if it was there. -/
def kept (s : Process) (t : ℕ) : List ThreadId :=
  if (s.threads t).id ∈ s.retired then [(s.threads t).id] else []

/-- The ids are swapped out, under `g_retired_mu`. -/
def take (s : Process) (t : ℕ) : Process :=
  { s with
    -- a thread that is still calling is not announced ahead of its call
    retired := s.kept t
    haveRetired := !(s.kept t).isEmpty
    holder := some (t, .took (s.retired.erase (s.threads t).id)) }

/-- The notice is queued, if there is anything in it. -/
def notify (s : Process) (t : ℕ) (gone : List ThreadId) : Process :=
  { s with
    queue := s.queue ++ if gone = [] then [] else [.notice (s.threads t).id gone]
    holder := some (t, .reported) }

/-- The frame of the call is queued. -/
def enqueue (s : Process) (t : ℕ) : Process :=
  { s with
    queue := s.queue ++ [.call (s.threads t).id]
    holder := some (t, .queued) }

/-- A thread that is retired already lists itself, under `g_retired_mu`. -/
def relist (s : Process) (t : ℕ) : Process :=
  { s with
    -- it is there already, unless it was announced before this call
    retired := if (s.threads t).id ∈ s.retired then s.retired else s.retired ++ [(s.threads t).id]
    haveRetired := true
    holder := some (t, .done) }

/-- `g_mu` is let go of. -/
def release (s : Process) : Process := { s with holder := none }

/-- `queue_frame_locked`, piece by piece. -/
def advance (s : Process) (t : ℕ) : Pc → Process
  | .locked => s.goOn t (if s.haveRetired then .reporting else .reported)
  | .reporting => s.take t
  | .took gone => s.notify t gone
  | .reported => s.enqueue t
  | .queued => if (s.threads t).retired then s.relist t else s.release
  | .done => s.release

def step (s : Process) : Action → Option Process
  | .mint t => if (s.threads t).id = 0 then some (s.mint t) else none
  -- a thread that never got an id has nothing to give back, and none exits inside a call
  | .exit t =>
      if (s.threads t).id ≠ 0 ∧ (s.threads t).retired = false ∧ s.holder.map Prod.fst ≠ some t then some (s.exit t)
      else none
  | .lock t => if s.holder = none ∧ (s.threads t).id ≠ 0 then some (s.goOn t .locked) else none
  | .fail => if s.holder.map Prod.snd = some .locked then some s.release else none
  | .advance => s.holder.map fun h => s.advance h.1 h.2

/-- The counter has not come round. -/
def Fresh (s : Process) : Action → Prop
  | .mint _ => s.nextThread ≠ 0
  | _ => True

instance Fresh.decidable (s : Process) : ∀ a, Decidable (Fresh s a)
  | .mint _ => inferInstanceAs (Decidable (s.nextThread ≠ 0))
  | .exit _ | .lock _ | .fail | .advance => .isTrue trivial

/-- What a step can do. -/
inductive Step (s : Process) : Action → Process → Prop
  | mint {t} (hnew : (s.threads t).id = 0) : Step s (.mint t) (s.mint t)
  | exit {t} (hid : (s.threads t).id ≠ 0) (hlive : (s.threads t).retired = false)
      (hout : ∀ pc, s.holder ≠ some (t, pc)) : Step s (.exit t) (s.exit t)
  | lock {t} (hfree : s.holder = none) (hid : (s.threads t).id ≠ 0) : Step s (.lock t) (s.goOn t .locked)
  | look {t a} (hpc : s.holder = some (t, .locked)) :
      Step s a (s.goOn t (if s.haveRetired then .reporting else .reported))
  | take {t a} (hpc : s.holder = some (t, .reporting)) : Step s a (s.take t)
  | notify {t a gone} (hpc : s.holder = some (t, .took gone)) : Step s a (s.notify t gone)
  | enqueue {t a} (hpc : s.holder = some (t, .reported)) : Step s a (s.enqueue t)
  | relist {t a} (hpc : s.holder = some (t, .queued)) (hlate : (s.threads t).retired = true) : Step s a (s.relist t)
  | release {t a pc} (hpc : s.holder = some (t, pc))
      (hend : pc = .locked ∨ pc = .done ∨ pc = .queued ∧ (s.threads t).retired = false) : Step s a s.release

/-- The step of the thread that holds `g_mu`, by where it is. -/
theorem Step.of_advance {s : Process} {t : ℕ} {pc : Pc} (hpc : s.holder = some (t, pc)) :
    Step s .advance (s.advance t pc) := by
  cases pc with
  | locked => exact .look hpc
  | reporting => exact .take hpc
  | took gone => exact .notify hpc
  | reported => exact .enqueue hpc
  | queued =>
      rw [advance]
      split
      · rename_i hlate
        exact .relist hpc hlate
      · rename_i hlive
        exact .release hpc (.inr (.inr ⟨rfl, Bool.eq_false_iff.mpr hlive⟩))
  | done => exact .release hpc (.inr (.inl rfl))

/-- A step of the process, by the action. -/
theorem Step.of_step {s s' : Process} {a : Action} (h : s.step a = some s') : Step s a s' := by
  cases a with
  | mint t =>
      obtain ⟨hnew, h⟩ := Option.ite_none_right_eq_some.mp h
      cases h
      exact .mint hnew
  | exit t =>
      obtain ⟨⟨hid, hlive, hout⟩, h⟩ := Option.ite_none_right_eq_some.mp h
      cases h
      exact .exit hid hlive fun pc hpc => hout (by rw [hpc, Option.map_some])
  | lock t =>
      obtain ⟨⟨hfree, hid⟩, h⟩ := Option.ite_none_right_eq_some.mp h
      cases h
      exact .lock hfree hid
  | fail =>
      obtain ⟨hpc, h⟩ := Option.ite_none_right_eq_some.mp h
      cases h
      obtain ⟨⟨t, pc⟩, hpc, rfl⟩ := Option.map_eq_some_iff.mp hpc
      exact .release hpc (.inl rfl)
  | advance =>
      obtain ⟨⟨t, pc⟩, hpc, rfl⟩ := Option.map_eq_some_iff.mp h
      exact .of_advance hpc

/-- The thread that holds `g_mu` has the id in hand: it took it for the notice that it goes on to queue, or it is the
thread itself, which was retired before and puts its id on the list again before it lets go of the lock. -/
def InHand (s : Process) (t : ℕ) : Prop := ∃ u pc, s.holder = some (u, pc) ∧ pc.Hands (s.threads t).id (u = t)

/-- Whose ids are in hand is read off where the holder of `g_mu` is. -/
theorem inHand_iff {s : Process} {t u : ℕ} {pc : Pc} (hpc : s.holder = some (u, pc)) :
    s.InHand t ↔ pc.Hands (s.threads t).id (u = t) := by
  constructor
  · rintro ⟨u', pc', hpc', hhands⟩
    rw [hpc] at hpc'
    cases hpc'
    exact hhands
  · exact fun hhands => ⟨u, pc, hpc, hhands⟩

/-- Another thread is past its look at the list, and its frame is not queued yet. -/
def Passing (s : Process) (x : ThreadId) : Prop :=
  ∃ t pc, s.holder = some (t, pc) ∧ (s.threads t).id ≠ x ∧ pc.passed = true

end Process

/-! ### Notices -/

/-- A notice names the id, and no frame behind it is of that thread. -/
def Announced (queue : List Queued) (x : ThreadId) : Prop :=
  ∃ front f back, queue = front ++ f :: back ∧ x ∈ f.gone ∧ ∀ g ∈ back, g.issuer ≠ x

/-- A frame of another thread leaves what was announced announced. -/
theorem Announced.concat {queue : List Queued} {x : ThreadId} {f : Queued} (h : Announced queue x)
    (hissuer : f.issuer ≠ x) : Announced (queue ++ [f]) x := by
  obtain ⟨front, g, back, rfl, hnamed, hback⟩ := h
  refine ⟨front, g, back ++ [f], ?_, hnamed, ?_⟩
  · rw [List.append_assoc, List.cons_append]
  · rw [List.forall_mem_append, List.forall_mem_singleton]
    exact ⟨hback, hissuer⟩

/-- A notice announces the threads it names. -/
theorem announced_concat {queue : List Queued} {x : ThreadId} {f : Queued} (hnamed : x ∈ f.gone) :
    Announced (queue ++ [f]) x :=
  ⟨queue, f, [], rfl, hnamed, List.forall_mem_nil _⟩

/-- A notice of another thread, or none, leaves what was announced announced. -/
theorem Announced.notice {queue : List Queued} {x issuer : ThreadId} {gone : List ThreadId} (h : Announced queue x)
    (hissuer : issuer ≠ x) :
    Announced (queue ++ if gone = [] then [] else [.notice issuer gone]) x := by
  by_cases hgone : gone = []
  · rwa [if_pos hgone, List.append_nil]
  · rw [if_neg hgone]
    exact h.concat hissuer

/-! ### The invariant -/

namespace Process

/-- Ids are told apart, the list is in order, and no thread that exited is lost. -/
structure Sound (s : Process) : Prop where
  below : ∀ t, s.nextThread = 0 ∨ (s.threads t).id < s.nextThread
  distinct : ∀ t u, (s.threads t).id ≠ 0 → (s.threads t).id = (s.threads u).id → t = u
  minted : ∀ t, (s.threads t).retired = true → (s.threads t).id ≠ 0
  calls : ∀ t pc, s.holder = some (t, pc) → (s.threads t).id ≠ 0
  nodup : s.retired.Nodup
  flag : s.retired ≠ [] → s.haveRetired = true
  listed : ∀ x ∈ s.retired, ∃ t, (s.threads t).id = x ∧ (s.threads t).retired = true
  hand : ∀ t gone, s.holder = some (t, .took gone) → (s.threads t).id ∉ gone
  quiet : ∀ f ∈ s.queue, f.issuer ∉ f.gone
  told : ∀ t, (s.threads t).retired = true →
    Announced s.queue (s.threads t).id ∨ (s.threads t).id ∈ s.retired ∨ s.InHand t

/-- Nothing is retired in a process that has just begun. -/
theorem sound_start : Sound {} where
  below := fun _ => .inr (show (0 : UInt32) < 1 by decide)
  distinct := fun _ _ h => absurd rfl h
  minted := fun _ h => Bool.noConfusion h
  calls := fun _ _ h => by cases h
  nodup := .nil
  flag := fun h => absurd rfl h
  listed := List.forall_mem_nil _
  hand := fun _ _ h => by cases h
  quiet := List.forall_mem_nil _
  told := fun _ h => Bool.noConfusion h

/-- What is not past a number is below the next one, unless the numbers come round. -/
theorem lt_succ_of_le {x n : UInt32} (h : x ≤ n) : n + 1 = 0 ∨ x < n + 1 := by
  have hle := UInt32.le_iff_toNat_le.mp h
  have hlt := n.toNat_lt
  rw [UInt32.lt_iff_toNat_lt, ← UInt32.toNat_inj, UInt32.toNat_add]
  simp only [UInt32.reduceToNat]
  omega

namespace Sound

variable {s : Process} {t : ℕ}

/-- A thread takes an id that no other has, before the counter comes round. -/
theorem mint (h : s.Sound) (hnew : (s.threads t).id = 0) (hfresh : s.nextThread ≠ 0) : (s.mint t).Sound := by
  have hself : (s.mint t).threads t = { id := s.nextThread } := Function.update_self ..
  have hother : ∀ u, u ≠ t → (s.mint t).threads u = s.threads u := fun u hu => Function.update_of_ne hu _ _
  have hbelow : ∀ u, (s.threads u).id < s.nextThread := fun u => (h.below u).resolve_left hfresh
  -- the thread has neither exited nor is it in a call
  have hlive : ∀ u, ((s.mint t).threads u).retired = true → u ≠ t := by
    rintro u hu rfl
    rw [hself] at hu
    cases hu
  have hthreads : ∀ u, (s.threads u).id ≠ 0 → (s.mint t).threads u = s.threads u := by
    intro u hu
    apply hother
    rintro rfl
    exact hu hnew
  constructor
  case below =>
    intro u
    by_cases hu : u = t
    · rw [hu, hself]
      exact lt_succ_of_le UInt32.le_rfl
    · rw [hother u hu]
      exact lt_succ_of_le (UInt32.le_of_lt (hbelow u))
  case distinct =>
    intro u v hid heq
    by_cases hu : u = t <;> by_cases hv : v = t
    · rw [hu, hv]
    · rw [hu, hself, hother v hv] at heq
      exact absurd (heq ▸ hbelow v) (UInt32.lt_irrefl _)
    · rw [hv, hself, hother u hu] at heq
      exact absurd (heq ▸ hbelow u) (UInt32.lt_irrefl _)
    · rw [hother u hu] at hid heq
      rw [hother v hv] at heq
      exact h.distinct u v hid heq
  case minted =>
    intro u hu
    have hne := hlive u hu
    rw [hother u hne] at hu ⊢
    exact h.minted u hu
  case calls =>
    intro u pc hpc
    rw [hthreads u (h.calls u pc hpc)]
    exact h.calls u pc hpc
  case nodup => exact h.nodup
  case flag => exact h.flag
  case listed =>
    intro x hx
    obtain ⟨u, hid, hretired⟩ := h.listed x hx
    exact ⟨u, by rw [hthreads u (h.minted u hretired)]; exact ⟨hid, hretired⟩⟩
  case hand =>
    intro u gone hpc
    rw [hthreads u (h.calls u _ hpc)]
    exact h.hand u gone hpc
  case quiet => exact h.quiet
  case told =>
    intro u hu
    have hne := hlive u hu
    rw [InHand, hother u hne]
    rw [hother u hne] at hu
    exact h.told u hu

/-- A thread that ends is listed. -/
theorem exit (h : s.Sound) (hid : (s.threads t).id ≠ 0) (hlive : (s.threads t).retired = false) :
    (s.exit t).Sound := by
  have hself : (s.exit t).threads t = { s.threads t with retired := true } := Function.update_self ..
  have hother : ∀ u, u ≠ t → (s.exit t).threads u = s.threads u := fun u hu => Function.update_of_ne hu _ _
  have hids : ∀ u, ((s.exit t).threads u).id = (s.threads u).id := by
    intro u
    by_cases hu : u = t
    · rw [hu, hself]
    · rw [hother u hu]
  -- what is on the list is of threads that exited before
  have hnew : (s.threads t).id ∉ s.retired := by
    intro hmem
    obtain ⟨u, hu, hretired⟩ := h.listed _ hmem
    rw [h.distinct t u hid hu.symm, hretired] at hlive
    cases hlive
  constructor
  case below =>
    intro u
    rw [hids]
    exact h.below u
  case distinct =>
    intro u v
    rw [hids, hids]
    exact h.distinct u v
  case minted =>
    intro u hu
    rw [hids]
    by_cases hut : u = t
    · rwa [hut]
    · rw [hother u hut] at hu
      exact h.minted u hu
  case calls =>
    intro u pc hpc
    rw [hids]
    exact h.calls u pc hpc
  case nodup =>
    refine List.nodup_append.mpr ⟨h.nodup, List.nodup_singleton _, fun x hx y hy heq => ?_⟩
    rw [List.mem_singleton] at hy
    exact hnew (hy ▸ heq ▸ hx)
  case flag => exact fun _ => rfl
  case listed =>
    refine List.forall_mem_append.mpr ⟨fun x hx => ?_, List.forall_mem_singleton.mpr ⟨t, hids t, by rw [hself]⟩⟩
    obtain ⟨u, hu, hretired⟩ := h.listed x hx
    refine ⟨u, (hids u).trans hu, ?_⟩
    rwa [hother u fun hut => hnew (hut ▸ hu ▸ hx)]
  case hand =>
    intro u gone hpc
    rw [hids]
    exact h.hand u gone hpc
  case quiet => exact h.quiet
  case told =>
    intro u hu
    rw [InHand, hids]
    by_cases hut : u = t
    · rw [hut]
      exact .inr (.inl (List.mem_append_right _ List.mem_cons_self))
    · rw [hother u hut] at hu
      exact (h.told u hu).imp_right fun hold => hold.imp_left (List.mem_append_left _)

/-- In a section of `g_mu` that has nothing in hand. -/
theorem goOn (h : s.Sound) {pc : Pc} (hid : (s.threads t).id ≠ 0) (hpc : ∀ gone, pc ≠ .took gone)
    (hhand : ∀ u, s.InHand u → (s.goOn t pc).InHand u) : (s.goOn t pc).Sound :=
  { h with
    calls := by
      rintro u _ ⟨⟩
      exact hid
    hand := by
      rintro u gone heq
      cases heq
      exact absurd rfl (hpc gone)
    told := fun u hu => (h.told u hu).imp_right fun hold => hold.imp_right (hhand u) }

/-- A thread takes `g_mu`, with nothing in hand. -/
theorem lock (h : s.Sound) (hfree : s.holder = none) (hid : (s.threads t).id ≠ 0) : (s.goOn t .locked).Sound := by
  apply h.goOn hid
  · rintro gone ⟨⟩
  · rintro u ⟨v, pc, hpc, -⟩
    rw [hfree] at hpc
    cases hpc

/-- It looks at `g_have_retired`, and finds it set only if something is listed. -/
theorem look (h : s.Sound) (hpc : s.holder = some (t, .locked)) :
    (s.goOn t (if s.haveRetired then .reporting else .reported)).Sound := by
  apply h.goOn (h.calls t _ hpc)
  · intro gone
    split <;> rintro ⟨⟩
  · exact fun u hhand => ((inHand_iff hpc).mp hhand).elim

/-- The one id that is kept back is the thread's own. -/
theorem mem_kept {x : ThreadId} : x ∈ s.kept t ↔ x = (s.threads t).id ∧ (s.threads t).id ∈ s.retired := by
  rw [kept]
  split
  · rename_i hmem
    rw [List.mem_singleton, and_iff_left hmem]
  · rename_i hmem
    exact iff_of_false List.not_mem_nil fun hx => hmem hx.2

/-- The ids it takes off the list are in its hand, its own excepted. -/
theorem take (h : s.Sound) (hpc : s.holder = some (t, .reporting)) : (s.take t).Sound := by
  constructor
  case below => exact h.below
  case distinct => exact h.distinct
  case minted => exact h.minted
  case calls =>
    rintro u _ ⟨⟩
    exact h.calls t _ hpc
  case nodup =>
    show (s.kept t).Nodup
    rw [kept]
    split
    · exact List.nodup_singleton _
    · exact .nil
  case flag =>
    intro hne
    show (!(s.kept t).isEmpty) = true
    rw [Bool.not_eq_true', List.isEmpty_eq_false_iff]
    exact hne
  case listed =>
    -- what is left was there
    intro x hx
    obtain ⟨rfl, hmem⟩ := mem_kept.mp hx
    exact h.listed _ hmem
  case hand =>
    rintro u _ ⟨⟩
    exact h.nodup.not_mem_erase
  case quiet => exact h.quiet
  case told =>
    intro u hu
    rcases h.told u hu with hold | hmem | hhand
    · exact .inl hold
    · -- its own id stays listed, and every other one is taken
      by_cases hid : (s.threads u).id = (s.threads t).id
      · exact .inr (.inl (mem_kept.mpr ⟨hid, hid ▸ hmem⟩))
      · exact .inr (.inr ⟨t, _, rfl, (List.mem_erase_of_ne hid).mpr hmem⟩)
    · exact ((inHand_iff hpc).mp hhand).elim

/-- The notice is queued, and announces what was in hand. -/
theorem notify (h : s.Sound) {gone : List ThreadId} (hpc : s.holder = some (t, .took gone)) :
    (s.notify t gone).Sound := by
  constructor
  case below => exact h.below
  case distinct => exact h.distinct
  case minted => exact h.minted
  case calls =>
    rintro u _ ⟨⟩
    exact h.calls t _ hpc
  case nodup => exact h.nodup
  case flag => exact h.flag
  case listed => exact h.listed
  case hand => rintro u _ ⟨⟩
  case quiet =>
    refine List.forall_mem_append.mpr ⟨h.quiet, ?_⟩
    split
    · exact List.forall_mem_nil _
    · exact List.forall_mem_singleton.mpr (h.hand t gone hpc)
  case told =>
    intro u hu
    -- the thread itself is to be listed again, whatever was said of it
    by_cases hut : t = u
    · exact .inr (.inr ⟨t, _, rfl, hut⟩)
    have hid : (s.threads t).id ≠ (s.threads u).id := fun hid => hut (h.distinct u t (h.minted u hu) hid.symm).symm
    rcases h.told u hu with hold | hmem | hhand
    · exact .inl (hold.notice hid)
    · exact .inr (.inl hmem)
    · -- what was in hand is in the notice
      have hmem : (s.threads u).id ∈ gone := (inHand_iff hpc).mp hhand
      refine .inl ?_
      show Announced (s.queue ++ _) _
      rw [if_neg (List.ne_nil_of_mem hmem)]
      exact announced_concat hmem

/-- The thread's own frame is queued, after which it is not announced itself. -/
theorem enqueue (h : s.Sound) (hpc : s.holder = some (t, .reported)) : (s.enqueue t).Sound := by
  constructor
  case below => exact h.below
  case distinct => exact h.distinct
  case minted => exact h.minted
  case calls =>
    rintro u _ ⟨⟩
    exact h.calls t _ hpc
  case nodup => exact h.nodup
  case flag => exact h.flag
  case listed => exact h.listed
  case hand => rintro u _ ⟨⟩
  case quiet => exact List.forall_mem_append.mpr ⟨h.quiet, List.forall_mem_singleton.mpr List.not_mem_nil⟩
  case told =>
    intro u hu
    by_cases hut : t = u
    · exact .inr (.inr ⟨t, _, rfl, hut⟩)
    have hid : (s.threads t).id ≠ (s.threads u).id := fun hid => hut (h.distinct u t (h.minted u hu) hid.symm).symm
    rcases h.told u hu with hold | hmem | hhand
    · exact .inl (hold.concat hid)
    · exact .inr (.inl hmem)
    · exact absurd ((inHand_iff hpc).mp hhand) hut

/-- A late thread lists itself again. -/
theorem relist (h : s.Sound) (hpc : s.holder = some (t, .queued)) (hlate : (s.threads t).retired = true) :
    (s.relist t).Sound := by
  have hlisted : ∀ x, x ∈ (s.relist t).retired ↔ x ∈ s.retired ∨ x = (s.threads t).id := by
    intro x
    show x ∈ (if _ then _ else _) ↔ _
    split
    · rename_i hmem
      exact (or_iff_left_of_imp fun hx => hx ▸ hmem).symm
    · rw [List.mem_append, List.mem_singleton]
  constructor
  case below => exact h.below
  case distinct => exact h.distinct
  case minted => exact h.minted
  case calls =>
    rintro u _ ⟨⟩
    exact h.calls t _ hpc
  case nodup =>
    show (if _ then _ else _ : List ThreadId).Nodup
    split
    · exact h.nodup
    · rename_i hmem
      rw [← List.concat_eq_append]
      exact h.nodup.concat hmem
  case flag => exact fun _ => rfl
  case listed =>
    intro x hx
    rcases (hlisted x).mp hx with hx | rfl
    · exact h.listed x hx
    · exact ⟨t, rfl, hlate⟩
  case hand => rintro u _ ⟨⟩
  case quiet => exact h.quiet
  case told =>
    intro u hu
    rcases h.told u hu with hold | hmem | hhand
    · exact .inl hold
    · exact .inr (.inl ((hlisted _).mpr (.inl hmem)))
    · have hut : t = u := (inHand_iff hpc).mp hhand
      subst hut
      exact .inr (.inl ((hlisted _).mpr (.inr rfl)))

/-- It lets go of `g_mu` with nothing in hand. -/
theorem release (h : s.Sound) {pc : Pc} (hpc : s.holder = some (t, pc))
    (hend : pc = .locked ∨ pc = .done ∨ pc = .queued ∧ (s.threads t).retired = false) : s.release.Sound :=
  { h with
    calls := by rintro u _ ⟨⟩
    hand := by rintro u _ ⟨⟩
    told := by
      intro u hu
      refine (h.told u hu).imp_right fun hold => hold.imp_right fun hhand => ?_
      have hhands := (inHand_iff hpc).mp hhand
      rcases hend with rfl | rfl | ⟨rfl, hlive⟩
      · exact hhands.elim
      · exact hhands.elim
      · -- a thread that is not retired has nothing to list
        have hut : t = u := hhands
        rw [hut, show (s.threads u).retired = true from hu] at hlive
        cases hlive }

/-- **Every step keeps it, before the counter comes round.** -/
theorem step {s' : Process} {a : Action} (h : s.Sound) (hfresh : Fresh s a) (hstep : Step s a s') : s'.Sound := by
  cases hstep with
  | mint hnew => exact h.mint hnew hfresh
  | exit hid hlive _ => exact h.exit hid hlive
  | lock hfree hid => exact h.lock hfree hid
  | look hpc => exact h.look hpc
  | take hpc => exact h.take hpc
  | notify hpc => exact h.notify hpc
  | enqueue hpc => exact h.enqueue hpc
  | relist hpc hlate => exact h.relist hpc hlate
  | release hpc hend => exact h.release hpc hend

end Sound

/-- It holds in every state of a run in which the counter does not come round. -/
theorem always_sound {s : Process} (h : s.Sound) : Always step Fresh s Sound :=
  .of_step h fun _ _ _ hs hfresh hstep => hs.step hfresh (.of_step hstep)

end Process

/-! ### What comes next -/

/-- The first frame that is not of the thread itself is a notice that names it, and behind it that of the thread that
queued the notice. -/
inductive Next (x : ThreadId) : List Queued → Prop
  | own {own} (hown : ∀ f ∈ own, f.issuer = x) : Next x own
  | noticed {own issuer gone} (hown : ∀ f ∈ own, f.issuer = x) (hgone : x ∈ gone) :
      Next x (own ++ [.notice issuer gone])
  | sent {own issuer gone rest} (hown : ∀ f ∈ own, f.issuer = x) (hgone : x ∈ gone) :
      Next x (own ++ .notice issuer gone :: .call issuer :: rest)

/-- A call that is first is of the thread itself. -/
theorem Next.issuer_eq {x y : ThreadId} {rest : List Queued} (h : Next x (.call y :: rest)) : y = x := by
  have hhead : ∀ {own back : List Queued} {issuer gone}, (∀ f ∈ own, f.issuer = x) →
      Queued.call y :: rest = own ++ .notice issuer gone :: back → y = x := by
    intro own back issuer gone hown heq
    cases own with
    | nil => cases heq
    | cons f own =>
        cases heq
        exact hown _ List.mem_cons_self
  generalize hl : Queued.call y :: rest = l at h
  cases h with
  | own hown =>
      subst hl
      exact hown _ List.mem_cons_self
  | noticed hown _ => exact hhead hown hl
  | sent hown _ => exact hhead hown hl

namespace Process

/-- How far an id is that was on the list, of what was queued since. -/
inductive Due (s : Process) (x : ThreadId) : List Queued → Prop
  | listed {own} (hown : ∀ f ∈ own, f.issuer = x) (hlisted : x ∈ s.retired) (hfree : ¬ s.Passing x) : Due s x own
  | taken {own t gone} (hown : ∀ f ∈ own, f.issuer = x) (hpc : s.holder = some (t, .took gone)) (hgone : x ∈ gone) :
      Due s x own
  | noticed {own t gone} (hown : ∀ f ∈ own, f.issuer = x) (hgone : x ∈ gone)
      (hpc : s.holder = some (t, .reported)) : Due s x (own ++ [.notice (s.threads t).id gone])
  | sent {own issuer gone rest} (hown : ∀ f ∈ own, f.issuer = x) (hgone : x ∈ gone) :
      Due s x (own ++ .notice issuer gone :: .call issuer :: rest)

/-- Where a frame of another thread has been queued, the first one is a notice that names the id,
directly ahead of that thread's frame. -/
theorem Due.next {s : Process} {x : ThreadId} {new : List Queued} (h : s.Due x new) : Next x new := by
  cases h with
  | listed hown _ _ => exact .own hown
  | taken hown _ _ => exact .own hown
  | noticed hown hgone _ => exact .noticed hown hgone
  | sent hown hgone => exact .sent hown hgone

/-- A step adds to the end of the queue. -/
theorem Step.appends {s s' : Process} {a : Action} (h : Step s a s') : ∃ more, s'.queue = s.queue ++ more := by
  cases h with
  | notify _ => exact ⟨_, rfl⟩
  | enqueue _ => exact ⟨_, rfl⟩
  | _ => exact ⟨[], (List.append_nil _).symm⟩

/-- The id of a thread that is in a call stays. -/
theorem Step.keeps_id {s s' : Process} {a : Action} {t : ℕ} (h : Step s a s')
    (hid : (s.threads t).id ≠ 0) : (s'.threads t).id = (s.threads t).id := by
  cases h with
  | @mint u hnew =>
      have hne : t ≠ u := by
        rintro rfl
        exact hid hnew
      rw [show (s.mint u).threads t = s.threads t from Function.update_of_ne hne _ _]
  | @exit u _ _ _ =>
      show (Function.update s.threads u _ t).id = _
      rw [Function.update_apply]
      split
      · rename_i hu
        rw [hu]
      · rfl
  | _ => rfl

/-- A thread whose frame was queued, or that has not looked yet, is not passing. -/
theorem not_passing {s : Process} {x : ThreadId} {t : ℕ} {pc : Pc} (hpc : s.holder = some (t, pc))
    (hpassed : pc.passed = false) : ¬ s.Passing x := by
  rintro ⟨u, pc', hpc', -, hlate⟩
  rw [hpc] at hpc'
  cases hpc'
  rw [hpassed] at hlate
  cases hlate

/-- The thread itself passes nothing by. -/
theorem not_passing_self {s : Process} {x : ThreadId} {t : ℕ} {pc : Pc} (hpc : s.holder = some (t, pc))
    (hx : (s.threads t).id = x) : ¬ s.Passing x := by
  rintro ⟨u, pc', hpc', hne, -⟩
  rw [hpc] at hpc'
  cases hpc'
  exact hne hx

/-- While no other thread is past its look, what is queued is the thread's own, and the id stays on the list or is
taken for a notice. -/
theorem Sound.due_listed {s s' : Process} {a : Action} {x : ThreadId} {own : List Queued} (hs : s.Sound)
    (h : Step s a s') (hown : ∀ f ∈ own, f.issuer = x) (hlisted : x ∈ s.retired) (hfree : ¬ s.Passing x) :
    ∃ more, s'.queue = s.queue ++ more ∧ s'.Due x (own ++ more) := by
  have hsend : ∀ more, s'.queue = s.queue ++ more → (∀ f ∈ more, f.issuer = x) → x ∈ s'.retired → ¬ s'.Passing x →
      ∃ more, s'.queue = s.queue ++ more ∧ s'.Due x (own ++ more) := fun more hq hmore hmem hpass =>
    ⟨more, hq, .listed (List.forall_mem_append.mpr ⟨hown, hmore⟩) hmem hpass⟩
  have hquiet : s'.queue = s.queue → x ∈ s'.retired → ¬ s'.Passing x →
      ∃ more, s'.queue = s.queue ++ more ∧ s'.Due x (own ++ more) := fun hq =>
    hsend [] (by rw [hq, List.append_nil]) (List.forall_mem_nil _)
  -- who holds `g_mu`, and its id, is the same after a step of another thread
  have hkept : s'.holder = s.holder → ¬ s'.Passing x := by
    rintro hholder ⟨u, pc, hpc, hne, hlate⟩
    rw [hholder] at hpc
    rw [h.keeps_id (hs.calls u pc hpc)] at hne
    exact hfree ⟨u, pc, hpc, hne, hlate⟩
  -- a thread that is past its look is the thread itself
  have hself : ∀ {t pc}, s.holder = some (t, pc) → pc.passed = true → (s.threads t).id = x := by
    intro t pc hpc hlate
    by_contra hne
    exact hfree ⟨t, pc, hpc, hne, hlate⟩
  cases h with
  | mint _ => exact hquiet rfl hlisted (hkept rfl)
  | exit _ _ _ => exact hquiet rfl (List.mem_append_left _ hlisted) (hkept rfl)
  | lock _ _ => exact hquiet rfl hlisted (not_passing rfl rfl)
  | look _ =>
      rw [hs.flag (List.ne_nil_of_mem hlisted), if_pos rfl] at hsend hquiet hkept ⊢
      exact hquiet rfl hlisted (not_passing rfl rfl)
  | @take t _ _ =>
      by_cases hx : x = (s.threads t).id
      · exact hquiet rfl (Sound.mem_kept.mpr ⟨hx, hx ▸ hlisted⟩) (not_passing_self rfl hx.symm)
      · refine ⟨[], (List.append_nil _).symm, ?_⟩
        rw [List.append_nil]
        exact .taken hown rfl ((List.mem_erase_of_ne hx).mpr hlisted)
  | @notify t _ gone hpc =>
      have hx := hself hpc rfl
      refine hsend _ rfl ?_ hlisted (not_passing_self rfl hx)
      split
      · exact List.forall_mem_nil _
      · exact List.forall_mem_singleton.mpr hx
  | enqueue hpc =>
      exact hsend _ rfl (List.forall_mem_singleton.mpr (hself hpc rfl)) hlisted
        (not_passing rfl rfl)
  | relist _ _ =>
      refine hquiet rfl ?_ (not_passing rfl rfl)
      show x ∈ (if _ then _ else _ : List ThreadId)
      split
      · exact hlisted
      · exact List.mem_append_left _ hlisted
  | release _ _ => exact hquiet rfl hlisted (by rintro ⟨u, _, ⟨⟩, -⟩)

/-- An id that was taken stays so until the notice is queued. -/
theorem Sound.due_taken {s s' : Process} {a : Action} {x : ThreadId} {own : List Queued} {t : ℕ}
    {gone : List ThreadId} (h : Step s a s') (hown : ∀ f ∈ own, f.issuer = x)
    (hpc : s.holder = some (t, .took gone)) (hgone : x ∈ gone) :
    ∃ more, s'.queue = s.queue ++ more ∧ s'.Due x (own ++ more) := by
  cases h with
  | mint _ => exact ⟨[], (List.append_nil _).symm, by rw [List.append_nil]; exact .taken hown hpc hgone⟩
  | exit _ _ _ => exact ⟨[], (List.append_nil _).symm, by rw [List.append_nil]; exact .taken hown hpc hgone⟩
  | lock hfree _ =>
      rw [hpc] at hfree
      cases hfree
  | notify hpc' =>
      rw [hpc] at hpc'
      cases hpc'
      refine ⟨_, rfl, ?_⟩
      rw [if_neg (List.ne_nil_of_mem hgone)]
      exact .noticed hown hgone rfl
  | release hpc' hend =>
      rw [hpc] at hpc'
      cases hpc'
      rcases hend with hend | hend | ⟨hend, -⟩ <;> cases hend
  | look hpc' | take hpc' | enqueue hpc' | relist hpc' =>
      rw [hpc] at hpc'
      cases hpc'

/-- Behind the notice comes the frame of the thread that queued it. -/
theorem Sound.due_noticed {s s' : Process} {a : Action} {x : ThreadId} {own : List Queued} {t : ℕ}
    {gone : List ThreadId} (hs : s.Sound) (h : Step s a s') (hown : ∀ f ∈ own, f.issuer = x) (hgone : x ∈ gone)
    (hpc : s.holder = some (t, .reported)) :
    ∃ more, s'.queue = s.queue ++ more ∧ s'.Due x (own ++ [.notice (s.threads t).id gone] ++ more) := by
  have hid := h.keeps_id (hs.calls t _ hpc)
  cases h with
  | mint _ | exit _ _ _ =>
      refine ⟨[], (List.append_nil _).symm, ?_⟩
      rw [List.append_nil, ← hid]
      exact .noticed hown hgone hpc
  | lock hfree _ =>
      rw [hpc] at hfree
      cases hfree
  | enqueue hpc' =>
      rw [hpc] at hpc'
      cases hpc'
      refine ⟨_, rfl, ?_⟩
      rw [List.append_assoc]
      exact .sent hown hgone
  | release hpc' hend =>
      rw [hpc] at hpc'
      cases hpc'
      rcases hend with hend | hend | ⟨hend, -⟩ <;> cases hend
  | look hpc' | take hpc' | notify hpc' | relist hpc' =>
      rw [hpc] at hpc'
      cases hpc'

/-- What is due stays due over a step, with what the step queues. -/
theorem Sound.due {s s' : Process} {a : Action} {x : ThreadId} {new : List Queued} (hs : s.Sound) (h : Step s a s')
    (hdue : s.Due x new) : ∃ more, s'.queue = s.queue ++ more ∧ s'.Due x (new ++ more) := by
  cases hdue with
  | listed hown hlisted hfree => exact hs.due_listed h hown hlisted hfree
  | taken hown hpc hgone => exact Sound.due_taken h hown hpc hgone
  | noticed hown hgone hpc => exact hs.due_noticed h hown hgone hpc
  | @sent own issuer gone rest hown hgone =>
      obtain ⟨more, hmore⟩ := h.appends
      refine ⟨more, hmore, ?_⟩
      rw [List.append_assoc, List.cons_append, List.cons_append]
      exact .sent hown hgone

/-- An id on the list is announced with the next frame of another thread. -/
theorem Sound.next {s : Process} {x : ThreadId} (hs : s.Sound) (hlisted : x ∈ s.retired) (hfree : ¬ s.Passing x) :
    Always Process.step Fresh s fun s' => ∃ new, s'.queue = s.queue ++ new ∧ Next x new := by
  have hdue : Always Process.step Fresh s fun s' => ∃ new, s'.queue = s.queue ++ new ∧ s'.Due x new := by
    refine .of_step_under (always_sound hs) ?_ ?_
    · exact ⟨[], (List.append_nil _).symm, .listed (List.forall_mem_nil _) hlisted hfree⟩
    · rintro u a u' hu - ⟨new, hqueue, hnew⟩ - hstep
      obtain ⟨more, hmore, hnext⟩ := hu.due (.of_step hstep) hnew
      exact ⟨new ++ more, by rw [hmore, hqueue, List.append_assoc], hnext⟩
  exact hdue.imp fun s' ⟨new, hqueue, hnew⟩ => ⟨new, hqueue, hnew.next⟩

/-- **Every thread that exited is announced, or will be.** While the counter of ids has not come round: a notice never
names the thread that queues it; no id is on the list twice; a thread that exited has a notice behind its last frame,
or is on the list with the flag set, or the thread that holds `g_mu` has its id in hand; and an id on the list is
announced with the next frame of another thread, but for one that had passed its look at the list. -/
theorem retirement_notices (as : List Action) (s : Process) (halong : Along step Fresh {} as)
    (hrun : run step {} as = some s) :
    (∀ f ∈ s.queue, f.issuer ∉ f.gone) ∧ s.retired.Nodup ∧
    (∀ t, (s.threads t).retired = true → Announced s.queue (s.threads t).id ∨
      ((s.threads t).id ∈ s.retired ∧ s.haveRetired = true) ∨ s.InHand t) ∧
    ∀ x ∈ s.retired, ¬ s.Passing x → ∀ bs s', Along step Fresh s bs → run step s bs = some s' →
      ∃ new, s'.queue = s.queue ++ new ∧ Next x new := by
  have hs : s.Sound := always_sound sound_start as s halong hrun
  refine ⟨hs.quiet, hs.nodup, fun t ht => ?_, fun x hx hfree bs s' => hs.next hx hfree bs s'⟩
  exact (hs.told t ht).imp_right fun hold => hold.imp_left fun hmem => ⟨hmem, hs.flag (List.ne_nil_of_mem hmem)⟩

/-- A thread exits and is announced, and calls once more. -/
def lateCall : List Action :=
  [.mint 0, .mint 1, .exit 1, .lock 0] ++ List.replicate 5 .advance ++ [.lock 1] ++ List.replicate 4 .advance

/-- The next call of another thread. -/
def nextCall : List Action := .lock 0 :: List.replicate 4 .advance

/-- A thread that has ended calls once more; it is listed again, and the next call of another thread
announces it. -/
theorem retirement_lateCall : ∃ s s' new, run step {} lateCall = some s ∧ (s.threads 1).retired = true ∧
    (Announced s.queue 2 ∨ (2 ∈ s.retired ∧ s.haveRetired = true) ∨ s.InHand 1) ∧
    run step s nextCall = some s' ∧ s'.queue = s.queue ++ new ∧ Next 2 new := by
  have hboth : ((run step {} lateCall).bind fun s => run step s nextCall).isSome = true := rfl
  have hlate : (run step {} lateCall).map (fun s => (s.holder, s.retired, (s.threads 1).id, (s.threads 1).retired)) =
      some (none, [2], 2, true) := rfl
  obtain ⟨s', hboth⟩ := Option.isSome_iff_exists.mp hboth
  obtain ⟨s, hrun, hthen⟩ := Option.bind_eq_some_iff.mp hboth
  rw [hrun, Option.map_some, Option.some.injEq] at hlate
  obtain ⟨hholder, hlisted, hid, hretired⟩ : s.holder = none ∧ s.retired = [2] ∧ (s.threads 1).id = 2 ∧
      (s.threads 1).retired = true := by simpa only [Prod.mk.injEq] using hlate
  obtain ⟨-, -, htold, hnext⟩ := retirement_notices lateCall s (by decide) hrun
  have hfree : ¬ s.Passing 2 := by
    rintro ⟨u, pc, hpc, -⟩
    rw [hholder] at hpc
    cases hpc
  have halong : Along step Fresh {} (lateCall ++ nextCall) := by decide
  obtain ⟨new, hqueue, hnew⟩ :=
    hnext 2 (hlisted ▸ List.mem_cons_self) hfree nextCall s' (along_append hrun halong).2 hthen
  have hlast := htold 1 hretired
  rw [hid] at hlast
  exact ⟨s, s', new, hrun, hretired, hlast, hthen, hqueue, hnew⟩

/-! ### The counter comes round -/

/-- After `n` threads have called for the first time, and nothing else happened. -/
structure Minted (n : ℕ) (s : Process) : Prop where
  next : s.nextThread = UInt32.ofNat (n + 1)
  threads : ∀ t, s.threads t = if t < n then { id := UInt32.ofNat (t + 1) } else {}
  retired : s.retired = []
  holder : s.holder = none

/-- As many threads as one likes take an id each. -/
theorem minted (n : ℕ) : ∃ s, run step {} ((List.range n).map .mint) = some s ∧ Minted n s := by
  induction n with
  | zero => exact ⟨{}, rfl, rfl, fun t => (if_neg (Nat.not_lt_zero t)).symm, rfl, rfl⟩
  | succ n ih =>
      obtain ⟨s, hrun, hs⟩ := ih
      have hnew : s.threads n = {} := by rw [hs.threads, if_neg (Nat.lt_irrefl n)]
      have hstep : s.step (.mint n) = some (s.mint n) := by rw [step, hnew, if_pos rfl]
      refine ⟨s.mint n, ?_, ?_, fun t => ?_, hs.retired, hs.holder⟩
      · rw [List.range_succ, List.map_append, List.map_singleton]
        exact run_concat hrun hstep
      · show s.nextThread + 1 = _
        rw [hs.next, ← UInt32.ofNat_one, ← UInt32.ofNat_add]
      · show Function.update s.threads n { id := s.nextThread } t = _
        by_cases ht : t = n
        · rw [ht, Function.update_self, hs.next, if_pos (Nat.lt_succ_self n)]
        · rw [Function.update_of_ne ht, hs.threads]
          simp only [Nat.lt_succ_iff_lt_or_eq, ht, or_false]

/-- Two threads of one id exit, and one of them calls once more. -/
theorem run_shared {s : Process} {t u : ℕ} {x : ThreadId} (hne : t ≠ u) (hx : x ≠ 0) (ht : s.threads t = { id := x })
    (hu : s.threads u = { id := x }) (hretired : s.retired = []) (hholder : s.holder = none) :
    ∃ s₂ s₆, run step s [.exit t, .exit u] = some s₂ ∧ s₂.retired = [x, x] ∧
      run step s₂ [.lock t, .advance, .advance, .advance] = some s₆ ∧ .notice x [x] ∈ s₆.queue := by
  have hu' : (s.exit t).threads u = { id := x } := (Function.update_of_ne hne.symm _ _).trans hu
  have hfirst : s.step (.exit t) = some (s.exit t) := by
    rw [step, ht, hholder]
    exact if_pos ⟨hx, rfl, by rintro ⟨⟩⟩
  have hsecond : (s.exit t).step (.exit u) = some ((s.exit t).exit u) := by
    rw [step, hu', show (s.exit t).holder = none from hholder]
    exact if_pos ⟨hx, rfl, by rintro ⟨⟩⟩
  have hlisted : ((s.exit t).exit u).retired = [x, x] := by
    show s.retired ++ [(s.threads t).id] ++ [((s.exit t).threads u).id] = [x, x]
    rw [hretired, ht, hu']
    rfl
  have hid : (((s.exit t).exit u).threads t).id = x := by
    show (Function.update (Function.update s.threads t _) u _ t).id = x
    rw [Function.update_of_ne hne, Function.update_self, ht]
  have hlock : ((s.exit t).exit u).step (.lock t) = some (((s.exit t).exit u).goOn t .locked) := by
    rw [step, hid]
    exact if_pos ⟨hholder, hx⟩
  refine ⟨(s.exit t).exit u, ((((s.exit t).exit u).goOn t .reporting).take t).notify t
    (((s.exit t).exit u).retired.erase (((s.exit t).exit u).threads t).id), ?_, hlisted, ?_, ?_⟩
  · rw [run_cons, hfirst, Option.bind_some, run_cons, hsecond]
    rfl
  · rw [run_cons, hlock, Option.bind_some]
    rfl
  · -- of the two entries one is left out of the notice
    have hgone : ((s.exit t).exit u).retired.erase (((s.exit t).exit u).threads t).id = [x] := by
      rw [hlisted, hid, List.erase_cons_head]
    show _ ∈ s.queue ++ if ((s.exit t).exit u).retired.erase (((s.exit t).exit u).threads t).id = [] then [] else
      [Queued.notice (((s.exit t).exit u).threads t).id
        (((s.exit t).exit u).retired.erase (((s.exit t).exit u).threads t).id)]
    rw [hgone, hid]
    exact List.mem_append_right _ List.mem_cons_self

/-- Two threads that have the same id, of which one was the first to call and the other the first to call after the
counter had come round. -/
theorem run_around {n : ℕ} (hn : n = 2 ^ 32) : ∃ as s, run step {} as = some s ∧
    s.threads 0 = { id := 1 } ∧ s.threads (n - 1) = { id := 1 } ∧ s.retired = [] ∧ s.holder = none := by
  obtain ⟨s, hrun, hs⟩ := minted n
  have hnext : s.nextThread = 1 := by
    rw [hs.next, hn]
    rfl
  have hlast : s.threads (n - 1) = {} := by
    rw [hs.threads, if_pos (by omega), hn]
    rfl
  have hfirst : s.threads 0 = { id := 1 } := by
    rw [hs.threads, if_pos (by omega)]
    rfl
  have hstep : s.step (.mint (n - 1)) = some (s.mint (n - 1)) := by rw [step, hlast, if_pos rfl]
  refine ⟨_, s.mint (n - 1), run_concat hrun hstep, ?_, ?_, hs.retired, hs.holder⟩
  · exact (Function.update_of_ne (by omega) _ _).trans hfirst
  · show Function.update s.threads (n - 1) { id := s.nextThread } (n - 1) = _
    rw [Function.update_self, hnext]

/-- A thread exits, and another one has taken its id to announce it. -/
def inBetween : List Action := [.mint 0, .mint 1, .exit 1, .lock 0, .advance, .advance]

/-- While a thread has taken the list and has not queued its notice, an ended thread is neither
announced nor listed. -/
theorem run_inBetween : ∃ s, run step {} inBetween = some s ∧ (s.threads 1).retired = true ∧
    ¬ Announced s.queue (s.threads 1).id ∧ (s.threads 1).id ∉ s.retired := by
  have hstate : (run step {} inBetween).map (fun s => (s.queue, s.retired, (s.threads 1).retired)) =
      some ([], [], true) := rfl
  obtain ⟨s, hrun, heq⟩ := Option.map_eq_some_iff.mp hstate
  obtain ⟨hqueue, hempty, hexited⟩ : s.queue = [] ∧ s.retired = [] ∧ (s.threads 1).retired = true := by
    simpa only [Prod.mk.injEq] using heq
  refine ⟨s, hrun, hexited, ?_, by rw [hempty]; exact List.not_mem_nil⟩
  rintro ⟨front, f, back, hsplit, -⟩
  rw [hqueue] at hsplit
  exact absurd hsplit (List.append_ne_nil_of_right_ne_nil _ (List.cons_ne_nil _ _)).symm

/-- A thread exits when another one has looked at the flag, and not queued its frame yet. -/
def passedBy : List Action := [.mint 0, .mint 1, .lock 0, .advance, .exit 1]

/-- A thread that found the list empty queues its frame without a notice, though an id is listed by
then. -/
theorem run_passedBy : ∃ s s', run step {} passedBy = some s ∧ 2 ∈ s.retired ∧ s.haveRetired = true ∧
    run step s [.advance] = some s' ∧ s'.queue = s.queue ++ [.call 1] := by
  have hboth : ((run step {} passedBy).bind fun s => (run step s [.advance]).map fun s' =>
      (s.retired, s.haveRetired, s.queue, s'.queue)) = some ([2], true, [], [.call 1]) := rfl
  obtain ⟨s, hrun, hthen⟩ := Option.bind_eq_some_iff.mp hboth
  obtain ⟨s', hrun', heq⟩ := Option.map_eq_some_iff.mp hthen
  obtain ⟨hlisted, hflag, hqueue, hqueue'⟩ : s.retired = [2] ∧ s.haveRetired = true ∧ s.queue = [] ∧
      s'.queue = [.call 1] := by simpa only [Prod.mk.injEq] using heq
  exact ⟨s, s', hrun, by rw [hlisted]; exact List.mem_cons_self, hflag, hrun', by rw [hqueue, hqueue']; rfl⟩

/-- Where a thread that exited goes wrong: once the counter has come round, an id is listed twice and a notice names
the thread that queues it; while a notice is about to be queued, the ids in it are neither listed nor announced; and
one that is listed when another thread is past its look is not announced with that thread's frame. -/
theorem not_announced :
    (∃ as s, run step {} as = some s ∧ ¬ s.retired.Nodup) ∧
    (∃ as s f, run step {} as = some s ∧ f ∈ s.queue ∧ f.issuer ∈ f.gone) ∧
    (∃ as s t, Along step Fresh {} as ∧ run step {} as = some s ∧ (s.threads t).retired = true ∧
      ¬ Announced s.queue (s.threads t).id ∧ (s.threads t).id ∉ s.retired) ∧
    ∃ as s x bs s' new, Along step Fresh {} (as ++ bs) ∧ run step {} as = some s ∧ x ∈ s.retired ∧
      s.haveRetired = true ∧ run step s bs = some s' ∧ s'.queue = s.queue ++ new ∧ ¬ Next x new := by
  obtain ⟨as, s, hrun, hfirst, hlast, hretired, hholder⟩ := run_around rfl
  obtain ⟨s₂, s₆, hexits, hlisted, hcall, hnotice⟩ :=
    run_shared (by omega) (by decide) hfirst hlast hretired hholder
  have htwo : run step {} (as ++ [.exit 0, .exit (2 ^ 32 - 1)]) = some s₂ := by
    rw [run_append, hrun, Option.bind_some, hexits]
  have hsix : run step {} (as ++ [.exit 0, .exit (2 ^ 32 - 1)] ++ [.lock 0, .advance, .advance, .advance]) =
      some s₆ := by rw [run_append, htwo, Option.bind_some, hcall]
  have htwice : ¬ s₂.retired.Nodup := by
    rw [hlisted]
    exact fun h => (List.nodup_cons.mp h).1 List.mem_cons_self
  obtain ⟨s₁, hbetween⟩ := run_inBetween
  obtain ⟨s₃, s₄, hpassed, hmem, hflag, hsent, hqueue⟩ := run_passedBy
  have hnext : ¬ Next 2 [.call 1] := fun h => absurd h.issuer_eq (by decide)
  exact ⟨⟨_, s₂, htwo, htwice⟩, ⟨_, s₆, _, hsix, hnotice, List.mem_cons_self⟩,
    ⟨inBetween, s₁, 1, by decide, hbetween⟩,
    ⟨passedBy, s₃, 2, [.advance], s₄, _, by decide, hpassed, hmem, hflag, hsent, hqueue, hnext⟩⟩

end Process

end Rgpu.Retirement
