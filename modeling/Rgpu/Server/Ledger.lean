import Rgpu.Server.Serve

/-! # What is held for whom

The part of the table of client threads that the emulation of contexts leaves alone: which threads
have a slot, live or retired, and what failure each slot holds. A request changes it only where its
thread is given a slot, where threads are announced gone, and where it is completed.

* **`ClientThreads.ledger`** — that part of a table.
* **`Serving.ledger_execute`** — running a request leaves the ledger as it was when the request had its
  thread's slot. -/

namespace Rgpu

open Foundations

/-- What a slot holds for its thread: a failure, and which one it is. -/
def ClientThread.account (t : ClientThread) : CUresult × ℕ := (t.pendingAsync, t.failure)

/-- The threads that have a slot, with the failures held for them, and what became of the others. -/
structure Ledger where
  /-- The threads in the live table. -/
  live : List (ThreadId × CUresult × ℕ)
  /-- The threads in the retired set. -/
  retired : List (ThreadId × CUresult × ℕ)
  heldFailures : ℕ
  unreportedFailures : ℕ
  history : List FailureEvent

namespace ClientThreads

/-- The ledger of a table. -/
def ledger (ts : ClientThreads) : Ledger where
  live := AssocList.mapValues ClientThread.account ts.live
  retired := AssocList.mapValues ClientThread.account ts.retired
  heldFailures := ts.heldFailures
  unreportedFailures := ts.unreportedFailures
  history := ts.history

variable {ts ts' : ClientThreads} {id : ThreadId}

/-- The ledger has the live threads. -/
theorem keys_live (ts : ClientThreads) : AssocList.keys ts.ledger.live = AssocList.keys ts.live :=
  AssocList.keys_mapValues _ _

/-- The ledger has the retired threads. -/
theorem keys_retired (ts : ClientThreads) :
    AssocList.keys ts.ledger.retired = AssocList.keys ts.retired :=
  AssocList.keys_mapValues _ _

/-- The ledger has the account of each live thread. -/
theorem lookup_live (ts : ClientThreads) (id : ThreadId) :
    ts.ledger.live.lookup id = (ts.live.lookup id).map ClientThread.account :=
  AssocList.lookup_mapValues id _ _

/-- A change of a slot that leaves its failure leaves the ledger. -/
theorem ledger_modifySlot {f : ClientThread → ClientThread} (hf : ∀ t, (f t).account = t.account) :
    (ts.modifySlot id f).ledger = ts.ledger := by
  unfold ledger modifySlot
  rw [AssocList.mapValues_adjust_same hf]

end ClientThreads

namespace Serving

variable {ι : Type} {limits : Limits} {s : Serving} {id : ThreadId} {refusal : Option CUerror}

/-- What is applied on the driver is no part of the accounts. -/
@[simp] theorem ledger_setApplied (s : Serving) (c : SavedContext) :
    (s.setApplied c).threads.ledger = s.threads.ledger := rfl

/-- Reading back the driver's context touches no account. -/
@[simp] theorem ledger_readBack (s : Serving) : s.readBack.threads.ledger = s.threads.ledger := by
  unfold readBack
  split <;> rfl

/-- A new stack is not in the ledger. -/
@[simp] theorem ledger_setStack (s : Serving) (id : ThreadId) (g : ClientThread → List SavedContext) :
    (s.modifySlot id fun t => t.setStack (g t)).threads.ledger = s.threads.ledger :=
  ClientThreads.ledger_modifySlot fun _ => rfl

/-- Popping contexts touches no account. -/
theorem ledger_clearLoop (n : ℕ) (s : Serving) (r : CUresult) :
    (clearLoop n s r).1.threads.ledger = s.threads.ledger := by
  induction n generalizing s r with
  | zero => rfl
  | succ n ih =>
      unfold clearLoop
      dsimp only
      split
      · rfl
      · split
        · exact ih _ _
        · rfl

/-- Clearing the driver's stack touches no account. -/
@[simp] theorem ledger_clear (s : Serving) : s.clear.1.threads.ledger = s.threads.ledger := by
  have hloop := ledger_clearLoop 8 s .success
  unfold clear
  dsimp only
  split <;> exact hloop

/-- Showing a thread's context to the driver touches no account. -/
@[simp] theorem ledger_showContext (s : Serving) (id : ThreadId) :
    (s.showContext id).1.threads.ledger = s.threads.ledger := by
  unfold showContext
  split
  · exact ledger_clear s
  · rename_i top rest _
    split
    · exact ledger_clear s
    · split
      · rfl
      · dsimp only
        split
        · rfl
        · rw [ledger_clear, ledger_readBack]
          exact ClientThreads.ledger_modifySlot fun _ => rfl

/-- Showing its capture mode touches no account. -/
@[simp] theorem ledger_showCaptureMode (s : Serving) (id : ThreadId) (refusal : Option CUerror) :
    (s.showCaptureMode id refusal).1.threads.ledger = s.threads.ledger := by
  unfold showCaptureMode
  dsimp only
  split
  · rfl
  · split <;> rfl

/-- Showing a thread's state to the driver touches no account. -/
@[simp] theorem ledger_clientThreadShow (s : Serving) (id : ThreadId) (refusal : Option CUerror) :
    (s.clientThreadShow id refusal).1.threads.ledger = s.threads.ledger := by
  unfold clientThreadShow
  dsimp only
  split
  · rw [ledger_showCaptureMode, ledger_showContext]
  · exact ledger_showContext s id

/-- A destroyed context is swept out of a slot without touching its account. -/
theorem sweepOne_account (ctx : CUcontext) (t : ClientThread) :
    (sweepOne ctx t).account = t.account := by
  unfold sweepOne
  split <;> rfl

/-- Popping it does not touch the account either. -/
theorem popDestroyed_account (ctx : CUcontext) (t : ClientThread) :
    (popDestroyed ctx t).account = t.account := by
  unfold popDestroyed
  split
  · rfl
  · split <;> rfl

/-- A sweep of all slots leaves the ledger as it is. -/
@[simp] theorem ledger_sweep (s : Serving) (ctx : CUcontext) :
    (s.sweep ctx).threads.ledger = s.threads.ledger := by
  unfold sweep ClientThreads.ledger
  dsimp only
  rw [AssocList.mapValues_mapValues (sweepOne_account ctx),
    AssocList.mapValues_mapValues (sweepOne_account ctx)]

/-- Setting the current context moves no failure. -/
@[simp] theorem ledger_wCuCtxSetCurrent (s : Serving) (id : ThreadId) (ctx : CUcontext)
    (refusal : Option CUerror) :
    (s.wCuCtxSetCurrent id ctx refusal).1.threads.ledger = s.threads.ledger := by
  unfold wCuCtxSetCurrent
  dsimp only
  split
  · split
    · rfl
    · rw [ledger_clientThreadShow, ledger_setStack]
  · split
    · rw [ledger_setApplied, ledger_setStack]
    · rw [ledger_readBack]

/-- Pushing a context moves no failure. -/
@[simp] theorem ledger_wCuCtxPushCurrent (limits : Limits) (s : Serving) (id : ThreadId)
    (ctx : CUcontext) : (s.wCuCtxPushCurrent limits id ctx).1.threads.ledger = s.threads.ledger := by
  unfold wCuCtxPushCurrent
  split
  · rfl
  · split
    · dsimp only
      split
      · rw [ledger_setApplied, ledger_setStack]
      · rw [ledger_readBack]
    · rfl

/-- Popping a context moves no failure. -/
@[simp] theorem ledger_wCuCtxPopCurrent (s : Serving) (id : ThreadId) (refusal : Option CUerror) :
    (s.wCuCtxPopCurrent id refusal).1.threads.ledger = s.threads.ledger := by
  unfold wCuCtxPopCurrent
  split
  · rw [ledger_readBack]
  · rw [ledger_clientThreadShow, ledger_setStack]

/-- Exchanging the capture mode moves no failure. -/
@[simp] theorem ledger_exchangeCaptureMode (s : Serving) (id : ThreadId) (wanted : CaptureMode)
    (refusal : Option CUerror) :
    (s.exchangeCaptureMode id wanted refusal).1.threads.ledger = s.threads.ledger := by
  unfold exchangeCaptureMode
  dsimp only
  split
  · exact ClientThreads.ledger_modifySlot fun _ => rfl
  · rfl

/-- Entering a context that was made moves no failure. -/
@[simp] theorem ledger_clientThreadsCreated (s : Serving) (id : ThreadId) (ctx : CUcontext) :
    (s.clientThreadsCreated id ctx).threads.ledger = s.threads.ledger := by
  unfold clientThreadsCreated
  split
  · rfl
  · rw [ledger_readBack, ledger_setApplied, ledger_setStack]
    split <;> rfl

/-- Taking out a context that was destroyed moves no failure. -/
@[simp] theorem ledger_clientThreadsDestroyed (s : Serving) (id : ThreadId) (ctx : CUcontext)
    (refusal : Option CUerror) :
    (s.clientThreadsDestroyed id ctx refusal).threads.ledger = s.threads.ledger := by
  have hswept : ((s.modifySlot id (popDestroyed ctx)).sweep ctx).threads.ledger =
      s.threads.ledger := by
    rw [ledger_sweep]
    exact ClientThreads.ledger_modifySlot (popDestroyed_account ctx)
  unfold clientThreadsDestroyed
  split
  · rfl
  · rw [ledger_clientThreadShow]
    split
    · dsimp only
      split
      · rw [ledger_clear, ledger_readBack, hswept]
      · rw [ledger_readBack, hswept]
    · exact hswept

/-- Making a context moves no failure. -/
@[simp] theorem ledger_wCuCtxCreate (limits : Limits) (s : Serving) (id : ThreadId)
    (answer : Except CUerror CUcontext) :
    (s.wCuCtxCreate limits id answer).1.threads.ledger = s.threads.ledger := by
  unfold wCuCtxCreate
  split
  · dsimp only
    split
    · rw [ledger_clientThreadsCreated]
    · rfl
  · rfl

/-- Destroying a context moves no failure. -/
@[simp] theorem ledger_wCuCtxDestroy (s : Serving) (id : ThreadId) (ctx : CUcontext)
    (refusal inner : Option CUerror) :
    (s.wCuCtxDestroy id ctx refusal inner).1.threads.ledger = s.threads.ledger := by
  unfold wCuCtxDestroy
  dsimp only
  split
  · rw [ledger_clientThreadsDestroyed]
  · rfl

/-- No call changes the ledger. -/
@[simp] theorem ledger_call (limits : Limits) (s : Serving) (id : ThreadId) (a : Answers ι) (c : Call) :
    (s.call limits id a c).1.threads.ledger = s.threads.ledger := by
  cases c <;> unfold call <;> dsimp only
  case other api => split <;> split <;> rfl
  all_goals split
  all_goals first
    | rfl
    | simp only [ledger_wCuCtxSetCurrent, ledger_wCuCtxPushCurrent, ledger_wCuCtxPopCurrent,
        ledger_wCuCtxDestroy, ledger_exchangeCaptureMode]
    | (split <;> simp only [ledger_wCuCtxCreate])

/-- Adopting the driver's context touches no account. -/
@[simp] theorem ledger_adoptCurrent (s : Serving) (id : ThreadId) :
    (s.adoptCurrent id).threads.ledger = s.threads.ledger := by
  unfold adoptCurrent
  split
  · rfl
  · split <;> rw [ledger_setApplied, ledger_setStack]

/-- What precedes a call touches no account. -/
@[simp] theorem ledger_prepare (s : Serving) (id : ThreadId) (refusal : Option CUerror) :
    (s.prepare id refusal).1.threads.ledger = s.threads.ledger := by
  unfold prepare
  split
  · rfl
  · exact ledger_clientThreadShow s id refusal

/-- A call that is not a notice of threads that are gone leaves the ledger of the slots it was
given. -/
theorem ledger_of_ran {f : Frame} {a : Answers ι} {ts : ClientThreads} {s' u : Serving} {r : CUresult}
    {payload : Payload}
    (hshown : ({ s with threads := ts } : Serving).prepare id refusal = (s', .success))
    (hcall : s'.call limits id a f.call = (u, r, payload)) : u.threads.ledger = ts.ledger := by
  have hshow := ledger_prepare { s with threads := ts } id refusal
  have hran := ledger_call limits s' id a f.call
  rw [hshown] at hshow
  rw [hcall] at hran
  exact hran.trans hshow

/-- A call that ran has left its thread its slot, and what is held there. -/
theorem slot_of_ran {f : Frame} {a : Answers ι} {ts : ClientThreads} {s' u : Serving} {r : CUresult}
    {payload : Payload} {t : ClientThread} (hlive : ts.live.lookup f.threadId = some t)
    (hshown : ({ s with threads := ts } : Serving).prepare id refusal = (s', .success))
    (hcall : s'.call limits id a f.call = (u, r, payload)) :
    ∃ t', (u.adoptCurrent f.threadId).threads.live.lookup f.threadId = some t' ∧
      t'.pendingAsync = t.pendingAsync := by
  have hledger : (u.adoptCurrent f.threadId).threads.ledger = ts.ledger := by
    rw [ledger_adoptCurrent]
    exact ledger_of_ran hshown hcall
  have haccount := congrArg (fun g : Ledger => g.live.lookup f.threadId) hledger
  simp only [ClientThreads.lookup_live, hlive, Option.map_some] at haccount
  obtain ⟨t', ht', haccount⟩ := Option.map_eq_some_iff.mp haccount
  exact ⟨t', ht', congrArg Prod.fst haccount⟩

/-- Running a request leaves the ledger as it was when the request had its thread's slot. -/
theorem Executes.ledger {f : Frame} {a : Answers ι} {s' : Serving} {o : Outcome}
    (h : Executes limits s f a s' o) :
    (o.hasSlot = true ∧ ∃ ts, s.Slotted limits f ts ∧ s'.threads.ledger = ts.ledger) ∨
      o.hasSlot = false ∧ (s' = s ∨ ∃ ids, f.call = .threadGone ids ∧
        s'.threads = ids.foldl ClientThreads.retireThread s.threads) := by
  cases h with
  | refused _ => exact Or.inr ⟨rfl, Or.inl rfl⟩
  | notice _ hcall => exact Or.inr ⟨rfl, Or.inr ⟨_, hcall, rfl⟩⟩
  | @unshown ts s' r hslot hshown _ =>
      refine Or.inl ⟨rfl, ts, hslot, ?_⟩
      have hshow := ledger_prepare { s with threads := ts } f.threadId a.showRefusal
      rwa [hshown] at hshow
  | @ran ts s' u r payload hslot hshown hcall _ =>
      refine Or.inl ⟨rfl, ts, hslot, ?_⟩
      rw [ledger_adoptCurrent]
      exact ledger_of_ran hshown hcall
  | @ranShort ts s' u r payload hslot hshown hcall _ _ =>
      refine Or.inl ⟨rfl, ts, hslot, ?_⟩
      rw [ledger_adoptCurrent]
      exact ledger_of_ran hshown hcall

end Serving

end Rgpu
