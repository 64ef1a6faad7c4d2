import Rgpu.Server.Mirror

/-! # Held failures and the entry points of libcuda (`shim.cpp`, `codegen/emit.py`)

A failure that had no reply to go into is held for its thread, and the reply of the thread's next call that
succeeded carries it. What the caller is told is then up to the entry point that made the call.

* **`fold`** — what a reply carries, and what stays held; **`ClientThreads.settle_waiting`** — the server does so.
* **`EntryPoint.conduct`** — what an entry point of libcuda asks of the server, and what it returns.
* **`AppThread.enter`** — a thread enters one, with what its process remembers.
* **`AppThread.returned_iff`** — when the entry point that takes a held failure returns it. -/

namespace Rgpu

/-! ### What the server holds -/

/-- The result in the reply to a call that waits, and the failure that is held after it. -/
def fold (api : ApiId) (own held : CUresult) : CUresult × CUresult :=
  if own = .success ∧ held ≠ .success ∧ replyCarriesObservedState api = false then (held, .success) else (own, held)

/-- Folding leaves what is held, or takes it. -/
theorem fold_held (api : ApiId) (own held : CUresult) :
    (fold api own held).2 = held ∨ (fold api own held).2 = .success := by
  rw [fold]
  split
  · exact .inr rfl
  · exact .inl rfl

/-- A failure that is held no longer was put into the reply. -/
theorem fold_taken {api : ApiId} {own held : CUresult} (hheld : held ≠ .success)
    (h : (fold api own held).2 = .success) : (fold api own held).1 = held := by
  rw [fold] at h ⊢
  split
  · rfl
  · rename_i hnot
    rw [if_neg hnot] at h
    exact absurd h hheld

namespace ClientThreads

variable {ts : ClientThreads} {f : Frame} {o : Outcome} {t : ClientThread}

/-- The failure that is held for a thread. -/
def heldFor (ts : ClientThreads) (id : ThreadId) : CUresult :=
  ((ts.find id).map ClientThread.pendingAsync).getD .success

/-- What is held for a thread is what its slot has. -/
theorem heldFor_of_find {id : ThreadId} (hfind : ts.find id = some t) : ts.heldFor id = t.pendingAsync := by
  rw [heldFor, hfind]
  rfl

/-- A request of a thread with a slot is settled there. -/
theorem home_of_find (hfind : ts.find f.threadId = some t) (hid : f.threadId ≠ 0)
    (hslot : o.hasSlot = true → ts.live.lookup f.threadId = some t) (make : Bool) :
    (if o.hasSlot then ts else ts.deferredHome f.threadId make) = ts ∧ ts.home f o = some t := by
  have hdeferred : ts.deferredHome f.threadId make = ts := by
    rw [deferredHome, if_neg hid, hfind]
  rw [hdeferred, ite_self, home]
  refine ⟨rfl, ?_⟩
  by_cases hhas : o.hasSlot = true
  · rw [if_pos hhas]
    exact hslot hhas
  · rw [if_neg hhas, if_neg hid]
    exact hfind

/-- What completing a request that waits makes of the failure held for its thread. -/
theorem settle_waiting (hno : f.noReply = false) (hfind : ts.find f.threadId = some t) (hid : f.threadId ≠ 0)
    (hslot : o.hasSlot = true → ts.live.lookup f.threadId = some t) :
    ((ts.settle f o).2, (ts.settle f o).1.heldFor f.threadId) =
      fold f.call.api o.result (ts.heldFor f.threadId) := by
  obtain ⟨hts, hhome⟩ := home_of_find hfind hid hslot false
  rw [settle, hno, if_neg Bool.false_ne_true]
  dsimp only
  rw [hts, hhome, heldFor_of_find hfind, fold]
  dsimp only
  split
  · -- the reply takes it
    have hdelivered : (ts.deliver f.threadId t f.reqId).find f.threadId =
        some { t with pendingAsync := .success } := by
      show (ts.adjust f.threadId fun t => { t with pendingAsync := .success }).find f.threadId = _
      rw [find_adjust hfind, if_pos rfl]
    rw [heldFor_of_find hdelivered]
  · rw [heldFor_of_find hfind]

end ClientThreads

/-! ### Calls that wait -/

/-- How a call that waits ends for the client. -/
inductive CallFate
  /-- The reply arrives, and may be short of what is read out of it. -/
  | answered (whole : Bool)
  /-- The connection broke and the call was given up; the server may have run it. -/
  | lost (ran : Bool)
  | unconnected
  deriving DecidableEq

/-- A status of cuBLAS, cuBLASLt or cuDNN. -/
inductive LibraryStatus
  | success
  | executionFailed
  | internalError
  | other (status : ℕ)
  deriving DecidableEq

/-- What the server makes of a call by itself, the library's status in the payload of the reply, and how the call
ends. -/
structure Answer where
  own : CUresult := .success
  status : Option LibraryStatus := some .success
  fate : CallFate := .answered true
  deriving DecidableEq

/-- `rgpu::call`: what it returns, and the failure held after it. -/
def Answer.call (a : Answer) (held : CUresult) (api : ApiId) : CUresult × CUresult :=
  match a.fate with
  | .answered _ => fold api a.own held
  | .lost ran => (.unknown, if ran then (fold api a.own held).2 else held)
  | .unconnected => (.notInitialized, held)

/-- What an entry point does: it returns without waiting, or it makes one call that waits and returns what it
makes of the result and of whether the reply was whole. -/
inductive Conduct
  | settled (r : CUresult)
  | asks (api : ApiId) (k : CUresult → Bool → CUresult)

/-- An error is returned as it is; a reply that is short is an error of its own. -/
def report (r : CUresult) (whole : Bool) : CUresult :=
  if r ≠ .success then r else if whole then .success else .unknown

/-! ### Entry points -/

/-- The arguments of a launch: already packed in `extra`, one pointer for each, or none. -/
inductive LaunchArgs
  | extra (known : Bool)
  | kernelParams (all : Bool)
  | none
  deriving DecidableEq

/-- The entry points of libcuda that talk to the server: the generated stubs by their name, and those written by
hand with what their conduct depends on. `queued` is what queueing a call without a reply returned. The helper
`rgpu::device_attributes`, which the runtime calls, is among them; `CUDA_SUCCESS` is its `true`. -/
inductive EntryPoint
  | stub (name : String)
  | stubAsync (name : String) (queued : CUresult)
  | cuMemAlloc_v2 (dptr : Bool)
  | cuMemFree_v2
  | cuPointerGetAttribute (data ours : Bool) (size : ℕ)
  | cuStreamGetCaptureInfo_v2
  | cuGraphGetNodes (nodes numNodes : Bool)
  | cuThreadExchangeStreamCaptureMode (mode : Bool)
  | cuDevicePrimaryCtxRetain (dev : ℕ)
  | cuDevicePrimaryCtxRelease_v2 (dev : ℕ)
  | cuDevicePrimaryCtxReset_v2 (dev : ℕ)
  | cuDevicePrimaryCtxSetFlags_v2 (dev : ℕ)
  | cuStreamSynchronize (queued : Option CUresult)
  | cuDevicePrimaryCtxGetState (dev : ℕ) (flags : Bool)
  | cuDriverGetVersion (driverVersion : Bool)
  | cuLaunchKernel (f : ℕ) (args : LaunchArgs) (queued : CUresult)
  | device_attributes
  deriving DecidableEq

/-- What the process remembers of earlier answers: `g_layouts`, the driver's version, and `g_primary`. -/
structure Remembered where
  layouts : List ℕ := []
  version : Bool := false
  retained : ℕ → ℕ := fun _ => 0
  flagsKnown : ℕ → Bool := fun _ => false

namespace EntryPoint

/-- `launch_common`, past `fetch_layout`. -/
def launch (all : Bool) (queued : CUresult) : CUresult := if all then queued else .invalidValue

/-- `name` numbers the generated calls. -/
def conduct (name : String → ApiId) (m : Remembered) : EntryPoint → Conduct
  | stub n => .asks (name n) report
  | stubAsync _ queued => .settled queued
  | cuMemAlloc_v2 dptr =>
      if dptr then .asks (name "cuMemAlloc_v2") report else .settled .invalidValue
  | cuMemFree_v2 => .asks (name "cuMemFree_v2") fun r _ => r
  | cuPointerGetAttribute data ours size =>
      if data = false then .settled .invalidValue
      else if ours then .settled .success
      else if size = 0 then .settled .invalidValue
      else .asks (name "cuPointerGetAttribute") report
  | cuStreamGetCaptureInfo_v2 => .asks (name "rgpu_capture_info") report
  | cuGraphGetNodes nodes numNodes =>
      if nodes ∧ numNodes = false then .settled .invalidValue else .asks (name "rgpu_graph_nodes") report
  | cuThreadExchangeStreamCaptureMode mode =>
      if mode then .asks Api.rgpu_capture_mode report else .settled .invalidValue
  | cuDevicePrimaryCtxRetain _ => .asks Api.cuDevicePrimaryCtxRetain report
  | cuDevicePrimaryCtxRelease_v2 _ => .asks Api.cuDevicePrimaryCtxRelease_v2 fun r _ => r
  | cuDevicePrimaryCtxReset_v2 _ => .asks (name "cuDevicePrimaryCtxReset_v2") fun r _ => r
  | cuDevicePrimaryCtxSetFlags_v2 _ => .asks (name "cuDevicePrimaryCtxSetFlags_v2") fun r _ => r
  | cuStreamSynchronize (some queued) => .settled queued
  | cuStreamSynchronize Option.none => .asks (name "cuStreamSynchronize") fun r _ => r
  | cuDevicePrimaryCtxGetState dev flags =>
      -- holding a reference means the context is active; the flags still need asking, once
      if 0 < m.retained dev ∧ (flags = false ∨ m.flagsKnown dev) then .settled .success
      else .asks (name "cuDevicePrimaryCtxGetState") report
  | cuDriverGetVersion driverVersion =>
      if driverVersion = false then .settled .invalidValue
      else if m.version then .settled .success
      else .asks (name "rgpu_hello") fun _ _ => .success
  | cuLaunchKernel _ (.extra known) queued => .settled (if known then queued else .invalidValue)
  | cuLaunchKernel _ .none queued => .settled queued
  | cuLaunchKernel f (.kernelParams all) queued =>
      if f ∈ m.layouts then .settled (launch all queued)
      else .asks (name "rgpu_param_layout") fun r whole =>
        -- `fetch_layout` answers yes or no, and `pack_args` after it
        if r ≠ .success ∨ whole = false then .invalidValue else launch all queued
  | device_attributes => .asks (name "rgpu_device_attrs") report

/-- What the process remembers after a call that returned `r`. -/
def learned (m : Remembered) (r : CUresult) (whole : Bool) : EntryPoint → Remembered
  | cuDevicePrimaryCtxRetain dev =>
      if r = .success ∧ whole then
        { m with retained := Function.update m.retained dev (m.retained dev + 1) }
      else m
  | cuDevicePrimaryCtxRelease_v2 dev =>
      { m with
        retained := Function.update m.retained dev (m.retained dev - 1)
        flagsKnown := Function.update m.flagsKnown dev (m.flagsKnown dev && decide (1 < m.retained dev)) }
  | cuDevicePrimaryCtxReset_v2 dev =>
      if r = .notSupported then m
      else
        { m with
          retained := Function.update m.retained dev 0
          flagsKnown := Function.update m.flagsKnown dev false }
  | cuDevicePrimaryCtxSetFlags_v2 dev =>
      { m with flagsKnown := Function.update m.flagsKnown dev (decide (r = .success)) }
  | cuDevicePrimaryCtxGetState dev flags =>
      if r = .success ∧ whole ∧ flags then { m with flagsKnown := Function.update m.flagsKnown dev true } else m
  | cuDriverGetVersion _ => { m with version := true }
  | cuLaunchKernel f _ _ => if r = .success ∧ whole then { m with layouts := f :: m.layouts } else m
  | _ => m

end EntryPoint

/-! ### A thread of the application -/

/-- The failure that the server holds for the thread, and what the process remembers. -/
structure AppThread where
  held : CUresult := .success
  remembered : Remembered := {}

namespace AppThread

variable (name : String → ApiId)

/-- What the entry point returns to the application. -/
def returned (s : AppThread) (e : EntryPoint) (a : Answer) : CUresult :=
  match e.conduct name s.remembered with
  | .settled r => r
  | .asks api k => k (a.call s.held api).1 (a.fate = .answered true)

def enter (s : AppThread) (e : EntryPoint) (a : Answer) : AppThread :=
  match e.conduct name s.remembered with
  | .settled _ => s
  | .asks api _ =>
      { held := (a.call s.held api).2
        remembered := e.learned s.remembered (a.call s.held api).1 (a.fate = .answered true) }

/-- The entry point waits for a reply that takes the held failure: one that may carry it, to a call that succeeded
by itself. -/
def Takes (s : AppThread) (e : EntryPoint) (a : Answer) : Prop :=
  s.held ≠ .success ∧ (s.enter name e a).held = .success

/-- The entry point keeps the failure from its caller: a launch says of every failure of `fetch_layout` that
its arguments are invalid, `cuDriverGetVersion` falls back on the version it was built with, and a call whose reply
was lost is an unknown error. -/
def Swallows (s : AppThread) (e : EntryPoint) (a : Answer) : Prop :=
  match e with
  | .cuLaunchKernel .. => s.held ≠ .invalidValue
  | .cuDriverGetVersion _ => True
  | _ => (∀ whole, a.fate ≠ .answered whole) ∧ s.held ≠ .unknown

variable {name : String → ApiId} {s : AppThread} {e : EntryPoint} {a : Answer}

/-- A call leaves what is held, or takes it. -/
theorem call_held (a : Answer) (held : CUresult) (api : ApiId) :
    (a.call held api).2 = held ∨ (a.call held api).2 = .success := by
  rw [Answer.call]
  split
  · exact fold_held _ _ _
  · dsimp only
    split
    · exact fold_held _ _ _
    · exact .inl rfl
  · exact .inl rfl

/-- An entry point leaves a held failure as it is, or takes it. -/
theorem enter_held (s : AppThread) (e : EntryPoint) (a : Answer) :
    (s.enter name e a).held = s.held ∨ (s.enter name e a).held = .success := by
  rw [enter]
  split
  · exact .inl rfl
  · exact call_held _ _ _

/-- What an entry point that takes the failure got from its call. -/
theorem Takes.call (h : s.Takes name e a) :
    ∃ api k, e.conduct name s.remembered = .asks api k ∧
      s.returned name e a = k (a.call s.held api).1 (a.fate = .answered true) ∧
      ((∃ whole, a.fate = .answered whole) ∧ (a.call s.held api).1 = s.held ∨
        (∀ whole, a.fate ≠ .answered whole) ∧ (a.call s.held api).1 = .unknown) := by
  obtain ⟨hheld, htaken⟩ := h
  rw [enter] at htaken
  split at htaken
  · exact absurd htaken hheld
  · rename_i api k hconduct
    refine ⟨api, k, hconduct, ?_, ?_⟩
    · rw [returned, hconduct]
    · dsimp only at htaken
      rw [Answer.call] at htaken ⊢
      split at htaken
      · rename_i whole hfate
        left
        exact ⟨⟨whole, hfate⟩, fold_taken hheld htaken⟩
      · rename_i ran hfate
        right
        refine ⟨?_, rfl⟩
        intro whole hanswered
        rw [hfate] at hanswered
        cases hanswered
      · exact absurd htaken hheld

/-- What an entry point that takes the failure returns. -/
def yields (s : AppThread) (e : EntryPoint) (a : Answer) : CUresult :=
  match e with
  | .cuLaunchKernel .. => .invalidValue
  | .cuDriverGetVersion _ => .success
  | _ => match a.fate with
    | .answered _ => s.held
    | _ => .unknown

/-- A stub returns the code of its call, whatever the reply holds besides. -/
theorem report_error (r : CUresult) (whole : Bool) (h : r ≠ .success) : report r whole = r := if_pos h

/-- An entry point that returns the result of its call returns the failure, or that the reply was lost. -/
theorem returns_result {k : CUresult → Bool → CUresult} (hk : ∀ r whole, r ≠ .success → k r whole = r)
    {api : ApiId} (hheld : s.held ≠ .success)
    (h : (∃ whole, a.fate = .answered whole) ∧ (a.call s.held api).1 = s.held ∨
      (∀ whole, a.fate ≠ .answered whole) ∧ (a.call s.held api).1 = .unknown) (whole : Bool) :
    k (a.call s.held api).1 whole = match a.fate with | .answered _ => s.held | _ => .unknown := by
  rcases h with ⟨⟨w, hfate⟩, hcall⟩ | ⟨hfate, hcall⟩
  · rw [hcall, hk _ _ hheld, hfate]
  · rw [hcall, hk _ _ (by decide)]
    split
    · rename_i whole' hanswered
      exact absurd hanswered (hfate whole')
    · rfl

/-- The entry point that takes the failure returns what it yields: one case for each way to treat the call. -/
theorem returned_of_takes (h : s.Takes name e a) : s.returned name e a = s.yields e a := by
  obtain ⟨api, k, hconduct, hreturned, hcall⟩ := h.call
  have hheld := h.1
  rw [hreturned]
  cases e with
  | stub n =>
      cases hconduct
      exact returns_result report_error hheld hcall _
  | stubAsync n queued => cases hconduct
  | cuMemAlloc_v2 dptr =>
      rw [EntryPoint.conduct] at hconduct
      split at hconduct
      · cases hconduct
        exact returns_result report_error hheld hcall _
      · cases hconduct
  | cuMemFree_v2 =>
      cases hconduct
      exact returns_result (fun _ _ _ => rfl) hheld hcall true
  | cuPointerGetAttribute data ours size =>
      rw [EntryPoint.conduct] at hconduct
      split at hconduct
      · cases hconduct
      · split at hconduct
        · cases hconduct
        · split at hconduct
          · cases hconduct
          · cases hconduct
            exact returns_result report_error hheld hcall _
  | cuStreamGetCaptureInfo_v2 | device_attributes =>
      cases hconduct
      exact returns_result report_error hheld hcall _
  | cuGraphGetNodes nodes numNodes =>
      rw [EntryPoint.conduct] at hconduct
      split at hconduct
      · cases hconduct
      · cases hconduct
        exact returns_result report_error hheld hcall _
  | cuThreadExchangeStreamCaptureMode mode =>
      rw [EntryPoint.conduct] at hconduct
      split at hconduct
      · cases hconduct
        exact returns_result report_error hheld hcall _
      · cases hconduct
  | cuDevicePrimaryCtxRetain dev =>
      cases hconduct
      exact returns_result report_error hheld hcall _
  | cuDevicePrimaryCtxRelease_v2 dev | cuDevicePrimaryCtxReset_v2 dev | cuDevicePrimaryCtxSetFlags_v2 dev =>
      cases hconduct
      exact returns_result (fun _ _ _ => rfl) hheld hcall true
  | cuStreamSynchronize queued =>
      cases queued with
      | some r => cases hconduct
      | none =>
          cases hconduct
          exact returns_result (fun _ _ _ => rfl) hheld hcall true
  | cuDevicePrimaryCtxGetState dev flags =>
      rw [EntryPoint.conduct] at hconduct
      split at hconduct
      · cases hconduct
      · cases hconduct
        exact returns_result report_error hheld hcall _
  | cuDriverGetVersion driverVersion =>
      -- it answers with a version of its own, whatever the server said
      rw [EntryPoint.conduct] at hconduct
      split at hconduct
      · cases hconduct
      · split at hconduct
        · cases hconduct
        · cases hconduct
          rfl
  | cuLaunchKernel f args queued =>
      cases args with
      | extra known => cases hconduct
      | none => cases hconduct
      | kernelParams all =>
          rw [EntryPoint.conduct] at hconduct
          split at hconduct
          · cases hconduct
          · cases hconduct
            have hfailed : (a.call s.held (name "rgpu_param_layout")).1 ≠ CUresult.success := by
              rcases hcall with ⟨-, hcall⟩ | ⟨-, hcall⟩
              · rwa [hcall]
              · rw [hcall]
                decide
            dsimp only
            -- `fetch_layout` has failed, and the launch with it
            rw [if_pos (Or.inl hfailed)]
            rfl

/-- A call that returns what was folded into its reply returns the failure unless the reply was lost. -/
theorem lost_iff (a : Answer) (held : CUresult) :
    (match a.fate with | .answered _ => held | _ => .unknown) = held ↔
      ¬ ((∀ whole, a.fate ≠ .answered whole) ∧ held ≠ .unknown) := by
  split
  · rename_i whole hfate
    exact iff_of_true rfl fun hlost => hlost.1 whole hfate
  · rename_i hfate
    constructor
    · intro heq hlost
      exact hlost.2 heq.symm
    · intro hnot
      by_contra hne
      exact hnot ⟨hfate, fun heq => hne heq.symm⟩

/-- The entry point that takes the failure returns it, unless it is one that swallows it. -/
theorem returned_iff (h : s.Takes name e a) : s.returned name e a = s.held ↔ ¬ s.Swallows e a := by
  rw [returned_of_takes h]
  cases e with
  | cuLaunchKernel f args queued =>
      constructor
      · intro heq hne
        exact hne heq.symm
      · intro hnot
        by_contra hne
        exact hnot fun heq => hne heq.symm
  | cuDriverGetVersion given => exact iff_of_false (fun heq => h.1 heq.symm) fun hnot => hnot trivial
  | _ => exact lost_iff a s.held

/-- An entry point that swallows the failure returns a code of another kind: only `cuDriverGetVersion` calls it a
success. -/
theorem yields_of_swallows (h : s.Swallows e a) :
    s.yields e a = .invalidValue ∨ s.yields e a = .unknown ∨
      (∃ given, e = .cuDriverGetVersion given) ∧ s.yields e a = .success := by
  have hlost : (∀ whole, a.fate ≠ .answered whole) →
      (match a.fate with | .answered _ => s.held | _ => .unknown) = CUresult.unknown := by
    intro hfate
    split
    · rename_i whole hanswered
      exact absurd hanswered (hfate whole)
    · rfl
  cases e with
  | cuLaunchKernel f args queued => exact .inl rfl
  | cuDriverGetVersion given => exact .inr (.inr ⟨⟨given, rfl⟩, rfl⟩)
  | _ => exact .inr (.inl (hlost h.1))

end AppThread

end Rgpu
