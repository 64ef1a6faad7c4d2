import Rgpu.Driver.Contexts
import Rgpu.Foundations.AssocList
import Rgpu.Wire.RequestIds

/-! # What each client thread was looking at (`server/client_threads.h`, `.cpp`)

CUDA's current context, and the stack it tops, belong to the calling thread, and one server thread
serves every thread of a client process. So each client thread's stack is kept in a slot of the
session's table, and the serving thread is made to show that thread's top before its request runs. The
serving thread's own driver stack is only ever one deep.

The functions take the state they act on (`Serving`) and the id of the thread whose request is running,
which the source keeps in `caller`, and return the state after. Flags that only keep a log line from
being said twice are left out. -/

namespace Rgpu

open Foundations

/-- A client thread, as the client numbers them; `0` is never one. -/
abbrev ThreadId := UInt32

/-- One entry of a client thread's context stack. -/
structure SavedContext where
  /-- The context's handle. -/
  ctx : CUcontext := 0
  /-- Destroyed since it was saved; never made current again. -/
  gone : Bool := false
  deriving DecidableEq, Repr

/-- `saved`: a context that is there. -/
def saved (ctx : CUcontext) : SavedContext := { ctx := ctx }

/-- The slot of a client thread. -/
structure ClientThread where
  /-- Its context stack, the top first (the source keeps the bottom first). -/
  stack : List SavedContext := []
  /-- The contexts named anywhere in the stack, rebuilt whenever the stack changes. -/
  stackCtxs : List CUcontext := []
  /-- The failure of a call sent without a reply, held for the thread's next call that replies. -/
  pendingAsync : CUresult := .success
  /-- Which of the failures ever held `pendingAsync` is. No code reads it. -/
  failure : ℕ := 0
  /-- The thread's stream capture mode. -/
  captureMode : CaptureMode := .global
  deriving DecidableEq, Repr

/-- What became of the failures of calls sent without a reply, each named by how many were held before
it. The source writes these to its log, in part; no code reads them. -/
inductive FailureEvent
  /-- Held for the thread whose call failed. -/
  | held (failure : ℕ) (thread : ThreadId) (code : CUresult)
  /-- Handed to a thread in the reply to one of its requests. -/
  | delivered (failure : ℕ) (thread : ThreadId) (reply : RequestId) (code : CUresult)
  /-- Forgotten with a slot, and counted. -/
  | unreported (failure : ℕ) (thread : ThreadId)
  deriving DecidableEq, Repr

/-- A session's client threads, and what the serving thread has current. -/
structure ClientThreads where
  /-- The slots of the threads that are calling. -/
  live : List (ThreadId × ClientThread) := []
  /-- The slots of threads announced gone, the oldest first. -/
  retired : List (ThreadId × ClientThread) := []
  /-- What the serving thread has current. -/
  applied : SavedContext := {}
  /-- The serving thread's own capture mode. -/
  appliedMode : CaptureMode := .global
  /-- How many failures of calls sent without a reply were held. -/
  heldFailures : ℕ := 0
  /-- How many of them were forgotten before they reached their thread. -/
  unreportedFailures : ℕ := 0
  /-- What became of them, in order. No code reads it. -/
  history : List FailureEvent := []
  deriving DecidableEq, Repr

/-- The bounds the server is started with. -/
structure Limits where
  /-- `RGPU_MAX_CLIENT_THREADS`. -/
  maxClientThreads : ℕ := 4096
  /-- `RGPU_MAX_CONTEXT_STACK`. -/
  maxStackDepth : ℕ := 64
  /-- `RGPU_MAX_SESSIONS`. -/
  maxSessions : ℕ := 64
  /-- `RGPU_MAX_PENDING_HANDSHAKES`. -/
  maxPendingHandshakes : ℕ := 256
  deriving DecidableEq, Repr

/-- What the thread serving a session works on: its table of client threads, and the driver. -/
structure Serving where
  /-- `session->threads`. -/
  threads : ClientThreads := {}
  /-- The driver, as this thread sees it. -/
  driver : Driver := {}
  deriving DecidableEq, Repr

/-- `note_stack_ctxs`: the set of contexts named in the stack, rebuilt from it. -/
def ClientThread.noteStackCtxs (t : ClientThread) : ClientThread :=
  { t with stackCtxs := t.stack.map SavedContext.ctx }

/-- A change of the stack, and of the set kept beside it. -/
def ClientThread.setStack (t : ClientThread) (stack : List SavedContext) : ClientThread :=
  { t with stack := stack }.noteStackCtxs

namespace ClientThreads

/-- The slot of a live thread. -/
def slot (ts : ClientThreads) (id : ThreadId) : ClientThread := (ts.live.lookup id).getD {}

/-- Change the slot of a live thread. -/
def modifySlot (ts : ClientThreads) (id : ThreadId) (f : ClientThread → ClientThread) :
    ClientThreads :=
  { ts with live := AssocList.adjust id f ts.live }

end ClientThreads

namespace Serving

/-- The slot of the thread whose request is running. -/
def slot (s : Serving) (id : ThreadId) : ClientThread := s.threads.slot id

/-- Change the slot of the thread whose request is running. -/
def modifySlot (s : Serving) (id : ThreadId) (f : ClientThread → ClientThread) : Serving :=
  { s with threads := s.threads.modifySlot id f }

/-- Record what the serving thread has current. -/
def setApplied (s : Serving) (c : SavedContext) : Serving :=
  { s with threads := { s.threads with applied := c } }

/-- What the driver says is current, as it is recorded. -/
def driverApplied (s : Serving) : SavedContext :=
  if s.driver.current = 0 then {} else saved s.driver.current

/-- `read_back`: `applied` is what the driver says is current. -/
def readBack (s : Serving) : Serving :=
  if s.driver.current = s.threads.applied.ctx then s else s.setApplied s.driverApplied

/-- The loop of `clear`: at most `n` more pops. -/
def clearLoop : ℕ → Serving → CUresult → Serving × CUresult
  | 0, s, r => (s, r)
  | n + 1, s, r =>
      if s.threads.applied.ctx = 0 then (s, r)
      else
        let popped := s.driver.setCurrent 0
        let s := { s with driver := popped.1 }
        let s := s.setApplied s.driverApplied
        if popped.2 = .success then clearLoop n s popped.2 else (s, popped.2)

/-- `clear`: leaves the serving thread with no context, with at most eight pops. -/
def clear (s : Serving) : Serving × CUresult :=
  let (s, r) := clearLoop 8 s .success
  if s.threads.applied.ctx = 0 then (s, .success)
  else (s, if r = .success then .invalidContext else r)

/-- `show_context`: makes the thread's current context current on the serving thread, or leaves it
with none. -/
def showContext (s : Serving) (id : ThreadId) : Serving × CUresult :=
  match (s.slot id).stack with
  | [] => s.clear
  | top :: rest =>
      if top.gone then s.clear
      else if top.ctx = s.threads.applied.ctx then (s, .success)
      else
        let set := s.driver.setCurrent top.ctx
        let s := { s with driver := set.1 }
        if set.2 = .success then (s.setApplied top, .success)
        else
          -- not how a destroyed context is caught: the driver would have accepted it
          let gone := s.modifySlot id fun t => { t with stack := { top with gone := true } :: rest }
          gone.readBack.clear

/-- `show_capture_mode`: gives the serving thread the thread's capture mode, if it differs. -/
def showCaptureMode (s : Serving) (id : ThreadId) (refusal : Option CUerror) : Serving × CUresult :=
  let mode := (s.slot id).captureMode
  if mode = s.threads.appliedMode then (s, .success)
  else
    let set := s.driver.exchangeMode mode refusal
    if set.2.1 = .success then
      ({ s with driver := set.1, threads := { s.threads with appliedMode := mode } }, .success)
    else (s, set.2.1)

/-- `client_thread_show`. -/
def clientThreadShow (s : Serving) (id : ThreadId) (refusal : Option CUerror) : Serving × CUresult :=
  let shown := s.showContext id
  if shown.2 = .success then shown.1.showCaptureMode id refusal else shown

/-- `client_thread_shown`: whether the serving thread already shows the thread's state. -/
def clientThreadShown (s : Serving) (id : ThreadId) : Bool :=
  let t := s.slot id
  if t.captureMode ≠ s.threads.appliedMode then false
  else
    match t.stack with
    | [] => s.threads.applied.ctx = 0
    | top :: _ => if top.gone then s.threads.applied.ctx = 0 else top.ctx = s.threads.applied.ctx

/-- `may_push`: whether the thread may have one more context pushed. -/
def mayPush (limits : Limits) (t : ClientThread) : Bool := t.stack.length < limits.maxStackDepth

/-- Marks gone every entry of a stack that names `ctx`, unless the stack never named it. -/
def sweepOne (ctx : CUcontext) (t : ClientThread) : ClientThread :=
  if ctx ∈ t.stackCtxs then
    { t with stack := t.stack.map fun e => if e.ctx = ctx then { e with gone := true } else e }
  else t

/-- `sweep`: marks gone every entry naming `ctx`, in every thread, live or recently retired. -/
def sweep (s : Serving) (ctx : CUcontext) : Serving :=
  { s with threads := { s.threads with
      live := AssocList.mapValues (sweepOne ctx) s.threads.live
      retired := AssocList.mapValues (sweepOne ctx) s.threads.retired } }

/-! ## The intercepted calls -/

/-- `w_cuCtxSetCurrent`. -/
def wCuCtxSetCurrent (s : Serving) (id : ThreadId) (ctx : CUcontext) (refusal : Option CUerror) :
    Serving × CUresult :=
  let t := s.slot id
  if ctx = 0 then
    match t.stack with
    | [] => (s, .success)
    | _ :: rest => (s.modifySlot id fun t => t.setStack rest).clientThreadShow id refusal
  else
    let set := s.driver.setCurrent ctx
    let s := { s with driver := set.1 }
    if set.2 = .success then
      ((s.modifySlot id fun t => t.setStack (saved ctx :: t.stack.tail)).setApplied (saved ctx),
        .success)
    else (s.readBack, set.2)

/-- `w_cuCtxPushCurrent_v2`. -/
def wCuCtxPushCurrent (limits : Limits) (s : Serving) (id : ThreadId) (ctx : CUcontext) :
    Serving × CUresult :=
  if ctx = 0 then (s, .invalidContext)
  else if mayPush limits (s.slot id) then
    let set := s.driver.setCurrent ctx
    let s := { s with driver := set.1 }
    if set.2 = .success then
      ((s.modifySlot id fun t => t.setStack (saved ctx :: t.stack)).setApplied (saved ctx),
        .success)
    else (s.readBack, set.2)
  else (s, .invalidValue)

/-- `w_cuCtxPopCurrent_v2`, with the handle it hands back. -/
def wCuCtxPopCurrent (s : Serving) (id : ThreadId) (refusal : Option CUerror) :
    Serving × CUresult × CUcontext :=
  match (s.slot id).stack with
  | [] =>
      let popped := s.driver.popCurrent
      ({ s with driver := popped.1 }.readBack, popped.2.1, popped.2.2)
  | top :: rest =>
      let shown := (s.modifySlot id fun t => t.setStack rest).clientThreadShow id refusal
      (shown.1, shown.2, top.ctx)

/-- `w_cuCtxGetCurrent`: the top of the thread's stack, even a destroyed one. -/
def wCuCtxGetCurrent (s : Serving) (id : ThreadId) : CUcontext :=
  match (s.slot id).stack with
  | [] => 0
  | top :: _ => top.ctx

/-- `client_threads_exchange_capture_mode`, with the mode that was in force. -/
def exchangeCaptureMode (s : Serving) (id : ThreadId) (wanted : CaptureMode)
    (refusal : Option CUerror) : Serving × CUresult × CaptureMode :=
  let set := s.driver.exchangeMode wanted refusal
  if set.2.1 = .success then
    (({ s with driver := set.1, threads := { s.threads with appliedMode := wanted } }).modifySlot id
      fun t => { t with captureMode := wanted }, set.2)
  else (s, set.2)

/-- `client_threads_created`: the driver pushed the new context; it goes onto the thread's stack, and
the driver's is brought back to one entry. -/
def clientThreadsCreated (s : Serving) (id : ThreadId) (ctx : CUcontext) : Serving :=
  if ctx = 0 then s
  else
    let s :=
      if s.threads.applied.ctx = 0 then s
      else { s with driver := ((s.driver.setCurrent 0).1.setCurrent ctx).1 }
    ((s.modifySlot id fun t => t.setStack (saved ctx :: t.stack)).setApplied (saved ctx)).readBack

/-- The pop that a destroy of the thread's current context implies. -/
def popDestroyed (ctx : CUcontext) (t : ClientThread) : ClientThread :=
  match t.stack with
  | [] => t
  | top :: rest => if top.gone = false ∧ top.ctx = ctx then t.setStack rest else t

/-- `client_threads_destroyed`: the thread pops the context if it is current to it, every other entry
naming it is marked, and nothing destroyed stays current on the serving thread. -/
def clientThreadsDestroyed (s : Serving) (id : ThreadId) (ctx : CUcontext)
    (refusal : Option CUerror) : Serving :=
  if ctx = 0 then s
  else
    let s := (s.modifySlot id (popDestroyed ctx)).sweep ctx
    let s :=
      if s.threads.applied.ctx = ctx then
        let s := s.readBack
        if s.threads.applied.ctx = ctx then s.clear.1 else s
      else s
    (s.clientThreadShow id refusal).1

/-- `w_cuCtxCreate_v2`, with the handle it hands back. -/
def wCuCtxCreate (limits : Limits) (s : Serving) (id : ThreadId)
    (answer : Except CUerror CUcontext) : Serving × CUresult × CUcontext :=
  if mayPush limits (s.slot id) then
    let made := s.driver.create answer
    let s := { s with driver := made.1 }
    if made.2.1 = .success then (s.clientThreadsCreated id made.2.2, made.2) else (s, made.2)
  else (s, .invalidValue, 0)

/-- `w_cuCtxDestroy_v2` and `w_cuCtxDetach`, which are accounted for alike. -/
def wCuCtxDestroy (s : Serving) (id : ThreadId) (ctx : CUcontext) (refusal inner : Option CUerror) :
    Serving × CUresult :=
  let destroyed := s.driver.destroy ctx refusal
  let s := { s with driver := destroyed.1 }
  if destroyed.2 = .success then (s.clientThreadsDestroyed id ctx inner, .success)
  else (s, destroyed.2)

end Serving

end Rgpu
