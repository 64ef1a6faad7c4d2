import Mathlib.Data.List.Basic

/-! # The driver as one serving thread sees it

The part of the CUDA driver API that decides which context a call runs in: the contexts there are, the
calling thread's stack of current contexts, and its stream capture mode. A context handle is an
address, which may be handed out again once its context is destroyed, so a context is told apart by a
serial number and not by its handle. What the driver is free to decide (refuse a create, choose an
address) is an argument of the operation. -/

namespace Rgpu

/-- A result code of a driver call. -/
abbrev CUresult := ℕ

namespace CUresult

/-- `CUDA_SUCCESS`. -/
def success : CUresult := 0
/-- `CUDA_ERROR_INVALID_VALUE`. -/
def invalidValue : CUresult := 1
/-- `CUDA_ERROR_OUT_OF_MEMORY`. -/
def outOfMemory : CUresult := 2
/-- `CUDA_ERROR_NOT_INITIALIZED`. -/
def notInitialized : CUresult := 3
/-- `CUDA_ERROR_INVALID_CONTEXT`. -/
def invalidContext : CUresult := 201
/-- `CUDA_ERROR_CONTEXT_IS_DESTROYED`. -/
def contextIsDestroyed : CUresult := 709
/-- `CUDA_ERROR_NOT_SUPPORTED`. -/
def notSupported : CUresult := 801
/-- `CUDA_ERROR_UNKNOWN`. -/
def unknown : CUresult := 999

end CUresult

/-- The code of a failure: any but `CUDA_SUCCESS`. -/
abbrev CUerror := {r : CUresult // r ≠ CUresult.success}

/-- A context handle; `0` is the null pointer. -/
abbrev CUcontext := ℕ

/-- `CUstreamCaptureMode`. -/
inductive CaptureMode
  | global
  | threadLocal
  | relaxed
  deriving DecidableEq, Repr

/-- A context the driver has made: its handle, and the serial number that tells it from another that
is given the same handle later. -/
structure Context where
  /-- The address handed to the client. -/
  handle : CUcontext
  /-- How many contexts were made before it. -/
  serial : ℕ
  deriving DecidableEq, Repr

/-- The driver, for one thread that calls into it. What it assumes of the driver: the contexts made are
of `cuCtxCreate`, no primary ones among them, and making a context current by a handle that has been
handed out is not refused, as on hardware. -/
structure Driver where
  /-- The contexts there are. -/
  live : List Context := []
  /-- The contexts there were, the last destroyed first. -/
  dead : List Context := []
  /-- How many contexts have been made. -/
  made : ℕ := 0
  /-- The calling thread's stack of current contexts, the top first. -/
  stack : List Context := []
  /-- The calling thread's stream capture mode. -/
  mode : CaptureMode := .global
  deriving DecidableEq, Repr

namespace Driver

/-- The context a handle names: the live one that has it. -/
def find (d : Driver) (h : CUcontext) : Option Context := d.live.find? fun c => c.handle = h

/-- The context a handle selects. A destroyed handle is accepted and left current, as hardware does;
an address that never was a context is refused. -/
def selects (d : Driver) (h : CUcontext) : Option Context :=
  (d.find h).or (d.dead.find? fun c => c.handle = h)

/-- `cuCtxGetCurrent`: the handle on top of the stack, or null. -/
def current (d : Driver) : CUcontext :=
  match d.stack with
  | [] => 0
  | c :: _ => c.handle

/-- `cuCtxSetCurrent`: replaces the top of the stack, or pushes onto an empty one; null pops it. -/
def setCurrent (d : Driver) (h : CUcontext) : Driver × CUresult :=
  if h = 0 then ({ d with stack := d.stack.tail }, .success)
  else
    match d.selects h with
    | some c => ({ d with stack := c :: d.stack.tail }, .success)
    | none => (d, .invalidContext)

/-- `cuCtxPopCurrent_v2`: the handle popped, or an error for popping nothing. -/
def popCurrent (d : Driver) : Driver × CUresult × CUcontext :=
  match d.stack with
  | [] => (d, .invalidContext, 0)
  | c :: cs => ({ d with stack := cs }, .success, c.handle)

/-- `cuCtxCreate_v2`: a new context, pushed on the calling thread. The driver refuses, or hands out an
address that no live context has. -/
def create (d : Driver) (answer : Except CUerror CUcontext) : Driver × CUresult × CUcontext :=
  match answer with
  | .error e => (d, e.1, 0)
  | .ok h =>
      -- an address that is taken is none that the driver hands out
      if h = 0 ∨ (d.find h).isSome then (d, .outOfMemory, 0)
      else
        let c : Context := ⟨h, d.made⟩
        ({ d with live := c :: d.live, made := d.made + 1, stack := c :: d.stack }, .success, h)

/-- `cuCtxDestroy_v2`, and `cuCtxDetach` of a context that was never attached: the context is gone,
and popped if it is current to the calling thread. The driver may refuse. -/
def destroy (d : Driver) (h : CUcontext) (refusal : Option CUerror) : Driver × CUresult :=
  match refusal, d.find h with
  | some e, _ => (d, e.1)
  | none, none => (d, .invalidContext)
  | none, some c =>
      ({ d with
          live := d.live.erase c
          dead := c :: d.dead
          stack := if d.stack.head? = some c then d.stack.tail else d.stack }, .success)

/-- `cuThreadExchangeStreamCaptureMode`: sets the mode and hands back the one that was in force. The
driver may refuse, and then the mode stays. -/
def exchangeMode (d : Driver) (m : CaptureMode) (refusal : Option CUerror) :
    Driver × CUresult × CaptureMode :=
  match refusal with
  | some e => (d, e.1, m)
  | none => ({ d with mode := m }, .success, d.mode)

end Driver

end Rgpu
