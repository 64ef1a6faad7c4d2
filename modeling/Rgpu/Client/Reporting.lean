import Rgpu.Client.EntryPoints

/-! # What the application is told of a held failure (`cudart_impl.cpp`, `cublas_impl.cpp`, `cudnn_impl.cpp`)

The application calls libcuda itself, or a library written over it. The functions of libcudart call libcuda and
return what they make of its codes; those of cuBLAS, cuBLASLt and cuDNN make calls of their own, and answer with a
status of the library.

* **`RuntimeFn`** — a function of libcudart by its calls of libcuda; **`CudartCall.calls`** — each of them.
* **`LibraryCall.run`** — the calls of the three libraries.
* **`AppThread.step`** — a thread of the application.
* **`AppThread.failure_reported_iff`** — when the first call that takes a held failure reports it. -/

namespace Rgpu

/-! ### What a call tells -/

/-- `cudaError_t`. -/
abbrev CudaError := ℕ

namespace CudaError

/-- `cudaSuccess`. -/
def success : CudaError := 0
/-- `cudaErrorInvalidValue`. -/
def invalidValue : CudaError := 1
/-- `cudaErrorInvalidDevice`. -/
def invalidDevice : CudaError := 101
/-- `cudaErrorUnknown`. -/
def unknown : CudaError := 999

end CudaError

/-- The codes that `from_cu` of libcudart has a case for, in its order. The error it answers with has the same
number in the runtime's header as the code has in the driver's. -/
def fromCuCases : List CUresult :=
  [0, 1, 2, 3, 4, 100, 101, 200, 201, 400, 500, 600, 700, 719, 701, 702, 801, 301]

/-- `from_cu` of libcudart. -/
def fromCu (r : CUresult) : CudaError := if r ∈ fromCuCases then r else .unknown

/-- What a call gives back: a code of the driver, an error of the runtime, a status of a library, a version, or
nothing. -/
inductive ApiResult
  | cu (r : CUresult)
  | cuda (r : CudaError)
  | status (s : LibraryStatus)
  | version (v : ℕ)
  | nothing
  deriving DecidableEq

/-- It is the failure: the driver's code, or the runtime's error of that number. -/
def ApiResult.Reports : ApiResult → CUresult → Prop
  | .cu r, code => r = code
  | .cuda r, code => r = code
  | _, _ => False

instance (t : ApiResult) (code : CUresult) : Decidable (t.Reports code) := by
  cases t <;> unfold ApiResult.Reports <;> infer_instance

/-! ### Functions of libcudart -/

/-- A function of libcudart by its calls of libcuda: it returns; it makes a call and returns a failure of it at
once, through `from_cu`; or it makes a call of whose code it only sees whether it is `CUDA_SUCCESS`. -/
inductive RuntimeFn
  | done (r : CudaError)
  | check (e : EntryPoint) (rest : RuntimeFn)
  | ask (e : EntryPoint) (rest : Bool → RuntimeFn)

namespace RuntimeFn

variable (name : String → ApiId)

/-- The thread after the function, and what it returns. The answers are those to its calls, in their order. -/
def run : RuntimeFn → AppThread → List Answer → AppThread × CudaError
  | done r, s, _ => (s, r)
  | check e rest, s, as =>
      if s.returned name e (as.headD {}) ≠ .success then
        (s.enter name e (as.headD {}), fromCu (s.returned name e (as.headD {})))
      else rest.run (s.enter name e (as.headD {})) as.tail
  | ask e rest, s, as =>
      (rest (s.returned name e (as.headD {}) = .success)).run (s.enter name e (as.headD {})) as.tail

/-- The failure is kept from the caller: the call that takes it swallows it, its code is not looked at, or
`from_cu` has no case for it. -/
def Swallows : RuntimeFn → AppThread → List Answer → Prop
  | done _, _, _ => False
  | check e rest, s, as =>
      s.Takes name e (as.headD {}) ∧ (s.Swallows e (as.headD {}) ∨ fromCu s.held ≠ s.held) ∨
        ¬ s.Takes name e (as.headD {}) ∧ rest.Swallows (s.enter name e (as.headD {})) as.tail
  | ask e rest, s, as =>
      s.Takes name e (as.headD {}) ∨
        (rest (s.returned name e (as.headD {}) = .success)).Swallows (s.enter name e (as.headD {})) as.tail

/-- It returns `cudaSuccess`, whatever its calls do. -/
def Silent : RuntimeFn → Prop
  | done r => r = .success
  | check _ _ => False
  | ask _ rest => ∀ b, (rest b).Silent

/-- What comes after a call that can keep a failure to itself fails no more. -/
def Settles : RuntimeFn → Prop
  | done _ => True
  | check e rest => ((∀ given, e ≠ .cuDriverGetVersion given) ∨ rest = .done .success) ∧ rest.Settles
  | ask _ rest => ∀ b, (rest b).Silent

/-- `record(cudaSuccess)`. -/
def ok : RuntimeFn := .done .success

/-- `record_cu(cuX(...))`. -/
def ret (e : EntryPoint) : RuntimeFn := .check e ok

/-- The same call `n` times, for what it answers with. -/
def askEach (e : EntryPoint) : ℕ → RuntimeFn
  | 0 => ok
  | n + 1 => .ask e fun _ => askEach e n

end RuntimeFn

open RuntimeFn (ok ret askEach)

/-- `CUDA_ERROR_INVALID_IMAGE`. -/
def CUresult.invalidImage : CUresult := 200

/-- `CUDA_ERROR_NOT_FOUND`. -/
def CUresult.notFound : CUresult := 500

/-- What the runtime has ready when a thread enters it: `g_inited`, that the thread's context is the one it made
current (`t_ctx_gen` is `g_ctx_gen`), that `g_primary` has a context for its device, and the device. -/
structure Ready where
  inited : Bool
  current : Bool
  retained : Bool
  device : ℕ
  deriving DecidableEq

/-- What the runtime knows of a kernel: nothing, its function, that its module is loaded or could not be, or none
of that yet. -/
inductive KernelKnown
  | unregistered
  | resolved
  | loaded
  | tried
  | fresh
  deriving DecidableEq

/-- `ensure_init`. -/
def ensureInit (ready : Ready) (rest : RuntimeFn) : RuntimeFn :=
  if ready.inited then rest else .check (.stub "cuInit") rest

/-- `ensure_context`. -/
def ensureContext (ready : Ready) (rest : RuntimeFn) : RuntimeFn :=
  ensureInit ready <|
    if ready.current then rest
    else if ready.retained then .check (.stub "cuCtxSetCurrent") rest
    else .check (.stub "cuDeviceGet") <| .check (.cuDevicePrimaryCtxRetain ready.device) <|
      .check (.stub "cuCtxSetCurrent") rest

/-- `resolve_kernel`, with `ensure_module`. -/
def resolveKernel (rest : RuntimeFn) : KernelKnown → RuntimeFn
  | .unregistered => .done (fromCu .notFound)
  | .resolved => rest
  | .loaded => .check (.stub "cuModuleGetFunction") rest
  | .tried => .done (fromCu .invalidImage)
  | .fresh => .check (.stub "cuModuleLoadData") <| .check (.stub "cuModuleGetFunction") rest

/-- The functions of libcudart that call libcuda. `direct` and `inContext` are the many that do no more than
forward one call, the second kind after `ensure_context`; `settled` stands for a return before any call: an argument
refused, an answer remembered, or nothing to do. -/
inductive CudartCall
  | settled (r : CudaError)
  /-- `cudaDriverGetVersion`, `cudaStreamDestroy`, `cudaStreamQuery`, `cudaStreamWaitEvent`, `cudaStreamGetPriority`,
  `cudaStreamGetFlags`, `cudaStreamIsCapturing`, `cudaThreadExchangeStreamCaptureMode`, `cudaEventDestroy`,
  `cudaEventRecord`, `cudaEventRecordWithFlags`, `cudaEventSynchronize`, `cudaEventQuery`, `cudaEventElapsedTime`,
  `cudaFreeAsync`. -/
  | direct (e : EntryPoint)
  /-- `cudaDeviceSynchronize`, `cudaMemGetInfo`, `cudaMalloc`, `cudaMallocAsync`, `cudaFree`, `cudaMemcpy`,
  `cudaMemcpyAsync`, `cudaMemset`, `cudaMemsetAsync`, `cudaStreamCreate`, `cudaStreamCreateWithFlags`,
  `cudaStreamCreateWithPriority`, `cudaStreamSynchronize`, `cudaEventCreate`, `cudaEventCreateWithFlags`,
  `cudaDeviceGetStreamPriorityRange`, `cudaGetDeviceFlags`, `cudaStreamBeginCapture`, `cudaStreamEndCapture`,
  `cudaStreamGetCaptureInfo_v2`, `cudaGraphInstantiate`, `cudaGraphLaunch`, `cudaGraphUpload`,
  `cudaGraphGetNodes`, `cudaGraphDestroy`, `cudaGraphExecDestroy`. -/
  | inContext (ready : Ready) (e : EntryPoint)
  /-- `cudaMallocHost`, `cudaHostAlloc`, and `cudaMemcpy` and `cudaMemcpyAsync` from host to host, which have no call
  left that talks to the server. -/
  | inContextLocal (ready : Ready) (r : CUresult)
  | cudaGetDeviceCount (ready : Ready)
  /-- `ready` is about the device that is set, `switched` says that it was another one. -/
  | cudaSetDevice (ready : Ready) (inRange switched : Bool)
  | cudaDeviceGetAttribute (ready : Ready)
  | cudaDeviceGetPCIBusId (ready : Ready) (fits : Bool)
  | cudaGetDeviceProperties_v2 (ready : Ready)
  | cudaDeviceReset (devices : List ℕ)
  | cudaSetDeviceFlags (ready : Ready)
  | cudaUnregisterFatBinary (loaded : Bool)
  | cudaFuncGetAttributes (ready : Ready) (kernel : KernelKnown)
  | cudaFuncSetAttribute (ready : Ready) (kernel : KernelKnown)
  | cudaOccupancyMaxActiveBlocksPerMultiprocessorWithFlags (ready : Ready) (kernel : KernelKnown)
  | cudaLaunchKernel (ready : Ready) (kernel : KernelKnown) (f : ℕ) (args : Option Bool) (queued : CUresult)

namespace CudartCall

/-- `cudaDeviceReset` over the devices of `g_primary`. -/
def resetDevices : List ℕ → RuntimeFn
  | [] => ok
  | dev :: devs => .ask (.stub "cuDeviceGet") fun got =>
      if got then .ask (.cuDevicePrimaryCtxRelease_v2 dev) fun _ => resetDevices devs else resetDevices devs

/-- The number of entries of `kPropFields`. -/
def kFields : ℕ := 98

/-- The calls of libcuda that a function makes. -/
def calls : CudartCall → RuntimeFn
  | .settled r => .done r
  | .direct e => ret e
  | .inContext ready e => ensureContext ready (ret e)
  | .inContextLocal ready r => ensureContext ready (.done (fromCu r))
  | .cudaGetDeviceCount ready => ensureInit ready (ret (.stub "cuDeviceGetCount"))
  | .cudaSetDevice ready inRange switched =>
      ensureInit ready <| .check (.stub "cuDeviceGetCount") <|
        if inRange then ensureContext { ready with inited := true, current := ready.current && !switched } ok
        else .done .invalidDevice
  | .cudaDeviceGetAttribute ready =>
      ensureInit ready <| .check (.stub "cuDeviceGet") <| ret (.stub "cuDeviceGetAttribute")
  | .cudaDeviceGetPCIBusId ready fits =>
      ensureInit ready <| .check (.stub "cuDeviceGet") <| .check (.stub "cuDeviceGetAttribute") <|
        .check (.stub "cuDeviceGetAttribute") <| .check (.stub "cuDeviceGetAttribute") <|
          .done (if fits then .success else .invalidValue)
  | .cudaGetDeviceProperties_v2 ready =>
      ensureInit ready <| .check (.stub "cuDeviceGet") <|
        .ask (.stub "cuDeviceGetName") fun _ => .ask (.stub "cuDeviceTotalMem_v2") fun _ =>
          .ask (.stub "cuDeviceGetUuid") fun _ => .ask .device_attributes fun answered =>
            -- an older server has no call for all of them at once
            if answered then ok else askEach (.stub "cuDeviceGetAttribute") kFields
  | .cudaDeviceReset devices => resetDevices devices
  | .cudaSetDeviceFlags ready =>
      ensureInit ready <| .check (.stub "cuDeviceGet") <| ret (.cuDevicePrimaryCtxSetFlags_v2 ready.device)
  | .cudaUnregisterFatBinary loaded => if loaded then .ask (.stub "cuModuleUnload") fun _ => ok else ok
  | .cudaFuncGetAttributes ready kernel =>
      ensureContext ready <| resolveKernel (askEach (.stub "cuFuncGetAttribute") 10) kernel
  | .cudaFuncSetAttribute ready kernel =>
      ensureContext ready <| resolveKernel (ret (.stub "cuFuncSetAttribute")) kernel
  | .cudaOccupancyMaxActiveBlocksPerMultiprocessorWithFlags ready kernel =>
      ensureContext ready <|
        resolveKernel (ret (.stub "cuOccupancyMaxActiveBlocksPerMultiprocessorWithFlags")) kernel
  | .cudaLaunchKernel ready kernel f args queued =>
      ensureContext ready <|
        resolveKernel (ret (.cuLaunchKernel f (args.elim .none .kernelParams) queued)) kernel

/-- What the application is told: `__cudaUnregisterFatBinary` returns nothing. -/
def tells (r : CudaError) : CudartCall → ApiResult
  | .cudaUnregisterFatBinary _ => .nothing
  | _ => .cuda r

end CudartCall

/-! ### cuBLAS, cuBLASLt and cuDNN -/

/-- The libraries whose calls the client forwards by hand. -/
inductive Library
  | cublas
  | cublasLt
  | cudnn
  deriving DecidableEq

/-- `from_cu` of the three libraries. -/
def LibraryStatus.fromCu (r : CUresult) : LibraryStatus := if r = .success then .success else .executionFailed

/-- `send`: what it makes of the call's result and of the status in the payload. cuDNN's prefers the status. -/
def Library.send (r : CUresult) (status : Option LibraryStatus) : Library → LibraryStatus
  | cublas | cublasLt => if r ≠ .success then .fromCu r else status.getD .internalError
  | cudnn =>
      match status with
      | some .success => .fromCu r
      | some status => status
      | none => if r ≠ .success then .fromCu r else .internalError

/-- What a function of a library gives back: a status, a version that is `0` when the call failed, or the text of an
error. -/
inductive LibraryGives
  | status
  | version (v : ℕ)
  | text
  deriving DecidableEq

/-- What it tells, from the status and whether the reply has all that is read out of it. -/
def LibraryGives.tells (status : LibraryStatus) (whole : Bool) : LibraryGives → ApiResult
  | .status => .status (if status = .success ∧ whole = false then .internalError else status)
  | .version v => .version (if status = .success ∧ whole then v else 0)
  | .text => .nothing

/-- A function of a library: it returns without a call that waits (its arguments are refused, its answer is known,
or its call was queued), or it makes one call, named as in the library's own numbering. -/
inductive LibraryCall
  | settled (t : ApiResult)
  | sends (library : Library) (call : String) (gives : LibraryGives)

/-- The thread after the function, and what it tells. -/
def LibraryCall.run (name : String → ApiId) (s : AppThread) (a : Answer) : LibraryCall → AppThread × ApiResult
  | .settled t => (s, t)
  | .sends library call gives =>
      let answered := a.call s.held (name call)
      ({ s with held := answered.2 },
        match a.fate with
        | .answered whole => gives.tells (library.send answered.1 a.status) whole
        | _ => gives.tells (library.send answered.1 none) false)

/-! ### Runs of a thread -/

/-- A call of the application: of libcuda, of libcudart, or of one of the other libraries. -/
inductive ClientCall
  | driver (e : EntryPoint)
  | runtime (f : CudartCall)
  | library (f : LibraryCall)

namespace ClientCall

variable (name : String → ApiId)

/-- The thread after the call, and what the application is told. -/
def run (s : AppThread) (as : List Answer) : ClientCall → AppThread × ApiResult
  | .driver e => (s.enter name e (as.headD {}), .cu (s.returned name e (as.headD {})))
  | .runtime f => ((f.calls.run name s as).1, f.tells (f.calls.run name s as).2)
  | .library f => f.run name s (as.headD {})

/-- The failure held for the thread goes into a reply to the call: to one of the calls of libcuda that it makes,
which waits, may carry it, and succeeded by itself. -/
def Takes (c : ClientCall) (s : AppThread) (as : List Answer) : Prop :=
  s.held ≠ .success ∧ (c.run name s as).1.held = .success

/-- The call keeps the failure from the application: one of libcuda as `AppThread.Swallows` says, one of libcudart
as `RuntimeFn.Swallows` does, and those of the other libraries, which have only statuses of their own, always. -/
def Swallows (s : AppThread) (as : List Answer) : ClientCall → Prop
  | .driver e => s.Swallows e (as.headD {})
  | .runtime f => f.calls.Swallows name s as
  | .library _ => True

end ClientCall

/-- What happens to a thread. -/
inductive ThreadEvent
  /-- The server completes a call of the thread that has no reply. -/
  | oneWay (result : CUresult)
  | enter (c : ClientCall) (as : List Answer)
  /-- Other threads of the process change what it remembers. -/
  | others (m : Remembered)
  /-- The server forgets the slot of a thread that has gone, or that it had no room for. -/
  | forgotten

namespace AppThread

variable (name : String → ApiId)

/-- The transition function. -/
def step (s : AppThread) : ThreadEvent → AppThread
  | .oneWay result => { s with held := if s.held = .success then result else s.held }
  | .enter c as => (c.run name s as).1
  | .others m => { s with remembered := m }
  | .forgotten => { s with held := .success }

/-- The state after a run. -/
def after (s : AppThread) (es : List ThreadEvent) : AppThread := es.foldl (step name) s

/-- No call of the run takes a failure, and the thread is not forgotten. -/
def Quiet : AppThread → List ThreadEvent → Prop
  | _, [] => True
  | _, .forgotten :: _ => False
  | s, .enter c as :: es => ¬ c.Takes name s as ∧ Quiet (s.step name (.enter c as)) es
  | s, ev :: es => Quiet (s.step name ev) es

end AppThread

/-! ### The call that takes the failure -/

variable {name : String → ApiId} {s : AppThread}

namespace RuntimeFn

variable {f : RuntimeFn} {as : List Answer}

/-- A function that fails at nothing has nothing to settle. -/
theorem Silent.settles (h : f.Silent) : f.Settles := by
  cases f with
  | done r => trivial
  | check e rest => exact h.elim
  | ask e rest => exact h

/-- A function that fails no more returns `cudaSuccess`. -/
theorem Silent.run (h : f.Silent) : (f.run name s as).2 = .success := by
  induction f generalizing s as with
  | done r => exact h
  | check e rest ih => exact h.elim
  | ask e rest ih => exact ih _ (h _)

/-- A function leaves a held failure as it is, or takes it. -/
theorem run_held (f : RuntimeFn) (s : AppThread) (as : List Answer) :
    (f.run name s as).1.held = s.held ∨ (f.run name s as).1.held = .success := by
  induction f generalizing s as with
  | done r => exact .inl rfl
  | check e rest ih =>
      have hcall : (s.enter name e (as.headD {})).held = s.held ∨ (s.enter name e (as.headD {})).held = .success :=
        s.enter_held e _
      rw [RuntimeFn.run]
      split
      · exact hcall
      · rcases ih (s.enter name e (as.headD {})) as.tail with hsame | htaken
        · rw [hsame]
          exact hcall
        · exact .inr htaken
  | ask e rest ih =>
      have hcall : (s.enter name e (as.headD {})).held = s.held ∨ (s.enter name e (as.headD {})).held = .success :=
        s.enter_held e _
      rw [RuntimeFn.run]
      rcases ih (s.returned name e (as.headD {}) = .success) (s.enter name e (as.headD {})) as.tail with
        hsame | htaken
      · rw [hsame]
        exact hcall
      · exact .inr htaken

end RuntimeFn

/-- A call that does not take the failure leaves it held. -/
theorem AppThread.held_of_not_takes {e : EntryPoint} {a : Answer} (hheld : s.held ≠ .success)
    (h : ¬ s.Takes name e a) : (s.enter name e a).held = s.held := by
  have hcall : (s.enter name e a).held = s.held ∨ (s.enter name e a).held = .success := s.enter_held e a
  rcases hcall with hsame | htaken
  · exact hsame
  · exact absurd ⟨hheld, htaken⟩ h

/-- Through `from_cu`, a call that takes the failure is told as the failure if it does not swallow it and `from_cu`
has a case for it. -/
theorem AppThread.fromCu_returned_iff {e : EntryPoint} {a : Answer} (h : s.Takes name e a)
    (hfailed : s.returned name e a ≠ .success) :
    fromCu (s.returned name e a) = s.held ↔ ¬ (s.Swallows e a ∨ fromCu s.held ≠ s.held) := by
  by_cases hswallows : s.Swallows e a
  · -- what it returns instead is a code that `from_cu` keeps
    have hne : s.returned name e a ≠ s.held := fun heq => (returned_iff h).mp heq hswallows
    refine iff_of_false ?_ fun hnot => hnot (.inl hswallows)
    have hkeeps : fromCu (s.returned name e a) = s.returned name e a := by
      rw [returned_of_takes h] at hfailed ⊢
      rcases yields_of_swallows hswallows with hinvalid | hunknown | ⟨-, hsuccess⟩
      · rw [hinvalid]
        decide
      · rw [hunknown]
        decide
      · exact absurd hsuccess hfailed
    rwa [hkeeps]
  · rw [(returned_iff h).mpr hswallows]
    constructor
    · intro heq hor
      exact hor.elim hswallows fun hne => hne heq
    · intro hnot
      by_contra hne
      exact hnot (.inr hne)

namespace RuntimeFn

variable {f : RuntimeFn} {as : List Answer}

/-- The function in which a failure is taken returns it, unless it is swallowed: over the calls of the function, up
to the one that takes it. -/
theorem returned_iff (h : f.Settles) (hheld : s.held ≠ .success) (htaken : (f.run name s as).1.held = .success) :
    (f.run name s as).2 = s.held ↔ ¬ f.Swallows name s as := by
  induction f generalizing s as with
  | done r => exact absurd htaken hheld
  | check e rest ih =>
      rw [RuntimeFn.run] at htaken ⊢
      rw [RuntimeFn.Swallows]
      by_cases htakes : s.Takes name e (as.headD {})
      · by_cases hfailed : s.returned name e (as.headD {}) ≠ .success
        · rw [if_pos hfailed]
          have hiff := AppThread.fromCu_returned_iff htakes hfailed
          rw [hiff]
          simp only [htakes, true_and, not_true_eq_false, false_and, or_false]
        · -- only the version is answered with a success, and then there is no call left
          have hreturned := not_not.mp hfailed
          have hswallows : s.Swallows e (as.headD {}) := by
            by_contra hnot
            exact hheld (((AppThread.returned_iff htakes).mpr hnot).symm.trans hreturned)
          have hversion : ∃ given, e = .cuDriverGetVersion given := by
            have hyields := AppThread.returned_of_takes htakes
            rw [hreturned] at hyields
            rcases AppThread.yields_of_swallows hswallows with hinvalid | hunknown | ⟨hversion, -⟩
            · rw [hinvalid] at hyields
              cases hyields
            · rw [hunknown] at hyields
              cases hyields
            · exact hversion
          obtain ⟨given, hversion⟩ := hversion
          have hlast : rest = .done .success := h.1.resolve_left fun hnot => hnot given hversion
          rw [if_neg hfailed, hlast]
          exact iff_of_false (fun heq => hheld heq.symm) fun hnot => hnot (.inl ⟨htakes, .inl hswallows⟩)
      · have hsame : (s.enter name e (as.headD {})).held = s.held := AppThread.held_of_not_takes hheld htakes
        split at htaken
        · rw [hsame] at htaken
          exact absurd htaken hheld
        · rename_i hreturned
          rw [if_neg hreturned]
          have hrest := ih h.2 (s := s.enter name e (as.headD {})) (by rwa [hsame]) htaken
          rw [hsame] at hrest
          rw [hrest]
          simp only [htakes, false_and, not_false_eq_true, true_and, false_or]
  | ask e rest ih =>
      rw [RuntimeFn.run] at htaken ⊢
      rw [RuntimeFn.Swallows]
      have hsilent := h (s.returned name e (as.headD {}) = .success)
      by_cases htakes : s.Takes name e (as.headD {})
      · rw [hsilent.run]
        exact iff_of_false (fun heq => hheld heq.symm) fun hnot => hnot (.inl htakes)
      · have hsame : (s.enter name e (as.headD {})).held = s.held := AppThread.held_of_not_takes hheld htakes
        have hrest := ih _ hsilent.settles (s := s.enter name e (as.headD {})) (by rwa [hsame]) htaken
        rw [hsame] at hrest
        rw [hrest]
        simp only [htakes, false_or]

end RuntimeFn

/-! ### The functions of libcudart settle -/

/-- Queries whose codes nobody looks at fail at nothing. -/
theorem RuntimeFn.Silent.askEach (e : EntryPoint) (n : ℕ) : (askEach e n).Silent := by
  induction n with
  | zero => rfl
  | succ n ih => exact fun _ => ih

/-- Returning the code of the last call settles it. -/
theorem RuntimeFn.Settles.ret (e : EntryPoint) : (ret e).Settles := ⟨.inr rfl, trivial⟩

/-- A call other than for the driver's version, before a function that settles. -/
theorem RuntimeFn.Settles.check {e : EntryPoint} {f : RuntimeFn} (he : ∀ given, e ≠ .cuDriverGetVersion given)
    (h : f.Settles) : (RuntimeFn.check e f).Settles := ⟨.inl he, h⟩

section Settles

open RuntimeFn

variable {f : RuntimeFn}

/-- A call whose code is looked at may stand first. -/
theorem Settles.stub (call : String) (h : f.Settles) : (RuntimeFn.check (.stub call) f).Settles :=
  .check (by rintro given ⟨⟩) h

/-- `ensure_init` may stand first. -/
theorem Settles.ensureInit (ready : Ready) (h : f.Settles) : (ensureInit ready f).Settles := by
  unfold Rgpu.ensureInit
  split
  · exact h
  · exact Settles.stub _ h

/-- `ensure_context` may stand first. -/
theorem Settles.ensureContext (ready : Ready) (h : f.Settles) : (ensureContext ready f).Settles := by
  unfold Rgpu.ensureContext
  refine Settles.ensureInit ready ?_
  split
  · exact h
  · split
    · exact Settles.stub _ h
    · exact Settles.stub _ (.check (by rintro given ⟨⟩) (Settles.stub _ h))

/-- `resolve_kernel` may stand first. -/
theorem Settles.resolveKernel (kernel : KernelKnown) (h : f.Settles) : (resolveKernel f kernel).Settles := by
  cases kernel with
  | unregistered | tried => trivial
  | resolved => exact h
  | loaded => exact Settles.stub _ h
  | fresh => exact Settles.stub _ (Settles.stub _ h)

/-- `cudaDeviceReset` fails at nothing. -/
theorem CudartCall.resetDevices_silent (devices : List ℕ) : (resetDevices devices).Silent := by
  induction devices with
  | nil => rfl
  | cons dev devices ih =>
      intro got
      cases got with
      | false => exact ih
      | true => exact fun _ => ih

/-- In every function of libcudart, what comes after a call that can keep a failure to itself fails no more. -/
theorem CudartCall.calls_settles (f : CudartCall) : f.calls.Settles := by
  cases f with
  | settled r => trivial
  | direct e => exact .ret e
  | inContext ready e => exact Settles.ensureContext ready (.ret e)
  | inContextLocal ready r => exact Settles.ensureContext ready trivial
  | cudaGetDeviceCount ready => exact Settles.ensureInit ready (.ret _)
  | cudaSetDevice ready inRange switched =>
      refine Settles.ensureInit ready (Settles.stub _ ?_)
      split
      · exact Settles.ensureContext _ trivial
      · trivial
  | cudaDeviceGetAttribute ready => exact Settles.ensureInit ready (Settles.stub _ (.ret _))
  | cudaDeviceGetPCIBusId ready fits =>
      exact Settles.ensureInit ready
        (Settles.stub _ (Settles.stub _ (Settles.stub _ (Settles.stub _ trivial))))
  | cudaGetDeviceProperties_v2 ready =>
      refine Settles.ensureInit ready (Settles.stub _ ?_)
      intro _ _ _ answered
      cases answered with
      | true => rfl
      | false => exact .askEach _ _
  | cudaDeviceReset devices => exact (resetDevices_silent devices).settles
  | cudaSetDeviceFlags ready => exact Settles.ensureInit ready (Settles.stub _ (.ret _))
  | cudaUnregisterFatBinary loaded =>
      cases loaded with
      | false => trivial
      | true => exact fun _ => rfl
  | cudaFuncGetAttributes ready kernel =>
      exact Settles.ensureContext ready (Settles.resolveKernel kernel (Silent.askEach _ _).settles)
  | cudaFuncSetAttribute ready kernel | cudaOccupancyMaxActiveBlocksPerMultiprocessorWithFlags ready kernel =>
      exact Settles.ensureContext ready (Settles.resolveKernel kernel (.ret _))
  | cudaLaunchKernel ready kernel f args queued =>
      exact Settles.ensureContext ready (Settles.resolveKernel kernel (.ret _))

end Settles

/-- A `cuDeviceGet` that succeeds leaves no failure held: `device_attributes`, which only follows one, finds none to
take. -/
theorem device_attributes_finds_none {a : Answer} (hfolds : replyCarriesObservedState (name "cuDeviceGet") = false)
    (h : s.returned name (.stub "cuDeviceGet") a = .success) :
    (s.enter name (.stub "cuDeviceGet") a).held = .success := by
  have hcall : (a.call s.held (name "cuDeviceGet")).1 = .success := by
    by_contra hfailed
    exact hfailed ((AppThread.report_error _ _ hfailed).symm.trans h)
  show (a.call s.held (name "cuDeviceGet")).2 = .success
  rw [Answer.call] at hcall ⊢
  split at hcall
  · rw [fold] at hcall ⊢
    split at hcall
    · rename_i htakes
      rw [if_pos htakes]
    · rename_i hnot
      -- the call succeeded by itself, so it would have taken a failure
      rw [if_neg hnot]
      by_contra hheld
      exact hnot ⟨hcall, hheld, hfolds⟩
  · cases hcall
  · cases hcall

/-! ### The first call that takes the failure -/

namespace ClientCall

variable {c : ClientCall} {as : List Answer}

theorem run_held (c : ClientCall) (s : AppThread) (as : List Answer) :
    (c.run name s as).1.held = s.held ∨ (c.run name s as).1.held = .success := by
  cases c with
  | driver e => exact s.enter_held e _
  | runtime f => exact f.calls.run_held s as
  | library f =>
      cases f with
      | settled t => exact .inl rfl
      | sends library call gives => exact AppThread.call_held _ _ _

/-- The functions of the other libraries report no code of the driver. -/
theorem library_not_reports (f : LibraryCall) (hsettled : ∀ t, f ≠ .settled t) (a : Answer) (code : CUresult) :
    ¬ (f.run name s a).2.Reports code := by
  cases f with
  | settled t => exact absurd rfl (hsettled t)
  | sends library call gives =>
      rw [LibraryCall.run]
      dsimp only
      split <;> cases gives <;> exact fun h => h

/-- The call that takes the failure reports it, unless it is one that swallows it. -/
theorem reports_iff (h : c.Takes name s as) : (c.run name s as).2.Reports s.held ↔ ¬ c.Swallows name s as := by
  cases c with
  | driver e => exact AppThread.returned_iff h
  | runtime f =>
      have hiff := RuntimeFn.returned_iff f.calls_settles h.1 h.2
      cases f with
      | cudaUnregisterFatBinary loaded =>
          -- it has nothing to return: its call is one whose code is not looked at
          refine iff_of_false (fun hreports => hreports) fun hnot => ?_
          have hreturned := hiff.mpr hnot
          have hsilent : (CudartCall.cudaUnregisterFatBinary loaded).calls.Silent := by
            cases loaded with
            | false => rfl
            | true => exact fun _ => rfl
          exact h.1 (hreturned.symm.trans hsilent.run)
      | _ => exact hiff
  | library f =>
      refine iff_of_false ?_ fun hnot => hnot trivial
      refine library_not_reports f ?_ _ _
      rintro t rfl
      exact h.1 h.2

end ClientCall

namespace AppThread

variable {es : List ThreadEvent}

/-- A failure stays held over a run that does not take it. -/
theorem held_after (hheld : s.held ≠ .success) (h : Quiet name s es) : (s.after name es).held = s.held := by
  induction es generalizing s with
  | nil => rfl
  | cons ev es ih =>
      -- one step keeps what is held, and the rest of the run starts from there
      have hkept : (s.step name ev).held = s.held ∧ Quiet name (s.step name ev) es := by
        cases ev with
        | oneWay result => exact ⟨if_neg hheld, h⟩
        | enter c as =>
            refine ⟨?_, h.2⟩
            have hafter : (c.run name s as).1.held = s.held ∨ (c.run name s as).1.held = .success := c.run_held s as
            rcases hafter with hsame | htaken
            · exact hsame
            · exact absurd ⟨hheld, htaken⟩ h.1
        | others m => exact ⟨rfl, h⟩
        | forgotten => exact h.elim
      have hrest := ih (hkept.1 ▸ hheld) hkept.2
      exact hrest.trans hkept.1

/-- **A held failure reaches the application.** A one-way call fails with nothing held; the run goes on, and no call
takes the failure. The first one that does reports it, unless it is one that swallows it. -/
theorem failure_reported_iff (name : String → ApiId) (s : AppThread) (code : CUresult) (es : List ThreadEvent)
    (c : ClientCall) (as : List Answer) (hnone : s.held = .success) (hcode : code ≠ .success)
    (hquiet : (s.step name (.oneWay code)).Quiet name es)
    (htakes : c.Takes name ((s.step name (.oneWay code)).after name es) as) :
    (c.run name ((s.step name (.oneWay code)).after name es) as).2.Reports code ↔
      ¬ c.Swallows name ((s.step name (.oneWay code)).after name es) as := by
  have hfailed : (s.step name (.oneWay code)).held = code := if_pos hnone
  have hheld : ((s.step name (.oneWay code)).after name es).held = code := by
    have hkept := held_after (by rw [hfailed]; exact hcode) hquiet
    exact hkept.trans hfailed
  have hiff := c.reports_iff htakes
  rwa [hheld] at hiff

/-- A numbering for the examples. -/
def numbered (n : String) : ApiId := .ofNat (1000 + n.length)

/-- After a kernel has failed: a second failure, a switch of the capture mode whose reply may carry nothing, a
stream that is queried in vain, and a retain by another thread. -/
def afterFailure : List ThreadEvent :=
  [.oneWay 719, .enter (.driver (.cuThreadExchangeStreamCaptureMode true)) [{}],
    .enter (.runtime (.direct (.stub "cuStreamQuery"))) [{ own := 600 }],
    .others { retained := fun _ => 1 }]

/-- The stream is synchronized with after that, and `cudaStreamSynchronize` says what has failed. -/
theorem failure_reported_iff_synchronize :
    ((ClientCall.runtime (.inContext ⟨true, true, true, 0⟩ (.cuStreamSynchronize none))).run numbered
        ((({} : AppThread).step numbered (.oneWay 700)).after numbered afterFailure) [{}]).2.Reports 700 ↔
      ¬ (ClientCall.runtime (.inContext ⟨true, true, true, 0⟩ (.cuStreamSynchronize none))).Swallows numbered
        ((({} : AppThread).step numbered (.oneWay 700)).after numbered afterFailure) [{}] :=
  failure_reported_iff numbered {} 700 afterFailure
    (.runtime (.inContext ⟨true, true, true, 0⟩ (.cuStreamSynchronize none))) [{}] rfl (by decide)
    ⟨fun h => absurd h.2 (by decide), fun h => absurd h.2 (by decide), trivial⟩ ⟨by decide, by decide⟩

/-- A kernel fails, which was launched without waiting; then another one is launched, whose layout is not known yet.
The reply with the layout takes the failure, and the application is told that its arguments are invalid. -/
theorem launch_swallows_failure :
    ¬ ∀ (s : AppThread) (code : CUresult) (c : ClientCall) (as : List Answer), s.held = .success →
      code ≠ .success → c.Takes numbered (s.step numbered (.oneWay code)) as →
        (c.run numbered (s.step numbered (.oneWay code)) as).2.Reports code := by
  intro h
  have hlaunch := h {} 700 (.driver (.cuLaunchKernel 1 (.kernelParams true) .success)) [{}] rfl (by decide)
    ⟨by decide, by decide⟩
  exact absurd hlaunch (by decide)

end AppThread

end Rgpu
