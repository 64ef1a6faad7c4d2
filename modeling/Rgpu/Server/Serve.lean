import Rgpu.Wire.Calls

/-! # Serving one request (`server/main.cpp`)

The serving loop handles a frame in these steps:

* **`Session.check`** — the at-most-once check, under the session's mutex;
* **`Session.dispatch`** — the thread's slot, its state shown, the call, the readback;
* **`Session.complete`** — the request recorded as completed together with its failure held, or with
  its reply kept and a held failure handed over, under the session's mutex;
* the write of the reply, which is the connection's affair (`Rgpu.Server.Sessions`).

`ι` is the type of the session's inventory, which these steps only pass on. -/

namespace Rgpu

open Foundations

/-! ## The table of client threads -/

/-- `kRetiredSlots`: how many recently retired threads keep their slot. -/
def kRetiredSlots : ℕ := 64

namespace ClientThreads

/-- `say_unreported`: a slot is forgotten, and the failure it still holds is counted. -/
def sayUnreported (ts : ClientThreads) (id : ThreadId) (t : ClientThread) : ClientThreads :=
  if t.pendingAsync = .success then ts
  else
    { ts with
      unreportedFailures := ts.unreportedFailures + 1
      history := ts.history ++ [.unreported t.failure id] }

/-- The loop of `trim_retired`, at most `n` more times round. -/
def trimLoop : ℕ → ClientThreads → ClientThreads
  | 0, ts => ts
  | n + 1, ts =>
      match ts.retired with
      | [] => ts
      | (id, t) :: rest =>
          if kRetiredSlots < ts.retired.length then
            trimLoop n { ts.sayUnreported id t with retired := rest }
          else ts

/-- `trim_retired`: forgets the oldest retired slots past the bound. -/
def trimRetired (ts : ClientThreads) : ClientThreads := trimLoop ts.retired.length ts

/-- `admit_thread`: the slot for a thread not in the live table, its retired one if it has one; none
if the session already has as many live threads as it may. -/
def admitThread (limits : Limits) (ts : ClientThreads) (id : ThreadId) : Option ClientThreads :=
  if limits.maxClientThreads ≤ ts.live.length then none
  else
    some { ts with
      live := (id, (ts.retired.lookup id).getD {}) :: ts.live
      retired := AssocList.remove id ts.retired }

/-- `thread_slot`: the table with a slot for the thread that issued a request. -/
def threadSlot (limits : Limits) (ts : ClientThreads) (id : ThreadId) : Option ClientThreads :=
  match ts.live.lookup id with
  | some _ => some ts
  | none => ts.admitThread limits id

/-- `retire_thread`: drops a thread's slot into the retired set. -/
def retireThread (ts : ClientThreads) (id : ThreadId) : ClientThreads :=
  match ts.live.lookup id with
  | none => ts
  | some t =>
      trimRetired { ts with
        live := AssocList.remove id ts.live
        retired := ts.retired ++ [(id, t)] }

/-- The slots of a thread, live or retired. -/
def find (ts : ClientThreads) (id : ThreadId) : Option ClientThread :=
  (ts.live.lookup id).or (ts.retired.lookup id)

/-- Change the slot of a thread, live or retired. -/
def adjust (ts : ClientThreads) (id : ThreadId) (f : ClientThread → ClientThread) :
    ClientThreads :=
  match ts.live.lookup id with
  | some _ => { ts with live := AssocList.adjust id f ts.live }
  | none => { ts with retired := AssocList.adjust id f ts.retired }

/-- `deferred_home`: sees to a slot for the failure of a request that was given none. Its thread's
slot if it has one, live or retired; otherwise, if there is a failure to hold, a new retired one. -/
def deferredHome (ts : ClientThreads) (id : ThreadId) (make : Bool) : ClientThreads :=
  if id = 0 then ts
  else
    match ts.find id with
    | some _ => ts
    | none => if make then trimRetired { ts with retired := ts.retired ++ [(id, {})] } else ts

/-- A failure is held in its thread's slot, and counted. -/
def hold (ts : ClientThreads) (id : ThreadId) (code : CUresult) : ClientThreads :=
  let n := ts.heldFailures
  { ts.adjust id fun t => { t with pendingAsync := code, failure := n } with
    heldFailures := n + 1
    history := ts.history ++ [.held n id code] }

/-- The failure a thread's slot holds is handed to the reply to `req`. -/
def deliver (ts : ClientThreads) (id : ThreadId) (t : ClientThread) (req : RequestId) :
    ClientThreads :=
  { ts.adjust id fun t => { t with pendingAsync := .success } with
    history := ts.history ++ [.delivered t.failure id req t.pendingAsync] }

/-- At expiry: every failure still held is counted, and the table forgotten. -/
def expire (ts : ClientThreads) : ClientThreads :=
  let ts := (ts.live ++ ts.retired).foldl (fun ts e => ts.sayUnreported e.1 e.2) ts
  { ts with live := [], retired := [], applied := {} }

end ClientThreads

/-! ## Dispatch -/

/-- What the driver, and the code behind the calls that are not told apart, answer while a request
runs. -/
structure Answers (ι : Type) where
  /-- To the exchange that shows the thread's capture mode. -/
  showRefusal : Option CUerror := none
  /-- To a further exchange while the request runs. -/
  exchangeRefusal : Option CUerror := none
  /-- To a create. -/
  created : Except CUerror CUcontext := .ok 0
  /-- To a destroy or detach. -/
  destroyRefusal : Option CUerror := none
  /-- The result of any other call. -/
  result : CUresult := .success
  /-- The context any other call makes current by itself, if it does. -/
  current : Option CUcontext := none
  /-- The bytes any other call replies with. -/
  payload : List UInt8 := []
  /-- Whether the call's id is known. -/
  handled : Bool := true
  /-- `req.ok()`: the payload had every field that was read. -/
  wellFormed : Bool := true
  /-- What the call adds to and takes from the session's inventory. -/
  inventory : ι → ι := id

/-- What a dispatched request is completed with. -/
structure Outcome where
  /-- The result of the call, or of its refusal. -/
  result : CUresult
  /-- The bytes to reply with. -/
  payload : Payload
  /-- The payload was short, so the connection is dropped once the request is completed. -/
  malformed : Bool
  /-- The request was given its thread's slot in the live table. -/
  hasSlot : Bool
  deriving DecidableEq, Repr

variable {ι : Type}

namespace Serving

/-- The call itself, on the slot of the thread that issued it. A context call whose payload is short
is answered before it reaches the driver. -/
def call (limits : Limits) (s : Serving) (id : ThreadId) (a : Answers ι) :
    Call → Serving × CUresult × Payload
  | .other _ =>
      let s :=
        match a.current with
        | none => s
        | some h => { s with driver := (s.driver.setCurrent h).1 }
      if a.handled then (s, a.result, .bytes a.payload) else (s, .notSupported, .empty)
  | .threadGone _ => (s, .notSupported, .empty)
  | c =>
      if a.wellFormed = false then (s, .invalidValue, .empty)
      else
        match c with
        | .ctxSetCurrent ctx =>
            let r := s.wCuCtxSetCurrent id ctx a.exchangeRefusal
            (r.1, r.2, .empty)
        | .ctxPushCurrent ctx =>
            let r := s.wCuCtxPushCurrent limits id ctx
            (r.1, r.2, .empty)
        | .ctxPopCurrent out =>
            let r := s.wCuCtxPopCurrent id a.exchangeRefusal
            (r.1, r.2.1, if out then .context r.2.2 else .empty)
        | .ctxGetCurrent out =>
            if out then (s, .success, .context (s.wCuCtxGetCurrent id))
            else (s, .invalidValue, .empty)
        | .ctxCreate out =>
            -- the driver refuses to create without a pointer for the handle
            if out then
              let r := s.wCuCtxCreate limits id a.created
              (r.1, r.2.1, .context r.2.2)
            else (s, .invalidValue, .empty)
        | .ctxDestroy ctx | .ctxDetach ctx =>
            let r := s.wCuCtxDestroy id ctx a.destroyRefusal a.exchangeRefusal
            (r.1, r.2, .empty)
        | .captureMode mode =>
            let r := s.exchangeCaptureMode id mode a.exchangeRefusal
            (r.1, r.2.1, if r.2.1 = .success then .captureMode r.2.2 else .empty)
        | _ => (s, .notSupported, .empty)

/-- The calls whose `CUDA_ERROR_INVALID_CONTEXT` is about a context they were handed, and the ones that
are no driver calls: their result is not corrected. -/
def keepsInvalidContext (api : ApiId) : Bool :=
  !(api < Api.count ∨ (Api.internalBase ≤ api ∧ api < Api.cublasBase)) ∨
    api ∈ [Api.cuCtxSetCurrent, Api.cuCtxPushCurrent_v2, Api.cuCtxPopCurrent_v2,
      Api.cuCtxDestroy_v2, Api.cuCtxDetach, Api.cuCtxGetApiVersion, Api.cuCtxGetId,
      Api.cuCtxRecordEvent, Api.cuCtxWaitEvent, Api.cuCtxGetDevResource, Api.cuMemcpyPeer,
      Api.cuMemcpyPeerAsync, Api.cuGraphAddMemcpyNode, Api.cuGraphAddMemsetNode,
      Api.cuGraphConditionalHandleCreate, Api.cuGraphExecMemcpyNodeSetParams,
      Api.cuGraphExecMemsetNodeSetParams, Api.cuDevicePrimaryCtxRetain,
      Api.cuDevicePrimaryCtxRelease_v2]

/-- The readback of `client_thread_after`: a call the interception does not cover that changed the
context is taken at its word, as a replaced top, or a popped one if nothing is current now. -/
def adoptCurrent (s : Serving) (id : ThreadId) : Serving :=
  if s.driver.current = s.threads.applied.ctx then s
  else if s.driver.current = 0 then
    (s.modifySlot id fun t => t.setStack t.stack.tail).setApplied {}
  else
    (s.modifySlot id fun t => t.setStack (saved s.driver.current :: t.stack.tail)).setApplied
      (saved s.driver.current)

/-- Whether the thread's current context is a destroyed one. -/
def topGone (s : Serving) (id : ThreadId) : Bool :=
  match (s.slot id).stack with
  | [] => false
  | top :: _ => top.gone

/-- `client_thread_after`. -/
def clientThreadAfter (s : Serving) (id : ThreadId) (api : ApiId) (r : CUresult) :
    Serving × CUresult :=
  let s := s.adoptCurrent id
  (s, if r = .invalidContext ∧ s.topGone id ∧ !keepsInvalidContext api then .contextIsDestroyed
      else r)

/-- The body of the serving loop from the refusals to the readback. -/
def execute (limits : Limits) (s : Serving) (f : Frame) (a : Answers ι) : Serving × Outcome :=
  if f.threadId = 0 then
    (s, ⟨.invalidValue, .empty, false, false⟩)
  else
    match f.call with
    | .threadGone ids =>
        if a.wellFormed then
          ({ s with threads := ids.foldl ClientThreads.retireThread s.threads },
            ⟨.success, .empty, false, false⟩)
        else (s, ⟨.invalidValue, .empty, true, false⟩)
    | c =>
        match s.threads.threadSlot limits f.threadId with
        | none => (s, ⟨.invalidValue, .empty, false, false⟩)
        | some ts =>
            let s := { s with threads := ts }
            let shown :=
              if s.clientThreadShown f.threadId then (s, CUresult.success)
              else s.clientThreadShow f.threadId a.showRefusal
            if shown.2 = .success then
              let r := shown.1.call limits f.threadId a c
              let after := r.1.clientThreadAfter f.threadId c.api r.2.1
              if c.handled a.handled ∧ a.wellFormed = false then
                (after.1, ⟨.invalidValue, .empty, true, true⟩)
              else (after.1, ⟨after.2, r.2.2, false, true⟩)
            else (shown.1, ⟨shown.2, .empty, false, true⟩)

/-- The thread's state is shown, unless it is already. -/
def prepare (s : Serving) (id : ThreadId) (refusal : Option CUerror) : Serving × CUresult :=
  if s.clientThreadShown id then (s, .success) else s.clientThreadShow id refusal

/-- A request that is no notice is run on the slot of the thread it names, in a table that has one. -/
structure Slotted (limits : Limits) (s : Serving) (f : Frame) (ts : ClientThreads) : Prop where
  named : f.threadId ≠ 0
  call : ∀ ids, f.call ≠ .threadGone ids
  slot : s.threads.threadSlot limits f.threadId = some ts

/-- What running a request can come to. -/
inductive Executes (limits : Limits) (s : Serving) (f : Frame) (a : Answers ι) :
    Serving → Outcome → Prop
  /-- It names no thread, or its thread is refused a slot, or it is a short notice. -/
  | refused {malformed} (hwhy : f.threadId = 0 ∨ (∃ ids, f.call = .threadGone ids) ∨
        s.threads.threadSlot limits f.threadId = none) :
      Executes limits s f a s ⟨.invalidValue, .empty, malformed, false⟩
  /-- It announces threads gone. -/
  | notice {ids} (hid : f.threadId ≠ 0) (hcall : f.call = .threadGone ids) :
      Executes limits s f a { s with threads := ids.foldl ClientThreads.retireThread s.threads }
        ⟨.success, .empty, false, false⟩
  /-- Its thread's state cannot be shown. -/
  | unshown {ts s' r} (hslot : s.Slotted limits f ts)
      (hshown : ({ s with threads := ts } : Serving).prepare f.threadId a.showRefusal = (s', r))
      (hr : r ≠ .success) : Executes limits s f a s' ⟨r, .empty, false, true⟩
  /-- It runs. -/
  | ran {ts s' u r payload} (hslot : s.Slotted limits f ts)
      (hshown : ({ s with threads := ts } : Serving).prepare f.threadId a.showRefusal = (s', .success))
      (hcall : s'.call limits f.threadId a f.call = (u, r, payload))
      (hwhole : f.call.handled a.handled = true → a.wellFormed = true) :
      Executes limits s f a (u.adoptCurrent f.threadId)
        ⟨(u.clientThreadAfter f.threadId f.call.api r).2, payload, false, true⟩
  /-- It runs, and its payload is found to be short. -/
  | ranShort {ts s' u r payload} (hslot : s.Slotted limits f ts)
      (hshown : ({ s with threads := ts } : Serving).prepare f.threadId a.showRefusal = (s', .success))
      (hcall : s'.call limits f.threadId a f.call = (u, r, payload))
      (hhandled : f.call.handled a.handled = true) (hshort : a.wellFormed = false) :
      Executes limits s f a (u.adoptCurrent f.threadId) ⟨.invalidValue, .empty, true, true⟩

/-- How a request is executed, by how far it comes. -/
theorem executes (limits : Limits) (s : Serving) (f : Frame) (a : Answers ι) :
    Executes limits s f a (s.execute limits f a).1 (s.execute limits f a).2 := by
  unfold execute
  split
  · rename_i hid
    exact .refused (Or.inl hid)
  · rename_i hid
    split
    · rename_i ids hcall
      split
      · exact .notice hid hcall
      · exact .refused (Or.inr (Or.inl ⟨ids, hcall⟩))
    · rename_i hcall
      split
      · rename_i hslot
        exact .refused (Or.inr (Or.inr hslot))
      · rename_i ts hslot
        have hslotted : s.Slotted limits f ts := ⟨hid, hcall, hslot⟩
        dsimp only
        rw [← prepare]
        -- the thread's state is shown before its call
        rcases hshown : ({ s with threads := ts } : Serving).prepare f.threadId a.showRefusal with
          ⟨s', r⟩
        dsimp only
        split
        · rename_i hr
          subst hr
          split
          · rename_i hshort
            exact .ranShort hslotted hshown rfl hshort.1 hshort.2
          · rename_i hwhole
            refine .ran hslotted hshown rfl fun hhandled => ?_
            rw [not_and] at hwhole
            simpa using hwhole hhandled
        · rename_i hr
          exact .unshown hslotted hshown hr

end Serving

/-! ## Completion -/

namespace ClientThreads

/-- The slot a failure of the request is held in, or a held one taken from, if it has one. -/
def home (ts : ClientThreads) (f : Frame) (o : Outcome) : Option ClientThread :=
  if o.hasSlot then ts.live.lookup f.threadId
  else if f.threadId = 0 then none
  else ts.find f.threadId

/-- What completing a request does to the table, and the result it is answered with. -/
def settle (ts : ClientThreads) (f : Frame) (o : Outcome) : ClientThreads × CUresult :=
  if f.noReply then
    if o.result = .success then (ts, o.result)
    else
      let ts := if o.hasSlot then ts else ts.deferredHome f.threadId true
      match ts.home f o with
      | none => (ts, o.result)
      | some t =>
          if t.pendingAsync = .success then (ts.hold f.threadId o.result, o.result)
          else (ts, o.result)
  else
    let ts := if o.hasSlot then ts else ts.deferredHome f.threadId false
    match ts.home f o with
    | none => (ts, o.result)
    | some t =>
        -- only a call that succeeded on its own can carry an earlier error
        if o.result = .success ∧ t.pendingAsync ≠ .success ∧
            replyCarriesObservedState f.call.api = false then
          (ts.deliver f.threadId t f.reqId, t.pendingAsync)
        else (ts, o.result)

end ClientThreads

/-! ## Sessions -/

/-- What a session holds. -/
structure Session (ι : Type) where
  /-- `pending_fd`: a connection handed over by a handshake and not yet taken up. -/
  pendingFd : Option ConnId := none
  /-- The serving thread has given up and gone. -/
  finished : Bool := false
  /-- The last request this session completed. -/
  lastReq : RequestId := .none
  /-- The request whose reply is kept. -/
  lastReplyId : RequestId := .none
  /-- The most recent reply, kept in case the connection died before it was sent. -/
  lastReply : Option Reply := none
  /-- What the client asked the driver for and has not given back. -/
  inventory : ι
  /-- `threads`, and the driver of the thread that serves the session. -/
  serving : Serving := {}
  /-- The requests dispatched, by position, in order. No code reads it. -/
  dispatched : List ℕ := []
  /-- The replies made, in order. No code reads it. -/
  replies : List Reply := []

/-- What the at-most-once check finds. -/
inductive Verdict
  /-- The request has not run. -/
  | run
  /-- It has, and its reply is the one kept: it is sent again. -/
  | answer (reply : Reply)
  /-- It has, and is not answered. -/
  | skip
  deriving DecidableEq, Repr

namespace Session

/-- The at-most-once check. -/
def check (s : Session ι) (f : Frame) : Verdict :=
  if f.reqId.atOrBefore s.lastReq then
    if f.reqId.id = 0 then .skip
    else if f.noReply = false ∧ f.reqId.id = s.lastReplyId.id then
      match s.lastReply with
      | some reply => .answer reply
      | none => .skip
    else .skip
  else .run

/-- What runs is past the last request completed. -/
theorem check_eq_run {s : Session ι} {f : Frame} :
    s.check f = .run ↔ f.reqId.atOrBefore s.lastReq = false := by
  unfold check
  cases f.reqId.atOrBefore s.lastReq with
  | false => simp
  | true =>
      rw [if_pos rfl]
      constructor
      · intro h
        split at h
        · cases h
        · split at h
          · split at h <;> cases h
          · cases h
      · nofun

/-- What is answered again is to be answered, has the id of the reply kept, and is answered with it. -/
theorem check_eq_answer {s : Session ι} {f : Frame} {reply : Reply} (h : s.check f = .answer reply) :
    f.noReply = false ∧ f.reqId.id = s.lastReplyId.id ∧ s.lastReply = some reply := by
  unfold check at h
  split at h
  · split at h
    · cases h
    · split at h
      · rename_i hkept
        split at h
        · rename_i hreply
          cases h
          exact ⟨hkept.1, hkept.2, hreply⟩
        · cases h
      · cases h
  · cases h

/-- Running a request that has not run. -/
def dispatch (limits : Limits) (s : Session ι) (f : Frame) (a : Answers ι) : Session ι × Outcome :=
  let r := s.serving.execute limits f a
  ({ s with
      serving := r.1
      inventory := a.inventory s.inventory
      dispatched := s.dispatched ++ [f.reqId.pos] }, r.2)

/-- Recording a request as completed, with its failure held or its reply kept. -/
def complete (s : Session ι) (f : Frame) (o : Outcome) : Session ι × Option Reply :=
  let r := s.serving.threads.settle f o
  let s := { s with serving := { s.serving with threads := r.1 }, lastReq := f.reqId }
  if f.noReply then (s, none)
  else
    let reply : Reply := ⟨f.reqId, r.2, o.payload⟩
    ({ s with lastReplyId := f.reqId, lastReply := some reply, replies := s.replies ++ [reply] },
      some reply)

/-- Running a request and recording it: what a request changes before it is recorded no other thread
looks at, so the two are one step. The reply, if one is due, and whether the connection is closed
behind it. -/
def execute (limits : Limits) (s : Session ι) (f : Frame) (a : Answers ι) :
    Session ι × Option Reply × Bool :=
  let ran := s.dispatch limits f a
  let completed := ran.1.complete f ran.2
  (completed.1, completed.2, ran.2.malformed)

/-- What executing a request does to a session, apart from its client threads and inventory. -/
structure Executed (x : Session ι) (f : Frame) (x' : Session ι) (reply : Option Reply) : Prop where
  pendingFd : x'.pendingFd = x.pendingFd
  finished : x'.finished = x.finished
  dispatched : x'.dispatched = x.dispatched ++ [f.pos]
  lastReq : x'.lastReq = f.reqId
  oneWay : f.noReply = true → reply = none ∧ x'.lastReplyId = x.lastReplyId ∧
    x'.lastReply = x.lastReply ∧ x'.replies = x.replies
  waiting : f.noReply = false → ∃ r : Reply, reply = some r ∧ r.reqId = f.reqId ∧
    x'.lastReplyId = f.reqId ∧ x'.lastReply = some r ∧ x'.replies = x.replies ++ [r]

/-- What executing a frame leaves of the session's record. -/
theorem executed {limits : Limits} {x x' : Session ι} {f : Frame} {a : Answers ι}
    {reply : Option Reply} {last : Bool} (h : x.execute limits f a = (x', reply, last)) :
    Executed x f x' reply := by
  unfold execute complete dispatch at h
  simp only [Prod.mk.injEq] at h
  obtain ⟨hx, hreply, -⟩ := h
  cases hno : f.noReply with
  | true =>
      rw [hno, if_pos rfl] at hx hreply
      subst hx hreply
      exact ⟨rfl, rfl, rfl, rfl, fun _ => ⟨rfl, rfl, rfl, rfl⟩, fun h => by rw [hno] at h; cases h⟩
  | false =>
      rw [hno, if_neg (by simp)] at hx hreply
      subst hx hreply
      exact ⟨rfl, rfl, rfl, rfl, fun h => (by rw [hno] at h; cases h), fun _ => ⟨_, rfl, rfl, rfl, rfl, rfl⟩⟩

end Session

end Rgpu
