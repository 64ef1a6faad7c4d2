import Rgpu.Wire.Calls
import Mathlib.Tactic.Simps.Basic

/-! # The client's connection (`client/rpc.cpp`)

All calls of a client process go through one connection under one lock, so the client is a sequential
machine: `idle` between calls, and inside a call at the point where it connects, replays, queues,
writes or reads. An action is one of these; which call comes next, what a read returns, how much of a
write goes out and when a deadline passes are in the action, so this is the client on any network and
with any server.

* **`Client.step`** — the transition function; **`Client.Step`** lists the transitions.
* **`Client.writes`** and **`Client.touches`** — the frames a transition writes whole, and those it
  writes any byte of. -/

namespace Rgpu

/-- A call an application thread makes. -/
structure Request where
  /-- `call_async`: sent without expecting a reply, unless batching is off. -/
  oneWay : Bool
  /-- `this_thread_id()`. -/
  threadId : ThreadId
  /-- `api_id` and the payload. -/
  call : Call
  /-- `req.size()`. -/
  payloadLen : ℕ
  deriving DecidableEq

/-- What the process is started with. -/
structure ClientConfig where
  /-- `g_session`. -/
  session : SessionKey := ⟨1, 2⟩
  /-- `RGPU_BATCH`. -/
  batching : Bool := true
  /-- `RGPU_FLUSH_BYTES`. -/
  flushBytes : ℕ := 1024
  /-- `RGPU_TEST_FIRST_REQ_ID`. -/
  firstReqId : UInt32 := 1

/-- `kMaxUnackedBytes`. -/
def kMaxUnackedBytes : ℕ := 64 * 2 ^ 20

/-- What `ensure_connected_locked` was called for: to start a call, or, in `reconnect_locked`, to go on
with one. -/
inductive Purpose
  | start (r : Request)
  | retry (f : Frame)
  deriving DecidableEq

/-- Where the thread that holds the lock is. -/
inductive ClientPc
  /-- No thread holds the lock. -/
  | idle
  /-- About to connect. -/
  | opening (k : Purpose)
  /-- The handshake is written; reading its reply. -/
  | connecting (c : ConnId) (k : Purpose)
  /-- Writing the replay buffer, of which `rest` is left. -/
  | replaying (rest : List Frame) (k : Purpose)
  /-- Connected, and about to queue the frame of a call. -/
  | connected (r : Request)
  /-- Writing the queue for a call that waits; `last` if it is at its second go. -/
  | flushing (f : Frame) (last : Bool)
  /-- Writing the queue for a call that does not wait. -/
  | flushingAsync (f : Frame)
  /-- Reading the reply to a call; `last` if it is at its second go. -/
  | receiving (f : Frame) (last : Bool)
  /-- Between two attempts of `reconnect_locked`. -/
  | retrying (f : Frame)
  deriving DecidableEq

/-- A call that has returned to the application. No code keeps these. -/
structure Return where
  /-- The position of its request; `0` if none was queued. -/
  pos : ℕ
  /-- What the call returned. -/
  result : CUresult
  /-- The reply it returned it from. -/
  reply : Option Reply
  deriving DecidableEq

/-- The call returned an error because of the connection. -/
def Return.failed (r : Return) : Prop := r.reply = none ∧ r.result ≠ .success

instance (r : Return) : Decidable r.failed := inferInstanceAs (Decidable (_ ∧ _))

/-- The client side of a process. -/
structure Client where
  /-- `g_fd`. -/
  fd : Option ConnId := none
  /-- `g_req_ids_started` and `g_next_req`. -/
  reqIds : ReqCounter := {}
  /-- `g_connect_failed`. -/
  connectFailed : Bool := false
  /-- `g_had_session`. -/
  hadSession : Bool := false
  /-- `g_session_gone`. -/
  sessionGone : Bool := false
  /-- `g_last_reply`. -/
  lastReply : RequestId := .none
  /-- `g_queued`, frame by frame. -/
  queued : List Frame := []
  /-- `g_unacked`. -/
  unacked : List Frame := []
  /-- `g_unacked_bytes`. -/
  unackedBytes : ℕ := 0
  /-- `g_replay_possible`. -/
  replayPossible : Bool := true
  /-- Where the thread that holds `g_mu` is. -/
  pc : ClientPc := .idle
  /-- The frames queued, in order. No code keeps these. -/
  log : List Frame := []
  /-- The calls that have returned, in order. No code keeps these. -/
  returns : List Return := []
  /-- The session opened by the first handshake. No code keeps this. -/
  opened : Option SessionId := none

/-- What the client does next. -/
inductive ClientAction
  /-- A thread takes the lock to make a call. -/
  | begin (r : Request)
  /-- A connection is made and the handshake written, or it fails. -/
  | connect (c : Option ConnId)
  /-- The handshake reply is read, or it fails. -/
  | readReply (reply : Option HandshakeReply)
  /-- A frame of the replay buffer is written, or it fails. -/
  | replay (ok : Bool)
  /-- The frame of the call is queued, behind a notice of the threads in `gone`, if there are any. -/
  | queue (gone : List ThreadId)
  /-- The queue is written, or it fails after so many whole frames. -/
  | flush (failed : Option ℕ)
  /-- A reply is read, or it fails. -/
  | receive (reply : Option Reply)
  /-- `reconnect_locked` tries again. -/
  | again
  /-- The deadline of `reconnect_locked` has passed. -/
  | deadline
  /-- The process exits, and what is queued is written, or it fails. -/
  | exitFlush (failed : Option ℕ)
  deriving DecidableEq

namespace Client

/-- The bytes of a list of frames. -/
def sizeOf (fs : List Frame) : ℕ := (fs.map Frame.size).sum

/-- The handshake the client says first. -/
def hello (cfg : ClientConfig) (c : Client) : Handshake where
  session := cfg.session
  lastReq := c.lastReply
  resuming := c.hadSession

/-- The call returns, and the lock is released. -/
@[simps]
def ret (c : Client) (pos : ℕ) (result : CUresult) (reply : Option Reply) : Client :=
  { c with pc := .idle, returns := c.returns ++ [⟨pos, result, reply⟩] }

/-- `forget_acked_locked`. -/
@[simps]
def forgetAcked (c : Client) (upTo : RequestId) : Client :=
  let acked := fun f : Frame => f.reqId.atOrBefore upTo
  { c with
    unacked := c.unacked.dropWhile acked
    unackedBytes := c.unackedBytes - sizeOf (c.unacked.takeWhile acked) }

/-- Whether the last frame of the replay buffer is the one of request `r`. -/
def lastUnacked (c : Client) (r : RequestId) : Bool :=
  match c.unacked.getLast? with
  | none => false
  | some g => g.reqId.id = r.id

/-- `abandon_call_locked`, and the error the call returns. -/
@[simps!]
def abandon (c : Client) (f : Frame) : Client :=
  -- what was queued ahead of it stays to be replayed
  let own := c.lastUnacked f.reqId
  { c with
    unacked := if own then c.unacked.dropLast else c.unacked
    unackedBytes := if own then c.unackedBytes - f.size else c.unackedBytes
    lastReply := f.reqId
    fd := none }.ret f.reqId.pos .unknown none

/-- `queue_one_locked`. -/
def queueOne (cfg : ClientConfig) (c : Client) (noReply : Bool) (threadId : ThreadId) (call : Call)
    (payloadLen : ℕ) : Frame × Client :=
  let minted := mintReqId cfg.firstReqId c.reqIds
  let f : Frame := ⟨⟨minted.1, c.log.length + 1⟩, noReply, threadId, call, payloadLen⟩
  let c := { c with reqIds := minted.2, queued := c.queued ++ [f], log := c.log ++ [f] }
  if c.replayPossible then
    let bytes := c.unackedBytes + f.size
    -- from here on a lost connection is final
    if kMaxUnackedBytes < bytes then
      (f, { c with replayPossible := false, unacked := [], unackedBytes := 0 })
    else (f, { c with unacked := c.unacked ++ [f], unackedBytes := bytes })
  else (f, c)

/-- The notice of exited threads ahead of a frame of thread `threadId`: `gone` are those found listed,
other than that thread itself. -/
def queueNotice (cfg : ClientConfig) (c : Client) (threadId : ThreadId) (gone : List ThreadId) :
    Client :=
  if gone = [] then c
  else (c.queueOne cfg true threadId (.threadGone gone) (4 + 4 * gone.length)).2

/-- `queue_frame_locked`. -/
def queueFrame (cfg : ClientConfig) (c : Client) (r : Request) (gone : List ThreadId) :
    Frame × Client :=
  (c.queueNotice cfg r.threadId gone).queueOne cfg (r.oneWay && cfg.batching) r.threadId r.call
    r.payloadLen

/-- The connection is closed. -/
@[simps]
def drop (c : Client) : Client := { c with fd := none }

/-- `reconnect_locked`, which refuses when what was not acknowledged is no longer kept. -/
def reconnect (c : Client) (f : Frame) : Client :=
  if c.replayPossible then { c with pc := .retrying f } else c.abandon f

/-- `ensure_connected_locked` returns false. -/
def notConnected (c : Client) : Purpose → Client
  | .start _ => c.ret 0 .notInitialized none
  | .retry f => if c.sessionGone then c.abandon f else { c with pc := .retrying f }

/-- A waiting call goes to read its reply, once nothing is queued. -/
def awaitReply (c : Client) (f : Frame) (last : Bool) : Client :=
  { c with pc := if c.queued = [] then .receiving f last else .flushing f last }

/-- `ensure_connected_locked` returns true. -/
def isConnected (c : Client) : Purpose → Client
  | .start r => { c with pc := .connected r }
  | .retry f => c.awaitReply f true

/-- The replay buffer is written, as far as `rest` is left. -/
def replayRest (c : Client) (rest : List Frame) (k : Purpose) : Client :=
  if rest = [] then c.isConnected k else { c with pc := .replaying rest k }

/-- A handshake reply is in. -/
def handshaken (c : Client) (conn : ConnId) (k : Purpose) (reply : HandshakeReply) : Client :=
  if reply.busy ∨ reply.version ≠ kProtocolVersion then
    { c with connectFailed := true }.notConnected k
  -- the server has no such session any more, and starts none in its place
  else if c.hadSession ∧ reply.resumed = false then
    { c with
      sessionGone := true
      connectFailed := true
      queued := []
      unacked := []
      unackedBytes := 0 }.notConnected k
  else
    let c := { c with fd := some conn, hadSession := true, opened := c.opened.or reply.session }
    if reply.resumed then
      let c := c.forgetAcked reply.lastReq
      -- what is queued is in the replay as well
      { c with queued := [] }.replayRest c.unacked k
    else c.isConnected k

/-- A call that waits broke on its connection. -/
def broken (c : Client) (f : Frame) (last : Bool) : Client :=
  if last then c.drop.abandon f else c.drop.reconnect f

/-- The transition function. -/
def step (cfg : ClientConfig) (c : Client) : ClientAction → Option Client
  | .begin r =>
      match c.pc with
      | .idle =>
          if c.fd.isSome then some { c with pc := .connected r }
          else if c.sessionGone ∨ c.connectFailed then some (c.ret 0 .notInitialized none)
          else some { c with pc := .opening (.start r) }
      | _ => none
  | .connect conn =>
      match c.pc, conn with
      | .opening k, none => some ({ c with connectFailed := true }.notConnected k)
      | .opening k, some conn => some { c with pc := .connecting conn k }
      | _, _ => none
  | .readReply reply =>
      match c.pc, reply with
      | .connecting _ k, none => some ({ c with connectFailed := true }.notConnected k)
      | .connecting conn k, some reply => some (c.handshaken conn k reply)
      | _, _ => none
  | .replay ok =>
      match c.pc with
      | .replaying (_ :: rest) k =>
          if ok then some (c.replayRest rest k) else some (c.drop.notConnected k)
      | _ => none
  | .queue gone =>
      match c.pc with
      | .connected r =>
          let queued := c.queueFrame cfg r gone
          let f := queued.1
          let c := queued.2
          if f.noReply then
            if cfg.flushBytes ≤ sizeOf c.queued then some { c with pc := .flushingAsync f }
            else some (c.ret f.reqId.pos .success none)
          else some { c with pc := .flushing f false }
      | _ => none
  | .flush failed =>
      match c.pc, failed with
      | .flushing f last, none => some ({ c with queued := [] }.awaitReply f last)
      | .flushing f last, some k =>
          if k < c.queued.length then some ({ c with queued := [] }.broken f last) else none
      | .flushingAsync f, none => some ({ c with queued := [] }.ret f.reqId.pos .success none)
      | .flushingAsync f, some k =>
          if k < c.queued.length then
            some ({ c with queued := [] }.drop.ret f.reqId.pos .unknown none)
          else none
      | _, _ => none
  | .receive reply =>
      match c.pc, reply with
      | .receiving f last, none => some (c.broken f last)
      | .receiving f _, some reply =>
          -- the stream has lost its place
          if reply.reqId.id ≠ f.reqId.id then some (c.drop.abandon f)
          else
            some ({ c with lastReply := reply.reqId }.forgetAcked reply.reqId |>.ret f.reqId.pos
              reply.result (some reply))
      | _, _ => none
  | .again =>
      match c.pc with
      | .retrying f => some { c with connectFailed := false, pc := .opening (.retry f) }
      | _ => none
  | .deadline =>
      match c.pc with
      | .retrying f => some ({ c with connectFailed := true }.abandon f)
      | _ => none
  | .exitFlush failed =>
      match c.pc, c.fd, failed with
      -- tried only if no thread is inside a call
      | .idle, some _, none => some { c with queued := [] }
      | .idle, some _, some k =>
          if k < c.queued.length then some { c with queued := [], fd := none } else none
      | _, _, _ => none

/-! No transition but queueing a frame changes what was queued. -/

/-- Connecting, waiting and giving up queue nothing. -/
@[simp] theorem reconnect_log (c : Client) (f : Frame) :
    (c.reconnect f).log = c.log := by
  unfold reconnect
  split <;> rfl

/-- A connection that fails queues nothing. -/
@[simp] theorem notConnected_log (c : Client) (k : Purpose) :
    (c.notConnected k).log = c.log := by
  cases k with
  | start r => rfl
  | retry f =>
      simp only [notConnected]
      split <;> rfl

/-- Waiting for the reply queues nothing. -/
@[simp] theorem awaitReply_log (c : Client) (f : Frame) (last : Bool) : (c.awaitReply f last).log = c.log := rfl

/-- A connection that is made queues nothing. -/
@[simp] theorem isConnected_log (c : Client) (k : Purpose) :
    (c.isConnected k).log = c.log := by
  cases k <;> rfl

/-- Replaying queues nothing. -/
@[simp] theorem replayRest_log (c : Client) (rest : List Frame) (k : Purpose) :
    (c.replayRest rest k).log = c.log := by
  unfold replayRest
  split
  · exact c.isConnected_log k
  · rfl

/-- A connection that breaks queues nothing. -/
@[simp] theorem broken_log (c : Client) (f : Frame) (last : Bool) :
    (c.broken f last).log = c.log := by
  unfold broken
  split
  · rfl
  · exact c.drop.reconnect_log f

/-- The frames a transition writes whole. -/
def writes (c : Client) : ClientAction → List Frame
  | .replay true =>
      match c.pc with
      | .replaying (f :: _) _ => [f]
      | _ => []
  | .flush none | .exitFlush none => c.queued
  | .flush (some k) | .exitFlush (some k) => c.queued.take k
  | _ => []

/-- The frames a transition writes any byte of. -/
def touches (c : Client) : ClientAction → List Frame
  | .replay _ =>
      match c.pc with
      | .replaying (f :: _) _ => [f]
      | _ => []
  | .flush none | .exitFlush none => c.queued
  | .flush (some k) | .exitFlush (some k) => c.queued.take (k + 1)
  | _ => []

/-! ## The transitions one by one -/

/-- The transitions of `step`, each with what it assumes of the state before. -/
inductive Step (cfg : ClientConfig) (c : Client) : ClientAction → Client → Prop
  | beganConnected {r} (hpc : c.pc = .idle) (hfd : c.fd ≠ none) :
      Step cfg c (.begin r) { c with pc := .connected r }
  | beganRefused {r} (hpc : c.pc = .idle) (hfd : c.fd = none)
      (hfailed : c.sessionGone = true ∨ c.connectFailed = true) :
      Step cfg c (.begin r) (c.ret 0 .notInitialized none)
  | beganOpening {r} (hpc : c.pc = .idle) (hfd : c.fd = none) (hgone : c.sessionGone = false)
      (hfailed : c.connectFailed = false) :
      Step cfg c (.begin r) { c with pc := .opening (.start r) }
  | unreachable {k} (hpc : c.pc = .opening k) :
      Step cfg c (.connect none) ({ c with connectFailed := true }.notConnected k)
  | dialled {k conn} (hpc : c.pc = .opening k) :
      Step cfg c (.connect (some conn)) { c with pc := .connecting conn k }
  | unanswered {conn k} (hpc : c.pc = .connecting conn k) :
      Step cfg c (.readReply none) ({ c with connectFailed := true }.notConnected k)
  | refused {conn k reply} (hpc : c.pc = .connecting conn k)
      (hrefused : reply.busy = true ∨ reply.version ≠ kProtocolVersion) :
      Step cfg c (.readReply (some reply)) ({ c with connectFailed := true }.notConnected k)
  | learnedGone {conn k reply} (hpc : c.pc = .connecting conn k) (hbusy : reply.busy = false)
      (hversion : reply.version = kProtocolVersion) (hhad : c.hadSession = true)
      (hresumed : reply.resumed = false) :
      Step cfg c (.readReply (some reply))
        ({ c with
          sessionGone := true
          connectFailed := true
          queued := []
          unacked := []
          unackedBytes := 0 }.notConnected k)
  | resumed {conn k reply} (hpc : c.pc = .connecting conn k) (hbusy : reply.busy = false)
      (hversion : reply.version = kProtocolVersion) (hresumed : reply.resumed = true) :
      Step cfg c (.readReply (some reply))
        ({ c.forgetAcked reply.lastReq with
          fd := some conn
          hadSession := true
          opened := c.opened.or reply.session
          queued := [] }.replayRest (c.forgetAcked reply.lastReq).unacked k)
  | openedNew {conn k reply} (hpc : c.pc = .connecting conn k) (hbusy : reply.busy = false)
      (hversion : reply.version = kProtocolVersion) (hhad : c.hadSession = false)
      (hresumed : reply.resumed = false) :
      Step cfg c (.readReply (some reply))
        ({ c with
          fd := some conn
          hadSession := true
          opened := c.opened.or reply.session }.isConnected k)
  | replayed {g rest k} (hpc : c.pc = .replaying (g :: rest) k) :
      Step cfg c (.replay true) (c.replayRest rest k)
  | replayBroke {g rest k} (hpc : c.pc = .replaying (g :: rest) k) :
      Step cfg c (.replay false) (c.drop.notConnected k)
  | queuedReturn {r gone f c'} (hpc : c.pc = .connected r)
      (hqueue : c.queueFrame cfg r gone = (f, c')) (honeWay : f.noReply = true)
      (hsmall : sizeOf c'.queued < cfg.flushBytes) :
      Step cfg c (.queue gone) (c'.ret f.reqId.pos .success none)
  | queuedFlush {r gone f c'} (hpc : c.pc = .connected r)
      (hqueue : c.queueFrame cfg r gone = (f, c')) (honeWay : f.noReply = true)
      (hlarge : cfg.flushBytes ≤ sizeOf c'.queued) :
      Step cfg c (.queue gone) { c' with pc := .flushingAsync f }
  | queuedWaiting {r gone f c'} (hpc : c.pc = .connected r)
      (hqueue : c.queueFrame cfg r gone = (f, c')) (hwaiting : f.noReply = false) :
      Step cfg c (.queue gone) { c' with pc := .flushing f false }
  | flushed {f last} (hpc : c.pc = .flushing f last) :
      Step cfg c (.flush none) ({ c with queued := [] }.awaitReply f last)
  | flushBroke {f last n} (hpc : c.pc = .flushing f last) (hn : n < c.queued.length) :
      Step cfg c (.flush (some n)) ({ c with queued := [] }.broken f last)
  | flushedAsync {f} (hpc : c.pc = .flushingAsync f) :
      Step cfg c (.flush none) ({ c with queued := [] }.ret f.reqId.pos .success none)
  | flushAsyncBroke {f n} (hpc : c.pc = .flushingAsync f) (hn : n < c.queued.length) :
      Step cfg c (.flush (some n)) ({ c with queued := [] }.drop.ret f.reqId.pos .unknown none)
  | receiveBroke {f last} (hpc : c.pc = .receiving f last) :
      Step cfg c (.receive none) (c.broken f last)
  | mismatched {f last reply} (hpc : c.pc = .receiving f last)
      (hid : reply.reqId.id ≠ f.reqId.id) :
      Step cfg c (.receive (some reply)) (c.drop.abandon f)
  | received {f last reply} (hpc : c.pc = .receiving f last)
      (hid : reply.reqId.id = f.reqId.id) :
      Step cfg c (.receive (some reply))
        (({ c with lastReply := reply.reqId }.forgetAcked reply.reqId).ret f.reqId.pos reply.result
          (some reply))
  | triedAgain {f} (hpc : c.pc = .retrying f) :
      Step cfg c .again { c with connectFailed := false, pc := .opening (.retry f) }
  | gaveUp {f} (hpc : c.pc = .retrying f) :
      Step cfg c .deadline ({ c with connectFailed := true }.abandon f)
  | exitFlushed (hpc : c.pc = .idle) (hfd : c.fd ≠ none) :
      Step cfg c (.exitFlush none) { c with queued := [] }
  | exitFlushBroke {n} (hpc : c.pc = .idle) (hfd : c.fd ≠ none) (hn : n < c.queued.length) :
      Step cfg c (.exitFlush (some n)) { c with queued := [], fd := none }

/-- A call begins on a connection, is refused, or opens one. -/
theorem Step.of_begin {cfg : ClientConfig} {c c' : Client} {r : Request}
    (h : c.step cfg (.begin r) = some c') : Step cfg c (.begin r) c' := by
  unfold step at h
  dsimp only at h
  split at h
  · rename_i hpc
    by_cases hfd : c.fd.isSome
    · rw [if_pos hfd] at h
      obtain rfl := Option.some.inj h
      exact .beganConnected hpc (Option.isSome_iff_ne_none.mp hfd)
    · have hnone : c.fd = none := by simpa using hfd
      rw [if_neg hfd] at h
      by_cases hfailed : c.sessionGone = true ∨ c.connectFailed = true
      · rw [if_pos hfailed] at h
        obtain rfl := Option.some.inj h
        exact .beganRefused hpc hnone hfailed
      · rw [if_neg hfailed] at h
        obtain rfl := Option.some.inj h
        rw [not_or, Bool.not_eq_true, Bool.not_eq_true] at hfailed
        exact .beganOpening hpc hnone hfailed.1 hfailed.2
  · cases h

/-- The handshake is answered: refused, for a session that has gone, resumed, or for a new one. -/
theorem Step.of_readReply {cfg : ClientConfig} {c c' : Client} {reply : Option HandshakeReply}
    (h : c.step cfg (.readReply reply) = some c') : Step cfg c (.readReply reply) c' := by
  unfold step at h
  dsimp only at h
  split at h
  · rename_i hpc
    obtain rfl := Option.some.inj h
    exact .unanswered hpc
  · rename_i conn k reply hpc
    obtain rfl := Option.some.inj h
    unfold handshaken
    -- the answers in the order in which the source looks at them
    by_cases hrefused : reply.busy = true ∨ reply.version ≠ kProtocolVersion
    · rw [if_pos hrefused]
      exact .refused hpc hrefused
    · rw [if_neg hrefused]
      rw [not_or, Bool.not_eq_true, not_not] at hrefused
      by_cases hgone : c.hadSession = true ∧ reply.resumed = false
      · rw [if_pos hgone]
        exact .learnedGone hpc hrefused.1 hrefused.2 hgone.1 hgone.2
      · rw [if_neg hgone]
        by_cases hresumed : reply.resumed = true
        · rw [if_pos hresumed]
          exact .resumed hpc hrefused.1 hrefused.2 hresumed
        · rw [if_neg hresumed]
          rw [Bool.not_eq_true] at hresumed
          have hhad : c.hadSession = false := by
            rw [← Bool.not_eq_true]
            exact fun hhad => hgone ⟨hhad, hresumed⟩
          exact .openedNew hpc hrefused.1 hrefused.2 hhad hresumed
  · cases h

/-- A frame is queued, and is written at once if a reply is waited for or enough has been queued. -/
theorem Step.of_queue {cfg : ClientConfig} {c c' : Client} {gone : List ThreadId}
    (h : c.step cfg (.queue gone) = some c') : Step cfg c (.queue gone) c' := by
  unfold step at h
  dsimp only at h
  split at h
  · rename_i r hpc
    by_cases honeWay : (c.queueFrame cfg r gone).1.noReply = true
    · rw [if_pos honeWay] at h
      -- a one-way frame is sent once enough are queued
      by_cases hlarge : cfg.flushBytes ≤ sizeOf (c.queueFrame cfg r gone).2.queued
      · rw [if_pos hlarge] at h
        obtain rfl := Option.some.inj h
        exact .queuedFlush hpc rfl honeWay hlarge
      · rw [if_neg hlarge] at h
        obtain rfl := Option.some.inj h
        exact .queuedReturn hpc rfl honeWay (Nat.lt_of_not_le hlarge)
    · rw [if_neg honeWay] at h
      obtain rfl := Option.some.inj h
      exact .queuedWaiting hpc rfl (Bool.not_eq_true _ ▸ honeWay)
  · cases h

/-- What is queued is written, or the connection breaks inside it. -/
theorem Step.of_flush {cfg : ClientConfig} {c c' : Client} {failed : Option ℕ}
    (h : c.step cfg (.flush failed) = some c') : Step cfg c (.flush failed) c' := by
  unfold step at h
  dsimp only at h
  split at h
  · rename_i hpc
    obtain rfl := Option.some.inj h
    exact .flushed hpc
  · rename_i n hpc
    by_cases hn : n < c.queued.length
    · rw [if_pos hn] at h
      obtain rfl := Option.some.inj h
      exact .flushBroke hpc hn
    · rw [if_neg hn] at h
      cases h
  · rename_i hpc
    obtain rfl := Option.some.inj h
    exact .flushedAsync hpc
  · rename_i n hpc
    by_cases hn : n < c.queued.length
    · rw [if_pos hn] at h
      obtain rfl := Option.some.inj h
      exact .flushAsyncBroke hpc hn
    · rw [if_neg hn] at h
      cases h
  · cases h

/-- A reply is read: none, one to another request, or the one that is waited for. -/
theorem Step.of_receive {cfg : ClientConfig} {c c' : Client} {reply : Option Reply}
    (h : c.step cfg (.receive reply) = some c') : Step cfg c (.receive reply) c' := by
  unfold step at h
  dsimp only at h
  split at h
  · rename_i hpc
    obtain rfl := Option.some.inj h
    exact .receiveBroke hpc
  · rename_i f last reply hpc
    by_cases hid : reply.reqId.id ≠ f.reqId.id
    · rw [if_pos hid] at h
      obtain rfl := Option.some.inj h
      exact .mismatched hpc hid
    · rw [if_neg hid] at h
      obtain rfl := Option.some.inj h
      exact .received hpc (not_not.mp hid)
  · cases h

/-- **Every transition is one of these.** -/
theorem Step.of_step {cfg : ClientConfig} {c c' : Client} {a : ClientAction}
    (h : c.step cfg a = some c') : Step cfg c a c' := by
  cases a with
  | begin r => exact .of_begin h
  | connect conn =>
      unfold step at h
      dsimp only at h
      split at h
      · rename_i hpc
        obtain rfl := Option.some.inj h
        exact .unreachable hpc
      · rename_i hpc
        obtain rfl := Option.some.inj h
        exact .dialled hpc
      · cases h
  | readReply reply => exact .of_readReply h
  | replay ok =>
      unfold step at h
      dsimp only at h
      split at h
      · rename_i hpc
        cases ok with
        | true =>
            obtain rfl := Option.some.inj h
            exact .replayed hpc
        | false =>
            obtain rfl := Option.some.inj h
            exact .replayBroke hpc
      · cases h
  | queue gone => exact .of_queue h
  | flush failed => exact .of_flush h
  | receive reply => exact .of_receive h
  | again =>
      unfold step at h
      dsimp only at h
      split at h
      · rename_i hpc
        obtain rfl := Option.some.inj h
        exact .triedAgain hpc
      · cases h
  | deadline =>
      unfold step at h
      dsimp only at h
      split at h
      · rename_i hpc
        obtain rfl := Option.some.inj h
        exact .gaveUp hpc
      · cases h
  | exitFlush failed =>
      unfold step at h
      dsimp only at h
      split at h
      · rename_i hpc hfd
        obtain rfl := Option.some.inj h
        exact .exitFlushed hpc (by rw [hfd]; nofun)
      · rename_i n hpc hfd
        by_cases hn : n < c.queued.length
        · rw [if_pos hn] at h
          obtain rfl := Option.some.inj h
          exact .exitFlushBroke hpc (by rw [hfd]; nofun) hn
        · rw [if_neg hn] at h
          cases h
      · cases h

end Client

end Rgpu
