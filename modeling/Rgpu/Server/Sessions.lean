import Rgpu.Server.Serve
import Mathlib.Logic.Function.Basic
import Mathlib.Tactic.Simps.Basic

/-! # Sessions and connections (`server/main.cpp`)

A connection is one attempt of a client to reach the server; a session is a client process. The code
that accepts a connection reads its handshake and either starts a session or hands the connection to
the thread serving one, through the session's pending slot. The server is modelled by the program
counter of each connection's accept thread and of each session's serving thread, and by what they
share; an action is what one of them does between two points at which another can interfere: one hold
of a lock, or one read or write. What a read returns and whether a write succeeds is in the action, so
this is the server with any clients.

* **`Server.step`** — the transition function.
* **`Server.Step`** — the same transitions one by one, with what each may assume and does;
  `Server.Step.of_step` says these are all.
* **`Server.sends`** and **`ServerAction.uses`** — what a transition writes, and the descriptors it
  reads, writes or closes. -/

namespace Rgpu

open Foundations

/-- Where the accept code of a connection is. -/
inductive AcceptPc
  /-- The connection has not been accepted. -/
  | idle
  /-- Reading the handshake. -/
  | reading
  /-- The handshake is in, and in this server's protocol. -/
  | asked (hello : Handshake)
  /-- A session was found (`resumed`) or made for it. -/
  | found (sid : SessionId) (resumed : Bool) (hello : Handshake)
  /-- Writing the handshake reply; `unanswered` is the kept reply to send behind it. -/
  | answering (sid : SessionId) (reply : HandshakeReply) (unanswered : Option Reply)
  /-- Writing the kept reply. -/
  | resending (sid : SessionId) (unanswered : Reply)
  /-- About to hand the connection to a session that was resumed. -/
  | handing (sid : SessionId)
  /-- About to put the connection in the slot of a session that is new. -/
  | starting (sid : SessionId)
  /-- About to start the thread that serves the new session. -/
  | launching (sid : SessionId)
  /-- The handshake reply of a new session could not be written. -/
  | forgetting (sid : SessionId)
  /-- Writing a refusal, if there is one to write, before closing. -/
  | turningAway (refusal : Option HandshakeReply)
  /-- The accept code has returned. -/
  | returned
  deriving DecidableEq

/-- Where the thread serving a session is. -/
inductive ServePc
  /-- There is no such thread yet. -/
  | notStarted
  /-- Waiting for a connection. -/
  | waiting
  /-- Reading the next frame. -/
  | reading (c : ConnId)
  /-- Running a request. -/
  | running (c : ConnId) (f : Frame)
  /-- Writing a reply, made now or kept; `last` if the connection is closed behind it. -/
  | answering (c : ConnId) (reply : Reply) (last : Bool)
  /-- The grace period ran out. -/
  | leaving
  /-- The thread has ended. -/
  | exited
  deriving DecidableEq

/-- The accept code has the descriptor. -/
def AcceptPc.holds : AcceptPc → Bool
  | .idle | .launching _ | .returned => false
  | _ => true

/-- The session the accept code is about. -/
def AcceptPc.session : AcceptPc → Option SessionId
  | .found sid _ _ | .answering sid _ _ | .resending sid _ | .handing sid | .starting sid
  | .launching sid | .forgetting sid => some sid
  | _ => none

/-- The session the accept code made, and has neither started a thread for nor forgotten. -/
def AcceptPc.makes : AcceptPc → Option SessionId
  | .found sid false _ => some sid
  | .answering sid reply _ => if reply.resumed then none else some sid
  | .starting sid | .launching sid | .forgetting sid => some sid
  | _ => none

/-- The connection the serving thread is on. -/
def ServePc.conn : ServePc → Option ConnId
  | .reading c | .running c _ | .answering c _ _ => some c
  | _ => none

/-- Who has the descriptor of a connection. -/
inductive Owner
  | nobody
  | acceptCode
  | slot (sid : SessionId)
  | servingThread (sid : SessionId)
  | closed
  deriving DecidableEq

/-- The server. -/
structure Server (ι : Type) where
  /-- The accept code of each connection. -/
  accept : ConnId → AcceptPc := fun _ => .idle
  /-- `g_pending_handshakes`. -/
  pendingHandshakes : ℕ := 0
  /-- `g_sessions`. -/
  sessions : List (SessionKey × SessionId) := []
  /-- The session objects. -/
  session : SessionId → Session ι
  /-- How many of them have been made. -/
  made : ℕ := 0
  /-- The key each was made under. -/
  key : SessionId → SessionKey := fun _ => ⟨0, 0⟩
  /-- The thread serving each. -/
  serve : SessionId → ServePc := fun _ => .notStarted
  /-- How many serving threads were started for each. No code reads it. -/
  launches : SessionId → ℕ := fun _ => 0
  /-- How often each descriptor was closed. No code reads it. -/
  closes : ConnId → ℕ := fun _ => 0
  /-- Who has each descriptor. No code reads it. -/
  owner : ConnId → Owner := fun _ => .nobody

/-- What one thread of the server does next. -/
inductive ServerAction (ι : Type)
  /-- A connection is accepted, and its accept code started. -/
  | accept (c : ConnId)
  /-- The read of the handshake returns, or fails. -/
  | readHello (c : ConnId) (hello : Option Handshake)
  /-- The session is looked up, or made, under `g_sessions_mu`. -/
  | lookup (c : ConnId)
  /-- The handshake reply is made up under the session's mutex. -/
  | snapshot (c : ConnId)
  /-- The handshake reply is written, or the write fails. -/
  | writeReply (c : ConnId) (ok : Bool)
  /-- `forget_unserved`. -/
  | forget (c : ConnId)
  /-- The kept reply is written, or the write fails. -/
  | resend (c : ConnId) (ok : Bool)
  /-- The hand-over to a session that was resumed. -/
  | handOver (c : ConnId)
  /-- The first connection of a new session is put in its slot. -/
  | putFirst (c : ConnId)
  /-- The thread serving a new session is started. -/
  | launch (c : ConnId)
  /-- A refusal is written, or the write fails, and the connection closed. -/
  | turnAway (c : ConnId) (ok : Bool)
  /-- The serving thread takes the connection in the slot. -/
  | take (sid : SessionId)
  /-- The grace period runs out. -/
  | expire (sid : SessionId)
  /-- The serving thread leaves: its table entry goes, and its client threads. -/
  | leave (sid : SessionId)
  /-- The read of a frame returns, or fails. -/
  | read (sid : SessionId) (frame : Option Frame)
  /-- A request runs and is recorded as completed. -/
  | execute (sid : SessionId) (answers : Answers ι)
  /-- A reply is written, or the write fails. -/
  | answer (sid : SessionId) (ok : Bool)

/-- What the server answers a client that speaks another protocol, or whose session is not here. -/
def HandshakeReply.gone : HandshakeReply := {}

/-- What the server answers a client it will not start a session for. -/
def HandshakeReply.full : HandshakeReply := { busy := true }

variable {ι : Type}

namespace Server

/-- A server that has just started to listen. -/
def initial (ι : Type) [Inhabited ι] : Server ι := { session := fun _ => { inventory := default } }

/-- Move the accept code of a connection. -/
@[simps -fullyApplied]
def setAccept (s : Server ι) (c : ConnId) (pc : AcceptPc) : Server ι :=
  { s with accept := Function.update s.accept c pc }

/-- Move a serving thread. -/
@[simps -fullyApplied]
def setServe (s : Server ι) (sid : SessionId) (pc : ServePc) : Server ι :=
  { s with serve := Function.update s.serve sid pc }

/-- Change a session. -/
@[simps -fullyApplied]
def setSession (s : Server ι) (sid : SessionId) (x : Session ι) : Server ι :=
  { s with session := Function.update s.session sid x }

/-- The descriptor passes to another owner. -/
@[simps -fullyApplied]
def give (s : Server ι) (c : ConnId) (o : Owner) : Server ι :=
  { s with owner := Function.update s.owner c o }

/-- `::close`. -/
@[simps -fullyApplied]
def close (s : Server ι) (c : ConnId) : Server ι :=
  { s with
    closes := Function.update s.closes c (s.closes c + 1)
    owner := Function.update s.owner c .closed }

/-- A connection is accepted, and its handshake counts as pending. -/
@[simps -fullyApplied]
def acceptStarts (s : Server ι) (c : ConnId) (pc : AcceptPc) : Server ι :=
  { s with
    accept := Function.update s.accept c pc
    pendingHandshakes := s.pendingHandshakes + 1
    owner := Function.update s.owner c .acceptCode }

/-- The accept code of a connection returns, and its handshake no longer counts as pending. -/
@[simps -fullyApplied]
def acceptReturns (s : Server ι) (c : ConnId) : Server ι :=
  { s with
    accept := Function.update s.accept c .returned
    pendingHandshakes := s.pendingHandshakes - 1 }

/-- A thread that serves a session is started. -/
@[simps -fullyApplied]
def startServing (s : Server ι) (sid : SessionId) : Server ι :=
  { s with
    serve := Function.update s.serve sid .waiting
    launches := Function.update s.launches sid (s.launches sid + 1) }

/-- Closes the connection in a session's slot, if there is one. -/
@[simps -fullyApplied]
def closePending (s : Server ι) (sid : SessionId) : Server ι :=
  { s with
    closes :=
      match (s.session sid).pendingFd with
      | none => s.closes
      | some c => (s.close c).closes
    owner :=
      match (s.session sid).pendingFd with
      | none => s.owner
      | some c => (s.close c).owner }

/-- Puts a connection in a session's slot, closing the one that is there. -/
@[simps! -fullyApplied]
def putPending (s : Server ι) (sid : SessionId) (c : ConnId) : Server ι :=
  ((s.closePending sid).setSession sid { s.session sid with pendingFd := some c }).give c (.slot sid)

/-- The unfinished session under a key. -/
def unfinished (s : Server ι) (key : SessionKey) : Option SessionId :=
  match s.sessions.lookup key with
  | none => none
  | some sid => if (s.session sid).finished then none else some sid

/-- A new session, under a key. A finished one still there is replaced. -/
@[simps -fullyApplied]
def register [Inhabited ι] (s : Server ι) (key : SessionKey) : Server ι :=
  { s with
    sessions :=
      if (s.sessions.lookup key).isSome then AssocList.adjust key (fun _ => s.made) s.sessions
      else (key, s.made) :: s.sessions
    session := Function.update s.session s.made { inventory := default }
    key := Function.update s.key s.made key
    made := s.made + 1 }

/-- Takes a session's entry out of the table, if it is still this session that is under its key. -/
@[simps -fullyApplied]
def eraseEntry (s : Server ι) (sid : SessionId) : Server ι :=
  { s with
    sessions :=
      if s.sessions.lookup (s.key sid) = some sid then AssocList.remove (s.key sid) s.sessions
      else s.sessions }

/-- Whether another session may be added. -/
def hasRoom (limits : Limits) (s : Server ι) (key : SessionKey) : Bool :=
  (s.sessions.lookup key).isSome ∨ s.sessions.length < limits.maxSessions

/-- Looking a session up, or making one. -/
def lookup [Inhabited ι] (limits : Limits) (s : Server ι) (c : ConnId) (hello : Handshake) :
    Server ι :=
  match s.unfinished hello.session with
  | some sid => s.setAccept c (.found sid true hello)
  | none =>
      if hello.starting then
        if s.hasRoom limits hello.session then
          (s.register hello.session).setAccept c (.found s.made false hello)
        else s.setAccept c (.turningAway (some .full))
      else s.setAccept c (.turningAway (some .gone))

/-- The kept reply a client that is coming back has not received, if there is one. -/
def unanswered (x : Session ι) (hello : Handshake) : Option Reply :=
  if x.lastReplyId.atOrBefore hello.lastReq then none else x.lastReply

/-- The transition function. -/
def step [Inhabited ι] (limits : Limits) (s : Server ι) : ServerAction ι → Option (Server ι)
  | .accept c =>
      match s.accept c with
      | .idle =>
          some (s.acceptStarts c
            (if limits.maxPendingHandshakes < s.pendingHandshakes + 1 then .turningAway none
              else .reading))
      | _ => none
  | .readHello c hello =>
      match s.accept c, hello with
      | .reading, none => some ((s.close c).acceptReturns c)
      | .reading, some h =>
          some (s.setAccept c
            (if h.version = kProtocolVersion then .asked h else .turningAway (some .gone)))
      | _, _ => none
  | .lookup c =>
      match s.accept c with
      | .asked hello => some (s.lookup limits c hello)
      | _ => none
  | .snapshot c =>
      match s.accept c with
      | .found sid resumed hello =>
          let x := s.session sid
          some (s.setAccept c (.answering sid
            { resumed := resumed, lastReq := x.lastReq, session := some sid }
            (if resumed then unanswered x hello else none)))
      | _ => none
  | .writeReply c ok =>
      match s.accept c with
      | .answering sid reply unanswered =>
          if ok then
            match reply.resumed, unanswered with
            | true, some u => some (s.setAccept c (.resending sid u))
            | true, none => some (s.setAccept c (.handing sid))
            | false, _ => some (s.setAccept c (.starting sid))
          else if reply.resumed then some ((s.close c).acceptReturns c)
          else some (s.setAccept c (.forgetting sid))
      | _ => none
  | .forget c =>
      match s.accept c with
      | .forgetting sid =>
          let s := (s.eraseEntry sid).closePending sid
          let s := s.setSession sid { s.session sid with finished := true, pendingFd := none }
          some ((s.close c).acceptReturns c)
      | _ => none
  | .resend c ok =>
      match s.accept c with
      | .resending sid _ =>
          if ok then some (s.setAccept c (.handing sid)) else some ((s.close c).acceptReturns c)
      | _ => none
  | .handOver c =>
      match s.accept c with
      | .handing sid =>
          if (s.session sid).finished then some ((s.close c).acceptReturns c)
          else some ((s.putPending sid c).acceptReturns c)
      | _ => none
  | .putFirst c =>
      match s.accept c with
      | .starting sid => some ((s.putPending sid c).setAccept c (.launching sid))
      | _ => none
  | .launch c =>
      match s.accept c with
      | .launching sid => some ((s.startServing sid).acceptReturns c)
      | _ => none
  | .turnAway c _ =>
      match s.accept c with
      | .turningAway _ => some ((s.close c).acceptReturns c)
      | _ => none
  | .take sid =>
      match s.serve sid, (s.session sid).pendingFd with
      | .waiting, some c =>
          some (((s.setSession sid { s.session sid with pendingFd := none }).give c
            (.servingThread sid)).setServe sid (.reading c))
      | _, _ => none
  | .expire sid =>
      match s.serve sid, (s.session sid).pendingFd with
      | .waiting, none =>
          some ((s.setSession sid { s.session sid with finished := true }).setServe sid .leaving)
      | _, _ => none
  | .leave sid =>
      match s.serve sid with
      | .leaving =>
          let x := s.session sid
          let threads := x.serving.threads.expire
          some (((s.eraseEntry sid).setSession sid
            { x with serving := { x.serving with threads := threads } }).setServe sid .exited)
      | _ => none
  | .read sid frame =>
      match s.serve sid, frame with
      | .reading c, none => some ((s.close c).setServe sid .waiting)
      | .reading c, some f =>
          match (s.session sid).check f with
          | .run => some (s.setServe sid (.running c f))
          | .answer reply => some (s.setServe sid (.answering c reply false))
          | .skip => some s
      | _, _ => none
  | .execute sid answers =>
      match s.serve sid with
      | .running c f =>
          match (s.session sid).execute limits f answers with
          | (x, some reply, last) => some ((s.setSession sid x).setServe sid (.answering c reply last))
          | (x, none, true) => some (((s.setSession sid x).close c).setServe sid .waiting)
          | (x, none, false) => some ((s.setSession sid x).setServe sid (.reading c))
      | _ => none
  | .answer sid ok =>
      match s.serve sid with
      | .answering c _ last =>
          if ok ∧ last = false then some (s.setServe sid (.reading c))
          else some ((s.close c).setServe sid .waiting)
      | _ => none

/-! ## What a transition does to descriptors -/

/-- The message a transition writes, if it writes a whole one. -/
def sends (s : Server ι) : ServerAction ι → Option (ConnId × Message)
  | .writeReply c true =>
      match s.accept c with
      | .answering _ reply _ => some (c, .handshake reply)
      | _ => none
  | .resend c true =>
      match s.accept c with
      | .resending _ u => some (c, .reply u)
      | _ => none
  | .turnAway c true =>
      match s.accept c with
      | .turningAway (some refusal) => some (c, .handshake refusal)
      | _ => none
  | .answer sid true =>
      match s.serve sid with
      | .answering c reply _ => some (c, .reply reply)
      | _ => none
  | _ => none

/-- The descriptors a transition reads, writes or closes. -/
def uses (s : Server ι) : ServerAction ι → List ConnId
  | .readHello c _ | .writeReply c _ | .resend c _ | .turnAway c _ => [c]
  | .forget c =>
      match s.accept c with
      | .forgetting sid => c :: (s.session sid).pendingFd.toList
      | _ => []
  | .handOver c =>
      match s.accept c with
      | .handing sid =>
          if (s.session sid).finished then [c] else (s.session sid).pendingFd.toList
      | _ => []
  | .putFirst c =>
      match s.accept c with
      | .starting sid => (s.session sid).pendingFd.toList
      | _ => []
  | .read sid _ | .execute sid _ | .answer sid _ => (s.serve sid).conn.toList
  | .accept _ | .lookup _ | .snapshot _ | .launch _ | .take _ | .expire _ | .leave _ => []

/-! ## The transitions one by one -/

/-- The transitions of `step`, each with what it assumes of the state before. -/
inductive Step [Inhabited ι] (limits : Limits) (s : Server ι) : ServerAction ι → Server ι → Prop
  | accepted {c} {pc : AcceptPc} (idle : s.accept c = .idle)
      (hpc : pc = .turningAway none ∨ pc = .reading) :
      Step limits s (.accept c) (s.acceptStarts c pc)
  | helloFailed {c} (hpc : s.accept c = .reading) :
      Step limits s (.readHello c none) ((s.close c).acceptReturns c)
  | helloRead {c hello} (hpc : s.accept c = .reading) (hversion : hello.version = kProtocolVersion) :
      Step limits s (.readHello c (some hello)) (s.setAccept c (.asked hello))
  | helloForeign {c hello} (hpc : s.accept c = .reading)
      (hversion : hello.version ≠ kProtocolVersion) :
      Step limits s (.readHello c (some hello)) (s.setAccept c (.turningAway (some .gone)))
  | lookupFound {c hello sid} (hpc : s.accept c = .asked hello)
      (hfound : s.unfinished hello.session = some sid) :
      Step limits s (.lookup c) (s.setAccept c (.found sid true hello))
  | lookupMade {c hello} (hpc : s.accept c = .asked hello)
      (hnone : s.unfinished hello.session = none) (hstarting : hello.starting = true)
      (hroom : s.hasRoom limits hello.session = true) :
      Step limits s (.lookup c) ((s.register hello.session).setAccept c (.found s.made false hello))
  | lookupFull {c hello} (hpc : s.accept c = .asked hello)
      (hnone : s.unfinished hello.session = none) (hstarting : hello.starting = true)
      (hroom : s.hasRoom limits hello.session = false) :
      Step limits s (.lookup c) (s.setAccept c (.turningAway (some .full)))
  | lookupGone {c hello} (hpc : s.accept c = .asked hello)
      (hnone : s.unfinished hello.session = none) (hstarting : hello.starting = false) :
      Step limits s (.lookup c) (s.setAccept c (.turningAway (some .gone)))
  | snapshotTaken {c sid resumed hello} (hpc : s.accept c = .found sid resumed hello) :
      Step limits s (.snapshot c) (s.setAccept c (.answering sid
        { resumed := resumed, lastReq := (s.session sid).lastReq, session := some sid }
        (if resumed then unanswered (s.session sid) hello else none)))
  | wroteKept {c sid reply u} (hpc : s.accept c = .answering sid reply (some u))
      (hresumed : reply.resumed = true) :
      Step limits s (.writeReply c true) (s.setAccept c (.resending sid u))
  | wroteResumed {c sid reply} (hpc : s.accept c = .answering sid reply none)
      (hresumed : reply.resumed = true) :
      Step limits s (.writeReply c true) (s.setAccept c (.handing sid))
  | wroteNew {c sid reply u} (hpc : s.accept c = .answering sid reply u)
      (hresumed : reply.resumed = false) :
      Step limits s (.writeReply c true) (s.setAccept c (.starting sid))
  | unwrittenResumed {c sid reply u} (hpc : s.accept c = .answering sid reply u)
      (hresumed : reply.resumed = true) :
      Step limits s (.writeReply c false) ((s.close c).acceptReturns c)
  | unwrittenNew {c sid reply u} (hpc : s.accept c = .answering sid reply u)
      (hresumed : reply.resumed = false) :
      Step limits s (.writeReply c false) (s.setAccept c (.forgetting sid))
  | forgot {c sid} (hpc : s.accept c = .forgetting sid) :
      Step limits s (.forget c)
        (((((s.eraseEntry sid).closePending sid).setSession sid
          { s.session sid with finished := true, pendingFd := none }).close c).acceptReturns c)
  | resent {c sid u} (hpc : s.accept c = .resending sid u) :
      Step limits s (.resend c true) (s.setAccept c (.handing sid))
  | resendFailed {c sid u} (hpc : s.accept c = .resending sid u) :
      Step limits s (.resend c false) ((s.close c).acceptReturns c)
  | handedLate {c sid} (hpc : s.accept c = .handing sid)
      (hfinished : (s.session sid).finished = true) :
      Step limits s (.handOver c) ((s.close c).acceptReturns c)
  | handedOver {c sid} (hpc : s.accept c = .handing sid)
      (hfinished : (s.session sid).finished = false) :
      Step limits s (.handOver c) ((s.putPending sid c).acceptReturns c)
  | firstPut {c sid} (hpc : s.accept c = .starting sid) :
      Step limits s (.putFirst c) ((s.putPending sid c).setAccept c (.launching sid))
  | launched {c sid} (hpc : s.accept c = .launching sid) :
      Step limits s (.launch c) ((s.startServing sid).acceptReturns c)
  | turnedAway {c refusal ok} (hpc : s.accept c = .turningAway refusal) :
      Step limits s (.turnAway c ok) ((s.close c).acceptReturns c)
  | taken {sid c} (hpc : s.serve sid = .waiting) (hpending : (s.session sid).pendingFd = some c) :
      Step limits s (.take sid)
        (((s.setSession sid { s.session sid with pendingFd := none }).give c
          (.servingThread sid)).setServe sid (.reading c))
  | expired {sid} (hpc : s.serve sid = .waiting) (hpending : (s.session sid).pendingFd = none) :
      Step limits s (.expire sid)
        ((s.setSession sid { s.session sid with finished := true }).setServe sid .leaving)
  | left {sid} (hpc : s.serve sid = .leaving) :
      Step limits s (.leave sid)
        (((s.eraseEntry sid).setSession sid { s.session sid with
          serving := { (s.session sid).serving with
            threads := (s.session sid).serving.threads.expire } }).setServe sid .exited)
  | readFailed {sid c} (hpc : s.serve sid = .reading c) :
      Step limits s (.read sid none) ((s.close c).setServe sid .waiting)
  | readToRun {sid c f} (hpc : s.serve sid = .reading c)
      (hcheck : (s.session sid).check f = .run) :
      Step limits s (.read sid (some f)) (s.setServe sid (.running c f))
  | readToAnswer {sid c f reply} (hpc : s.serve sid = .reading c)
      (hcheck : (s.session sid).check f = .answer reply) :
      Step limits s (.read sid (some f)) (s.setServe sid (.answering c reply false))
  | readToSkip {sid c f} (hpc : s.serve sid = .reading c)
      (hcheck : (s.session sid).check f = .skip) :
      Step limits s (.read sid (some f)) s
  | executedReply {sid c f reply x} {answers : Answers ι} {last : Bool}
      (hpc : s.serve sid = .running c f) (hexec : (s.session sid).execute limits f answers =
        (x, some reply, last)) :
      Step limits s (.execute sid answers)
        ((s.setSession sid x).setServe sid (.answering c reply last))
  | executedLast {sid c f x} {answers : Answers ι} (hpc : s.serve sid = .running c f)
      (hexec : (s.session sid).execute limits f answers = (x, none, true)) :
      Step limits s (.execute sid answers)
        (((s.setSession sid x).close c).setServe sid .waiting)
  | executedOneWay {sid c f x} {answers : Answers ι} (hpc : s.serve sid = .running c f)
      (hexec : (s.session sid).execute limits f answers = (x, none, false)) :
      Step limits s (.execute sid answers) ((s.setSession sid x).setServe sid (.reading c))
  | answered {sid c reply} (hpc : s.serve sid = .answering c reply false) :
      Step limits s (.answer sid true) (s.setServe sid (.reading c))
  | answeredLast {sid c reply last ok} (hpc : s.serve sid = .answering c reply last)
      (hlast : ¬ (ok = true ∧ last = false)) :
      Step limits s (.answer sid ok) ((s.close c).setServe sid .waiting)

/-- A handshake was read, in this protocol or another, or could not be. -/
theorem Step.of_readHello [Inhabited ι] {limits : Limits} {s t : Server ι} {c : ConnId} {hello : Option Handshake}
    (h : s.step limits (.readHello c hello) = some t) : Step limits s (.readHello c hello) t := by
  unfold step at h
  dsimp only at h
  split at h
  · rename_i hpc
    obtain rfl := Option.some.inj h
    exact .helloFailed hpc
  · rename_i h' hpc
    obtain rfl := Option.some.inj h
    by_cases hv : h'.version = kProtocolVersion
    · rw [if_pos hv]
      exact .helloRead hpc hv
    · rw [if_neg hv]
      exact .helloForeign hpc hv
  · cases h

/-- A session was found or made, or there is no room for one, or the one asked for is gone. -/
theorem Step.of_lookup [Inhabited ι] {limits : Limits} {s t : Server ι} {c : ConnId}
    (h : s.step limits (.lookup c) = some t) : Step limits s (.lookup c) t := by
  unfold step at h
  dsimp only at h
  split at h
  · rename_i hello hpc
    obtain rfl := Option.some.inj h
    unfold Server.lookup
    -- the session is there, or it is made if there is room, or a client that had one is told that it is gone
    split
    · rename_i sid hfound
      exact .lookupFound hpc hfound
    · rename_i hnone
      by_cases hstart : hello.starting = true
      · rw [if_pos hstart]
        by_cases hroom : s.hasRoom limits hello.session = true
        · rw [if_pos hroom]
          exact .lookupMade hpc hnone hstart hroom
        · rw [if_neg hroom]
          exact .lookupFull hpc hnone hstart (Bool.not_eq_true _ ▸ hroom)
      · rw [if_neg hstart]
        exact .lookupGone hpc hnone (Bool.not_eq_true _ ▸ hstart)
  · cases h

/-- The handshake reply was written, or not, to a session that is resumed or new. -/
theorem Step.of_writeReply [Inhabited ι] {limits : Limits} {s t : Server ι} {c : ConnId} {ok : Bool}
    (h : s.step limits (.writeReply c ok) = some t) : Step limits s (.writeReply c ok) t := by
  unfold step at h
  dsimp only at h
  split at h
  · rename_i sid reply u hpc
    cases ok with
    | true =>
        rw [if_pos rfl] at h
        -- what comes next depends on what the lookup found
        split at h
        · rename_i hres
          obtain rfl := Option.some.inj h
          exact .wroteKept hpc hres
        · rename_i hres
          obtain rfl := Option.some.inj h
          exact .wroteResumed hpc hres
        · rename_i hres
          obtain rfl := Option.some.inj h
          exact .wroteNew hpc hres
    | false =>
        rw [if_neg (by simp)] at h
        split at h
        · rename_i hres
          obtain rfl := Option.some.inj h
          exact .unwrittenResumed hpc hres
        · rename_i hres
          obtain rfl := Option.some.inj h
          exact .unwrittenNew hpc (Bool.not_eq_true _ ▸ hres)
  · cases h

/-- The kept reply was written, or not. -/
theorem Step.of_resend [Inhabited ι] {limits : Limits} {s t : Server ι} {c : ConnId} {ok : Bool}
    (h : s.step limits (.resend c ok) = some t) : Step limits s (.resend c ok) t := by
  unfold step at h
  dsimp only at h
  split at h
  · rename_i hpc
    cases ok with
    | true =>
        obtain rfl := Option.some.inj h
        exact .resent hpc
    | false =>
        obtain rfl := Option.some.inj h
        exact .resendFailed hpc
  · cases h

/-- A connection was handed to its session, or the session had finished. -/
theorem Step.of_handOver [Inhabited ι] {limits : Limits} {s t : Server ι} {c : ConnId}
    (h : s.step limits (.handOver c) = some t) : Step limits s (.handOver c) t := by
  unfold step at h
  dsimp only at h
  split at h
  · rename_i hpc
    split at h
    · rename_i hfin
      obtain rfl := Option.some.inj h
      exact .handedLate hpc hfin
    · rename_i hfin
      obtain rfl := Option.some.inj h
      exact .handedOver hpc (Bool.not_eq_true _ ▸ hfin)
  · cases h

/-- A frame was read that is new, or the last one again, or older, or none could be. -/
theorem Step.of_read [Inhabited ι] {limits : Limits} {s t : Server ι} {sid : SessionId} {frame : Option Frame}
    (h : s.step limits (.read sid frame) = some t) : Step limits s (.read sid frame) t := by
  unfold step at h
  dsimp only at h
  split at h
  · rename_i hpc
    obtain rfl := Option.some.inj h
    exact .readFailed hpc
  · rename_i hpc
    -- a frame is new, or the last one again, or older
    split at h
    · rename_i hcheck
      obtain rfl := Option.some.inj h
      exact .readToRun hpc hcheck
    · rename_i hcheck
      obtain rfl := Option.some.inj h
      exact .readToAnswer hpc hcheck
    · rename_i hcheck
      obtain rfl := Option.some.inj h
      exact .readToSkip hpc hcheck
  · cases h

/-- A request has been run, and leaves a reply, the last one, or none. -/
theorem Step.of_execute [Inhabited ι] {limits : Limits} {s t : Server ι} {sid : SessionId} {answers : Answers ι}
    (h : s.step limits (.execute sid answers) = some t) : Step limits s (.execute sid answers) t := by
  unfold step at h
  dsimp only at h
  split at h
  · rename_i hpc
    split at h
    · rename_i hexec
      obtain rfl := Option.some.inj h
      exact .executedReply hpc hexec
    · rename_i hexec
      obtain rfl := Option.some.inj h
      exact .executedLast hpc hexec
    · rename_i hexec
      obtain rfl := Option.some.inj h
      exact .executedOneWay hpc hexec
  · cases h

/-- A reply was written, and the connection is kept or closed. -/
theorem Step.of_answer [Inhabited ι] {limits : Limits} {s t : Server ι} {sid : SessionId} {ok : Bool}
    (h : s.step limits (.answer sid ok) = some t) : Step limits s (.answer sid ok) t := by
  unfold step at h
  dsimp only at h
  split at h
  · rename_i reply last hpc
    by_cases hok : ok = true ∧ last = false
    · rw [if_pos hok] at h
      obtain rfl := Option.some.inj h
      obtain ⟨rfl, rfl⟩ := hok
      exact .answered hpc
    · rw [if_neg hok] at h
      obtain rfl := Option.some.inj h
      exact .answeredLast hpc hok
  · cases h

/-- **Every transition is one of these.** -/
theorem Step.of_step [Inhabited ι] {limits : Limits} {s t : Server ι} {a : ServerAction ι}
    (h : s.step limits a = some t) : Step limits s a t := by
  cases a with
  | accept c =>
      unfold step at h
      dsimp only at h
      split at h
      · rename_i hpc
        obtain rfl := Option.some.inj h
        refine .accepted hpc ?_
        split
        · exact Or.inl rfl
        · exact Or.inr rfl
      · cases h
  | readHello c hello => exact .of_readHello h
  | lookup c => exact .of_lookup h
  | snapshot c =>
      unfold step at h
      dsimp only at h
      split at h
      · rename_i hpc
        obtain rfl := Option.some.inj h
        exact .snapshotTaken hpc
      · cases h
  | writeReply c ok => exact .of_writeReply h
  | forget c =>
      unfold step at h
      dsimp only at h
      split at h
      · rename_i sid hpc
        obtain rfl := Option.some.inj h
        exact .forgot hpc
      · cases h
  | resend c ok => exact .of_resend h
  | handOver c => exact .of_handOver h
  | putFirst c =>
      unfold step at h
      dsimp only at h
      split at h
      · rename_i hpc
        obtain rfl := Option.some.inj h
        exact .firstPut hpc
      · cases h
  | launch c =>
      unfold step at h
      dsimp only at h
      split at h
      · rename_i hpc
        obtain rfl := Option.some.inj h
        exact .launched hpc
      · cases h
  | turnAway c ok =>
      unfold step at h
      dsimp only at h
      split at h
      · rename_i hpc
        obtain rfl := Option.some.inj h
        exact .turnedAway hpc
      · cases h
  | take sid =>
      unfold step at h
      dsimp only at h
      split at h
      · rename_i hpc hpending
        obtain rfl := Option.some.inj h
        exact .taken hpc hpending
      · cases h
  | expire sid =>
      unfold step at h
      dsimp only at h
      split at h
      · rename_i hpc hpending
        obtain rfl := Option.some.inj h
        exact .expired hpc hpending
      · cases h
  | leave sid =>
      unfold step at h
      dsimp only at h
      split at h
      · rename_i hpc
        obtain rfl := Option.some.inj h
        exact .left hpc
      · cases h
  | read sid frame => exact .of_read h
  | execute sid answers => exact .of_execute h
  | answer sid ok => exact .of_answer h

end Server

end Rgpu
