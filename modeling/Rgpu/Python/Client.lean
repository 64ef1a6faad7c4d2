import Rgpu.Python.OpServer
import Mathlib.Algebra.GroupWithZero.Nat

/-! # The Python client

The client's connection of `python/rgpu/session.py`, in the words of `Connection`, and the client together
with the server and what is in flight between them.

* **`OpClient`** — the fields of `Connection` and what is left to do of the call in progress. An
  exception drops what is left, and leaves the fields as they are.
* **`OpClient.next`** — what a call does without the network.
* **`OpSystem.step`** — the steps of the client, of the server, and of the network.

Every method holds one lock, so a call is done before the next starts. Clocks and delays are not here: a
recovery may give up at any attempt. Nor are the ids that wait to be freed: a message may be queued ahead
of any other. -/

namespace Rgpu

open Foundations

/-- `MAX_UNACKED`, in bytes. -/
def maxUnacked : ℕ := 64 * 2 ^ 20

/-- `REPLAY_ACK_AT`, in bytes. -/
def replayAckAt : ℕ := maxUnacked * 3 / 4

/-- What the client is told from outside: its id, the codec, and when `post` flushes. -/
structure OpConfig (β ρ : Type) where
  sid : OpSessionId
  /-- The body of an `ACK` message. -/
  ack : β
  isAck : β → Bool
  /-- The length of a message as encoded, unless the wire cannot carry it. -/
  size : ℕ → β → Option ℕ
  /-- Whether an answer says that an op failed. -/
  failed : ρ → Bool
  flushOps : ℕ
  flushBytes : ℕ

/-- An element of the queues of `Connection`: a numbered message, and its length as encoded. -/
structure OpEntry (β : Type) where
  message : OpMessage β
  bytes : ℕ
  deriving DecidableEq, Repr

/-- The numbers of queued messages. -/
def numbers {β : Type} (es : List (OpEntry β)) : List ℕ := es.map (·.message.seq)

/-- What is left to do of a call. -/
inductive OpInstr (β : Type)
  /-- `_queue`. -/
  | queue (b : β)
  /-- `_append`. -/
  | append (b : β)
  /-- The rest of `_append`, from where the queues have room for the message. -/
  | commit (b : β)
  /-- The end of `post`: `_flush` if enough is pending. -/
  | flushIfFull
  /-- `_flush`. -/
  | flush
  /-- `_await`, about to be called with the number of the message appended last. -/
  | await
  /-- `_await`, in its loop. -/
  | awaiting (seq : ℕ)
  /-- `_reconnect`, at the top of its loop. -/
  | reconnect
  /-- `_reconnect`, about to send what is unacknowledged. -/
  | replay
  deriving DecidableEq, Repr

/-- `Connection`. -/
structure OpClient (β : Type) where
  seq : ℕ := 0
  /-- Encoded, not yet written. -/
  pending : List (OpEntry β) := []
  pendingBytes : ℕ := 0
  /-- Written, not yet acknowledged. -/
  unacked : List (OpEntry β) := []
  unackedBytes : ℕ := 0
  replayPossible : Bool := true
  lastAcked : ℕ := 0
  hadSession : Bool := false
  sock : Option OpConnId := none
  /-- What is left of the call in progress. -/
  todo : List (OpInstr β) := []
  /-- The socket of a `_connect` in progress. -/
  opening : Option OpConnId := none
  /-- The connection whose handshake was accepted last. Nothing reads it. -/
  accepted : Option OpConnId := none
  /-- The numbers of the requests that have been answered. Nothing reads it. -/
  answered : List ℕ := []
  deriving DecidableEq, Repr

namespace OpClient

variable {β ρ : Type}

/-- An exception leaves the call: what is left of it is dropped. -/
def raise (c : OpClient β) : OpClient β := { c with todo := [], opening := none }

/-- The end of `_append`: the message is numbered and queued. -/
def commit (c : OpClient β) (b : β) (n : ℕ) : OpClient β :=
  let entry : OpEntry β := ⟨⟨c.seq + 1, b⟩, n⟩
  let c := { c with
    seq := c.seq + 1
    pending := c.pending ++ [entry]
    pendingBytes := c.pendingBytes + n }
  if c.replayPossible then
    if maxUnacked < c.unackedBytes + n then
      -- holding more would cost more than the recovery is worth
      { c with replayPossible := false, unacked := [], unackedBytes := 0 }
    else { c with unacked := c.unacked ++ [entry], unackedBytes := c.unackedBytes + n }
  else c

/-- What `_ack` and `_reconnect` do with the messages up to a number: they are acknowledged. -/
def trim (c : OpClient β) (n : ℕ) : OpClient β :=
  let old := c.unacked.takeWhile fun e => e.message.seq ≤ n
  let unacked := c.unacked.dropWhile fun e => e.message.seq ≤ n
  if unacked = [] then { c with unacked := [], unackedBytes := 0, replayPossible := true }
  else { c with unacked := unacked, unackedBytes := c.unackedBytes - (old.map (·.bytes)).sum }

/-- The next thing a call does, if it does not need the network. -/
def next (w : OpConfig β ρ) (c : OpClient β) : Option (OpClient β) :=
  match c.todo with
  | .queue b :: rest => some { c with todo := .append b :: rest }
  | .append b :: rest =>
      match w.size (c.seq + 1) b with
      | none => some c.raise
      | some n =>
          if !w.isAck b ∧ c.replayPossible ∧ c.unacked ≠ [] ∧ replayAckAt < c.unackedBytes + n then
            -- an acknowledgement is asked for first
            some { c with todo := .queue w.ack :: .flush :: .await :: .commit b :: rest }
          else some { c.commit b n with todo := rest }
  | .commit b :: rest =>
      match w.size (c.seq + 1) b with
      | none => some c.raise
      | some n => some { c.commit b n with todo := rest }
  | .flushIfFull :: rest =>
      if w.flushOps ≤ c.pending.length ∨ w.flushBytes ≤ c.pendingBytes then
        some { c with todo := .flush :: rest }
      else some { c with todo := rest }
  | .flush :: rest => if c.pending = [] then some { c with todo := rest } else none
  | .await :: rest => some { c with todo := .awaiting c.seq :: rest }
  | .replay :: rest => if c.unacked = [] then some { c with todo := rest } else none
  | .awaiting _ :: _ | .reconnect :: _ | [] => none

/-- What is to be sent, if the call in progress is about to send. -/
def outgoing (c : OpClient β) : List (OpEntry β) :=
  match c.todo with
  | .flush :: _ => c.pending
  | .replay :: _ => c.unacked
  | _ => []

/-- The frame was handed to the socket. -/
def sent (c : OpClient β) : OpClient β :=
  match c.todo with
  | .flush :: rest => { c with pending := [], pendingBytes := 0, todo := rest }
  | _ => { c with todo := c.todo.tail }

/-- Whether the call in progress is about to open a connection. -/
def dials (c : OpClient β) : Prop :=
  c.sock = none ∧ c.opening = none ∧
    match c.todo with
    | .flush :: _ => c.pending ≠ []
    | .reconnect :: _ => True
    | _ => False

instance [DecidableEq β] (c : OpClient β) : Decidable c.dials := by
  unfold dials
  have : Decidable (match c.todo with
    | .flush :: _ => c.pending ≠ []
    | .reconnect :: _ => True
    | _ => False) := by split <;> infer_instance
  infer_instance

/-- An `OSError`: the socket is given up and `_reconnect` is called, by `_flush` (when there has been
a session), by `_await`, or by itself for the next attempt. Where `_flush` goes on after `_reconnect`
it empties `pending`, as `_reconnect` has done. -/
def broken (c : OpClient β) : OpClient β :=
  match c.todo with
  | .flush :: rest =>
      if c.hadSession then { c with sock := none, opening := none, todo := .reconnect :: rest }
      else c.raise
  | .awaiting seq :: rest => { c with sock := none, todo := .reconnect :: .awaiting seq :: rest }
  | .replay :: rest => { c with sock := none, todo := .reconnect :: rest }
  | _ => { c with opening := none }

/-- Whether the messages after a number are not all held for the replay. -/
def lacks (c : OpClient β) (serverSeq : ℕ) : Bool :=
  !c.replayPossible ||
    match c.unacked with
    | [] => true
    | e :: _ => decide (serverSeq + 1 < e.message.seq)

/-- `_reconnect` when the handshake is done: what the server never received must still be held. -/
def resume (c : OpClient β) (serverSeq : ℕ) (rest : List (OpInstr β)) : OpClient β :=
  if serverSeq < c.seq ∧ c.lacks serverSeq then { c with sock := none }.raise
  else { c.trim serverSeq with pending := [], pendingBytes := 0, todo := .replay :: rest }

/-- The end of `_connect`, and where it returns to. -/
def shaken (c : OpClient β) (k : OpConnId) (resumed : Bool) (serverSeq : ℕ) : OpClient β :=
  if c.hadSession ∧ resumed = false then c.raise
  else
    let c := { c with sock := some k, hadSession := true, opening := none, accepted := some k }
    match c.todo with
    | .reconnect :: rest => c.resume serverSeq rest
    | _ => c

/-- The rest of the loop of `_await`, with a reply. -/
def receive (w : OpConfig β ρ) (c : OpClient β) (seq : ℕ) (rest : List (OpInstr β)) (r : OpReply ρ) :
    OpClient β :=
  if r.seq < seq then c
  else
    let c := { c with lastAcked := r.seq, answered := c.answered ++ [seq] }.trim r.seq
    if w.failed r.value then c.raise else { c with todo := rest }

end OpClient

/-- All threads end, and no session is registered any more. -/
def OpServer.restart {σ β ρ : Type} (s : OpServer σ β ρ) : OpServer σ β ρ :=
  { s with
    registry := .empty
    conn := fun c =>
      match (s.conn c).pc with
      | .idle => s.conn c
      | _ => { s.conn c with pc := .ended } }

/-- A client, the server, and the network. Other clients are part of the server's surroundings. -/
structure OpSystem (σ β ρ : Type) where
  server : OpServer σ β ρ
  client : OpClient β := {}
  /-- The connections of the client, each with the number acknowledged in its hello. -/
  dialed : OpConnId → Option ℕ := fun _ => none
  /-- Frames of the client that have not arrived. -/
  flight : OpConnId → List (List (OpMessage β)) := fun _ => []
  /-- How many of the frames written to it the client has read. -/
  taken : OpConnId → ℕ := fun _ => 0
  /-- The messages the client has sent. Nothing reads it. -/
  sent : OpConnId → List (OpMessage β) := fun _ => []

/-- What happens. -/
inductive OpAction (β : Type)
  /-- The application calls `post`. -/
  | post (b : β)
  /-- The application calls `request`. -/
  | request (b : β)
  /-- The application calls `flush`. -/
  | flush
  /-- `_queue` finds ids to be freed, and queues a message for them first. -/
  | free (b : β)
  /-- The call in progress goes on. -/
  | next
  /-- `_connect`: the socket is open and the hello is sent. -/
  | dial (k : OpConnId)
  /-- `_connect` reads the handshake. -/
  | shake
  /-- `_connect` ends in an exception that is no `OSError`: the other side speaks another version. -/
  | refuse
  /-- A frame is sent, or the sending fails, and it may arrive nevertheless. -/
  | send (ok : Bool) (arrives : Bool)
  /-- `_await` reads a reply. -/
  | receive
  /-- Connecting, or reading, fails. -/
  | fail
  /-- `_reconnect` gives up. -/
  | giveUp
  /-- The hello of the client arrives. -/
  | hello (k : OpConnId)
  /-- A frame of the client arrives. -/
  | deliver (k : OpConnId)
  /-- A step of the server, or of another client. -/
  | server (a : OpServerAction β)
  /-- The server is started again. -/
  | restart
  deriving DecidableEq, Repr

namespace OpSystem

variable {σ β ρ : Type}

/-- No session, and a client that has not called. -/
def initial (e : Engine σ β ρ) : OpSystem σ β ρ := { server := .initial e }

/-- What is not a step of the server alone: the connections of the client take what the client sent,
and those of others name another session. -/
def allows (w : OpConfig β ρ) (s : OpSystem σ β ρ) : OpServerAction β → Prop
  | .accept k sid _ => s.dialed k = none ∧ sid ≠ w.sid
  | .arrive k _ => s.dialed k = none ∧ (s.server.conn k).pc ≠ .idle
  | _ => True

instance [DecidableEq ρ] (w : OpConfig β ρ) (s : OpSystem σ β ρ) (a : OpServerAction β) :
    Decidable (s.allows w a) := by
  unfold allows
  split <;> infer_instance

/-- A step, if it is possible. -/
def step [DecidableEq β] [DecidableEq ρ] (e : Engine σ β ρ) (grace : ℕ) (w : OpConfig β ρ)
    (s : OpSystem σ β ρ) : OpAction β → Option (OpSystem σ β ρ)
  | .post b =>
      if s.client.todo = [] then
        some { s with client := { s.client with todo := [.queue b, .flushIfFull] } }
      else none
  | .request b =>
      if s.client.todo = [] then
        some { s with client := { s.client with todo := [.queue b, .flush, .await] } }
      else none
  | .flush =>
      if s.client.todo = [] then some { s with client := { s.client with todo := [.flush] } } else none
  | .free b =>
      match s.client.todo with
      | .queue _ :: _ => some { s with client := { s.client with todo := .append b :: s.client.todo } }
      | _ => none
  | .next => (s.client.next w).map fun c => { s with client := c }
  | .dial k =>
      if s.client.dials ∧ s.dialed k = none ∧ (s.server.conn k).pc = .idle then
        some { s with
          client := { s.client with opening := some k }
          dialed := Function.update s.dialed k (some s.client.lastAcked) }
      else none
  | .shake =>
      match s.client.opening with
      | some k =>
          match (s.server.conn k).outbox[s.taken k]? with
          | some (.hello resumed serverSeq) =>
              some { s with
                client := s.client.shaken k resumed serverSeq
                taken := Function.update s.taken k (s.taken k + 1) }
          | _ => none
      | none => none
  | .refuse => if s.client.opening ≠ none then some { s with client := s.client.raise } else none
  | .send ok arrives =>
      match s.client.sock with
      | some k =>
          if s.client.outgoing = [] then none
          else
            let frame := s.client.outgoing.map (·.message)
            let s := if ok ∨ arrives then
                { s with
                  flight := Function.update s.flight k (s.flight k ++ [frame])
                  sent := Function.update s.sent k (s.sent k ++ frame) }
              else s
            some { s with client := if ok then s.client.sent else s.client.broken }
      | none => none
  | .receive =>
      match s.client.todo, s.client.sock with
      | .awaiting seq :: rest, some k =>
          match (s.server.conn k).outbox[s.taken k]? with
          | some (.reply r) =>
              some { s with
                client := s.client.receive w seq rest r
                taken := Function.update s.taken k (s.taken k + 1) }
          | _ => none
      | _, _ => none
  | .fail =>
      match s.client.todo with
      | .awaiting _ :: _ => some { s with client := s.client.broken }
      | _ => if s.client.dials ∨ s.client.opening ≠ none then some { s with client := s.client.broken }
          else none
  | .giveUp =>
      match s.client.todo, s.client.opening with
      | .reconnect :: _, none => some { s with client := s.client.raise }
      | _, _ => none
  | .hello k =>
      match s.dialed k with
      | some lastAcked =>
          (s.server.step e grace (.accept k w.sid lastAcked)).map fun t => { s with server := t }
      | none => none
  | .deliver k =>
      match s.flight k with
      | frame :: flight =>
          (s.server.step e grace (.arrive k frame)).map fun t =>
            { s with server := t, flight := Function.update s.flight k flight }
      | [] => none
  | .server a =>
      if s.allows w a then (s.server.step e grace a).map fun t => { s with server := t } else none
  | .restart => some { s with server := s.server.restart }

end OpSystem

end Rgpu
