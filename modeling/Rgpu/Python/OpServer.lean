import Rgpu.Foundations.StepSystem
import Rgpu.Foundations.Table
import Mathlib.Logic.Function.Basic

/-! # The Python server: sessions, and the connections that serve them

The registry of `python/rgpu/server/__main__.py`, the threads that run `serve_connection`, and the part
of a session (`python/rgpu/server/session.py`) that numbers and answers messages.

* **`Engine`** — what a session does with the body of a message: a state, and an answer for a message
  the client waits for. What it computes is of no concern here.
* **`OpSession.execute`** — one numbered message.
* **`OpServer`** — the registry, the sessions there have been, and each connection with its thread.
* **`OpServer.step`** — the steps, each as long as a lock is held (the registry's or the session's) or
  one frame is read or written. -/

namespace Rgpu

open Foundations

/-- The id a client chose for its session. -/
abbrev OpSessionId := ℕ

/-- A connection, in the order of acceptance. -/
abbrev OpConnId := ℕ

/-- How the handling of a message ends. -/
inductive OpOutcome (ρ : Type)
  /-- Nothing waits for it. -/
  | quiet
  /-- It is answered. -/
  | answer (value : ρ)
  /-- An exception leaves `execute`: the fields are not what the kind takes, or the answer is nothing
  the wire can carry. -/
  | raises
  deriving DecidableEq, Repr

/-- What a session does with the body of a message. -/
structure Engine (σ β ρ : Type) where
  /-- The state of a new session. -/
  fresh : σ
  /-- The state after a message, and how its handling ends. -/
  run : σ → β → σ × OpOutcome ρ

/-- Counts the messages, and answers those that are waited for with the count. -/
def counting : Engine ℕ Bool ℕ :=
  ⟨0, fun n waited => (n + 1, if waited then .answer (n + 1) else .quiet)⟩

/-- A message of a client. -/
structure OpMessage (β : Type) where
  seq : ℕ
  body : β
  deriving DecidableEq, Repr

/-- A reply: the number of the message and the answer. -/
structure OpReply (ρ : Type) where
  seq : ℕ
  value : ρ
  deriving DecidableEq, Repr

/-- `Session`, but for what its engine keeps. -/
structure OpSession (σ ρ : Type) where
  state : σ
  lastSeq : ℕ := 0
  /-- The last reply, resent after a reconnect. -/
  lastReply : Option (OpReply ρ) := none
  /-- Which attach owns the session. -/
  generation : ℕ := 0
  /-- The numbers of the messages applied, the first first. Nothing reads it. -/
  applied : List ℕ := []
  deriving DecidableEq, Repr

/-- `Session.execute`. A message that was applied before a reconnect is passed over. -/
def OpSession.execute {σ β ρ : Type} (e : Engine σ β ρ) (x : OpSession σ ρ) (m : OpMessage β) :
    OpSession σ ρ × OpOutcome (OpReply ρ) :=
  if m.seq ≤ x.lastSeq then (x, .quiet)
  else
    let (state, outcome) := e.run x.state m.body
    let x := { x with state := state, lastSeq := m.seq, applied := x.applied ++ [m.seq] }
    match outcome with
    | .quiet => (x, .quiet)
    | .answer v => ({ x with lastReply := some ⟨m.seq, v⟩ }, .answer ⟨m.seq, v⟩)
    | .raises => (x, .raises)

/-- What an attach hands a connection: the session, as the number it was made with, and the generation
the connection has it in. -/
structure Lease where
  sid : OpSessionId
  session : ℕ
  generation : ℕ
  deriving DecidableEq, Repr

/-- Where the thread of a connection is in `serve_connection`. -/
inductive OpPc (ρ : Type)
  /-- Not accepted yet. -/
  | idle
  /-- The hello has been read. -/
  | greeted (sid : OpSessionId) (lastAcked : ℕ)
  /-- The registry has been asked; the session's lock has not been taken. -/
  | attached (lease : Lease) (resumed : Bool) (lastAcked : ℕ)
  /-- The handshake is done. -/
  | serving (lease : Lease)
  /-- A message was applied and its reply is about to be sent. -/
  | replying (lease : Lease) (reply : OpReply ρ)
  /-- The connection is closed, and the session is about to be detached. -/
  | closing (lease : Lease)
  /-- The thread is gone. -/
  | ended
  deriving DecidableEq, Repr

namespace OpPc

variable {ρ : Type}

/-- The lease the thread holds. -/
def lease : OpPc ρ → Option Lease
  | .attached l _ _ | .serving l | .replying l _ | .closing l => some l
  | .idle | .greeted _ _ | .ended => none

end OpPc

/-- A frame sent to a client. -/
inductive OpFrame (ρ : Type)
  /-- The handshake: whether the session was there, and the last message applied. -/
  | hello (resumed : Bool) (lastSeq : ℕ)
  | reply (r : OpReply ρ)
  deriving DecidableEq, Repr

/-- What a handshake found and was told. -/
structure Snapshot (σ ρ : Type) where
  lease : Lease
  /-- The session, in the new generation. -/
  session : OpSession σ ρ
  resumed : Bool
  lastAcked : ℕ
  deriving DecidableEq, Repr

/-- A connection. -/
structure OpConn (σ β ρ : Type) where
  pc : OpPc ρ := .idle
  /-- What is left of the batch being applied. -/
  batch : List (OpMessage β) := []
  /-- Frames of the client that have not been read. -/
  inbox : List (List (OpMessage β)) := []
  /-- Frames written, the first first. -/
  outbox : List (OpFrame ρ) := []
  /-- The session as the handshake found it. Nothing reads it. -/
  found : Option (Snapshot σ ρ) := none
  /-- The messages this connection has handed to `execute`, each with how it ended. Nothing reads it. -/
  executed : List (OpMessage β × OpOutcome (OpReply ρ)) := []
  /-- When the session was detached at the end of the thread. Nothing reads it. -/
  endedAt : Option ℕ := none

/-- An entry of the registry. -/
structure RegistryEntry where
  /-- The session, as the number it was made with. -/
  session : ℕ
  generation : ℕ
  detachedAt : Option ℕ
  deriving DecidableEq, Repr

/-- The server. -/
structure OpServer (σ β ρ : Type) where
  clock : ℕ := 0
  /-- `Registry.sessions`. -/
  registry : Table OpSessionId RegistryEntry := .empty
  /-- The sessions there have been, by the number they were made with. -/
  session : ℕ → OpSession σ ρ
  /-- How many sessions have been made. -/
  made : ℕ := 0
  conn : OpConnId → OpConn σ β ρ := fun _ => {}
  /-- The connection that attached last to each session. Nothing reads it. -/
  newest : ℕ → OpConnId := fun _ => 0

/-- What happens at the server. -/
inductive OpServerAction (β : Type)
  /-- A connection is accepted and its hello read. -/
  | accept (c : OpConnId) (sid : OpSessionId) (lastAcked : ℕ)
  /-- `Registry.attach`. -/
  | attach (c : OpConnId)
  /-- The handshake, under the session's lock; the sending may fail after some of the frames. -/
  | handshake (c : OpConnId) (sent : Option ℕ)
  /-- A frame of the client arrives. -/
  | arrive (c : OpConnId) (batch : List (OpMessage β))
  /-- The thread reads the next frame. -/
  | read (c : OpConnId)
  /-- The thread takes the session's lock for the next message of the batch. -/
  | apply (c : OpConnId)
  /-- The reply is sent, or the sending fails. -/
  | reply (c : OpConnId) (ok : Bool)
  /-- The connection ends (the peer is gone, a malformed frame, the test hook), and is closed. -/
  | close (c : OpConnId)
  /-- `Registry.detach`. -/
  | detach (c : OpConnId)
  /-- `Registry.reap`, which read the clock earlier. -/
  | reap (now : ℕ)
  /-- Time passes. -/
  | tick (n : ℕ)
  deriving DecidableEq, Repr

namespace OpServer

variable {σ β ρ : Type}

/-- No session, and no connection. -/
def initial (e : Engine σ β ρ) : OpServer σ β ρ := { session := fun _ => { state := e.fresh } }

/-- Replace a connection. -/
def setConn (s : OpServer σ β ρ) (c : OpConnId) (x : OpConn σ β ρ) : OpServer σ β ρ :=
  { s with conn := Function.update s.conn c x }

/-- The thread of a connection moves on. -/
def setPc (s : OpServer σ β ρ) (c : OpConnId) (pc : OpPc ρ) : OpServer σ β ρ :=
  s.setConn c { s.conn c with pc := pc }

/-- Replace a session. -/
def setSession (s : OpServer σ β ρ) (u : ℕ) (x : OpSession σ ρ) : OpServer σ β ρ :=
  { s with session := Function.update s.session u x }

section Frames

variable (s : OpServer σ β ρ) (c c' : OpConnId) (x : OpConn σ β ρ) (u : ℕ) (y : OpSession σ ρ)

/-- A connection changes, and no other. -/
theorem conn_setConn : (s.setConn c x).conn c' = if c' = c then x else s.conn c' :=
  Function.update_apply _ _ _ _

/-- A connection is what it was set to. -/
@[simp] theorem conn_setConn_self : (s.setConn c x).conn c = x := Function.update_self _ _ _

/-- The registry, the sessions and the clock stay. -/
@[simp] theorem registry_setConn : (s.setConn c x).registry = s.registry := rfl
@[simp] theorem session_setConn : (s.setConn c x).session = s.session := rfl
@[simp] theorem made_setConn : (s.setConn c x).made = s.made := rfl
@[simp] theorem newest_setConn : (s.setConn c x).newest = s.newest := rfl
@[simp] theorem clock_setConn : (s.setConn c x).clock = s.clock := rfl

/-- The registry, the connections and the clock stay. -/
@[simp] theorem registry_setSession : (s.setSession u y).registry = s.registry := rfl
@[simp] theorem conn_setSession : (s.setSession u y).conn = s.conn := rfl
@[simp] theorem made_setSession : (s.setSession u y).made = s.made := rfl
@[simp] theorem newest_setSession : (s.setSession u y).newest = s.newest := rfl
@[simp] theorem clock_setSession : (s.setSession u y).clock = s.clock := rfl

/-- A session is what it was set to. -/
@[simp] theorem session_setSession_self : (s.setSession u y).session u = y :=
  Function.update_self _ _ _

/-- Setting one session sets no other. -/
theorem session_setSession_of_ne {u v : ℕ} (h : v ≠ u) : (s.setSession u y).session v = s.session v :=
  Function.update_of_ne h _ _

end Frames

/-- `Registry.attach`: the entry of the id in a new generation, or a new session in generation `0`. -/
def registryAttach (s : OpServer σ β ρ) (c : OpConnId) (sid : OpSessionId) :
    OpServer σ β ρ × Lease × Bool :=
  match s.registry.find sid with
  | some x =>
      let g := x.generation + 1
      ({ s with
          registry := s.registry.insert sid { x with generation := g, detachedAt := none }
          newest := Function.update s.newest x.session c },
        ⟨sid, x.session, g⟩, true)
  | none =>
      ({ s with
          registry := s.registry.insert sid ⟨s.made, 0, none⟩
          made := s.made + 1
          newest := Function.update s.newest s.made c },
        ⟨sid, s.made, 0⟩, false)

/-- `Registry.detach`: the entry of the id is marked detached if it is in the same generation. -/
def registryDetach (s : OpServer σ β ρ) (l : Lease) : OpServer σ β ρ :=
  match s.registry.find l.sid with
  | some x =>
      if x.generation = l.generation then
        { s with registry := s.registry.insert l.sid { x with detachedAt := some s.clock } }
      else s
  | none => s

/-- `Registry.reap`: what has been detached for longer than the grace period goes. -/
def reap (s : OpServer σ β ρ) (grace now : ℕ) : OpServer σ β ρ :=
  { s with
    registry := s.registry.filter fun _ x =>
      match x.detachedAt with
      | none => true
      | some since => decide (now ≤ since + grace) }

/-- What the handshake sends: where the session is and, on a resume, the last reply if the client has
not acknowledged it. -/
def greeting (x : OpSession σ ρ) (resumed : Bool) (lastAcked : ℕ) : List (OpFrame ρ) :=
  .hello resumed x.lastSeq ::
    match x.lastReply with
    | none => []
    | some r => if resumed ∧ lastAcked < r.seq then [.reply r] else []

/-- The handshake of `serve_connection`: under the session's lock, the generation is raised, the session
is looked at, and the greeting is sent. -/
def greet (s : OpServer σ β ρ) (c : OpConnId) (l : Lease) (resumed : Bool) (lastAcked : ℕ)
    (sent : Option ℕ) : OpServer σ β ρ :=
  let x := s.session l.session
  -- two attaches can come here out of order; the newer one wins
  let x := { x with generation := max x.generation l.generation }
  let frames := greeting x resumed lastAcked
  (s.setSession l.session x).setConn c
    { s.conn c with
      pc := if sent = none then .serving l else .closing l
      outbox := frames.take (sent.getD frames.length)
      found := some ⟨l, x, resumed, lastAcked⟩
      executed := [] }

/-- One message of a batch, under the session's lock: a connection that is not of the session's
generation stops. -/
def applyNext (e : Engine σ β ρ) (s : OpServer σ β ρ) (c : OpConnId) (l : Lease) (m : OpMessage β)
    (rest : List (OpMessage β)) : OpServer σ β ρ :=
  let x := s.session l.session
  if x.generation ≠ l.generation then s.setPc c (.closing l)
  else
    let (x, outcome) := x.execute e m
    (s.setSession l.session x).setConn c
      { s.conn c with
        pc :=
          match outcome with
          | .quiet => .serving l
          | .answer r => .replying l r
          | .raises => .closing l
        batch := rest
        executed := (s.conn c).executed ++ [(m, outcome)] }

/-- A step, if it is possible. -/
def step (e : Engine σ β ρ) (grace : ℕ) (s : OpServer σ β ρ) : OpServerAction β → Option (OpServer σ β ρ)
  | .accept c sid lastAcked =>
      match (s.conn c).pc with
      | .idle => some (s.setPc c (.greeted sid lastAcked))
      | _ => none
  | .attach c =>
      match (s.conn c).pc with
      | .greeted sid lastAcked =>
          let (s, l, resumed) := s.registryAttach c sid
          some (s.setPc c (.attached l resumed lastAcked))
      | _ => none
  | .handshake c sent =>
      match (s.conn c).pc with
      | .attached l resumed lastAcked => some (s.greet c l resumed lastAcked sent)
      | _ => none
  | .arrive c batch => some (s.setConn c { s.conn c with inbox := (s.conn c).inbox ++ [batch] })
  | .read c =>
      match (s.conn c).pc, (s.conn c).batch, (s.conn c).inbox with
      | .serving _, [], batch :: inbox => some (s.setConn c { s.conn c with batch := batch, inbox := inbox })
      | _, _, _ => none
  | .apply c =>
      match (s.conn c).pc, (s.conn c).batch with
      | .serving l, m :: rest => some (s.applyNext e c l m rest)
      | _, _ => none
  | .reply c ok =>
      match (s.conn c).pc with
      | .replying l r =>
          if ok then
            some (s.setConn c { s.conn c with pc := .serving l, outbox := (s.conn c).outbox ++ [.reply r] })
          else some (s.setPc c (.closing l))
      | _ => none
  | .close c =>
      match (s.conn c).pc with
      | .greeted _ _ => some (s.setPc c .ended)
      | .serving l => some (s.setPc c (.closing l))
      | _ => none
  | .detach c =>
      match (s.conn c).pc with
      | .closing l =>
          let s := s.registryDetach l
          some (s.setConn c { s.conn c with pc := .ended, endedAt := some s.clock })
      | _ => none
  | .reap now => if now ≤ s.clock then some (s.reap grace now) else none
  | .tick n => some { s with clock := s.clock + n }

end OpServer

end Rgpu
