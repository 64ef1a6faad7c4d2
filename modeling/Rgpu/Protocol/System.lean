import Rgpu.Client.Buffers
import Rgpu.Server.Descriptors

/-! # One client process and the server

The two sides joined by a network. A connection carries the client's handshake and frames one way and
the server's messages the other, in order and whole; it may break anywhere. A break is not a state of
its own: any read and any write may fail at any time, on either side, whatever is in flight, and what a
side has not read by the time it closes a connection is lost.

* **`System.step`** — the transition function: a transition of one side whose reads return what the
  other wrote.
* **`System.Step`** — the transitions by what they do to the network. -/

namespace Rgpu

open Foundations

/-- What is in flight on a connection. -/
structure Conn where
  /-- The handshake the client said. -/
  hello : Option Handshake := none
  /-- The frames the client wrote whole and the server has not read. -/
  toServer : List Frame := []
  /-- The messages the server wrote whole and the client has not read. -/
  toClient : List Message := []

/-- The connections of the client process, numbered as it makes them. -/
structure Network where
  conn : ConnId → Conn := fun _ => {}
  /-- How many have been made. -/
  dialled : ℕ := 0

namespace Network

/-- The client makes a connection and says its handshake. -/
@[simps dialled]
def dial (n : Network) (hello : Handshake) : Network where
  conn := Function.update n.conn n.dialled { hello := some hello }
  dialled := n.dialled + 1

/-- The client writes frames. -/
@[simps dialled]
def write (n : Network) (c : ConnId) (fs : List Frame) : Network :=
  { n with
    conn := Function.update n.conn c { n.conn c with toServer := (n.conn c).toServer ++ fs } }

/-- The server writes a message. -/
@[simps dialled]
def post (n : Network) (c : ConnId) (m : Message) : Network :=
  { n with
    conn := Function.update n.conn c { n.conn c with toClient := (n.conn c).toClient ++ [m] } }

/-- The server has read a frame, and `rest` is left. -/
@[simps dialled]
def takeFrame (n : Network) (c : ConnId) (rest : List Frame) : Network :=
  { n with conn := Function.update n.conn c { n.conn c with toServer := rest } }

/-- The client has read a message, and `rest` is left. -/
@[simps dialled]
def takeMessage (n : Network) (c : ConnId) (rest : List Message) : Network :=
  { n with conn := Function.update n.conn c { n.conn c with toClient := rest } }

variable (n : Network) (c c' : ConnId)

/-- A connection that is dialled has the handshake under way. -/
theorem dial_conn (hello : Handshake) :
    (n.dial hello).conn = Function.update n.conn n.dialled { hello := some hello } := rfl

/-- Frames that are written are on their way to the server. -/
theorem write_conn (fs : List Frame) : (n.write c fs).conn =
    Function.update n.conn c { n.conn c with toServer := (n.conn c).toServer ++ fs } := rfl

/-- A message that is posted is on its way to the client. -/
theorem post_conn (m : Message) : (n.post c m).conn =
    Function.update n.conn c { n.conn c with toClient := (n.conn c).toClient ++ [m] } := rfl

/-- A frame that is taken is no longer on its way. -/
theorem takeFrame_conn (rest : List Frame) : (n.takeFrame c rest).conn =
    Function.update n.conn c { n.conn c with toServer := rest } := rfl

/-- A message that is taken is no longer on its way. -/
theorem takeMessage_conn (rest : List Message) : (n.takeMessage c rest).conn =
    Function.update n.conn c { n.conn c with toClient := rest } := rfl

/-- Writing leaves the handshake of every connection. -/
@[simp] theorem write_hello (fs : List Frame) :
    ((n.write c fs).conn c').hello = (n.conn c').hello := by
  by_cases h : c' = c <;> simp [write_conn, h]

/-- Posting leaves the handshakes. -/
@[simp] theorem post_hello (m : Message) : ((n.post c m).conn c').hello = (n.conn c').hello := by
  by_cases h : c' = c <;> simp [post_conn, h]

/-- Taking a frame leaves the handshakes. -/
@[simp] theorem takeFrame_hello (rest : List Frame) :
    ((n.takeFrame c rest).conn c').hello = (n.conn c').hello := by
  by_cases h : c' = c <;> simp [takeFrame_conn, h]

/-- Taking a message leaves the handshakes. -/
@[simp] theorem takeMessage_hello (rest : List Message) :
    ((n.takeMessage c rest).conn c').hello = (n.conn c').hello := by
  by_cases h : c' = c <;> simp [takeMessage_conn, h]

/-- Writing changes nothing that is on its way to the client. -/
@[simp] theorem write_toClient (fs : List Frame) :
    ((n.write c fs).conn c').toClient = (n.conn c').toClient := by
  by_cases h : c' = c <;> simp [write_conn, h]

/-- Taking a frame changes nothing that is on its way to the client. -/
@[simp] theorem takeFrame_toClient (rest : List Frame) :
    ((n.takeFrame c rest).conn c').toClient = (n.conn c').toClient := by
  by_cases h : c' = c <;> simp [takeFrame_conn, h]

/-- Posting changes nothing that is on its way to the server. -/
@[simp] theorem post_toServer (m : Message) :
    ((n.post c m).conn c').toServer = (n.conn c').toServer := by
  by_cases h : c' = c <;> simp [post_conn, h]

/-- Taking a message changes nothing that is on its way to the server. -/
@[simp] theorem takeMessage_toServer (rest : List Message) :
    ((n.takeMessage c rest).conn c').toServer = (n.conn c').toServer := by
  by_cases h : c' = c <;> simp [takeMessage_conn, h]

/-- What is on its way to the server after a write, on each connection. -/
theorem write_toServer (fs : List Frame) : ((n.write c fs).conn c').toServer =
    if c' = c then (n.conn c).toServer ++ fs else (n.conn c').toServer := by
  by_cases h : c' = c <;> simp [write_conn, h]

/-- What is on its way to the server after a frame has been taken, on each connection. -/
theorem takeFrame_toServer (rest : List Frame) : ((n.takeFrame c rest).conn c').toServer =
    if c' = c then rest else (n.conn c').toServer := by
  by_cases h : c' = c <;> simp [takeFrame_conn, h]

/-- What is on its way to the client after a post, on each connection. -/
theorem post_toClient (m : Message) : ((n.post c m).conn c').toClient =
    if c' = c then (n.conn c).toClient ++ [m] else (n.conn c').toClient := by
  by_cases h : c' = c <;> simp [post_conn, h]

/-- What is on its way to the client after a message has been taken, on each connection. -/
theorem takeMessage_toClient (rest : List Message) : ((n.takeMessage c rest).conn c').toClient =
    if c' = c then rest else (n.conn c').toClient := by
  by_cases h : c' = c <;> simp [takeMessage_conn, h]

end Network

/-- What the two sides are started with. -/
structure Config where
  client : ClientConfig := {}
  limits : Limits := {}

/-- A client process, the server, and what is in flight between them. -/
structure System (ι : Type) where
  client : Client := {}
  server : Server ι
  net : Network := {}

/-- A transition of one side. -/
inductive Action (ι : Type)
  | client (a : ClientAction)
  | server (a : ServerAction ι)

variable {ι : Type}

namespace System

/-- Nothing has happened yet. -/
def initial (ι : Type) [Inhabited ι] : System ι := { server := Server.initial ι }

/-- What a transition of the client does to the network, if what it reads is there. -/
def clientNet (cfg : Config) (s : System ι) : ClientAction → Option Network
  | .connect (some c) =>
      -- connections are numbered as they are made
      if c = s.net.dialled then some (s.net.dial (s.client.hello cfg.client)) else none
  | .readReply (some reply) =>
      match s.client.pc with
      | .connecting c _ =>
          match (s.net.conn c).toClient with
          -- what is read is what was sent first
          | .handshake sent :: rest => if sent = reply then some (s.net.takeMessage c rest) else none
          | _ => none
      | _ => none
  | .receive (some reply) =>
      match s.client.fd with
      | some c =>
          match (s.net.conn c).toClient with
          | .reply sent :: rest => if sent = reply then some (s.net.takeMessage c rest) else none
          | _ => none
      | none => none
  | a =>
      match s.client.fd with
      | some c => some (s.net.write c (s.client.writes a))
      | none => some s.net

/-- What a transition of the server does to the network, if what it reads is there. -/
def serverNet (s : System ι) : ServerAction ι → Option Network
  | .accept c => if c < s.net.dialled then some s.net else none
  | .readHello c (some hello) => if (s.net.conn c).hello = some hello then some s.net else none
  | .read sid (some f) =>
      match s.server.serve sid with
      | .reading c =>
          match (s.net.conn c).toServer with
          -- frames arrive whole and in order
          | sent :: rest => if sent = f then some (s.net.takeFrame c rest) else none
          | [] => none
      | _ => none
  | a =>
      match s.server.sends a with
      | some (c, m) => some (s.net.post c m)
      | none => some s.net

/-- The transition function. -/
def step [Inhabited ι] (cfg : Config) (s : System ι) : Action ι → Option (System ι)
  | .client a =>
      match s.clientNet cfg a, s.client.step cfg.client a with
      | some net, some client => some { s with client := client, net := net }
      | _, _ => none
  | .server a =>
      match s.serverNet a, s.server.step cfg.limits a with
      | some net, some server => some { s with server := server, net := net }
      | _, _ => none

/-! ## The transitions by what they do to the network -/

/-- The client does not read from a connection, nor make one. -/
def ClientAction.writesOnly : ClientAction → Bool
  | .connect (some _) | .readReply (some _) | .receive (some _) => false
  | _ => true

/-- The transitions of `step`: what each side does is a transition of its own. -/
inductive Step [Inhabited ι] (cfg : Config) (s : System ι) : Action ι → System ι → Prop
  | dialled {client} (hstep : Client.Step cfg.client s.client (.connect (some s.net.dialled)) client) :
      Step cfg s (.client (.connect (some s.net.dialled)))
        { s with client := client, net := s.net.dial (s.client.hello cfg.client) }
  | gotHandshake {client reply c k rest}
      (hstep : Client.Step cfg.client s.client (.readReply (some reply)) client)
      (hpc : s.client.pc = .connecting c k)
      (hin : (s.net.conn c).toClient = .handshake reply :: rest) :
      Step cfg s (.client (.readReply (some reply)))
        { s with client := client, net := s.net.takeMessage c rest }
  | gotReply {client reply c rest}
      (hstep : Client.Step cfg.client s.client (.receive (some reply)) client)
      (hfd : s.client.fd = some c) (hin : (s.net.conn c).toClient = .reply reply :: rest) :
      Step cfg s (.client (.receive (some reply)))
        { s with client := client, net := s.net.takeMessage c rest }
  | wrote {client a c} (hstep : Client.Step cfg.client s.client a client)
      (hwrites : ClientAction.writesOnly a = true) (hfd : s.client.fd = some c) :
      Step cfg s (.client a) { s with client := client, net := s.net.write c (s.client.writes a) }
  | offline {client a} (hstep : Client.Step cfg.client s.client a client)
      (hwrites : ClientAction.writesOnly a = true) (hfd : s.client.fd = none) :
      Step cfg s (.client a) { s with client := client }
  | accepted {server c} (hstep : Server.Step cfg.limits s.server (.accept c) server)
      (hc : c < s.net.dialled) : Step cfg s (.server (.accept c)) { s with server := server }
  | gotHello {server c hello}
      (hstep : Server.Step cfg.limits s.server (.readHello c (some hello)) server)
      (hin : (s.net.conn c).hello = some hello) :
      Step cfg s (.server (.readHello c (some hello))) { s with server := server }
  | gotFrame {server sid c f rest}
      (hstep : Server.Step cfg.limits s.server (.read sid (some f)) server)
      (hpc : s.server.serve sid = .reading c) (hin : (s.net.conn c).toServer = f :: rest) :
      Step cfg s (.server (.read sid (some f)))
        { s with server := server, net := s.net.takeFrame c rest }
  | sent {server a c m} (hstep : Server.Step cfg.limits s.server a server)
      (hsends : s.server.sends a = some (c, m)) :
      Step cfg s (.server a) { s with server := server, net := s.net.post c m }
  | quiet {server a} (hstep : Server.Step cfg.limits s.server a server)
      (hsends : s.server.sends a = none) (haccept : ∀ c, a ≠ .accept c)
      (hhello : ∀ c hello, a ≠ .readHello c (some hello))
      (hread : ∀ sid f, a ≠ .read sid (some f)) : Step cfg s (.server a) { s with server := server }

variable [Inhabited ι] {cfg : Config} {s t : System ι}

/-- A step of the client is one of its own and one of the network. -/
theorem step_client {a : ClientAction} (h : s.step cfg (.client a) = some t) :
    ∃ net client, s.clientNet cfg a = some net ∧ Client.Step cfg.client s.client a client ∧
      t = { s with client := client, net := net } := by
  simp only [step] at h
  split at h
  · rename_i net client hio hstep
    exact ⟨net, client, hio, Client.Step.of_step hstep, (Option.some.inj h).symm⟩
  · cases h

/-- A step of the server is one of its own and one of the network. -/
theorem step_server {a : ServerAction ι} (h : s.step cfg (.server a) = some t) :
    ∃ net server, s.serverNet a = some net ∧ Server.Step cfg.limits s.server a server ∧
      t = { s with server := server, net := net } := by
  simp only [step] at h
  split at h
  · rename_i net server hio hstep
    exact ⟨net, server, hio, Server.Step.of_step hstep, (Option.some.inj h).symm⟩
  · cases h

/-- A step is one of one side, and leaves the other as it is. -/
theorem step_sides {a : Action ι} (h : s.step cfg a = some t) :
    (∃ b, a = .client b ∧ Client.Step cfg.client s.client b t.client ∧ t.server = s.server) ∨
      ∃ b, a = .server b ∧ Server.Step cfg.limits s.server b t.server ∧ t.client = s.client := by
  cases a with
  | client b =>
      obtain ⟨net, client, -, hstep, rfl⟩ := step_client h
      exact Or.inl ⟨b, rfl, hstep, rfl⟩
  | server b =>
      obtain ⟨net, server, -, hstep, rfl⟩ := step_server h
      exact Or.inr ⟨b, rfl, hstep, rfl⟩

/-- A transition of the client that does not read writes to its connection, if it has one. -/
theorem Step.of_writesOnly {a : ClientAction} {net : Network} {client : Client}
    (hwrites : ClientAction.writesOnly a = true) (hio : s.clientNet cfg a = some net)
    (hstep : Client.Step cfg.client s.client a client) :
    Step cfg s (.client a) { s with client := client, net := net } := by
  have hnet : (match s.client.fd with
      | some c => some (s.net.write c (s.client.writes a))
      | none => some s.net) = some net := by
    rw [← hio]
    cases a with
    | connect c => cases c with
      | none => rfl
      | some c => cases hwrites
    | readReply r => cases r with
      | none => rfl
      | some r => cases hwrites
    | receive r => cases r with
      | none => rfl
      | some r => cases hwrites
    | _ => rfl
  cases hfd : s.client.fd with
  | none =>
      rw [hfd] at hnet
      obtain rfl := Option.some.inj hnet
      exact .offline hstep hwrites hfd
  | some c =>
      rw [hfd] at hnet
      obtain rfl := Option.some.inj hnet
      exact .wrote hstep hwrites hfd

/-- A transition of the server that reads nothing of the client's writes what it sends. -/
theorem Step.of_sends {a : ServerAction ι} {net : Network} {server : Server ι}
    (haccept : ∀ c, a ≠ .accept c) (hhello : ∀ c hello, a ≠ .readHello c (some hello))
    (hread : ∀ sid f, a ≠ .read sid (some f)) (hio : s.serverNet a = some net)
    (hstep : Server.Step cfg.limits s.server a server) :
    Step cfg s (.server a) { s with server := server, net := net } := by
  have hnet : (match s.server.sends a with
      | some (c, m) => some (s.net.post c m)
      | none => some s.net) = some net := by
    rw [← hio]
    cases a with
    | accept c => exact absurd rfl (haccept c)
    | readHello c hello => cases hello with
      | none => rfl
      | some hello => exact absurd rfl (hhello c hello)
    | read sid f => cases f with
      | none => rfl
      | some f => exact absurd rfl (hread sid f)
    | _ => rfl
  cases hsends : s.server.sends a with
  | none =>
      rw [hsends] at hnet
      obtain rfl := Option.some.inj hnet
      exact .quiet hstep hsends haccept hhello hread
  | some cm =>
      rw [hsends] at hnet
      obtain rfl := Option.some.inj hnet
      exact .sent hstep hsends

/-- **Every transition is one of these.** -/
theorem Step.of_step {a : Action ι} (h : s.step cfg a = some t) : Step cfg s a t := by
  cases a with
  | client a =>
      obtain ⟨net, client, hio, hstep, rfl⟩ := step_client h
      cases hwrites : ClientAction.writesOnly a with
      | true => exact Step.of_writesOnly hwrites hio hstep
      | false =>
          unfold clientNet at hio
          split at hio
          · split at hio
            · rename_i hc
              subst hc
              obtain rfl := Option.some.inj hio
              exact .dialled hstep
            · cases hio
          · split at hio
            · rename_i hpc
              split at hio
              · rename_i hin
                split at hio
                · rename_i hsent
                  subst hsent
                  obtain rfl := Option.some.inj hio
                  exact .gotHandshake hstep hpc hin
                · cases hio
              · cases hio
            · cases hio
          · split at hio
            · rename_i hfd
              split at hio
              · rename_i hin
                split at hio
                · rename_i hsent
                  subst hsent
                  obtain rfl := Option.some.inj hio
                  exact .gotReply hstep hfd hin
                · cases hio
              · cases hio
            · cases hio
          · rename_i h1 h2 h3
            unfold ClientAction.writesOnly at hwrites
            split at hwrites
            · exact absurd rfl (h1 _)
            · exact absurd rfl (h2 _)
            · exact absurd rfl (h3 _)
            · cases hwrites
  | server a =>
      obtain ⟨net, server, hio, hstep, rfl⟩ := step_server h
      by_cases haccept : ∃ c, a = .accept c
      · obtain ⟨c, rfl⟩ := haccept
        simp only [serverNet] at hio
        split at hio
        · rename_i hc
          obtain rfl := Option.some.inj hio
          exact .accepted hstep hc
        · cases hio
      · by_cases hhello : ∃ c hello, a = .readHello c (some hello)
        · obtain ⟨c, hello, rfl⟩ := hhello
          simp only [serverNet] at hio
          split at hio
          · rename_i hin
            obtain rfl := Option.some.inj hio
            exact .gotHello hstep hin
          · cases hio
        · by_cases hread : ∃ sid f, a = .read sid (some f)
          · obtain ⟨sid, f, rfl⟩ := hread
            simp only [serverNet] at hio
            split at hio
            · rename_i hpc
              split at hio
              · rename_i hin
                split at hio
                · rename_i hsent
                  subst hsent
                  obtain rfl := Option.some.inj hio
                  exact .gotFrame hstep hpc hin
                · cases hio
              · cases hio
            · cases hio
          · push Not at haccept hhello hread
            exact Step.of_sends haccept hhello hread hio hstep

/-- What is in flight to the server after a step was before it, or is written by it. -/
theorem Step.toServer {a : Action ι} {c : ConnId} {f : Frame} (h : Step cfg s a t)
    (hf : f ∈ (t.net.conn c).toServer) :
    f ∈ (s.net.conn c).toServer ∨ ∃ b, a = .client b ∧ f ∈ s.client.writes b := by
  cases h with
  | dialled hstep =>
      rw [Network.dial_conn, Function.update_apply] at hf
      split at hf
      · cases hf
      · exact Or.inl hf
  | @wrote client b c' hstep hwrites hfd =>
      rw [Network.write_toServer] at hf
      split at hf
      · rename_i hc
        rw [hc]
        exact (List.mem_append.mp hf).imp id fun hf => ⟨b, rfl, hf⟩
      · exact Or.inl hf
  | @gotFrame server sid c' f' rest hstep hpc hin =>
      rw [Network.takeFrame_toServer] at hf
      split at hf
      · rename_i hc
        rw [hc, hin]
        exact Or.inl (List.mem_cons_of_mem _ hf)
      · exact Or.inl hf
  | gotHandshake | gotReply | sent => exact Or.inl (by simpa using hf)
  | offline | accepted | gotHello | quiet => exact Or.inl hf

/-- A frame that the server reads is the first in flight on the connection it is read from. -/
theorem read_of_step {sid : SessionId} {f : Frame}
    (h : s.step cfg (.server (.read sid (some f))) = some t) :
    ∃ c rest, s.server.serve sid = .reading c ∧ (s.net.conn c).toServer = f :: rest ∧
      t.net = s.net.takeFrame c rest := by
  cases Step.of_step h with
  | gotFrame hstep hpc hin => exact ⟨_, _, hpc, hin, rfl⟩
  | sent _ hsends => cases hsends
  | quiet _ _ _ _ hread => exact absurd rfl (hread sid f)

/-! ## Pieces of runs -/

/-- A connection is made and its handshake answered. -/
def handshake (c : ConnId) (hello : Handshake) (reply : HandshakeReply) : List (Action Unit) :=
  [.client (.connect (some c)), .server (.accept c), .server (.readHello c (some hello)),
    .server (.lookup c), .server (.snapshot c), .server (.writeReply c true),
    .client (.readReply (some reply))]

/-- The first connection of a client, made for the call `r`, as far as a thread serving it. -/
def firstConnection (r : Request) : List (Action Unit) :=
  .client (.begin r) ::
    (handshake 0 { session := ⟨1, 2⟩, lastReq := .none, resuming := false } { session := some 0 } ++
      [.server (.putFirst 0), .server (.launch 0), .server (.take 0)])

/-- A call that waits, of thread `1`. -/
def waitingCall : Request := ⟨false, 1, .ctxGetCurrent true, 0⟩

/-- A call that does not wait, of thread `1`, with a payload of that length. -/
def oneWayCall (payloadLen : ℕ) : Request := ⟨true, 1, .other 1, payloadLen⟩

/-- The frame of `oneWayCall` as the `n`-th request of a client that starts at `1`. -/
def oneWayFrame (n payloadLen : ℕ) : Frame := ⟨⟨reqIdAt 1 n, n⟩, true, 1, .other 1, payloadLen⟩

/-- The frame of `waitingCall` as the `n`-th request of a client that starts at `1`. -/
def waitingFrame (n : ℕ) : Frame := ⟨⟨reqIdAt 1 n, n⟩, false, 1, .ctxGetCurrent true, 0⟩

end System

end Rgpu
