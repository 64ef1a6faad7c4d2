import Rgpu.Client.Moves
import Rgpu.Protocol.System

/-! # What is in flight

The invariant of the system that the results about it rest on: each side's own invariant, and where
what is in flight, and what the server works on, comes from.

* **`System.Traffic`** — the invariant; `System.always_traffic` says every run keeps it. -/

namespace Rgpu

open Foundations

/-! ## Where the client's connection comes from -/

namespace Client

variable {cfg : ClientConfig} {c c' : Client} {a : ClientAction} {x : ConnId}

/-- A client that is connected is not connecting. -/
theorem resume_ne_connecting (rest : List Frame) (k k' : Purpose) (x : ConnId) :
    resume rest k ≠ .connecting x k' := by
  cases rest with
  | nil => cases k <;> nofun
  | cons g rest => nofun

/-- A client that has a connection had it before, or has just been answered on it. -/
theorem Move.fd (h : Move cfg c a c') (hfd : c'.fd = some x) :
    c.fd = some x ∨ ∃ k reply, c.pc = .connecting x k ∧ a = .readReply (some reply) := by
  cases h with
  | queuesOneWay hpc hfd' happ | queuesToFlush hpc hfd' happ | queuesWaiting hpc hfd' happ =>
      exact Or.inl (happ.fd ▸ hfd)
  | _ => simp_all

/-- A client that waits for an answer has just dialled. -/
theorem Move.connecting {k : Purpose} (h : Move cfg c a c') (hpc : c'.pc = .connecting x k) :
    a = .connect (some x) := by
  cases h with
  | @resumes conn k' | @replays g rest k' => exact absurd hpc (resume_ne_connecting _ _ _ _)
  | _ => simp_all

end Client

/-! ## Where what the server runs comes from -/

namespace Server

variable {ι : Type} [Inhabited ι] {limits : Limits} {s t : Server ι} {a : ServerAction ι} {c : ConnId}
  {sid : SessionId} {f : Frame}

/-- A frame that is being run was being run before, or has just been read and found new. -/
theorem Step.running (h : Step limits s a t) (hpc : t.serve sid = .running c f) :
    s.serve sid = .running c f ∨
      a = .read sid (some f) ∧ s.serve sid = .reading c ∧ (s.session sid).check f = .run := by
  cases h <;> simp [Function.update_apply] at hpc ⊢ <;> grind

/-- A connection that has not been accepted stays so unless it is. -/
theorem Step.idle (h : Step limits s a t) (hidle : s.accept c = .idle) (ha : a ≠ .accept c) :
    t.accept c = .idle := by
  cases h with
  | @accepted c' pc hidle' hpc =>
      have hne : c ≠ c' := by
        rintro rfl
        exact ha rfl
      rw [acceptStarts_accept, Function.update_of_ne hne]
      exact hidle
  | readToSkip | answeredLast => exact hidle
  | _ =>
      simp [Function.update_apply]
      grind

omit [Inhabited ι] in
/-- A connection that a thread serves has been accepted. -/
theorem Owners.accepted_of_conn (inv : Owners s) (h : (s.serve sid).conn = some c) :
    s.accept c ≠ .idle := by
  intro hidle
  have howner := (inv.nobody c).mpr hidle
  rw [(inv.thread sid c).mpr h] at howner
  cases howner

omit [Inhabited ι] in
/-- The server writes to connections it has accepted. -/
theorem Owners.accepted_of_sends (inv : Owners s) {m : Message} (h : s.sends a = some (c, m)) :
    s.accept c ≠ .idle := by
  unfold sends at h
  split at h
  case h_4 sid =>
    split at h
    · rename_i hpc
      cases h
      exact inv.accepted_of_conn (by rw [hpc]; rfl)
    · cases h
  all_goals
    first
    | cases h
    | split at h
      · rename_i hpc
        cases h
        rw [hpc]
        nofun
      · cases h

end Server

namespace System

variable {ι : Type} [Inhabited ι] {cfg : Config} {s t : System ι} {a : Action ι}

/-- What is in flight, and what is being run, is what the client queued; what a session completed last
is a request of the client. -/
structure Traffic (cfg : Config) (s : System ι) : Prop where
  client : s.client.Inv cfg.client
  server : s.server.Inv cfg.limits
  undialled : ∀ c, s.net.dialled ≤ c → s.net.conn c = {} ∧ s.server.accept c = .idle
  online : ∀ c, s.client.fd = some c → c < s.net.dialled
  connecting : ∀ c k, s.client.pc = .connecting c k → c < s.net.dialled
  sent : ∀ c, ∀ f ∈ (s.net.conn c).toServer, f ∈ s.client.log
  running : ∀ sid c f, s.server.serve sid = .running c f → f ∈ s.client.log
  lastReq : ∀ sid, (s.server.session sid).lastReq.Minted cfg.client.firstReqId s.client.log.length
  lastReplyId : ∀ sid,
    (s.server.session sid).lastReplyId.Minted cfg.client.firstReqId s.client.log.length
  lastReply : ∀ sid r, (s.server.session sid).lastReply = some r →
    r.reqId = (s.server.session sid).lastReplyId

namespace Traffic

/-- Nothing is on its way at first. -/
theorem initial (cfg : Config) : Traffic cfg (System.initial ι) where
  client := Client.Inv.initial _
  server := Server.Inv.initial
  undialled := fun _ _ => ⟨rfl, rfl⟩
  online := nofun
  connecting := nofun
  sent := by simp [System.initial]
  running := nofun
  lastReq := fun _ => RequestId.minted_none _ _
  lastReplyId := fun _ => RequestId.minted_none _ _
  lastReply := nofun

/-- A frame in flight or being run has the id of its position. -/
theorem minted (inv : Traffic cfg s) {f : Frame} (hf : f ∈ s.client.log) :
    f.reqId.Minted cfg.client.firstReqId s.client.log.length ∧ 0 < f.pos :=
  inv.client.core.numbered.minted hf

/-- The client takes a step, and the network is changed in a way that adds nothing but what the client
queued. -/
theorem of_client (inv : Traffic cfg s) {a : ClientAction} {client : Client} {net : Network}
    (h : Client.Step cfg.client s.client a client)
    (hdialled : s.net.dialled ≤ net.dialled)
    (hundialled : ∀ c, net.dialled ≤ c → net.conn c = s.net.conn c)
    (hconnect : ∀ c, a = .connect (some c) → c < net.dialled)
    (hsent : ∀ c, ∀ f ∈ (net.conn c).toServer, f ∈ (s.net.conn c).toServer ∨ f ∈ s.client.writes a) :
    Traffic cfg { s with client := client, net := net } := by
  have hmove := inv.client.move h
  obtain ⟨fs, hlog⟩ := h.log
  have hlen : s.client.log.length ≤ client.log.length := by
    rw [hlog, List.length_append]
    exact Nat.le_add_right _ _
  refine
    { client := inv.client.step h
      server := inv.server
      undialled := fun c hc => ?_
      online := fun c hc => ?_
      connecting := fun c k hc => hconnect c (hmove.connecting hc)
      sent := fun c f hf => ?_
      running := fun sid c f hf => h.mem_log (inv.running sid c f hf)
      lastReq := fun sid => (inv.lastReq sid).mono hlen
      lastReplyId := fun sid => (inv.lastReplyId sid).mono hlen
      lastReply := inv.lastReply }
  · obtain ⟨hconn, hidle⟩ := inv.undialled c (hdialled.trans hc)
    exact ⟨(hundialled c hc).trans hconn, hidle⟩
  · rcases hmove.fd hc with hfd | ⟨k, reply, hpc, -⟩
    · exact (inv.online c hfd).trans_le hdialled
    · exact (inv.connecting c k hpc).trans_le hdialled
  · rcases hsent c f hf with hf | hf
    · exact h.mem_log (inv.sent c f hf)
    · exact h.mem_log (inv.client.touches_subset a f (Client.writes_subset_touches _ a f hf))

/-- The server takes a step, and the network is changed in a way that adds nothing the client wrote. -/
theorem of_server (inv : Traffic cfg s) {a : ServerAction ι} {server : Server ι} {net : Network}
    (h : Server.Step cfg.limits s.server a server)
    (hdialled : net.dialled = s.net.dialled)
    (hundialled : ∀ c, s.net.dialled ≤ c → net.conn c = s.net.conn c)
    (haccept : ∀ c, a = .accept c → c < s.net.dialled)
    (hsent : ∀ c, ∀ f ∈ (net.conn c).toServer, f ∈ (s.net.conn c).toServer)
    (hread : ∀ sid c f, a = .read sid (some f) → s.server.serve sid = .reading c →
      f ∈ (s.net.conn c).toServer) :
    Traffic cfg { s with server := server, net := net } := by
  refine
    { client := inv.client
      server := ⟨inv.server.owners.step inv.server.table h, inv.server.table.step h,
        inv.server.unserved.step h⟩
      undialled := fun c hc => ?_
      online := fun c hc => hdialled.symm ▸ inv.online c hc
      connecting := fun c k hc => hdialled.symm ▸ inv.connecting c k hc
      sent := fun c f hf => inv.sent c f (hsent c f hf)
      running := fun sid c f hf => ?_
      lastReq := fun sid => ?_
      lastReplyId := fun sid => ?_
      lastReply := fun sid r hr => ?_ }
  · rw [hdialled] at hc
    obtain ⟨hconn, hidle⟩ := inv.undialled c hc
    refine ⟨(hundialled c hc).trans hconn, h.idle hidle ?_⟩
    intro ha
    exact absurd (haccept c ha) (Nat.not_lt.mpr hc)
  · rcases h.running hf with hf | ⟨ha, hpc, -⟩
    · exact inv.running sid c f hf
    · exact inv.sent c f (hread sid c f ha hpc)
  · cases h.evolves inv.server.table sid with
    -- the last request of a session is one that its client made
    | same h => exact h.lastReq ▸ inv.lastReq sid
    | executed hrunning h _ _ =>
        rw [h.lastReq]
        exact (inv.minted (inv.running sid _ _ hrunning)).1
  · cases h.evolves inv.server.table sid with
    | same h => exact h.lastReplyId ▸ inv.lastReplyId sid
    | @executed c f reply hrunning h =>
        cases hno : f.noReply with
        | true => exact (h.oneWay hno).2.1 ▸ inv.lastReplyId sid
        | false =>
            obtain ⟨r, -, -, hid, -⟩ := h.waiting hno
            rw [hid]
            exact (inv.minted (inv.running sid _ _ hrunning)).1
  · cases h.evolves inv.server.table sid with
    | same h =>
        rw [h.lastReply] at hr
        rw [h.lastReplyId]
        exact inv.lastReply sid r hr
    | @executed c f reply hrunning h =>
        cases hno : f.noReply with
        | true =>
            obtain ⟨-, hid, hreply, -⟩ := h.oneWay hno
            rw [hreply] at hr
            rw [hid]
            exact inv.lastReply sid r hr
        | false =>
            obtain ⟨r', -, hr', hid, hreply, -⟩ := h.waiting hno
            rw [hreply, Option.some.injEq] at hr
            rw [hid, ← hr, hr']

/-- **Every step keeps the invariant.** -/
theorem step (inv : Traffic cfg s) (h : s.step cfg a = some t) : Traffic cfg t := by
  cases Step.of_step h with
  | dialled hstep =>
      refine inv.of_client hstep (Nat.le_succ _) ?_ ?_ ?_
      · intro c hc
        rw [Network.dial_conn, Function.update_of_ne (Nat.ne_of_gt hc)]
      · rintro c ⟨⟩
        exact Nat.lt_succ_self _
      · intro c f hf
        rw [Network.dial_conn, Function.update_apply] at hf
        split at hf
        · cases hf
        · exact Or.inl hf
  | @gotHandshake client reply c k rest hstep hpc hin =>
      refine inv.of_client hstep le_rfl ?_ nofun fun c' f hf => Or.inl (by simpa using hf)
      intro c' hc'
      have hc := inv.connecting c k hpc
      rw [Network.takeMessage_conn, Function.update_of_ne (hc.trans_le hc').ne']
  | @gotReply client reply c rest hstep hfd hin =>
      refine inv.of_client hstep le_rfl ?_ nofun fun c' f hf => Or.inl (by simpa using hf)
      intro c' hc'
      have hc := inv.online c hfd
      rw [Network.takeMessage_conn, Function.update_of_ne (hc.trans_le hc').ne']
  | @wrote client a c hstep hwrites hfd =>
      refine inv.of_client hstep le_rfl ?_ ?_ ?_
      · intro c' hc'
        have hc := inv.online c hfd
        rw [Network.write_conn, Function.update_of_ne (hc.trans_le hc').ne']
      · rintro c' rfl
        cases hwrites
      · intro c' f hf
        rw [Network.write_toServer] at hf
        split at hf
        · rename_i hc
          rw [hc]
          exact List.mem_append.mp hf
        · exact Or.inl hf
  | offline hstep hwrites hfd =>
      refine inv.of_client hstep le_rfl (fun _ _ => rfl) ?_ fun _ _ hf => Or.inl hf
      rintro c' rfl
      cases hwrites
  | accepted hstep hc =>
      refine inv.of_server hstep rfl (fun _ _ => rfl) ?_ (fun _ _ hf => hf) nofun
      rintro _ ⟨⟩
      exact hc
  | gotHello hstep hin =>
      exact inv.of_server hstep rfl (fun _ _ => rfl) nofun (fun _ _ hf => hf) nofun
  | @gotFrame server sid c f rest hstep hpc hin =>
      have hf : f ∈ (s.net.conn c).toServer := by
        rw [hin]
        exact List.mem_cons_self
      refine inv.of_server hstep rfl ?_ nofun ?_ ?_
      · intro c' hc'
        rw [Network.takeFrame_conn, Function.update_of_ne]
        rintro rfl
        -- nothing was written on a connection that was not made
        rw [(inv.undialled c' hc').1] at hf
        cases hf
      · intro c' g hg
        rw [Network.takeFrame_toServer] at hg
        split at hg
        · rename_i hc
          rw [hc, hin]
          exact List.mem_cons_of_mem _ hg
        · exact hg
      · rintro sid' c' _ ⟨⟩ hpc'
        rw [hpc] at hpc'
        cases hpc'
        exact hf
  | @sent server a c m hstep hsends =>
      have haccepted := inv.server.owners.accepted_of_sends hsends
      refine inv.of_server hstep rfl ?_ ?_ (fun c' f hf => by simpa using hf) ?_
      · intro c' hc'
        rw [Network.post_conn, Function.update_of_ne]
        rintro rfl
        -- and the server answers only on one that it accepted
        exact haccepted (inv.undialled c' hc').2
      · rintro c' rfl
        cases hsends
      · rintro sid c' f rfl
        cases hsends
  | quiet hstep hsends haccept hhello hread =>
      refine inv.of_server hstep rfl (fun _ _ => rfl) ?_ (fun _ _ hf => hf) ?_
      · rintro c rfl
        exact absurd rfl (haccept c)
      · rintro sid c f rfl
        exact absurd rfl (hread sid f)

end Traffic

/-- **Every run keeps it**, whatever is asked of its steps. -/
theorem always_traffic (cfg : Config) (G : System ι → Action ι → Prop) :
    Always (System.step cfg) G (System.initial ι) (Traffic cfg) :=
  Always.of_step (Traffic.initial cfg) fun _ _ _ inv _ hstep => inv.step hstep

end System

end Rgpu
