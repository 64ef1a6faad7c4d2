import Rgpu.Protocol.Traffic

/-! # The client's session

A client says it has had a session in every handshake but its first, and the server makes a session only
for one that does not say so: it makes one for the client, ever, and answers "gone" once that one is
finished.

* **`System.Identity`** — the invariant, kept by every run.
* **`System.session_identity`** — what it gives: nothing of the client's runs elsewhere, a session that
  is finished stays so and is answered for as gone, and a client told so sends nothing more. -/

namespace Rgpu

open Foundations

/-- The handshake has been looked up, or refused before. -/
def AcceptPc.looked : AcceptPc → Bool
  | .idle | .reading | .asked _ => false
  | _ => true

namespace Server

variable {ι : Type} [Inhabited ι] {limits : Limits} {s t : Server ι} {a : ServerAction ι} {c : ConnId}
  {sid : SessionId}

/-- The handshake being asked about is the one that was read. -/
theorem Step.asked {hello : Handshake} (h : Step limits s a t) (hpc : t.accept c = .asked hello) :
    s.accept c = .asked hello ∨ a = .readHello c (some hello) := by
  cases h <;> simp [Function.update_apply] at hpc ⊢ <;> grind

/-- What has been looked up stays so. -/
theorem Step.looked (h : Step limits s a t) (hpc : (s.accept c).looked = true) :
    (t.accept c).looked = true := by
  cases h with
  | readToSkip | answeredLast => exact hpc
  | _ =>
      simp [Function.update_apply]
      grind [AcceptPc.looked]

/-- A session is made for a client starting afresh, whose handshake is then looked up. -/
theorem Step.made (h : Step limits s a t) :
    t.made = s.made ∨ t.made = s.made + 1 ∧ ∃ c hello, s.accept c = .asked hello ∧
      hello.starting = true ∧ (t.accept c).looked = true := by
  cases h with
  | @lookupMade c hello hpc hnone hstarting hroom =>
      refine Or.inr ⟨rfl, c, hello, hpc, hstarting, ?_⟩
      rw [setAccept_accept, Function.update_self]
      rfl
  | _ => exact Or.inl rfl

/-- The answer to a handshake is about the session found or made for it. -/
theorem Step.answering {reply : HandshakeReply} {u : Option Reply} (h : Step limits s a t)
    (hpc : t.accept c = .answering sid reply u) :
    s.accept c = .answering sid reply u ∨
      reply.session = some sid ∧ ∃ resumed hello, s.accept c = .found sid resumed hello := by
  cases h <;> simp [Function.update_apply] at hpc ⊢ <;> grind

/-- A handshake is refused for its version, for want of room, or because its session is gone. -/
theorem Step.turningAway {reply : HandshakeReply} (h : Step limits s a t)
    (hpc : t.accept c = .turningAway (some reply)) :
    s.accept c = .turningAway (some reply) ∨
      (∃ hello, a = .readHello c (some hello) ∧ hello.version ≠ kProtocolVersion) ∨
      reply = .full ∨ reply = .gone ∧ ∃ hello, s.accept c = .asked hello ∧ hello.starting = false := by
  cases h <;> simp [Function.update_apply] at hpc ⊢ <;> grind

omit [Inhabited ι] in
/-- What is written in answer to a handshake was made up before. -/
theorem sends_handshake {reply : HandshakeReply} (h : s.sends a = some (c, .handshake reply)) :
    (∃ sid u, s.accept c = .answering sid reply u) ∨ s.accept c = .turningAway (some reply) := by
  unfold sends at h
  split at h
  case h_1 | h_3 =>
    split at h
    · rename_i hpc
      cases h
      simp [hpc]
    · cases h
  all_goals
    first
    | cases h
    | split at h <;> cases h

/-- A finished session stays so. -/
theorem Step.finished (inv : Table limits s) (h : Step limits s a t)
    (hfin : (s.session sid).finished = true) : (t.session sid).finished = true := by
  cases h with
  | readToSkip | answeredLast => exact hfin
  | lookupMade =>
      have hne : sid ≠ s.made := by
        rintro rfl
        rw [(inv.fresh _ le_rfl).1] at hfin
        cases hfin
      rw [setAccept_session, register_session, Function.update_of_ne hne]
      exact hfin
  | executedReply _ hexec | executedLast _ hexec | executedOneWay _ hexec =>
      have hsame := (Session.executed hexec).finished
      simp [Function.update_apply]
      grind
  | _ =>
      simp [Function.update_apply]
      grind

end Server

namespace Client

variable {cfg : ClientConfig} {c c' : Client} {a : ClientAction}

/-- A client that has had no session makes one connection. Once it has failed, it makes no other. -/
theorem Move.untried (core : Core cfg c) (h : Move cfg c a c') (hfresh : c'.hadSession = false)
    (ha : ∀ conn, a ≠ .connect (some conn)) :
    c.hadSession = false ∧ (c'.pc = .idle ∧ c'.connectFailed = true ∨
      c.pc = .idle ∧ c.connectFailed = false ∧ ∃ k, c'.pc = .opening k) := by
  have hnone : c.hadSession = false → ∀ f, ¬ c.Waiting f := by
    intro hhad f hf
    have hmem := hf.mem
    rw [(core.fresh hhad).1] at hmem
    cases hmem
  have hoffline : c.hadSession = false → c.fd = none := fun hhad => (core.fresh hhad).2.1
  cases h with
  | opens hfd hgone hpc hk =>
      rcases hpc with ⟨r, hpc, rfl, hfailed⟩ | ⟨f, -, rfl⟩
      · exact ⟨hfresh, Or.inr ⟨hpc, hfailed, _, rfl⟩⟩
      · exact absurd hk.1 (hnone hfresh f)
  | dials => exact absurd rfl (ha _)
  | refuses hpc hqueue hfailed =>
      refine ⟨hfresh, Or.inl ⟨rfl, hfailed.resolve_right ?_⟩⟩
      rintro ⟨-, hfd | hgone⟩
      · exact hfd (hoffline hfresh)
      · exact absurd ((core.gone hgone).2.2.symm.trans hfresh) nofun
  | retries hpc hf => exact absurd hf.1 (hnone hfresh _)
  | abandons hpc hf | learnsGoneWaiting hpc hf => exact absurd hf (hnone hfresh _)
  | exitFlushBreaks hpc hn =>
      have hempty := core.offline (hoffline hfresh)
      rw [hempty] at hn
      cases hn
  | queuesOneWay hpc hfd happ | queuesToFlush hpc hfd happ | queuesWaiting hpc hfd happ =>
      exact absurd (hoffline (happ.hadSession ▸ hfresh)) hfd
  | _ => simp_all

/-- A client that has had a session has had one. -/
theorem Move.hadSession (h : Move cfg c a c') (hhad : c.hadSession = true) : c'.hadSession = true := by
  cases h with
  | queuesOneWay hpc hfd happ | queuesToFlush hpc hfd happ | queuesWaiting hpc hfd happ =>
      exact happ.hadSession.trans hhad
  | resumes | opensSession => rfl
  | _ => exact hhad

/-- A session is opened by a handshake. -/
theorem Move.opened (h : Move cfg c a c') (hhad : c'.hadSession = true) :
    c.hadSession = true ∧ c'.opened = c.opened ∨
      ∃ conn k reply, c.pc = .connecting conn k ∧ a = .readReply (some reply) ∧
        c'.opened = c.opened.or reply.session ∧
          (reply.resumed = true ∨ reply.busy = false ∧ c.hadSession = false) := by
  cases h with
  | queuesOneWay hpc hfd happ | queuesToFlush hpc hfd happ | queuesWaiting hpc hfd happ =>
      exact Or.inl ⟨happ.hadSession ▸ hhad, happ.opened⟩
  | resumes hpc hfd hgone hk hresumed => exact Or.inr ⟨_, _, _, hpc, rfl, rfl, Or.inl hresumed⟩
  | opensSession hpc hfd hfresh hbusy =>
      exact Or.inr ⟨_, _, _, hpc, rfl, rfl, Or.inr ⟨hbusy, hfresh⟩⟩
  | _ => exact Or.inl ⟨hhad, rfl⟩

end Client

namespace System

variable {ι : Type} [Inhabited ι] {cfg : Config} {s t : System ι} {a : Action ι}

/-- What a handshake is answered with, when the server has made `made` sessions: about one of them, or
a refusal, which says "gone" only to a client that is coming back. -/
def Answers (made : ℕ) (hello : Option Handshake) (reply : HandshakeReply) : Prop :=
  (∃ sid, reply.session = some sid ∧ sid < made) ∨
    reply.resumed = false ∧ (reply.busy = true ∨ ∀ h, hello = some h → h.starting = false)

/-- The answer is about to be written to the connection, or is in flight on it. -/
def Answering (s : System ι) (c : ConnId) (reply : HandshakeReply) : Prop :=
  (∃ sid u, s.server.accept c = .answering sid reply u) ∨
    s.server.accept c = .turningAway (some reply) ∨ .handshake reply ∈ (s.net.conn c).toClient

/-- The client's handshakes, but the first, say that it has had a session; and the server makes one
session, for the first. -/
structure Identity (cfg : Config) (s : System ι) : Prop where
  fresh : s.client.hadSession = false → s.net.dialled = 0 ∨ s.net.dialled = 1 ∧
    ((∃ k, s.client.pc = .connecting 0 k) ∨ s.client.pc = .idle ∧ s.client.connectFailed = true)
  hello : ∀ c h, (s.net.conn c).hello = some h →
    h.session = cfg.client.session ∧ h.version = kProtocolVersion ∧ (c ≠ 0 → h.resuming = true)
  current : ∀ c k, s.client.pc = .connecting c k →
    (s.net.conn c).hello = some (s.client.hello cfg.client)
  asked : ∀ c h, s.server.accept c = .asked h → (s.net.conn c).hello = some h
  made : s.server.made = 0 ∨ s.server.made = 1 ∧ (s.server.accept 0).looked = true
  answers : ∀ c reply, s.Answering c reply → Answers s.server.made (s.net.conn c).hello reply
  opened : s.client.hadSession = true → s.client.opened = some 0 ∧ s.server.made = 1

omit [Inhabited ι] in
/-- A client that has had no session starts afresh. -/
theorem hello_starting (core : Client.Core cfg.client s.client) (hfresh : s.client.hadSession = false) :
    (s.client.hello cfg.client).starting = true := by
  have hlast := (core.fresh hfresh).2.2.1
  simp [Handshake.starting, Client.hello, hlast, hfresh]

namespace Identity

/-- The client has no session at first. -/
theorem initial (cfg : Config) : Identity cfg (System.initial ι) where
  fresh := fun _ => Or.inl rfl
  hello := nofun
  current := nofun
  asked := nofun
  made := Or.inl rfl
  answers := by simp [Answering, System.initial, Server.initial]
  opened := nofun

/-- The client takes a step and makes no connection. -/
theorem of_client (inv : Identity cfg s) (htraffic : Traffic cfg s) {a : ClientAction}
    {client : Client} {net : Network} (h : Client.Step cfg.client s.client a client)
    (ha : ∀ c, a ≠ .connect (some c)) (hdialled : net.dialled = s.net.dialled)
    (hhello : ∀ c, (net.conn c).hello = (s.net.conn c).hello)
    (harrived : ∀ c, ∀ m ∈ (net.conn c).toClient, m ∈ (s.net.conn c).toClient)
    (hread : ∀ c k reply, s.client.pc = .connecting c k → a = .readReply (some reply) →
      .handshake reply ∈ (s.net.conn c).toClient) :
    Identity cfg { s with client := client, net := net } := by
  have core := htraffic.client.core
  have hmove := htraffic.client.move h
  refine
    { fresh := fun hfresh => ?_
      hello := fun c g hg => inv.hello c g (hhello c ▸ hg)
      current := fun c k hpc => absurd (hmove.connecting hpc) (ha c)
      asked := fun c g hg => (hhello c).trans (inv.asked c g hg)
      made := inv.made
      answers := fun c reply hreply => ?_
      opened := fun hhad => ?_ }
  · obtain ⟨hold, hpc⟩ := hmove.untried core hfresh ha
    -- a client that has had no session has made no connection, or is busy with its first
    rcases inv.fresh hold with hzero | ⟨hone, hbusy⟩
    · exact Or.inl (hdialled.trans hzero)
    · refine Or.inr ⟨hdialled.trans hone, Or.inr (hpc.resolve_right ?_)⟩
      rintro ⟨hidle, hfailed, -⟩
      rcases hbusy with ⟨k, hpc'⟩ | ⟨-, hfailed'⟩
      · rw [hidle] at hpc'
        cases hpc'
      · rw [hfailed] at hfailed'
        cases hfailed'
  · have hanswer := inv.answers c reply
      (hreply.imp id fun h => h.imp id (harrived c (.handshake reply)))
    exact (hhello c).symm ▸ hanswer
  · rcases hmove.opened hhad with ⟨hold, hsame⟩ | ⟨c, k, reply, hpc, rfl, hopened, hreply⟩
    · exact ⟨hsame.trans (inv.opened hold).1, (inv.opened hold).2⟩
    · cases hold : s.client.hadSession with
      -- the session it had before, or the only one there is
      | true =>
          obtain ⟨hsome, hmade⟩ := inv.opened hold
          exact ⟨by rw [hopened, hsome]; rfl, hmade⟩
      | false =>
          have hnone := (core.fresh hold).2.2.2.1
          rw [hnone, Option.none_or] at hopened
          rcases inv.answers c reply (Or.inr (Or.inr (hread c k reply hpc rfl))) with
            ⟨sid, hsid, hlt⟩ | ⟨hresumed, hrefusal⟩
          · have hlt : sid < s.server.made := hlt
            have hmade : s.server.made = 1 := by
              rcases inv.made with h0 | h1
              · rw [h0] at hlt
                exact absurd hlt (Nat.not_lt_zero sid)
              · exact h1.1
            have hzero : sid = 0 := Nat.lt_one_iff.mp (hmade ▸ hlt)
            exact ⟨by rw [hopened, hsid, hzero], hmade⟩
          · -- a refusal is not taken for a session by a client that is starting afresh
            rcases hreply with hreply | ⟨hbusy, -⟩
            · rw [hresumed] at hreply
              cases hreply
            · rcases hrefusal with hrefusal | hrefusal
              · rw [hbusy] at hrefusal
                cases hrefusal
              · have hgone := hrefusal _ (inv.current c k hpc)
                rw [hello_starting core hold] at hgone
                cases hgone

/-- The client makes a connection: its first, or one of a client that has had a session. -/
theorem of_dial (inv : Identity cfg s) (htraffic : Traffic cfg s) {client : Client}
    (h : Client.Step cfg.client s.client (.connect (some s.net.dialled)) client) :
    Identity cfg { s with client := client, net := s.net.dial (s.client.hello cfg.client) } := by
  cases h with
  | @dialled k conn hpc =>
      have hempty := htraffic.undialled s.net.dialled le_rfl
      refine
        { fresh := fun hfresh => ?_
          hello := fun c g hg => ?_
          current := fun c k' hk => ?_
          asked := fun c g hg => ?_
          made := inv.made
          answers := fun c reply hreply => ?_
          opened := inv.opened }
      -- it is the first connection: a client whose first one is under way makes no other
      · rcases inv.fresh hfresh with hzero | ⟨-, ⟨k', hpc'⟩ | ⟨hpc', -⟩⟩
        · exact Or.inr ⟨congrArg (· + 1) hzero, Or.inl ⟨k, by rw [hzero]⟩⟩
        all_goals
          rw [hpc] at hpc'
          cases hpc'
      · rw [Network.dial_conn, Function.update_apply] at hg
        split at hg
        · rename_i hc
          cases hg
          refine ⟨rfl, rfl, fun hne => ?_⟩
          cases hhad : s.client.hadSession with
          | true => exact hhad
          | false =>
              rcases inv.fresh hhad with hzero | ⟨-, ⟨k', hpc'⟩ | ⟨hpc', -⟩⟩
              · exact absurd (hc.trans hzero) hne
              all_goals
                rw [hpc] at hpc'
                cases hpc'
        · exact inv.hello c g hg
      · cases hk
        rw [Network.dial_conn, Function.update_self]
        rfl
      · have hne : c ≠ s.net.dialled := by
          rintro rfl
          rw [hempty.2] at hg
          cases hg
        rw [Network.dial_conn, Function.update_of_ne hne]
        exact inv.asked c g hg
      · have hne : c ≠ s.net.dialled := by
          rintro rfl
          rcases hreply with ⟨sid, u, hreply⟩ | hreply | hreply
          · rw [hempty.2] at hreply
            cases hreply
          · rw [hempty.2] at hreply
            cases hreply
          · rw [Network.dial_conn, Function.update_self] at hreply
            cases hreply
        unfold Answering at hreply
        rw [Network.dial_conn, Function.update_of_ne hne] at hreply ⊢
        exact inv.answers c reply hreply

/-- The server takes a step. -/
theorem of_server (inv : Identity cfg s) (htraffic : Traffic cfg s) {a : ServerAction ι}
    {server : Server ι} {net : Network} (h : Server.Step cfg.limits s.server a server)
    (hdialled : net.dialled = s.net.dialled)
    (hhello : ∀ c, (net.conn c).hello = (s.net.conn c).hello)
    (harrived : ∀ c, ∀ m ∈ (net.conn c).toClient,
      m ∈ (s.net.conn c).toClient ∨ s.server.sends a = some (c, m))
    (hread : ∀ c g, a = .readHello c (some g) → (s.net.conn c).hello = some g) :
    Identity cfg { s with server := server, net := net } := by
  have hmade : server.made = s.server.made ∨ server.made = s.server.made + 1 :=
    h.made.imp id And.left
  have hmade' : server.made = 0 ∨ server.made = 1 ∧ (server.accept 0).looked = true := by
    rcases h.made with hsame | ⟨hsucc, c, g, hpc, hstarting, hlooked⟩
    · rw [hsame]
      exact inv.made.imp id fun hone => ⟨hone.1, h.looked hone.2⟩
    · -- it is the first handshake that starts afresh
      have hzero : c = 0 := by
        by_contra hne
        have hresuming := (inv.hello c g (inv.asked c g hpc)).2.2 hne
        simp [Handshake.starting, hresuming] at hstarting
      subst hzero
      rcases inv.made with h0 | ⟨-, h1⟩
      · exact Or.inr ⟨hsucc.trans (congrArg (· + 1) h0), hlooked⟩
      · rw [hpc] at h1
        cases h1
  refine
    { fresh := fun hfresh => hdialled.symm ▸ inv.fresh hfresh
      hello := fun c g hg => inv.hello c g (hhello c ▸ hg)
      current := fun c k hpc => (hhello c).trans (inv.current c k hpc)
      asked := fun c g hg => ?_
      made := hmade'
      answers := fun c reply hreply => ?_
      opened := fun hhad => ?_ }
  · rw [hhello c]
    exact (h.asked hg).elim (inv.asked c g) (hread c g)
  · have hle : s.server.made ≤ server.made := by omega
    -- sessions are only ever made, so that an answer that was right stays so
    have hmono : ∀ hello, Answers s.server.made hello reply → Answers server.made hello reply :=
      fun hello => Or.imp (fun ⟨sid, hsid, hlt⟩ => ⟨sid, hsid, hlt.trans_le hle⟩) id
    rw [hhello c]
    have hanswering : ∀ sid u, s.server.accept c = .answering sid reply u →
        Answers s.server.made (s.net.conn c).hello reply :=
      fun sid u hpc => inv.answers c reply (Or.inl ⟨sid, u, hpc⟩)
    have hturning : s.server.accept c = .turningAway (some reply) →
        Answers s.server.made (s.net.conn c).hello reply :=
      fun hpc => inv.answers c reply (Or.inr (Or.inl hpc))
    -- the answer is with the thread that found a session, with the one that turns the client away, or written
    rcases hreply with ⟨sid, u, hpc⟩ | hpc | hin
    · rcases h.answering hpc with hpc | ⟨hsession, resumed, g, hpc⟩
      · exact hmono _ (hanswering sid u hpc)
      · refine hmono _ (Or.inl ⟨sid, hsession, ?_⟩)
        exact htraffic.server.table.refers c sid (by rw [hpc]; rfl)
    · rcases h.turningAway hpc with hpc | ⟨g, rfl, hversion⟩ | rfl | ⟨rfl, g, hpc, hstarting⟩
      · exact hmono _ (hturning hpc)
      · exact absurd (inv.hello c g (hread c g rfl)).2.1 hversion
      · exact Or.inr ⟨rfl, Or.inl rfl⟩
      · refine Or.inr ⟨rfl, Or.inr fun g' hg' => ?_⟩
        rw [inv.asked c g hpc] at hg'
        cases hg'
        exact hstarting
    · rcases harrived c _ hin with hin | hsends
      · exact hmono _ (inv.answers c reply (Or.inr (Or.inr hin)))
      · rcases Server.sends_handshake hsends with ⟨sid, u, hpc⟩ | hpc
        · exact hmono _ (hanswering sid u hpc)
        · exact hmono _ (hturning hpc)
  · obtain ⟨hopened, hone⟩ := inv.opened hhad
    refine ⟨hopened, ?_⟩
    have hle : server.made = 0 ∨ server.made = 1 := hmade'.imp id And.left
    show server.made = 1
    omega

/-- **Every step keeps it.** -/
theorem step (inv : Identity cfg s) (htraffic : Traffic cfg s) (h : s.step cfg a = some t) :
    Identity cfg t := by
  cases Step.of_step h with
  | dialled hstep => exact inv.of_dial htraffic hstep
  | @gotHandshake client reply c k rest hstep hpc hin =>
      refine inv.of_client htraffic hstep nofun rfl (fun c' => by simp) ?_ ?_
      · intro c' m hm
        rw [Network.takeMessage_toClient] at hm
        split at hm
        · rename_i hc
          rw [hc, hin]
          exact List.mem_cons_of_mem _ hm
        · exact hm
      · rintro c' k' reply' hpc' ⟨⟩
        rw [hpc] at hpc'
        cases hpc'
        rw [hin]
        exact List.mem_cons_self
  | @gotReply client reply c rest hstep hfd hin =>
      have hother : ∀ c k reply', s.client.pc = .connecting c k →
          ClientAction.receive (some reply) = .readReply (some reply') →
            .handshake reply' ∈ (s.net.conn c).toClient := by
        intro c' k' reply' _ hreads
        cases hreads
      refine inv.of_client htraffic hstep nofun rfl (fun c' => by simp) ?_ hother
      intro c' m hm
      rw [Network.takeMessage_toClient] at hm
      split at hm
      · rename_i hc
        rw [hc, hin]
        exact List.mem_cons_of_mem _ hm
      · exact hm
  | wrote hstep hwrites hfd =>
      refine inv.of_client htraffic hstep ?_ rfl (fun c' => by simp) (fun c' m hm => by simpa using hm) ?_
      · rintro c' rfl
        cases hwrites
      · rintro c' k' reply' - rfl
        cases hwrites
  | offline hstep hwrites hfd =>
      refine inv.of_client htraffic hstep ?_ rfl (fun _ => rfl) (fun _ _ hm => hm) ?_
      · rintro c' rfl
        cases hwrites
      · rintro c' k' reply' - rfl
        cases hwrites
  | accepted hstep hc =>
      exact inv.of_server htraffic hstep rfl (fun _ => rfl) (fun _ _ hm => Or.inl hm) nofun
  | gotHello hstep hin =>
      refine inv.of_server htraffic hstep rfl (fun _ => rfl) (fun _ _ hm => Or.inl hm) ?_
      rintro c g ⟨⟩
      exact hin
  | gotFrame hstep hpc hin =>
      exact inv.of_server htraffic hstep rfl (fun c' => by simp)
        (fun c' m hm => Or.inl (by simpa using hm)) nofun
  | @sent server a c m hstep hsends =>
      refine inv.of_server htraffic hstep rfl (fun c' => by simp) ?_ ?_
      · intro c' m' hm
        rw [Network.post_toClient] at hm
        split at hm
        · rename_i hc
          rw [hc]
          refine (List.mem_append.mp hm).imp id fun hm => ?_
          rw [List.mem_singleton.mp hm]
          exact hsends
        · exact Or.inl hm
      · rintro c' g rfl
        cases hsends
  | quiet hstep hsends haccept hhello hread =>
      refine inv.of_server htraffic hstep rfl (fun _ => rfl) (fun _ _ hm => Or.inl hm) ?_
      rintro c g rfl
      exact absurd rfl (hhello c g)

omit [Inhabited ι] in
/-- The one session the server made is the client's. -/
theorem eq_zero (inv : Identity cfg s) {sid : SessionId} (h : sid < s.server.made) : sid = 0 := by
  rcases inv.made with h0 | ⟨h1, -⟩
  · rw [h0] at h
    exact absurd h (Nat.not_lt_zero sid)
  · exact Nat.lt_one_iff.mp (h1 ▸ h)

/-- A session that has dispatched a request, or is finished, or has a thread, has been made. -/
theorem lt_made (htraffic : Traffic cfg s) {sid : SessionId}
    (h : (s.server.session sid).dispatched ≠ [] ∨ (s.server.session sid).finished = true ∨
      s.server.serve sid ≠ .notStarted) : sid < s.server.made := by
  by_contra hge
  obtain ⟨hfresh, hserve⟩ := htraffic.server.table.fresh sid (Nat.le_of_not_lt hge)
  rw [hfresh] at h
  rcases h with h | h | h
  · exact h rfl
  · cases h
  · exact h hserve

/-- Once the client's session is finished, a handshake that is looked up is answered "gone". -/
theorem lookup_gone (inv : Identity cfg s) (htraffic : Traffic cfg s) {sid : SessionId}
    (hfin : (s.server.session sid).finished = true) {c : ConnId} {hello : Handshake}
    (hpc : s.server.accept c = .asked hello) :
    s.server.step cfg.limits (.lookup c) =
      some (s.server.setAccept c (.turningAway (some .gone))) := by
  have hlt := lt_made htraffic (Or.inr (Or.inl hfin))
  have hne : c ≠ 0 := by
    rintro rfl
    rcases inv.made with h0 | ⟨-, h1⟩
    · rw [h0] at hlt
      exact absurd hlt (Nat.not_lt_zero sid)
    · rw [hpc] at h1
      cases h1
  have hresuming := (inv.hello c hello (inv.asked c hello hpc)).2.2 hne
  have hstarting : hello.starting = false := by simp [Handshake.starting, hresuming]
  have hnone : s.server.unfinished hello.session = none := by
    cases hfound : s.server.unfinished hello.session with
    | none => rfl
    | some sid' =>
        obtain ⟨hlisted, hunfinished⟩ := Server.unfinished_eq_some hfound
        have hsid' := inv.eq_zero (htraffic.server.table.entry _ _ hlisted).1
        rw [hsid', ← inv.eq_zero hlt, hfin] at hunfinished
        cases hunfinished
  simp [Server.step, hpc, Server.lookup, hnone, hstarting]

end Identity

/-- **Every run keeps it.** -/
theorem always_identity (cfg : Config) (G : System ι → Action ι → Prop) :
    Always (System.step cfg) G (System.initial ι) (Identity cfg) :=
  Always.of_step_under (always_traffic cfg G) (Identity.initial cfg)
    fun _ _ _ htraffic _ inv _ hstep => inv.step htraffic hstep

/-! ## What follows -/

/-- A client that has been told its session is gone holds nothing to send. -/
theorem Traffic.touches_of_gone (inv : Traffic cfg s) (hgone : s.client.sessionGone = true) :
    s.client.pc = .idle ∧ ∀ a, s.client.touches a = [] := by
  have core := inv.client.core
  have here := inv.client.here
  have hfd := (core.gone hgone).1
  have hqueue := core.offline hfd
  have hpc : s.client.pc = .idle := by
    unfold Client.Here at here
    split at here
    · assumption
    all_goals simp_all
  refine ⟨hpc, fun a => ?_⟩
  unfold Client.touches
  split <;> simp [hpc, hqueue]

/-- All it does is refuse calls. -/
theorem Traffic.step_gone (inv : Traffic cfg s) (hgone : s.client.sessionGone = true)
    {a : ClientAction} (h : s.step cfg (.client a) = some t) :
    t = { s with client := s.client.ret 0 .notInitialized none } := by
  have hpc := (inv.touches_of_gone hgone).1
  have hfd := (inv.client.core.gone hgone).1
  obtain ⟨net, client, hio, hstep, rfl⟩ := step_client h
  cases hstep <;> simp_all [clientNet]

/-- What was said to a client that was told its session is gone, and to its calls, stays so. -/
theorem always_gone (hstart : Traffic cfg s) (hgone : s.client.sessionGone = true) :
    Always (System.step cfg) (fun _ _ => True) s fun t => Traffic cfg t ∧
      t.client.sessionGone = true ∧ t.client.log = s.client.log ∧
        ∀ r ∈ t.client.returns, r ∈ s.client.returns ∨ r.failed := by
  refine Always.of_step ⟨hstart, hgone, rfl, fun _ hr => Or.inl hr⟩ ?_
  rintro u a v ⟨hu, hgone', hlog, hreturns⟩ - hstep
  refine ⟨hu.step hstep, ?_⟩
  cases a with
  | client a =>
      obtain rfl := hu.step_gone hgone' hstep
      refine ⟨hgone', hlog, fun r hr => ?_⟩
      rcases List.mem_append.mp hr with hr | hr
      · exact hreturns r hr
      · obtain rfl := List.mem_singleton.mp hr
        exact Or.inr ⟨rfl, by decide⟩
  | server a =>
      obtain ⟨net, server, -, -, rfl⟩ := step_server hstep
      exact ⟨hgone', hlog, hreturns⟩

/-- A session that is finished stays so, in every run from there. -/
theorem always_finished (hstart : Traffic cfg s) {sid : SessionId}
    (hfin : (s.server.session sid).finished = true) :
    Always (System.step cfg) (fun _ _ => True) s fun t => Traffic cfg t ∧
      (t.server.session sid).finished = true := by
  refine Always.of_step ⟨hstart, hfin⟩ ?_
  rintro u a v ⟨hu, hfin'⟩ - hstep
  refine ⟨hu.step hstep, ?_⟩
  rcases step_sides hstep with ⟨b, -, -, hserver⟩ | ⟨b, -, hserver, -⟩
  · rw [hserver]
    exact hfin'
  · exact hserver.finished hu.server.table hfin'

/-- A client that has had a session has had it, in every run from there. -/
theorem always_hadSession (hstart : Traffic cfg s) (hhad : s.client.hadSession = true) :
    Always (System.step cfg) (fun _ _ => True) s fun t => Traffic cfg t ∧
      t.client.hadSession = true := by
  refine Always.of_step ⟨hstart, hhad⟩ ?_
  rintro u a v ⟨hu, hhad'⟩ - hstep
  refine ⟨hu.step hstep, ?_⟩
  rcases step_sides hstep with ⟨b, -, hclient, -⟩ | ⟨b, -, -, hclient⟩
  · exact (hu.client.move hclient).hadSession hhad'
  · rw [hclient]
    exact hhad'

/-- **Session identity.** In every run of a client and the server: once a handshake has opened a session
for the client, nothing of the client's ever runs in another; once the session is finished it stays so,
and every handshake looked up from then on is answered "gone"; and once the client has been told so it
never sends a byte again, and every call it makes fails. -/
theorem session_identity (cfg : Config) (as : List (Action ι))
    (hrun : run (System.step cfg) (System.initial ι) as = some s) :
    (s.client.hadSession = true → ∃ sid, s.client.opened = some sid ∧
      ∀ bs t, run (System.step cfg) s bs = some t → t.client.opened = some sid ∧
        ∀ sid', sid' ≠ sid → (t.server.session sid').dispatched = []) ∧
    (∀ sid, (s.server.session sid).finished = true →
      ∀ bs t, run (System.step cfg) s bs = some t → (t.server.session sid).finished = true ∧
        ∀ c hello, t.server.accept c = .asked hello →
          t.server.step cfg.limits (.lookup c) =
            some (t.server.setAccept c (.turningAway (some .gone)))) ∧
    (s.client.sessionGone = true →
      ∀ bs t, run (System.step cfg) s bs = some t → t.client.sessionGone = true ∧
        t.client.log = s.client.log ∧ (∀ a, t.client.touches a = []) ∧
        ∀ r ∈ t.client.returns, r ∈ s.client.returns ∨ r.failed) := by
  have htraffic := always_traffic cfg (fun _ _ => True) as s (along_true _ _ _) hrun
  have hlater : ∀ bs t, run (System.step cfg) s bs = some t → Identity cfg t := by
    intro bs t hbs
    refine always_identity cfg (fun _ _ => True) (as ++ bs) t (along_true _ _ _) ?_
    rw [run_append, hrun, Option.bind_some, hbs]
  refine ⟨fun hhad => ⟨0, ((hlater [] s rfl).opened hhad).1, fun bs t hbs => ?_⟩,
    fun sid hfin bs t hbs => ?_, fun hgone bs t hbs => ?_⟩
  · have hidentity := hlater bs t hbs
    obtain ⟨ht, hhad'⟩ := always_hadSession htraffic hhad bs t (along_true _ _ _) hbs
    refine ⟨(hidentity.opened hhad').1, fun sid' hne => ?_⟩
    by_contra hsome
    exact hne (hidentity.eq_zero (Identity.lt_made ht (Or.inl hsome)))
  · obtain ⟨ht, hfin'⟩ := always_finished htraffic hfin bs t (along_true _ _ _) hbs
    exact ⟨hfin', fun c hello hpc => (hlater bs t hbs).lookup_gone ht hfin' hpc⟩
  · obtain ⟨ht, hgone', hlog, hreturns⟩ := always_gone htraffic hgone bs t (along_true _ _ _) hbs
    exact ⟨hgone', hlog, (ht.touches_of_gone hgone').2, hreturns⟩

/-- A client makes a call, loses its connection, finds its session expired when it makes another, and
is told so. -/
def expiry : List (Action Unit) :=
  firstConnection waitingCall ++
    [.client (.queue []), .client (.flush none), .server (.read 0 (some (waitingFrame 1))),
      .server (.execute 0 {}), .server (.answer 0 true),
      .client (.receive (some ⟨⟨reqIdAt 1 1, 1⟩, .success, .context 0⟩)),
      .server (.read 0 none), .server (.expire 0), .server (.leave 0),
      .client (.begin waitingCall), .client (.queue []), .client (.flush none),
      .client (.receive none), .client .again, .client (.connect (some 1)), .server (.accept 1),
      .server (.readHello 1 (some
        { session := ⟨1, 2⟩, lastReq := ⟨reqIdAt 1 1, 1⟩, resuming := true })),
      .server (.lookup 1), .server (.turnAway 1 true), .client (.readReply (some .gone))]

/-- From there on the client sends nothing, whatever its threads call. -/
theorem session_identity_expiry :
    ∃ s, run (System.step {}) (System.initial Unit) expiry = some s ∧
      s.client.sessionGone = true ∧ (s.server.session 0).finished = true ∧
      ∀ bs t, run (System.step {}) s bs = some t → ∀ a, t.client.touches a = [] :=
  ⟨_, rfl, rfl, rfl, fun bs t hbs =>
    ((session_identity {} expiry rfl).2.2 rfl bs t hbs).2.2.1⟩

end System

end Rgpu
