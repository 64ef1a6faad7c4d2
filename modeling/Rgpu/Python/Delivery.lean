import Rgpu.Python.ClientMoves
import Mathlib.Data.List.Basic

/-! # What a session has done

Between what the client queues and what a session executes there are connections that break, replies that are
lost, replays, and a server that may be started again. What comes of it is what would come of executing every
message where it is queued.

* **`Engine.after`**, **`Engine.Answers`** — what messages come to, one after the other.
* **`OpSystem.added`** — what a step adds to the queue; `follows` makes the whole of it from a run.
* **`OpSession.Upto`** — a session that has executed the first messages, and nothing else.
* **`OpSystem.done_as_queued`** — so has every session of the client, in every run along `StillPending`, and what
  the client accepts as the answer to a request is the answer. -/

namespace Rgpu

open Foundations

variable {σ β ρ : Type}

/-! ### Messages one after the other -/

namespace Engine

variable {e : Engine σ β ρ} {log log' : List β} {n : ℕ} {v : ρ}

/-- The state after some messages. -/
def after (e : Engine σ β ρ) (bs : List β) : σ := bs.foldl (fun x b => (e.run x b).1) e.fresh

/-- The state after a log with one message more. -/
theorem after_concat (e : Engine σ β ρ) (bs : List β) (b : β) : e.after (bs ++ [b]) = (e.run (e.after bs) b).1 := by
  rw [after, List.foldl_concat]
  rfl

/-- The answer to the message of a number, when those before it were executed in order. -/
def Answers (e : Engine σ β ρ) (log : List β) (n : ℕ) (v : ρ) : Prop :=
  ∃ before b, before ++ [b] <+: log ∧ before.length + 1 = n ∧ (e.run (e.after before) b).2 = .answer v

/-- What is queued later changes no answer. -/
theorem Answers.mono (h : e.Answers log n v) (hlog : log <+: log') : e.Answers log' n v := by
  obtain ⟨before, b, hprefix, hlength, hrun⟩ := h
  exact ⟨before, b, hprefix.trans hlog, hlength, hrun⟩

/-- What is answered has been queued. -/
theorem Answers.le_length (h : e.Answers log n v) : n ≤ log.length := by
  obtain ⟨before, b, hprefix, rfl, -⟩ := h
  simpa using hprefix.length_le

end Engine

/-- A message as it was queued: its number is its place. -/
def OpMessage.From (log : List β) (m : OpMessage β) : Prop :=
  ∃ before, before ++ [m.body] <+: log ∧ before.length + 1 = m.seq

/-- A message of a log is one of a longer log. -/
theorem OpMessage.From.mono {log log' : List β} {m : OpMessage β} (h : m.From log) (hlog : log <+: log') :
    m.From log' := by
  obtain ⟨before, hprefix, hlength⟩ := h
  exact ⟨before, hprefix.trans hlog, hlength⟩

/-- A message at the end. -/
theorem OpMessage.from_concat (log : List β) (b : β) : OpMessage.From (log ++ [b]) ⟨log.length + 1, b⟩ :=
  ⟨log, List.prefix_rfl, rfl⟩

namespace OpSession

variable {e : Engine σ β ρ} {log log' : List β} {x : OpSession σ ρ} {m : OpMessage β}

/-- The session has executed the messages up to its last, and keeps a true reply. -/
def Upto (e : Engine σ β ρ) (log : List β) (x : OpSession σ ρ) : Prop :=
  (∃ done, done <+: log ∧ done.length = x.lastSeq ∧ x.state = e.after done) ∧
    ∀ r, x.lastReply = some r → e.Answers log r.seq r.value

/-- A session that has come up to some message of a log has so in a longer one. -/
theorem Upto.mono (h : x.Upto e log) (hlog : log <+: log') : x.Upto e log' := by
  obtain ⟨⟨done, hprefix, hdone⟩, hreply⟩ := h
  exact ⟨⟨done, hprefix.trans hlog, hdone⟩, fun r hr => (hreply r hr).mono hlog⟩

/-- The generation is no part of it. -/
theorem Upto.setGeneration (h : x.Upto e log) (g : ℕ) : Upto e log { x with generation := g } := h

/-- **A message that is not ahead of the next one.** The session goes on by one message, or passes it over, and the
answer is the one in order. -/
theorem Upto.execute (h : x.Upto e log) (hm : m.From log) (hnext : m.seq ≤ x.lastSeq + 1) :
    (x.execute e m).1.Upto e log ∧ ∀ r, (x.execute e m).2 = .answer r → e.Answers log r.seq r.value := by
  rw [OpSession.execute]
  split
  · refine ⟨h, ?_⟩
    rintro r ⟨⟩
  · rename_i hnew
    obtain ⟨⟨done, hdone, hlength, hstate⟩, hreply⟩ := h
    obtain ⟨before, hbefore, hseq⟩ := hm
    -- what is before the message is what was done
    obtain rfl : before = done := by
      have hshort : before <+: log := (List.prefix_append before [m.body]).trans hbefore
      have hle : before.length = done.length := by omega
      exact (List.prefix_of_prefix_length_le hshort hdone hle.le).eq_of_length hle
    have hafter : ∃ done', done' <+: log ∧ done'.length = m.seq ∧ (e.run x.state m.body).1 = e.after done' :=
      ⟨before ++ [m.body], hbefore, by rw [List.length_append, ← hseq]; rfl, by rw [Engine.after_concat, hstate]⟩
    dsimp only
    split
    · refine ⟨⟨hafter, hreply⟩, ?_⟩
      rintro r ⟨⟩
    · rename_i v hv
      have hanswer : e.Answers log m.seq v := ⟨before, m.body, hbefore, hseq, hstate ▸ hv⟩
      refine ⟨⟨hafter, fun r hr => ?_⟩, fun r hr => ?_⟩
      · obtain rfl := Option.some.inj hr
        exact hanswer
      · obtain rfl := OpOutcome.answer.inj hr
        exact hanswer
    · refine ⟨⟨hafter, hreply⟩, ?_⟩
      rintro r ⟨⟩

end OpSession

/-! ### The server -/

namespace OpServer

variable {e : Engine σ β ρ} {grace : ℕ} {own : ℕ → OpSessionId} {s t : OpServer σ β ρ} {log log' : List β}
  {mine : OpConnId → Prop}

/-- What a step makes of a session: the handshake raises its generation, and a message is executed. -/
theorem session_moves {a : OpServerAction β} (hstep : s.step e grace a = some t) (u : ℕ) :
    (∃ g, t.session u = { s.session u with generation := g }) ∨
    ∃ c l m rest, (s.conn c).pc = .serving l ∧ (s.conn c).batch = m :: rest ∧ l.session = u ∧
      t.session u = ((s.session u).execute e m).1 := by
  have hsame : t.session = s.session → ∃ g, t.session u = { s.session u with generation := g } :=
    fun h => ⟨(s.session u).generation, by rw [h]⟩
  cases a <;> simp only [OpServer.step] at hstep
  case apply c =>
    split at hstep
    · rename_i l m rest hpc hbatch
      rw [← Option.some.inj hstep, applyNext]
      dsimp only
      split
      · exact .inl ⟨_, rfl⟩
      · by_cases hu : u = l.session
        · refine .inr ⟨c, l, m, rest, hpc, hbatch, hu.symm, ?_⟩
          rw [hu, session_setConn, session_setSession_self]
        · rw [session_setConn, session_setSession_of_ne _ _ hu]
          exact .inl ⟨_, rfl⟩
    · cases hstep
  case handshake c sent =>
    split at hstep
    · rename_i l resumed lastAcked hpc
      rw [← Option.some.inj hstep, greet, session_setConn]
      by_cases hu : u = l.session
      · rw [hu, session_setSession_self]
        exact .inl ⟨_, rfl⟩
      · rw [session_setSession_of_ne _ _ hu]
        exact .inl ⟨_, rfl⟩
    · cases hstep
  case tick n =>
    rw [← Option.some.inj hstep]
    exact .inl ⟨_, rfl⟩
  all_goals refine .inl (hsame ?_)
  all_goals grind [setPc, session_setConn, reap, registryAttach, registryDetach]

/-- What a connection says after a step that it did not say before: the answer to the message at hand is about to
be sent, or is sent; or a handshake repeats the last reply. -/
structure Speaks (e : Engine σ β ρ) (s : OpServer σ β ρ) (x x' : OpConn σ β ρ) : Prop where
  replying : ∀ l r, x'.pc = .replying l r → x.pc = .replying l r ∨
    ∃ m rest, x.pc = .serving l ∧ x.batch = m :: rest ∧ ((s.session l.session).execute e m).2 = .answer r
  outbox : ∀ r, OpFrame.reply r ∈ x'.outbox → OpFrame.reply r ∈ x.outbox ∨ (∃ l, x.pc = .replying l r) ∨
    ∃ l resumed n, x.pc = .attached l resumed n ∧ (s.session l.session).lastReply = some r

/-- A connection that does nothing says nothing new. -/
theorem Speaks.refl (s : OpServer σ β ρ) (x : OpConn σ β ρ) : Speaks e s x x :=
  ⟨fun _ _ h => .inl h, fun _ h => .inl h⟩

/-- Nothing is written, and no answer is at hand. -/
theorem Speaks.quiet {x x' : OpConn σ β ρ} (hpc : ∀ l r, x'.pc ≠ .replying l r) (houtbox : x'.outbox = x.outbox) :
    Speaks e s x x' :=
  ⟨fun l r h => absurd h (hpc l r), fun _ h => .inl (houtbox ▸ h)⟩

/-- What one connection says is said on no other. -/
theorem Speaks.setConn {u : OpServer σ β ρ} {c k : OpConnId} {x : OpConn σ β ρ} (hconn : u.conn = s.conn)
    (h : Speaks e s (s.conn c) x) : Speaks e s (s.conn k) ((u.setConn c x).conn k) := by
  rw [conn_setConn]
  split
  · rename_i hk
    rw [hk]
    exact h
  · rw [hconn]
    exact .refl s _

/-- Whatever the server does, each connection goes on with messages and answers of the log. -/
theorem speaks_step {a : OpServerAction β} (hstep : s.step e grace a = some t) (k : OpConnId) :
    Speaks e s (s.conn k) (t.conn k) := by
  cases a <;> simp only [OpServer.step] at hstep
  case accept c sid n =>
    split at hstep <;> cases hstep
    refine Speaks.setConn rfl (.quiet ?_ rfl)
    rintro _ _ ⟨⟩
  case attach c =>
    split at hstep <;> cases hstep
    refine Speaks.setConn (conn_registryAttach ..) (.quiet ?_ ?_)
    · rintro _ _ ⟨⟩
    · rw [conn_registryAttach]
  case handshake c sent =>
    split at hstep <;> cases hstep
    rename_i l resumed n hpc
    refine Speaks.setConn rfl ⟨fun _ _ h => ?_, fun r hr => .inr (.inr ⟨l, resumed, n, hpc, ?_⟩)⟩
    · dsimp only at h
      split at h <;> cases h
    · exact reply_mem_greeting (n := sent.getD _) hr
  case arrive c batch =>
    cases hstep
    exact Speaks.setConn rfl ⟨fun _ _ => .inl, fun _ => .inl⟩
  case read c =>
    split at hstep <;> cases hstep
    exact Speaks.setConn rfl ⟨fun _ _ => .inl, fun _ => .inl⟩
  case apply c =>
    split at hstep <;> cases hstep
    rename_i l m rest hpc hbatch
    rw [applyNext]
    dsimp only
    split
    · refine Speaks.setConn rfl (.quiet ?_ rfl)
      rintro _ _ ⟨⟩
    · refine Speaks.setConn rfl ⟨fun l' r h => .inr ⟨m, rest, ?_⟩, fun _ => .inl⟩
      dsimp only at h
      split at h
      · cases h
      · rename_i r' hr'
        cases h
        exact ⟨hpc, hbatch, hr'⟩
      · cases h
  case reply c ok =>
    split at hstep
    · rename_i l r hpc
      split at hstep <;> cases hstep
      · refine Speaks.setConn rfl ⟨?_, fun r' hr' => ?_⟩
        · rintro _ _ ⟨⟩
        · rcases List.mem_append.mp hr' with h | h
          · exact .inl h
          · obtain rfl := OpFrame.reply.inj (List.mem_singleton.mp h)
            exact .inr (.inl ⟨l, hpc⟩)
      · refine Speaks.setConn rfl (.quiet ?_ rfl)
        rintro _ _ ⟨⟩
    · cases hstep
  case close c =>
    split at hstep <;> cases hstep
    all_goals
      refine Speaks.setConn rfl (.quiet ?_ rfl)
      rintro _ _ ⟨⟩
  case detach c =>
    split at hstep <;> cases hstep
    refine Speaks.setConn (conn_registryDetach ..) (.quiet ?_ ?_)
    · rintro _ _ ⟨⟩
    · rw [conn_registryDetach]
  case reap now =>
    split at hstep <;> cases hstep
    exact .refl s _
  case tick n =>
    cases hstep
    exact .refl s _

/-- What the server has done for one client, whose connections are `mine`. -/
structure Obeys (e : Engine σ β ρ) (log : List β) (mine : OpConnId → Prop) (s : OpServer σ β ρ) : Prop where
  sessions : ∀ u, (∀ k f, ¬mine k → (s.conn k).found = some f → f.lease.session ≠ u) → (s.session u).Upto e log
  replying : ∀ k l r, mine k → (s.conn k).pc = .replying l r → e.Answers log r.seq r.value
  outbox : ∀ k r, mine k → OpFrame.reply r ∈ (s.conn k).outbox → e.Answers log r.seq r.value

namespace Obeys

/-- There are no sessions at first. -/
theorem initial (e : Engine σ β ρ) (mine : OpConnId → Prop) : (OpServer.initial e).Obeys e [] mine := by
  refine ⟨fun _ _ => ⟨⟨[], List.prefix_rfl, rfl, rfl⟩, ?_⟩, ?_, ?_⟩
  · rintro _ ⟨⟩
  · rintro _ _ _ _ ⟨⟩
  · rintro _ _ _ ⟨⟩

/-- A server that obeys a log obeys a longer one. -/
theorem mono (h : s.Obeys e log mine) (hlog : log <+: log') : s.Obeys e log' mine where
  sessions := fun u hu => (h.sessions u hu).mono hlog
  replying := fun k l r hk hpc => (h.replying k l r hk hpc).mono hlog
  outbox := fun k r hk hr => (h.outbox k r hk hr).mono hlog

/-- The client has one more connection, on which nothing has happened. -/
theorem setMine (h : s.Obeys e log mine) {mine' : OpConnId → Prop}
    (hnew : ∀ k, mine' k → ¬mine k → (s.conn k).pc = .idle ∧ (s.conn k).found = none ∧ (s.conn k).outbox = []) :
    s.Obeys e log mine' where
  sessions := fun u hu => h.sessions u fun k f hk hf => by
    by_cases hk' : mine' k
    · rw [(hnew k hk' hk).2.1] at hf
      cases hf
    · exact hu k f hk' hf
  replying := fun k l r hk hpc => by
    by_cases hk' : mine k
    · exact h.replying k l r hk' hpc
    · rw [(hnew k hk hk').1] at hpc
      cases hpc
  outbox := fun k r hk hr => by
    by_cases hk' : mine k
    · exact h.outbox k r hk' hr
    · rw [(hnew k hk hk').2.2] at hr
      cases hr

/-- **Each step of the server keeps to what was queued**, where the messages of the client are as they were queued
and none is ahead of the next one. -/
theorem step (h : s.Obeys e log mine) (hs : s.Logged own)
    (hnext : ∀ k l m rest, mine k → (s.conn k).pc = .serving l → (s.conn k).batch = m :: rest →
      m.From log ∧ m.seq ≤ (s.session l.session).lastSeq + 1)
    (hours : ∀ k l, mine k → (s.conn k).pc.lease = some l →
      ∀ k' f, ¬mine k' → (s.conn k').found = some f → f.lease.session ≠ l.session)
    {a : OpServerAction β} (hstep : s.step e grace a = some t) : t.Obeys e log mine := by
  have hspeaks := speaks_step hstep
  refine ⟨fun u hu => ?_, fun k l r hk hpc => ?_, fun k r hk hr => ?_⟩
  · have hold := h.sessions u fun k f hk hf => hu k f hk ((conn_step hs hstep k).found f hf)
    rcases session_moves hstep u with ⟨g, hg⟩ | ⟨c, l, m, rest, hpc, hbatch, rfl, hexecute⟩
    · rw [hg]
      exact hold.setGeneration g
    · -- the connection is the client's
      have hc : mine c := by
        by_contra hc
        obtain ⟨f, hf, hfl⟩ := hs.held c l (by rw [hpc]; rfl)
        exact hu c f hc ((conn_step hs hstep c).found f hf) (by rw [hfl])
      obtain ⟨hfrom, hle⟩ := hnext c l m rest hc hpc hbatch
      rw [hexecute]
      exact (hold.execute hfrom hle).1
  · rcases (hspeaks k).replying l r hpc with hpc | ⟨m, rest, hpc, hbatch, hanswer⟩
    · exact h.replying k l r hk hpc
    · obtain ⟨hfrom, hle⟩ := hnext k l m rest hk hpc hbatch
      exact ((h.sessions _ (hours k l hk (by rw [hpc]; rfl))).execute hfrom hle).2 r hanswer
  · rcases (hspeaks k).outbox r hr with hr | ⟨l, hpc⟩ | ⟨l, resumed, n, hpc, hlast⟩
    · exact h.outbox k r hk hr
    · exact h.replying k l r hk hpc
    · exact (h.sessions _ (hours k l hk (by rw [hpc]; rfl))).2 r hlast

/-- A server that is started again has no sessions. -/
theorem restart (h : s.Obeys e log mine) : s.restart.Obeys e log mine := by
  have hconn : ∀ k, (s.restart.conn k).found = (s.conn k).found ∧ (s.restart.conn k).outbox = (s.conn k).outbox ∧
      ∀ l r, (s.restart.conn k).pc ≠ .replying l r := by
    intro k
    simp only [OpServer.restart]
    split
    · rename_i hpc
      refine ⟨rfl, rfl, fun l r => ?_⟩
      rw [hpc]
      rintro ⟨⟩
    · refine ⟨rfl, rfl, ?_⟩
      rintro _ _ ⟨⟩
  refine ⟨fun u hu => h.sessions u fun k f hk hf => hu k f hk ?_, fun k l r hk hpc => ?_, fun k r hk hr => ?_⟩
  · rw [(hconn k).1]
    exact hf
  · exact absurd hpc ((hconn k).2.2 l r)
  · rw [(hconn k).2.1] at hr
    exact h.outbox k r hk hr

end Obeys

end OpServer

/-! ### The client -/

namespace OpClient

variable {w : OpConfig β ρ} {c d : OpClient β} {log : List β}

/-- A wait is for the message queued last, and there is no other. -/
def Attends (n : ℕ) : List (OpInstr β) → Prop
  | [] => True
  | .reconnect :: rest | .replay :: rest => Attends n rest
  | .awaiting m :: rest => m = n ∧ ∀ k, .awaiting k ∉ rest
  | .queue _ :: rest | .append _ :: rest | .commit _ :: rest | .flushIfFull :: rest | .flush :: rest
  | .await :: rest => ∀ k, .awaiting k ∉ rest

/-- A client that waits for nothing waits for nothing wrong. -/
theorem attends_of_notMem {n : ℕ} {todo : List (OpInstr β)} (h : ∀ k, .awaiting k ∉ todo) : Attends n todo := by
  induction todo with
  | nil => trivial
  | cons i rest ih =>
      have hrest : ∀ k, .awaiting k ∉ rest := fun k hk => h k (List.mem_cons_of_mem i hk)
      cases i with
      | reconnect | replay => exact ih hrest
      | awaiting m => exact absurd List.mem_cons_self (h m)
      | queue | append | commit | flushIfFull | flush | await => exact hrest

/-- The bodies of what is added to the messages pending. -/
def added (c d : OpClient β) : List β := (d.pending.drop c.pending.length).map (·.message.body)

/-- The queues hold messages of `log`, which is all that was queued. -/
structure Records (log : List β) (c : OpClient β) : Prop where
  length : log.length = c.seq
  pending : ∀ x ∈ c.pending, x.message.From log
  unacked : ∀ x ∈ c.unacked, x.message.From log
  attends : Attends c.seq c.todo

/-- A client that has queued nothing has an empty log. -/
theorem Records.initial : Records [] ({} : OpClient β) := by
  refine ⟨rfl, ?_, ?_, trivial⟩
  all_goals rintro _ ⟨⟩

/-- Nothing is queued. -/
theorem Records.keep (hc : c.Records log) (hseq : d.seq = c.seq) (hpending : d.pending = c.pending ∨ d.pending = [])
    (hunacked : ∀ x ∈ d.unacked, x ∈ c.unacked) (hattends : Attends c.seq d.todo) : d.Records (log ++ added c d) := by
  have hnone : added c d = [] := by
    rcases hpending with h | h <;> rw [added, h]
    · rw [List.drop_length]
      rfl
    · rw [List.drop_nil]
      rfl
  rw [hnone, List.append_nil]
  refine ⟨hc.length.trans hseq.symm, fun x hx => ?_, fun x hx => hc.unacked x (hunacked x hx), hseq ▸ hattends⟩
  rcases hpending with h | h <;> rw [h] at hx
  · exact hc.pending x hx
  · cases hx

/-- What is kept for replay after a commit was kept before or is what was committed. -/
theorem mem_unacked_commit {b : β} {n : ℕ} {x : OpEntry β} (h : x ∈ (c.commit b n).unacked) :
    x ∈ c.unacked ∨ x = ⟨⟨c.seq + 1, b⟩, n⟩ := by
  unfold OpClient.commit at h
  dsimp only at h
  split at h
  · split at h
    · cases h
    · exact (List.mem_append.mp h).imp id List.mem_singleton.mp
  · exact .inl h

/-- A message is queued. -/
theorem Records.commit (hc : c.Records log) (b : β) (n : ℕ) {rest : List (OpInstr β)}
    (hrest : ∀ k, OpInstr.awaiting k ∉ rest) :
    Records (log ++ added c { c.commit b n with todo := rest }) { c.commit b n with todo := rest } := by
  have hadded : added c { c.commit b n with todo := rest } = [b] := by
    rw [added, pending_commit, List.drop_left]
    rfl
  have hnew : OpMessage.From (log ++ [b]) ⟨c.seq + 1, b⟩ := hc.length ▸ OpMessage.from_concat log b
  rw [hadded]
  refine ⟨?_, fun x hx => ?_, fun x hx => ?_, attends_of_notMem hrest⟩
  · rw [List.length_append, hc.length]
    exact (seq_commit ..).symm
  · rw [pending_commit] at hx
    rcases List.mem_append.mp hx with h | h
    · exact (hc.pending x h).mono (List.prefix_append ..)
    · rw [List.mem_singleton.mp h]
      exact hnew
  · rcases mem_unacked_commit hx with h | h
    · exact (hc.unacked x h).mono (List.prefix_append ..)
    · rw [h]
      exact hnew

/-- Trimming keeps nothing new. -/
theorem mem_unacked_trim {n : ℕ} {x : OpEntry β} (h : x ∈ (c.trim n).unacked) : x ∈ c.unacked := by
  rw [unacked_trim] at h
  exact (List.dropWhile_suffix _).subset h

/-- The call in progress goes on. -/
theorem Records.next (hc : c.Records log) (h : c.next w = some d) : d.Records (log ++ added c d) := by
  have hattends := hc.attends
  unfold OpClient.next at h
  split at h
  · rename_i b rest htodo
    cases h
    rw [htodo] at hattends
    exact hc.keep rfl (.inl rfl) (fun _ => id) hattends
  · rename_i b rest htodo
    rw [htodo] at hattends
    split at h
    · cases h
      exact hc.keep rfl (.inl rfl) (fun _ => id) trivial
    · split at h <;> cases h
      · refine hc.keep rfl (.inl rfl) (fun _ => id) (attends_of_notMem fun k hk => hattends k ?_)
        simpa using hk
      · exact hc.commit _ _ hattends
  · rename_i b rest htodo
    rw [htodo] at hattends
    split at h <;> cases h
    · exact hc.keep rfl (.inl rfl) (fun _ => id) trivial
    · exact hc.commit _ _ hattends
  · rename_i rest htodo
    rw [htodo] at hattends
    split at h <;> cases h
    · exact hc.keep rfl (.inl rfl) (fun _ => id) hattends
    · exact hc.keep rfl (.inl rfl) (fun _ => id) (attends_of_notMem hattends)
  · rename_i rest htodo
    rw [htodo] at hattends
    split at h <;> cases h
    exact hc.keep rfl (.inl rfl) (fun _ => id) (attends_of_notMem hattends)
  · rename_i rest htodo
    cases h
    rw [htodo] at hattends
    exact hc.keep rfl (.inl rfl) (fun _ => id) ⟨rfl, hattends⟩
  · rename_i rest htodo
    rw [htodo] at hattends
    split at h <;> cases h
    exact hc.keep rfl (.inl rfl) (fun _ => id) hattends
  all_goals cases h

/-- An exception queues nothing. -/
theorem Records.raise (hc : c.Records log) : c.raise.Records (log ++ added c c.raise) :=
  hc.keep rfl (.inl rfl) (fun _ => id) trivial

/-- A connection that breaks queues nothing. -/
theorem Records.broken (hc : c.Records log) : c.broken.Records (log ++ added c c.broken) := by
  have hattends := hc.attends
  unfold OpClient.broken
  split
  · rename_i rest htodo
    rw [htodo] at hattends
    have hrest : Attends c.seq rest := attends_of_notMem hattends
    split
    · exact hc.keep rfl (.inl rfl) (fun _ => id) hrest
    · exact hc.raise
  · rename_i seq rest htodo
    rw [htodo] at hattends
    exact hc.keep rfl (.inl rfl) (fun _ => id) hattends
  · rename_i rest htodo
    rw [htodo] at hattends
    exact hc.keep rfl (.inl rfl) (fun _ => id) hattends
  · exact hc.keep rfl (.inl rfl) (fun _ => id) hattends

/-- Sending queues nothing. -/
theorem Records.sent (hc : c.Records log) (hout : c.outgoing ≠ []) : c.sent.Records (log ++ added c c.sent) := by
  have hattends := hc.attends
  unfold outgoing at hout
  unfold OpClient.sent
  split at hout
  · rename_i rest htodo
    rw [htodo] at hattends ⊢
    exact hc.keep rfl (.inr rfl) (fun _ => id) (attends_of_notMem hattends)
  · rename_i rest htodo
    rw [htodo] at hattends ⊢
    exact hc.keep rfl (.inl rfl) (fun _ => id) hattends
  · exact absurd rfl hout

/-- A handshake queues nothing. -/
theorem Records.shaken (hc : c.Records log) (k : OpConnId) (resumed : Bool) (n : ℕ) :
    (c.shaken k resumed n).Records (log ++ added c (c.shaken k resumed n)) := by
  have hattends := hc.attends
  unfold OpClient.shaken
  split
  · exact hc.raise
  · dsimp only
    split
    · rename_i rest htodo
      rw [htodo] at hattends
      unfold OpClient.resume
      split
      · exact hc.keep rfl (.inl rfl) (fun _ => id) trivial
      · refine hc.keep (seq_trim ..) (.inr rfl) (fun x hx => ?_) hattends
        exact (mem_unacked_trim hx :)
    · exact hc.keep rfl (.inl rfl) (fun _ => id) hattends

/-- A reply that is received queues nothing. -/
theorem Records.receive (hc : c.Records log) {seq : ℕ} {rest : List (OpInstr β)}
    (htodo : c.todo = .awaiting seq :: rest)
    (r : OpReply ρ) : (c.receive w seq rest r).Records (log ++ added c (c.receive w seq rest r)) := by
  have hattends := hc.attends
  rw [htodo] at hattends
  unfold OpClient.receive
  split
  · exact hc.keep rfl (.inl rfl) (fun _ => id) hc.attends
  · dsimp only
    split
    · refine hc.keep (seq_trim ..) (.inl (pending_trim ..)) (fun x hx => ?_) trivial
      exact (mem_unacked_trim hx :)
    · refine hc.keep (seq_trim ..) (.inl (pending_trim ..)) (fun x hx => ?_) (attends_of_notMem hattends.2)
      exact (mem_unacked_trim hx :)

/-- **A move of the client** adds to what was queued, and the queues go with it. -/
theorem Records.act (hc : c.Records log) {a : OpClientAction β ρ} (h : c.act w a = some d) :
    d.Records (log ++ added c d) := by
  have hattends := hc.attends
  cases Acts.of_act h with
  | post htodo => exact hc.keep rfl (.inl rfl) (fun _ => id) (attends_of_notMem (by simp))
  | request htodo => exact hc.keep rfl (.inl rfl) (fun _ => id) (attends_of_notMem (by simp))
  | flush htodo => exact hc.keep rfl (.inl rfl) (fun _ => id) (attends_of_notMem (by simp))
  | free htodo =>
      rw [htodo] at hattends
      refine hc.keep rfl (.inl rfl) (fun _ => id) (attends_of_notMem ?_)
      rw [htodo]
      exact fun k hk => hattends k (by simpa using hk)
  | next h => exact hc.next h
  | dial hdials => exact hc.keep rfl (.inl rfl) (fun _ => id) hattends
  | shake hopening => exact hc.shaken ..
  | refuse hopening => exact hc.raise
  | sent hsock hout => exact hc.sent hout
  | unsent hsock hout => exact hc.broken
  | receive htodo hsock => exact hc.receive htodo _
  | fail hwhen => exact hc.broken
  | giveUp htodo hopening => exact hc.raise

end OpClient

/-! ### The system -/

namespace OpSystem

open OpServer

variable {e : Engine σ β ρ} {grace : ℕ} {w : OpConfig β ρ} {own : ℕ → OpSessionId} {s t : OpSystem σ β ρ}
  {log : List β}

/-- Whatever is queued, sent or executed for the client is as it was queued. -/
structure Recorded (e : Engine σ β ρ) (log : List β) (s : OpSystem σ β ρ) : Prop where
  client : s.client.Records log
  sent : ∀ k, ∀ m ∈ s.sent k, m.From log
  server : s.server.Obeys e log fun k => s.dialed k ≠ none

/-- Nothing is recorded at first. -/
theorem Recorded.initial (e : Engine σ β ρ) : (OpSystem.initial e : OpSystem σ β ρ).Recorded e [] := by
  refine ⟨.initial, ?_, .initial e _⟩
  rintro _ _ ⟨⟩

/-- What a connection of the client is about to apply was sent as it was queued, and is not ahead. -/
theorem Gapless.next (hg : s.Gapless True w own) (hsent : ∀ k, ∀ m ∈ s.sent k, m.From log) {k : OpConnId} {l : Lease}
    {m : OpMessage β} {rest : List (OpMessage β)} (hk : s.dialed k ≠ none) (hpc : (s.server.conn k).pc = .serving l)
    (hbatch : (s.server.conn k).batch = m :: rest) :
    m.From log ∧ m.seq ≤ (s.server.session l.session).lastSeq + 1 := by
  refine ⟨hsent k m ?_, hg.seq_le_succ trivial hk hpc hbatch⟩
  rw [← hg.flow k (.inl hk), traffic, hbatch]
  simp

/-- The session of a connection of the client is no other client's. -/
theorem Gapless.ours (hg : s.Gapless True w own) {k : OpConnId} {l : Lease} (hk : s.dialed k ≠ none)
    (hl : (s.server.conn k).pc.lease = some l) (k' : OpConnId) (f : Snapshot σ ρ) (hk' : ¬s.dialed k' ≠ none)
    (hf : (s.server.conn k').found = some f) : f.lease.session ≠ l.session := by
  intro hsame
  have hnamed : named (s.server.conn k) = some l.sid := by
    cases hpc : (s.server.conn k).pc with
    | idle | greeted _ _ | ended =>
        rw [hpc] at hl
        cases hl
    | attached l' resumed n =>
        rw [hpc] at hl
        obtain rfl := Option.some.inj hl
        rw [named, hg.server.early k (by rw [hpc]; rfl), hpc]
    | serving l' | replying l' r | closing l' =>
        rw [hpc] at hl
        obtain rfl := Option.some.inj hl
        obtain ⟨f', hf', hfl⟩ := hg.server.held k l' (by rw [hpc]; rfl)
        rw [named, hf', ← hfl]
  have hsid := (hg.mine k _ hnamed).mp hk
  refine hk' ((hg.mine k' f.lease.sid (by rw [named, hf])).mpr ?_)
  rw [← (hg.server.found k' f hf).1, hsame, (hg.server.leased k l hl).1, hsid]

section Runs

variable [DecidableEq β] [DecidableEq ρ]

/-- What is sent is pending, or is replayed. -/
theorem sent_step {a : OpAction β} (hstep : s.step e grace w a = some t) {k : OpConnId} {m : OpMessage β}
    (hm : m ∈ t.sent k) : m ∈ s.sent k ∨
      ∃ x, (x ∈ s.client.pending ∨ x ∈ s.client.unacked) ∧ x.message = m := by
  cases a <;> simp only [OpSystem.step] at hstep
  case send ok arrives =>
    split at hstep
    · rename_i k' hsock
      split at hstep
      · cases hstep
      · obtain rfl := Option.some.inj hstep
        split at hm
        · dsimp only at hm
          by_cases hk : k = k'
          · rw [hk, Function.update_self] at hm
            rcases List.mem_append.mp hm with h | h
            · exact .inl (hk ▸ h)
            · obtain ⟨x, hx, rfl⟩ := List.mem_map.mp h
              refine .inr ⟨x, ?_, rfl⟩
              unfold OpClient.outgoing at hx
              split at hx
              · exact .inl hx
              · exact .inr hx
              · cases hx
          · rw [Function.update_of_ne hk] at hm
            exact .inl hm
        · exact .inl hm
    · cases hstep
  all_goals refine .inl ?_
  all_goals grind [Option.map_eq_some_iff]

/-- What a step is to the server, and to the connections of the client. -/
theorem server_step {a : OpAction β} (hstep : s.step e grace w a = some t) :
    (t.server = s.server ∧ ∀ k, t.dialed k ≠ none → s.dialed k ≠ none ∨ (s.server.conn k).pc = .idle) ∨
      t.dialed = s.dialed ∧ ((∃ a', s.server.step e grace a' = some t.server) ∨ t.server = s.server.restart) := by
  cases a <;> simp only [OpSystem.step] at hstep
  case dial k =>
    split at hstep <;> cases hstep
    rename_i h
    refine .inl ⟨rfl, fun k' hk' => ?_⟩
    by_cases hkk : k' = k
    · rw [hkk]
      exact .inr h.2.2
    · dsimp only at hk'
      rw [Function.update_of_ne hkk] at hk'
      exact .inl hk'
  case hello k =>
    split at hstep
    · obtain ⟨u, hu, rfl⟩ := Option.map_eq_some_iff.mp hstep
      exact .inr ⟨rfl, .inl ⟨_, hu⟩⟩
    · cases hstep
  case deliver k =>
    split at hstep
    · obtain ⟨u, hu, rfl⟩ := Option.map_eq_some_iff.mp hstep
      exact .inr ⟨rfl, .inl ⟨_, hu⟩⟩
    · cases hstep
  case server a =>
    split at hstep
    · obtain ⟨u, hu, rfl⟩ := Option.map_eq_some_iff.mp hstep
      exact .inr ⟨rfl, .inl ⟨_, hu⟩⟩
    · cases hstep
  case restart =>
    cases hstep
    exact .inr ⟨rfl, .inr rfl⟩
  all_goals refine .inl ?_
  all_goals grind [Option.map_eq_some_iff]

/-- **Each step keeps to what was queued**, with what it adds. -/
theorem Recorded.step (hs : s.Recorded e log) (hg : s.Gapless True w own) {a : OpAction β}
    (hstep : s.step e grace w a = some t) : t.Recorded e (log ++ OpClient.added s.client t.client) := by
  have hlog : log <+: log ++ OpClient.added s.client t.client := List.prefix_append ..
  refine ⟨?_, fun k m hm => ?_, Obeys.mono ?_ hlog⟩
  · rcases step_client hstep with h | ⟨x, hx⟩
    · rw [h]
      exact hs.client.keep rfl (.inl rfl) (fun _ => id) hs.client.attends
    · exact hs.client.act hx
  · rcases sent_step hstep hm with h | ⟨x, hx | hx, rfl⟩
    · exact (hs.sent k m h).mono hlog
    · exact (hs.client.pending x hx).mono hlog
    · exact (hs.client.unacked x hx).mono hlog
  · rcases server_step hstep with ⟨hserver, hdialed⟩ | ⟨hdialed, ⟨a', ha'⟩ | hrestart⟩
    · rw [hserver]
      refine hs.server.setMine fun k hk hk' => ?_
      have hidle := (hdialed k hk).resolve_left hk'
      have hfound := hg.server.early k (by rw [hidle]; rfl)
      exact ⟨hidle, hfound, (hg.server.blank k hfound).2⟩
    · rw [hdialed]
      exact hs.server.step hg.server (fun _ _ _ _ => hg.next hs.sent) (fun _ _ => hg.ours) ha'
    · rw [hdialed, hrestart]
      exact hs.server.restart

/-- The bodies that a step adds to what is pending. -/
def queued (e : Engine σ β ρ) (grace : ℕ) (w : OpConfig β ρ) (s : OpSystem σ β ρ) (a : OpAction β) : List β :=
  match s.step e grace w a with
  | some t => OpClient.added s.client t.client
  | none => []

/-- Everything the client queued in a run, in order. -/
def journal (e : Engine σ β ρ) (grace : ℕ) (w : OpConfig β ρ) (as : List (OpAction β)) : List β :=
  follows (step e grace w) (queued e grace w) (initial e) as

/-- Queueing, as a system of its own. -/
def enqueue (log : List β) (b : β) : Option (List β) := some (log ++ [b])

omit [DecidableEq β] in
/-- Queueing messages one by one queues them all. -/
theorem run_enqueue (log bs : List β) : run enqueue log bs = some (log ++ bs) := by
  induction bs generalizing log with
  | nil => rw [run_nil, List.append_nil]
  | cons b bs ih => rw [run_cons, enqueue, Option.bind_some, ih, List.append_assoc, List.singleton_append]

/-- The system follows the queue. -/
theorem simulates_enqueue (e : Engine σ β ρ) (grace : ℕ) (w : OpConfig β ρ) :
    Simulates (step e grace w) enqueue StillPending (queued e grace w)
      fun s log => (∃ own, Gapless True w own s) ∧ s.Recorded e log := by
  rintro s log a t ⟨⟨own, hg⟩, hs⟩ ha hstep
  refine ⟨_, run_enqueue .., hg.step (fun _ => ha) hstep, ?_⟩
  rw [queued, hstep]
  exact hs.step hg hstep

/-- It holds in every run along `StillPending`, with the journal of the run. -/
theorem recorded (e : Engine σ β ρ) (grace : ℕ) (w : OpConfig β ρ) (as : List (OpAction β)) (s : OpSystem σ β ρ)
    (halong : Along (step e grace w) StillPending (initial e) as)
    (hrun : run (step e grace w) (initial e) as = some s) :
    (∃ own, Gapless True w own s) ∧ s.Recorded e (journal e grace w as) := by
  obtain ⟨log, hlog, hg, hs⟩ := (simulates_enqueue e grace w).run (t := [])
    ⟨⟨fun _ => 0, Gapless.initial True w _⟩, .initial e⟩ halong hrun
  rw [run_enqueue, List.nil_append] at hlog
  obtain rfl := Option.some.inj hlog
  exact ⟨hg, hs⟩

/-- **Everything is done as it was queued.** However connections break and are taken up again, replies are lost and
messages replayed, and the server started again (along `StillPending`): a session of the client is where the first
messages that the client queued lead, executed one after the other, each once; and what the client accepts as the
answer to the message it waits for, the last one queued, is the answer to that message in that order. What a message
does is a function of the state of its session: what sessions share, as the generator of random numbers, is not. -/
theorem done_as_queued (e : Engine σ β ρ) (grace : ℕ) (w : OpConfig β ρ) (as : List (OpAction β))
    (s : OpSystem σ β ρ) (halong : Along (step e grace w) StillPending (initial e) as)
    (hrun : run (step e grace w) (initial e) as = some s) :
    (∀ k f, s.dialed k ≠ none → (s.server.conn k).found = some f →
      (s.server.session f.lease.session).lastSeq ≤ (journal e grace w as).length ∧
      (s.server.session f.lease.session).state =
        e.after ((journal e grace w as).take (s.server.session f.lease.session).lastSeq)) ∧
    ∀ seq rest k r, s.client.todo = .awaiting seq :: rest → s.client.sock = some k →
      (s.server.conn k).outbox[s.taken k]? = some (.reply r) → seq ≤ r.seq →
        seq = (journal e grace w as).length ∧ r.seq = seq ∧ e.Answers (journal e grace w as) seq r.value := by
  obtain ⟨⟨own, hg⟩, hs⟩ := recorded e grace w as s halong hrun
  refine ⟨fun k f hk hf => ?_, fun seq rest k r htodo hsock hframe hle => ?_⟩
  · obtain ⟨⟨done, hdone, hlength, hstate⟩, -⟩ := hs.server.sessions f.lease.session fun k' f' hk' hf' heq =>
      hk' ((hg.mine_of_session hf hf' heq).mpr hk)
    refine ⟨hlength ▸ hdone.length_le, hstate.trans ?_⟩
    rw [← hlength, ← List.prefix_iff_eq_take.mp hdone]
  · have hattends := hs.client.attends
    rw [htodo] at hattends
    have hanswer := hs.server.outbox k r (hg.covered k hsock).1 (List.mem_of_getElem? hframe)
    have hlength : seq = (journal e grace w as).length := hattends.1.trans hs.client.length.symm
    obtain hseq : r.seq = seq := le_antisymm (hlength ▸ hanswer.le_length) hle
    exact ⟨hlength, hseq, hseq ▸ hanswer⟩

end Runs

/-- After a replay the session has counted both requests. -/
theorem done_as_queued_replayed : ∃ s, run (step counting 120 plain) (initial counting) replayed = some s ∧
    (s.server.session 0).state = 2 := by
  have hsome : (run (step counting 120 plain) (initial counting) replayed).isSome = true := by decide
  obtain ⟨s, hs⟩ := Option.isSome_iff_exists.mp hsome
  have hstate : (run (step counting 120 plain) (initial counting) replayed).map (fun s =>
      ((s.server.conn 1).found.map (·.lease.session), (s.server.session 0).lastSeq, (s.dialed 1).isSome)) =
      some (some 0, 2, true) := by decide
  simp only [hs, Option.map_some, Option.some.injEq, Prod.mk.injEq] at hstate
  obtain ⟨hfound, hlast, hdialed⟩ := hstate
  obtain ⟨f, hf, hsession⟩ := Option.map_eq_some_iff.mp hfound
  have hdone := (done_as_queued counting 120 plain replayed s (by decide) hs).1 1 f
    (Option.isSome_iff_ne_none.mp hdialed) hf
  rw [hsession, hlast] at hdone
  have hjournal : journal counting 120 plain replayed = [true, true] := by decide
  refine ⟨s, hs, hdone.2.trans ?_⟩
  rw [hjournal]
  rfl

end OpSystem

end Rgpu
