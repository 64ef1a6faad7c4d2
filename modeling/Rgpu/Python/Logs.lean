import Rgpu.Python.Client
import Rgpu.Python.Fencing

/-! # What the server's records say

What holds of the sessions and connections of the server whatever clients do, across restarts.

* **`OpServer.Logged`** — every lease and entry is of the id its session was made under; and what a
  connection found, applied and answered is no further than its session is now.
* **`OpServer.traffic`** — what a connection has been sent, applied or not: a step of the server moves
  messages along and loses none. -/

namespace Rgpu

open Foundations

variable {σ β ρ : Type}

namespace OpSession

variable {e : Engine σ β ρ} {x : OpSession σ ρ} {m : OpMessage β}

/-- The last number does not go down. -/
theorem lastSeq_le_execute (e : Engine σ β ρ) (x : OpSession σ ρ) (m : OpMessage β) :
    x.lastSeq ≤ (x.execute e m).1.lastSeq := by
  rw [execute]
  split
  · exact le_rfl
  · rename_i hnew
    dsimp only
    split <;> exact (not_le.mp hnew).le

/-- A message executed is behind the session afterwards. -/
theorem seq_le_execute (e : Engine σ β ρ) (x : OpSession σ ρ) (m : OpMessage β) :
    m.seq ≤ (x.execute e m).1.lastSeq := by
  rw [execute]
  split
  · rename_i hold
    exact hold
  · dsimp only
    split <;> exact le_rfl

/-- A reply is of no later message than the last. -/
theorem seq_answer_le {r : OpReply ρ} (h : (x.execute e m).2 = .answer r) :
    r.seq ≤ (x.execute e m).1.lastSeq := by
  rw [execute] at h ⊢
  split at h
  · cases h
  · rename_i hnew
    rw [if_neg hnew]
    dsimp only at h ⊢
    split at h
    · cases h
    · rw [← OpOutcome.answer.inj h]
    · cases h

/-- The cached reply is of no later message than the last. -/
theorem lastReply_execute_le (h : ∀ r, x.lastReply = some r → r.seq ≤ x.lastSeq) (e : Engine σ β ρ)
    (m : OpMessage β) (r : OpReply ρ) (hr : (x.execute e m).1.lastReply = some r) :
    r.seq ≤ (x.execute e m).1.lastSeq := by
  rw [execute] at hr ⊢
  split at hr
  · rename_i hold
    rw [if_pos hold]
    exact h r hr
  · rename_i hnew
    rw [if_neg hnew]
    rw [not_le] at hnew
    dsimp only at hr ⊢
    split at hr
    · exact (h r hr).trans hnew.le
    · rw [← Option.some.inj hr]
    · exact (h r hr).trans hnew.le

end OpSession

namespace OpPc

/-- The thread has not done its handshake. -/
def early : OpPc ρ → Bool
  | .idle | .greeted _ _ | .attached _ _ _ => true
  | .serving _ | .replying _ _ | .closing _ | .ended => false

end OpPc

namespace OpServer

variable {e : Engine σ β ρ} {grace : ℕ} {own : ℕ → OpSessionId} {s t : OpServer σ β ρ} {c : OpConnId}

/-- Sessions, entries, leases and connections agree; `own` is the id each session was made under. -/
structure Logged (own : ℕ → OpSessionId) (s : OpServer σ β ρ) : Prop where
  entry : ∀ sid x, s.registry.find sid = some x → own x.session = sid ∧ x.session < s.made
  leased : ∀ k l, (s.conn k).pc.lease = some l → own l.session = l.sid ∧ l.session < s.made
  held : ∀ k l, (s.conn k).pc.served = some l → ∃ f, (s.conn k).found = some f ∧ f.lease = l
  found : ∀ k f, (s.conn k).found = some f → own f.lease.session = f.lease.sid ∧ f.lease.session < s.made
  early : ∀ k, (s.conn k).pc.early = true → (s.conn k).found = none
  blank : ∀ k, (s.conn k).found = none → (s.conn k).executed = [] ∧ (s.conn k).outbox = []
  reported : ∀ k f, (s.conn k).found = some f →
    f.session.lastSeq ≤ (s.session f.lease.session).lastSeq
  executed : ∀ k f d, (s.conn k).found = some f → d ∈ (s.conn k).executed →
    d.1.seq ≤ (s.session f.lease.session).lastSeq
  replying : ∀ k l r, (s.conn k).pc = .replying l r → r.seq ≤ (s.session l.session).lastSeq
  /-- A thread that serves has written something. -/
  spoken : ∀ k l, (s.conn k).pc = .serving l ∨ (∃ r, (s.conn k).pc = .replying l r) →
    (s.conn k).outbox ≠ []
  /-- The first frame written is the handshake. -/
  hello : ∀ k fr, (s.conn k).outbox.head? = some fr →
    ∃ f, (s.conn k).found = some f ∧ fr = .hello f.resumed f.session.lastSeq
  replies : ∀ k f r, (s.conn k).found = some f → OpFrame.reply r ∈ (s.conn k).outbox →
    r.seq ≤ (s.session f.lease.session).lastSeq
  lastReply : ∀ u r, (s.session u).lastReply = some r → r.seq ≤ (s.session u).lastSeq

/-- The same of one connection, where the sessions are what they are. -/
structure ConnLogged (own : ℕ → OpSessionId) (made : ℕ) (session : ℕ → OpSession σ ρ) (x : OpConn σ β ρ) : Prop where
  leased : ∀ l, x.pc.lease = some l → own l.session = l.sid ∧ l.session < made
  held : ∀ l, x.pc.served = some l → ∃ f, x.found = some f ∧ f.lease = l
  found : ∀ f, x.found = some f → own f.lease.session = f.lease.sid ∧ f.lease.session < made
  early : x.pc.early = true → x.found = none
  blank : x.found = none → x.executed = [] ∧ x.outbox = []
  reported : ∀ f, x.found = some f → f.session.lastSeq ≤ (session f.lease.session).lastSeq
  executed : ∀ f d, x.found = some f → d ∈ x.executed → d.1.seq ≤ (session f.lease.session).lastSeq
  replying : ∀ l r, x.pc = .replying l r → r.seq ≤ (session l.session).lastSeq
  spoken : ∀ l, x.pc = .serving l ∨ (∃ r, x.pc = .replying l r) → x.outbox ≠ []
  hello : ∀ fr, x.outbox.head? = some fr → ∃ f, x.found = some f ∧ fr = .hello f.resumed f.session.lastSeq
  replies : ∀ f r, x.found = some f → OpFrame.reply r ∈ x.outbox → r.seq ≤ (session f.lease.session).lastSeq

/-- Later, when there are more sessions and they have got further. -/
theorem ConnLogged.mono {own' : ℕ → OpSessionId} {made made' : ℕ} {session session' : ℕ → OpSession σ ρ}
    {x : OpConn σ β ρ} (h : ConnLogged own made session x) (hown : ∀ u < made, own' u = own u) (hmade : made ≤ made')
    (hseq : ∀ u, (session u).lastSeq ≤ (session' u).lastSeq) : ConnLogged own' made' session' x :=
  { h with
    leased := by
      intro l hl
      obtain ⟨hid, hlt⟩ := h.leased l hl
      exact ⟨(hown _ hlt).trans hid, hlt.trans_le hmade⟩
    found := by
      intro f hf
      obtain ⟨hid, hlt⟩ := h.found f hf
      exact ⟨(hown _ hlt).trans hid, hlt.trans_le hmade⟩
    reported := fun f hf => (h.reported f hf).trans (hseq _)
    executed := fun f d hf hd => (h.executed f d hf hd).trans (hseq _)
    replying := fun l r hpc => (h.replying l r hpc).trans (hseq _)
    replies := fun f r hf hr => (h.replies f r hf hr).trans (hseq _) }

/-- The first frame of a greeting, when any is sent. -/
theorem head?_greeting {x : OpSession σ ρ} {resumed : Bool} {lastAcked n : ℕ} {fr : OpFrame ρ}
    (h : ((greeting x resumed lastAcked).take n).head? = some fr) : fr = .hello resumed x.lastSeq := by
  cases n with
  | zero => cases h
  | succ n => exact (Option.some.inj h).symm

/-- The reply that a handshake sends is the cached one. -/
theorem reply_mem_greeting {x : OpSession σ ρ} {resumed : Bool} {lastAcked n : ℕ} {r : OpReply ρ}
    (h : OpFrame.reply r ∈ (greeting x resumed lastAcked).take n) : x.lastReply = some r := by
  have hmem := List.mem_of_mem_take h
  rw [greeting, List.mem_cons] at hmem
  rcases hmem with hmem | hmem
  · cases hmem
  · split at hmem
    · cases hmem
    · rename_i r' hr'
      split at hmem
      · rw [List.mem_singleton, OpFrame.reply.injEq] at hmem
        rw [hr', hmem]
      · cases hmem

namespace Logged

/-- There are no connections at first. -/
theorem initial (own : ℕ → OpSessionId) : (OpServer.initial e).Logged own := by
  constructor <;> simp [OpServer.initial, OpPc.lease, OpPc.served]

/-- What holds of the server holds of each connection. -/
theorem conn (hs : s.Logged own) (k : OpConnId) : ConnLogged own s.made s.session (s.conn k) :=
  ⟨hs.leased k, hs.held k, hs.found k, hs.early k, hs.blank k, hs.reported k, hs.executed k, hs.replying k,
    hs.spoken k, hs.hello k, hs.replies k⟩

/-- What is said of the connections may be shown one by one. -/
theorem of_conns
    (hentry : ∀ sid x, s.registry.find sid = some x → own x.session = sid ∧ x.session < s.made)
    (hconn : ∀ k, ConnLogged own s.made s.session (s.conn k))
    (hlastReply : ∀ u r, (s.session u).lastReply = some r → r.seq ≤ (s.session u).lastSeq) : s.Logged own where
  entry := hentry
  leased := fun k => (hconn k).leased
  held := fun k => (hconn k).held
  found := fun k => (hconn k).found
  early := fun k => (hconn k).early
  blank := fun k => (hconn k).blank
  reported := fun k => (hconn k).reported
  executed := fun k => (hconn k).executed
  replying := fun k => (hconn k).replying
  spoken := fun k => (hconn k).spoken
  hello := fun k => (hconn k).hello
  replies := fun k => (hconn k).replies
  lastReply := hlastReply

/-- Where one connection changes, nothing is to be shown of the others. -/
theorem setConn_of (hs : s.Logged own) {x : OpConn σ β ρ} (hx : ConnLogged own s.made s.session x) :
    (s.setConn c x).Logged own := by
  refine of_conns hs.entry (fun k => ?_) hs.lastReply
  rw [conn_setConn]
  split
  · exact hx
  · exact hs.conn k

/-- A session gets further. -/
theorem setSession_of (hs : s.Logged own) {u : ℕ} {y : OpSession σ ρ} (hseq : (s.session u).lastSeq ≤ y.lastSeq)
    (hlast : ∀ r, y.lastReply = some r → r.seq ≤ y.lastSeq) : (s.setSession u y).Logged own := by
  have hgrows : ∀ v, (s.session v).lastSeq ≤ ((s.setSession u y).session v).lastSeq := by
    intro v
    by_cases hv : v = u
    · rw [hv, session_setSession_self]
      exact hseq
    · rw [session_setSession_of_ne _ _ hv]
  refine of_conns hs.entry (fun k => (hs.conn k).mono (fun _ _ => rfl) le_rfl hgrows) fun v r hr => ?_
  by_cases hv : v = u
  · rw [hv, session_setSession_self] at hr ⊢
    exact hlast r hr
  · rw [session_setSession_of_ne _ _ hv] at hr ⊢
    exact hs.lastReply v r hr

/-- A thread moves on with the lease it has, or none. -/
theorem setConn (hs : s.Logged own) {x : OpConn σ β ρ}
    (hlease : ∀ l, x.pc.lease = some l → (s.conn c).pc.lease = some l)
    (hheld : ∀ l, x.pc.served = some l → (s.conn c).pc.served = some l)
    (hearly : x.pc.early = true → (s.conn c).pc.early = true)
    (hpc : ∀ l, x.pc ≠ .serving l ∧ ∀ r, x.pc ≠ .replying l r)
    (hfound : x.found = (s.conn c).found) (hexecuted : x.executed = (s.conn c).executed)
    (houtbox : x.outbox = (s.conn c).outbox) : (s.setConn c x).Logged own := by
  have h := hs.conn c
  apply hs.setConn_of
  constructor
  case leased => exact fun l hl => h.leased l (hlease l hl)
  case replying => exact fun l r heq => absurd heq ((hpc l).2 r)
  case spoken =>
    rintro l (heq | ⟨r, heq⟩)
    · exact absurd heq (hpc l).1
    · exact absurd heq ((hpc l).2 r)
  -- the rest is about what it found, executed and sent, which has not changed
  all_goals rw [hfound]
  case held => exact fun l hl => h.held l (hheld l hl)
  case found => exact h.found
  case early => exact fun hpc => h.early (hearly hpc)
  case blank =>
    rw [hexecuted, houtbox]
    exact h.blank
  case reported => exact h.reported
  case executed =>
    rw [hexecuted]
    exact h.executed
  case hello =>
    rw [houtbox]
    exact h.hello
  case replies =>
    rw [houtbox]
    exact h.replies

/-- A connection takes a frame, or takes one up; its thread stays where it is. -/
theorem setQueues (hs : s.Logged own) (batch : List (OpMessage β)) (inbox : List (List (OpMessage β))) :
    (s.setConn c { s.conn c with batch := batch, inbox := inbox }).Logged own :=
  hs.setConn_of { hs.conn c with }

/-- A reply is sent. -/
theorem reply (hs : s.Logged own) {l : Lease} {r : OpReply ρ} (hpc : (s.conn c).pc = .replying l r) :
    (s.setConn c { s.conn c with
      pc := .serving l, outbox := (s.conn c).outbox ++ [OpFrame.reply r] }).Logged own := by
  have h := hs.conn c
  have hlease : (s.conn c).pc.lease = some l := by rw [hpc]; rfl
  have hheld : (s.conn c).pc.served = some l := by rw [hpc]; rfl
  obtain ⟨f, hf, hfl⟩ := h.held l hheld
  have hspoken := h.spoken l (Or.inr ⟨r, hpc⟩)
  exact hs.setConn_of { h with
    leased := by
      rintro _ ⟨⟩
      exact h.leased l hlease
    held := by
      rintro _ ⟨⟩
      exact h.held l hheld
    early := fun hearly => by cases hearly
    blank := by
      intro hnone
      rw [show (s.conn c).found = none from hnone] at hf
      cases hf
    replying := fun _ _ heq => by cases heq
    spoken := fun _ _ => List.append_ne_nil_of_left_ne_nil hspoken _
    hello := by
      intro fr hfr
      rw [List.head?_append_of_ne_nil _ hspoken] at hfr
      exact h.hello fr hfr
    replies := by
      intro f' r' hf' hr'
      rcases List.mem_append.mp hr' with hold | hnew
      · exact h.replies f' r' hf' hold
      · -- the reply that is sent is the one that the thread had
        cases List.mem_singleton.mp hnew
        rw [show (s.conn c).found = some f' from hf'] at hf
        cases hf
        rw [hfl]
        exact h.replying l r hpc }

/-- An attach: the new lease and the entry are of the id, and of the session it was made for. -/
theorem attach (hs : s.Logged own) (hpc : (s.conn c).pc.early = true) (sid : OpSessionId)
    (lastAcked : ℕ) :
    ∃ own', ((s.registryAttach c sid).1.setPc c
      (.attached (s.registryAttach c sid).2.1 (s.registryAttach c sid).2.2 lastAcked)).Logged own' := by
  -- a thread that attaches has found, executed and answered nothing yet
  have hattached : ∀ {own' made' l resumed}, ConnLogged own' made' s.session (s.conn c) →
      own' l.session = l.sid ∧ l.session < made' →
      ConnLogged own' made' s.session { s.conn c with pc := .attached l resumed lastAcked } := by
    intro own' made' l resumed h hl
    exact { h with
      leased := by
        rintro _ ⟨⟩
        exact hl
      held := fun _ heq => by cases heq
      early := fun _ => h.early hpc
      replying := fun _ _ heq => by cases heq
      spoken := by rintro _ (heq | ⟨_, heq⟩) <;> cases heq }
  simp only [registryAttach, OpServer.setPc]
  split
  · rename_i x hx
    have hentry := hs.entry sid x hx
    refine ⟨own, ?_⟩
    apply setConn_of
    · refine of_conns (fun sid' x' hx' => ?_) hs.conn hs.lastReply
      dsimp only at hx'
      rw [Table.find_insert] at hx'
      split at hx'
      · rename_i heq
        cases hx'
        rw [heq]
        exact hentry
      · exact hs.entry sid' x' hx'
    · exact hattached (hs.conn c) hentry
  · -- nothing is of the new session's number yet
    have hown : ∀ u < s.made, Function.update own s.made sid u = own u := fun u hu =>
      Function.update_of_ne hu.ne _ _
    have hconn : ∀ k, ConnLogged (Function.update own s.made sid) (s.made + 1) s.session (s.conn k) := fun k =>
      (hs.conn k).mono hown (Nat.le_succ _) fun _ => le_rfl
    have hnew : Function.update own s.made sid s.made = sid ∧ s.made < s.made + 1 :=
      ⟨Function.update_self .., Nat.lt_succ_self _⟩
    refine ⟨Function.update own s.made sid, ?_⟩
    apply setConn_of
    · refine of_conns (fun sid' x' hx' => ?_) hconn hs.lastReply
      dsimp only at hx'
      rw [Table.find_insert] at hx'
      split at hx'
      · rename_i heq
        cases hx'
        rw [heq]
        exact hnew
      · obtain ⟨hid, hlt⟩ := hs.entry sid' x' hx'
        exact ⟨(hown _ hlt).trans hid, Nat.lt_succ_of_lt hlt⟩
    · exact hattached (hconn c) hnew

/-- A handshake: what it finds is what the session is. -/
theorem greet (hs : s.Logged own) {l : Lease} {resumed : Bool} {lastAcked : ℕ}
    (hpc : (s.conn c).pc = .attached l resumed lastAcked) (sent : Option ℕ) :
    (s.greet c l resumed lastAcked sent).Logged own := by
  have hlease := hs.leased c l (by rw [hpc]; rfl)
  have hlastReply := hs.lastReply l.session
  rw [OpServer.greet]
  dsimp only
  generalize hx : ({ s.session l.session with
    generation := max (s.session l.session).generation l.generation } : OpSession σ ρ) = x
  have hlast : x.lastSeq = (s.session l.session).lastSeq := by rw [← hx]
  have hreply : ∀ r, x.lastReply = some r → r.seq ≤ x.lastSeq := by
    rw [← hx]
    exact hlastReply
  -- a greeting that is sent whole begins with the hello
  have hall : sent = none → (greeting x resumed lastAcked).take
      (sent.getD (greeting x resumed lastAcked).length) ≠ [] := by
    rintro rfl
    rw [Option.getD_none, List.take_length]
    exact List.cons_ne_nil _ _
  refine (hs.setSession_of (by rw [hlast]) hreply).setConn_of ?_
  constructor
  case leased =>
    intro l' hl'
    split at hl' <;> cases hl' <;> exact hlease
  case held =>
    intro l' hl'
    split at hl' <;> cases hl' <;> exact ⟨_, rfl, rfl⟩
  case found =>
    rintro _ ⟨⟩
    exact hlease
  case early =>
    intro hearly
    split at hearly <;> cases hearly
  case blank => exact fun hnone => by cases hnone
  case reported =>
    rintro _ ⟨⟩
    rw [session_setSession_self]
  case executed => exact fun _ _ _ hmem => by cases hmem
  case replying =>
    intro l' r heq
    split at heq <;> cases heq
  case spoken =>
    rintro l' (heq | ⟨r, heq⟩)
    · split at heq
      · exact hall ‹_›
      · cases heq
    · split at heq <;> cases heq
  case hello => exact fun fr hfr => ⟨_, rfl, head?_greeting hfr⟩
  case replies =>
    rintro _ r ⟨⟩ hr
    rw [session_setSession_self]
    exact hreply r (reply_mem_greeting hr)

/-- A message: the session goes on, or stays. -/
theorem applyNext (hs : s.Logged own) {l : Lease} (hpc : (s.conn c).pc = .serving l) (m : OpMessage β)
    (rest : List (OpMessage β)) : (s.applyNext e c l m rest).Logged own := by
  rw [OpServer.applyNext]
  dsimp only
  split
  · refine hs.setConn ?_ ?_ ?_ ?_ rfl rfl rfl <;> simp [hpc, OpPc.lease, OpPc.served, OpPc.early]
  · have h := hs.conn c
    have hlease : (s.conn c).pc.lease = some l := by rw [hpc]; rfl
    have hheld : (s.conn c).pc.served = some l := by rw [hpc]; rfl
    obtain ⟨f, hf, hfl⟩ := h.held l hheld
    have hspoken := h.spoken l (Or.inl hpc)
    have hgrows := OpSession.lastSeq_le_execute e (s.session l.session) m
    have hbehind := OpSession.seq_le_execute e (s.session l.session) m
    have hanswer := fun r => OpSession.seq_answer_le (e := e) (x := s.session l.session) (m := m) (r := r)
    have hlastReply := OpSession.lastReply_execute_le (hs.lastReply l.session) e m
    generalize OpSession.execute e (s.session l.session) m = y at *
    have hnext := hs.setSession_of hgrows hlastReply
    have h := hnext.conn c
    exact hnext.setConn_of { h with
      leased := by
        intro l' hl'
        split at hl' <;> cases hl' <;> exact h.leased l hlease
      held := by
        intro l' hl'
        split at hl' <;> cases hl' <;> exact h.held l hheld
      early := by
        intro hearly
        split at hearly <;> cases hearly
      blank := by
        intro hnone
        rw [show (s.conn c).found = none from hnone] at hf
        cases hf
      executed := by
        intro f' d hf' hd
        rcases List.mem_append.mp hd with hold | hnew
        · exact h.executed f' d hf' hold
        · -- the message that was executed
          cases List.mem_singleton.mp hnew
          rw [show (s.conn c).found = some f' from hf'] at hf
          cases hf
          rw [hfl, session_setSession_self]
          exact hbehind
      replying := by
        intro l' r heq
        split at heq
        · cases heq
        · rename_i hr'
          cases heq
          rw [session_setSession_self]
          exact hanswer _ hr'
        · cases heq
      spoken := fun _ _ => hspoken }

/-- What the registry holds goes, and marks on it change nothing here. -/
theorem setRegistry (hs : s.Logged own) {r : Table OpSessionId RegistryEntry}
    (hr : ∀ sid x, r.find sid = some x → ∃ x', s.registry.find sid = some x' ∧ x'.session = x.session) :
    Logged own { s with registry := r } := by
  refine ⟨fun sid x hx => ?_, hs.leased, hs.held, hs.found, hs.early, hs.blank, hs.reported, hs.executed,
    hs.replying, hs.spoken, hs.hello, hs.replies, hs.lastReply⟩
  obtain ⟨x', hx', hsession⟩ := hr sid x hx
  rw [← hsession]
  exact hs.entry sid x' hx'

/-- Detaching changes the registry only. -/
theorem registryDetach (hs : s.Logged own) (l : Lease) : (s.registryDetach l).Logged own := by
  rw [OpServer.registryDetach]
  split
  · rename_i y hy
    split
    · refine hs.setRegistry fun sid x hx => ?_
      rw [Table.find_insert] at hx
      split at hx
      · rename_i heq
        refine ⟨y, heq ▸ hy, ?_⟩
        rw [← Option.some.inj hx]
      · exact ⟨x, hx, rfl⟩
    · exact hs
  · exact hs

/-- Nothing the invariant speaks of is lost when the server is started again. -/
theorem restart (hs : s.Logged own) : s.restart.Logged own := by
  refine of_conns (fun sid x hx => ?_) (fun k => ?_) hs.lastReply
  · rw [OpServer.restart, Table.find_empty] at hx
    cases hx
  · have h := hs.conn k
    rw [OpServer.restart]
    dsimp only
    split
    · exact h
    · -- the thread has ended, and has no lease any more
      exact { h with
        leased := fun _ heq => by cases heq
        held := fun _ heq => by cases heq
        early := fun heq => by cases heq
        replying := fun _ _ heq => by cases heq
        spoken := by rintro _ (heq | ⟨_, heq⟩) <;> cases heq }

/-- **Each step keeps the records straight.** -/
theorem step (hs : s.Logged own) {a : OpServerAction β} (hstep : s.step e grace a = some t) :
    ∃ own', t.Logged own' := by
  cases a with
  | accept c sid lastAcked =>
      unfold OpServer.step at hstep
      dsimp only at hstep
      split at hstep
      · rename_i hpc
        rw [← Option.some.inj hstep]
        refine ⟨own, hs.setConn ?_ ?_ ?_ ?_ rfl rfl rfl⟩ <;> simp [hpc, OpPc.lease, OpPc.served, OpPc.early]
      · cases hstep
  | attach c =>
      unfold OpServer.step at hstep
      dsimp only at hstep
      split at hstep
      · rename_i sid lastAcked hpc
        rw [← Option.some.inj hstep]
        exact hs.attach (by rw [hpc]; rfl) sid lastAcked
      · cases hstep
  | handshake c sent =>
      unfold OpServer.step at hstep
      dsimp only at hstep
      split at hstep
      · rename_i l resumed lastAcked hpc
        rw [← Option.some.inj hstep]
        exact ⟨own, hs.greet hpc sent⟩
      · cases hstep
  | arrive c batch =>
      rw [← Option.some.inj hstep]
      exact ⟨own, hs.setQueues _ _⟩
  | read c =>
      unfold OpServer.step at hstep
      dsimp only at hstep
      split at hstep
      · rw [← Option.some.inj hstep]
        exact ⟨own, hs.setQueues _ _⟩
      · cases hstep
  | apply c =>
      unfold OpServer.step at hstep
      dsimp only at hstep
      split at hstep
      · rename_i l m rest hpc hbatch
        rw [← Option.some.inj hstep]
        exact ⟨own, hs.applyNext hpc m rest⟩
      · cases hstep
  | reply c ok =>
      unfold OpServer.step at hstep
      dsimp only at hstep
      split at hstep
      · rename_i l r hpc
        split at hstep
        · rw [← Option.some.inj hstep]
          exact ⟨own, hs.reply hpc⟩
        · rw [← Option.some.inj hstep]
          refine ⟨own, hs.setConn ?_ ?_ ?_ ?_ rfl rfl rfl⟩ <;> simp [hpc, OpPc.lease, OpPc.served, OpPc.early]
      · cases hstep
  | close c =>
      unfold OpServer.step at hstep
      dsimp only at hstep
      split at hstep
      · rename_i sid lastAcked hpc
        rw [← Option.some.inj hstep]
        refine ⟨own, hs.setConn ?_ ?_ ?_ ?_ rfl rfl rfl⟩ <;> simp [OpPc.lease, OpPc.served, OpPc.early]
      · rename_i l hpc
        rw [← Option.some.inj hstep]
        refine ⟨own, hs.setConn ?_ ?_ ?_ ?_ rfl rfl rfl⟩ <;> simp [hpc, OpPc.lease, OpPc.served, OpPc.early]
      · cases hstep
  | detach c =>
      unfold OpServer.step at hstep
      dsimp only at hstep
      split at hstep
      · rename_i l hpc
        rw [← Option.some.inj hstep]
        refine ⟨own, (hs.registryDetach l).setConn ?_ ?_ ?_ ?_ rfl rfl rfl⟩ <;>
          simp [OpPc.lease, OpPc.served, OpPc.early]
      · cases hstep
  | reap now =>
      simp only [OpServer.step, Option.ite_none_right_eq_some, Option.some.injEq] at hstep
      obtain ⟨-, rfl⟩ := hstep
      exact ⟨own, hs.setRegistry fun sid x hx => ⟨x, (Table.find_filter_eq_some.mp hx).1, rfl⟩⟩
  | tick n =>
      rw [← Option.some.inj hstep]
      exact ⟨own, hs.entry, hs.leased, hs.held, hs.found, hs.early, hs.blank, hs.reported, hs.executed,
        hs.replying, hs.spoken, hs.hello, hs.replies, hs.lastReply⟩

end Logged

/-- Attaching changes no connection. -/
@[simp] theorem conn_registryAttach (s : OpServer σ β ρ) (c : OpConnId) (sid : OpSessionId) :
    (s.registryAttach c sid).1.conn = s.conn := by
  rw [registryAttach]
  split <;> rfl

/-- No connection changes either. -/
@[simp] theorem conn_registryDetach (s : OpServer σ β ρ) (l : Lease) : (s.registryDetach l).conn = s.conn := by
  rw [registryDetach]
  split
  · split <;> rfl
  · rfl

/-- The lease is of the session that was asked for. -/
theorem sid_registryAttach (s : OpServer σ β ρ) (c : OpConnId) (sid : OpSessionId) :
    (s.registryAttach c sid).2.1.sid = sid := by
  rw [registryAttach]
  split <;> rfl

/-- What a connection has been given to do, done or not. -/
def traffic (x : OpConn σ β ρ) : List (OpMessage β) :=
  x.executed.map (·.1) ++ x.batch ++ x.inbox.flatten

/-- What an action brings to a connection. -/
def arrival (a : OpServerAction β) (k : OpConnId) : List (OpMessage β) :=
  match a with
  | .arrive c batch => if k = c then batch else []
  | _ => []

/-- What is sent and received changes on no other connection. -/
theorem traffic_setConn {x : OpConn σ β ρ} (h : traffic x = traffic (s.conn c)) (k : OpConnId) :
    traffic ((s.setConn c x).conn k) = traffic (s.conn k) := by
  rw [conn_setConn]
  split
  · rename_i hk
    rw [hk, h]
  · rfl

/-- **A step moves messages along.** Only an arrival adds to what a connection has been given. -/
theorem traffic_step (hs : s.Logged own) {a : OpServerAction β} (hstep : s.step e grace a = some t)
    (k : OpConnId) : traffic (t.conn k) = traffic (s.conn k) ++ arrival a k := by
  cases a with
  | arrive c batch =>
      rw [← Option.some.inj hstep, conn_setConn, arrival]
      split
      · rename_i hk
        rw [traffic, traffic, hk]
        dsimp only
        rw [List.flatten_concat, ← List.append_assoc]
      · rw [List.append_nil]
  | apply c =>
      unfold OpServer.step at hstep
      dsimp only at hstep
      split at hstep
      · rename_i l m rest hpc hbatch
        refine Eq.trans ?_ (List.append_nil _).symm
        rw [← Option.some.inj hstep, applyNext]
        dsimp only
        split
        · exact traffic_setConn (by rfl) k
        · refine traffic_setConn ?_ k
          rw [traffic, traffic, conn_setSession, hbatch]
          simp
      · cases hstep
  | read c =>
      unfold OpServer.step at hstep
      dsimp only at hstep
      split at hstep
      · rename_i hpc hbatch hinbox
        refine Eq.trans ?_ (List.append_nil _).symm
        rw [← Option.some.inj hstep]
        refine traffic_setConn ?_ k
        rw [traffic, traffic, hbatch, hinbox]
        simp
      · cases hstep
  | handshake c sent =>
      unfold OpServer.step at hstep
      dsimp only at hstep
      split at hstep
      · rename_i l resumed lastAcked hpc
        have hblank := (hs.blank c (hs.early c (by rw [hpc]; rfl))).1
        refine Eq.trans ?_ (List.append_nil _).symm
        rw [← Option.some.inj hstep, greet]
        refine traffic_setConn ?_ k
        rw [traffic, traffic, conn_setSession, hblank]
      · cases hstep
  | accept c sid lastAcked =>
      unfold OpServer.step at hstep
      dsimp only at hstep
      split at hstep
      · refine Eq.trans ?_ (List.append_nil _).symm
        rw [← Option.some.inj hstep]
        exact traffic_setConn (by rfl) k
      · cases hstep
  | attach c =>
      unfold OpServer.step at hstep
      dsimp only at hstep
      split at hstep
      · rename_i sid lastAcked hpc
        refine Eq.trans ?_ (List.append_nil _).symm
        rw [← Option.some.inj hstep]
        refine (traffic_setConn (by rfl) k).trans ?_
        simp
      · cases hstep
  | reply c ok =>
      unfold OpServer.step at hstep
      dsimp only at hstep
      split at hstep
      · split at hstep
        · refine Eq.trans ?_ (List.append_nil _).symm
          rw [← Option.some.inj hstep]
          exact traffic_setConn (by rfl) k
        · refine Eq.trans ?_ (List.append_nil _).symm
          rw [← Option.some.inj hstep]
          exact traffic_setConn (by rfl) k
      · cases hstep
  | close c =>
      unfold OpServer.step at hstep
      dsimp only at hstep
      split at hstep
      · refine Eq.trans ?_ (List.append_nil _).symm
        rw [← Option.some.inj hstep]
        exact traffic_setConn (by rfl) k
      · refine Eq.trans ?_ (List.append_nil _).symm
        rw [← Option.some.inj hstep]
        exact traffic_setConn (by rfl) k
      · cases hstep
  | detach c =>
      unfold OpServer.step at hstep
      dsimp only at hstep
      split at hstep
      · rename_i l hpc
        refine Eq.trans ?_ (List.append_nil _).symm
        rw [← Option.some.inj hstep]
        refine (traffic_setConn (by rfl) k).trans ?_
        simp
      · cases hstep
  | reap now =>
      simp only [OpServer.step, Option.ite_none_right_eq_some, Option.some.injEq] at hstep
      obtain ⟨-, rfl⟩ := hstep
      exact (List.append_nil _).symm
  | tick n =>
      refine Eq.trans ?_ (List.append_nil _).symm
      rw [← Option.some.inj hstep]

/-- A thread that ends leaves what it was given. -/
theorem traffic_restart (s : OpServer σ β ρ) (k : OpConnId) :
    traffic (s.restart.conn k) = traffic (s.conn k) := by
  simp only [restart]
  split <;> rfl

/-- The id a connection named, while anything remembers it. -/
def named (x : OpConn σ β ρ) : Option OpSessionId :=
  match x.found, x.pc with
  | some f, _ => some f.lease.sid
  | none, .greeted sid _ => some sid
  | none, .attached l _ _ => some l.sid
  | none, _ => none

/-- The id an action names for a connection. -/
def naming (a : OpServerAction β) (k : OpConnId) : Option OpSessionId :=
  match a with
  | .accept c sid _ => if k = c then some sid else none
  | _ => none

/-- A thread that is past its handshake keeps what was found there. -/
theorem named_of_late {x x' : OpConn σ β ρ} (hfound : x'.found = x.found) (hpc : x'.pc.early = false)
    {sid : OpSessionId} (h : named x' = some sid) : named x = some sid := by
  rw [named, hfound] at h
  rw [named]
  cases hx : x.found with
  | some f =>
      rw [hx] at h
      exact h
  | none =>
      rw [hx] at h
      cases hpc' : x'.pc with
      | idle | greeted _ _ | attached _ _ _ =>
          rw [hpc'] at hpc
          cases hpc
      | serving _ | replying _ _ | closing _ | ended =>
          rw [hpc'] at h
          cases h

/-- What a step does to a connection: it does not make it one that was not accepted, it keeps what the handshake found,
and it names no id but that of an `accept`. -/
structure Moved (a : OpServerAction β) (k : OpConnId) (x x' : OpConn σ β ρ) : Prop where
  idle : x'.pc = .idle → x.pc = .idle
  found : ∀ f, x.found = some f → x'.found = some f
  named : ∀ sid, named x' = some sid → named x = some sid ∨ naming a k = some sid

/-- A connection that does nothing. -/
theorem Moved.refl (a : OpServerAction β) (k : OpConnId) (x : OpConn σ β ρ) : Moved a k x x :=
  ⟨id, fun _ h => h, fun _ h => .inl h⟩

/-- A connection that has done its handshake has only found what it found. -/
theorem Moved.late {a : OpServerAction β} {x x' : OpConn σ β ρ} {k : OpConnId} (hfound : x'.found = x.found)
    (hpc : x'.pc.early = false) : Moved a k x x' where
  idle := fun hidle => by
    rw [hidle] at hpc
    cases hpc
  found := fun _ hf => hfound.trans hf
  named := fun _ hnamed => .inl (named_of_late hfound hpc hnamed)

/-- A step of the thread of a connection is none of the others. -/
theorem Moved.setConn {a : OpServerAction β} {u : OpServer σ β ρ} {x : OpConn σ β ρ} {k : OpConnId}
    (hconn : u.conn = s.conn) (h : Moved a c (s.conn c) x) : Moved a k (s.conn k) ((u.setConn c x).conn k) := by
  rw [conn_setConn]
  split
  · rename_i hk
    rw [hk]
    exact h
  · rw [hconn]
    exact .refl a k _

/-- Over a step of the server every connection moves on, or stays. -/
theorem conn_step (hs : s.Logged own) {a : OpServerAction β} (hstep : s.step e grace a = some t) (k : OpConnId) :
    Moved a k (s.conn k) (t.conn k) := by
  cases a with
  | accept c sid lastAcked =>
      unfold OpServer.step at hstep
      dsimp only at hstep
      split at hstep
      · rename_i hpc
        rw [← Option.some.inj hstep]
        have hfound : (s.conn c).found = none := hs.early c (by rw [hpc]; rfl)
        refine Moved.setConn rfl ⟨fun _ => hpc, fun _ => id, fun sid' hnamed => .inr ?_⟩
        rw [named, hfound] at hnamed
        rw [naming, if_pos rfl]
        exact hnamed
      · cases hstep
  | attach c =>
      unfold OpServer.step at hstep
      dsimp only at hstep
      split at hstep
      · rename_i sid lastAcked hpc
        rw [← Option.some.inj hstep]
        have hfound : (s.conn c).found = none := hs.early c (by rw [hpc]; rfl)
        refine Moved.setConn (conn_registryAttach ..) ?_
        rw [conn_registryAttach]
        refine ⟨fun hidle => (by cases hidle), fun _ => id, fun sid' hnamed => .inl ?_⟩
        rw [named, hfound] at hnamed
        rw [named, hfound, hpc]
        exact (congrArg some (sid_registryAttach ..)).symm.trans hnamed
      · cases hstep
  | handshake c sent =>
      unfold OpServer.step at hstep
      dsimp only at hstep
      split at hstep
      · rename_i l resumed lastAcked hpc
        rw [← Option.some.inj hstep]
        have hfound : (s.conn c).found = none := hs.early c (by rw [hpc]; rfl)
        refine Moved.setConn rfl ⟨fun hidle => ?_, fun f hf => ?_, fun sid hnamed => .inl ?_⟩
        · dsimp only at hidle
          split at hidle <;> cases hidle
        · rw [hfound] at hf
          cases hf
        · rw [named, hfound, hpc]
          exact hnamed
      · cases hstep
  | arrive c batch =>
      rw [← Option.some.inj hstep]
      exact Moved.setConn rfl ⟨id, fun _ => id, fun _ => .inl⟩
  | read c =>
      unfold OpServer.step at hstep
      dsimp only at hstep
      split at hstep
      · rw [← Option.some.inj hstep]
        exact Moved.setConn rfl ⟨id, fun _ => id, fun _ => .inl⟩
      · cases hstep
  | apply c =>
      unfold OpServer.step at hstep
      dsimp only at hstep
      split at hstep
      · rename_i l m rest hpc hbatch
        rw [← Option.some.inj hstep, applyNext]
        dsimp only
        split
        · exact Moved.setConn rfl (.late rfl rfl)
        · refine Moved.setConn rfl (.late rfl ?_)
          dsimp only
          split <;> rfl
      · cases hstep
  | reply c ok =>
      unfold OpServer.step at hstep
      dsimp only at hstep
      split at hstep
      · split at hstep
        · rw [← Option.some.inj hstep]
          exact Moved.setConn rfl (.late rfl rfl)
        · rw [← Option.some.inj hstep]
          exact Moved.setConn rfl (.late rfl rfl)
      · cases hstep
  | close c =>
      unfold OpServer.step at hstep
      dsimp only at hstep
      split at hstep
      · rw [← Option.some.inj hstep]
        exact Moved.setConn rfl (.late rfl rfl)
      · rw [← Option.some.inj hstep]
        exact Moved.setConn rfl (.late rfl rfl)
      · cases hstep
  | detach c =>
      unfold OpServer.step at hstep
      dsimp only at hstep
      split at hstep
      · rw [← Option.some.inj hstep]
        refine Moved.setConn (conn_registryDetach ..) (.late ?_ rfl)
        rw [conn_registryDetach]
      · cases hstep
  | reap now =>
      simp only [OpServer.step, Option.ite_none_right_eq_some, Option.some.injEq] at hstep
      obtain ⟨-, rfl⟩ := hstep
      exact .refl _ k _
  | tick n =>
      rw [← Option.some.inj hstep]
      exact .refl _ k _

/-- What a message does to a session, and nothing else does. -/
theorem session_step {a : OpServerAction β} (hstep : s.step e grace a = some t) (u : ℕ) :
    ((t.session u).applied = (s.session u).applied ∧ (t.session u).lastSeq = (s.session u).lastSeq) ∨
    ∃ c l m rest, (s.conn c).pc = .serving l ∧ (s.conn c).batch = m :: rest ∧ l.session = u ∧
      (s.session u).lastSeq < m.seq ∧ (t.session u).lastSeq = m.seq ∧
      (t.session u).applied = (s.session u).applied ++ [m.seq] := by
  -- the registry's steps change no session
  have hattach : ∀ c sid, (s.registryAttach c sid).1.session = s.session := by
    intro c sid
    rw [registryAttach]
    split <;> rfl
  have hdetach : ∀ l, (s.registryDetach l).session = s.session := by
    intro l
    rw [registryDetach]
    split
    · split <;> rfl
    · rfl
  cases a <;> simp only [OpServer.step] at hstep
  case apply c =>
    split at hstep
    · rename_i l m rest hpc hbatch
      rw [← Option.some.inj hstep, applyNext]
      dsimp only
      split
      · exact Or.inl ⟨rfl, rfl⟩
      · by_cases hu : u = l.session
        · rw [hu, session_setConn, session_setSession_self]
          rw [OpSession.execute]
          split
          · exact Or.inl ⟨rfl, rfl⟩
          · rename_i hnew
            refine Or.inr ⟨c, l, m, rest, hpc, hbatch, rfl, not_le.mp hnew, ?_⟩
            dsimp only
            split <;> exact ⟨rfl, rfl⟩
        · rw [session_setConn, session_setSession_of_ne _ _ hu]
          exact Or.inl ⟨rfl, rfl⟩
    · cases hstep
  case tick n =>
    rw [← Option.some.inj hstep]
    exact Or.inl ⟨rfl, rfl⟩
  case handshake c sent =>
    split at hstep
    · rename_i l resumed lastAcked hpc
      rw [← Option.some.inj hstep, greet, session_setConn]
      by_cases hu : u = l.session
      · rw [hu, session_setSession_self]
        exact Or.inl ⟨rfl, rfl⟩
      · rw [session_setSession_of_ne _ _ hu]
        exact Or.inl ⟨rfl, rfl⟩
    · cases hstep
  all_goals refine Or.inl ?_
  all_goals grind [setPc, session_setConn, reap]

end OpServer

end Rgpu
