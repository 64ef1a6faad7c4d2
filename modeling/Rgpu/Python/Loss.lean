import Rgpu.Python.Stream

/-! # A session the server has dropped

A client that returns is told whether its session was there. It is there whenever the registry has an
entry under its id, and the handshake that tells the client that its session is gone makes one.

* **`OpSystem.ownSession`** — the session of the handshake the client accepted last.
* **`OpServer.Dropped`** — the registry does not have a session, and no connection serves it.
* **`OpSystem.lost_session_stays_lost`** — for every run in which no attach of the client finds a session
  made for it since.
* **`OpSystem.resumed_in_new_session`** — a run in which one does. -/

namespace Rgpu

open Foundations

variable {σ β ρ : Type}

/-! ## The server: what is dropped stays dropped -/

namespace OpServer

variable {e : Engine σ β ρ} {grace : ℕ} {own : ℕ → OpSessionId} {s t : OpServer σ β ρ} {c : OpConnId}

/-- The registry does not have the session, and no connection does anything with it but end. -/
def Dropped (s : OpServer σ β ρ) (u : ℕ) : Prop :=
  (∀ sid x, s.registry.find sid = some x → x.session ≠ u) ∧
  ∀ k l, (s.conn k).pc.lease = some l → l.session = u → (s.conn k).pc = .closing l

/-- Where a lease comes from. -/
theorem attached_step {a : OpServerAction β} (hstep : s.step e grace a = some t) {k : OpConnId}
    {l : Lease} {resumed : Bool} {n : ℕ} (h : (t.conn k).pc = .attached l resumed n) :
    (s.conn k).pc = .attached l resumed n ∨
      (a = .attach k ∧ (s.conn k).pc = .greeted l.sid n ∧
        (resumed = true → ∃ x, s.registry.find l.sid = some x ∧ l.session = x.session)) := by
  cases a <;> simp only [OpServer.step] at hstep
  case tick n =>
    rw [← Option.some.inj hstep] at h
    exact Or.inl h
  all_goals
    grind [setPc, greet, applyNext, registryAttach, conn_setConn, conn_setSession, conn_registryDetach, reap]

/-- Where what a handshake found comes from. -/
theorem found_step {a : OpServerAction β} (hstep : s.step e grace a = some t) {k : OpConnId}
    {f : Snapshot σ ρ} (h : (t.conn k).found = some f) :
    (s.conn k).found = some f ∨ ∃ n, (s.conn k).pc = .attached f.lease f.resumed n := by
  cases a <;> simp only [OpServer.step] at hstep
  case tick n =>
    rw [← Option.some.inj hstep] at h
    exact Or.inl h
  all_goals
    grind [setPc, greet, applyNext, conn_setConn, conn_setSession, conn_registryAttach,
      conn_registryDetach, reap]

/-- What becomes of a session that nobody holds is of no concern. -/
theorem Dropped.setSession {u : ℕ} (hu : s.Dropped u) (v : ℕ) (x : OpSession σ ρ) :
    (s.setSession v x).Dropped u := hu

/-- A thread goes on, unless it has the session. -/
theorem Dropped.setConn {u : ℕ} (hu : s.Dropped u) {x : OpConn σ β ρ}
    (hx : ∀ l, x.pc.lease = some l → l.session = u → x.pc = .closing l) : (s.setConn c x).Dropped u := by
  refine ⟨hu.1, fun k l hl hlu => ?_⟩
  rw [conn_setConn] at hl ⊢
  split at hl
  · rename_i hk
    rw [if_pos hk]
    exact hx l hl hlu
  · rename_i hk
    rw [if_neg hk]
    exact hu.2 k l hl hlu

/-- A thread that has a lease and does not end has another session. -/
theorem Dropped.ne {u : ℕ} (hu : s.Dropped u) {l : Lease} (hl : (s.conn c).pc.lease = some l)
    (hpc : (s.conn c).pc ≠ .closing l) : l.session ≠ u := fun h => hpc (hu.2 c l hl h)

/-- An attach is given another session. -/
theorem Dropped.registryAttach {u : ℕ} (hu : s.Dropped u) (hmade : u < s.made) (c : OpConnId)
    (sid : OpSessionId) :
    (s.registryAttach c sid).1.Dropped u ∧ (s.registryAttach c sid).2.1.session ≠ u := by
  unfold OpServer.registryAttach
  split
  -- a session that is registered is not the dropped one, and a new one is none that there was
  · rename_i x hx
    have hne := hu.1 sid x hx
    refine ⟨⟨fun sid' x' hx' => ?_, hu.2⟩, hne⟩
    dsimp only at hx'
    rw [Table.find_insert] at hx'
    split at hx'
    · rw [← Option.some.inj hx']
      exact hne
    · exact hu.1 sid' x' hx'
  · refine ⟨⟨fun sid' x' hx' => ?_, hu.2⟩, hmade.ne'⟩
    dsimp only at hx'
    rw [Table.find_insert] at hx'
    split at hx'
    · rw [← Option.some.inj hx']
      exact hmade.ne'
    · exact hu.1 sid' x' hx'

/-- **A session that is dropped stays so.** -/
theorem Dropped.step {u : ℕ} (hu : s.Dropped u) (hmade : u < s.made) {a : OpServerAction β}
    (hstep : s.step e grace a = some t) : t.Dropped u := by
  cases a with
  | accept c sid n =>
      unfold OpServer.step at hstep
      dsimp only at hstep
      split at hstep
      · rw [← Option.some.inj hstep]
        exact hu.setConn (by rintro _ ⟨⟩)
      · cases hstep
  | attach c =>
      unfold OpServer.step at hstep
      dsimp only at hstep
      split at hstep
      · rename_i sid n hpc
        obtain ⟨hattach, hne⟩ := hu.registryAttach hmade c sid
        -- the lease is on what the registry has, or on a session that is made for it
        rw [← Option.some.inj hstep]
        refine hattach.setConn fun l hl hlu => ?_
        rw [← Option.some.inj hl] at hlu
        exact absurd hlu hne
      · cases hstep
  | handshake c sent =>
      unfold OpServer.step at hstep
      dsimp only at hstep
      split at hstep
      · rename_i l resumed n hpc
        have hne := hu.ne (l := l) (by rw [hpc]; rfl) (by rw [hpc]; rintro ⟨⟩)
        -- whatever was sent of the greeting, the lease stays the same
        rw [← Option.some.inj hstep, greet]
        refine (hu.setSession _ _).setConn fun l' hl' hlu => ?_
        refine absurd ?_ hne
        rw [← hlu]
        revert hl'
        dsimp only
        split <;> exact fun h => congrArg Lease.session (Option.some.inj h)
      · cases hstep
  | arrive c batch =>
      rw [← Option.some.inj hstep]
      exact hu.setConn fun l hl hlu => hu.2 c l hl hlu
  | read c =>
      unfold OpServer.step at hstep
      dsimp only at hstep
      split at hstep
      · rw [← Option.some.inj hstep]
        exact hu.setConn fun l hl hlu => hu.2 c l hl hlu
      · cases hstep
  | apply c =>
      unfold OpServer.step at hstep
      dsimp only at hstep
      split at hstep
      · rename_i l m rest hpc hbatch
        have hne := hu.ne (l := l) (by rw [hpc]; rfl) (by rw [hpc]; rintro ⟨⟩)
        rw [← Option.some.inj hstep, applyNext]
        dsimp only
        split
        · refine hu.setConn fun l' hl' hlu => ?_
          rw [← Option.some.inj hl'] at hlu
          exact absurd hlu hne
        · refine (hu.setSession _ _).setConn fun l' hl' hlu => ?_
          refine absurd ?_ hne
          rw [← hlu]
          revert hl'
          dsimp only
          split <;> exact fun h => congrArg Lease.session (Option.some.inj h)
      · cases hstep
  | reply c ok =>
      unfold OpServer.step at hstep
      dsimp only at hstep
      split at hstep
      · rename_i l r hpc
        have hne := hu.ne (l := l) (by rw [hpc]; rfl) (by rw [hpc]; rintro ⟨⟩)
        split at hstep
        · rw [← Option.some.inj hstep]
          refine hu.setConn fun l' hl' hlu => ?_
          rw [← Option.some.inj hl'] at hlu
          exact absurd hlu hne
        · rw [← Option.some.inj hstep]
          refine hu.setConn fun l' hl' hlu => ?_
          rw [← Option.some.inj hl'] at hlu
          exact absurd hlu hne
      · cases hstep
  | close c =>
      unfold OpServer.step at hstep
      dsimp only at hstep
      split at hstep
      · rw [← Option.some.inj hstep]
        exact hu.setConn (by rintro _ ⟨⟩)
      · rw [← Option.some.inj hstep]
        refine hu.setConn fun l' hl' _ => ?_
        rw [← Option.some.inj hl']
      · cases hstep
  | detach c =>
      unfold OpServer.step at hstep
      dsimp only at hstep
      split at hstep
      · rename_i l hpc
        rw [← Option.some.inj hstep]
        refine Dropped.setConn ?_ (by rintro _ ⟨⟩)
        refine ⟨fun sid x hx => ?_, by rw [conn_registryDetach]; exact hu.2⟩
        -- a detach marks an entry and does not change what session it is of
        unfold registryDetach at hx
        split at hx
        · rename_i y hy
          split at hx
          · dsimp only at hx
            rw [Table.find_insert] at hx
            split at hx
            · rw [← Option.some.inj hx]
              exact hu.1 l.sid y hy
            · exact hu.1 sid x hx
          · exact hu.1 sid x hx
        · exact hu.1 sid x hx
      · cases hstep
  | reap now =>
      simp only [OpServer.step, Option.ite_none_right_eq_some, Option.some.injEq] at hstep
      obtain ⟨-, rfl⟩ := hstep
      exact ⟨fun sid x hx => hu.1 sid x (Table.find_filter_eq_some.mp hx).1, hu.2⟩
  | tick n =>
      rw [← Option.some.inj hstep]
      exact hu

/-- When the server is started again, every session is dropped. -/
theorem dropped_restart (s : OpServer σ β ρ) (u : ℕ) : s.restart.Dropped u := by
  refine ⟨fun sid x hx => ?_, fun k l hl hlu => ?_⟩
  · simp [OpServer.restart] at hx
  · cases hpc : (s.conn k).pc <;> simp [OpServer.restart, hpc, OpPc.lease] at hl

end OpServer

/-! ## The client: what its steps leave as it is -/

namespace OpClient

variable {c : OpClient β} {w : OpConfig β ρ}

/-- What no step changes but the end of a handshake, a new number and an answer. -/
structure Steady (c d : OpClient β) : Prop where
  accepted : d.accepted = c.accepted
  hadSession : d.hadSession = c.hadSession
  seq : c.seq ≤ d.seq
  answered : d.answered = c.answered

/-- Nothing changes. -/
theorem Steady.refl (c : OpClient β) : Steady c c := ⟨rfl, rfl, le_rfl, rfl⟩

/-- An exception changes neither session nor number. -/
theorem Steady.raise (c : OpClient β) : Steady c c.raise := ⟨rfl, rfl, le_rfl, rfl⟩

/-- What is left to do changes neither session nor number. -/
theorem Steady.todo (c : OpClient β) (todo : List (OpInstr β)) : Steady c { c with todo := todo } :=
  ⟨rfl, rfl, le_rfl, rfl⟩

/-- Trimming lets the numbers be. -/
theorem Steady.trim (c : OpClient β) (n : ℕ) : Steady c (c.trim n) := by
  unfold OpClient.trim
  dsimp only
  split <;> exact ⟨rfl, rfl, le_rfl, rfl⟩

/-- Committing a message takes the number up. -/
theorem Steady.commit (c : OpClient β) (b : β) (n : ℕ) (rest : List (OpInstr β)) :
    Steady c { c.commit b n with todo := rest } := by
  unfold OpClient.commit
  dsimp only
  split
  · split <;> exact ⟨rfl, rfl, Nat.le_succ _, rfl⟩
  · exact ⟨rfl, rfl, Nat.le_succ _, rfl⟩

/-- The client's own steps keep to the session. -/
theorem Steady.next {d : OpClient β} (h : c.next w = some d) : Steady c d := by
  unfold OpClient.next at h
  split at h
  · exact Option.some.inj h ▸ Steady.todo c _
  · split at h
    · exact Option.some.inj h ▸ Steady.raise c
    · split at h
      · exact Option.some.inj h ▸ Steady.todo c _
      · exact Option.some.inj h ▸ Steady.commit c _ _ _
  · split at h
    · exact Option.some.inj h ▸ Steady.raise c
    · exact Option.some.inj h ▸ Steady.commit c _ _ _
  · split at h
    · exact Option.some.inj h ▸ Steady.todo c _
    · exact Option.some.inj h ▸ Steady.todo c _
  · split at h
    · exact Option.some.inj h ▸ Steady.todo c _
    · cases h
  · exact Option.some.inj h ▸ Steady.todo c _
  · split at h
    · exact Option.some.inj h ▸ Steady.todo c _
    · cases h
  all_goals cases h

/-- A connection that breaks keeps to the session. -/
theorem Steady.broken (c : OpClient β) : Steady c c.broken := by
  unfold OpClient.broken
  split
  · split <;> exact ⟨rfl, rfl, le_rfl, rfl⟩
  all_goals exact ⟨rfl, rfl, le_rfl, rfl⟩

/-- Sending keeps to the session. -/
theorem Steady.sent (c : OpClient β) : Steady c c.sent := by
  unfold OpClient.sent
  split <;> exact ⟨rfl, rfl, le_rfl, rfl⟩

/-- A request is answered by a reply that is not older. -/
theorem receive_answered (seq : ℕ) (rest : List (OpInstr β)) (r : OpReply ρ) :
    (c.receive w seq rest r).accepted = c.accepted ∧ (c.receive w seq rest r).hadSession = c.hadSession ∧
      (c.receive w seq rest r).seq = c.seq ∧
      ∀ n ∈ (c.receive w seq rest r).answered, n ∈ c.answered ∨ n ≤ r.seq := by
  unfold OpClient.receive
  split
  · exact ⟨rfl, rfl, rfl, fun n hn => Or.inl hn⟩
  · rename_i hnew
    dsimp only
    generalize hd : ({ c with lastAcked := r.seq, answered := c.answered ++ [seq] } : OpClient β) = d
    have hsame : d.accepted = c.accepted ∧ d.hadSession = c.hadSession ∧ d.seq = c.seq ∧
        d.answered = c.answered ++ [seq] := by
      rw [← hd]
      exact ⟨rfl, rfl, rfl, rfl⟩
    have htrim := Steady.trim d r.seq
    have hseq : (d.trim r.seq).seq = c.seq := by rw [seq_trim, hsame.2.2.1]
    have hanswered : ∀ n ∈ (d.trim r.seq).answered, n ∈ c.answered ∨ n ≤ r.seq := by
      intro n hn
      rw [htrim.answered, hsame.2.2.2, List.mem_append, List.mem_singleton] at hn
      refine hn.imp id fun h => ?_
      rw [h]
      exact not_lt.mp hnew
    split
    · exact ⟨htrim.accepted.trans hsame.1, htrim.hadSession.trans hsame.2.1, hseq, hanswered⟩
    · exact ⟨htrim.accepted.trans hsame.1, htrim.hadSession.trans hsame.2.1, hseq, hanswered⟩

/-- A handshake is accepted unless the client had a session and is told it is gone. -/
theorem shaken_accepted (k : OpConnId) (resumed : Bool) (n : ℕ) :
    Steady c (c.shaken k resumed n) ∧ (c.shaken k resumed n).sock = c.sock ∧
        c.hadSession = true ∧ resumed = false ∨
      (c.shaken k resumed n).accepted = some k ∧ (c.shaken k resumed n).hadSession = true ∧
        (c.shaken k resumed n).seq = c.seq ∧ (c.shaken k resumed n).answered = c.answered ∧
        (c.hadSession = true → resumed = true) := by
  unfold OpClient.shaken
  split
  · rename_i h
    exact Or.inl ⟨Steady.raise c, rfl, h.1, h.2⟩
  · rename_i h
    have hresumed : c.hadSession = true → resumed = true := fun hhad =>
      Bool.eq_true_of_not_eq_false fun hfalse => h ⟨hhad, hfalse⟩
    refine Or.inr ?_
    dsimp only
    split
    · unfold OpClient.resume
      split
      · exact ⟨rfl, rfl, rfl, rfl, hresumed⟩
      · have htrim := Steady.trim { c with
          sock := some k, hadSession := true, opening := none, accepted := some k } n
        exact ⟨htrim.accepted, htrim.hadSession, seq_trim _ _, htrim.answered, hresumed⟩
    · exact ⟨rfl, rfl, rfl, rfl, hresumed⟩

/-- What is sent has been numbered. -/
theorem Numbered.outgoing_le (hc : c.Numbered) {m : OpMessage β} (hm : m ∈ c.outgoing.map (·.message)) :
    m.seq ≤ c.seq := by
  have hle : ∀ es : List (OpEntry β), EndsAt c.seq (numbers es) → m ∈ es.map (·.message) → m.seq ≤ c.seq := by
    intro es hes hmem
    have hn : m.seq ∈ numbers es := by
      rw [← map_seq_messages]
      exact List.mem_map_of_mem hmem
    exact hes.le hn
  unfold outgoing at hm
  split at hm
  · exact hle _ hc.pending hm
  · exact hle _ hc.unacked hm
  · cases hm

end OpClient

/-! ## A client that keeps to its session -/

namespace OpSystem

open OpServer

variable {e : Engine σ β ρ} {grace : ℕ} {w : OpConfig β ρ} {own : ℕ → OpSessionId} {s t : OpSystem σ β ρ}
  {held : Prop} {u : ℕ}

/-- The session of the handshake the client accepted last. -/
def ownSession (s : OpSystem σ β ρ) : Option ℕ :=
  s.client.accepted.bind fun k => (s.server.conn k).found.map (·.lease.session)

/-- The condition on a step: where a connection of the client attaches and the client has a session, the
registry has none under its id but that one. -/
def NotRemade (w : OpConfig β ρ) (s : OpSystem σ β ρ) : OpAction β → Prop
  | .server (.attach k) =>
      s.dialed k ≠ none → ∀ u ∈ s.ownSession, ∀ x ∈ s.server.registry.find w.sid, x.session = u
  | _ => True

instance (w : OpConfig β ρ) (s : OpSystem σ β ρ) (a : OpAction β) : Decidable (NotRemade w s a) :=
  match a with
  | .server (.attach k) => inferInstanceAs (Decidable
      (s.dialed k ≠ none → ∀ u ∈ s.ownSession, ∀ x ∈ s.server.registry.find w.sid, x.session = u))
  | .server (.accept _ _ _) | .server (.handshake _ _) | .server (.arrive _ _) | .server (.read _)
  | .server (.apply _) | .server (.reply _ _) | .server (.close _) | .server (.detach _) | .server (.reap _)
  | .server (.tick _) | .post _ | .request _ | .flush | .free _ | .next | .dial _ | .shake | .refuse | .send _ _
  | .receive | .fail | .giveUp | .hello _ | .deliver _ | .restart => .isTrue trivial

/-- The client's messages go to the session it has, and to no other. -/
structure Loyal (s : OpSystem σ β ρ) : Prop where
  had : s.client.accepted = none ↔ s.client.hadSession = false
  accepted : ∀ k, s.client.accepted = some k → s.dialed k ≠ none ∧ ∃ f, (s.server.conn k).found = some f
  sock : ∀ k, s.client.sock = some k → s.client.accepted = some k
  sent : ∀ k, s.sent k ≠ [] → ∃ f, (s.server.conn k).found = some f ∧
    s.ownSession = some f.lease.session
  attaching : ∀ k l n, s.client.opening = some k → (s.server.conn k).pc = .attached l true n →
    ∀ u, s.ownSession = some u → l.session = u
  offered : ∀ k f, s.client.opening = some k → (s.server.conn k).found = some f → f.resumed = true →
    ∀ u, s.ownSession = some u → f.lease.session = u
  behind : ∀ k m, m ∈ s.sent k → m.seq ≤ s.client.seq
  logs : ∀ v, (∀ k f, s.dialed k = none → (s.server.conn k).found = some f → f.lease.session ≠ v) →
    (s.server.session v).lastSeq ≤ s.client.seq ∧
      (s.ownSession ≠ some v → (s.server.session v).applied = [])
  answered : ∀ n ∈ s.client.answered, n ≤ s.client.seq

namespace Loyal

/-- A client that has just begun has no session to keep to. -/
theorem initial : (OpSystem.initial e : OpSystem σ β ρ).Loyal := by
  constructor <;> simp [OpSystem.initial, OpServer.initial, ownSession]

/-- The client has a session from its first handshake on. -/
theorem hadSession (hs : s.Loyal) (hu : s.ownSession = some u) : s.client.hadSession = true := by
  refine Bool.eq_true_of_not_eq_false fun h => ?_
  unfold ownSession at hu
  rw [hs.had.mpr h] at hu
  cases hu

/-- The session a socket is for. -/
theorem own_of_sock (hs : s.Loyal) {k : OpConnId} {f : Snapshot σ ρ} (hsock : s.client.sock = some k)
    (hf : (s.server.conn k).found = some f) : s.ownSession = some f.lease.session := by
  unfold ownSession
  rw [hs.sock k hsock, Option.bind_some, hf]
  rfl

/-- The client goes on, and accepts no handshake. -/
theorem setClient (hs : s.Loyal) {c : OpClient β} (haccepted : c.accepted = s.client.accepted)
    (hhad : c.hadSession = s.client.hadSession) (hseq : s.client.seq ≤ c.seq)
    (hanswered : ∀ n ∈ c.answered, n ∈ s.client.answered ∨ n ≤ c.seq)
    (hsock : ∀ k, c.sock = some k → s.client.sock = some k) (hopening : c.opening = none)
    (taken : OpConnId → ℕ) (flight : OpConnId → List (List (OpMessage β)))
    (sent : OpConnId → List (OpMessage β))
    (hsent : ∀ k m, m ∈ sent k → m ∈ s.sent k ∨ s.client.sock = some k ∧ m.seq ≤ c.seq ∧
      ∃ f, (s.server.conn k).found = some f) :
    Loyal { s with client := c, taken := taken, flight := flight, sent := sent } ∧
      ownSession { s with client := c, taken := taken, flight := flight, sent := sent } = s.ownSession := by
  have hown : ownSession { s with client := c, taken := taken, flight := flight, sent := sent } =
      s.ownSession := by
    unfold ownSession
    rw [haccepted]
  refine ⟨⟨?_, ?_, fun k hk => ?_, fun k hk => ?_, fun k l _ hk => ?_, fun k f hk => ?_, fun k m hm => ?_,
    fun v hv => ?_, fun n hn => ?_⟩, hown⟩
  · simp only [haccepted, hhad]
    exact hs.had
  · simp only [haccepted]
    exact hs.accepted
  · simp only [haccepted]
    exact hs.sock k (hsock k hk)
  · rw [hown]
    obtain ⟨m, hm⟩ := List.exists_mem_of_ne_nil _ hk
    rcases hsent k m hm with h | ⟨hsock, -, f, hf⟩
    · exact hs.sent k (List.ne_nil_of_mem h)
    · exact ⟨f, hf, hs.own_of_sock hsock hf⟩
  · rw [show c.opening = some k from hk] at hopening
    cases hopening
  · rw [show c.opening = some k from hk] at hopening
    cases hopening
  · rcases hsent k m hm with h | ⟨-, hle, -⟩
    · exact (hs.behind k m h).trans hseq
    · exact hle
  · rw [hown]
    obtain ⟨hlast, happlied⟩ := hs.logs v hv
    exact ⟨hlast.trans hseq, happlied⟩
  · rcases hanswered n hn with h | h
    · exact (hs.answered n h).trans hseq
    · exact h

/-- A reply on the socket is to a message of the client. -/
theorem reply_le (hs : s.Loyal) (hg : s.Gapless held w own) {k : OpConnId} {i : ℕ} {r : OpReply ρ}
    (hsock : s.client.sock = some k) (hframe : (s.server.conn k).outbox[i]? = some (.reply r)) :
    r.seq ≤ s.client.seq := by
  obtain ⟨hdialed, f, hf, -⟩ := hg.covered k hsock
  refine (hg.server.replies k f r hf (List.mem_of_getElem? hframe)).trans (hs.logs _ fun k' f' hk' hf' heq => ?_).1
  exact (hg.mine_of_session hf hf' heq).mpr hdialed hk'

/-! ### One step of client or server -/

/-- The client goes on, and sends nothing. -/
theorem steady (hs : s.Loyal) {c : OpClient β} (hc : s.client.Steady c)
    (hsock : ∀ k, c.sock = some k → s.client.sock = some k) (hopening : c.opening = none) :
    Loyal { s with client := c } ∧ ownSession { s with client := c } = s.ownSession :=
  hs.setClient hc.accepted hc.hadSession hc.seq (fun _ hn => Or.inl (hc.answered ▸ hn)) hsock hopening
    s.taken s.flight s.sent fun _ _ => Or.inl

/-- A frame goes out on the socket. -/
theorem send (hs : s.Loyal) (hg : s.Gapless held w own) {k : OpConnId} (hsock : s.client.sock = some k)
    {c : OpClient β} (hc : s.client.Steady c) (hsock' : ∀ k, c.sock = some k → s.client.sock = some k)
    (hopening : c.opening = none) :
    Loyal { s with
      client := c
      flight := Function.update s.flight k (s.flight k ++ [s.client.outgoing.map (·.message)])
      sent := Function.update s.sent k (s.sent k ++ s.client.outgoing.map (·.message)) } ∧
    ownSession { s with
      client := c
      flight := Function.update s.flight k (s.flight k ++ [s.client.outgoing.map (·.message)])
      sent := Function.update s.sent k (s.sent k ++ s.client.outgoing.map (·.message)) } = s.ownSession := by
  refine hs.setClient hc.accepted hc.hadSession hc.seq (fun n hn => Or.inl (hc.answered ▸ hn)) hsock'
    hopening s.taken _ _ fun k' m hm => ?_
  rw [Function.update_apply] at hm
  split at hm
  · rename_i hk
    rw [List.mem_append] at hm
    rw [hk]
    refine hm.imp id fun hm => ⟨hsock, (hg.client.outgoing_le hm).trans hc.seq, ?_⟩
    obtain ⟨-, f, hf, -⟩ := hg.covered k hsock
    exact ⟨f, hf⟩
  · exact Or.inl hm

/-- **A handshake is read**: the session stays what it was. -/
theorem shake (hs : s.Loyal) (hg : s.Gapless held w own) {k : OpConnId} {f : Snapshot σ ρ}
    (hopening : s.client.opening = some k) (hf : (s.server.conn k).found = some f) (taken : OpConnId → ℕ) :
    Loyal { s with client := s.client.shaken k f.resumed f.session.lastSeq, taken := taken } ∧
      ∀ u, s.ownSession = some u →
        ownSession { s with client := s.client.shaken k f.resumed f.session.lastSeq, taken := taken } =
          some u := by
  obtain ⟨-, hnone, hcov⟩ := hg.client.shaken hopening f.resumed f.session.lastSeq
  generalize hc : s.client.shaken k f.resumed f.session.lastSeq = c at hnone hcov ⊢
  have hcases := OpClient.shaken_accepted (c := s.client) k f.resumed f.session.lastSeq
  rw [hc] at hcases
  rcases hcases with ⟨hsteady, hsock, -, -⟩ | ⟨haccepted, hhad, hseq, hanswered, hresumed⟩
  · obtain ⟨hloyal, hown⟩ := hs.setClient hsteady.accepted hsteady.hadSession hsteady.seq
      (fun n hn => Or.inl (hsteady.answered ▸ hn)) (fun k' hk' => hsock ▸ hk') hnone taken s.flight
      s.sent fun _ _ => Or.inl
    exact ⟨hloyal, fun u hu => hown.trans hu⟩
  · have hown' : ownSession { s with client := c, taken := taken } = some f.lease.session := by
      unfold ownSession
      rw [haccepted, Option.bind_some, hf]
      rfl
    -- if there was a session, it is this one
    have hsame : ∀ u, s.ownSession = some u → f.lease.session = u := fun u hu =>
      hs.offered k f hopening hf (hresumed (hs.hadSession hu)) u hu
    refine ⟨⟨?_, fun k' hk' => ?_, fun k' hk' => ?_, fun k' hk' => ?_, fun k' l _ hk' => ?_,
      fun k' f' hk' => ?_, fun k' m hm => ?_, fun v hv => ?_, fun n hn => ?_⟩, fun u hu => ?_⟩
    · simp only [haccepted, hhad]
      exact ⟨(fun h => nomatch h), fun h => nomatch h⟩
    · obtain rfl : k = k' := Option.some.inj (haccepted.symm.trans hk')
      exact ⟨(hg.opening k hopening).1, f, hf⟩
    · rw [(hcov k' hk').1]
      exact haccepted
    · obtain ⟨f', hf', hu⟩ := hs.sent k' hk'
      exact ⟨f', hf', by rw [hown', hsame _ hu]⟩
    · rw [show c.opening = some k' from hk'] at hnone
      cases hnone
    · rw [show c.opening = some k' from hk'] at hnone
      cases hnone
    · exact (hs.behind k' m hm).trans hseq.ge
    · obtain ⟨hlast, happlied⟩ := hs.logs v hv
      refine ⟨hlast.trans hseq.ge, fun hne => happlied fun hu => hne ?_⟩
      rw [hown', hsame v hu]
    · rw [show c.answered = s.client.answered from hanswered] at hn
      exact (hs.answered n hn).trans hseq.ge
    · rw [hown', hsame u hu]

/-- A socket is opened. -/
theorem dial (hs : s.Loyal) (hg : s.Gapless held w own) {k : OpConnId} (hsock : s.client.sock = none)
    (hidle : (s.server.conn k).pc = .idle) (n : ℕ) :
    Loyal { s with
      client := { s.client with opening := some k }, dialed := Function.update s.dialed k (some n) } := by
  have hfound : (s.server.conn k).found = none := hg.server.early k (by rw [hidle]; rfl)
  refine ⟨hs.had, fun k' hk' => ⟨?_, (hs.accepted k' hk').2⟩, fun k' hk' => ?_, hs.sent,
    fun k' l m hk' hpc => ?_, fun k' f hk' hf => ?_, hs.behind,
    fun v hv => hs.logs v fun k' f hk' hf => hv k' f ?_ hf, hs.answered⟩
  · simp only [Function.update_apply]
    split
    · exact Option.some_ne_none n
    · exact (hs.accepted k' hk').1
  · rw [show s.client.sock = some k' from hk'] at hsock
    cases hsock
  · obtain rfl := Option.some.inj hk'
    rw [show (s.server.conn k).pc = _ from hpc] at hidle
    cases hidle
  · obtain rfl := Option.some.inj hk'
    rw [show (s.server.conn k).found = some f from hf] at hfound
    cases hfound
  · have hne : k' ≠ k := by
      rintro rfl
      rw [hfound] at hf
      cases hf
    simp only [Function.update_of_ne hne]
    exact hk'

/-- **The server goes on**: what the client is offered is its session, or a new one that is not said
to be there. -/
theorem setServer (hs : s.Loyal) (hg : s.Gapless held w own) {a : OpServerAction β} {r : OpServer σ β ρ}
    (hstep : s.server.step e grace a = some r)
    (ha : ∀ k, a = .attach k → s.dialed k ≠ none → ∀ u ∈ s.ownSession,
      ∀ x ∈ s.server.registry.find w.sid, x.session = u)
    (flight : OpConnId → List (List (OpMessage β))) :
    Loyal { s with server := r, flight := flight } ∧
      ownSession { s with server := r, flight := flight } = s.ownSession := by
  have hconn := conn_step hg.server hstep
  have hown : ownSession { s with server := r, flight := flight } = s.ownSession := by
    unfold ownSession
    cases haccepted : s.client.accepted with
    | none => rfl
    | some k =>
        obtain ⟨-, f, hf⟩ := hs.accepted k haccepted
        rw [Option.bind_some, Option.bind_some, hf]
        simp only [(hconn k).found f hf]
  refine ⟨⟨hs.had, fun k hk => ?_, hs.sock, fun k hk => ?_, fun k l n hk hpc u hu => ?_,
    fun k f hk hf hresumed u hu => ?_, hs.behind, fun v hv => ?_, hs.answered⟩, hown⟩
  · obtain ⟨hdialed, f, hf⟩ := hs.accepted k hk
    exact ⟨hdialed, f, (hconn k).found f hf⟩
  · obtain ⟨f, hf, hu⟩ := hs.sent k hk
    exact ⟨f, (hconn k).found f hf, hown.trans hu⟩
  · rw [hown] at hu
    rcases attached_step hstep hpc with hold | ⟨rfl, hgreeted, hresumed⟩
    · exact hs.attaching k l n hk hold u hu
    · -- an attach finds the session the client has
      obtain ⟨x, hx, hsession⟩ := hresumed rfl
      have hdialed := (hg.opening k hk).1
      have hnone := hg.server.early k (by rw [hgreeted]; rfl)
      have hsid := (hg.mine k l.sid (by unfold named; rw [hnone, hgreeted])).mp hdialed
      rw [hsid] at hx
      rw [hsession]
      exact ha k rfl hdialed u hu x hx
  · rw [hown] at hu
    rcases found_step hstep hf with hold | ⟨n, hpc⟩
    · exact hs.offered k f hk hold hresumed u hu
    · rw [hresumed] at hpc
      exact hs.attaching k f.lease n hk hpc u hu
  · have hold := hs.logs v fun k f hk hf => hv k f hk ((hconn k).found f hf)
    rw [hown]
    rcases session_step hstep v with ⟨happlied, hlast⟩ | ⟨k, l, m, rest, hpc, hbatch, rfl, -, hlast, -⟩
    · simp only [happlied, hlast]
      exact hold
    -- the session has applied a message of a connection, which is the client's, as it found the session
    · obtain ⟨f, hf, hfl⟩ := hg.server.held k l (by rw [hpc]; rfl)
      have hk : s.dialed k ≠ none := fun hk => hv k f hk ((hconn k).found f hf) (by rw [hfl])
      have hm : m ∈ s.sent k := by
        rw [← hg.flow k (Or.inl hk), traffic, hbatch]
        simp
      refine ⟨?_, fun hne => absurd ?_ hne⟩
      · simp only [hlast]
        exact hs.behind k m hm
      · obtain ⟨f', hf', hu⟩ := hs.sent k (List.ne_nil_of_mem hm)
        rw [hu, ← hfl, Option.some.inj (hf.symm.trans hf')]

/-- The server is started again. -/
theorem restart (hs : s.Loyal) :
    Loyal { s with server := s.server.restart } ∧
      ownSession { s with server := s.server.restart } = s.ownSession := by
  have hfound : ∀ k, (s.server.restart.conn k).found = (s.server.conn k).found := by
    intro k
    simp only [OpServer.restart]
    split <;> rfl
  have hown : ownSession { s with server := s.server.restart } = s.ownSession := by
    unfold ownSession
    simp only [hfound]
  refine ⟨⟨hs.had, fun k hk => ?_, hs.sock, fun k hk => ?_, fun k l n hk hpc => ?_, fun k f hk hf => ?_,
    hs.behind, fun v hv => ?_, hs.answered⟩, hown⟩
  · rw [hfound]
    exact hs.accepted k hk
  · rw [hfound, hown]
    exact hs.sent k hk
  · cases h : (s.server.conn k).pc <;> simp [OpServer.restart, h] at hpc
  · rw [hfound] at hf
    rw [hown]
    exact hs.offered k f hk hf
  · rw [hown]
    exact hs.logs v fun k f hk hf => hv k f hk (by rw [hfound]; exact hf)

end Loyal

/-! ### Every step -/

section Runs

/-- The connection breaks, and the client still has its session. -/
theorem Loyal.breaks (hs : s.Loyal) (hg : s.Gapless held w own) :
    Loyal { s with client := s.client.broken } ∧
      ∀ u, s.ownSession = some u → ownSession { s with client := s.client.broken } = some u := by
  obtain ⟨hloyal, hown⟩ := hs.steady (OpClient.Steady.broken _)
    (fun k hk => (hg.client.broken.2.2 k hk).1) hg.client.broken.2.1
  exact ⟨hloyal, fun u hu => hown.trans hu⟩

variable [DecidableEq β] [DecidableEq ρ]

/-- What is pending goes out, or the connection breaks: it is to the session that the client has. -/
theorem Loyal.step_send (hs : s.Loyal) (hg : s.Gapless held w own) {ok arrives : Bool}
    (hstep : s.step e grace w (.send ok arrives) = some t) :
    t.Loyal ∧ ∀ u, s.ownSession = some u → t.ownSession = some u := by
  unfold OpSystem.step at hstep
  dsimp only at hstep
  split at hstep
  · rename_i k hsock
    split at hstep
    · cases hstep
    · rename_i hout
      obtain rfl := Option.some.inj hstep
      cases ok with
      | true =>
          obtain ⟨-, hopening, hsame, -⟩ :=
            hg.client.sent (by rw [hsock]; exact Option.some_ne_none k) hout
          simp only [true_or, if_true]
          obtain ⟨hloyal, hown⟩ := hs.send hg hsock (OpClient.Steady.sent _) (fun k hk => hsame ▸ hk)
            hopening
          exact ⟨hloyal, fun u hu => hown.trans hu⟩
      | false =>
          cases arrives with
          | true =>
              simp only [or_true, if_true, Bool.false_eq_true, if_false]
              obtain ⟨hloyal, hown⟩ := hs.send hg hsock (OpClient.Steady.broken _)
                (fun k hk => (hg.client.broken.2.2 k hk).1) hg.client.broken.2.1
              exact ⟨hloyal, fun u hu => hown.trans hu⟩
          | false =>
              simp only [Bool.false_eq_true, or_self, if_false]
              exact hs.breaks hg
  · cases hstep

/-- A reply is read: it is of the session that the client has. -/
theorem Loyal.step_receive (hs : s.Loyal) (hg : s.Gapless held w own)
    (hstep : s.step e grace w .receive = some t) :
    t.Loyal ∧ ∀ u, s.ownSession = some u → t.ownSession = some u := by
  unfold OpSystem.step at hstep
  dsimp only at hstep
  split at hstep
  · rename_i seq rest k htodo hsock
    split at hstep
    · rename_i r hframe
      obtain rfl := Option.some.inj hstep
      obtain ⟨-, hopening, hsame, -⟩ := hg.client.receive (w := w) htodo r
      obtain ⟨haccepted, hhad, hseq, hanswered⟩ :=
        OpClient.receive_answered (c := s.client) (w := w) seq rest r
      -- the reply is no further than the session, and that no further than the client
      have hr := hs.reply_le hg hsock hframe
      obtain ⟨hloyal, hown⟩ := hs.setClient haccepted hhad hseq.ge
        (fun n hn => (hanswered n hn).imp id fun h => h.trans (hr.trans hseq.ge))
        (fun k hk => hsame ▸ hk) hopening (Function.update s.taken k (s.taken k + 1)) s.flight s.sent
        fun _ _ => Or.inl
      exact ⟨hloyal, fun u hu => hown.trans hu⟩
    · cases hstep
  · cases hstep

/-- **Each step keeps the client to the session it has.** -/
theorem Loyal.step (hs : s.Loyal) (hg : s.Gapless held w own) {a : OpAction β} (ha : NotRemade w s a)
    (hstep : s.step e grace w a = some t) :
    t.Loyal ∧ ∀ u, s.ownSession = some u → t.ownSession = some u := by
  -- a call starts when none is in progress
  have hcall : ∀ todo : List (OpInstr β), s.client.atDial = false →
      Loyal { s with client := { s.client with todo := todo } } ∧
        ∀ u, s.ownSession = some u → ownSession { s with client := { s.client with todo := todo } } = some u := by
    intro todo hnil
    obtain ⟨hloyal, hown⟩ := hs.steady (OpClient.Steady.todo _ todo) (fun _ => id)
      (hg.client.opening_eq_none hnil)
    exact ⟨hloyal, fun u hu => hown.trans hu⟩
  have hraise : Loyal { s with client := s.client.raise } ∧
      ∀ u, s.ownSession = some u → ownSession { s with client := s.client.raise } = some u := by
    obtain ⟨hloyal, hown⟩ := hs.steady (OpClient.Steady.raise _) (fun _ => id) rfl
    exact ⟨hloyal, fun u hu => hown.trans hu⟩
  cases a with
  | post b =>
      simp only [OpSystem.step, Option.ite_none_right_eq_some, Option.some.injEq] at hstep
      obtain ⟨hnil, rfl⟩ := hstep
      exact hcall _ (by unfold OpClient.atDial; rw [hnil])
  | request b =>
      simp only [OpSystem.step, Option.ite_none_right_eq_some, Option.some.injEq] at hstep
      obtain ⟨hnil, rfl⟩ := hstep
      exact hcall _ (by unfold OpClient.atDial; rw [hnil])
  | flush =>
      simp only [OpSystem.step, Option.ite_none_right_eq_some, Option.some.injEq] at hstep
      obtain ⟨hnil, rfl⟩ := hstep
      exact hcall _ (by unfold OpClient.atDial; rw [hnil])
  | free b =>
      unfold OpSystem.step at hstep
      dsimp only at hstep
      split at hstep
      · rename_i b' rest htodo
        obtain rfl := Option.some.inj hstep
        exact hcall _ (by unfold OpClient.atDial; rw [htodo])
      · cases hstep
  | next =>
      obtain ⟨c, hnext, rfl⟩ := Option.map_eq_some_iff.mp hstep
      obtain ⟨-, hopening, hsock, -⟩ := hg.client.next hnext
      obtain ⟨hloyal, hown⟩ := hs.steady (OpClient.Steady.next hnext) (fun k hk => hsock ▸ hk) hopening
      exact ⟨hloyal, fun u hu => hown.trans hu⟩
  | dial k =>
      simp only [OpSystem.step, Option.ite_none_right_eq_some, Option.some.injEq] at hstep
      obtain ⟨⟨hdials, -, hidle⟩, rfl⟩ := hstep
      exact ⟨hs.dial hg hdials.1 hidle _, fun u hu => hu⟩
  | shake =>
      unfold OpSystem.step at hstep
      dsimp only at hstep
      split at hstep
      · rename_i k hopening
        split at hstep
        · rename_i resumed n hframe
          obtain rfl := Option.some.inj hstep
          rw [(hg.opening k hopening).2.1, ← List.head?_eq_getElem?] at hframe
          obtain ⟨f, hf, hhello⟩ := hg.server.hello k _ hframe
          obtain ⟨rfl, rfl⟩ := OpFrame.hello.inj hhello
          exact hs.shake hg hopening hf _
        · cases hstep
      · cases hstep
  | refuse =>
      simp only [OpSystem.step, Option.ite_none_right_eq_some, Option.some.injEq] at hstep
      obtain ⟨-, rfl⟩ := hstep
      exact hraise
  | send ok arrives => exact hs.step_send hg hstep
  | receive => exact hs.step_receive hg hstep
  | fail =>
      unfold OpSystem.step at hstep
      dsimp only at hstep
      split at hstep
      · obtain rfl := Option.some.inj hstep
        exact hs.breaks hg
      · simp only [Option.ite_none_right_eq_some, Option.some.injEq] at hstep
        obtain ⟨-, rfl⟩ := hstep
        exact hs.breaks hg
  | giveUp =>
      unfold OpSystem.step at hstep
      dsimp only at hstep
      split at hstep
      · obtain rfl := Option.some.inj hstep
        exact hraise
      · cases hstep
  | hello k =>
      unfold OpSystem.step at hstep
      dsimp only at hstep
      split at hstep
      · obtain ⟨r, hr, rfl⟩ := Option.map_eq_some_iff.mp hstep
        obtain ⟨hloyal, hown⟩ := hs.setServer hg hr (by rintro _ ⟨⟩) s.flight
        exact ⟨hloyal, fun u hu => hown.trans hu⟩
      · cases hstep
  | deliver k =>
      unfold OpSystem.step at hstep
      dsimp only at hstep
      split at hstep
      · obtain ⟨r, hr, rfl⟩ := Option.map_eq_some_iff.mp hstep
        obtain ⟨hloyal, hown⟩ := hs.setServer hg hr (by rintro _ ⟨⟩) _
        exact ⟨hloyal, fun u hu => hown.trans hu⟩
      · cases hstep
  | server a =>
      simp only [OpSystem.step, Option.ite_none_right_eq_some] at hstep
      obtain ⟨-, hstep⟩ := hstep
      obtain ⟨r, hr, rfl⟩ := Option.map_eq_some_iff.mp hstep
      obtain ⟨hloyal, hown⟩ := hs.setServer hg hr (fun k hk => by subst hk; exact ha) s.flight
      exact ⟨hloyal, fun u hu => hown.trans hu⟩
  | restart =>
      obtain rfl := Option.some.inj hstep
      exact ⟨hs.restart.1, fun u hu => hs.restart.2.trans hu⟩

end Runs

/-! ## After the session is dropped -/

/-- What has become of the client and of its session `u`, since that was dropped in `s`. -/
structure Gone (s : OpSystem σ β ρ) (u : ℕ) (t : OpSystem σ β ρ) : Prop where
  own : t.ownSession = some u
  dropped : t.server.Dropped u
  applied : (t.server.session u).applied = (s.server.session u).applied
  last : (t.server.session u).lastSeq ≤ s.client.seq
  /-- No handshake of a connection opened since has been for it. -/
  strange : ∀ k f, s.dialed k = none → t.dialed k ≠ none → (t.server.conn k).found = some f →
    f.lease.session ≠ u
  sock : ∀ k, t.client.sock = some k → s.dialed k ≠ none
  answered : ∀ n ∈ t.client.answered, n ≤ s.client.seq

namespace Gone

variable {t' : OpSystem σ β ρ}

/-- The client goes on, and accepts no handshake. -/
theorem setClient (hs : s.Gone u t) (hown : t'.ownSession = some u) (hserver : t'.server = t.server)
    (hdialed : t'.dialed = t.dialed) (hsock : ∀ k, t'.client.sock = some k → t.client.sock = some k)
    (hanswered : ∀ n ∈ t'.client.answered, n ∈ t.client.answered ∨ n ≤ (t.server.session u).lastSeq) :
    s.Gone u t' := by
  refine ⟨hown, hserver ▸ hs.dropped, ?_, ?_, fun k f hk hk' hf => ?_, fun k hk => hs.sock k (hsock k hk),
    fun n hn => ?_⟩
  · rw [hserver, hs.applied]
  · rw [hserver]
    exact hs.last
  · rw [hdialed] at hk'
    rw [hserver] at hf
    exact hs.strange k f hk hk' hf
  · rcases hanswered n hn with h | h
    · exact hs.answered n h
    · exact h.trans hs.last

/-- The server goes on without the session. -/
theorem setServer (hs : s.Gone u t) (hg : t.Gapless held w own) {a : OpServerAction β}
    (hstep : t.server.step e grace a = some t'.server) (hown : t'.ownSession = some u)
    (hclient : t'.client = t.client) (hdialed : t'.dialed = t.dialed) : s.Gone u t' := by
  have hmade : u < t.server.made := by
    have hu := hs.own
    unfold ownSession at hu
    obtain ⟨k, hk, hfound⟩ := Option.bind_eq_some_iff.mp hu
    obtain ⟨f, hf, rfl⟩ := Option.map_eq_some_iff.mp hfound
    exact (hg.server.found k f hf).2
  -- a connection with the session applies nothing
  have hsession : (t'.server.session u).applied = (t.server.session u).applied ∧
      (t'.server.session u).lastSeq = (t.server.session u).lastSeq := by
    rcases session_step hstep u with h | ⟨k, l, m, rest, hpc, -, hlu, -⟩
    · exact h
    · exact absurd hlu (hs.dropped.ne (c := k) (by rw [hpc]; rfl) (by rw [hpc]; exact fun h => nomatch h))
  refine ⟨hown, hs.dropped.step hmade hstep, hsession.1.trans hs.applied, hsession.2.le.trans hs.last,
    fun k f hk hk' hf => ?_, fun k hk => ?_, fun n hn => ?_⟩
  · rw [hdialed] at hk'
    rcases found_step hstep hf with hold | ⟨n, hpc⟩
    · exact hs.strange k f hk hk' hold
    · exact hs.dropped.ne (c := k) (by rw [hpc]; rfl) (by rw [hpc]; exact fun h => nomatch h)
  · rw [hclient] at hk
    exact hs.sock k hk
  · rw [hclient] at hn
    exact hs.answered n hn

end Gone

section Lost

variable [DecidableEq β] [DecidableEq ρ]

/-- A handshake is read, and accepted only on a connection that was there before the loss. -/
theorem Gone.step_shake (hs : s.Gone u t) (hg : t.Gapless held w own) (hl : t.Loyal)
    {t' : OpSystem σ β ρ} (hown : t'.ownSession = some u) (hstep : t.step e grace w .shake = some t') :
    s.Gone u t' := by
  unfold OpSystem.step at hstep
  dsimp only at hstep
  split at hstep
  · rename_i k hopening
    split at hstep
    · rename_i resumed n hframe
      obtain rfl := Option.some.inj hstep
      rw [(hg.opening k hopening).2.1, ← List.head?_eq_getElem?] at hframe
      obtain ⟨f, hf, hhello⟩ := hg.server.hello k _ hframe
      obtain ⟨rfl, rfl⟩ := OpFrame.hello.inj hhello
      rcases OpClient.shaken_accepted (c := t.client) k f.resumed f.session.lastSeq with
        ⟨hsteady, hsock, -⟩ | ⟨-, -, -, hanswered, hresumed⟩
      · exact hs.setClient hown rfl rfl (fun k' hk' => hsock ▸ hk') fun n hn =>
          Or.inl (hsteady.answered ▸ hn)
      · -- it is a handshake for the session, so the connection is an old one
        have hold : s.dialed k ≠ none := fun hk => hs.strange k f hk (hg.opening k hopening).1 hf
          (hl.offered k f hopening hf (hresumed (hl.hadSession hs.own)) u hs.own)
        refine ⟨hown, hs.dropped, hs.applied, hs.last, hs.strange, fun k' hk' => ?_, fun n hn => ?_⟩
        · rw [((hg.client.shaken hopening _ _).2.2 k' hk').1]
          exact hold
        · exact hs.answered n (hanswered ▸ hn)
    · cases hstep
  · cases hstep

/-- What is pending goes out, or the connection breaks: no answer comes of it. -/
theorem Gone.step_send (hs : s.Gone u t) (hg : t.Gapless held w own) {ok arrives : Bool}
    {t' : OpSystem σ β ρ} (hown : t'.ownSession = some u)
    (hstep : t.step e grace w (.send ok arrives) = some t') : s.Gone u t' := by
  unfold OpSystem.step at hstep
  dsimp only at hstep
  split at hstep
  · rename_i k hsock
    split at hstep
    · cases hstep
    · rename_i hout
      obtain rfl := Option.some.inj hstep
      have hsent := (hg.client.sent (by rw [hsock]; exact Option.some_ne_none k) hout).2.2.1
      cases ok with
      | true =>
          exact hs.setClient hown rfl rfl (fun k' hk' => hsent ▸ hk') fun n hn =>
            Or.inl ((OpClient.Steady.sent t.client).answered ▸ hn)
      | false =>
          have hbroken := (hg.client.broken).2.2
          have hanswered := (OpClient.Steady.broken t.client).answered
          cases arrives with
          | true =>
              exact hs.setClient hown rfl rfl (fun k' hk' => (hbroken k' hk').1) fun n hn =>
                Or.inl (hanswered ▸ hn)
          | false =>
              exact hs.setClient hown rfl rfl (fun k' hk' => (hbroken k' hk').1) fun n hn =>
                Or.inl (hanswered ▸ hn)
  · cases hstep

/-- A reply is read: it answers a request that was made before the loss. -/
theorem Gone.step_receive (hs : s.Gone u t) (hg : t.Gapless held w own) (hl : t.Loyal)
    {t' : OpSystem σ β ρ} (hown : t'.ownSession = some u) (hstep : t.step e grace w .receive = some t') :
    s.Gone u t' := by
  unfold OpSystem.step at hstep
  dsimp only at hstep
  split at hstep
  · rename_i seq rest k htodo hsock
    split at hstep
    · rename_i r hframe
      obtain rfl := Option.some.inj hstep
      obtain ⟨-, -, hsame, -⟩ := hg.client.receive (w := w) htodo r
      obtain ⟨-, -, -, hanswered⟩ := OpClient.receive_answered (c := t.client) (w := w) seq rest r
      refine hs.setClient hown rfl rfl (fun k' hk' => hsame ▸ hk') fun n hn =>
        (hanswered n hn).imp id fun h => h.trans ?_
      -- the reply is one of the session
      obtain ⟨-, f, hf, -⟩ := hg.covered k hsock
      have hu : f.lease.session = u := Option.some.inj ((hl.own_of_sock hsock hf).symm.trans hs.own)
      rw [← hu]
      exact hg.server.replies k f r hf (List.mem_of_getElem? hframe)
    · cases hstep
  · cases hstep

/-- **A step after the loss.** -/
theorem Gone.step (hs : s.Gone u t) (hg : t.Gapless held w own) (hl : t.Loyal) {a : OpAction β}
    {t' : OpSystem σ β ρ} (ha : NotRemade w t a) (hstep : t.step e grace w a = some t') : s.Gone u t' := by
  have hown := (hl.step hg ha hstep).2 u hs.own
  cases a with
  | post b =>
      simp only [OpSystem.step, Option.ite_none_right_eq_some, Option.some.injEq] at hstep
      obtain ⟨-, rfl⟩ := hstep
      exact hs.setClient hown rfl rfl (fun _ => id) fun _ => Or.inl
  | request b =>
      simp only [OpSystem.step, Option.ite_none_right_eq_some, Option.some.injEq] at hstep
      obtain ⟨-, rfl⟩ := hstep
      exact hs.setClient hown rfl rfl (fun _ => id) fun _ => Or.inl
  | flush =>
      simp only [OpSystem.step, Option.ite_none_right_eq_some, Option.some.injEq] at hstep
      obtain ⟨-, rfl⟩ := hstep
      exact hs.setClient hown rfl rfl (fun _ => id) fun _ => Or.inl
  | free b =>
      unfold OpSystem.step at hstep
      dsimp only at hstep
      split at hstep
      · obtain rfl := Option.some.inj hstep
        exact hs.setClient hown rfl rfl (fun _ => id) fun _ => Or.inl
      · cases hstep
  | next =>
      obtain ⟨c, hnext, rfl⟩ := Option.map_eq_some_iff.mp hstep
      obtain ⟨-, -, hsock, -⟩ := hg.client.next hnext
      exact hs.setClient hown rfl rfl (fun k hk => hsock ▸ hk) fun n hn =>
        Or.inl ((OpClient.Steady.next hnext).answered ▸ hn)
  | dial k =>
      simp only [OpSystem.step, Option.ite_none_right_eq_some, Option.some.injEq] at hstep
      obtain ⟨⟨-, -, hidle⟩, rfl⟩ := hstep
      refine ⟨hown, hs.dropped, hs.applied, hs.last, fun k' f hk hk' hf => ?_, hs.sock, hs.answered⟩
      by_cases hkk : k' = k
      · rw [hkk, hg.server.early k (by rw [hidle]; rfl)] at hf
        cases hf
      · simp only [Function.update_of_ne hkk] at hk'
        exact hs.strange k' f hk hk' hf
  | shake => exact hs.step_shake hg hl hown hstep
  | refuse =>
      simp only [OpSystem.step, Option.ite_none_right_eq_some, Option.some.injEq] at hstep
      obtain ⟨-, rfl⟩ := hstep
      exact hs.setClient hown rfl rfl (fun _ => id) fun _ => Or.inl
  | send ok arrives => exact hs.step_send hg hown hstep
  | receive => exact hs.step_receive hg hl hown hstep
  | fail =>
      unfold OpSystem.step at hstep
      dsimp only at hstep
      split at hstep
      · obtain rfl := Option.some.inj hstep
        exact hs.setClient hown rfl rfl (fun k hk => (hg.client.broken.2.2 k hk).1) fun n hn =>
          Or.inl ((OpClient.Steady.broken t.client).answered ▸ hn)
      · simp only [Option.ite_none_right_eq_some, Option.some.injEq] at hstep
        obtain ⟨-, rfl⟩ := hstep
        exact hs.setClient hown rfl rfl (fun k hk => (hg.client.broken.2.2 k hk).1) fun n hn =>
          Or.inl ((OpClient.Steady.broken t.client).answered ▸ hn)
  | giveUp =>
      unfold OpSystem.step at hstep
      dsimp only at hstep
      split at hstep
      · obtain rfl := Option.some.inj hstep
        exact hs.setClient hown rfl rfl (fun _ => id) fun _ => Or.inl
      · cases hstep
  | hello k =>
      unfold OpSystem.step at hstep
      dsimp only at hstep
      split at hstep
      · obtain ⟨r, hr, rfl⟩ := Option.map_eq_some_iff.mp hstep
        exact hs.setServer hg hr hown rfl rfl
      · cases hstep
  | deliver k =>
      unfold OpSystem.step at hstep
      dsimp only at hstep
      split at hstep
      · obtain ⟨r, hr, rfl⟩ := Option.map_eq_some_iff.mp hstep
        exact hs.setServer hg hr hown rfl rfl
      · cases hstep
  | server a =>
      simp only [OpSystem.step, Option.ite_none_right_eq_some] at hstep
      obtain ⟨-, hstep⟩ := hstep
      obtain ⟨r, hr, rfl⟩ := Option.map_eq_some_iff.mp hstep
      exact hs.setServer hg hr hown rfl rfl
  | restart =>
      obtain rfl := Option.some.inj hstep
      refine ⟨hown, dropped_restart _ u, hs.applied, hs.last, fun k f hk hk' hf => hs.strange k f hk hk' ?_,
        hs.sock, hs.answered⟩
      simp only [OpServer.restart] at hf
      split at hf <;> exact hf

/-- The invariants of a run in which no session is made for the client again. -/
theorem always_loyal (e : Engine σ β ρ) (grace : ℕ) (w : OpConfig β ρ) :
    Always (OpSystem.step e grace w) (NotRemade w) (OpSystem.initial e)
      fun s => (∃ own, s.Gapless False w own) ∧ s.Loyal :=
  Always.of_step ⟨⟨fun _ => 0, Gapless.initial False w _⟩, Loyal.initial⟩ fun _ _ _ hs ha hstep =>
    hs.1.elim fun _ hg => ⟨hg.step (fun h => h.elim) hstep, (hs.2.step hg ha hstep).1⟩

/-- **A lost session stays lost**, in every run in which a connection of a client that has a session never
finds, when it attaches, another session under its id. When the server has dropped the session of the
client, then from there on nothing is applied in it, nothing has been applied in any other session of the
client, no connection opened later is ever accepted, and no request made later is ever answered. -/
theorem lost_session_stays_lost (e : Engine σ β ρ) (grace : ℕ) (w : OpConfig β ρ)
    (as bs : List (OpAction β)) (s t : OpSystem σ β ρ) (u : ℕ)
    (halong : Along (OpSystem.step e grace w) (NotRemade w) (OpSystem.initial e) (as ++ bs))
    (hrun : run (OpSystem.step e grace w) (OpSystem.initial e) as = some s)
    (hrest : run (OpSystem.step e grace w) s bs = some t)
    (hown : s.ownSession = some u) (hdropped : s.server.Dropped u) :
    (t.server.session u).applied = (s.server.session u).applied ∧
    (∀ k f, t.dialed k ≠ none → (t.server.conn k).found = some f → f.lease.session ≠ u →
      (t.server.session f.lease.session).applied = []) ∧
    (∀ k, t.client.sock = some k → s.dialed k ≠ none) ∧
    ∀ n ∈ t.client.answered, n ≤ s.client.seq := by
  obtain ⟨hbefore, hafter⟩ := along_append hrun halong
  obtain ⟨⟨own, hg⟩, hl⟩ := always_loyal e grace w as s hbefore hrun
  -- the session is the client's, so it is no further than the client
  have hlast : (s.server.session u).lastSeq ≤ s.client.seq := by
    have hown' := hown
    unfold ownSession at hown'
    obtain ⟨k, hk, hfound⟩ := Option.bind_eq_some_iff.mp hown'
    obtain ⟨f, hf, rfl⟩ := Option.map_eq_some_iff.mp hfound
    exact (hl.logs _ fun k' f' hk' hf' heq =>
      (hg.mine_of_session hf hf' heq).mpr (hl.accepted k hk).1 hk').1
  have hgone : s.Gone u s :=
    ⟨hown, hdropped, rfl, hlast, fun k f hk hk' _ => absurd hk hk', fun k hk => (hg.covered k hk).1, hl.answered⟩
  have hall : Always (OpSystem.step e grace w) (NotRemade w) s
      fun t => ((∃ own, t.Gapless False w own) ∧ t.Loyal) ∧ s.Gone u t :=
    Always.of_step ⟨⟨⟨own, hg⟩, hl⟩, hgone⟩ fun _ _ _ hs ha hstep => hs.1.1.elim fun _ hg =>
      ⟨⟨hg.step (fun h => h.elim) hstep, (hs.1.2.step hg ha hstep).1⟩, hs.2.step hg hs.1.2 ha hstep⟩
  obtain ⟨⟨⟨own', hg'⟩, hl'⟩, hgone'⟩ := hall bs t hafter hrest
  refine ⟨hgone'.applied, fun k f hk hf hne => ?_, hgone'.sock, hgone'.answered⟩
  refine (hl'.logs _ fun k' f' hk' hf' heq => ?_).2 fun h => hne ?_
  · exact (hg'.mine_of_session hf hf' heq).mpr hk hk'
  · exact Option.some.inj (h.symm.trans hgone'.own)

end Lost

/-! ## A run in which the session is lost -/

/-- A request is answered. -/
def answeredOnce : List (OpAction Bool) :=
  [.request true, .next, .next, .dial 0, .hello 0, .server (.attach 0), .server (.handshake 0 none), .shake,
    .send true true, .deliver 0, .server (.read 0), .server (.apply 0), .server (.reply 0 true), .next,
    .receive]

/-- A request finds the connection broken, and is told that the session is gone. -/
def toldLost : List (OpAction Bool) :=
  [.request true, .next, .next, .send false false, .dial 1, .hello 1, .server (.attach 1),
    .server (.handshake 1 none), .shake]

/-- The client is told that its session is gone, and one request is all that is ever applied. -/
theorem lost_session_stays_lost_toldLost : ∃ s t,
    run (OpSystem.step counting 120 plain) (OpSystem.initial counting) (answeredOnce ++ [.restart]) = some s ∧
    run (OpSystem.step counting 120 plain) s toldLost = some t ∧ t.client.todo = [] ∧ t.client.seq = 2 ∧
    (t.server.session 0).applied = [1] ∧ ∀ n ∈ t.client.answered, n ≤ 1 := by
  have hsome : (run (OpSystem.step counting 120 plain) (OpSystem.initial counting) answeredOnce).isSome = true := by
    decide
  obtain ⟨r, hr⟩ := Option.isSome_iff_exists.mp hsome
  have hs := run_concat hr (show OpSystem.step counting 120 plain r .restart = some _ from rfl)
  generalize hrestart : ({ r with server := r.server.restart } : OpSystem ℕ Bool ℕ) = s at hs
  have hall : (run (OpSystem.step counting 120 plain) (OpSystem.initial counting)
      ((answeredOnce ++ [.restart]) ++ toldLost)).map (fun t => (t.client.todo, t.client.seq)) =
      some ([], 2) := by decide
  have hstate : (run (OpSystem.step counting 120 plain) (OpSystem.initial counting)
      (answeredOnce ++ [.restart])).map (fun s => (s.ownSession, (s.server.session 0).applied, s.client.seq)) =
      some (some 0, [1], 1) := by decide
  rw [run_append, hs, Option.bind_some] at hall
  obtain ⟨t, ht, htodo⟩ := Option.map_eq_some_iff.mp hall
  simp only [hs, Option.map_some, Option.some.injEq, Prod.mk.injEq] at hstate htodo
  obtain ⟨hown, happlied, hseq⟩ := hstate
  have hdropped : s.server.Dropped 0 := by
    rw [← hrestart]
    exact dropped_restart r.server 0
  obtain ⟨hkept, -, -, hanswered⟩ := lost_session_stays_lost counting 120 plain _ toldLost s t 0 (by decide) hs
    ht hown hdropped
  rw [happlied] at hkept
  rw [hseq] at hanswered
  exact ⟨s, t, hs, ht, htodo.1, htodo.2, hkept, hanswered⟩

/-- A post returns after the server was started again, before anything is sent; the next request is told
that the session is gone, and the one after it is accepted by the session which that handshake made, in
which the post is then applied. -/
theorem resumed_in_new_session : ∃ s t r,
    run (OpSystem.step counting 120 plain) (OpSystem.initial counting) (answeredOnce ++ [.restart]) = some s ∧
    s.ownSession = some 0 ∧ s.server.Dropped 0 ∧
    run (OpSystem.step counting 120 plain) s [.post false, .next, .next, .next] = some t ∧
    t.client.todo = [] ∧ t.client.seq = 2 ∧
    run (OpSystem.step counting 120 plain) t (toldLost ++
      [.request true, .next, .next, .dial 2, .hello 2, .server (.attach 2), .server (.handshake 2 none),
        .shake, .send true true, .deliver 2, .server (.read 2), .server (.apply 2)]) = some r ∧
    r.ownSession = some 1 ∧ (r.server.session 1).applied = [2] := by
  have hsome : (run (OpSystem.step counting 120 plain) (OpSystem.initial counting) answeredOnce).isSome = true := by
    decide
  obtain ⟨r, hr⟩ := Option.isSome_iff_exists.mp hsome
  have hs := run_concat hr (show OpSystem.step counting 120 plain r .restart = some _ from rfl)
  generalize hrestart : ({ r with server := r.server.restart } : OpSystem ℕ Bool ℕ) = s at hs
  have hown : (run (OpSystem.step counting 120 plain) (OpSystem.initial counting)
      (answeredOnce ++ [.restart])).map (·.ownSession) = some (some 0) := by decide
  have hposted : (run (OpSystem.step counting 120 plain) (OpSystem.initial counting)
      ((answeredOnce ++ [.restart]) ++ [.post false, .next, .next, .next])).map
        (fun t => (t.client.todo, t.client.seq)) = some ([], 2) := by decide
  have hall : (run (OpSystem.step counting 120 plain) (OpSystem.initial counting)
      (((answeredOnce ++ [.restart]) ++ [.post false, .next, .next, .next]) ++ (toldLost ++
        [.request true, .next, .next, .dial 2, .hello 2, .server (.attach 2), .server (.handshake 2 none),
          .shake, .send true true, .deliver 2, .server (.read 2), .server (.apply 2)]))).map
        (fun r => (r.ownSession, (r.server.session 1).applied)) = some (some 1, [2]) := by decide
  rw [run_append, hs, Option.bind_some] at hposted
  obtain ⟨t, ht, hreturned⟩ := Option.map_eq_some_iff.mp hposted
  rw [run_append, run_append, hs, Option.bind_some, ht, Option.bind_some] at hall
  obtain ⟨r', hr', hresumed⟩ := Option.map_eq_some_iff.mp hall
  simp only [hs, Option.map_some, Option.some.injEq, Prod.mk.injEq] at hown hreturned hresumed
  refine ⟨s, t, r', hs, hown, ?_, ht, hreturned.1, hreturned.2, hr', hresumed.1, hresumed.2⟩
  rw [← hrestart]
  exact dropped_restart r.server 0

end OpSystem

end Rgpu
