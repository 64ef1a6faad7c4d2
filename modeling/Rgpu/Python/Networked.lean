import Rgpu.Python.Delivery
import Rgpu.Python.Lifetimes

/-! # Streamed ops over a network

The queue of `Dispatcher` is executed in order by a session that is always there. Below it is the connection of
`session.py`, which breaks and is taken up again, and a server that serves many.

* **`TorchSession.engine`** — a session, as what a server serves. With a message come what becomes of its op and the
  state in which it finds the generator of random numbers, which is the process's and not the session's.
* **`Dispatcher.executed`** — what the session of the dispatcher has executed in a run.
* **`Dispatcher.names_arrive`** — where the client of the network queues the same, its session goes through the
  states of the dispatcher's, whose messages name what is there. -/

namespace Rgpu

open Foundations

variable {ω γ κ η ρ : Type}

/-- A message, with what becomes of its op and what the generator of the process is when it is executed. -/
abbrev Sent (ω γ κ η ρ : Type) := OpBody ω γ η × Fate κ × ρ

namespace TorchSession

/-- The session beside a generator that others have used since. -/
def found (x : TorchSession γ κ η ρ) (rng : ρ) : TorchSession γ κ η ρ :=
    { x with state := { x.state with rng := rng } }

/-- A generator that nobody has used since. -/
theorem found_self (x : TorchSession γ κ η ρ) : x.found x.state.rng = x := rfl

/-- How `execute` ends: with the reply, or with none; where one is waited for, that is an exception. -/
def outcome (b : OpBody ω γ η) : Option (Poison ⊕ OpAnswer η) → OpOutcome (Poison ⊕ OpAnswer η)
  | some r => .answer r
  | none => if b.waits then .raises else .quiet

/-- `Session`. Messages are numbered on from the last. One server process has one generator, which all of its
sessions seed and draw from: each message brings along the state in which it finds it. -/
def engine (t : Torch ω γ κ η ρ) (heap : Cell → κ) (rng : ρ) :
    Engine (TorchSession γ κ η ρ) (Sent ω γ κ η ρ) (Poison ⊕ OpAnswer η) where
  fresh := { state := ⟨fun _ => none, heap, rng⟩ }
  run := fun x m =>
    (((x.found m.2.2).execute t (x.lastSeq + 1) m.1 m.2.1).1,
      outcome m.1 ((x.found m.2.2).execute t (x.lastSeq + 1) m.1 m.2.1).2)

end TorchSession

namespace Dispatcher

variable {p : Torch ω γ κ η ρ} {s t : Dispatcher ω γ κ η ρ}

/-- What a step has the session execute, and with what generator. -/
def executes (s : Dispatcher ω γ κ η ρ) : DispatchAction ω γ κ η → List (Sent ω γ κ η ρ)
  | .execute fate => (s.queue.take 1).map fun e => (e.2, fate, s.server.state.rng)
  | _ => []

/-- A step of the dispatcher executes one message at most. -/
theorem length_executes_le (s : Dispatcher ω γ κ η ρ) (a : DispatchAction ω γ κ η) : (s.executes a).length ≤ 1 := by
  cases a with
  | execute fate =>
      rw [executes, List.length_map, List.length_take]
      exact Nat.min_le_left ..
  | start | abandon | send | answer | assign | forget | collect => exact Nat.zero_le _

/-- The messages that are queued are numbered on from the last one that was executed. -/
structure Counted (s : Dispatcher ω γ κ η ρ) : Prop where
  queue : s.queue.map Prod.fst = List.range' (s.server.lastSeq + 1) s.queue.length
  seq : s.seq = s.server.lastSeq + s.queue.length

/-- The next message has the next number. -/
theorem Counted.push (hs : s.Counted) (b : OpBody ω γ η) : (s.push b).Counted := by
  have hlength : (s.push b).queue.length = s.queue.length + 1 := by rw [Dispatcher.push, List.length_append]; rfl
  refine ⟨?_, ?_⟩
  · rw [hlength, List.range'_concat, Nat.one_mul]
    change (s.queue ++ [(s.seq + 1, b)]).map Prod.fst = List.range' (s.server.lastSeq + 1) _ ++ _
    rw [List.map_append, hs.queue, hs.seq, Nat.add_right_comm]
    rfl
  · rw [hlength]
    change s.seq + 1 = s.server.lastSeq + _
    rw [hs.seq, Nat.add_assoc]

/-- The frees have the next number. -/
theorem Counted.queueFrees (hs : s.Counted) : s.queueFrees.Counted := by
  unfold Dispatcher.queueFrees
  split
  · exact hs
  · exact ⟨(hs.push _).queue, (hs.push _).seq⟩

/-- Queueing is no step of the session. -/
theorem server_queueFrees (s : Dispatcher ω γ κ η ρ) : s.queueFrees.server = s.server := by
  unfold Dispatcher.queueFrees
  split <;> rfl

/-- The next message is executed. -/
theorem Counted.execute (hs : s.Counted) {n : ℕ} {b : OpBody ω γ η} {rest : List (ℕ × OpBody ω γ η)}
    (hq : s.queue = (n, b) :: rest) (fate : Fate κ) (r : Option (Poison ⊕ OpAnswer η)) : n = s.server.lastSeq + 1 ∧
      Counted { s with server := (s.server.execute p n b fate).1, queue := rest, reply := r } := by
  have hqueue := hs.queue
  have hseq := hs.seq
  rw [hq] at hqueue hseq
  rw [List.length_cons, List.map_cons, List.range'_succ] at hqueue
  obtain ⟨rfl, hrest⟩ := List.cons.inj hqueue
  have hlast : (s.server.execute p (s.server.lastSeq + 1) b fate).1.lastSeq = s.server.lastSeq + 1 :=
    TorchSession.execute_lastSeq (Nat.lt_succ_self _)
  refine ⟨rfl, ?_, ?_⟩
  · rw [hlast]
    exact hrest
  · rw [hlast, hseq, List.length_cons]
    exact (Nat.succ_add_eq_add_succ ..).symm

/-- Nothing is queued, and nothing is executed. -/
structure Unsent (s t : Dispatcher ω γ κ η ρ) : Prop where
  queue : t.queue = s.queue
  seq : t.seq = s.seq
  server : t.server = s.server

/-- Nothing is sent. -/
theorem Unsent.refl (s : Dispatcher ω γ κ η ρ) : s.Unsent s := ⟨rfl, rfl, rfl⟩

/-- Registering a tensor sends nothing. -/
theorem Unsent.register (h : s.Unsent t) (id : TensorId) : s.Unsent (t.register id) := ⟨h.queue, h.seq, h.server⟩

/-- Where nothing is sent the numbers stay. -/
theorem Counted.of_unsent (hs : s.Counted) (h : s.Unsent t) : t.Counted := by
  refine ⟨?_, ?_⟩
  · rw [h.queue, h.server]
    exact hs.queue
  · rw [h.seq, h.queue, h.server]
    exact hs.seq

/-- Wrapping results sends nothing. -/
theorem unsent_wrapOutputs (args : List MetaId) (leaves : List (Leaf η)) (h : s.Unsent t) :
    s.Unsent (wrapOutputs args t leaves).1 := by
  induction leaves generalizing t with
  | nil => exact h
  | cons leaf leaves ih =>
      cases leaf with
      | new => exact ih (t := t.registerNext) ⟨h.queue, h.seq, h.server⟩
      | input i | plain x | none => exact ih h

/-- Building tensors from descriptions sends nothing. -/
theorem unsent_rebuild (ds : List (Description η)) (h : s.Unsent t) : s.Unsent (rebuild t ds).1 := by
  induction ds generalizing t with
  | nil => exact h
  | cons d ds ih =>
      cases d with
      | tensor id layout => exact ih (h.register id)
      | plain x | none => exact ih h

/-- Preparing a call sends nothing. -/
theorem unsent_prepare {job : Job ω γ η} {ms : List MetaId} {leaves : List (Leaf η)} {b : OpBody ω γ η}
    {xs : List (Option (Val η))} (h : s.prepare job ms leaves = some (t, b, xs)) : s.Unsent t := by
  unfold prepare at h
  split at h
  · cases h
    exact unsent_wrapOutputs _ _ (.refl s)
  · split at h <;> cases h
    exact unsent_wrapOutputs _ _ (.refl s)
  · obtain ⟨id, -, heq⟩ := Option.map_eq_some_iff.mp h
    cases heq
    exact .refl s
  · cases h
    exact .refl s
  · cases h
    exact ⟨rfl, rfl, rfl⟩
  · cases h
    exact .refl s
  · obtain ⟨id, -, heq⟩ := Option.map_eq_some_iff.mp h
    cases heq
    exact .refl s
  · cases h
    exact .refl s
  · cases h

/-- Taking a reply sends nothing. -/
theorem unsent_received (r : Poison ⊕ OpAnswer η) : s.Unsent (s.received r).1 := by
  unfold received
  split
  · exact unsent_rebuild _ (.refl s)
  · exact .refl s

variable [DecidableEq η]

/-- A step that is none of the session leaves it alone, and numbers what it queues. -/
theorem Counted.step (hs : s.Counted) {a : DispatchAction ω γ κ η} (hstep : s.step p a = some t) :
    t.Counted ∧ ((t.server = s.server ∧ s.executes a = []) ∨
      ∃ n b rest fate, a = .execute fate ∧ s.queue = (n, b) :: rest ∧ n = s.server.lastSeq + 1 ∧
        t.server = (s.server.execute p n b fate).1) := by
  have hquiet : s.executes a = [] → s.Unsent t → t.Counted ∧ ((t.server = s.server ∧ s.executes a = []) ∨
      ∃ n b rest fate, a = .execute fate ∧ s.queue = (n, b) :: rest ∧ n = s.server.lastSeq + 1 ∧
        t.server = (s.server.execute p n b fate).1) := fun ha h => ⟨hs.of_unsent h, .inl ⟨h.server, ha⟩⟩
  cases a <;> simp only [Dispatcher.step] at hstep
  case start th job args leaves targets =>
    refine hquiet rfl ?_
    split at hstep
    · split at hstep <;> cases hstep
      rename_i hprepare
      have h := unsent_prepare hprepare
      exact ⟨h.queue, h.seq, h.server⟩
    · cases hstep
  case abandon th freed =>
    split at hstep
    · split at hstep
      · obtain rfl := Option.some.inj hstep
        cases freed with
        | true => exact ⟨⟨hs.queueFrees.queue, hs.queueFrees.seq⟩, .inl ⟨server_queueFrees s, rfl⟩⟩
        | false => exact hquiet rfl ⟨rfl, rfl, rfl⟩
      · split at hstep <;> cases hstep
        exact hquiet rfl ⟨rfl, rfl, rfl⟩
    · cases hstep
  case send th =>
    split at hstep
    · rename_i f hf hwaiting
      have h := hs.queueFrees.push f.body
      split at hstep <;> cases hstep
      all_goals exact ⟨⟨h.queue, h.seq⟩, .inl ⟨server_queueFrees s, rfl⟩⟩
    · cases hstep
  case execute fate =>
    split at hstep
    · cases hstep
    · rename_i n b rest hq
      obtain ⟨hn, h⟩ := hs.execute (p := p) hq fate (s.reply.or (s.server.execute p n b fate).2)
      cases hstep
      exact ⟨h, .inr ⟨n, b, rest, fate, rfl, hq, hn, rfl⟩⟩
  case answer =>
    refine hquiet rfl ?_
    split at hstep
    · split at hstep <;> cases hstep
      rename_i r _ _ _ _ _
      have h := unsent_received (s := s) r
      exact ⟨h.queue, h.seq, h.server⟩
    · cases hstep
  case assign v w =>
    split at hstep <;> cases hstep
    exact hquiet rfl ⟨rfl, rfl, rfl⟩
  case forget v =>
    cases hstep
    exact hquiet rfl ⟨rfl, rfl, rfl⟩
  case collect m =>
    split at hstep
    · split at hstep <;> cases hstep
      exact hquiet rfl ⟨rfl, rfl, rfl⟩
    · cases hstep

/-- What the session has executed in a run. -/
def executed (p : Torch ω γ κ η ρ) (s : Dispatcher ω γ κ η ρ) (as : List (DispatchAction ω γ κ η)) :
    List (Sent ω γ κ η ρ) := follows (step p) executes s as

/-- The session of the dispatcher is where what it executed leads. -/
theorem simulates_executed (p : Torch ω γ κ η ρ) (heap : Cell → κ) (rng : ρ) :
    Simulates (step p) OpSystem.enqueue (fun _ _ => True) executes fun s (log : List (Sent ω γ κ η ρ)) =>
      s.Counted ∧ s.server = (TorchSession.engine p heap rng).after log := by
  rintro s log a t ⟨hs, hserver⟩ - hstep
  obtain ⟨ht, h⟩ := hs.step hstep
  refine ⟨_, OpSystem.run_enqueue .., ht, ?_⟩
  rcases h with ⟨hsame, hnone⟩ | ⟨n, b, rest, fate, rfl, hq, rfl, hexecute⟩
  · rw [hnone, List.append_nil, hsame, hserver]
  · rw [executes, hq]
    change _ = (TorchSession.engine p heap rng).after (log ++ [(b, fate, s.server.state.rng)])
    rw [Engine.after_concat, ← hserver]
    change t.server = ((s.server.found s.server.state.rng).execute p _ b fate).1
    rw [TorchSession.found_self]
    exact hexecute

/-- The session is what the messages that were executed have made of it. -/
theorem server_of_run {heap : Cell → κ} {rng : ρ} {as : List (DispatchAction ω γ κ η)}
    (hrun : run (step p) (begin heap rng) as = some s) :
    s.server = (TorchSession.engine p heap rng).after (executed p (begin heap rng) as) := by
  obtain ⟨log, hlog, -, hserver⟩ := (simulates_executed p heap rng).run (t := []) ⟨⟨rfl, rfl⟩, rfl⟩
    (along_true _ _ _) hrun
  rw [OpSystem.run_enqueue, List.nil_append] at hlog
  obtain rfl := Option.some.inj hlog
  exact hserver

/-- The first messages that were executed were executed in the first part of the run. -/
theorem exists_run_of_prefix {heap : Cell → κ} {rng : ρ} {as : List (DispatchAction ω γ κ η)}
    (hrun : run (step p) (begin heap rng) as = some s) {done : List (Sent ω γ κ η ρ)}
    (hdone : done <+: executed p (begin heap rng) as) :
    ∃ as' t, as' <+: as ∧ run (step p) (begin heap rng) as' = some t ∧
      t.server = (TorchSession.engine p heap rng).after done := by
  obtain ⟨rest, hrest⟩ := hdone
  cases rest with
  | nil =>
      rw [List.append_nil] at hrest
      exact ⟨as, s, List.prefix_rfl, hrun, by rw [hrest, server_of_run hrun]⟩
  | cons b rest =>
      have hnext : done ++ [b] <+: executed p (begin heap rng) as := ⟨rest, (List.append_assoc ..).trans hrest⟩
      obtain ⟨as', a, cs, t, rfl, hrun', hdone', -⟩ := exists_of_prefix_follows length_executes_le hnext
      exact ⟨as', t, List.prefix_append .., hrun', by rw [← hdone', server_of_run hrun', executed]⟩

/-- The message that was executed after the first ones named what there was after these. -/
theorem names_of_prefix {heap : Cell → κ} {rng : ρ} {as : List (DispatchAction ω γ κ η)}
    (hplain : Along (step p) (Plain p) (begin heap rng) as) {done : List (Sent ω γ κ η ρ)} {m : Sent ω γ κ η ρ}
    (hdone : done ++ [m] <+: executed p (begin heap rng) as) :
    ∀ id ∈ m.1.names, ((TorchSession.engine p heap rng).after done).state.Has id := by
  obtain ⟨as', a, cs, t, rfl, hrun, rfl, hexecutes⟩ := exists_of_prefix_follows length_executes_le hdone
  have hsound := always_sound p heap rng as' t (along_append hrun hplain).1 hrun
  have hserver := server_of_run hrun
  rw [executed] at hserver
  rw [← hserver]
  -- the action executes the message, which is the first of the queue
  cases a with
  | execute fate =>
      rw [executes] at hexecutes
      cases hq : t.queue with
      | nil =>
          rw [hq] at hexecutes
          cases hexecutes
      | cons e rest =>
          rw [hq] at hexecutes
          cases hexecutes
          exact hsound.ready [] e rest hq
  | start | abandon | send | answer | assign | forget | collect => cases hexecutes

/-- **Names arrive.** An application runs over the network, where connections break and are taken up again (in a run
along `StillPending`), and other clients are served by the same server. Its client queues messages as the dispatcher
does, none of its own `ACK`s among them; the same ops fail, and each message finds the generator of the process as in
the run of the dispatcher. Then the session of the client only ever is in states that the session of the dispatcher
goes through, and the next message that it applies names only ids that it has. -/
theorem names_arrive [DecidableEq ω] [DecidableEq γ] [DecidableEq κ] [DecidableEq ρ] (p : Torch ω γ κ η ρ)
    (heap : Cell → κ) (rng : ρ) (ds : List (DispatchAction ω γ κ η)) (d : Dispatcher ω γ κ η ρ)
    (hplain : Along (step p) (Plain p) (begin heap rng) ds) (hd : run (step p) (begin heap rng) ds = some d)
    (grace : ℕ) (w : OpConfig (Sent ω γ κ η ρ) (Poison ⊕ OpAnswer η)) (as : List (OpAction (Sent ω γ κ η ρ)))
    (s : OpSystem (TorchSession γ κ η ρ) (Sent ω γ κ η ρ) (Poison ⊕ OpAnswer η))
    (halong : Along (OpSystem.step (TorchSession.engine p heap rng) grace w) OpSystem.StillPending
      (.initial (TorchSession.engine p heap rng)) as)
    (hrun : run (OpSystem.step (TorchSession.engine p heap rng) grace w)
      (.initial (TorchSession.engine p heap rng)) as = some s)
    (hsame : OpSystem.journal (TorchSession.engine p heap rng) grace w as <+: executed p (begin heap rng) ds) :
    ∀ k f, s.dialed k ≠ none → (s.server.conn k).found = some f →
      (∃ ds' d', ds' <+: ds ∧ run (step p) (begin heap rng) ds' = some d' ∧
        (s.server.session f.lease.session).state = d'.server) ∧
      ∀ m rest, (s.server.conn k).pc = .serving f.lease → (s.server.conn k).batch = m :: rest →
        (s.server.session f.lease.session).lastSeq < m.seq →
          ∀ id ∈ m.body.1.names, (s.server.session f.lease.session).state.state.Has id := by
  intro k f hk hf
  obtain ⟨⟨own, hg⟩, hs⟩ := OpSystem.recorded _ grace w as s halong hrun
  obtain ⟨⟨done, hdone, hlength, hstate⟩, -⟩ := hs.server.sessions f.lease.session fun k' f' hk' hf' heq =>
    hk' ((hg.mine_of_session hf hf' heq).mpr hk)
  rw [hstate]
  refine ⟨?_, fun m rest hpc hbatch hnew => ?_⟩
  · obtain ⟨ds', d', hds, hd', hserver⟩ := exists_run_of_prefix hd (hdone.trans hsame)
    exact ⟨ds', d', hds, hd', hserver.symm⟩
  · obtain ⟨⟨before, hbefore, hseq⟩, hle⟩ := hg.next hs.sent hk hpc hbatch
    obtain rfl : before = done := by
      have hshort := (List.prefix_append before [m.body]).trans hbefore
      have hsize : before.length = done.length := by omega
      exact (List.prefix_of_prefix_length_le hshort hdone hsize.le).eq_of_length hsize
    exact names_of_prefix hplain (hbefore.trans hsame)

instance decidableEqNumberOp : DecidableEq PoisonedRun.NumberOp
  | .empty, .empty | .neg, .neg | .addOne, .addOne => .isTrue rfl
  | .empty, .neg | .empty, .addOne | .neg, .empty | .neg, .addOne | .addOne, .empty | .addOne, .neg =>
      .isFalse (by rintro ⟨⟩)

/-- A tensor is made and negated. -/
def negated : List (DispatchAction PoisonedRun.NumberOp Unit ℕ ℕ) :=
  [.start 0 (.run .empty) [] [.new] [0], .send 0, .execute .fine, .start 0 (.run .neg) [0] [.new] [1], .send 0,
    .execute .fine]

/-- A client for which every message takes ten bytes, and that sends each at once. -/
def prompt : OpConfig (Sent PoisonedRun.NumberOp Unit ℕ ℕ ℕ) (Poison ⊕ OpAnswer ℕ) :=
  ⟨7, (.ack, .fine, 0), fun m => decide (m.1 = .ack), fun _ _ => some 10, Sum.isLeft, 1, 1000⟩

/-- Sessions whose tensors are numbers. -/
abbrev numberEngine : Engine (TorchSession Unit ℕ ℕ ℕ) (Sent PoisonedRun.NumberOp Unit ℕ ℕ ℕ) (Poison ⊕ OpAnswer ℕ) :=
  TorchSession.engine PoisonedRun.numbers (fun _ => 0) 0

/-- The first message is executed; the second is lost with the connection, and replayed on another. -/
def rejoined : List (OpAction (Sent PoisonedRun.NumberOp Unit ℕ ℕ ℕ)) :=
  [.post (.run .empty [] [some 1], .fine, 0), .next, .next, .next, .dial 0, .hello 0, .server (.attach 0),
    .server (.handshake 0 none), .shake, .send true true, .deliver 0, .server (.read 0), .server (.apply 0),
    .post (.run .neg [1] [some 2], .fine, 0), .next, .next, .next, .send false false, .dial 1, .hello 1,
    .server (.attach 1), .server (.handshake 1 none), .shake, .send true true, .deliver 1, .server (.read 1)]

/-- The run above is along `Plain`. -/
theorem plain_negated : Along (step PoisonedRun.numbers) (Plain PoisonedRun.numbers)
    (begin (fun _ => 0) 0) negated := by
  refine ⟨show 1 + 1 ≤ serverIdBase by decide, trivial, fun n b rest hq => ?_, show 2 + 1 ≤ serverIdBase by decide,
    trivial, fun n b rest hq => ?_, trivial⟩
  · cases hq
    intro as has q hq hsome
    cases has
    obtain rfl := List.mem_singleton.mp hq
    exact Option.some_ne_none _
  · cases hq
    intro as has q hq hsome
    cases has
    obtain rfl := List.mem_singleton.mp hq
    exact Option.some_ne_none _

/-- The tensor to negate is there, although the connection it was sent on is not. -/
theorem names_arrive_rejoined : ∃ s,
    run (OpSystem.step numberEngine 120 prompt) (.initial numberEngine) rejoined =
      some s ∧ (s.server.session 0).state.state.Has 1 := by
  have hsome : (run (OpSystem.step numberEngine 120 prompt) (.initial numberEngine)
      rejoined).isSome = true := by decide
  obtain ⟨s, hs⟩ := Option.isSome_iff_exists.mp hsome
  have hstate : (run (OpSystem.step numberEngine 120 prompt) (.initial numberEngine) rejoined).map (fun s =>
      ((s.server.conn 1).found.map (·.lease), (s.server.conn 1).pc, (s.dialed 1).isSome,
        (s.server.session 0).lastSeq)) = some (some ⟨7, 0, 1⟩, .serving ⟨7, 0, 1⟩, true, 1) := by decide
  have hwork : (run (OpSystem.step numberEngine 120 prompt) (.initial numberEngine) rejoined).map
      (fun s => (s.server.conn 1).batch) = some [⟨2, (.run .neg [1] [some 2], .fine, 0)⟩] := by decide
  simp only [hs, Option.map_some, Option.some.injEq, Prod.mk.injEq] at hstate hwork
  obtain ⟨hfound, hpc, hdialed, hlast⟩ := hstate
  obtain ⟨f, hf, hlease⟩ := Option.map_eq_some_iff.mp hfound
  have hjournal : OpSystem.journal numberEngine 120 prompt rejoined =
      executed PoisonedRun.numbers (begin (fun _ => 0) 0) negated := by decide
  have hnames := (names_arrive PoisonedRun.numbers (fun _ => 0) 0 negated _ plain_negated rfl 120 prompt rejoined s
    (by decide) hs (hjournal ▸ List.prefix_rfl) 1 f (Option.isSome_iff_ne_none.mp hdialed) hf).2 _ []
    (hlease ▸ hpc) hwork
  rw [hlease] at hnames
  exact ⟨s, hs, hnames (by rw [hlast]; exact Nat.one_lt_two) 1 List.mem_cons_self⟩

end Dispatcher

end Rgpu
