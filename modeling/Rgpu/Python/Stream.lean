import Rgpu.Foundations.Numbering
import Rgpu.Python.Logs

/-! # The client's message stream

A connection is opened by `_reconnect`, which replays what the server has not applied, or by `_flush`,
which only sends what is pending. Whether the stream has a gap depends on what `_flush` finds.

* **`OpClient.Numbered`** — the queues of the client hold its last messages, without a gap.
* **`OpClient.Covers`** — what was sent on a connection and what is still to go out carry on from what
  its handshake reported.
* **`OpSystem.Gapless`** — the invariant of the whole, in which a session's log is `1, 2, …`.
* **`OpSystem.stream_has_no_gap`** — for every run in which `_flush` opens no connection too late.
* **`OpSystem.recovery_leaves_gap`** — a run in which it does. -/

namespace Rgpu

open Foundations

variable {σ β ρ : Type}

/-! ## The numbers of a list of messages -/

/-- No messages, no numbers. -/
@[simp] theorem numbers_nil : numbers ([] : List (OpEntry β)) = [] := rfl

/-- Every message has one. -/
@[simp] theorem length_numbers (es : List (OpEntry β)) : (numbers es).length = es.length :=
  List.length_map _

/-- The numbers of two lists. -/
theorem numbers_append (es es' : List (OpEntry β)) : numbers (es ++ es') = numbers es ++ numbers es' :=
  List.map_append

/-- Dropping messages drops their numbers. -/
theorem numbers_dropWhile (es : List (OpEntry β)) (n : ℕ) :
    numbers (es.dropWhile fun e => e.message.seq ≤ n) = (numbers es).dropWhile fun k => k ≤ n := by
  rw [numbers, numbers, List.dropWhile_map]
  rfl

/-- The numbers are those of the messages themselves. -/
theorem map_seq_messages (es : List (OpEntry β)) : (es.map (·.message)).map (·.seq) = numbers es :=
  List.map_map

/-! ## The client: its messages are numbered without a gap -/

namespace OpClient

variable {c : OpClient β} {w : OpConfig β ρ}

/-- The call in progress is about to send what is unacknowledged. -/
def replaying (c : OpClient β) : Bool :=
  match c.todo with
  | .replay :: _ => true
  | _ => false

/-- The call in progress is where a connection is opened. -/
def atDial (c : OpClient β) : Bool :=
  match c.todo with
  | .flush :: _ => !c.pending.isEmpty
  | .reconnect :: _ => true
  | _ => false

/-- The queues end at the last message numbered. -/
structure Numbered (c : OpClient β) : Prop where
  pending : EndsAt c.seq (numbers c.pending)
  unacked : EndsAt c.seq (numbers c.unacked)
  dropped : c.replayPossible = false → c.unacked = []
  /-- As long as there was no session, nothing has been written. -/
  fresh : c.hadSession = false → c.pending.length = c.seq ∧ c.sock = none
  opening : c.opening ≠ none → c.sock = none ∧ c.atDial = true
  tail : ∀ i ∈ c.todo.tail, i ≠ .replay

/-- What a connection has been sent, with what is to be sent, goes on from `r`. -/
def Covers (c : OpClient β) (done : List ℕ) (r : ℕ) : Prop :=
  if c.replaying then c.pending = [] ∧ done = [] ∧ c.seq ≤ r + c.unacked.length
  else EndsAt c.seq (done ++ numbers c.pending) ∧ c.seq ≤ r + (done ++ numbers c.pending).length

/-- While it is replaying, everything is still to be sent again. -/
theorem covers_of_replaying {done : List ℕ} {r : ℕ} (h : c.replaying = true) :
    c.Covers done r ↔ c.pending = [] ∧ done = [] ∧ c.seq ≤ r + c.unacked.length := by
  rw [Covers, if_pos h]

/-- While it is not, what was handed over and what is pending end at the client's number. -/
theorem covers_of_not_replaying {done : List ℕ} {r : ℕ} (h : c.replaying = false) :
    c.Covers done r ↔ EndsAt c.seq (done ++ numbers c.pending) ∧
      c.seq ≤ r + (done ++ numbers c.pending).length := by
  rw [Covers, if_neg (by rw [h]; exact Bool.false_ne_true)]

/-- A client that has no replay ahead is not replaying. -/
theorem not_replaying (h : ∀ i ∈ c.todo, i ≠ OpInstr.replay) : c.replaying = false := by
  unfold replaying
  split
  · rename_i rest htodo
    exact absurd rfl (h _ (htodo ▸ List.mem_cons_self))
  · rfl

/-! ### Trimming the replay buffer -/

section Trim

/-- Trimming leaves the numbers, the socket and what is pending as they are. -/
@[simp] theorem seq_trim (c : OpClient β) (n : ℕ) : (c.trim n).seq = c.seq := by
  unfold trim; dsimp only; split <;> rfl

@[simp] theorem pending_trim (c : OpClient β) (n : ℕ) : (c.trim n).pending = c.pending := by
  unfold trim; dsimp only; split <;> rfl

@[simp] theorem sock_trim (c : OpClient β) (n : ℕ) : (c.trim n).sock = c.sock := by
  unfold trim; dsimp only; split <;> rfl

@[simp] theorem todo_trim (c : OpClient β) (n : ℕ) : (c.trim n).todo = c.todo := by
  unfold trim; dsimp only; split <;> rfl

@[simp] theorem opening_trim (c : OpClient β) (n : ℕ) : (c.trim n).opening = c.opening := by
  unfold trim; dsimp only; split <;> rfl

@[simp] theorem hadSession_trim (c : OpClient β) (n : ℕ) : (c.trim n).hadSession = c.hadSession := by
  unfold trim; dsimp only; split <;> rfl

/-- Trimming drops what the server has, from the front. -/
theorem unacked_trim (c : OpClient β) (n : ℕ) :
    (c.trim n).unacked = c.unacked.dropWhile fun e => e.message.seq ≤ n := by
  unfold trim
  dsimp only
  split
  · rename_i h
    exact h.symm
  · rfl

/-- What was not kept for replay is still not kept. -/
theorem dropped_trim (h : c.replayPossible = false → c.unacked = []) (n : ℕ) :
    (c.trim n).replayPossible = false → (c.trim n).unacked = [] := by
  unfold trim
  dsimp only
  split
  · exact fun _ => rfl
  · rename_i hne
    intro hfalse
    rw [h hfalse] at hne
    exact absurd rfl hne

/-- What has been acknowledged is at the front. -/
theorem Numbered.unacked_trim (hc : c.Numbered) (n : ℕ) : EndsAt c.seq (numbers (c.trim n).unacked) := by
  rw [OpClient.unacked_trim, numbers_dropWhile]
  exact hc.unacked.dropWhile _

end Trim

namespace Numbered

/-- A client that has just begun has queued nothing. -/
theorem initial : ({} : OpClient β).Numbered := by
  constructor <;> simp

/-- A call in progress changes, and the connection being opened is given up. -/
theorem setTodo (hc : c.Numbered) {todo : List (OpInstr β)} (hopening : c.opening = none)
    (htail : ∀ i ∈ todo.tail, i ≠ .replay) : Numbered { c with todo := todo } :=
  ⟨hc.pending, hc.unacked, hc.dropped, hc.fresh, fun h => absurd hopening h, htail⟩

/-- An exception leaves the numbers. -/
theorem raise (hc : c.Numbered) : c.raise.Numbered :=
  ⟨hc.pending, hc.unacked, hc.dropped, hc.fresh, fun h => absurd rfl h, fun _ hi => nomatch hi⟩

/-- A message is numbered and queued. -/
theorem commit (hc : c.Numbered) (hopening : c.opening = none) (b : β) (n : ℕ) :
    (c.commit b n).Numbered := by
  have hpending : EndsAt (c.seq + 1) (numbers (c.pending ++ [(⟨⟨c.seq + 1, b⟩, n⟩ : OpEntry β)])) := by
    rw [numbers_append]
    exact hc.pending.concat
  have hunacked : EndsAt (c.seq + 1) (numbers (c.unacked ++ [(⟨⟨c.seq + 1, b⟩, n⟩ : OpEntry β)])) := by
    rw [numbers_append]
    exact hc.unacked.concat
  have hfresh : c.hadSession = false →
      (c.pending ++ [(⟨⟨c.seq + 1, b⟩, n⟩ : OpEntry β)]).length = c.seq + 1 ∧ c.sock = none := fun h =>
    ⟨by rw [List.length_append, (hc.fresh h).1]; rfl, (hc.fresh h).2⟩
  unfold OpClient.commit
  dsimp only
  split
  · rename_i hpossible
    split
    · exact ⟨hpending, EndsAt.nil, fun _ => rfl, hfresh, fun h => absurd hopening h, hc.tail⟩
    · refine ⟨hpending, hunacked, fun h => ?_, hfresh, fun h => absurd hopening h, hc.tail⟩
      rw [h] at hpossible
      cases hpossible
  · rename_i himpossible
    have hnil := hc.dropped (Bool.eq_false_of_not_eq_true himpossible)
    refine ⟨hpending, ?_, hc.dropped, hfresh, fun h => absurd hopening h, hc.tail⟩
    rw [hnil]
    exact EndsAt.nil

/-- Trimming leaves the numbers. -/
theorem trim (hc : c.Numbered) (n : ℕ) : (c.trim n).Numbered := by
  refine ⟨?_, ?_, dropped_trim hc.dropped n, ?_, ?_, ?_⟩
  · rw [seq_trim, pending_trim]
    exact hc.pending
  · rw [seq_trim]
    exact hc.unacked_trim n
  · rw [hadSession_trim, pending_trim, seq_trim, sock_trim]
    exact hc.fresh
  · rw [opening_trim, sock_trim, atDial, todo_trim, pending_trim]
    exact hc.opening
  · rw [todo_trim]
    exact hc.tail

end Numbered

/-! ### Committing a message -/

section Commit

variable (c : OpClient β) (b : β) (n : ℕ)

/-- The next message has the next number. -/
@[simp] theorem seq_commit : (c.commit b n).seq = c.seq + 1 := by
  unfold commit; dsimp only; split <;> [split; skip] <;> rfl

/-- The message that is committed is pending. -/
@[simp] theorem pending_commit : (c.commit b n).pending = c.pending ++ [⟨⟨c.seq + 1, b⟩, n⟩] := by
  unfold commit; dsimp only; split <;> [split; skip] <;> rfl

/-- The connection is the same. -/
@[simp] theorem sock_commit : (c.commit b n).sock = c.sock := by
  unfold commit; dsimp only; split <;> [split; skip] <;> rfl

@[simp] theorem opening_commit : (c.commit b n).opening = c.opening := by
  unfold commit; dsimp only; split <;> [split; skip] <;> rfl

@[simp] theorem todo_commit : (c.commit b n).todo = c.todo := by
  unfold commit; dsimp only; split <;> [split; skip] <;> rfl

end Commit

/-- The next message goes on from what a connection was sent. -/
theorem Covers.commit {done : List ℕ} {r : ℕ} (h : c.Covers done r) (hc : c.replaying = false) (b : β)
    (n : ℕ) {rest : List (OpInstr β)} (hrest : ∀ i ∈ rest, i ≠ OpInstr.replay) :
    Covers { c.commit b n with todo := rest } done r := by
  rw [covers_of_not_replaying hc] at h
  refine (covers_of_not_replaying (not_replaying hrest)).mpr ?_
  simp only [seq_commit, pending_commit]
  rw [numbers_append, ← List.append_assoc]
  refine ⟨h.1.concat, ?_⟩
  rw [List.length_append]
  exact Nat.add_le_add_right h.2 1

/-- A connection is being opened only where that is done. -/
theorem Numbered.opening_eq_none (hc : c.Numbered) (h : c.atDial = false) : c.opening = none := by
  by_contra hne
  rw [(hc.opening hne).2] at h
  cases h

/-- A call goes on without a replay. -/
theorem Numbered.move (hc : c.Numbered) (hopening : c.opening = none) (hreplaying : c.replaying = false)
    (todo : List (OpInstr β)) (htodo : ∀ i ∈ todo, i ≠ OpInstr.replay) :
    Numbered { c with todo := todo } ∧
      ∀ done r, c.Covers done r → Covers { c with todo := todo } done r := by
  refine ⟨hc.setTodo hopening fun i hi => htodo i (List.mem_of_mem_tail hi), fun done r hcov => ?_⟩
  rw [covers_of_not_replaying hreplaying] at hcov
  exact (covers_of_not_replaying (not_replaying htodo)).mpr hcov

/-! ### The client's own steps -/

/-- **The next thing a call does** keeps the queues, and what they say about a connection. -/
theorem Numbered.next {d : OpClient β} (hc : c.Numbered) (h : c.next w = some d) :
    d.Numbered ∧ d.opening = none ∧ d.sock = c.sock ∧
      ∀ done r, c.sock ≠ none → c.Covers done r → d.Covers done r := by
  have htail := hc.tail
  have hopening : c.opening = none := by
    by_contra hne
    have hdial := (hc.opening hne).2
    unfold atDial at hdial
    unfold OpClient.next at h
    split at hdial
    · rename_i rest htodo
      simp only [htodo] at h
      split at h
      · rename_i hnil
        rw [hnil] at hdial
        cases hdial
      · cases h
    · rename_i rest htodo
      simp only [htodo] at h
      cases h
    · cases hdial
  have hmove := fun todo (hreplaying : c.replaying = false) => hc.move hopening hreplaying todo
  have hraise : c.replaying = false → c.raise.Numbered ∧ c.raise.opening = none ∧
      c.raise.sock = c.sock ∧ ∀ done r, c.sock ≠ none → c.Covers done r → c.raise.Covers done r := by
    intro hreplaying
    refine ⟨hc.raise, rfl, rfl, fun done r _ hcov => ?_⟩
    rw [covers_of_not_replaying hreplaying] at hcov
    exact (covers_of_not_replaying rfl).mpr hcov
  have hcommit : ∀ (b : β) (n : ℕ) (rest : List (OpInstr β)), c.replaying = false →
      (∀ i ∈ rest, i ≠ OpInstr.replay) → Numbered { c.commit b n with todo := rest } ∧
        { c.commit b n with todo := rest }.opening = none ∧
        { c.commit b n with todo := rest }.sock = c.sock ∧ ∀ done r, c.sock ≠ none → c.Covers done r →
          Covers { c.commit b n with todo := rest } done r := by
    intro b n rest hreplaying hrest
    refine ⟨(hc.commit hopening b n).setTodo ?_ fun i hi => hrest i (List.mem_of_mem_tail hi), ?_, ?_,
      fun done r _ hcov => hcov.commit hreplaying b n hrest⟩
    · rw [opening_commit, hopening]
    · rw [opening_commit, hopening]
    · rw [sock_commit]
  unfold OpClient.next at h
  cases htodo : c.todo with
  | nil =>
      rw [htodo] at h
      cases h
  | cons i rest =>
      rw [htodo] at h htail
      rw [List.tail_cons] at htail
      have hreplaying : i ≠ .replay → c.replaying = false := by
        intro hi
        unfold replaying
        rw [htodo]
        cases i <;> first | rfl | exact absurd rfl hi
      cases i with
      | queue b =>
          obtain rfl := Option.some.inj h
          have := hmove (.append b :: rest) (hreplaying (by simp)) (by simpa using htail)
          exact ⟨this.1, hopening, rfl, fun done r _ => this.2 done r⟩
      | append b =>
          dsimp only at h
          split at h
          · obtain rfl := Option.some.inj h
            exact hraise (hreplaying (by simp))
          · split at h
            · obtain rfl := Option.some.inj h
              have := hmove (.queue w.ack :: .flush :: .await :: .commit b :: rest) (hreplaying (by simp))
                (by simpa using htail)
              exact ⟨this.1, hopening, rfl, fun done r _ => this.2 done r⟩
            · obtain rfl := Option.some.inj h
              exact hcommit b _ rest (hreplaying (by simp)) htail
      | commit b =>
          dsimp only at h
          split at h
          · obtain rfl := Option.some.inj h
            exact hraise (hreplaying (by simp))
          · obtain rfl := Option.some.inj h
            exact hcommit b _ rest (hreplaying (by simp)) htail
      | flushIfFull =>
          dsimp only at h
          split at h
          · obtain rfl := Option.some.inj h
            have := hmove (.flush :: rest) (hreplaying (by simp)) (by simpa using htail)
            exact ⟨this.1, hopening, rfl, fun done r _ => this.2 done r⟩
          · obtain rfl := Option.some.inj h
            have := hmove rest (hreplaying (by simp)) htail
            exact ⟨this.1, hopening, rfl, fun done r _ => this.2 done r⟩
      | flush =>
          dsimp only at h
          split at h
          · obtain rfl := Option.some.inj h
            have := hmove rest (hreplaying (by simp)) htail
            exact ⟨this.1, hopening, rfl, fun done r _ => this.2 done r⟩
          · cases h
      | await =>
          obtain rfl := Option.some.inj h
          have := hmove (.awaiting c.seq :: rest) (hreplaying (by simp)) (by simpa using htail)
          exact ⟨this.1, hopening, rfl, fun done r _ => this.2 done r⟩
      | awaiting n => cases h
      | reconnect => cases h
      | replay =>
          -- there was nothing to replay
          dsimp only at h
          split at h
          · rename_i hnil
            obtain rfl := Option.some.inj h
            refine ⟨hc.setTodo hopening fun i hi => htail i (List.mem_of_mem_tail hi), hopening, rfl,
              fun done r _ hcov => ?_⟩
            have hrep : c.replaying = true := by unfold replaying; rw [htodo]
            rw [covers_of_replaying hrep, hnil] at hcov
            obtain ⟨hpending, rfl, hseq⟩ := hcov
            refine (covers_of_not_replaying (not_replaying htail)).mpr ?_
            rw [hpending]
            exact ⟨EndsAt.nil, hseq⟩
          · cases h

/-- **A connection breaks**: it is given up, or the attempt to open it is. -/
theorem Numbered.broken (hc : c.Numbered) :
    c.broken.Numbered ∧ c.broken.opening = none ∧
      ∀ k, c.broken.sock = some k → c.sock = some k ∧ ∀ done r, c.Covers done r → c.broken.Covers done r := by
  have htail := hc.tail
  unfold OpClient.broken
  split
  · rename_i rest htodo
    rw [htodo, List.tail_cons] at htail
    split
    · rename_i hhad
      refine ⟨⟨hc.pending, hc.unacked, hc.dropped, fun h => ?_, fun h => absurd rfl h, htail⟩, rfl,
        fun k hk => nomatch hk⟩
      rw [show c.hadSession = false from h] at hhad
      cases hhad
    · rename_i hhad
      have hsock := (hc.fresh (Bool.eq_false_of_not_eq_true hhad)).2
      refine ⟨hc.raise, rfl, fun k hk => ?_⟩
      rw [show c.raise.sock = c.sock from rfl, hsock] at hk
      cases hk
  · rename_i seq rest htodo
    have hopening := hc.opening_eq_none (by unfold atDial; rw [htodo])
    rw [htodo, List.tail_cons] at htail
    refine ⟨⟨hc.pending, hc.unacked, hc.dropped, fun h => ⟨(hc.fresh h).1, rfl⟩,
      fun h => absurd hopening h, ?_⟩, hopening, fun k hk => nomatch hk⟩
    simpa using htail
  · rename_i rest htodo
    have hopening := hc.opening_eq_none (by unfold atDial; rw [htodo])
    rw [htodo, List.tail_cons] at htail
    exact ⟨⟨hc.pending, hc.unacked, hc.dropped, fun h => ⟨(hc.fresh h).1, rfl⟩,
      fun h => absurd hopening h, htail⟩, hopening, fun k hk => nomatch hk⟩
  · exact ⟨⟨hc.pending, hc.unacked, hc.dropped, hc.fresh, fun h => absurd rfl h, hc.tail⟩, rfl,
      fun k hk => ⟨hk, fun done r hcov => hcov⟩⟩

/-- A connection on which sending failed is given up. -/
theorem Numbered.sock_broken (hc : c.Numbered) (hsock : c.sock ≠ none) (hout : c.outgoing ≠ []) :
    c.broken.sock = none := by
  unfold outgoing at hout
  unfold OpClient.broken
  split at hout
  · rename_i rest htodo
    rw [htodo]
    dsimp only
    rw [if_pos (Bool.eq_true_of_not_eq_false fun h => hsock (hc.fresh h).2)]
  · rename_i rest htodo
    rw [htodo]
  · exact absurd rfl hout

/-- What is about to be sent on a connection goes on from what was. -/
theorem Covers.continues {done : List ℕ} {r : ℕ} (h : c.Covers done r) (hc : c.Numbered)
    (hout : c.outgoing ≠ []) : Continues r (done ++ numbers c.outgoing) := by
  unfold outgoing at hout ⊢
  split at hout
  · rename_i rest htodo
    rw [covers_of_not_replaying (by unfold replaying; rw [htodo])] at h
    exact h.1.continues h.2
  · rename_i rest htodo
    rw [covers_of_replaying (by unfold replaying; rw [htodo])] at h
    obtain ⟨-, rfl, hseq⟩ := h
    exact hc.unacked.continues (by rw [length_numbers]; exact hseq)
  · exact absurd rfl hout

/-- **A frame is sent.** -/
theorem Numbered.sent (hc : c.Numbered) (hsock : c.sock ≠ none) (hout : c.outgoing ≠ []) :
    c.sent.Numbered ∧ c.sent.opening = none ∧ c.sent.sock = c.sock ∧
      ∀ done r, c.Covers done r → c.sent.Covers (done ++ numbers c.outgoing) r := by
  have hopening : c.opening = none := by
    by_contra hne
    exact hsock (hc.opening hne).1
  have hhad : c.hadSession = false → False := fun h => hsock (hc.fresh h).2
  have htail := hc.tail
  unfold outgoing at hout ⊢
  split at hout
  -- what goes out is a batch, or all that is held when it is replayed
  · rename_i rest htodo
    rw [htodo, List.tail_cons] at htail
    have hsent : c.sent = { c with pending := [], pendingBytes := 0, todo := rest } := by
      unfold OpClient.sent
      rw [htodo]
    rw [hsent]
    refine ⟨⟨EndsAt.nil, hc.unacked, hc.dropped, fun h => absurd h hhad, fun h => absurd hopening h,
      fun i hi => htail i (List.mem_of_mem_tail hi)⟩, hopening, rfl, fun done r hcov => ?_⟩
    rw [covers_of_not_replaying (by unfold replaying; rw [htodo])] at hcov
    refine (covers_of_not_replaying (not_replaying htail)).mpr ?_
    rw [numbers_nil, List.append_nil]
    exact hcov
  · rename_i rest htodo
    rw [htodo, List.tail_cons] at htail
    have hsent : c.sent = { c with todo := rest } := by
      unfold OpClient.sent
      rw [htodo]
      rfl
    rw [hsent]
    refine ⟨hc.setTodo hopening fun i hi => htail i (List.mem_of_mem_tail hi), hopening, rfl,
      fun done r hcov => ?_⟩
    rw [covers_of_replaying (by unfold replaying; rw [htodo])] at hcov
    obtain ⟨hpending, rfl, hseq⟩ := hcov
    refine (covers_of_not_replaying (not_replaying htail)).mpr ?_
    rw [hpending, numbers_nil, List.append_nil, List.nil_append, length_numbers]
    exact ⟨hc.unacked, hseq⟩
  · exact absurd rfl hout

/-! ### Connecting again -/

/-- A connection is taken up. -/
theorem Numbered.accept (hc : c.Numbered) (k : OpConnId) :
    Numbered { c with sock := some k, hadSession := true, opening := none, accepted := some k } :=
  ⟨hc.pending, hc.unacked, hc.dropped, (fun h => nomatch h), fun h => absurd rfl h, hc.tail⟩

/-- What is held after a handshake in `_reconnect` goes back far enough. -/
theorem Numbered.le_unacked (hc : c.Numbered) {n : ℕ} (h : ¬(n < c.seq ∧ c.lacks n)) :
    c.seq ≤ n + (c.trim n).unacked.length := by
  have hstart : c.seq ≤ n + (numbers c.unacked).length := by
    rw [not_and, Bool.not_eq_true] at h
    by_cases hlt : n < c.seq
    · have hlacks := h hlt
      unfold lacks at hlacks
      rw [Bool.or_eq_false_iff] at hlacks
      have hunacked := hc.unacked
      revert hlacks hunacked
      cases c.unacked with
      | nil => exact fun h => nomatch h.2
      | cons e es =>
          intro hlacks hunacked
          rw [numbers, List.map_cons] at hunacked ⊢
          refine hunacked.start_iff.mpr ?_
          exact not_lt.mp (of_decide_eq_false hlacks.2)
    · omega
  rw [OpClient.unacked_trim, ← length_numbers, numbers_dropWhile]
  exact hc.unacked.le_dropWhile hstart

/-- `_reconnect` goes on only with what it can replay from. -/
theorem Numbered.resume (hc : c.Numbered) (hopening : c.opening = none) (hhad : c.hadSession = true)
    {rest : List (OpInstr β)} (htodo : c.todo = .reconnect :: rest) (n : ℕ) :
    (c.resume n rest).Numbered ∧ (c.resume n rest).opening = none ∧
      ∀ k, (c.resume n rest).sock = some k → c.sock = some k ∧ (c.resume n rest).Covers [] n := by
  have htail := hc.tail
  rw [htodo, List.tail_cons] at htail
  unfold OpClient.resume
  split
  · exact ⟨⟨hc.pending, hc.unacked, hc.dropped, fun h => ⟨(hc.fresh h).1, rfl⟩, fun h => absurd rfl h,
      (fun _ hi => nomatch hi)⟩, rfl, fun k hk => nomatch hk⟩
  · rename_i hlacks
    have hopening' : (c.trim n).opening = none := by rw [opening_trim, hopening]
    refine ⟨⟨EndsAt.nil, ?_, dropped_trim hc.dropped n, fun h => ?_, fun h => absurd hopening' h, htail⟩,
      hopening', fun k hk => ⟨?_, ?_⟩⟩
    · simp only [seq_trim]
      exact hc.unacked_trim n
    · have hfalse : (c.trim n).hadSession = false := h
      rw [hadSession_trim, hhad] at hfalse
      cases hfalse
    · rw [← hk]
      exact (sock_trim c n).symm
    · refine (covers_of_replaying rfl).mpr ⟨rfl, rfl, ?_⟩
      simp only [seq_trim]
      exact hc.le_unacked hlacks

/-- `_flush` opens a connection where the server has applied all that is not pending. -/
theorem Numbered.covers_pending (hc : c.Numbered) {n : ℕ} (hpending : c.pending ≠ [])
    (hheld : c.hadSession = true → ∀ e ∈ c.pending.head?, e.message.seq ≤ n + 1) :
    c.seq ≤ n + (numbers c.pending).length := by
  by_cases hhad : c.hadSession = true
  · have hheld := hheld hhad
    have hends := hc.pending
    revert hheld hends hpending
    cases c.pending with
    | nil => exact fun hne => absurd rfl hne
    | cons e es =>
        intro _ hheld hends
        rw [numbers, List.map_cons] at hends ⊢
        exact hends.start_iff.mpr (hheld e rfl)
  · rw [length_numbers, (hc.fresh (Bool.eq_false_of_not_eq_true hhad)).1]
    exact Nat.le_add_left _ _

/-- **A handshake is read.** `_reconnect` accepts only what it can replay from; `_flush` is told that
what the server has not applied is pending. -/
theorem Numbered.shaken (hc : c.Numbered) {k : OpConnId} (hopening : c.opening = some k) (resumed : Bool)
    (n : ℕ) :
    (c.shaken k resumed n).Numbered ∧ (c.shaken k resumed n).opening = none ∧
      ∀ k', (c.shaken k resumed n).sock = some k' → k' = k ∧
        ((∀ rest, c.todo = .flush :: rest → c.hadSession = true → resumed = true →
          ∀ e ∈ c.pending.head?, e.message.seq ≤ n + 1) → (c.shaken k resumed n).Covers [] n) := by
  obtain ⟨hsock, hdial⟩ := hc.opening (by rw [hopening]; exact Option.some_ne_none k)
  unfold OpClient.shaken
  split
  · refine ⟨hc.raise, rfl, fun k' hk' => ?_⟩
    rw [show c.raise.sock = c.sock from rfl, hsock] at hk'
    cases hk'
  · rename_i hlost
    dsimp only
    split
    · rename_i rest htodo
      obtain ⟨hnumbered, hnone, hcov⟩ := (hc.accept k).resume rfl rfl htodo n
      refine ⟨hnumbered, hnone, fun k' hk' => ?_⟩
      exact ⟨(Option.some.inj (hcov k' hk').1).symm, fun _ => (hcov k' hk').2⟩
    · rename_i htodo
      -- the call is in `_flush`, with something pending
      unfold atDial at hdial
      split at hdial
      · rename_i rest hflush
        have hpending : c.pending ≠ [] := by
          intro hnil
          rw [hnil] at hdial
          cases hdial
        refine ⟨hc.accept k, rfl, fun k' hk' => ⟨(Option.some.inj hk').symm, fun hheld => ?_⟩⟩
        refine (covers_of_not_replaying (by unfold replaying; rw [hflush])).mpr ?_
        rw [List.nil_append]
        refine ⟨hc.pending, hc.covers_pending hpending fun hhad => hheld rest hflush hhad ?_⟩
        exact Bool.eq_true_of_not_eq_false fun hne => hlost ⟨hhad, hne⟩
      · rename_i rest hrest
        exact absurd hrest (htodo rest)
      · cases hdial

/-- **A reply is read.** -/
theorem Numbered.receive (hc : c.Numbered) {seq : ℕ} {rest : List (OpInstr β)}
    (htodo : c.todo = .awaiting seq :: rest) (r : OpReply ρ) :
    (c.receive w seq rest r).Numbered ∧ (c.receive w seq rest r).opening = none ∧
      (c.receive w seq rest r).sock = c.sock ∧
      ∀ done n, c.Covers done n → (c.receive w seq rest r).Covers done n := by
  have hopening := hc.opening_eq_none (by unfold atDial; rw [htodo])
  have hreplaying : c.replaying = false := by unfold replaying; rw [htodo]
  have htail := hc.tail
  rw [htodo, List.tail_cons] at htail
  unfold OpClient.receive
  split
  · exact ⟨hc, hopening, rfl, fun _ _ => id⟩
  · dsimp only
    generalize hd : ({ c with lastAcked := r.seq, answered := c.answered ++ [seq] } : OpClient β) = d
    have hnumbered : d.Numbered := by
      rw [← hd]
      exact ⟨hc.pending, hc.unacked, hc.dropped, hc.fresh, hc.opening, hc.tail⟩
    have hsame : d.seq = c.seq ∧ d.pending = c.pending ∧ d.sock = c.sock ∧ d.opening = c.opening := by
      rw [← hd]
      exact ⟨rfl, rfl, rfl, rfl⟩
    -- what the reply acknowledges is let go of
    replace hnumbered := hnumbered.trim r.seq
    have hcovers : ∀ todo : List (OpInstr β), (∀ i ∈ todo, i ≠ OpInstr.replay) → ∀ done n,
        c.Covers done n → Covers { d.trim r.seq with todo := todo, opening := none } done n := by
      intro todo hrest done n hcov
      rw [covers_of_not_replaying hreplaying] at hcov
      refine (covers_of_not_replaying (not_replaying hrest)).mpr ?_
      simp only [seq_trim, pending_trim]
      rw [hsame.1, hsame.2.1]
      exact hcov
    have hsock : (d.trim r.seq).sock = c.sock := by rw [sock_trim, hsame.2.2.1]
    have hnone : (d.trim r.seq).opening = none := by rw [opening_trim, hsame.2.2.2, hopening]
    split
    · exact ⟨hnumbered.raise, rfl, hsock, hcovers [] (fun _ hi => nomatch hi)⟩
    · refine ⟨hnumbered.setTodo hnone fun i hi => htail i (List.mem_of_mem_tail hi), hnone, hsock,
        fun done n hcov => ?_⟩
      exact (covers_of_not_replaying (not_replaying htail)).mpr
        ((covers_of_not_replaying (not_replaying htail)).mp (hcovers rest htail done n hcov))

end OpClient

/-! ## The system -/

namespace OpSystem

open OpServer

variable {e : Engine σ β ρ} {grace : ℕ} {w : OpConfig β ρ} {own : ℕ → OpSessionId} {s : OpSystem σ β ρ}
  {held : Prop}

/-- The connections of the client and what goes over them; and, in a run in which `held`, the messages
sent and the sessions' logs have no gap. -/
structure Gapless (held : Prop) (w : OpConfig β ρ) (own : ℕ → OpSessionId) (s : OpSystem σ β ρ) : Prop where
  server : s.server.Logged own
  client : s.client.Numbered
  undialed : ∀ k, s.dialed k = none → s.sent k = [] ∧ s.flight k = [] ∧ s.taken k = 0
  /-- The client's connections, and no others, name its session. -/
  mine : ∀ k sid, named (s.server.conn k) = some sid → (s.dialed k ≠ none ↔ sid = w.sid)
  /-- What was sent has been given to the connection, or is in flight. -/
  flow : ∀ k, s.dialed k ≠ none ∨ (s.server.conn k).pc = .idle →
    traffic (s.server.conn k) ++ (s.flight k).flatten = s.sent k
  opening : ∀ k, s.client.opening = some k → s.dialed k ≠ none ∧ s.taken k = 0 ∧ s.sent k = []
  covered : ∀ k, s.client.sock = some k → s.dialed k ≠ none ∧ ∃ f, (s.server.conn k).found = some f ∧
    (held → s.client.Covers ((s.sent k).map (·.seq)) f.session.lastSeq)
  sent : ∀ k, s.sent k = [] ∨ ∃ f, (s.server.conn k).found = some f ∧
    (held → Continues f.session.lastSeq ((s.sent k).map (·.seq)))
  /-- A session that is no other client's has applied every message up to its last. -/
  sessions : held → ∀ u, (∀ k f, s.dialed k = none → (s.server.conn k).found = some f → f.lease.session ≠ u) →
    (s.server.session u).applied = List.range' 1 (s.server.session u).lastSeq

namespace Gapless

/-- There is no gap at first. -/
theorem initial (held : Prop) (w : OpConfig β ρ) (own : ℕ → OpSessionId) :
    (OpSystem.initial e : OpSystem σ β ρ).Gapless held w own := by
  refine ⟨Logged.initial own, OpClient.Numbered.initial, ?_, ?_, ?_, ?_, ?_, ?_, ?_⟩
  all_goals simp [OpSystem.initial, OpServer.initial, named, traffic]

/-- The client alone goes on. -/
theorem setClient (hs : s.Gapless held w own) {c : OpClient β} (hc : c.Numbered) (hopening : c.opening = none)
    (hcov : ∀ k, c.sock = some k → s.client.sock = some k ∧
      ∀ done r, s.client.Covers done r → c.Covers done r)
    (taken : OpConnId → ℕ) (htaken : ∀ k, s.dialed k = none → taken k = 0) :
    Gapless held w own { s with client := c, taken := taken } := by
  refine ⟨hs.server, hc, fun k hk => ?_, hs.mine, hs.flow, fun k hk => ?_, fun k hk => ?_, hs.sent,
    hs.sessions⟩
  · obtain ⟨hsent, hflight, -⟩ := hs.undialed k hk
    exact ⟨hsent, hflight, htaken k hk⟩
  · rw [show c.opening = some k from hk] at hopening
    cases hopening
  · obtain ⟨hsock, hcovers⟩ := hcov k hk
    obtain ⟨hdialed, f, hf, hc⟩ := hs.covered k hsock
    exact ⟨hdialed, f, hf, fun h => hcovers _ _ (hc h)⟩

/-- The client alone goes on, and reads nothing. -/
theorem setClient' (hs : s.Gapless held w own) {c : OpClient β} (hc : c.Numbered) (hopening : c.opening = none)
    (hcov : ∀ k, c.sock = some k → s.client.sock = some k ∧
      ∀ done r, s.client.Covers done r → c.Covers done r) :
    Gapless held w own { s with client := c } :=
  hs.setClient hc hopening hcov s.taken fun k hk => (hs.undialed k hk).2.2

/-! ### One step of client or server -/

/-- A socket is opened. -/
theorem dial (hs : s.Gapless held w own) {k : OpConnId} (hdials : s.client.dials) (hk : s.dialed k = none)
    (hidle : (s.server.conn k).pc = .idle) (n : ℕ) :
    Gapless held w own { s with
      client := { s.client with opening := some k }, dialed := Function.update s.dialed k (some n) } := by
  obtain ⟨hsock, hnone, hcall⟩ := hdials
  have hfound : (s.server.conn k).found = none := hs.server.early k (by rw [hidle]; rfl)
  have hat : s.client.atDial = true := by
    -- the client opens a socket for what is pending, or to connect again
    split at hcall
    · rename_i rest htodo
      rw [OpClient.atDial, htodo]
      cases hpending : s.client.pending with
      | nil => exact absurd hpending hcall
      | cons e es => rfl
    · rename_i rest htodo
      rw [OpClient.atDial, htodo]
    · exact hcall.elim
  have hdialed : ∀ k', Function.update s.dialed k (some n) k' = none ↔ k' ≠ k ∧ s.dialed k' = none := by
    intro k'
    rw [Function.update_apply]
    split
    · rename_i hkk
      exact ⟨by rintro ⟨⟩, fun h => absurd hkk h.1⟩
    · rename_i hkk
      exact ⟨fun h => ⟨hkk, h⟩, fun h => h.2⟩
  obtain ⟨hsent, hflight, htaken⟩ := hs.undialed k hk
  refine ⟨hs.server, ⟨hs.client.pending, hs.client.unacked, hs.client.dropped, hs.client.fresh,
    fun _ => ⟨hsock, hat⟩, hs.client.tail⟩, ?_, ?_, ?_, ?_, ?_, hs.sent, ?_⟩
  · intro k' hk'
    exact hs.undialed k' ((hdialed k').mp hk').2
  · intro k' sid hsid
    by_cases hkk : k' = k
    · -- nothing has been named on it yet
      rw [hkk] at hsid
      unfold named at hsid
      simp only [hfound, hidle] at hsid
      cases hsid
    · rw [← hs.mine k' sid hsid, Ne, Ne, hdialed]
      exact not_congr ⟨fun h => h.2, fun h => ⟨hkk, h⟩⟩
  · intro k' hk'
    refine hs.flow k' ?_
    by_cases hkk : k' = k
    · exact Or.inr (hkk ▸ hidle)
    · refine hk'.imp (fun h hne => h ?_) id
      exact (hdialed k').mpr ⟨hkk, hne⟩
  · intro k' hk'
    obtain rfl : k = k' := Option.some.inj hk'
    exact ⟨fun h => ((hdialed k).mp h).1 rfl, htaken, hsent⟩
  · intro k' hk'
    rw [show s.client.sock = some k' from hk'] at hsock
    cases hsock
  · intro hheld u hu
    refine hs.sessions hheld u fun k' f hk' hf => ?_
    -- a connection that has found a session is not the one that is opened now
    refine hu k' f ((hdialed k').mpr ⟨?_, hk'⟩) hf
    rintro rfl
    rw [hfound] at hf
    cases hf

/-- A frame goes out, and may be all that the client knows of the connection. -/
theorem send (hs : s.Gapless held w own) {k : OpConnId} (hsock : s.client.sock = some k)
    (hout : s.client.outgoing ≠ []) {c : OpClient β} (hc : c.Numbered) (hopening : c.opening = none)
    (hcov : ∀ k', c.sock = some k' → k' = k ∧ ∀ done r, s.client.Covers done r →
      c.Covers (done ++ numbers s.client.outgoing) r) :
    Gapless held w own { s with
      client := c
      flight := Function.update s.flight k (s.flight k ++ [s.client.outgoing.map (·.message)])
      sent := Function.update s.sent k (s.sent k ++ s.client.outgoing.map (·.message)) } := by
  obtain ⟨hdialed, f, hf, hcovers⟩ := hs.covered k hsock
  have hseqs : (s.sent k ++ s.client.outgoing.map (·.message)).map (·.seq) =
      (s.sent k).map (·.seq) ++ numbers s.client.outgoing := by
    rw [List.map_append, map_seq_messages]
  refine ⟨hs.server, hc, ?_, hs.mine, ?_, ?_, ?_, ?_, hs.sessions⟩
  · intro k' hk'
    have hne : k' ≠ k := by
      rintro rfl
      exact hdialed hk'
    simp only [Function.update_of_ne hne]
    exact hs.undialed k' hk'
  · intro k' hk'
    by_cases hkk : k' = k
    · subst hkk
      simp only [Function.update_self]
      rw [List.flatten_concat, ← List.append_assoc, hs.flow k' hk']
    · simp only [Function.update_of_ne hkk]
      exact hs.flow k' hk'
  · intro k' hk'
    rw [show c.opening = some k' from hk'] at hopening
    cases hopening
  · intro k' hk'
    obtain ⟨rfl, hgoes⟩ := hcov k' hk'
    refine ⟨hdialed, f, hf, fun hheld => ?_⟩
    simp only [Function.update_self]
    rw [hseqs]
    exact hgoes _ _ (hcovers hheld)
  · intro k'
    by_cases hkk : k' = k
    · subst hkk
      simp only [Function.update_self]
      refine Or.inr ⟨f, hf, fun hheld => ?_⟩
      rw [hseqs]
      -- the frame goes on from where the connection was
      exact (hcovers hheld).continues hs.client hout
    · simp only [Function.update_of_ne hkk]
      exact hs.sent k'

/-- A session was made under one id, which is the client's or another's. -/
theorem mine_of_session (hs : s.Gapless held w own) {k k' : OpConnId} {f f' : Snapshot σ ρ}
    (hf : (s.server.conn k).found = some f) (hf' : (s.server.conn k').found = some f')
    (heq : f'.lease.session = f.lease.session) : s.dialed k' ≠ none ↔ s.dialed k ≠ none := by
  have hown := (hs.server.found k f hf).1
  have hown' := (hs.server.found k' f' hf').1
  rw [hs.mine k f.lease.sid (by unfold named; rw [hf]), hs.mine k' f'.lease.sid (by unfold named; rw [hf']),
    ← hown, ← hown', heq]

/-- A message about to be applied is the next one, or was applied before. -/
theorem seq_le_succ (hs : s.Gapless held w own) (hheld : held) {k : OpConnId} {l : Lease} {m : OpMessage β}
    {rest : List (OpMessage β)} (hk : s.dialed k ≠ none) (hpc : (s.server.conn k).pc = .serving l)
    (hbatch : (s.server.conn k).batch = m :: rest) :
    m.seq ≤ (s.server.session l.session).lastSeq + 1 := by
  obtain ⟨f, hf, rfl⟩ := hs.server.held k l (by rw [hpc]; rfl)
  have hflow := hs.flow k (Or.inl hk)
  rw [traffic, hbatch] at hflow
  have hcontinues : Continues f.session.lastSeq ((s.sent k).map (·.seq)) := by
    rcases hs.sent k with hnil | ⟨f', hf', h⟩
    · rw [hnil]
      exact Continues.nil
    · obtain rfl := Option.some.inj (hf.symm.trans hf')
      exact h hheld
  rw [← hflow] at hcontinues
  simp only [List.map_append, List.map_cons, List.append_assoc, List.cons_append] at hcontinues
  refine hcontinues.le_succ (hs.server.reported k f hf) fun n hn => ?_
  simp only [List.mem_map] at hn
  obtain ⟨m', ⟨d, hd, rfl⟩, rfl⟩ := hn
  exact hs.server.executed k f d hf hd

/-- **The server goes on**, with what arrives taken from what is in flight. -/
theorem setServer (hs : s.Gapless held w own) {a : OpServerAction β} {t : OpServer σ β ρ}
    (hstep : s.server.step e grace a = some t) {flight : OpConnId → List (List (OpMessage β))}
    (hnaming : ∀ k sid, naming a k = some sid → (s.dialed k ≠ none ↔ sid = w.sid))
    (hflight : ∀ k, s.dialed k ≠ none ∨ (s.server.conn k).pc = .idle →
      arrival a k ++ (flight k).flatten = (s.flight k).flatten)
    (hundialed : ∀ k, s.dialed k = none → flight k = []) :
    ∃ own', Gapless held w own' { s with server := t, flight := flight } := by
  obtain ⟨own', ht⟩ := hs.server.step hstep
  have hconn := conn_step hs.server hstep
  refine ⟨own', ht, hs.client, fun k hk => ?_, fun k sid hsid => ?_, fun k hk => ?_, hs.opening,
    fun k hk => ?_, fun k => ?_, fun hheld u hu => ?_⟩
  · exact ⟨(hs.undialed k hk).1, hundialed k hk, (hs.undialed k hk).2.2⟩
  · rcases (hconn k).named sid hsid with h | h
    · exact hs.mine k sid h
    · exact hnaming k sid h
  · have hk' : s.dialed k ≠ none ∨ (s.server.conn k).pc = .idle := hk.imp id (hconn k).idle
    rw [traffic_step hs.server hstep k, List.append_assoc, hflight k hk']
    exact hs.flow k hk'
  · obtain ⟨hdialed, f, hf, hcov⟩ := hs.covered k hk
    exact ⟨hdialed, f, (hconn k).found f hf, hcov⟩
  · rcases hs.sent k with hnil | ⟨f, hf, h⟩
    · exact Or.inl hnil
    · exact Or.inr ⟨f, (hconn k).found f hf, h⟩
  · have hold := hs.sessions hheld u fun k f hk hf => hu k f hk ((hconn k).found f hf)
    rcases session_step hstep u with ⟨happlied, hlast⟩ | ⟨k, l, m, rest, hpc, hbatch, rfl, hnew, hlast,
      happlied⟩
    · rw [happlied, hlast]
      exact hold
    · -- the connection is the client's
      obtain ⟨f, hf, hfl⟩ := hs.server.held k l (by rw [hpc]; rfl)
      have hk : s.dialed k ≠ none := fun hk => hu k f hk ((hconn k).found f hf) (by rw [hfl])
      have hnext : m.seq = (s.server.session l.session).lastSeq + 1 := by
        have := hs.seq_le_succ hheld hk hpc hbatch
        omega
      rw [happlied, hlast, hold, hnext, List.range'_concat, Nat.one_mul, Nat.add_comm 1]

/-- **The server is started again.** -/
theorem restart (hs : s.Gapless held w own) : Gapless held w own { s with server := s.server.restart } := by
  have hfound : ∀ k, (s.server.restart.conn k).found = (s.server.conn k).found := by
    intro k
    simp only [OpServer.restart]
    split <;> rfl
  have hidle : ∀ k, (s.server.restart.conn k).pc = .idle → (s.server.conn k).pc = .idle := by
    intro k h
    simp only [OpServer.restart] at h
    split at h
    · exact h
    · cases h
  have hnamed : ∀ k sid, named (s.server.restart.conn k) = some sid →
      named (s.server.conn k) = some sid := by
    intro k sid h
    unfold named at h ⊢
    rw [hfound] at h
    cases hf : (s.server.conn k).found with
    | some f =>
        rw [hf] at h
        exact h
    | none =>
        rw [hf] at h
        cases hpc : (s.server.conn k).pc with
        | idle => simp [OpServer.restart, hpc] at h
        | _ => simp [OpServer.restart, hpc] at h
  refine ⟨hs.server.restart, hs.client, hs.undialed, fun k sid h => hs.mine k sid (hnamed k sid h),
    fun k hk => ?_, hs.opening, fun k hk => ?_, fun k => ?_, fun hheld u hu => ?_⟩
  · rw [traffic_restart]
    exact hs.flow k (hk.imp id (hidle k))
  · rw [hfound]
    exact hs.covered k hk
  · rw [hfound]
    exact hs.sent k
  · exact hs.sessions hheld u fun k f hk hf => hu k f hk (by rw [hfound]; exact hf)

end Gapless

/-! ## Every run -/

/-- The condition on a step: where `_flush`, and not `_reconnect`, has opened a connection to a session
the client had before, what the server has not applied is all still pending. -/
def StillPending (s : OpSystem σ β ρ) : OpAction β → Prop
  | .shake =>
      match s.client.todo, s.client.opening with
      | .flush :: _, some k =>
          match (s.server.conn k).outbox[s.taken k]? with
          | some (.hello resumed serverSeq) =>
              s.client.hadSession = true → resumed = true →
                ∀ e ∈ s.client.pending.head?, e.message.seq ≤ serverSeq + 1
          | _ => True
      | _, _ => True
  | _ => True

instance (s : OpSystem σ β ρ) (a : OpAction β) : Decidable (s.StillPending a) := by
  unfold StillPending
  split
  · split
    · split <;> infer_instance
    · infer_instance
  · infer_instance

section Runs

variable [DecidableEq β] [DecidableEq ρ]

omit [DecidableEq β] [DecidableEq ρ] in
/-- A call starts when none is in progress. -/
theorem Gapless.call (hs : s.Gapless held w own) (todo : List (OpInstr β)) (hnil : s.client.todo = [])
    (htodo : ∀ i ∈ todo, i ≠ OpInstr.replay) :
    Gapless held w own { s with client := { s.client with todo := todo } } := by
  have hopening := hs.client.opening_eq_none (by unfold OpClient.atDial; rw [hnil])
  obtain ⟨hc, hcov⟩ := hs.client.move hopening (by unfold OpClient.replaying; rw [hnil]) todo htodo
  exact hs.setClient' hc hopening fun k hk => ⟨hk, hcov⟩

omit [DecidableEq β] [DecidableEq ρ] in
/-- An exception is raised where no connection is served. -/
theorem Gapless.raise (hs : s.Gapless held w own) (hsock : s.client.sock = none) :
    Gapless held w own { s with client := s.client.raise } := by
  refine hs.setClient' hs.client.raise rfl fun k hk => ?_
  rw [show s.client.raise.sock = s.client.sock from rfl, hsock] at hk
  cases hk

omit [DecidableEq β] [DecidableEq ρ] in
/-- The connection is given up. -/
theorem Gapless.broken (hs : s.Gapless held w own) : Gapless held w own { s with client := s.client.broken } :=
  hs.setClient' hs.client.broken.1 hs.client.broken.2.1 hs.client.broken.2.2

/-- The ids that are to be freed go ahead of the message. -/
theorem Gapless.step_free (hs : s.Gapless held w own) {b : β} {t : OpSystem σ β ρ}
    (hstep : s.step e grace w (.free b) = some t) : ∃ own', t.Gapless held w own' := by
  unfold OpSystem.step at hstep
  dsimp only at hstep
  split at hstep
  · rename_i b' rest htodo
    obtain rfl := Option.some.inj hstep
    have hopening := hs.client.opening_eq_none (by unfold OpClient.atDial; rw [htodo])
    have htail := hs.client.tail
    rw [htodo, List.tail_cons] at htail
    obtain ⟨hc, hcov⟩ := hs.client.move hopening (by unfold OpClient.replaying; rw [htodo])
      (.append b :: s.client.todo) (by rw [htodo]; simpa using htail)
    exact ⟨own, hs.setClient' hc hopening fun k hk => ⟨hk, hcov⟩⟩
  · cases hstep

/-- The handshake is read: what the server has applied is known, and where `_flush` opened the connection nothing
before the pending messages is missing. -/
theorem Gapless.step_shake (hs : s.Gapless held w own) {t : OpSystem σ β ρ}
    (ha : held → s.StillPending .shake)
    (hstep : s.step e grace w .shake = some t) : ∃ own', t.Gapless held w own' := by
  unfold OpSystem.step at hstep
  dsimp only at hstep
  split at hstep
  · rename_i k hopening
    split at hstep
    · rename_i resumed n hframe
      obtain rfl := Option.some.inj hstep
      obtain ⟨hdialed, htaken, hsent⟩ := hs.opening k hopening
      have hpending : held → ∀ rest, s.client.todo = .flush :: rest → s.client.hadSession = true →
          resumed = true → ∀ e ∈ s.client.pending.head?, e.message.seq ≤ n + 1 := by
        intro hheld rest htodo
        unfold StillPending at ha
        simp only [htodo, hopening, hframe] at ha
        exact ha hheld
      -- the frame is the first one, so it is the handshake's
      rw [htaken, ← List.head?_eq_getElem?] at hframe
      obtain ⟨f, hf, hhello⟩ := hs.server.hello k _ hframe
      obtain ⟨-, rfl⟩ := OpFrame.hello.inj hhello
      obtain ⟨hc, hnone, hcov⟩ := hs.client.shaken hopening _ _
      refine ⟨own, hs.server, hc, fun k' hk' => ?_, hs.mine, hs.flow, fun k' hk' => ?_,
        fun k' hk' => ?_, hs.sent, hs.sessions⟩
      · have hne : k' ≠ k := fun h => hdialed (h ▸ hk')
        simp only [Function.update_of_ne hne]
        exact hs.undialed k' hk'
      · rw [hnone] at hk'
        cases hk'
      · obtain ⟨rfl, hcov⟩ := hcov k' hk'
        refine ⟨hdialed, f, hf, fun hheld => ?_⟩
        rw [hsent]
        exact hcov (hpending hheld)
    · cases hstep
  · cases hstep

/-- A frame is sent, or the sending fails, and it may have arrived nevertheless. -/
theorem Gapless.step_send (hs : s.Gapless held w own) {ok arrives : Bool} {t : OpSystem σ β ρ}
    (hstep : s.step e grace w (.send ok arrives) = some t) : ∃ own', t.Gapless held w own' := by
  unfold OpSystem.step at hstep
  dsimp only at hstep
  split at hstep
  · rename_i k hsock
    split at hstep
    · cases hstep
    · rename_i hout
      obtain rfl := Option.some.inj hstep
      cases ok with
      | true =>
          obtain ⟨hc, hopening, hsame, hcov⟩ :=
            hs.client.sent (by rw [hsock]; exact Option.some_ne_none k) hout
          simp only [true_or, if_true]
          refine ⟨own, hs.send hsock hout hc hopening fun k' hk' => ⟨?_, hcov⟩⟩
          rw [hsame, hsock] at hk'
          exact (Option.some.inj hk').symm
      | false =>
          have hgone := hs.client.sock_broken (by rw [hsock]; exact Option.some_ne_none k) hout
          cases arrives with
          | true =>
              simp only [or_true, if_true, Bool.false_eq_true, if_false]
              refine ⟨own, hs.send hsock hout hs.client.broken.1 hs.client.broken.2.1 fun k' hk' => ?_⟩
              rw [hgone] at hk'
              cases hk'
          | false =>
              simp only [Bool.false_eq_true, or_self, if_false]
              exact ⟨own, hs.broken⟩
  · cases hstep

/-- A reply is read from the connection that is served. -/
theorem Gapless.step_receive (hs : s.Gapless held w own) {t : OpSystem σ β ρ}
    (hstep : s.step e grace w .receive = some t) : ∃ own', t.Gapless held w own' := by
  unfold OpSystem.step at hstep
  dsimp only at hstep
  split at hstep
  · rename_i seq rest k htodo hsock
    split at hstep
    · rename_i r hframe
      obtain rfl := Option.some.inj hstep
      obtain ⟨hc, hopening, hsame, hcov⟩ := hs.client.receive htodo r
      refine ⟨own, hs.setClient hc hopening (fun k' hk' => ⟨hsame ▸ hk', hcov⟩) _ fun k' hk' => ?_⟩
      have hne : k' ≠ k := fun h => (hs.covered k hsock).1 (h ▸ hk')
      rw [Function.update_of_ne hne]
      exact (hs.undialed k' hk').2.2
    · cases hstep
  · cases hstep

/-- `_reconnect` gives up and leaves the client without a connection. -/
theorem Gapless.step_giveUp (hs : s.Gapless held w own) {t : OpSystem σ β ρ}
    (hstep : s.step e grace w .giveUp = some t) : ∃ own', t.Gapless held w own' := by
  unfold OpSystem.step at hstep
  dsimp only at hstep
  split at hstep
  · rename_i rest htodo hopening
    obtain rfl := Option.some.inj hstep
    obtain ⟨-, hcov⟩ := hs.client.move hopening (by unfold OpClient.replaying; rw [htodo]) []
      (by rintro _ ⟨⟩)
    refine ⟨own, hs.setClient' hs.client.raise rfl fun k hk => ⟨hk, fun done r hc => ?_⟩⟩
    have := hcov done r hc
    rw [OpClient.covers_of_not_replaying rfl] at this ⊢
    exact this
  · cases hstep

/-- The hello of the client arrives. -/
theorem Gapless.step_hello (hs : s.Gapless held w own) {k : OpConnId} {t : OpSystem σ β ρ}
    (hstep : s.step e grace w (.hello k) = some t) : ∃ own', t.Gapless held w own' := by
  unfold OpSystem.step at hstep
  dsimp only at hstep
  split at hstep
  · rename_i n hk
    obtain ⟨t, ht, rfl⟩ := Option.map_eq_some_iff.mp hstep
    refine hs.setServer ht (fun k' sid hsid => ?_) (fun k' _ => List.nil_append _)
      fun k' hk' => (hs.undialed k' hk').2.1
    unfold naming at hsid
    dsimp only at hsid
    split at hsid
    · rename_i hkk
      rw [hkk, hk]
      exact ⟨fun _ => (Option.some.inj hsid).symm, fun _ => Option.some_ne_none n⟩
    · cases hsid
  · cases hstep

/-- The first frame that is under way arrives behind those that have. -/
theorem Gapless.step_deliver (hs : s.Gapless held w own) {k : OpConnId} {t : OpSystem σ β ρ}
    (hstep : s.step e grace w (.deliver k) = some t) : ∃ own', t.Gapless held w own' := by
  unfold OpSystem.step at hstep
  dsimp only at hstep
  split at hstep
  · rename_i frame flight hframe
    obtain ⟨t, ht, rfl⟩ := Option.map_eq_some_iff.mp hstep
    refine hs.setServer ht (by rintro _ _ ⟨⟩) (fun k' _ => ?_) fun k' hk' => ?_
    · unfold arrival
      dsimp only
      by_cases hkk : k' = k
      · rw [if_pos hkk, hkk, Function.update_self, hframe, List.flatten_cons]
      · rw [if_neg hkk, Function.update_of_ne hkk, List.nil_append]
    · have hnil := (hs.undialed k' hk').2.1
      have hne : k' ≠ k := by
        rintro rfl
        rw [hnil] at hframe
        cases hframe
      rw [Function.update_of_ne hne]
      exact hnil
  · cases hstep

/-- The server goes on, or another client does. -/
theorem Gapless.step_server (hs : s.Gapless held w own) {a : OpServerAction β} {t : OpSystem σ β ρ}
    (hstep : s.step e grace w (.server a) = some t) : ∃ own', t.Gapless held w own' := by
  simp only [OpSystem.step, Option.ite_none_right_eq_some] at hstep
  obtain ⟨hallows, hstep⟩ := hstep
  obtain ⟨t, ht, rfl⟩ := Option.map_eq_some_iff.mp hstep
  refine hs.setServer ht (fun k sid hsid => ?_) (fun k hk => ?_) fun k hk => (hs.undialed k hk).2.1
  · unfold naming at hsid
    split at hsid
    · rename_i c sid' n
      split at hsid
      · rename_i hkc
        obtain rfl := Option.some.inj hsid
        rw [hkc, hallows.1]
        exact ⟨fun h => absurd rfl h, fun h => absurd h hallows.2⟩
      · cases hsid
    · cases hsid
  · unfold arrival
    split
    · rename_i c batch
      rw [if_neg, List.nil_append]
      rintro rfl
      exact hk.elim (fun h => h hallows.1) fun h => hallows.2 h
    · rw [List.nil_append]

/-- **Each step keeps the stream without a gap.** -/
theorem Gapless.step (hs : s.Gapless held w own) {a : OpAction β} {t : OpSystem σ β ρ} (ha : held → s.StillPending a)
    (hstep : s.step e grace w a = some t) : ∃ own', t.Gapless held w own' := by
  cases a with
  | post b =>
      simp only [OpSystem.step, Option.ite_none_right_eq_some, Option.some.injEq] at hstep
      obtain ⟨hnil, rfl⟩ := hstep
      exact ⟨own, hs.call _ hnil (by simp)⟩
  | request b =>
      simp only [OpSystem.step, Option.ite_none_right_eq_some, Option.some.injEq] at hstep
      obtain ⟨hnil, rfl⟩ := hstep
      exact ⟨own, hs.call _ hnil (by simp)⟩
  | flush =>
      simp only [OpSystem.step, Option.ite_none_right_eq_some, Option.some.injEq] at hstep
      obtain ⟨hnil, rfl⟩ := hstep
      exact ⟨own, hs.call _ hnil (by simp)⟩
  | free b => exact hs.step_free hstep
  | next =>
      obtain ⟨c, hnext, rfl⟩ := Option.map_eq_some_iff.mp hstep
      obtain ⟨hc, hopening, hsock, hcov⟩ := hs.client.next hnext
      refine ⟨own, hs.setClient' hc hopening fun k hk => ?_⟩
      rw [hsock] at hk
      exact ⟨hk, fun done r => hcov done r (by rw [hk]; exact Option.some_ne_none k)⟩
  | dial k =>
      simp only [OpSystem.step, Option.ite_none_right_eq_some, Option.some.injEq] at hstep
      obtain ⟨⟨hdials, hk, hidle⟩, rfl⟩ := hstep
      exact ⟨own, hs.dial hdials hk hidle _⟩
  | shake => exact hs.step_shake ha hstep
  | refuse =>
      simp only [OpSystem.step, Option.ite_none_right_eq_some, Option.some.injEq] at hstep
      obtain ⟨hopening, rfl⟩ := hstep
      exact ⟨own, hs.raise (hs.client.opening hopening).1⟩
  | send ok arrives => exact hs.step_send hstep
  | receive => exact hs.step_receive hstep
  | fail =>
      unfold OpSystem.step at hstep
      dsimp only at hstep
      split at hstep
      · obtain rfl := Option.some.inj hstep
        exact ⟨own, hs.broken⟩
      · simp only [Option.ite_none_right_eq_some, Option.some.injEq] at hstep
        obtain ⟨-, rfl⟩ := hstep
        exact ⟨own, hs.broken⟩
  | giveUp => exact hs.step_giveUp hstep
  | hello k => exact hs.step_hello hstep
  | deliver k => exact hs.step_deliver hstep
  | server a => exact hs.step_server hstep
  | restart =>
      obtain rfl := Option.some.inj hstep
      exact ⟨own, hs.restart⟩

/-- The numbers are right in every run, and there is no gap in one along `StillPending`. -/
theorem always_gapless (e : Engine σ β ρ) (grace : ℕ) (w : OpConfig β ρ) (held : Prop) :
    Always (step e grace w) (fun s a => held → s.StillPending a) (initial e)
      fun s => ∃ own, Gapless held w own s :=
  Always.of_step ⟨fun _ => 0, Gapless.initial held w _⟩ fun _ _ _ hs ha hstep =>
    hs.elim fun _ hs => hs.step ha hstep

/-- **The stream has no gap**, in every run in which `_flush` opens a connection to a session the client
had only while all that the server has not applied is still pending. A session of the client has applied
the messages `1, 2, …` up to its last, each once; and before a message is sent on a connection, every
earlier one has been sent on it or is applied. -/
theorem stream_has_no_gap (e : Engine σ β ρ) (grace : ℕ) (w : OpConfig β ρ) (as : List (OpAction β))
    (s : OpSystem σ β ρ) (halong : Along (step e grace w) StillPending (initial e) as)
    (hrun : run (step e grace w) (initial e) as = some s) :
    (∀ k f, s.dialed k ≠ none → (s.server.conn k).found = some f →
      (s.server.session f.lease.session).applied =
        List.range' 1 (s.server.session f.lease.session).lastSeq) ∧
    ∀ k before m after, s.sent k = before ++ m :: after →
      ∃ f, (s.server.conn k).found = some f ∧ ∀ n, 0 < n → n < m.seq →
        n ∈ (s.server.session f.lease.session).applied ∨ n ∈ before.map (·.seq) := by
  obtain ⟨own, hs⟩ := always_gapless e grace w True as s (halong.mono fun _ _ h _ => h) hrun
  have happlied : ∀ k f, s.dialed k ≠ none → (s.server.conn k).found = some f →
      (s.server.session f.lease.session).applied =
        List.range' 1 (s.server.session f.lease.session).lastSeq := by
    intro k f hk hf
    exact hs.sessions trivial _ fun k' f' hk' hf' heq => (hs.mine_of_session hf hf' heq).mpr hk hk'
  refine ⟨happlied, fun k before m after hsent => ?_⟩
  have hdialed : s.dialed k ≠ none := by
    intro hk
    rw [(hs.undialed k hk).1] at hsent
    exact absurd hsent.symm (by simp)
  rcases hs.sent k with hnil | ⟨f, hf, hcontinues⟩
  · rw [hnil] at hsent
    exact absurd hsent.symm (by simp)
  · refine ⟨f, hf, fun n hpos hlt => ?_⟩
    replace hcontinues := hcontinues trivial
    rw [hsent, List.map_append, List.map_cons] at hcontinues
    refine (hcontinues.mem_or hlt).imp (fun hle => ?_) id
    have hreported := hs.server.reported k f hf
    rw [happlied k f hdialed hf, List.mem_range'_1]
    omega

end Runs

/-- A client for which every message takes ten bytes, and whose only requests are acknowledgements. -/
def plain : OpConfig Bool ℕ := ⟨7, true, id, fun _ _ => some 10, fun _ => false, 64, 1000⟩

/-- A request is sent and answered; the next is lost on the way, and is replayed. -/
def replayed : List (OpAction Bool) :=
  [.request true, .next, .next, .dial 0, .hello 0, .server (.attach 0), .server (.handshake 0 none), .shake,
    .send true true, .deliver 0, .server (.read 0), .server (.apply 0), .server (.reply 0 true), .next,
    .receive, .request true, .next, .next, .send true true, .next, .fail, .dial 1, .hello 1,
    .server (.attach 1), .server (.handshake 1 none), .shake, .send true true, .deliver 1,
    .server (.read 1), .server (.apply 1)]

/-- A request is sent and lost, and the recovery gives up; then another is sent. -/
def gaveUp : List (OpAction Bool) :=
  [.request true, .next, .next, .dial 0, .hello 0, .server (.attach 0), .server (.handshake 0 none), .shake,
    .send true true, .next, .fail, .giveUp, .request true, .next, .next, .dial 1, .hello 1,
    .server (.attach 1), .server (.handshake 1 none), .shake, .send true true, .deliver 1,
    .server (.read 1), .server (.apply 1)]

/-- The second request is applied after the first one. -/
theorem stream_has_no_gap_replayed : ∃ s, run (step counting 120 plain) (initial counting) replayed = some s ∧
    s.sent 1 = [⟨2, true⟩] ∧ (s.server.session 0).applied = [1, 2] ∧
    1 ∈ (s.server.session 0).applied := by
  have hsome : (run (step counting 120 plain) (initial counting) replayed).isSome = true := by decide
  obtain ⟨s, hs⟩ := Option.isSome_iff_exists.mp hsome
  have hstate : (run (step counting 120 plain) (initial counting) replayed).map (fun s =>
      (s.sent 1, (s.server.conn 1).found.map (·.lease.session), (s.server.session 0).lastSeq,
        (s.dialed 1).isSome)) = some ([⟨2, true⟩], some 0, 2, true) := by decide
  simp only [hs, Option.map_some, Option.some.injEq, Prod.mk.injEq] at hstate
  obtain ⟨hsent, hfound, hlast, hdialed⟩ := hstate
  obtain ⟨f, hf, hsession⟩ := Option.map_eq_some_iff.mp hfound
  obtain ⟨happlied, hbefore⟩ := stream_has_no_gap counting 120 plain replayed s (by decide) hs
  have hlog := happlied 1 f (Option.isSome_iff_ne_none.mp hdialed) hf
  rw [hsession, hlast] at hlog
  refine ⟨s, hs, hsent, hlog, ?_⟩
  obtain ⟨f', hf', hall⟩ := hbefore 1 [] ⟨2, true⟩ [] hsent
  obtain rfl := Option.some.inj (hf.symm.trans hf')
  rw [← hsession]
  exact (hall 1 Nat.one_pos Nat.one_lt_two).resolve_right List.not_mem_nil

/-- After a recovery that gave up, the second message is sent and applied, and the first never was. -/
theorem recovery_leaves_gap : ∃ s f, run (step counting 120 plain) (initial counting) gaveUp = some s ∧
    s.dialed 1 ≠ none ∧ (s.server.conn 1).found = some f ∧
    (s.server.session f.lease.session).applied = [2] ∧ s.sent 1 = [⟨2, true⟩] := by
  have hsome : (run (step counting 120 plain) (initial counting) gaveUp).isSome = true := by decide
  obtain ⟨s, hs⟩ := Option.isSome_iff_exists.mp hsome
  have hstate : (run (step counting 120 plain) (initial counting) gaveUp).map (fun s =>
      (s.sent 1, (s.server.conn 1).found.map (·.lease.session), (s.server.session 0).applied,
        (s.dialed 1).isSome)) = some ([⟨2, true⟩], some 0, [2], true) := by decide
  simp only [hs, Option.map_some, Option.some.injEq, Prod.mk.injEq] at hstate
  obtain ⟨hsent, hfound, happlied, hdialed⟩ := hstate
  obtain ⟨f, hf, hsession⟩ := Option.map_eq_some_iff.mp hfound
  exact ⟨s, f, hs, Option.isSome_iff_ne_none.mp hdialed, hf, by rw [hsession, happlied], hsent⟩

end OpSystem

end Rgpu
