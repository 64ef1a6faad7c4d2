import Rgpu.Python.ClientMoves
import Rgpu.Python.WireRoundTrip
import Mathlib.Data.List.TakeWhile

/-! # What the Python client keeps for a replay

`_append` adds up what the queue of unacknowledged messages holds, asks for an acknowledgement before it holds
too much, and gives the replay up when it does.

* **`OpClient.Books`** — the queues and the figures agree, and what is held is enough.
* **`OpClient.Room`** — the queue stays small, as long as the server is reached in the end.
* **`replay_books`** — both, for the codec of `wire.py`. -/

namespace Rgpu

open Foundations

variable {β ρ : Type}

/-- The length of queued messages, as encoded. -/
def bytes (es : List (OpEntry β)) : ℕ := (es.map (·.bytes)).sum

/-- No messages, no bytes. -/
@[simp] theorem bytes_nil : bytes ([] : List (OpEntry β)) = 0 := rfl

/-- The bytes of a buffer with one message more. -/
theorem bytes_concat (es : List (OpEntry β)) (e : OpEntry β) : bytes (es ++ [e]) = bytes es + e.bytes := by
  rw [bytes, List.map_append, List.sum_append]
  rfl

/-- What is dropped from the front is what `_ack` subtracts. -/
theorem bytes_dropWhile (es : List (OpEntry β)) (p : OpEntry β → Bool) :
    bytes (es.dropWhile p) = bytes es - ((es.takeWhile p).map (·.bytes)).sum := by
  have hsplit : bytes es = ((es.takeWhile p).map (·.bytes)).sum + bytes (es.dropWhile p) := by
    rw [bytes, bytes, ← List.sum_append, ← List.map_append, List.takeWhile_append_dropWhile]
  omega

namespace OpClient

/-! ### What is left of a call -/

/-- What an instruction may be followed by: a wait comes right after the flush or the recovery it is for, the
rest of `_append` right after the wait for its acknowledgement, and that acknowledgement is waited for. -/
structure Follows (w : OpConfig β ρ) (i : OpInstr β) (rest : List (OpInstr β)) : Prop where
  await : ∀ r, rest = .await :: r → i = .flush ∨ i = .reconnect ∨ i = .replay
  awaiting : ∀ n r, rest = .awaiting n :: r → i = .reconnect ∨ i = .replay
  commit : ∀ b r, rest = .commit b :: r → i = .await ∨ ∃ n, i = .awaiting n
  reconnect : ∀ r, rest ≠ .reconnect :: r
  ack : ∀ b, i = .queue b ∨ i = .append b → w.isAck b = true → ∃ r, rest = .flush :: .await :: r

/-- The shape of what is left of a call. -/
def Shaped (w : OpConfig β ρ) : List (OpInstr β) → Prop
  | [] => True
  | i :: rest => Follows w i rest ∧ Shaped w rest

/-- The head of what is left is a wait. -/
def waits : List (OpInstr β) → Bool
  | .await :: _ | .awaiting _ :: _ => true
  | _ => false

/-- What is left comes to a wait before it adds to the queues. -/
def settling : List (OpInstr β) → Bool
  | .flush :: rest | .reconnect :: rest | .replay :: rest => waits rest
  | todo => waits todo

/-- Where the queue of what is to be written has been emptied. -/
def flushed : List (OpInstr β) → Bool
  | .await :: _ | .awaiting _ :: _ | .replay :: _ | .reconnect :: .awaiting _ :: _ => true
  | _ => false

/-- The number that is waited for. -/
def awaited : List (OpInstr β) → Option ℕ
  | .awaiting n :: _ | .reconnect :: .awaiting n :: _ | .replay :: .awaiting n :: _ => some n
  | _ => none

variable {w : OpConfig β ρ} {c d : OpClient β} {told : ℕ}

/-- The messages of an action are not acknowledgements: only `_append` asks for one. -/
def Ordinary (w : OpConfig β ρ) : OpClientAction β ρ → Prop
  | .post b | .request b | .free b => w.isAck b = false
  | _ => True

instance (w : OpConfig β ρ) : DecidablePred (Ordinary w)
  | .post b | .request b | .free b => inferInstanceAs (Decidable (w.isAck b = false))
  | .flush | .next | .dial _ | .shake _ _ | .refuse | .send _ | .receive _ | .fail | .giveUp => .isTrue trivial

/-! ### The figures -/

/-- The queues, with their figures. -/
def queues (c : OpClient β) : ℕ × List (OpEntry β) × ℕ × List (OpEntry β) × ℕ × Bool :=
  (c.seq, c.pending, c.pendingBytes, c.unacked, c.unackedBytes, c.replayPossible)

/-- **The books** of a client that has been told of the messages up to `told`. -/
structure Books (w : OpConfig β ρ) (told : ℕ) (c : OpClient β) : Prop extends Numbered c where
  unackedBytes : c.unackedBytes = bytes c.unacked
  pendingBytes : c.pendingBytes = bytes c.pending
  held : c.replayPossible = true → c.seq ≤ told + c.unacked.length
  ends : c.replayPossible = true → c.pending <:+ c.unacked
  shaped : Shaped w c.todo
  flushed : flushed c.todo = true → c.pending = []
  awaited : ∀ n, awaited c.todo = some n → n = c.seq

/-- A client that has just begun has nothing on its books. -/
theorem Books.initial : Books w 0 ({} : OpClient β) where
  toNumbered := Numbered.initial
  unackedBytes := rfl
  pendingBytes := rfl
  held := fun _ => le_rfl
  ends := fun _ => List.suffix_rfl
  shaped := trivial
  flushed := nofun
  awaited := nofun

/-- The client is told more. -/
theorem Books.tell (hc : c.Books w told) {n : ℕ} (hn : told ≤ n) : c.Books w n :=
  { hc with held := fun h => (hc.held h).trans (Nat.add_le_add_right hn _) }

/-- Only the call in progress changes. -/
theorem Books.setTodo (hc : c.Books w told) (hd : d.Numbered) (hsame : d.queues = c.queues)
    (hshaped : Shaped w d.todo) (hflushed : OpClient.flushed d.todo = true → c.pending = [])
    (hawaited : ∀ n, OpClient.awaited d.todo = some n → n = c.seq) : d.Books w told := by
  simp only [queues, Prod.mk.injEq] at hsame
  obtain ⟨hseq, hpending, hpendingBytes, hunacked, hunackedBytes, hpossible⟩ := hsame
  refine ⟨hd, ?_, ?_, ?_, ?_, hshaped, ?_, ?_⟩
  · rw [hunackedBytes, hunacked]
    exact hc.unackedBytes
  · rw [hpendingBytes, hpending]
    exact hc.pendingBytes
  · rw [hpossible, hseq, hunacked]
    exact hc.held
  · rw [hpossible, hpending, hunacked]
    exact hc.ends
  · rw [hpending]
    exact hflushed
  · rw [hseq]
    exact hawaited

/-- An exception leaves the books. -/
theorem Books.raise (hc : c.Books w told) : c.raise.Books w told :=
  hc.setTodo hc.toNumbered.raise rfl trivial nofun nofun

/-- A message is numbered and queued. -/
theorem Books.commit (hc : c.Books w told) (hopening : c.opening = none) (b : β) (n : ℕ)
    {rest : List (OpInstr β)} (hshaped : Shaped w rest) (htail : ∀ i ∈ rest.tail, i ≠ OpInstr.replay)
    (hflushed : OpClient.flushed rest = false) (hawaited : OpClient.awaited rest = none) :
    Books w told { c.commit b n with todo := rest } := by
  have hnumbered : Numbered { c.commit b n with todo := rest } :=
    (hc.toNumbered.commit hopening b n).setTodo (by rw [opening_commit, hopening]) htail
  have hpendingBytes : (c.commit b n).pendingBytes = bytes (c.commit b n).pending := by
    rw [pending_commit, bytes_concat, ← hc.pendingBytes]
    unfold OpClient.commit
    dsimp only
    split <;> [split; skip] <;> rfl
  have hrest : (c.commit b n).unackedBytes = bytes (c.commit b n).unacked ∧
      ((c.commit b n).replayPossible = true → (c.commit b n).seq ≤ told + (c.commit b n).unacked.length ∧
        (c.commit b n).pending <:+ (c.commit b n).unacked) := by
    unfold OpClient.commit
    dsimp only
    split
    · rename_i hpossible
      split
      · exact ⟨rfl, nofun⟩
      · refine ⟨?_, fun _ => ⟨?_, ?_⟩⟩
        · rw [bytes_concat, hc.unackedBytes]
        · rw [List.length_append]
          exact Nat.add_le_add_right (hc.held hpossible) 1
        · obtain ⟨l, hl⟩ := hc.ends hpossible
          exact ⟨l, by rw [← List.append_assoc, hl]⟩
    · rename_i himpossible
      exact ⟨hc.unackedBytes, fun h => absurd h himpossible⟩
  exact ⟨hnumbered, hrest.1, hpendingBytes, fun h => (hrest.2 h).1, fun h => (hrest.2 h).2, hshaped,
    fun h => (nomatch hflushed.symm.trans h), fun n h => (nomatch hawaited.symm.trans h)⟩

/-- Messages are acknowledged, where nothing is to be written. -/
theorem Books.unackedBytes_trim (hc : c.Books w told) (n : ℕ) :
    (c.trim n).unackedBytes = bytes (c.trim n).unacked := by
  rw [unacked_trim, bytes_dropWhile, ← hc.unackedBytes]
  unfold OpClient.trim
  dsimp only
  split
  · rename_i hnil
    have h0 := bytes_dropWhile c.unacked fun e => e.message.seq ≤ n
    rw [hnil, bytes_nil, ← hc.unackedBytes] at h0
    exact h0
  · rfl

/-- What follows an instruction that is neither a flush nor a recovery nor a wait is none of what only these are
followed by. -/
theorem Follows.plain {i : OpInstr β} {rest : List (OpInstr β)} (h : Follows w i rest)
    (hi : (∃ b, i = .append b) ∨ (∃ b, i = .commit b) ∨ (∃ b, i = .queue b) ∨ i = .flushIfFull) :
    (∀ r, rest ≠ .await :: r) ∧ (∀ n r, rest ≠ .awaiting n :: r) ∧ (∀ b r, rest ≠ .commit b :: r) ∧
      ∀ r, rest ≠ .reconnect :: r := by
  refine ⟨fun r hr => ?_, fun n r hr => ?_, fun b r hr => ?_, h.reconnect⟩
  · have := h.await r hr
    rcases hi with ⟨b, rfl⟩ | ⟨b, rfl⟩ | ⟨b, rfl⟩ | rfl <;> simp at this
  · have := h.awaiting n r hr
    rcases hi with ⟨b, rfl⟩ | ⟨b, rfl⟩ | ⟨b, rfl⟩ | rfl <;> simp at this
  · have := h.commit b r hr
    rcases hi with ⟨b, rfl⟩ | ⟨b, rfl⟩ | ⟨b, rfl⟩ | rfl <;> simp at this

/-- Where none of these is next, the queues are as they may be. -/
theorem flushed_plain {rest : List (OpInstr β)} (hawait : ∀ r, rest ≠ .await :: r)
    (hawaiting : ∀ n r, rest ≠ .awaiting n :: r) (hreconnect : ∀ r, rest ≠ .reconnect :: r)
    (hreplay : ∀ i ∈ rest, i ≠ OpInstr.replay) :
    OpClient.flushed rest = false ∧ OpClient.awaited rest = none := by
  cases rest with
  | nil => exact ⟨rfl, rfl⟩
  | cons i rest =>
      cases i with
      | await => exact absurd rfl (hawait rest)
      | awaiting n => exact absurd rfl (hawaiting n rest)
      | reconnect => exact absurd rfl (hreconnect rest)
      | replay => exact absurd rfl (hreplay _ List.mem_cons_self)
      | _ => exact ⟨rfl, rfl⟩

/-- Where a number is waited for, the wait is next or a recovery is. -/
theorem awaiting_of_awaited {rest : List (OpInstr β)} {n : ℕ} (hreconnect : ∀ r, rest ≠ .reconnect :: r)
    (hreplay : ∀ i ∈ rest, i ≠ OpInstr.replay) (h : OpClient.awaited rest = some n) :
    ∃ r, rest = .awaiting n :: r := by
  unfold OpClient.awaited at h
  split at h
  · obtain rfl := Option.some.inj h
    exact ⟨_, rfl⟩
  · exact absurd rfl (hreconnect _)
  · exact absurd rfl (hreplay .replay List.mem_cons_self)
  · cases h

/-- **The next thing a call does** keeps the books. -/
theorem Books.next (hc : c.Books w told) (h : c.next w = some d) : d.Books w told := by
  obtain ⟨hd, hopening, -, -⟩ := hc.toNumbered.next h
  have hshaped := hc.shaped
  have htail := hc.tail
  unfold OpClient.next at h
  cases htodo : c.todo with
  | nil =>
      rw [htodo] at h
      cases h
  | cons i rest =>
      rw [htodo] at h hshaped htail
      rw [List.tail_cons] at htail
      obtain ⟨hfollows, hrest⟩ := hshaped
      -- `append` and `commit` end alike, with the message queued
      have hcommit : ∀ (b : β) (n : ℕ), (∃ b, i = .append b) ∨ (∃ b, i = .commit b) →
          d = { c.commit b n with todo := rest } → d.Books w told := by
        intro b n hi hd'
        have hplain := hfollows.plain (hi.elim .inl fun h => .inr (.inl h))
        obtain ⟨hflushed, hawaited⟩ := flushed_plain hplain.1 hplain.2.1 hplain.2.2.2 htail
        rw [hd']
        refine hc.commit ?_ b n hrest (fun j hj => htail j (List.mem_of_mem_tail hj)) hflushed hawaited
        rw [← opening_commit c b n]
        rw [hd'] at hopening
        exact hopening
      cases i with
      | queue b =>
          obtain rfl := Option.some.inj h
          refine hc.setTodo hd rfl ⟨⟨?_, ?_, ?_, hfollows.reconnect, fun b' hb' hack => ?_⟩, hrest⟩ nofun nofun
          · exact fun r hr => absurd hr ((hfollows.plain (.inr (.inr (.inl ⟨b, rfl⟩)))).1 r)
          · exact fun n r hr => absurd hr ((hfollows.plain (.inr (.inr (.inl ⟨b, rfl⟩)))).2.1 n r)
          · exact fun b r hr => absurd hr ((hfollows.plain (.inr (.inr (.inl ⟨_, rfl⟩)))).2.2.1 b r)
          · refine hfollows.ack b' (.inl ?_) hack
            rcases hb' with hb' | hb' <;> cases hb'
            rfl
      | append b =>
          dsimp only at h
          split at h
          · obtain rfl := Option.some.inj h
            exact hc.raise
          · split at h
            · -- an acknowledgement is asked for
              obtain rfl := Option.some.inj h
              obtain ⟨hawait, hawaiting, hcom, hrec⟩ := hfollows.plain (.inl ⟨b, rfl⟩)
              refine hc.setTodo hd rfl ?_ nofun nofun
              refine ⟨⟨nofun, nofun, nofun, nofun, fun _ _ _ => ⟨_, rfl⟩⟩,
                ⟨fun _ _ => .inl rfl, nofun, nofun, nofun, fun _ hb => ?_⟩,
                ⟨nofun, nofun, fun _ _ _ => .inl rfl, nofun, fun _ hb => ?_⟩,
                ⟨fun r hr => absurd hr (hawait r), fun n r hr => absurd hr (hawaiting n r),
                  fun b r hr => absurd hr (hcom b r), hrec, fun _ hb => ?_⟩, hrest⟩
              all_goals rcases hb with hb | hb <;> cases hb
            · exact hcommit b _ (.inl ⟨b, rfl⟩) (Option.some.inj h).symm
      | commit b =>
          dsimp only at h
          split at h
          · obtain rfl := Option.some.inj h
            exact hc.raise
          · exact hcommit b _ (.inr ⟨b, rfl⟩) (Option.some.inj h).symm
      | flushIfFull =>
          obtain ⟨hawait, hawaiting, hcom, hrec⟩ := hfollows.plain (.inr (.inr (.inr rfl)))
          dsimp only at h
          split at h
          · obtain rfl := Option.some.inj h
            refine hc.setTodo hd rfl ⟨⟨fun r hr => absurd hr (hawait r), fun n r hr => absurd hr (hawaiting n r),
              fun b r hr => absurd hr (hcom b r), hrec, fun _ hb => ?_⟩, hrest⟩ nofun nofun
            rcases hb with hb | hb <;> cases hb
          · obtain rfl := Option.some.inj h
            obtain ⟨hflushed, hawaited⟩ := flushed_plain hawait hawaiting hrec htail
            exact hc.setTodo hd rfl hrest (fun h => nomatch hflushed.symm.trans h)
              fun n h => nomatch hawaited.symm.trans h
      | flush =>
          dsimp only at h
          split at h
          · rename_i hpending
            obtain rfl := Option.some.inj h
            refine hc.setTodo hd rfl hrest (fun _ => hpending) fun n hn => ?_
            -- nothing was to be sent, so what was awaited is awaited still
            obtain ⟨r, hr⟩ := awaiting_of_awaited hfollows.reconnect htail hn
            simpa using hfollows.awaiting n r hr
          · cases h
      | await =>
          obtain rfl := Option.some.inj h
          have hpending : c.pending = [] := hc.flushed (by rw [htodo]; rfl)
          refine hc.setTodo hd rfl ⟨⟨fun r hr => ?_, fun n r hr => ?_, fun b r hr => .inr ⟨_, rfl⟩,
            hfollows.reconnect, fun _ hb => ?_⟩, hrest⟩ (fun _ => hpending) fun n hn => (Option.some.inj hn).symm
          · simpa using hfollows.await r hr
          · simpa using hfollows.awaiting n r hr
          · rcases hb with hb | hb <;> cases hb
      | awaiting n => cases h
      | reconnect => cases h
      | replay =>
          dsimp only at h
          split at h
          · obtain rfl := Option.some.inj h
            have hpending : c.pending = [] := hc.flushed (by rw [htodo]; rfl)
            refine hc.setTodo hd rfl hrest (fun _ => hpending) fun n hn => hc.awaited n ?_
            obtain ⟨r, rfl⟩ := awaiting_of_awaited hfollows.reconnect htail hn
            rw [htodo]
            rfl
          · cases h

/-- A recovery that no wait follows. -/
theorem recovering {rest : List (OpInstr β)} (h : ∀ n r, rest ≠ .awaiting n :: r) :
    OpClient.flushed (.reconnect :: rest) = false ∧ OpClient.awaited (.reconnect :: rest) = none := by
  cases rest with
  | nil => exact ⟨rfl, rfl⟩
  | cons i rest =>
      cases i with
      | awaiting n => exact absurd rfl (h n rest)
      | _ => exact ⟨rfl, rfl⟩

/-- **A connection breaks.** -/
theorem Books.broken (hc : c.Books w told) : c.broken.Books w told := by
  have hd := hc.toNumbered.broken.1
  have hshaped := hc.shaped
  unfold OpClient.broken at hd ⊢
  split
  · rename_i rest htodo
    rw [htodo] at hshaped hd
    obtain ⟨hfollows, hrest⟩ := hshaped
    dsimp only at hd
    split
    · rename_i hhad
      rw [if_pos hhad] at hd
      -- within `_flush` the recovery goes on with it; within `_await`, below, with the wait
      have hawaiting : ∀ n r, rest ≠ .awaiting n :: r := fun n r hr => by simpa using hfollows.awaiting n r hr
      refine hc.setTodo hd rfl ⟨⟨fun _ _ => .inr (.inl rfl), fun _ _ _ => .inl rfl, fun b r hr => ?_,
        hfollows.reconnect, fun _ hb => ?_⟩, hrest⟩ (fun h => ?_) fun n hn => ?_
      · simpa using hfollows.commit b r hr
      · rcases hb with hb | hb <;> cases hb
      · exact nomatch (recovering hawaiting).1.symm.trans h
      · exact nomatch (recovering hawaiting).2.symm.trans hn
    · exact hc.raise
  · rename_i seq rest htodo
    rw [htodo] at hshaped hd
    obtain ⟨hfollows, hrest⟩ := hshaped
    have hpending : c.pending = [] := hc.flushed (by rw [htodo]; rfl)
    refine hc.setTodo hd rfl ⟨⟨nofun, fun _ _ _ => .inl rfl, nofun, nofun, fun _ hb => ?_⟩, hfollows, hrest⟩
      (fun _ => hpending) fun n hn => hc.awaited n (by rw [htodo]; exact hn)
    rcases hb with hb | hb <;> cases hb
  · rename_i rest htodo
    rw [htodo] at hshaped hd
    obtain ⟨hfollows, hrest⟩ := hshaped
    have hpending : c.pending = [] := hc.flushed (by rw [htodo]; rfl)
    refine hc.setTodo hd rfl ⟨⟨fun _ _ => .inr (.inl rfl), fun _ _ _ => .inl rfl, fun b r hr => ?_,
      hfollows.reconnect, fun _ hb => ?_⟩, hrest⟩ (fun _ => hpending) fun n hn => hc.awaited n ?_
    · simpa using hfollows.commit b r hr
    · rcases hb with hb | hb <;> cases hb
    · rw [htodo]
      unfold OpClient.awaited at hn ⊢
      cases rest with
      | nil => exact hn
      | cons j rest => cases j <;> exact hn
  · rename_i htodo₁ htodo₂ htodo₃
    split at hd
    all_goals first | exact absurd ‹_› (htodo₁ _) | exact absurd ‹_› (htodo₂ _ _) | exact absurd ‹_› (htodo₃ _) | skip
    exact hc.setTodo hd rfl hshaped hc.flushed hc.awaited

/-- **A frame is sent.** -/
theorem Books.sent (hc : c.Books w told) (hsock : c.sock ≠ none) (hout : c.outgoing ≠ []) : c.sent.Books w told := by
  have hd := (hc.toNumbered.sent hsock hout).1
  have hshaped := hc.shaped
  have htail := hc.tail
  unfold outgoing at hout
  unfold OpClient.sent at hd ⊢
  split at hout
  · rename_i rest htodo
    rw [htodo] at hshaped htail hd ⊢
    obtain ⟨hfollows, hrest⟩ := hshaped
    refine ⟨hd, hc.unackedBytes, rfl, hc.held, fun _ => List.nil_suffix, hrest, fun _ => rfl, fun n hn => ?_⟩
    obtain ⟨r, hr⟩ := awaiting_of_awaited hfollows.reconnect htail hn
    simpa using hfollows.awaiting n r hr
  · rename_i rest htodo
    rw [htodo] at hshaped htail hd ⊢
    obtain ⟨hfollows, hrest⟩ := hshaped
    have hpending : c.pending = [] := hc.flushed (by rw [htodo]; rfl)
    refine hc.setTodo hd rfl hrest (fun _ => hpending) fun n hn => hc.awaited n ?_
    obtain ⟨r, hr⟩ := awaiting_of_awaited hfollows.reconnect htail hn
    have hr' : rest = .awaiting n :: r := hr
    rw [htodo, hr']
    rfl
  · exact absurd rfl hout

/-- What `_reconnect` makes of a handshake. -/
theorem Books.resume (hc : c.Books w told) {n : ℕ} (hn : n ≤ told) {rest : List (OpInstr β)}
    (htodo : c.todo = .reconnect :: rest) (hd : (c.resume n rest).Numbered) : (c.resume n rest).Books w told := by
  have hshaped := hc.shaped
  have htail := hc.tail
  rw [htodo] at hshaped htail
  obtain ⟨hfollows, hrest⟩ := hshaped
  unfold OpClient.resume at hd ⊢
  split
  · rename_i hlacks
    rw [if_pos hlacks] at hd
    exact hc.setTodo hd rfl trivial nofun nofun
  · rename_i hlacks
    rw [if_neg hlacks] at hd
    refine ⟨hd, hc.unackedBytes_trim n, rfl, fun _ => ?_, fun _ => List.nil_suffix, ⟨⟨?_, ?_, ?_, ?_, ?_⟩, hrest⟩,
      fun _ => rfl, fun m hm => ?_⟩
    · rw [show _ = _ from seq_trim c n]
      exact (hc.toNumbered.le_unacked hlacks).trans (Nat.add_le_add_right hn _)
    · exact fun _ _ => .inr (.inr rfl)
    · exact fun _ _ _ => .inr rfl
    · exact fun b r hr => by simpa using hfollows.commit b r hr
    · exact hfollows.reconnect
    · intro b hb
      rcases hb with hb | hb <;> cases hb
    · rw [show _ = _ from seq_trim c n]
      refine hc.awaited m ?_
      rw [htodo]
      cases rest with
      | nil => exact hm
      | cons j rest => cases j <;> exact hm

/-- **A handshake is read.** -/
theorem Books.shaken (hc : c.Books w told) {k : OpConnId} (hopening : c.opening = some k) (resumed : Bool) {n : ℕ}
    (hn : n ≤ told) : (c.shaken k resumed n).Books w told := by
  have hd := (hc.toNumbered.shaken hopening resumed n).1
  unfold OpClient.shaken at hd ⊢
  by_cases hlost : c.hadSession = true ∧ resumed = false
  · rw [if_pos hlost]
    exact hc.raise
  · rw [if_neg hlost] at hd ⊢
    dsimp only at hd ⊢
    split
    · rename_i rest htodo
      have hd' := ((hc.toNumbered.accept k).resume rfl rfl htodo n).1
      have haccept : Books w told { c with sock := some k, hadSession := true, opening := none, accepted := some k } :=
        hc.setTodo (hc.toNumbered.accept k) rfl hc.shaped hc.flushed hc.awaited
      exact haccept.resume hn htodo hd'
    · rename_i hnot
      split at hd
      · exact absurd ‹_› (hnot _)
      · exact hc.setTodo hd rfl hc.shaped hc.flushed hc.awaited

/-- A reply acknowledges everything there is. -/
theorem Books.unacked_receive (hc : c.Books w told) {seq n : ℕ} {rest : List (OpInstr β)}
    (htodo : c.todo = .awaiting seq :: rest) (hn : seq ≤ n) : c.unacked.dropWhile (fun e => e.message.seq ≤ n) = [] := by
  rw [List.dropWhile_eq_nil_iff]
  intro e he
  have hseq : seq = c.seq := hc.awaited seq (by rw [htodo]; rfl)
  have hle := hc.unacked.le (List.mem_map_of_mem he)
  exact decide_eq_true (hle.trans (hseq ▸ hn))

/-- Where the server has everything, nothing is kept, and replay is possible again. -/
theorem trim_of_dropWhile_eq_nil {n : ℕ} (h : c.unacked.dropWhile (fun e => e.message.seq ≤ n) = []) :
    c.trim n = { c with unacked := [], unackedBytes := 0, replayPossible := true } := by
  unfold OpClient.trim
  dsimp only
  rw [if_pos h]

/-- **A reply is read.** -/
theorem Books.receive (hc : c.Books w told) {seq : ℕ} {rest : List (OpInstr β)} (htodo : c.todo = .awaiting seq :: rest)
    {r : OpReply ρ} (hr : r.seq ≤ told) : (c.receive w seq rest r).Books w told := by
  have hd := (hc.toNumbered.receive (w := w) htodo r).1
  have hshaped := hc.shaped
  have htail := hc.tail
  rw [htodo] at hshaped htail
  obtain ⟨hfollows, hrest⟩ := hshaped
  have hpending : c.pending = [] := hc.flushed (by rw [htodo]; rfl)
  have hseq : seq = c.seq := hc.awaited seq (by rw [htodo]; rfl)
  unfold OpClient.receive at hd ⊢
  split
  · exact hc
  · rename_i hold
    rw [if_neg hold] at hd
    dsimp only at hd ⊢
    have htrim := trim_of_dropWhile_eq_nil (c := { c with lastAcked := r.seq, answered := c.answered ++ [seq] })
      (hc.unacked_receive htodo (not_lt.mp hold))
    rw [htrim] at hd ⊢
    have htold : c.seq ≤ told := by omega
    split
    · rename_i hfailed
      rw [if_pos hfailed] at hd
      exact ⟨hd, rfl, hc.pendingBytes, fun _ => htold, fun _ => by rw [OpClient.raise, hpending], trivial, nofun, nofun⟩
    · rename_i hfailed
      rw [if_neg hfailed] at hd
      refine ⟨hd, rfl, hc.pendingBytes, fun _ => htold, fun _ => by rw [hpending], hrest, fun _ => hpending, fun n hn => ?_⟩
      obtain ⟨r, hr⟩ := awaiting_of_awaited hfollows.reconnect htail hn
      simpa using hfollows.awaiting n r hr

/-- **A move** keeps the books. -/
theorem Books.act (hc : c.Books w told) {a : OpClientAction β ρ} (ha : Ordinary w a)
    (h : c.act w a = some d) : d.Books w (max told a.tells) := by
  replace hc := hc.tell (le_max_left told a.tells)
  have hidle : c.todo = [] → c.opening = none := fun htodo =>
    hc.toNumbered.opening_eq_none (by unfold atDial; rw [htodo])
  cases OpClient.Acts.of_act h with
  | post htodo =>
      refine hc.setTodo (hc.toNumbered.setTodo (hidle htodo) (by simp)) rfl ⟨⟨nofun, nofun, nofun, nofun, ?_⟩,
        ⟨nofun, nofun, nofun, nofun, nofun⟩, trivial⟩ nofun nofun
      intro b' hb' hack
      rcases hb' with hb' | hb' <;> cases hb'
      exact nomatch ha.symm.trans hack
  | request htodo =>
      refine hc.setTodo (hc.toNumbered.setTodo (hidle htodo) (by simp)) rfl ⟨⟨nofun, nofun, nofun, nofun, ?_⟩,
        ⟨fun _ _ => .inl rfl, nofun, nofun, nofun, nofun⟩, ⟨nofun, nofun, nofun, nofun, nofun⟩, trivial⟩ nofun nofun
      intro b' hb' hack
      rcases hb' with hb' | hb' <;> cases hb'
      exact nomatch ha.symm.trans hack
  | flush htodo =>
      exact hc.setTodo (hc.toNumbered.setTodo (hidle htodo) (by simp)) rfl
        ⟨⟨nofun, nofun, nofun, nofun, nofun⟩, trivial⟩ nofun nofun
  | free htodo =>
      have hopening : c.opening = none := hc.toNumbered.opening_eq_none (by unfold atDial; rw [htodo])
      have htail := hc.tail
      rw [htodo, List.tail_cons] at htail
      have hshaped := hc.shaped
      rw [htodo] at hshaped ⊢
      refine hc.setTodo (hc.toNumbered.setTodo hopening ?_) rfl ⟨⟨nofun, nofun, nofun, nofun, ?_⟩, hshaped⟩ nofun nofun
      · simpa using htail
      · intro b' hb' hack
        rcases hb' with hb' | hb' <;> cases hb'
        exact nomatch ha.symm.trans hack
  | next h => exact hc.next h
  | dial hdials =>
      refine hc.setTodo ⟨hc.pending, hc.unacked, hc.dropped, hc.fresh, fun _ => ⟨hdials.1, ?_⟩, hc.tail⟩ rfl
        hc.shaped hc.flushed hc.awaited
      have hhead := hdials.2.2
      unfold atDial
      split at hhead
      · rename_i htodo
        simp only [htodo]
        simpa using hhead
      · rename_i htodo
        simp only [htodo]
      · exact hhead.elim
  | shake hk => exact hc.shaken hk _ (le_max_right _ _)
  | refuse | giveUp => exact hc.raise
  | sent hsock hout => exact hc.sent hsock hout
  | unsent | fail => exact hc.broken
  | receive htodo => exact hc.receive htodo (le_max_right _ _)

/-! ### Room for more -/

/-- A message is at most `REPLAY_ACK_AT` bytes when encoded. -/
def Short (w : OpConfig β ρ) (b : β) : Prop := ∀ n k, w.size n b = some k → k ≤ replayAckAt

/-- A message that is queued: an acknowledgement, or one that is short. -/
def Asked (w : OpConfig β ρ) (b : β) : Prop := b = w.ack ∨ w.isAck b = false ∧ Short w b

/-- The messages that a call is still to queue. -/
def toQueue : OpInstr β → Option β
  | .queue b | .append b | .commit b => some b
  | _ => none

/-- **Room**: the replay is possible, and what is held is bounded by what it may be where an acknowledgement is
being waited for, and by less elsewhere. -/
structure Room (w : OpConfig β ρ) (c : OpClient β) : Prop where
  possible : c.replayPossible = true
  bytes : c.unackedBytes ≤ if settling c.todo then maxUnacked else replayAckAt
  emptied : ∀ b rest, c.todo = .commit b :: rest → c.unacked = []
  short : ∀ i ∈ c.todo, ∀ b, toQueue i = some b → Asked w b

/-- What the client is asked to queue is short, and no attempt to reach the server is given up: neither at the
first connection nor in a recovery. -/
def Connected (w : OpConfig β ρ) (c : OpClient β) : OpClientAction β ρ → Prop
  | .post b | .request b | .free b => w.isAck b = false ∧ Short w b
  | .refuse | .giveUp => False
  | .fail => c.hadSession = true
  | .shake resumed n => ¬(c.hadSession = true ∧ resumed = false) ∧
      ∀ rest, c.todo = .reconnect :: rest → ¬(n < c.seq ∧ c.lacks n = true)
  | _ => True

/-- A connected client's actions are ordinary. -/
theorem Connected.ordinary {a : OpClientAction β ρ} (h : Connected w c a) : Ordinary w a := by
  cases a with
  | post b => exact h.1
  | request b => exact h.1
  | free b => exact h.1
  | _ => trivial

/-- An acknowledgement is small. -/
structure AckFits (w : OpConfig β ρ) : Prop where
  isAck : w.isAck w.ack = true
  room : ∀ n k, w.size n w.ack = some k → replayAckAt + k ≤ maxUnacked

/-- The client asks for an acknowledgement before its buffer is full. -/
theorem replayAckAt_le : replayAckAt ≤ maxUnacked := by decide

/-- There is room at first. -/
theorem Room.initial : Room w ({} : OpClient β) where
  possible := rfl
  bytes := Nat.zero_le _
  emptied := nofun
  short := nofun

/-- Where a wait is due, more may be held. -/
theorem bound_mono {todo todo' : List (OpInstr β)} (h : settling todo = true → settling todo' = true) :
    (if settling todo then maxUnacked else replayAckAt) ≤ if settling todo' then maxUnacked else replayAckAt := by
  by_cases hsettling : settling todo = true
  · rw [if_pos hsettling, if_pos (h hsettling)]
  · rw [if_neg hsettling]
    split
    · exact replayAckAt_le
    · exact le_rfl

/-- What is left of the call changes, to something that is to wait if it was. -/
theorem Room.setTodo (hc : c.Room w) (hsame : d.queues = c.queues)
    (hsettling : settling c.todo = true → settling d.todo = true)
    (hemptied : ∀ b rest, d.todo ≠ .commit b :: rest)
    (hshort : ∀ i ∈ d.todo, ∀ b, toQueue i = some b → Asked w b) : d.Room w := by
  simp only [queues, Prod.mk.injEq] at hsame
  obtain ⟨-, -, -, -, hunackedBytes, hpossible⟩ := hsame
  refine ⟨hpossible.trans hc.possible, ?_, fun b rest h => absurd h (hemptied b rest), hshort⟩
  rw [hunackedBytes]
  exact hc.bytes.trans (bound_mono hsettling)

/-- A call that is left before it waits. -/
theorem Room.raise (hc : c.Room w) (hsettling : settling c.todo = false) : c.raise.Room w :=
  hc.setTodo rfl (fun h => (nomatch hsettling.symm.trans h)) nofun nofun

/-- A message is numbered and queued, where there is room. -/
theorem Room.commit (hc : c.Room w) {b : β} {n : ℕ} {rest : List (OpInstr β)}
    (hroom : c.unackedBytes + n ≤ if settling rest then maxUnacked else replayAckAt)
    (hemptied : ∀ b r, rest ≠ .commit b :: r) (hshort : ∀ i ∈ rest, ∀ b, toQueue i = some b → Asked w b) :
    Room w { c.commit b n with todo := rest } := by
  have hmax : ¬ maxUnacked < c.unackedBytes + n := by
    have := replayAckAt_le
    split at hroom <;> omega
  unfold OpClient.commit
  dsimp only
  rw [if_pos hc.possible, if_neg hmax]
  exact ⟨hc.possible, hroom, fun b r h => absurd h (hemptied b r), hshort⟩

/-- A client that waits is about to settle. -/
theorem settling_of_waits {todo : List (OpInstr β)} (h : waits todo = true) : settling todo = true := by
  cases todo with
  | nil => exact h
  | cons i rest => cases i <;> first | exact h | cases h

/-- What a message adds stays within the bound. -/
theorem Room.fits (hc : c.Room w) (hb : c.Books w told) (hw : AckFits w) {b : β} {n k : ℕ}
    (hsettling : settling c.todo = false) (hshort : Asked w b) (hsize : w.size n b = some k)
    (hbound : w.isAck b = false → c.unacked ≠ [] → c.unackedBytes + k ≤ replayAckAt) :
    c.unackedBytes + k ≤ if w.isAck b then maxUnacked else replayAckAt := by
  have hbytes := hc.bytes
  rw [hsettling, if_neg Bool.false_ne_true] at hbytes
  cases hack : w.isAck b with
  | true =>
      rw [if_pos rfl]
      rcases hshort with rfl | ⟨hnot, -⟩
      · have := hw.room n k hsize
        omega
      · exact nomatch hnot.symm.trans hack
  | false =>
      rw [if_neg Bool.false_ne_true]
      by_cases hnil : c.unacked = []
      · rw [hb.unackedBytes, hnil, bytes_nil, Nat.zero_add]
        rcases hshort with rfl | ⟨-, hshort⟩
        · exact nomatch hack.symm.trans hw.isAck
        · exact hshort n k hsize
      · exact hbound hack hnil

/-- **The next thing a call does** keeps the room. -/
theorem Room.next (hc : c.Room w) (hb : c.Books w told) (hw : AckFits w) (h : c.next w = some d) : d.Room w := by
  have hshaped := hb.shaped
  unfold OpClient.next at h
  cases htodo : c.todo with
  | nil =>
      rw [htodo] at h
      cases h
  | cons i rest =>
      rw [htodo] at h hshaped
      obtain ⟨hfollows, hrest⟩ := hshaped
      have hshort : ∀ j ∈ rest, ∀ b, toQueue j = some b → Asked w b := fun j hj =>
        hc.short j (htodo ▸ List.mem_cons_of_mem i hj)
      have hhead : ∀ b, toQueue i = some b → Asked w b := hc.short i (htodo ▸ List.mem_cons_self)
      cases i with
      | queue b =>
          obtain rfl := Option.some.inj h
          refine hc.setTodo rfl (by rw [htodo]; rintro ⟨⟩) (by rintro _ _ ⟨⟩) fun j hj b' hb' => ?_
          rcases List.mem_cons.mp hj with rfl | hj
          · exact hhead b' hb'
          · exact hshort j hj b' hb'
      | append b =>
          have hplain := hfollows.plain (.inl ⟨b, rfl⟩)
          have hsettling : settling c.todo = false := by rw [htodo]; rfl
          dsimp only at h
          split at h
          · obtain rfl := Option.some.inj h
            exact hc.raise hsettling
          · rename_i n hsize
            split at h
            · obtain rfl := Option.some.inj h
              -- no room: the message waits behind an acknowledgement, its own flush and its own wait
              refine hc.setTodo rfl (by rw [hsettling]; rintro ⟨⟩) (by rintro _ _ ⟨⟩) fun j hj b' hb' => ?_
              simp only [List.mem_cons] at hj
              rcases hj with rfl | rfl | rfl | rfl | hj
              · obtain rfl := Option.some.inj hb'
                exact .inl rfl
              · cases hb'
              · cases hb'
              · exact hhead b' hb'
              · exact hshort j hj b' hb'
            · rename_i hroom
              obtain rfl := Option.some.inj h
              -- it is queued as it is, since it fits or nothing else is held
              have hfits := hc.fits hb hw hsettling (hhead b rfl) hsize fun hack hne => by
                simpa [hack, hc.possible, hne] using hroom
              refine hc.commit (hfits.trans ?_) hplain.2.2.1 hshort
              have := replayAckAt_le
              cases hack : w.isAck b with
              | true =>
                  obtain ⟨r, rfl⟩ := hfollows.ack b (.inr rfl) hack
                  exact le_rfl
              | false =>
                  rw [if_neg Bool.false_ne_true]
                  split
                  · assumption
                  · exact le_rfl
      | commit b =>
          have hplain := hfollows.plain (.inr (.inl ⟨b, rfl⟩))
          have hsettling : settling c.todo = false := by rw [htodo]; rfl
          have hnil := hc.emptied b rest htodo
          dsimp only at h
          split at h
          · obtain rfl := Option.some.inj h
            exact hc.raise hsettling
          · rename_i n hsize
            obtain rfl := Option.some.inj h
            -- the acknowledgement has emptied what was held, so the message is all there is
            refine hc.commit ?_ hplain.2.2.1 hshort
            rw [hb.unackedBytes, hnil, bytes_nil, Nat.zero_add]
            have hn : n ≤ replayAckAt := by
              rcases hhead b rfl with rfl | ⟨-, hshort⟩
              · have := hw.room _ n hsize
                have : maxUnacked - replayAckAt ≤ replayAckAt := by decide
                omega
              · exact hshort _ n hsize
            have := replayAckAt_le
            split
            · exact hn.trans this
            · exact hn
      | flushIfFull =>
          have hplain := hfollows.plain (.inr (.inr (.inr rfl)))
          dsimp only at h
          split at h
          · obtain rfl := Option.some.inj h
            refine hc.setTodo rfl (by rw [htodo]; rintro ⟨⟩) (by rintro _ _ ⟨⟩) fun j hj b' hb' => ?_
            rcases List.mem_cons.mp hj with rfl | hj
            · cases hb'
            · exact hshort j hj b' hb'
          · obtain rfl := Option.some.inj h
            exact hc.setTodo rfl (by rw [htodo]; rintro ⟨⟩) hplain.2.2.1 hshort
      | flush =>
          dsimp only at h
          split at h
          · obtain rfl := Option.some.inj h
            refine hc.setTodo rfl (by rw [htodo]; exact settling_of_waits) (fun b r hr => ?_) hshort
            simpa using hfollows.commit b r hr
          · cases h
      | await =>
          obtain rfl := Option.some.inj h
          refine hc.setTodo rfl (fun _ => rfl) (by rintro _ _ ⟨⟩) fun j hj b' hb' => ?_
          rcases List.mem_cons.mp hj with rfl | hj
          · cases hb'
          · exact hshort j hj b' hb'
      | awaiting n => cases h
      | reconnect => cases h
      | replay =>
          dsimp only at h
          split at h
          · obtain rfl := Option.some.inj h
            refine hc.setTodo rfl (by rw [htodo]; exact settling_of_waits) (fun b r hr => ?_) hshort
            simpa using hfollows.commit b r hr
          · cases h

/-- **A connection breaks** and is not given up. -/
theorem Room.broken (hc : c.Room w) (hhad : c.hadSession = true) : c.broken.Room w := by
  have hkeep : ∀ {todo : List (OpInstr β)}, (∀ j ∈ todo, j = .reconnect ∨ j ∈ c.todo) →
      ∀ j ∈ todo, ∀ b, toQueue j = some b → Asked w b := by
    intro todo hsub j hj b hb
    rcases hsub j hj with rfl | hj
    · cases hb
    · exact hc.short j hj b hb
  unfold OpClient.broken
  split
  · rename_i rest htodo
    rw [if_pos hhad]
    refine hc.setTodo rfl (by rw [htodo]; exact id) (by rintro _ _ ⟨⟩) (hkeep fun j hj => ?_)
    rw [htodo]
    simp only [List.mem_cons] at hj ⊢
    exact hj.imp_right .inr
  · rename_i seq rest htodo
    refine hc.setTodo rfl (fun _ => rfl) (by rintro _ _ ⟨⟩) (hkeep fun j hj => ?_)
    rw [htodo]
    exact List.mem_cons.mp hj
  · rename_i rest htodo
    refine hc.setTodo rfl (by rw [htodo]; exact id) (by rintro _ _ ⟨⟩) (hkeep fun j hj => ?_)
    rw [htodo]
    simp only [List.mem_cons] at hj ⊢
    exact hj.imp_right .inr
  · exact ⟨hc.possible, hc.bytes, hc.emptied, hc.short⟩

/-- **A frame is sent.** -/
theorem Room.sent (hc : c.Room w) (hb : c.Books w told) (hout : c.outgoing ≠ []) : c.sent.Room w := by
  have hshaped := hb.shaped
  have hshort := hc.short
  unfold outgoing at hout
  unfold OpClient.sent
  split at hout
  · rename_i rest htodo
    rw [htodo] at hshaped hshort ⊢
    have hcommit : ∀ b r, rest ≠ .commit b :: r := fun b r hr => by simpa using hshaped.1.commit b r hr
    refine ⟨hc.possible, hc.bytes.trans (bound_mono ?_), fun b r h => absurd h (hcommit b r),
      fun j hj => hshort j (List.mem_cons_of_mem _ hj)⟩
    rw [htodo]
    exact settling_of_waits
  · rename_i rest htodo
    rw [htodo] at hshaped hshort ⊢
    have hcommit : ∀ b r, rest ≠ .commit b :: r := fun b r hr => by simpa using hshaped.1.commit b r hr
    exact hc.setTodo rfl (by rw [htodo]; exact settling_of_waits) hcommit
      fun j hj => hshort j (List.mem_cons_of_mem _ hj)
  · exact absurd rfl hout

/-- `_reconnect` goes on, with what has not arrived still held. -/
theorem Room.resume (hc : c.Room w) {n : ℕ} {rest : List (OpInstr β)} (htodo : c.todo = .reconnect :: rest)
    (hlacks : ¬(n < c.seq ∧ c.lacks n = true)) : (c.resume n rest).Room w := by
  have hbytes := hc.bytes
  have hshort := hc.short
  rw [htodo] at hbytes hshort
  unfold OpClient.resume
  rw [if_neg hlacks]
  refine ⟨?_, le_trans ?_ hbytes, nofun, fun j hj => ?_⟩
  · unfold OpClient.trim
    dsimp only
    split
    · rfl
    · exact hc.possible
  · unfold OpClient.trim
    dsimp only
    split
    · exact Nat.zero_le _
    · exact Nat.sub_le _ _
  · rcases List.mem_cons.mp hj with rfl | hj
    · exact nofun
    · exact hshort j (List.mem_cons_of_mem _ hj)

/-- **A handshake is read**, and what has not arrived can be replayed. -/
theorem Room.shaken (hc : c.Room w) {k : OpConnId} {resumed : Bool} {n : ℕ}
    (hheld : ¬(c.hadSession = true ∧ resumed = false) ∧
      ∀ rest, c.todo = .reconnect :: rest → ¬(n < c.seq ∧ c.lacks n = true)) : (c.shaken k resumed n).Room w := by
  unfold OpClient.shaken
  rw [if_neg hheld.1]
  have haccept : Room w { c with sock := some k, hadSession := true, opening := none, accepted := some k } :=
    ⟨hc.possible, hc.bytes, hc.emptied, hc.short⟩
  dsimp only
  split
  · rename_i rest htodo
    exact haccept.resume htodo (hheld.2 rest htodo)
  · exact haccept

/-- **A reply is read**: nothing is held any more. -/
theorem Room.receive (hc : c.Room w) (hb : c.Books w told) {seq : ℕ} {rest : List (OpInstr β)}
    (htodo : c.todo = .awaiting seq :: rest) (r : OpReply ρ) : (c.receive w seq rest r).Room w := by
  unfold OpClient.receive
  split
  · exact hc
  · rename_i hold
    have htrim := trim_of_dropWhile_eq_nil (c := { c with lastAcked := r.seq, answered := c.answered ++ [seq] })
      (hb.unacked_receive htodo (not_lt.mp hold))
    dsimp only
    rw [htrim]
    split
    · exact ⟨rfl, Nat.zero_le _, nofun, nofun⟩
    · refine ⟨rfl, Nat.zero_le _, fun _ _ _ => rfl, fun j hj => hc.short j ?_⟩
      rw [htodo]
      exact List.mem_cons_of_mem _ hj

/-- **A move** keeps the room, as long as the server is reached in the end. -/
theorem Room.act (hc : c.Room w) (hb : c.Books w told) (hw : AckFits w) {a : OpClientAction β ρ}
    (ha : Connected w c a) (h : c.act w a = some d) : d.Room w := by
  cases OpClient.Acts.of_act h with
  | post htodo =>
      refine hc.setTodo rfl (by rw [htodo]; rintro ⟨⟩) (by rintro _ _ ⟨⟩) fun j hj b' hb' => ?_
      simp only [List.mem_cons, List.not_mem_nil, or_false] at hj
      rcases hj with rfl | rfl <;> cases hb'
      exact .inr ha
  | request htodo =>
      refine hc.setTodo rfl (by rw [htodo]; rintro ⟨⟩) (by rintro _ _ ⟨⟩) fun j hj b' hb' => ?_
      simp only [List.mem_cons, List.not_mem_nil, or_false] at hj
      rcases hj with rfl | rfl | rfl <;> cases hb'
      exact .inr ha
  | flush htodo =>
      refine hc.setTodo rfl (by rw [htodo]; rintro ⟨⟩) (by rintro _ _ ⟨⟩) fun j hj b' hb' => ?_
      rw [List.mem_singleton.mp hj] at hb'
      cases hb'
  | free htodo =>
      refine hc.setTodo rfl (by rw [htodo]; rintro ⟨⟩) (by rintro _ _ ⟨⟩) fun j hj b' hb' => ?_
      rcases List.mem_cons.mp hj with rfl | hj
      · obtain rfl := Option.some.inj hb'
        exact .inr ha
      · exact hc.short j hj b' hb'
  | next h => exact hc.next hb hw h
  | dial => exact ⟨hc.possible, hc.bytes, hc.emptied, hc.short⟩
  | shake => exact hc.shaken ha
  | refuse | giveUp => exact ha.elim
  | sent _ hout => exact hc.sent hb hout
  | unsent hsock => exact hc.broken (Bool.eq_true_of_not_eq_false fun hhad => hsock (hb.fresh hhad).2)
  | receive htodo => exact hc.receive hb htodo _
  | fail => exact hc.broken ha

/-! ### What is refused -/

/-- What is appended in the end was encoded before. -/
def Encoded (w : OpConfig β ρ) (c : OpClient β) : Prop :=
  ∀ b, OpInstr.commit b ∈ c.todo → ∃ n k, w.size n b = some k

/-- What is committed being encoded depends only on which messages are to be committed. -/
theorem Encoded.sub (hc : Encoded w c) (h : ∀ b, OpInstr.commit b ∈ d.todo → OpInstr.commit b ∈ c.todo) :
    Encoded w d := fun b hb => hc b (h b hb)

/-- The client commits what it has encoded. -/
theorem Encoded.next (hc : Encoded w c) (h : c.next w = some d) : Encoded w d := by
  unfold OpClient.next at h
  cases htodo : c.todo with
  | nil =>
      rw [htodo] at h
      cases h
  | cons i rest =>
      rw [htodo] at h
      cases i with
      | append b =>
          dsimp only at h
          split at h
          · obtain rfl := Option.some.inj h
            exact hc.sub fun _ => nofun
          · rename_i n hsize
            split at h
            · obtain rfl := Option.some.inj h
              intro b' hb'
              simp only [List.mem_cons, reduceCtorEq, false_or, OpInstr.commit.injEq] at hb'
              rcases hb' with rfl | hb'
              · exact ⟨_, n, hsize⟩
              · exact hc b' (by rw [htodo]; exact List.mem_cons_of_mem _ hb')
            · obtain rfl := Option.some.inj h
              exact hc.sub fun b' hb' => by rw [htodo]; exact List.mem_cons_of_mem _ hb'
      | commit b =>
          dsimp only at h
          split at h <;> obtain rfl := Option.some.inj h
          · exact hc.sub fun _ => nofun
          · exact hc.sub fun b' hb' => by rw [htodo]; exact List.mem_cons_of_mem _ hb'
      | _ =>
          dsimp only at h
          first | (split at h) | skip
          all_goals cases h
          all_goals refine hc.sub fun b' hb' => ?_
          all_goals rw [htodo]
          all_goals simpa using hb'

/-- The client's other actions commit what it has encoded. -/
theorem Encoded.act (hc : Encoded w c) {a : OpClientAction β ρ} (h : c.act w a = some d) :
    Encoded w d := by
  -- what a connection that breaks leaves to do has no message in it that was not there
  have hbroken : Encoded w c.broken := hc.sub fun b hb => by
    unfold OpClient.broken at hb
    split at hb
    · rename_i rest htodo
      rw [htodo]
      split at hb
      · simpa using hb
      · cases hb
    · rename_i seq rest htodo
      rw [htodo]
      simpa using hb
    · rename_i rest htodo
      rw [htodo]
      simpa using hb
    · exact hb
  cases OpClient.Acts.of_act h with
  | next h => exact hc.next h
  | shake hopening =>
      refine hc.sub fun b hb => ?_
      unfold OpClient.shaken at hb
      split at hb
      · cases hb
      · dsimp only at hb
        split at hb
        · rename_i rest htodo
          unfold OpClient.resume at hb
          rw [htodo]
          split at hb
          · cases hb
          · simpa using hb
        · exact hb
  | sent =>
      refine hc.sub fun b hb => ?_
      unfold OpClient.sent at hb
      split at hb
      · rename_i rest htodo
        rw [htodo]
        exact List.mem_cons_of_mem _ hb
      · exact List.mem_of_mem_tail hb
  | unsent | fail => exact hbroken
  | receive htodo =>
      refine hc.sub fun b hb => ?_
      unfold OpClient.receive at hb
      split at hb
      · exact hb
      · dsimp only at hb
        split at hb
        · cases hb
        · rw [htodo]
          exact List.mem_cons_of_mem _ hb
  | post | request | flush => exact hc.sub fun b' hb' => by simp at hb'
  | free => exact hc.sub fun b' hb' => by simpa using hb'
  | dial => exact hc.sub fun b' hb' => hb'
  | refuse | giveUp => exact hc.sub fun b' => nofun

end OpClient

/-! ### The codec of `wire.py` -/

/-- A message body: its kind and fields. -/
abbrev WireBody := ℕ × List PyWire.Value

namespace WireBody

/-- `wire.FREE` -/
def free : ℕ := 5

/-- `wire.ACK` -/
def ack : ℕ := 10

/-- `wire.encode_element([seq, kind, *fields])` -/
def encode (seq : ℕ) (b : WireBody) : Except PyWire.EncodeFailure PyWire.Bytes :=
  PyWire.encodeElement (.list (.int seq :: .int b.1 :: b.2))

/-- The length of a message, unless it is refused. -/
def size (seq : ℕ) (b : WireBody) : Option ℕ := (encode seq b).toOption.map List.length

/-- A message can be encoded if its list header, its number and its parts can. -/
theorem encode_ok_iff {seq : ℕ} {b : WireBody} {bs : PyWire.Bytes} :
    encode seq b = .ok bs ↔ ∃ h r, PyWire.listHeader (b.2.length + 2) = .ok h ∧ seq < 2 ^ 63 ∧
      PyWire.Value.encs 2 (.int b.1 :: b.2) = .ok r ∧
      bs = h ++ (PyWire.tag 'I' ++ LittleEndian.bytes 8 ((seq : ℤ) % 2 ^ 64).toNat ++ r) := by
  have hint : seq < 2 ^ 63 → PyWire.Value.enc 2 (.int seq) =
      .ok (PyWire.tag 'I' ++ LittleEndian.bytes 8 ((seq : ℤ) % 2 ^ 64).toNat) := by
    intro hseq
    rw [PyWire.Value.enc, PyWire.atDepth, if_neg (by decide), PyWire.encInt, if_pos (by omega)]
  rw [encode, PyWire.encodeElement, PyWire.Value.enc, PyWire.atDepth, if_neg (by decide), List.length_cons,
    List.length_cons]
  constructor
  · intro h
    obtain ⟨hd, hheader, h⟩ := PyWire.ok_of_bind h
    obtain ⟨b', hencs, h⟩ := PyWire.ok_of_bind h
    rw [PyWire.Value.encs] at hencs
    obtain ⟨a, ha, hencs⟩ := PyWire.ok_of_bind hencs
    obtain ⟨r, hr, hencs⟩ := PyWire.ok_of_bind hencs
    -- a number that does not fit is refused
    have hseq : seq < 2 ^ 63 := by
      rw [PyWire.Value.enc, PyWire.atDepth, if_neg (by decide), PyWire.encInt] at ha
      split at ha
      · omega
      · cases ha
    rw [hint hseq] at ha
    cases ha
    cases hencs
    cases h
    exact ⟨hd, r, hheader, hseq, hr, rfl⟩
  · rintro ⟨hd, r, hheader, hseq, hr, rfl⟩
    have hencs : PyWire.Value.encs 2 (.int seq :: .int b.1 :: b.2) =
        .ok (PyWire.tag 'I' ++ LittleEndian.bytes 8 ((seq : ℤ) % 2 ^ 64).toNat ++ r) := by
      rw [PyWire.Value.encs, PyWire.bind_of_ok (hint hseq), PyWire.bind_of_ok hr]
      rfl
    rw [PyWire.bind_of_ok hheader, PyWire.bind_of_ok hencs]
    rfl

/-- Whether a message is refused does not depend on its number, as long as that fits. -/
theorem size_of_size {n n' k : ℕ} {b : WireBody} (h : size n b = some k) (hn : n' < 2 ^ 63) : size n' b ≠ none := by
  obtain ⟨bs, hbs, -⟩ := Option.map_eq_some_iff.mp h
  cases hencode : encode n b with
  | error e =>
      rw [hencode] at hbs
      cases hbs
  | ok bs' =>
      obtain ⟨hd, r, hheader, -, hrest, -⟩ := encode_ok_iff.mp hencode
      rw [size, encode_ok_iff.mpr ⟨hd, r, hheader, hn, hrest, rfl⟩]
      exact Option.some_ne_none _

/-- An acknowledgement asked for is a list of two numbers. -/
theorem size_ack {n k : ℕ} (h : size n (ack, []) = some k) : k = 23 := by
  obtain ⟨bs, hbs, rfl⟩ := Option.map_eq_some_iff.mp h
  cases hencode : encode n (ack, []) with
  | error e =>
      rw [hencode] at hbs
      cases hbs
  | ok bs' =>
      rw [hencode] at hbs
      cases hbs
      obtain ⟨hd, r, hheader, -, hrest, rfl⟩ := encode_ok_iff.mp hencode
      have hhd : hd.length = 5 := by
        cases hheader
        rfl
      have hr : r.length = 9 := by
        cases hrest
        rfl
      simp only [List.length_append, LittleEndian.length_bytes, hhd, hr]
      rfl

end WireBody

/-- A client whose messages are encoded as `wire.py` does. -/
def wireConfig (sid : OpSessionId) (failed : ρ → Bool) (flushOps flushBytes : ℕ) : OpConfig WireBody ρ where
  sid := sid
  ack := (WireBody.ack, [])
  isAck b := b.1 = WireBody.ack
  size := WireBody.size
  failed := failed
  flushOps := flushOps
  flushBytes := flushBytes

/-- The sizes are those of the encoding. -/
@[simp] theorem size_wireConfig (sid : OpSessionId) (failed : ρ → Bool) (flushOps flushBytes : ℕ) :
    (wireConfig sid failed flushOps flushBytes).size = WireBody.size := by rw [wireConfig]

/-- The request for an acknowledgement is `ACK` without arguments. -/
@[simp] theorem ack_wireConfig (sid : OpSessionId) (failed : ρ → Bool) (flushOps flushBytes : ℕ) :
    (wireConfig sid failed flushOps flushBytes).ack = (WireBody.ack, []) := by rw [wireConfig]

/-- The request for an acknowledgement can always be encoded. -/
theorem ackFits_wireConfig (sid : OpSessionId) (failed : ρ → Bool) (flushOps flushBytes : ℕ) :
    OpClient.AckFits (wireConfig sid failed flushOps flushBytes) where
  isAck := by
    rw [ack_wireConfig, wireConfig]
    rfl
  room n k h := by
    rw [size_wireConfig, ack_wireConfig] at h
    have hk : k = 23 := WireBody.size_ack h
    have : replayAckAt + 23 ≤ maxUnacked := by simp [replayAckAt, maxUnacked]
    omega

/-! ### Runs -/

section Runs

variable {w : OpConfig β ρ}

/-- The books are right in every run of ordinary actions. -/
theorem always_books (w : OpConfig β ρ) : Always (Witnessed.step w) (fun _ a => OpClient.Ordinary w a) {}
    fun s : Witnessed β => s.client.Books w s.told :=
  Always.of_step OpClient.Books.initial fun s a t hs ha hstep => by
    obtain ⟨c, hc, rfl⟩ := Option.map_eq_some_iff.mp hstep
    exact hs.act ha hc

/-- What is committed has been encoded, in every run. -/
theorem always_encoded (w : OpConfig β ρ) : Always (Witnessed.step w) (fun _ _ => True) {}
    fun s : Witnessed β => s.client.Encoded w :=
  Always.of_step (fun _ => nofun) fun s a t hs _ hstep => by
    obtain ⟨c, hc, rfl⟩ := Option.map_eq_some_iff.mp hstep
    exact hs.act hc

/-- There is room in every run of a connected client. -/
theorem always_room (hw : OpClient.AckFits w) :
    Always (Witnessed.step w) (fun s a => OpClient.Connected w s.client a) {} fun s : Witnessed β => s.client.Room w :=
  Always.of_step_under ((always_books w).guard fun _ _ => OpClient.Connected.ordinary) OpClient.Room.initial
    fun s a t hb _ hs ha hstep => by
      obtain ⟨c, hc, rfl⟩ := Option.map_eq_some_iff.mp hstep
      exact hs.act hb hw ha hc

end Runs

/-- What the client holds for a replay, when it is told of the messages up to `told`. -/
structure OpClient.Replayable (told : ℕ) (c : OpClient β) : Prop where
  /-- The messages held are numbered up to the last one. -/
  contiguous : EndsAt c.seq (numbers c.unacked)
  /-- What has not been acknowledged is held. -/
  held : ∀ n, told < n → n ≤ c.seq → n ∈ numbers c.unacked
  /-- What is still to be written comes last. -/
  ends : c.pending <:+ c.unacked

/-- Books that are right say what would be replayed. -/
theorem OpClient.Books.replayable {w : OpConfig β ρ} {c : OpClient β} {told : ℕ} (hc : c.Books w told)
    (h : c.replayPossible = true) : c.Replayable told where
  contiguous := hc.unacked
  held n htold hn := by
    obtain ⟨hlen, hrange⟩ := hc.unacked
    rw [hrange, List.mem_range'_1]
    have := hc.held h
    rw [length_numbers] at hlen ⊢
    omega
  ends := hc.ends h

/-- What a refused message leaves: it is encoded when `_queue` is done with the ids to be freed, and then the
queues and their figures stay. Behind an acknowledgement it is not refused, while numbers fit. -/
structure Witnessed.Refuses (w : OpConfig β ρ) (s : Witnessed β) : Prop where
  first : ∀ b rest, s.client.todo = .append b :: rest → w.size (s.client.seq + 1) b = none →
    ∃ t, Witnessed.step w s .next = some t ∧ t.client.todo = [] ∧ t.client.queues = s.client.queues
  second : ∀ b rest, s.client.todo = .commit b :: rest → s.client.seq + 1 < 2 ^ 63 →
    w.size (s.client.seq + 1) b ≠ none
  before : ∀ b rest, s.client.todo = .queue b :: rest →
    ∃ t, Witnessed.step w s .next = some t ∧ t.client.todo = .append b :: rest ∧ t.client.queues = s.client.queues

/-- A step of the client tells the server nothing new. -/
theorem Witnessed.step_next {w : OpConfig β ρ} {s : Witnessed β} {d : OpClient β} (h : s.client.next w = some d) :
    Witnessed.step w s .next = some ⟨d, s.told⟩ := by
  rw [Witnessed.step, OpClient.act, h]
  exact congrArg (fun n => some (Witnessed.mk d n)) (Nat.max_zero s.told)

/-- A message that cannot be encoded is refused before it is counted. -/
theorem OpClient.Encoded.refuses {w : OpConfig β ρ} {s : Witnessed β} (hs : s.client.Encoded w)
    (hw : ∀ b n n' k, w.size n b = some k → n' < 2 ^ 63 → w.size n' b ≠ none) : s.Refuses w where
  first b rest htodo hsize := by
    have hnext : s.client.next w = some s.client.raise := by
      unfold OpClient.next
      rw [htodo]
      dsimp only
      rw [hsize]
    exact ⟨_, Witnessed.step_next hnext, rfl, rfl⟩
  second b rest htodo hseq := by
    obtain ⟨n, k, hk⟩ := hs b (by rw [htodo]; exact List.mem_cons_self)
    exact hw b n _ k hk hseq
  before b rest htodo := by
    have hnext : s.client.next w = some { s.client with todo := .append b :: rest } := by
      unfold OpClient.next
      rw [htodo]
    exact ⟨_, Witnessed.step_next hnext, rfl, rfl⟩

/-- **The books are right** in every state that the client comes to, against any server and any network: the
figures are the sums, and while a replay is possible it has what it needs; a refused message changes nothing. As
long as messages are short and the server is reached in the end, the replay stays possible. -/
theorem replay_books (sid : OpSessionId) (failed : ρ → Bool) (flushOps flushBytes : ℕ) {w : OpConfig WireBody ρ}
    (hw : w = wireConfig sid failed flushOps flushBytes) (as : List (OpClientAction WireBody ρ))
    (s : Witnessed WireBody) (hasked : Along (Witnessed.step w) (fun _ a => OpClient.Ordinary w a) {} as)
    (hrun : run (Witnessed.step w) {} as = some s) :
    s.client.unackedBytes = bytes s.client.unacked ∧ s.client.pendingBytes = bytes s.client.pending ∧
      (s.client.replayPossible = true → s.client.Replayable s.told) ∧
      (s.client.replayPossible = false → s.client.unacked = []) ∧
      s.Refuses w ∧
      (Along (Witnessed.step w) (fun s a => OpClient.Connected w s.client a) {} as →
        s.client.unackedBytes ≤ maxUnacked ∧ s.client.replayPossible = true) := by
  subst hw
  have hbooks := always_books _ as s hasked hrun
  have hencoded := always_encoded _ as s (along_true _ _ _) hrun
  refine ⟨hbooks.unackedBytes, hbooks.pendingBytes, hbooks.replayable, hbooks.dropped,
    hencoded.refuses fun b n n' k hsize hn => ?_, fun hconnected => ?_⟩
  · rw [size_wireConfig] at hsize ⊢
    exact WireBody.size_of_size hsize hn
  · have hroom := always_room (ackFits_wireConfig sid failed flushOps flushBytes) as s hconnected hrun
    refine ⟨hroom.bytes.trans ?_, hroom.possible⟩
    split
    · exact le_rfl
    · exact OpClient.replayAckAt_le

/-- A seed is posted and written, and the connection breaks while a reply is awaited. -/
def seeded : List (OpClientAction WireBody Unit) :=
  [.post (6, [.int 7]), .next, .next, .next, .flush, .dial 0, .shake false 0, .send true, .request (7, []), .next,
    .next, .send true, .next, .fail, .dial 1, .shake true 1, .send true]

/-- The client seeds the generator and asks for an acknowledgement, and has two messages on its
books. -/
theorem replay_books_seeded : ∃ s, run (Witnessed.step (wireConfig 0 (fun _ : Unit => false) 64 1000)) {} seeded = some s ∧
    s.client.seq = 2 ∧ s.client.unackedBytes = 23 ∧ s.client.replayPossible = true ∧ s.client.Replayable s.told := by
  obtain ⟨s, hs⟩ := Option.isSome_iff_exists.mp
    (show (run (Witnessed.step (wireConfig 0 (fun _ : Unit => false) 64 1000)) {} seeded).isSome = true from rfl)
  obtain ⟨-, -, hreplayable, -⟩ := replay_books 0 (fun _ => false) 64 1000 rfl seeded s
    (along_of_forall (by decide)) hs
  have hsome : (run (Witnessed.step (wireConfig 0 (fun _ : Unit => false) 64 1000)) {} seeded).map
      (fun s => (s.client.seq, s.client.unackedBytes, s.client.replayPossible)) = some (2, 23, true) := rfl
  rw [hs, Option.map_some, Option.some.injEq, Prod.mk.injEq, Prod.mk.injEq] at hsome
  exact ⟨s, hs, hsome.1, hsome.2.1, hsome.2.2, hreplayable hsome.2.2⟩

end Rgpu
