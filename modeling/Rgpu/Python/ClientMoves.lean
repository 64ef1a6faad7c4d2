import Rgpu.Python.Stream

/-! # The Python client by itself

The client's connection against any server: what the network and the server answer is part of the action. What
holds of every run here holds of the client whatever it talks to.

* **`OpClient.act`** — a move of the client; **`OpSystem.step_client`** — in the whole system it makes no other.
* **`Witnessed`** — the client, with what it has been told to have arrived. -/

namespace Rgpu

open Foundations

variable {β ρ : Type}

/-- What happens to the client, with what it is told. -/
inductive OpClientAction (β ρ : Type)
  /-- The application calls `post`. -/
  | post (b : β)
  /-- The application calls `request`. -/
  | request (b : β)
  /-- The application calls `flush`. -/
  | flush
  /-- `_queue` finds ids to be freed, and queues a message for them first. -/
  | free (b : β)
  /-- The call in progress goes on. -/
  | next
  /-- `_connect`: the socket is open and the hello is sent. -/
  | dial (k : OpConnId)
  /-- `_connect` reads the handshake. -/
  | shake (resumed : Bool) (serverSeq : ℕ)
  /-- `_connect` ends in an exception that is no `OSError`. -/
  | refuse
  /-- A frame is sent, or the sending fails. -/
  | send (ok : Bool)
  /-- `_await` reads a reply. -/
  | receive (r : OpReply ρ)
  /-- Connecting, or reading, fails. -/
  | fail
  /-- `_reconnect` gives up. -/
  | giveUp
  deriving DecidableEq, Repr

namespace OpClient

/-- To see whether the client dials, messages need not be compared. -/
instance decidableDials (c : OpClient β) : Decidable c.dials :=
  match h : c.todo with
  | .flush :: _ => decidable_of_iff (c.sock = none ∧ c.opening = none ∧ c.pending ≠ []) (by rw [dials, h])
  | .reconnect :: _ => decidable_of_iff (c.sock = none ∧ c.opening = none ∧ True) (by rw [dials, h])
  | [] | .queue _ :: _ | .append _ :: _ | .commit _ :: _ | .flushIfFull :: _ | .await :: _ | .awaiting _ :: _
  | .replay :: _ => .isFalse (by rw [dials, h]; exact fun hd => hd.2.2)

/-- A move, if it is possible. -/
def act (w : OpConfig β ρ) (c : OpClient β) : OpClientAction β ρ → Option (OpClient β)
  | .post b => if c.todo = [] then some { c with todo := [.queue b, .flushIfFull] } else none
  | .request b => if c.todo = [] then some { c with todo := [.queue b, .flush, .await] } else none
  | .flush => if c.todo = [] then some { c with todo := [.flush] } else none
  | .free b =>
      match c.todo with
      | .queue _ :: _ => some { c with todo := .append b :: c.todo }
      | _ => none
  | .next => c.next w
  | .dial k => if c.dials then some { c with opening := some k } else none
  | .shake resumed serverSeq =>
      match c.opening with
      | some k => some (c.shaken k resumed serverSeq)
      | none => none
  | .refuse => if c.opening ≠ none then some c.raise else none
  | .send ok =>
      if c.sock = none ∨ c.outgoing = [] then none else some (if ok then c.sent else c.broken)
  | .receive r =>
      match c.todo with
      | .awaiting seq :: rest => if c.sock = none then none else some (c.receive w seq rest r)
      | _ => none
  | .fail =>
      match c.todo with
      | .awaiting _ :: _ => some c.broken
      | _ => if c.dials ∨ c.opening ≠ none then some c.broken else none
  | .giveUp =>
      match c.todo, c.opening with
      | .reconnect :: _, none => some c.raise
      | _, _ => none

/-- What a move comes to, with what has to hold for it. -/
inductive Acts (w : OpConfig β ρ) (c : OpClient β) : OpClientAction β ρ → OpClient β → Prop
  | post {b} (htodo : c.todo = []) : Acts w c (.post b) { c with todo := [.queue b, .flushIfFull] }
  | request {b} (htodo : c.todo = []) : Acts w c (.request b) { c with todo := [.queue b, .flush, .await] }
  | flush (htodo : c.todo = []) : Acts w c .flush { c with todo := [.flush] }
  | free {b q rest} (htodo : c.todo = .queue q :: rest) : Acts w c (.free b) { c with todo := .append b :: c.todo }
  | next {d} (h : c.next w = some d) : Acts w c .next d
  | dial {k} (hdials : c.dials) : Acts w c (.dial k) { c with opening := some k }
  | shake {resumed n k} (hopening : c.opening = some k) : Acts w c (.shake resumed n) (c.shaken k resumed n)
  | refuse (hopening : c.opening ≠ none) : Acts w c .refuse c.raise
  | sent (hsock : c.sock ≠ none) (hout : c.outgoing ≠ []) : Acts w c (.send true) c.sent
  | unsent (hsock : c.sock ≠ none) (hout : c.outgoing ≠ []) : Acts w c (.send false) c.broken
  | receive {r seq rest} (htodo : c.todo = .awaiting seq :: rest) (hsock : c.sock ≠ none) :
      Acts w c (.receive r) (c.receive w seq rest r)
  | fail (hwhen : (∃ seq rest, c.todo = .awaiting seq :: rest) ∨ c.dials ∨ c.opening ≠ none) : Acts w c .fail c.broken
  | giveUp {rest} (htodo : c.todo = .reconnect :: rest) (hopening : c.opening = none) : Acts w c .giveUp c.raise

/-- An action of the client, by what it is. -/
theorem Acts.of_act {w : OpConfig β ρ} {c d : OpClient β} {a : OpClientAction β ρ} (h : c.act w a = some d) :
    Acts w c a d := by
  cases a <;> simp only [act] at h
  case post b =>
    split at h <;> cases h
    rename_i htodo
    exact .post htodo
  case request b =>
    split at h <;> cases h
    rename_i htodo
    exact .request htodo
  case flush =>
    split at h <;> cases h
    rename_i htodo
    exact .flush htodo
  case free b =>
    split at h <;> cases h
    rename_i htodo
    exact .free htodo
  case next => exact .next h
  case dial k =>
    split at h <;> cases h
    rename_i hdials
    exact .dial hdials
  case shake resumed n =>
    split at h <;> cases h
    rename_i hopening
    exact .shake hopening
  case refuse =>
    split at h <;> cases h
    rename_i hopening
    exact .refuse hopening
  case send ok =>
    split at h <;> cases h
    rename_i hready
    rw [not_or] at hready
    cases ok with
    | true => exact .sent hready.1 hready.2
    | false => exact .unsent hready.1 hready.2
  case receive r =>
    split at h
    · rename_i htodo
      split at h <;> cases h
      rename_i hsock
      exact .receive htodo hsock
    · cases h
  case fail =>
    split at h
    · rename_i htodo
      cases h
      exact .fail (.inl ⟨_, _, htodo⟩)
    · split at h <;> cases h
      rename_i hwhen
      exact .fail (.inr hwhen)
  case giveUp =>
    split at h <;> cases h
    rename_i htodo hopening
    exact .giveUp htodo hopening

/-- A client that waits for a reply is broken by a failure. -/
theorem act_fail_awaiting {w : OpConfig β ρ} {c : OpClient β} {seq : ℕ} {rest : List (OpInstr β)}
    (h : c.todo = .awaiting seq :: rest) : c.act w .fail = some c.broken := by
  rw [act, h]

/-- A client that is connecting is broken by a failure. -/
theorem act_fail_opening {w : OpConfig β ρ} {c : OpClient β} (hnot : ∀ seq rest, c.todo ≠ .awaiting seq :: rest)
    (h : c.dials ∨ c.opening ≠ none) : c.act w .fail = some c.broken := by
  rw [act]
  split
  · rename_i seq rest htodo
    exact absurd htodo (hnot seq rest)
  · exact if_pos h

end OpClient

/-- **The client in the system** moves only so. -/
theorem OpSystem.step_client {σ : Type} [DecidableEq β] [DecidableEq ρ] {e : Engine σ β ρ} {grace : ℕ}
    {w : OpConfig β ρ} {s t : OpSystem σ β ρ} {a : OpAction β} (hstep : s.step e grace w a = some t) :
    t.client = s.client ∨ ∃ x : OpClientAction β ρ, s.client.act w x = some t.client := by
  cases a with
  | post b =>
      unfold step at hstep
      dsimp only at hstep
      split at hstep <;> cases hstep
      rename_i h
      exact .inr ⟨.post b, if_pos h⟩
  | request b =>
      unfold step at hstep
      dsimp only at hstep
      split at hstep <;> cases hstep
      rename_i h
      exact .inr ⟨.request b, if_pos h⟩
  | flush =>
      unfold step at hstep
      dsimp only at hstep
      split at hstep <;> cases hstep
      rename_i h
      exact .inr ⟨.flush, if_pos h⟩
  | free b =>
      unfold step at hstep
      dsimp only at hstep
      split at hstep <;> cases hstep
      rename_i h
      refine .inr ⟨.free b, ?_⟩
      rw [OpClient.act, h]
  | next =>
      obtain ⟨c, hc, rfl⟩ := Option.map_eq_some_iff.mp hstep
      exact .inr ⟨.next, hc⟩
  | dial k =>
      unfold step at hstep
      dsimp only at hstep
      split at hstep <;> cases hstep
      rename_i h
      exact .inr ⟨.dial k, if_pos h.1⟩
  | shake =>
      unfold step at hstep
      dsimp only at hstep
      split at hstep
      · rename_i k hk
        split at hstep <;> cases hstep
        rename_i resumed serverSeq _
        refine .inr ⟨.shake resumed serverSeq, ?_⟩
        rw [OpClient.act, hk]
      · cases hstep
  | refuse =>
      unfold step at hstep
      dsimp only at hstep
      split at hstep <;> cases hstep
      rename_i h
      exact .inr ⟨.refuse, if_pos h⟩
  | send ok arrives =>
      unfold step at hstep
      dsimp only at hstep
      split at hstep
      · rename_i k hk
        split at hstep
        · cases hstep
        · rename_i hout
          refine .inr ⟨.send ok, ?_⟩
          -- whether the message arrives is not for the client to know
          rw [OpClient.act, if_neg (by rw [hk]; simp [hout])]
          split at hstep <;> cases hstep <;> rfl
      · cases hstep
  | receive =>
      unfold step at hstep
      dsimp only at hstep
      split at hstep
      · rename_i seq rest k htodo hk
        split at hstep <;> cases hstep
        rename_i r _
        refine .inr ⟨.receive r, ?_⟩
        rw [OpClient.act, htodo]
        exact if_neg (by rw [hk]; exact Option.some_ne_none k)
      · cases hstep
  | fail =>
      unfold step at hstep
      dsimp only at hstep
      split at hstep
      · rename_i seq rest htodo
        cases hstep
        exact .inr ⟨.fail, OpClient.act_fail_awaiting htodo⟩
      · rename_i hnot
        split at hstep <;> cases hstep
        rename_i h
        exact .inr ⟨.fail, OpClient.act_fail_opening hnot h⟩
  | giveUp =>
      unfold step at hstep
      dsimp only at hstep
      split at hstep <;> cases hstep
      rename_i rest htodo hopening
      refine .inr ⟨.giveUp, ?_⟩
      rw [OpClient.act, htodo, hopening]
  | hello k =>
      -- the steps that are left are the server's and the network's
      unfold step at hstep
      dsimp only at hstep
      split at hstep
      · obtain ⟨u, -, rfl⟩ := Option.map_eq_some_iff.mp hstep
        exact .inl rfl
      · cases hstep
  | deliver k =>
      unfold step at hstep
      dsimp only at hstep
      split at hstep
      · obtain ⟨u, -, rfl⟩ := Option.map_eq_some_iff.mp hstep
        exact .inl rfl
      · cases hstep
  | server a =>
      unfold step at hstep
      dsimp only at hstep
      split at hstep
      · obtain ⟨u, -, rfl⟩ := Option.map_eq_some_iff.mp hstep
        exact .inl rfl
      · cases hstep
  | restart =>
      cases hstep
      exact .inl rfl

/-- The client, and the highest number in a handshake or a reply that it has read. Nothing reads that. -/
structure Witnessed (β : Type) where
  client : OpClient β := {}
  told : ℕ := 0
  deriving DecidableEq, Repr

/-- What an action tells the client to have been applied. -/
def OpClientAction.tells : OpClientAction β ρ → ℕ
  | .receive r => r.seq
  | .shake _ serverSeq => serverSeq
  | _ => 0

/-- A move, and what it tells. -/
def Witnessed.step (w : OpConfig β ρ) (s : Witnessed β) (a : OpClientAction β ρ) :
    Option (Witnessed β) :=
  (s.client.act w a).map fun c => ⟨c, max s.told a.tells⟩

end Rgpu
