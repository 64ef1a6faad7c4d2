import Rgpu.Protocol.Traffic

/-! # A request runs at most once, and requests run in order

A client that lost its connection sends again what was not acknowledged, so the server may be handed a
request it has already run. It tells by the id, which the wrap of 32 bits makes right only for ids that
are near each other.

* **`System.ResentInWindow`** — what is asked of a run: a frame sent again is near the last request
  completed.
* **`System.InOrder`** — the invariant: what a session dispatched goes up, and the request it runs is
  past all of it.
* **`System.at_most_once_in_order`** — what it gives. -/

namespace Rgpu

open Foundations

namespace System

variable {ι : Type} {cfg : Config} {s t : System ι} {a : Action ι}

/-- A frame that is read is past the last request the session completed, or fewer than `2 ^ 31 - 1`
requests before it. -/
def ResentInWindow (s : System ι) : Action ι → Prop
  | .server (.read sid (some f)) =>
      f.pos ≤ (s.server.session sid).lastReq.pos →
        (s.server.session sid).lastReq.pos + 1 < f.pos + 2 ^ 31
  | _ => True

instance (s : System ι) (a : Action ι) : Decidable (ResentInWindow s a) := by
  unfold ResentInWindow
  split <;> infer_instance

/-- What each session dispatched, and what it runs, is in the order of queueing. -/
structure InOrder (s : System ι) : Prop where
  sorted : ∀ sid, (s.server.session sid).dispatched.Pairwise (· < ·)
  done : ∀ sid, ∀ p ∈ (s.server.session sid).dispatched,
    p ≤ (s.server.session sid).lastReq.pos ∧ ∃ f ∈ s.client.log, f.pos = p
  ahead : ∀ sid c f, s.server.serve sid = .running c f →
    (s.server.session sid).lastReq.pos < f.pos

/-- A frame in the window that is not past the last request completed is found to have run. -/
theorem Traffic.check_ne_run [Inhabited ι] (inv : Traffic cfg s) {sid : SessionId} {f : Frame}
    (hf : f ∈ s.client.log) (hwindow : ResentInWindow s (.server (.read sid (some f))))
    (hle : f.pos ≤ (s.server.session sid).lastReq.pos) : (s.server.session sid).check f ≠ .run := by
  have hnear := hwindow hle
  have hordered : Ordered f.pos (s.server.session sid).lastReq.pos :=
    Or.inr (Or.inr ⟨by omega, by omega⟩)
  have hran := ((inv.minted hf).1.atOrBefore_iff (inv.lastReq sid) hordered).mpr hle
  rw [Ne, Session.check_eq_run, hran]
  nofun

/-- Nothing is executed at first. -/
theorem InOrder.initial [Inhabited ι] : InOrder (System.initial ι) where
  sorted := fun _ => List.Pairwise.nil
  done := by simp [System.initial, Server.initial]
  ahead := nofun

/-- **Every step keeps it, where what is sent again is in the window.** -/
theorem InOrder.step [Inhabited ι] (inv : InOrder s) (htraffic : Traffic cfg s)
    (htraffic' : Traffic cfg t) (hwindow : ResentInWindow s a) (h : s.step cfg a = some t) :
    InOrder t := by
  rcases step_sides h with ⟨b, -, hstep, hserver⟩ | ⟨b, rfl, hstep, hclient⟩
  · refine ⟨?_, ?_, ?_⟩ <;> rw [hserver]
    · exact inv.sorted
    · intro sid p hp
      obtain ⟨hle, f, hf, hpos⟩ := inv.done sid p hp
      exact ⟨hle, f, hstep.mem_log hf, hpos⟩
    · exact inv.ahead
  · refine ⟨fun sid => ?_, fun sid p hp => ?_, fun sid c f hf => ?_⟩
    · cases hstep.evolves htraffic.server.table sid with
      | same hsame => exact hsame.dispatched ▸ inv.sorted sid
      | @executed c f reply hrunning hexec =>
          -- what was dispatched is at or before the last completed, which the new request is past
          rw [hexec.dispatched, List.pairwise_append]
          refine ⟨inv.sorted sid, List.pairwise_singleton _ _, fun p hp q hq => ?_⟩
          obtain rfl := List.mem_singleton.mp hq
          exact (inv.done sid p hp).1.trans_lt (inv.ahead sid c f hrunning)
    · rw [hclient]
      cases hstep.evolves htraffic.server.table sid with
      | same hsame =>
          rw [hsame.dispatched] at hp
          rw [hsame.lastReq]
          exact inv.done sid p hp
      | @executed c f reply hrunning hexec =>
          rw [hexec.dispatched] at hp
          rw [hexec.lastReq]
          rcases List.mem_append.mp hp with hp | hp
          · obtain ⟨hle, hlog⟩ := inv.done sid p hp
            exact ⟨hle.trans (inv.ahead sid c f hrunning).le, hlog⟩
          · obtain rfl := List.mem_singleton.mp hp
            exact ⟨le_rfl, f, htraffic.running sid c f hrunning, rfl⟩
    · have hpast : s.server.serve sid = .running c f ∨
          (s.server.session sid).lastReq.pos < f.pos := by
        rcases hstep.running hf with hrunning | ⟨rfl, -, hcheck⟩
        · exact Or.inl hrunning
        · right
          by_contra hle
          have hlog : f ∈ s.client.log := hclient ▸ htraffic'.running sid c f hf
          exact htraffic.check_ne_run hlog hwindow (Nat.le_of_not_lt hle) hcheck
      cases hstep.evolves htraffic.server.table sid with
      | same hsame =>
          rw [hsame.lastReq]
          exact hpast.elim (inv.ahead sid c f) id
      | @executed c' f' reply hrunning hexec hanswers hsilent =>
          -- the thread has just run a request, and runs none
          cases reply with
          | none =>
              rcases hsilent rfl with hpc | hpc <;> rw [hf] at hpc <;> cases hpc
          | some r =>
              obtain ⟨last, hpc⟩ := hanswers r rfl
              rw [hf] at hpc
              cases hpc

/-- **Every run in the window keeps it.** -/
theorem always_inOrder [Inhabited ι] (cfg : Config) :
    Always (System.step cfg) ResentInWindow (System.initial ι) InOrder :=
  Always.of_step_under (always_traffic cfg ResentInWindow) InOrder.initial
    fun _ _ _ htraffic htraffic' inv hwindow hstep => inv.step htraffic htraffic' hwindow hstep

/-- A request that has been dispatched, read again, changes nothing in the session: it is answered with
the reply the session kept, if it is to be answered and that is its reply, and passed over otherwise. -/
theorem InOrder.read_again [Inhabited ι] (inv : InOrder s) (htraffic : Traffic cfg s) {sid : SessionId}
    {f : Frame} (hf : f.pos ∈ (s.server.session sid).dispatched)
    (hwindow : ResentInWindow s (.server (.read sid (some f))))
    (h : s.step cfg (.server (.read sid (some f))) = some t) :
    t.server.session = s.server.session ∧ t.client = s.client ∧
      (t.server.serve = s.server.serve ∨
        f.noReply = false ∧ ∃ c reply, (s.server.session sid).lastReply = some reply ∧
          t.server.serve = Function.update s.server.serve sid (.answering c reply false)) := by
  cases Step.of_step h with
  | @gotFrame server sid c f rest hstep hpc hin =>
      have hlog : f ∈ s.client.log := htraffic.sent c f (hin ▸ List.mem_cons_self)
      have hran := htraffic.check_ne_run hlog hwindow (inv.done sid f.pos hf).1
      cases hstep with
      | readToRun _ hcheck => exact absurd hcheck hran
      | readToSkip => exact ⟨rfl, rfl, Or.inl rfl⟩
      | readToAnswer _ hcheck =>
          obtain ⟨hreply, -, hkept⟩ := Session.check_eq_answer hcheck
          exact ⟨rfl, rfl, Or.inr ⟨hreply, _, _, hkept, rfl⟩⟩
  | sent _ hsends => cases hsends
  | quiet _ _ _ _ hread => exact absurd rfl (hread sid f)

/-- **At most once, in order.** In every run of a client and the server in which a frame that is sent
again is near the last request completed: each session dispatches requests the client queued, in the
order it queued them and so each at most once; and a copy of a request already dispatched changes
nothing in the session, and is answered, if at all, with the reply the session kept. -/
theorem at_most_once_in_order [Inhabited ι] (cfg : Config) (as : List (Action ι))
    (hwindow : Along (System.step cfg) ResentInWindow (System.initial ι) as)
    (hrun : run (System.step cfg) (System.initial ι) as = some s) (sid : SessionId) :
    (s.server.session sid).dispatched.Pairwise (· < ·) ∧
    (∀ p ∈ (s.server.session sid).dispatched, ∃ f ∈ s.client.log, f.pos = p) ∧
    ∀ f t, f.pos ∈ (s.server.session sid).dispatched →
      ResentInWindow s (.server (.read sid (some f))) →
      s.step cfg (.server (.read sid (some f))) = some t →
      t.server.session = s.server.session ∧ t.client = s.client ∧
        (t.server.serve = s.server.serve ∨
          f.noReply = false ∧ ∃ c reply, (s.server.session sid).lastReply = some reply ∧
            t.server.serve = Function.update s.server.serve sid (.answering c reply false)) := by
  have htraffic := always_traffic cfg ResentInWindow as s hwindow hrun
  have inv := always_inOrder cfg as s hwindow hrun
  exact ⟨inv.sorted sid, fun p hp => (inv.done sid p hp).2,
    fun f t hf hresent hstep => inv.read_again htraffic hf hresent hstep⟩

/-- A client loses its connection while its call is running there, and sends the call again on a second
connection whose handshake was answered before the call completed. -/
def resend : List (Action Unit) :=
  firstConnection waitingCall ++
    [.client (.queue []), .client (.flush none), .server (.read 0 (some (waitingFrame 1))),
      .client (.receive none), .client .again] ++
    handshake 1 { session := ⟨1, 2⟩, lastReq := .none, resuming := true }
      { resumed := true, session := some 0 } ++
    [.server (.execute 0 {}), .server (.answer 0 false), .client (.replay true),
      .server (.handOver 1), .server (.take 0)]

/-- The copy is read when the call has been dispatched, once, and is answered with the reply kept. -/
theorem at_most_once_in_order_resend :
    ∃ s t, run (System.step {}) (System.initial Unit) resend = some s ∧
      s.step {} (.server (.read 0 (some (waitingFrame 1)))) = some t ∧
      (s.server.session 0).dispatched.Pairwise (· < ·) ∧
      (s.server.session 0).dispatched = [1] ∧ t.server.session = s.server.session := by
  have hall := at_most_once_in_order {} resend (by decide) rfl 0
  exact ⟨_, _, rfl, rfl, hall.1, rfl, (hall.2.2 (waitingFrame 1) _ (by decide) (by decide) rfl).1⟩

end System

end Rgpu
