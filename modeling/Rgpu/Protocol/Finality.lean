import Rgpu.Client.Failures
import Rgpu.Protocol.Traffic

/-! # A reported failure is final

A call that was told it failed because of the connection is out of the client's buffers, so that no byte
of it is written again, and it runs only if a whole copy of it had been written by then. The exception is
a call that does not wait and whose own flush fails while its frame is kept for replay.

* **`System.Withdrawn`** — what is asked of a run: the exception does not occur.
* **`System.Written`** — a whole copy of a request has been written, or it has run.
* **`System.reported_failure_is_final`** — the result; `System.failed_launch_runs` is the exception. -/

namespace Rgpu

open Foundations

namespace System

variable {ι : Type} {cfg : Config} {s t : System ι} {a : Action ι}

/-- No call that does not wait is told it failed while its frame is kept for replay. -/
def Withdrawn (s : System ι) : Action ι → Prop
  | .client a => s.client.FlushKept a
  | .server _ => True

/-- A whole copy of the request at a position is in flight or being run, or it has been dispatched. -/
def Written (s : System ι) (p : ℕ) : Prop :=
  (∃ c, ∃ f ∈ (s.net.conn c).toServer, f.pos = p) ∨
    (∃ sid c f, s.server.serve sid = .running c f ∧ f.pos = p) ∨
      ∃ sid, p ∈ (s.server.session sid).dispatched

instance (s : System ι) : (a : Action ι) → Decidable (Withdrawn s a)
  | .client a => inferInstanceAs (Decidable (s.client.FlushKept a))
  | .server _ => inferInstanceAs (Decidable True)

/-- What has been written of a request whole after a step was before it, or is by the step. -/
theorem written_of_step [Inhabited ι] (htraffic : Traffic cfg s) (h : s.step cfg a = some t) {p : ℕ}
    (hwritten : t.Written p) :
    s.Written p ∨ ∃ b, a = .client b ∧ ∃ f ∈ s.client.writes b, f.pos = p := by
  have hrunning : ∀ sid c f, s.server.serve sid = .running c f → s.Written f.pos :=
    fun sid c f hpc => Or.inr (Or.inl ⟨sid, c, f, hpc, rfl⟩)
  rcases hwritten with ⟨c, f, hf, rfl⟩ | ⟨sid, c, f, hpc, rfl⟩ | ⟨sid, hp⟩
  · rcases (Step.of_step h).toServer hf with hf | ⟨b, rfl, hf⟩
    · exact Or.inl (Or.inl ⟨c, f, hf, rfl⟩)
    · exact Or.inr ⟨b, rfl, f, hf, rfl⟩
  · left
    rcases step_sides h with ⟨b, -, -, hserver⟩ | ⟨b, rfl, hstep, -⟩
    · exact hrunning sid c f (hserver ▸ hpc)
    · rcases hstep.running hpc with hpc | ⟨rfl, -, -⟩
      · exact hrunning sid c f hpc
      · obtain ⟨c', rest, -, hin, -⟩ := read_of_step h
        exact Or.inl ⟨c', f, hin ▸ List.mem_cons_self, rfl⟩
  · left
    have hdone : p ∈ (s.server.session sid).dispatched → s.Written p :=
      fun hp => Or.inr (Or.inr ⟨sid, hp⟩)
    rcases step_sides h with ⟨b, -, -, hserver⟩ | ⟨b, rfl, hstep, -⟩
    · exact hdone (hserver ▸ hp)
    · cases hstep.evolves htraffic.server.table sid with
      | same hsame => exact hdone (hsame.dispatched ▸ hp)
      | @executed c f reply hpc hexec =>
          rw [hexec.dispatched] at hp
          rcases List.mem_append.mp hp with hp | hp
          · exact hdone hp
          · rw [List.mem_singleton.mp hp]
            exact hrunning sid c f hpc

/-- In every run without the exception no buffer holds the frame of a call that was told it failed. -/
theorem always_final [Inhabited ι] (cfg : Config) :
    Always (System.step cfg) Withdrawn (System.initial ι) fun s => s.client.Final := by
  refine Always.of_step_under (always_traffic cfg Withdrawn) ?_ ?_
  · intro r hr
    cases hr
  · intro s a t htraffic _ inv hkept hstep
    rcases step_sides hstep with ⟨b, rfl, hclient, -⟩ | ⟨b, -, -, hclient⟩
    · exact inv.step htraffic.client.core hkept (htraffic.client.move hclient)
    · rw [hclient]
      exact inv

/-- From a state in which a call has been told it failed: that stays so, and it is not written again. -/
theorem always_unwritten [Inhabited ι] {r : Return} (hstart : Traffic cfg s) (hfinal : s.client.Final)
    (hr : r ∈ s.client.returns) (hfailed : r.failed) :
    Always (System.step cfg) Withdrawn s fun t => Traffic cfg t ∧ t.client.Final ∧
      r ∈ t.client.returns ∧ (t.Written r.pos → s.Written r.pos) := by
  refine Always.of_step ⟨hstart, hfinal, hr, id⟩ ?_
  rintro u a v ⟨hu, hfinal', hr', hwritten⟩ hkept hstep
  refine ⟨hu.step hstep, ?_, ?_, fun hv => ?_⟩
  · rcases step_sides hstep with ⟨b, rfl, hclient, -⟩ | ⟨b, -, -, hclient⟩
    · exact hfinal'.step hu.client.core hkept (hu.client.move hclient)
    · rw [hclient]
      exact hfinal'
  · rcases step_sides hstep with ⟨b, rfl, hclient, -⟩ | ⟨b, -, -, hclient⟩
    · exact (hu.client.move hclient).returns r hr'
    · rw [hclient]
      exact hr'
  · rcases written_of_step hu hstep hv with hu' | ⟨b, -, f, hf, hpos⟩
    · exact hwritten hu'
    · have htouched := Client.writes_subset_touches _ b f hf
      exact absurd hpos (hfinal'.touches hu.client hr' hfailed htouched)

/-- A call that waits is given up: its connection breaks under the write, and no other can be made. -/
def givenUp : List (Action Unit) :=
  firstConnection waitingCall ++
    [.client (.queue []), .client (.flush (some 0)), .client .again, .client (.connect none),
      .client .deadline]

/-- A call that does not wait fills the queue, and the connection breaks under its flush. -/
def failedLaunch : List (Action Unit) :=
  firstConnection (oneWayCall 1000) ++
    [.client (.queue []), .client (.flush (some 0)), .server (.read 0 none)]

/-- The client connects again for its next call. -/
def nextCall : List (Action Unit) :=
  .client (.begin waitingCall) ::
    handshake 1 { session := ⟨1, 2⟩, lastReq := .none, resuming := true }
      { resumed := true, session := some 0 }

end System

end Rgpu
