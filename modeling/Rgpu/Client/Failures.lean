import Rgpu.Client.Moves

/-! # Calls that were told they failed

A call that waits and is given up is taken out of the replay buffer before it returns. A call that does
not wait, and finds that the queue it was to go out with cannot be written, returns an error as well, but
its frame stays in the replay buffer. So what follows is about the runs in which that does not happen.

* **`Client.FlushKept`** — the exception: the queue of a call that does not wait cannot be written, and
  the call is kept for replay.
* **`Client.Final`** — no buffer holds a frame whose call was told it failed. -/

namespace Rgpu

namespace Client

variable {cfg : ClientConfig} {c c' : Client} {a : ClientAction} {f : Frame}

/-- A call that does not wait is not told it failed while its frame is kept for replay: its flush may
fail only once the replay buffer has outgrown its bound. -/
def FlushKept (c : Client) : ClientAction → Prop
  | .flush (some _) =>
      match c.pc with
      | .flushingAsync _ => c.replayPossible = false
      | _ => True
  | _ => True

instance (c : Client) (a : ClientAction) : Decidable (FlushKept c a) := by
  unfold FlushKept
  split
  · split <;> infer_instance
  · infer_instance

/-- No buffer holds the frame of a call that was told it failed. -/
def Final (c : Client) : Prop :=
  ∀ r ∈ c.returns, r.failed → (∀ f ∈ c.unacked, f.pos ≠ r.pos) ∧ ∀ f ∈ c.queued, f.pos ≠ r.pos

/-- What remains of the replay buffer once the frame of the call that is given up is taken out is at
earlier positions. -/
theorem dropLast_ne (core : Core cfg c) (hlast : c.unacked = [] ∨ c.unacked.getLast? = some f) :
    ∀ g ∈ c.unacked.dropLast, g.pos ≠ f.pos := by
  intro g hg
  rcases hlast with hnil | hlast
  · rw [hnil] at hg
    cases hg
  · have hsplit := List.dropLast_append_getLast? f hlast
    have hsorted := core.numbered.pairwise.sublist core.unacked
    rw [← hsplit, List.pairwise_append] at hsorted
    exact (hsorted.2.2 g hg f (List.mem_singleton_self f)).ne

/-- What is queued is at positions past all that was queued before. -/
theorem Appends.length_lt_pos {fs : List Frame} (happ : Appends cfg c c' fs) (core' : Core cfg c')
    (hf : f ∈ fs) : c.log.length < f.pos := by
  have hlog := happ.log
  have hmem : f ∈ c'.log := by
    rw [hlog]
    exact List.mem_append_right _ hf
  have hsorted := core'.numbered.pairwise
  rw [hlog, List.pairwise_append] at hsorted
  by_contra hle
  obtain ⟨hpos, hget⟩ := core'.numbered.getElem?_pos hmem
  rw [hlog, List.getElem?_append_left (by omega)] at hget
  exact absurd (hsorted.2.2 f (List.mem_of_getElem? hget) f hf) (Nat.lt_irrefl _)

/-- Queueing frames withdraws no failure. -/
theorem Final.append {fs : List Frame} (inv : Final c) (core : Core cfg c) (core' : Core cfg c')
    (happ : Appends cfg c c' fs) : Final c' := by
  intro r hr hfailed
  rw [happ.returns] at hr
  obtain ⟨hunacked, hqueued⟩ := inv r hr hfailed
  have hnew : ∀ f ∈ fs, f.pos ≠ r.pos := fun f hf =>
    ((core.returned r hr).trans_lt (happ.length_lt_pos core' hf)).ne'
  constructor
  · intro f hf
    rcases happ.unacked with ⟨-, -, h⟩ | ⟨-, h | ⟨-, h⟩⟩ <;> rw [h] at hf
    · exact (List.mem_append.mp hf).elim (hunacked f) (hnew f)
    · cases hf
    · exact hunacked f hf
  · intro f hf
    rw [happ.queued] at hf
    exact (List.mem_append.mp hf).elim (hqueued f) (hnew f)

/-- A call returns, and if it failed no buffer holds its frame. -/
theorem Final.ret (inv : Final c) (pos : ℕ) (result : CUresult) (reply : Option Reply)
    (hnone : Return.failed ⟨pos, result, reply⟩ →
      (∀ f ∈ c.unacked, f.pos ≠ pos) ∧ ∀ f ∈ c.queued, f.pos ≠ pos) :
    Final (c.ret pos result reply) := by
  intro r hr hfailed
  rcases List.mem_append.mp hr with hr | hr
  · exact inv r hr hfailed
  · obtain rfl := List.mem_singleton.mp hr
    exact hnone hfailed

/-- The buffers lose frames, and no call returns. -/
theorem Final.subset (inv : Final c) (hreturns : c'.returns = c.returns)
    (hunacked : ∀ f ∈ c'.unacked, f ∈ c.unacked) (hqueued : ∀ f ∈ c'.queued, f ∈ c.queued) :
    Final c' := by
  intro r hr hfailed
  rw [hreturns] at hr
  obtain ⟨hu, hq⟩ := inv r hr hfailed
  exact ⟨fun f hf => hu f (hunacked f hf), fun f hf => hq f (hqueued f hf)⟩

/-- A call that waits is given up. -/
theorem Final.abandon (inv : Final c) (hqueue : c.queued = [])
    (hlast : c.unacked = [] ∨ c.unacked.getLast? = some f)
    (hne : ∀ g ∈ c.unacked.dropLast, g.pos ≠ f.pos) : Final (c.abandon f) := by
  have hunacked := Core.abandon_unacked hlast
  have hbase : Final { c with
      unacked := (c.abandon f).unacked
      unackedBytes := (c.abandon f).unackedBytes
      lastReply := f.reqId
      fd := none } := by
    refine inv.subset rfl (fun g hg => ?_) fun g hg => hg
    rw [hunacked] at hg
    exact (List.dropLast_sublist _).subset hg
  refine hbase.ret f.pos .unknown none fun _ => ⟨fun g hg => ?_, fun g hg => ?_⟩
  · rw [hunacked] at hg
    exact hne g hg
  · rw [hqueue] at hg
    cases hg

/-- **A step keeps what is final**, but for the exception. -/
theorem Final.step (inv : Final c) (core : Core cfg c) (hkept : FlushKept c a)
    (h : Move cfg c a c') : Final c' := by
  have hpos : ∀ fs : List Frame, fs.Sublist c.log → ∀ f ∈ fs, f.pos ≠ 0 :=
    fun fs hfs f hf => (core.numbered.minted (hfs.subset hf)).2.ne'
  have hclear : Final { c with queued := [] } :=
    inv.subset rfl (fun _ hf => hf) fun _ hf => absurd hf List.not_mem_nil
  have hgone : Final { c with queued := [], unacked := [] } :=
    inv.subset rfl (fun _ hf => absurd hf List.not_mem_nil) fun _ hf => absurd hf List.not_mem_nil
  cases h with
  | begins | opens | dials | replays | opensSession => exact inv
  | retries | flushes | exitFlushes | exitFlushBreaks => exact hclear
  | refuses =>
      exact Final.ret (c := { c with fd := none }) inv _ _ _
        fun _ => ⟨hpos _ core.unacked, hpos _ core.queued⟩
  | @abandons _ f last failed hpc hf hlast =>
      exact Final.abandon (c := { c with queued := [] }) hclear rfl hlast
        (dropLast_ne (c := c) core hlast)
  | learnsGone => exact hgone.ret _ _ _ fun _ => ⟨nofun, nofun⟩
  | learnsGoneWaiting hpc hf => exact hgone.abandon rfl (Or.inl rfl) nofun
  | resumes => exact hclear.subset rfl (fun _ hf => (List.dropWhile_sublist _).subset hf) fun _ hf => hf
  | @queuesOneWay r gone f c' notices hpc hfd happ =>
      have happended := inv.append core (core.append happ hfd) happ
      exact happended.ret _ _ _ fun hfailed => absurd rfl hfailed.2
  | @queuesToFlush r gone f c' notices hpc hfd happ
  | @queuesWaiting r gone f c' notices hpc hfd happ =>
      have happended := inv.append core (core.append happ hfd) happ
      exact happended
  | flushesAsync => exact hclear.ret _ _ _ fun hfailed => absurd rfl hfailed.2
  | @flushAsyncBreaks f n hpc =>
      -- in such a run the buffer has overflown, and holds nothing
      simp only [FlushKept, hpc] at hkept
      have hempty := core.overflown hkept
      exact hclear.ret _ _ _ fun _ => ⟨fun g hg => (by rw [hempty] at hg; cases hg), nofun⟩
  | @receives f last reply =>
      have hacked : Final ({ c with lastReply := reply.reqId }.forgetAcked reply.reqId) :=
        inv.subset rfl (fun _ hf => (List.dropWhile_sublist _).subset hf) fun _ hf => hf
      exact hacked.ret _ _ _ fun hfailed => absurd hfailed.1 nofun

/-- What returned has returned. -/
theorem Move.returns (h : Move cfg c a c') : ∀ r ∈ c.returns, r ∈ c'.returns := by
  intro r hr
  cases h with
  | queuesOneWay hpc hfd happ => exact List.mem_append_left _ (happ.returns ▸ hr)
  | queuesToFlush hpc hfd happ | queuesWaiting hpc hfd happ => exact happ.returns ▸ hr
  | refuses | abandons | learnsGone | learnsGoneWaiting | flushesAsync | flushAsyncBreaks | receives =>
      exact List.mem_append_left _ hr
  | _ => exact hr

/-- No byte of the frame of a call that was told it failed is written. -/
theorem Final.touches (hfinal : Final c) (inv : Inv cfg c) {r : Return} (hr : r ∈ c.returns)
    (hfailed : r.failed) (hf : f ∈ c.touches a) : f.pos ≠ r.pos := by
  obtain ⟨hunacked, hqueued⟩ := hfinal r hr hfailed
  exact (inv.touches_buffers hf).elim (hunacked f) (hqueued f)

/-- What a failing call takes out of the replay buffer is its own frame, unless the session is gone. -/
theorem Move.withdraws {r : Return} (h : Move cfg c a c') (hreturns : c'.returns = c.returns ++ [r])
    (hfailed : r.failed) : c'.sessionGone = true ∨ ∀ g ∈ c.unacked, g.pos ≠ r.pos → g ∈ c'.unacked := by
  have hsame : ∀ rs : List Return, rs = c.returns → rs ≠ c.returns ++ [r] := by
    rintro _ rfl h
    simpa using congrArg List.length h
  have hlast : ∀ r' : Return, c.returns ++ [r'] = c.returns ++ [r] → r' = r := by
    intro r' h
    simpa using h
  cases h with
  | @abandons _ f last failed hpc hf hbuffer =>
      obtain rfl := hlast _ hreturns
      refine Or.inr fun g hg hne => ?_
      have hunacked : (({ c with connectFailed := failed, queued := [] } : Client).abandon f).unacked =
          c.unacked.dropLast := Core.abandon_unacked hbuffer
      rw [hunacked]
      rcases hbuffer with hnil | hbuffer
      · rw [hnil] at hg
        cases hg
      · rw [← List.dropLast_append_getLast? f hbuffer] at hg
        refine (List.mem_append.mp hg).resolve_right fun hg => hne ?_
        rw [List.mem_singleton.mp hg]
  | learnsGone | learnsGoneWaiting => exact Or.inl rfl
  | resumes => exact absurd hreturns (hsame _ rfl)
  | queuesToFlush hpc hfd happ | queuesWaiting hpc hfd happ =>
      exact absurd hreturns (hsame _ happ.returns)
  | @queuesOneWay r' gone f c' notices hpc hfd happ =>
      have hreturned : c.returns ++ [(⟨f.pos, .success, none⟩ : Return)] = c.returns ++ [r] := by
        rw [← hreturns, ← happ.returns]
        rfl
      obtain rfl := hlast _ hreturned
      exact absurd rfl hfailed.2
  | receives =>
      obtain rfl := hlast _ hreturns
      exact absurd hfailed.1 nofun
  | _ => exact Or.inr fun g hg _ => hg

end Client

end Rgpu
