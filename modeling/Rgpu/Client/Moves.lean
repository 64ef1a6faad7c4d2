import Rgpu.Client.Buffers

/-! # What a transition of the client comes to

The transitions of the client, with the invariant used to say where each ends: `ensure_connected_locked`,
`reconnect_locked` and `abandon_call_locked` are followed to the point at which they next wait, or the
call returns.

* **`Client.resume`** — where a client goes on once it is connected.
* **`Client.Move`** — the transitions; `Inv.move` says these are all. -/

namespace Rgpu

namespace Client

variable {cfg : ClientConfig} {c c' : Client}

/-- Where the client goes on with `rest` of the replay buffer to write. -/
def resume : List Frame → Purpose → ClientPc
  | [], .start r => .connected r
  | [], .retry f => .receiving f true
  | g :: rest, k => .replaying (g :: rest) k

/-- The client is between making a connection and having it, for a call it is starting. -/
inductive Starting : ClientPc → Prop
  | idle : Starting .idle
  | opening {r} : Starting (.opening (.start r))
  | connecting {conn r} : Starting (.connecting conn (.start r))
  | replaying {rest r} : Starting (.replaying rest (.start r))

/-- The client has queued `f` and waits for its reply; `true` if it may connect once more for it. -/
inductive Awaiting (f : Frame) : ClientPc → Bool → Prop
  | opening : Awaiting f (.opening (.retry f)) true
  | connecting {conn} : Awaiting f (.connecting conn (.retry f)) true
  | replaying {rest} : Awaiting f (.replaying rest (.retry f)) true
  | flushing : Awaiting f (.flushing f false) true
  | receiving {last} : Awaiting f (.receiving f last) (!last)
  | retrying : Awaiting f (.retrying f) true

/-- The transitions, each with what it assumes of the state before and where it ends. -/
inductive Move (cfg : ClientConfig) (c : Client) : ClientAction → Client → Prop
  | begins {r} (hpc : c.pc = .idle) (hfd : c.fd ≠ none) : Move cfg c (.begin r) { c with pc := .connected r }
  | opens {a k failed} (hfd : c.fd = none) (hgone : c.sessionGone = false)
      (hpc : (∃ r, c.pc = .idle ∧ k = .start r ∧ c.connectFailed = false) ∨
        ∃ f, c.pc = .retrying f ∧ k = .retry f)
      (hk : Purpose.Holds c k) : Move cfg c a { c with connectFailed := failed, pc := .opening k }
  | dials {k conn} (hpc : c.pc = .opening k) (hfd : c.fd = none) :
      Move cfg c (.connect (some conn)) { c with pc := .connecting conn k }
  /-- A call that is starting is refused. -/
  | refuses {a failed} (hpc : Starting c.pc) (hqueue : c.queued = [])
      (hfailed : failed = true ∨ failed = c.connectFailed ∧ (c.fd ≠ none ∨ c.sessionGone = true)) :
      Move cfg c a ({ c with connectFailed := failed, fd := none }.ret 0 .notInitialized none)
  /-- A call that has queued its frame goes to connect again. -/
  | retries {a f failed} (hpc : Awaiting f c.pc true) (hf : Purpose.Holds c (.retry f))
      (hgone : c.sessionGone = false) (hfailed : failed = c.connectFailed ∨ failed = true) :
      Move cfg c a { c with connectFailed := failed, fd := none, queued := [], pc := .retrying f }
  /-- It is given up. -/
  | abandons {a f last failed} (hpc : Awaiting f c.pc last) (hf : c.Waiting f)
      (hlast : c.unacked = [] ∨ c.unacked.getLast? = some f)
      (hfailed : failed = c.connectFailed ∨ failed = true) :
      Move cfg c a ({ c with connectFailed := failed, queued := [] }.abandon f)
  /-- The server says the session is gone to a client that is starting a call. -/
  | learnsGone {conn r reply} (hpc : c.pc = .connecting conn (.start r)) (hfd : c.fd = none)
      (hhad : c.hadSession = true) (hresumed : reply.resumed = false) :
      Move cfg c (.readReply (some reply))
        ({ c with sessionGone := true, connectFailed := true, queued := [], unacked := [],
                  unackedBytes := 0 }.ret 0 .notInitialized none)
  /-- The server says so to a client that retries one. -/
  | learnsGoneWaiting {conn f reply} (hpc : c.pc = .connecting conn (.retry f)) (hf : c.Waiting f)
      (hhad : c.hadSession = true) (hresumed : reply.resumed = false) :
      Move cfg c (.readReply (some reply))
        ({ c with sessionGone := true, connectFailed := true, queued := [], unacked := [],
                  unackedBytes := 0 }.abandon f)
  | resumes {conn k reply} (hpc : c.pc = .connecting conn k) (hfd : c.fd = none)
      (hgone : c.sessionGone = false) (hk : Purpose.Holds c k) (hresumed : reply.resumed = true) :
      Move cfg c (.readReply (some reply))
        { c.forgetAcked reply.lastReq with
          fd := some conn
          hadSession := true
          opened := c.opened.or reply.session
          queued := []
          pc := resume (c.forgetAcked reply.lastReq).unacked k }
  | opensSession {conn r reply} (hpc : c.pc = .connecting conn (.start r)) (hfd : c.fd = none)
      (hhad : c.hadSession = false) (hbusy : reply.busy = false)
      (hversion : reply.version = kProtocolVersion) (hresumed : reply.resumed = false) :
      Move cfg c (.readReply (some reply))
        { c with
          fd := some conn
          hadSession := true
          opened := c.opened.or reply.session
          pc := .connected r }
  | replays {g rest k} (hpc : c.pc = .replaying (g :: rest) k) (hfd : c.fd ≠ none)
      (hqueue : c.queued = []) (hrest : g :: rest <:+ c.unacked) (hk : Purpose.Holds c k) :
      Move cfg c (.replay true) { c with pc := resume rest k }
  /-- A frame that is not to be answered is queued. -/
  | queuesOneWay {r gone f c' notices} (hpc : c.pc = .connected r) (hfd : c.fd ≠ none)
      (happ : Appends cfg c c' (notices ++ [f])) (hnotices : ∀ g ∈ notices, g.noReply = true)
      (honeWay : f.noReply = true) :
      Move cfg c (.queue gone) (c'.ret f.pos .success none)
  /-- One is, and the queue is to be written. -/
  | queuesToFlush {r gone f c' notices} (hpc : c.pc = .connected r) (hfd : c.fd ≠ none)
      (happ : Appends cfg c c' (notices ++ [f])) (hnotices : ∀ g ∈ notices, g.noReply = true)
      (honeWay : f.noReply = true) : Move cfg c (.queue gone) { c' with pc := .flushingAsync f }
  /-- A frame that is to be answered is queued. -/
  | queuesWaiting {r gone f c' notices} (hpc : c.pc = .connected r) (hfd : c.fd ≠ none)
      (happ : Appends cfg c c' (notices ++ [f])) (hnotices : ∀ g ∈ notices, g.noReply = true)
      (hreply : f.noReply = false) : Move cfg c (.queue gone) { c' with pc := .flushing f false }
  | flushes {f} (hpc : c.pc = .flushing f false) (hfd : c.fd ≠ none) (hf : c.Waiting f) :
      Move cfg c (.flush none) { c with queued := [], pc := .receiving f false }
  | flushesAsync {f} (hpc : c.pc = .flushingAsync f) (hfd : c.fd ≠ none)
      (hlast : c.log.getLast? = some f) (honeWay : f.noReply = true) :
      Move cfg c (.flush none) ({ c with queued := [] }.ret f.pos .success none)
  | flushAsyncBreaks {f n} (hpc : c.pc = .flushingAsync f) (hfd : c.fd ≠ none)
      (hlast : c.log.getLast? = some f) (hn : n < c.queued.length) :
      Move cfg c (.flush (some n)) ({ c with queued := [], fd := none }.ret f.pos .unknown none)
  | receives {f last reply} (hpc : c.pc = .receiving f last) (hfd : c.fd ≠ none)
      (hqueue : c.queued = []) (hf : c.Waiting f) (hid : reply.reqId.id = f.reqId.id) :
      Move cfg c (.receive (some reply))
        (({ c with lastReply := reply.reqId }.forgetAcked reply.reqId).ret f.pos reply.result
          (some reply))
  | exitFlushes (hpc : c.pc = .idle) (hfd : c.fd ≠ none) :
      Move cfg c (.exitFlush none) { c with queued := [] }
  | exitFlushBreaks {n} (hpc : c.pc = .idle) (hn : n < c.queued.length) :
      Move cfg c (.exitFlush (some n)) { c with queued := [], fd := none }

/-- A move to a state is one to a state equal to it. -/
theorem Move.of_eq {a : ClientAction} {t : Client} (h : Move cfg c a t) (heq : t = c') :
    Move cfg c a c' := heq ▸ h

/-- Nothing is lost with the queue when nothing is queued. -/
theorem clear_eq (hqueue : c.queued = []) : { c with queued := [] } = c := by
  cases c
  cases hqueue
  rfl

/-- With nothing queued, a connection that is made goes on with the call. -/
theorem isConnected_eq (hqueue : c.queued = []) (k : Purpose) :
    c.isConnected k = { c with pc := resume [] k } := by
  cases k with
  | start r => rfl
  | retry f =>
      unfold isConnected awaitReply
      dsimp only
      rw [if_pos hqueue]
      rfl

/-- With nothing queued, what is left to replay comes next, and then the call. -/
theorem replayRest_eq (hqueue : c.queued = []) (rest : List Frame) (k : Purpose) :
    c.replayRest rest k = { c with pc := resume rest k } := by
  unfold replayRest
  cases rest with
  | nil =>
      rw [if_pos rfl]
      exact isConnected_eq hqueue k
  | cons g rest =>
      rw [if_neg nofun]
      rfl

/-- A connection that could not be made, for a call of either kind. -/
theorem Move.of_notConnected {a : ClientAction} {k : Purpose} {failed : Bool}
    (hqueue : c.queued = []) (hgone : c.sessionGone = false) (hk : Purpose.Holds c k)
    (hfailed : failed = true ∨ failed = c.connectFailed ∧ c.fd ≠ none)
    (hstart : ∀ r, k = .start r → Starting c.pc) (hretry : ∀ f, k = .retry f → Awaiting f c.pc true) :
    Move cfg c a ({ c with connectFailed := failed, fd := none }.notConnected k) := by
  cases k with
  | start r => exact .refuses (hstart r rfl) hqueue (hfailed.imp_right fun h => ⟨h.1, Or.inl h.2⟩)
  | retry f =>
      refine (Move.retries (hretry f rfl) hk hgone (hfailed.symm.imp_left And.left)).of_eq ?_
      unfold notConnected
      dsimp only
      rw [hgone, if_neg nofun, ← clear_eq hqueue]

/-- A connection that broke under a call that waits. -/
theorem Move.of_broken {a : ClientAction} {f : Frame} {last : Bool}
    (hpc : Awaiting f c.pc (!last)) (hgone : c.sessionGone = false) (hf : c.Waiting f)
    (hlast : c.unacked = [] ∨ c.unacked.getLast? = some f)
    (hkept : last = false → c.replayPossible = true → c.unacked.getLast? = some f) :
    Move cfg c a ({ c with queued := [] }.broken f last) := by
  have hgiveUp : Move cfg c a ({ c with queued := [] }.drop.abandon f) :=
    Move.abandons hpc hf hlast (Or.inl rfl)
  unfold broken
  cases last with
  | true => exact hgiveUp
  | false =>
      rw [if_neg nofun]
      unfold reconnect
      split
      · rename_i hpossible
        exact Move.retries hpc ⟨hf, hpossible, hkept rfl hpossible⟩ hgone (Or.inl rfl)
      · exact hgiveUp

/-- **Every transition is one of these.** -/
theorem Inv.move {a : ClientAction} (inv : Inv cfg c) (h : Step cfg c a c') : Move cfg c a c' := by
  obtain ⟨core, here⟩ := inv
  unfold Here at here
  cases h with
  | beganConnected hpc hfd => exact .begins hpc hfd
  | beganRefused hpc hfd hfailed =>
      have hfailed' : c.connectFailed = true ∨
          c.connectFailed = c.connectFailed ∧ (c.fd ≠ none ∨ c.sessionGone = true) :=
        hfailed.symm.imp_right fun h => ⟨rfl, Or.inr h⟩
      refine (Move.refuses (hpc ▸ .idle) (core.offline hfd) hfailed').of_eq ?_
      rw [← hfd]
  | beganOpening hpc hfd hgone hfailed =>
      exact .opens hfd hgone (Or.inl ⟨_, hpc, rfl, hfailed⟩) trivial
  | @unreachable k hpc | @unanswered conn k hpc | @refused conn k reply hpc =>
      rw [hpc] at here
      obtain ⟨hfd, hgone, hk⟩ := here
      refine (Move.of_notConnected (core.offline hfd) hgone hk (Or.inl rfl) ?_ ?_).of_eq (by rw [← hfd])
      · rintro r rfl
        rw [hpc]
        constructor
      · rintro f rfl
        rw [hpc]
        constructor
  | dialled hpc =>
      rw [hpc] at here
      exact .dials hpc here.1
  | @learnedGone conn k reply hpc hbusy hversion hhad hresumed =>
      rw [hpc] at here
      obtain ⟨hfd, -, hk⟩ := here
      cases k with
      | start r => exact .learnsGone hpc hfd hhad hresumed
      | retry f => exact .learnsGoneWaiting hpc hk.1 hhad hresumed
  | @resumed conn k reply hpc hbusy hversion hresumed =>
      rw [hpc] at here
      obtain ⟨hfd, hgone, hk⟩ := here
      rw [replayRest_eq rfl]
      exact .resumes hpc hfd hgone hk hresumed
  | @openedNew conn k reply hpc hbusy hversion hhad hresumed =>
      rw [hpc] at here
      obtain ⟨hfd, -, hk⟩ := here
      cases k with
      | start r => exact .opensSession hpc hfd hhad hbusy hversion hresumed
      | retry f =>
          -- nothing was queued before the first session, so no call waits
          have hmem := hk.1.mem
          rw [(core.fresh hhad).1] at hmem
          cases hmem
  | @replayed g rest k hpc =>
      rw [hpc] at here
      obtain ⟨hfd, hqueue, -, hrest, hk⟩ := here
      rw [replayRest_eq hqueue]
      exact .replays hpc hfd hqueue hrest hk
  | @replayBroke g rest k hpc =>
      rw [hpc] at here
      obtain ⟨hfd, hqueue, -, -, hk⟩ := here
      refine Move.of_notConnected hqueue (sessionGone_eq_false core hfd)
        hk (Or.inr ⟨rfl, hfd⟩) ?_ ?_
      · rintro r rfl
        rw [hpc]
        constructor
      · rintro f rfl
        rw [hpc]
        constructor
  | queuedReturn hpc hqueue honeWay =>
      rw [hpc] at here
      obtain ⟨notices, happ, hnotices, -⟩ := queueFrame_appends hqueue
      exact .queuesOneWay hpc here happ hnotices honeWay
  | queuedFlush hpc hqueue honeWay =>
      rw [hpc] at here
      obtain ⟨notices, happ, hnotices, -⟩ := queueFrame_appends hqueue
      exact .queuesToFlush hpc here happ hnotices honeWay
  | queuedWaiting hpc hqueue hreply =>
      rw [hpc] at here
      obtain ⟨notices, happ, hnotices, -⟩ := queueFrame_appends hqueue
      exact .queuesWaiting hpc here happ hnotices hreply
  | @flushed f last hpc =>
      rw [hpc] at here
      obtain ⟨hfd, rfl, hwaiting, -⟩ := here
      exact .flushes hpc hfd hwaiting
  | @flushBroke f last n hpc =>
      rw [hpc] at here
      obtain ⟨hfd, rfl, hwaiting, hlast, hkept⟩ := here
      exact Move.of_broken (hpc ▸ .flushing) (sessionGone_eq_false core hfd) hwaiting hlast
        fun _ => hkept
  | flushedAsync hpc =>
      rw [hpc] at here
      exact .flushesAsync hpc here.1 here.2.1 here.2.2.1
  | flushAsyncBroke hpc hn =>
      rw [hpc] at here
      exact .flushAsyncBreaks hpc here.1 here.2.1 hn
  | @receiveBroke f last hpc =>
      rw [hpc] at here
      obtain ⟨hfd, hqueue, hwaiting, hlast, hkept⟩ := here
      refine (Move.of_broken (hpc ▸ .receiving) (sessionGone_eq_false core hfd) hwaiting hlast
        hkept).of_eq ?_
      rw [clear_eq hqueue]
  | @mismatched f last reply hpc hid =>
      rw [hpc] at here
      obtain ⟨-, hqueue, hwaiting, hlast, -⟩ := here
      have hawaiting : Awaiting f c.pc (!last) := hpc ▸ .receiving
      refine (Move.abandons hawaiting hwaiting hlast (Or.inl rfl)).of_eq ?_
      rw [← clear_eq hqueue]
      rfl
  | @received f last reply hpc hid =>
      rw [hpc] at here
      exact .receives hpc here.1 here.2.1 here.2.2.1 hid
  | @triedAgain f hpc =>
      rw [hpc] at here
      exact .opens here.1 here.2.1 (Or.inr ⟨f, hpc, rfl⟩) here.2.2
  | @gaveUp f hpc =>
      rw [hpc] at here
      obtain ⟨hfd, -, hwaiting, -, hlast⟩ := here
      have hawaiting : Awaiting f c.pc true := hpc ▸ .retrying
      refine (Move.abandons hawaiting hwaiting (Or.inr hlast) (Or.inr rfl)).of_eq ?_
      rw [← clear_eq (core.offline hfd)]
  | exitFlushed hpc hfd => exact .exitFlushes hpc hfd
  | exitFlushBroke hpc hfd hn => exact .exitFlushBreaks hpc hn

end Client

end Rgpu
