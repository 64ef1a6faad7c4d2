import Rgpu.Client.Rpc

/-! # What is in the client's buffers

The invariant of the client on its own, on any network and with any server: the frames it holds are
among those it queued, in their order, and where the thread that has the lock is says which of them it
is waiting for.

* **`Numbered`** — the frames a client queued carry the ids of their positions.
* **`Client.Appends`** — what queueing does, whatever is queued.
* **`Client.Inv`** — the invariant; `Client.Inv.step` keeps it. -/

namespace Rgpu

/-! ## Numbering -/

/-- The frames of a client that starts at `first`, in the order they were queued. -/
def Numbered (first : UInt32) (log : List Frame) : Prop :=
  ∀ (n : ℕ) (f : Frame), log[n]? = some f → f.reqId = ⟨reqIdAt first (n + 1), n + 1⟩

namespace Numbered

variable {first : UInt32} {log : List Frame} {f g : Frame}

/-- No frame is numbered wrongly where there is none. -/
theorem nil (first : UInt32) : Numbered first [] := by
  intro n f h
  simp at h

/-- The next frame has the next number. -/
theorem append (hlog : Numbered first log)
    (hf : f.reqId = ⟨reqIdAt first (log.length + 1), log.length + 1⟩) :
    Numbered first (log ++ [f]) := by
  intro n g hg
  rcases Nat.lt_trichotomy n log.length with hlt | rfl | hgt
  · rw [List.getElem?_append_left hlt] at hg
    exact hlog n g hg
  · rw [List.getElem?_concat_length, Option.some.injEq] at hg
    exact hg ▸ hf
  · have hlen : (log ++ [f]).length ≤ n := by
      rw [List.length_append]
      exact hgt
    rw [List.getElem?_eq_none hlen] at hg
    cases hg

/-- A frame's position is its place in the order of queueing, from one. -/
theorem getElem?_pos (hlog : Numbered first log) (hf : f ∈ log) :
    0 < f.pos ∧ log[f.pos - 1]? = some f := by
  obtain ⟨n, hn⟩ := List.getElem?_of_mem hf
  have hid := hlog n f hn
  rw [Frame.pos, hid]
  exact ⟨Nat.succ_pos n, hn⟩

/-- Every frame that was queued has an id minted so far. -/
theorem minted (hlog : Numbered first log) (hf : f ∈ log) :
    f.reqId.Minted first log.length ∧ 0 < f.pos := by
  obtain ⟨n, hn⟩ := List.getElem?_of_mem hf
  have hlt : n < log.length := (List.getElem?_eq_some_iff.mp hn).1
  have hid := hlog n f hn
  rw [Frame.pos, hid]
  exact ⟨⟨rfl, hlt⟩, Nat.succ_pos n⟩

/-- The last frame is at the last position. -/
theorem pos_of_getLast? (hlog : Numbered first log) (h : log.getLast? = some f) :
    f.pos = log.length := by
  have hne : log ≠ [] := by
    rintro rfl
    cases h
  rw [List.getLast?_eq_getElem?] at h
  have hid := hlog _ f h
  have hlen := List.length_pos_iff.mpr hne
  rw [Frame.pos, hid]
  change log.length - 1 + 1 = log.length
  omega

/-- Later frames are at later positions. -/
theorem pairwise (hlog : Numbered first log) : log.Pairwise fun f g => f.pos < g.pos := by
  rw [List.pairwise_iff_getElem]
  intro i j hi hj hij
  rw [Frame.pos, Frame.pos, hlog i _ (List.getElem?_eq_getElem hi),
    hlog j _ (List.getElem?_eq_getElem hj)]
  exact Nat.succ_lt_succ hij

end Numbered

namespace Client

variable {cfg : ClientConfig} {c c' c'' : Client} {f : Frame} {fs : List Frame}

/-! ## Queueing -/

/-- `c'` is `c` once the frames `fs` are queued: they are in the send buffer, and in the replay buffer
behind what was there, unless that has outgrown its bound, now or before, and is empty. -/
structure Appends (cfg : ClientConfig) (c c' : Client) (fs : List Frame) : Prop where
  log : c'.log = c.log ++ fs
  queued : c'.queued = c.queued ++ fs
  unacked : c.replayPossible = true ∧ c'.replayPossible = true ∧ c'.unacked = c.unacked ++ fs ∨
    c'.replayPossible = false ∧ (c'.unacked = [] ∨ c.replayPossible = false ∧ c'.unacked = c.unacked)
  numbered : Numbered cfg.firstReqId c.log → c.reqIds = counterAt cfg.firstReqId c.log.length →
    Numbered cfg.firstReqId c'.log ∧ c'.reqIds = counterAt cfg.firstReqId c'.log.length
  fd : c'.fd = c.fd
  connectFailed : c'.connectFailed = c.connectFailed
  hadSession : c'.hadSession = c.hadSession
  sessionGone : c'.sessionGone = c.sessionGone
  lastReply : c'.lastReply = c.lastReply
  pc : c'.pc = c.pc
  returns : c'.returns = c.returns
  opened : c'.opened = c.opened

/-- Nothing is queued. -/
theorem Appends.refl (cfg : ClientConfig) (c : Client) : Appends cfg c c [] where
  log := (List.append_nil _).symm
  queued := (List.append_nil _).symm
  unacked := by cases h : c.replayPossible <;> simp
  numbered := fun h h' => ⟨h, h'⟩
  fd := rfl
  connectFailed := rfl
  hadSession := rfl
  sessionGone := rfl
  lastReply := rfl
  pc := rfl
  returns := rfl
  opened := rfl

/-- What is queued, and then what is queued after it. -/
theorem Appends.trans {gs : List Frame} (h : Appends cfg c c' fs) (h' : Appends cfg c' c'' gs) :
    Appends cfg c c'' (fs ++ gs) where
  log := by rw [h'.log, h.log, List.append_assoc]
  queued := by rw [h'.queued, h.queued, List.append_assoc]
  unacked := by
    have h1 := h.unacked
    have h2 := h'.unacked
    grind
  numbered := fun hn hi => (h.numbered hn hi).elim h'.numbered
  fd := h'.fd.trans h.fd
  connectFailed := h'.connectFailed.trans h.connectFailed
  hadSession := h'.hadSession.trans h.hadSession
  sessionGone := h'.sessionGone.trans h.sessionGone
  lastReply := h'.lastReply.trans h.lastReply
  pc := h'.pc.trans h.pc
  returns := h'.returns.trans h.returns
  opened := h'.opened.trans h.opened

/-- The id minted is that of the next position. -/
theorem numbered_mint (hlog : Numbered cfg.firstReqId c.log)
    (hids : c.reqIds = counterAt cfg.firstReqId c.log.length)
    (hf : f.reqId = ⟨(mintReqId cfg.firstReqId c.reqIds).1, c.log.length + 1⟩) :
    Numbered cfg.firstReqId (c.log ++ [f]) ∧
      (mintReqId cfg.firstReqId c.reqIds).2 =
        counterAt cfg.firstReqId (c.log ++ [f]).length := by
  refine ⟨hlog.append ?_, ?_⟩
  · rw [hf, hids]
    rfl
  · rw [List.length_append, hids]
    rfl

/-- Queueing one frame appends it, and it is of the call that was asked for. -/
theorem queueOne_appends {noReply : Bool} {threadId : ThreadId} {call : Call} {payloadLen : ℕ}
    (h : c.queueOne cfg noReply threadId call payloadLen = (f, c')) :
    Appends cfg c c' [f] ∧ f.noReply = noReply ∧ f.threadId = threadId ∧ f.call = call := by
  unfold queueOne at h
  dsimp only at h
  by_cases hpossible : c.replayPossible = true
  · rw [if_pos hpossible] at h
    split at h
    · obtain ⟨rfl, rfl⟩ := Prod.mk.inj h
      exact ⟨⟨rfl, rfl, Or.inr ⟨rfl, Or.inl rfl⟩, fun hn hi => numbered_mint hn hi rfl, rfl, rfl, rfl,
        rfl, rfl, rfl, rfl, rfl⟩, rfl, rfl, rfl⟩
    · obtain ⟨rfl, rfl⟩ := Prod.mk.inj h
      exact ⟨⟨rfl, rfl, Or.inl ⟨hpossible, hpossible, rfl⟩, fun hn hi => numbered_mint hn hi rfl, rfl,
        rfl, rfl, rfl, rfl, rfl, rfl, rfl⟩, rfl, rfl, rfl⟩
  · rw [if_neg hpossible] at h
    rw [Bool.not_eq_true] at hpossible
    obtain ⟨rfl, rfl⟩ := Prod.mk.inj h
    exact ⟨⟨rfl, rfl, Or.inr ⟨hpossible, Or.inr ⟨hpossible, rfl⟩⟩,
      fun hn hi => numbered_mint hn hi rfl, rfl, rfl, rfl, rfl, rfl, rfl, rfl, rfl⟩, rfl, rfl, rfl⟩

/-- **What a call queues**: its own frame, and ahead of it at most a notice that is not waited for. -/
theorem queueFrame_appends {r : Request} {gone : List ThreadId}
    (h : c.queueFrame cfg r gone = (f, c')) :
    ∃ notices : List Frame, Appends cfg c c' (notices ++ [f]) ∧ (∀ g ∈ notices, g.noReply = true) ∧
      f.noReply = (r.oneWay && cfg.batching) := by
  unfold queueFrame queueNotice at h
  by_cases hgone : gone = []
  · rw [if_pos hgone] at h
    obtain ⟨happ, hreply, -⟩ := queueOne_appends h
    exact ⟨[], happ, by simp, hreply⟩
  · rw [if_neg hgone] at h
    obtain ⟨hnotice, hn, -⟩ := queueOne_appends
      (show c.queueOne cfg true r.threadId (.threadGone gone) (4 + 4 * gone.length) = (_, _) from rfl)
    obtain ⟨happ, hreply, -⟩ := queueOne_appends h
    exact ⟨[_], hnotice.trans happ, by simpa using hn, hreply⟩

/-! ## The invariant -/

/-- What holds wherever the client is. -/
structure Core (cfg : ClientConfig) (c : Client) : Prop where
  numbered : Numbered cfg.firstReqId c.log
  reqIds : c.reqIds = counterAt cfg.firstReqId c.log.length
  unacked : c.unacked.Sublist c.log
  queued : c.queued.Sublist c.log
  offline : c.fd = none → c.queued = []
  overflown : c.replayPossible = false → c.unacked = []
  returned : ∀ r ∈ c.returns, r.pos ≤ c.log.length
  fresh : c.hadSession = false → c.log = [] ∧ c.fd = none ∧ c.lastReply = .none ∧ c.opened = none ∧
    c.replayPossible = true
  gone : c.sessionGone = true → c.fd = none ∧ c.unacked = [] ∧ c.hadSession = true

/-- `f` is the frame queued last, is to be answered, and its call has not returned. -/
structure Waiting (c : Client) (f : Frame) : Prop where
  last : c.log.getLast? = some f
  reply : f.noReply = false
  inCall : ∀ r ∈ c.returns, r.pos < f.pos

/-- What holds of the call a connection is made for. A call that is retried is kept for replay. -/
def Purpose.Holds (c : Client) : Purpose → Prop
  | .start _ => True
  | .retry f => c.Waiting f ∧ c.replayPossible = true ∧ c.unacked.getLast? = some f

/-- What holds where the client is. -/
def Here (c : Client) : Prop :=
  match c.pc with
  | .idle => True
  | .opening k | .connecting _ k => c.fd = none ∧ c.sessionGone = false ∧ Purpose.Holds c k
  | .replaying rest k =>
      c.fd ≠ none ∧ c.queued = [] ∧ rest ≠ [] ∧ rest <:+ c.unacked ∧ Purpose.Holds c k
  | .connected _ => c.fd ≠ none
  | .flushing f last =>
      c.fd ≠ none ∧ last = false ∧ c.Waiting f ∧ (c.unacked = [] ∨ c.unacked.getLast? = some f) ∧
        (c.replayPossible = true → c.unacked.getLast? = some f)
  | .flushingAsync f =>
      c.fd ≠ none ∧ c.log.getLast? = some f ∧ f.noReply = true ∧ ∀ r ∈ c.returns, r.pos < f.pos
  | .receiving f last =>
      c.fd ≠ none ∧ c.queued = [] ∧ c.Waiting f ∧ (c.unacked = [] ∨ c.unacked.getLast? = some f) ∧
        (last = false → c.replayPossible = true → c.unacked.getLast? = some f)
  | .retrying f => c.fd = none ∧ c.sessionGone = false ∧ Purpose.Holds c (.retry f)

/-- The invariant of the client. -/
structure Inv (cfg : ClientConfig) (c : Client) : Prop where
  core : Core cfg c
  here : Here c

/-- Whether a call is waiting is a matter of what was queued and what returned. -/
theorem Waiting.congr (h : c.Waiting f) (hlog : c'.log = c.log) (hreturns : c'.returns = c.returns) :
    c'.Waiting f := ⟨hlog ▸ h.last, h.reply, hreturns ▸ h.inCall⟩

/-- What is waited for has been queued. -/
theorem Waiting.mem (h : c.Waiting f) : f ∈ c.log := List.mem_of_getLast? h.last

/-- A frame that is waited for was queued last. -/
theorem Waiting.pos_eq (h : c.Waiting f) (core : Core cfg c) : f.pos = c.log.length :=
  core.numbered.pos_of_getLast? h.last

namespace Core

/-- The core of the invariant holds of a client that has just begun. -/
theorem initial (cfg : ClientConfig) : Core cfg {} where
  numbered := Numbered.nil _
  reqIds := rfl
  unacked := List.Sublist.refl _
  queued := List.Sublist.refl _
  offline := fun _ => rfl
  overflown := nofun
  returned := by simp
  fresh := fun _ => ⟨rfl, rfl, rfl, rfl, rfl⟩
  gone := nofun

/-- Where the client is, and whether connecting failed, is no matter of what holds everywhere. -/
theorem setPc (inv : Core cfg c) (pc : ClientPc) (failed : Bool) :
    Core cfg { c with pc := pc, connectFailed := failed } :=
  ⟨inv.numbered, inv.reqIds, inv.unacked, inv.queued, inv.offline, inv.overflown, inv.returned,
    inv.fresh, inv.gone⟩

/-- A call returns, of a request that was queued or none. -/
theorem ret (inv : Core cfg c) {pos : ℕ} (hpos : pos ≤ c.log.length) (result : CUresult)
    (reply : Option Reply) : Core cfg (c.ret pos result reply) where
  numbered := inv.numbered
  reqIds := inv.reqIds
  unacked := inv.unacked
  queued := inv.queued
  offline := inv.offline
  overflown := inv.overflown
  returned := by
    intro r hr
    rcases List.mem_append.mp hr with hr | hr
    · exact inv.returned r hr
    · obtain rfl := List.mem_singleton.mp hr
      exact hpos
  fresh := inv.fresh
  gone := inv.gone

/-- The send buffer is written or thrown away. -/
theorem clearQueue (inv : Core cfg c) : Core cfg { c with queued := [] } :=
  { inv with queued := List.nil_sublist _, offline := fun _ => rfl }

/-- The connection is dropped when nothing is queued. -/
theorem drop (inv : Core cfg c) (hqueue : c.queued = []) : Core cfg c.drop :=
  { inv with
    offline := fun _ => hqueue
    fresh := fun h => ⟨(inv.fresh h).1, rfl, (inv.fresh h).2.2⟩
    gone := fun h => ⟨rfl, (inv.gone h).2⟩ }

/-- What the server has is forgotten, from the front of the replay buffer. -/
theorem forgetAcked (inv : Core cfg c) (upTo : RequestId) : Core cfg (c.forgetAcked upTo) :=
  { inv with
    unacked := (List.dropWhile_sublist _).trans inv.unacked
    overflown := fun h => by
      rw [Client.forgetAcked]
      simp [inv.overflown h]
    gone := fun h => ⟨(inv.gone h).1, by
      rw [Client.forgetAcked]
      simp [(inv.gone h).2.1], (inv.gone h).2.2⟩ }

/-- The last reply is one of a request that was queued. -/
theorem setLastReply (inv : Core cfg c) (hlog : c.log ≠ []) (r : RequestId) :
    Core cfg { c with lastReply := r } :=
  { inv with fresh := fun h => absurd (inv.fresh h).1 hlog }

/-- Frames are queued while there is a connection. -/
theorem append (inv : Core cfg c) (happ : Appends cfg c c' fs) (hfd : c.fd ≠ none) :
    Core cfg c' where
  numbered := (happ.numbered inv.numbered inv.reqIds).1
  reqIds := (happ.numbered inv.numbered inv.reqIds).2
  unacked := by
    rw [happ.log]
    rcases happ.unacked with ⟨-, -, h⟩ | ⟨-, h | ⟨-, h⟩⟩
    · rw [h]
      exact inv.unacked.append (List.Sublist.refl _)
    · rw [h]
      exact List.nil_sublist _
    · rw [h]
      exact inv.unacked.trans (List.sublist_append_left _ _)
  queued := by
    rw [happ.log, happ.queued]
    exact inv.queued.append (List.Sublist.refl _)
  offline := fun h => absurd (happ.fd ▸ h) hfd
  overflown := by
    intro h
    rcases happ.unacked with ⟨-, hp, -⟩ | ⟨-, h' | ⟨hp, h'⟩⟩
    · rw [hp] at h
      cases h
    · exact h'
    · rw [h', inv.overflown hp]
  returned := by
    intro r hr
    rw [happ.returns] at hr
    rw [happ.log, List.length_append]
    exact (inv.returned r hr).trans (Nat.le_add_right _ _)
  fresh := fun h => absurd (inv.fresh (happ.hadSession ▸ h)).2.1 hfd
  gone := fun h => absurd (inv.gone (happ.sessionGone ▸ h)).1 hfd

/-- **Giving a call up** takes its own frame out of the replay buffer, if it is there, and no other. -/
theorem abandon_unacked (h : c.unacked = [] ∨ c.unacked.getLast? = some f) :
    (c.abandon f).unacked = c.unacked.dropLast := by
  have hlast : (c.abandon f).unacked =
      if c.lastUnacked f.reqId then c.unacked.dropLast else c.unacked := rfl
  rw [hlast, lastUnacked]
  rcases h with h | h
  · rw [h]
    rfl
  · rw [h]
    exact if_pos (decide_eq_true rfl)

/-- A call is given up: its frame leaves the replay buffer, and the connection is dropped. -/
theorem abandon (inv : Core cfg c) (hqueue : c.queued = []) (hwaiting : c.Waiting f)
    (hlast : c.unacked = [] ∨ c.unacked.getLast? = some f) : Core cfg (c.abandon f) := by
  have hne : c.log ≠ [] := List.ne_nil_of_mem hwaiting.mem
  have hunacked := abandon_unacked hlast
  have hbase : Core cfg { c with
      unacked := (c.abandon f).unacked
      unackedBytes := (c.abandon f).unackedBytes
      lastReply := f.reqId
      fd := none } :=
    { inv with
      unacked := by
        rw [hunacked]
        exact (List.dropLast_sublist _).trans inv.unacked
      offline := fun _ => hqueue
      overflown := fun h => by
        rw [hunacked, inv.overflown h]
        rfl
      fresh := fun h => absurd (inv.fresh h).1 hne
      gone := fun h => ⟨rfl, by rw [hunacked, (inv.gone h).2.1]; rfl, (inv.gone h).2.2⟩ }
  exact hbase.ret (hwaiting.pos_eq inv).le _ _

end Core

/-- The frame queued last is the last of all. -/
theorem Appends.getLast?_log (happ : Appends cfg c c' (fs ++ [f])) : c'.log.getLast? = some f := by
  rw [happ.log, ← List.append_assoc, List.getLast?_concat]

/-- What returned before a frame was queued is about requests before it. -/
theorem Appends.inCall (happ : Appends cfg c c' (fs ++ [f])) (core : Core cfg c)
    (core' : Core cfg c') : ∀ r ∈ c'.returns, r.pos < f.pos := by
  intro r hr
  rw [happ.returns] at hr
  have hpos := core'.numbered.pos_of_getLast? happ.getLast?_log
  rw [happ.log, List.length_append, List.length_append, List.length_singleton] at hpos
  have hle := core.returned r hr
  omega

/-! ### Each operation leaves the client where its invariant holds -/

/-- The invariant holds of a client that has just begun. -/
theorem Inv.initial (cfg : ClientConfig) : Inv cfg {} := ⟨Core.initial cfg, trivial⟩

/-- A call that returns leaves the client idle. -/
theorem Inv.ret (core : Core cfg c) {pos : ℕ} (hpos : pos ≤ c.log.length) (result : CUresult)
    (reply : Option Reply) : Inv cfg (c.ret pos result reply) :=
  ⟨core.ret hpos result reply, trivial⟩

/-- A call that is given up leaves the client idle. -/
theorem Inv.abandon (core : Core cfg c) (hqueue : c.queued = []) (hwaiting : c.Waiting f)
    (hlast : c.unacked = [] ∨ c.unacked.getLast? = some f) : Inv cfg (c.abandon f) :=
  ⟨core.abandon hqueue hwaiting hlast, trivial⟩

/-- Without a connection, the call is tried again if its frame is kept, and given up otherwise. -/
theorem Inv.reconnect (core : Core cfg c) (hfd : c.fd = none) (hgone : c.sessionGone = false)
    (hwaiting : c.Waiting f) (hlast : c.unacked = [] ∨ c.unacked.getLast? = some f)
    (hkept : c.replayPossible = true → c.unacked.getLast? = some f) :
    Inv cfg (c.reconnect f) := by
  unfold Client.reconnect
  by_cases hpossible : c.replayPossible = true
  · rw [if_pos hpossible]
    exact ⟨core.setPc _ _, hfd, hgone, hwaiting.congr rfl rfl, hpossible,
      hkept hpossible⟩
  · rw [if_neg hpossible]
    exact Inv.abandon core (core.offline hfd) hwaiting hlast

/-- Where connecting fails, a call that was to start returns, and one that was tried again is given
up or waits for the next try. -/
theorem Inv.notConnected (core : Core cfg c) (hfd : c.fd = none) {k : Purpose}
    (hk : ∀ f, k = .retry f → c.Waiting f ∧
      (c.unacked = [] ∨ c.unacked.getLast? = some f) ∧
        (c.sessionGone = false → Purpose.Holds c (.retry f))) :
    Inv cfg (c.notConnected k) := by
  cases k with
  | start r => exact Inv.ret core (Nat.zero_le _) _ _
  | retry f =>
      obtain ⟨hwaiting, hlast, hretry⟩ := hk f rfl
      unfold Client.notConnected
      dsimp only
      by_cases hgone : c.sessionGone = true
      · rw [if_pos hgone]
        exact Inv.abandon core (core.offline hfd) hwaiting hlast
      · rw [if_neg hgone]
        rw [Bool.not_eq_true] at hgone
        obtain ⟨-, hpossible, hkept⟩ := hretry hgone
        exact ⟨core.setPc _ _, hfd, hgone, hwaiting.congr rfl rfl,
          hpossible, hkept⟩

/-- The connection breaks while a call waits: it is tried again, or given up on the last try. -/
theorem Inv.broken (core : Core cfg c) (hqueue : c.queued = []) (hgone : c.sessionGone = false)
    (hwaiting : c.Waiting f) (hlast : c.unacked = [] ∨ c.unacked.getLast? = some f) {last : Bool}
    (hkept : last = false → c.replayPossible = true → c.unacked.getLast? = some f) :
    Inv cfg (c.broken f last) := by
  have hdrop := core.drop hqueue
  have hwaiting' : c.drop.Waiting f := hwaiting.congr rfl rfl
  unfold Client.broken
  cases last with
  | true => exact Inv.abandon hdrop hqueue hwaiting' hlast
  | false => exact Inv.reconnect hdrop rfl hgone hwaiting' hlast (hkept rfl)

/-- What is left of a list from some point on, if anything is, ends as the list does. -/
theorem getLast?_of_suffix {l m : List Frame} (h : l <:+ m) (hne : l ≠ []) :
    l.getLast? = m.getLast? := by
  obtain ⟨front, rfl⟩ := h
  rw [List.getLast?_append_of_ne_nil _ hne]

/-- With a connection, a call starts, or the reply of the one tried again is waited for. -/
theorem Inv.isConnected (core : Core cfg c) (hfd : c.fd ≠ none) {k : Purpose}
    (hk : ∀ f, k = .retry f → c.queued = [] ∧ c.Waiting f ∧
      (c.unacked = [] ∨ c.unacked.getLast? = some f)) : Inv cfg (c.isConnected k) := by
  cases k with
  | start r => exact ⟨core.setPc _ _, hfd⟩
  | retry f =>
      obtain ⟨hqueue, hwaiting, hlast⟩ := hk f rfl
      unfold Client.isConnected awaitReply
      dsimp only
      rw [if_pos hqueue]
      exact ⟨core.setPc _ _, hfd, hqueue, hwaiting.congr rfl rfl, hlast, nofun⟩

/-- What is left of the replay buffer is written next, and then the call goes on. -/
theorem Inv.replayRest (core : Core cfg c) (hfd : c.fd ≠ none) (hqueue : c.queued = [])
    {rest : List Frame} (hrest : rest <:+ c.unacked) {k : Purpose}
    (hk : ∀ f, k = .retry f → c.Waiting f ∧ (c.unacked = [] ∨ c.unacked.getLast? = some f) ∧
      c.replayPossible = true) : Inv cfg (c.replayRest rest k) := by
  unfold Client.replayRest
  by_cases hnil : rest = []
  · rw [if_pos hnil]
    exact Inv.isConnected core hfd fun f hf => ⟨hqueue, (hk f hf).1, (hk f hf).2.1⟩
  · rw [if_neg hnil]
    refine ⟨core.setPc _ _, hfd, hqueue, hnil, hrest, ?_⟩
    cases k with
    | start r => trivial
    | retry f =>
        obtain ⟨hwaiting, hlast, hpossible⟩ := hk f rfl
        refine ⟨hwaiting.congr rfl rfl, hpossible, hlast.resolve_left ?_⟩
        intro h
        rw [h, List.suffix_nil] at hrest
        exact hnil hrest

/-- A client that has a connection has not learned that the session is gone. -/
theorem sessionGone_eq_false (core : Core cfg c) (hfd : c.fd ≠ none) : c.sessionGone = false := by
  rw [← Bool.not_eq_true]
  exact fun h => hfd (core.gone h).1

/-- The server answers that the session is gone: nothing is kept for it, and it is never asked for
again. -/
theorem Inv.learnedGone (core : Core cfg c) (hfd : c.fd = none) (hhad : c.hadSession = true)
    {k : Purpose} (hk : Purpose.Holds c k) :
    Inv cfg ({ c with
      sessionGone := true
      connectFailed := true
      queued := []
      unacked := []
      unackedBytes := 0 }.notConnected k) := by
  have hbase : Core cfg { c with
      sessionGone := true
      connectFailed := true
      queued := []
      unacked := []
      unackedBytes := 0 } :=
    ⟨core.numbered, core.reqIds, List.nil_sublist _, List.nil_sublist _, fun _ => rfl,
      fun _ => rfl, core.returned, core.fresh, fun _ => ⟨hfd, rfl, hhad⟩⟩
  refine Inv.notConnected hbase hfd ?_
  rintro f rfl
  exact ⟨hk.1.congr rfl rfl, Or.inl rfl, nofun⟩

/-- The server resumes the session: what it has is forgotten, and the rest is replayed. -/
theorem Inv.resumed (core : Core cfg c) (hgone : c.sessionGone = false) {k : Purpose}
    (hk : Purpose.Holds c k) (conn : ConnId) (reply : HandshakeReply) :
    Inv cfg ({ c.forgetAcked reply.lastReq with
      fd := some conn
      hadSession := true
      opened := c.opened.or reply.session
      queued := [] }.replayRest (c.forgetAcked reply.lastReq).unacked k) := by
  have hbase : Core cfg { c.forgetAcked reply.lastReq with
      fd := some conn
      hadSession := true
      opened := c.opened.or reply.session
      queued := [] } :=
    { (core.forgetAcked reply.lastReq).clearQueue with
      offline := fun _ => rfl
      fresh := nofun
      gone := fun h => absurd (show c.sessionGone = true from h) (by rw [hgone]; nofun) }
  refine Inv.replayRest hbase (by simp) rfl List.suffix_rfl ?_
  rintro f rfl
  obtain ⟨hwaiting, hpossible, hlast⟩ := hk
  refine ⟨hwaiting.congr rfl rfl, ?_, hpossible⟩
  -- what is left to replay, if anything is, ends with the frame that is waited for
  by_cases hnil : (c.forgetAcked reply.lastReq).unacked = []
  · exact Or.inl hnil
  · refine Or.inr ?_
    rw [← hlast]
    exact getLast?_of_suffix (List.dropWhile_suffix _) hnil

/-- The server opens the first session of the client: no call waited before. -/
theorem Inv.openedNew (core : Core cfg c) (hgone : c.sessionGone = false)
    (hhad : c.hadSession = false) {k : Purpose} (hk : Purpose.Holds c k) (conn : ConnId)
    (reply : HandshakeReply) :
    Inv cfg ({ c with
      fd := some conn
      hadSession := true
      opened := c.opened.or reply.session }.isConnected k) := by
  have hbase : Core cfg { c with
      fd := some conn
      hadSession := true
      opened := c.opened.or reply.session } :=
    ⟨core.numbered, core.reqIds, core.unacked, core.queued, nofun, core.overflown, core.returned,
      nofun, fun h => absurd h (by rw [hgone]; nofun)⟩
  cases k with
  | start r => exact ⟨hbase.setPc _ _, Option.some_ne_none conn⟩
  | retry f =>
      -- a frame that is waited for was queued, and nothing was queued before the first session
      have hmem := hk.1.mem
      rw [(core.fresh hhad).1] at hmem
      cases hmem

/-- A frame that is to be answered is queued: it is kept to be replayed, unless the replay buffer has
overflown. -/
theorem Inv.queuedWaiting (core : Core cfg c) (hfd : c.fd ≠ none) {notices : List Frame} {f : Frame}
    (happ : Appends cfg c c' (notices ++ [f])) (hreply : f.noReply = false) :
    Inv cfg { c' with pc := .flushing f false } := by
  have hcore := core.append happ hfd
  refine ⟨hcore.setPc _ _, happ.fd ▸ hfd, rfl,
    ⟨happ.getLast?_log, hreply, happ.inCall core hcore⟩, ?_⟩
  have hunacked : c'.replayPossible = false ∧ c'.unacked = [] ∨ c'.unacked.getLast? = some f := by
    rcases happ.unacked with ⟨-, -, h⟩ | ⟨hp, -⟩
    · right
      rw [h, ← List.append_assoc, List.getLast?_concat]
    · exact Or.inl ⟨hp, hcore.overflown hp⟩
  rcases hunacked with ⟨hp, hnil⟩ | hlast
  · exact ⟨Or.inl hnil, fun h => absurd (hp ▸ h) nofun⟩
  · exact ⟨Or.inr hlast, fun _ => hlast⟩

/-- **Every transition keeps the invariant.** -/
theorem Inv.step {a : ClientAction} (inv : Inv cfg c) (h : Step cfg c a c') : Inv cfg c' := by
  obtain ⟨core, here⟩ := inv
  unfold Here at here
  cases h with
  | beganConnected hpc hfd => exact ⟨core.setPc _ _, hfd⟩
  | beganRefused hpc => exact Inv.ret core (Nat.zero_le _) _ _
  | beganOpening hpc hfd hgone => exact ⟨core.setPc _ _, hfd, hgone, trivial⟩
  | @unreachable k hpc | @unanswered conn k hpc | @refused conn k reply hpc =>
      rw [hpc] at here
      obtain ⟨hfd, hgone, hk⟩ := here
      refine Inv.notConnected (core.setPc c.pc true) hfd ?_
      rintro f rfl
      exact ⟨hk.1.congr rfl rfl, Or.inr hk.2.2,
        fun _ => ⟨hk.1.congr rfl rfl, hk.2⟩⟩
  | dialled hpc =>
      rw [hpc] at here
      refine ⟨core.setPc _ _, here.1, here.2.1, ?_⟩
      rename_i k conn
      cases k with
      | start r => trivial
      | retry f => exact ⟨here.2.2.1.congr rfl rfl, here.2.2.2⟩
  | learnedGone hpc hbusy hversion hhad hresumed =>
      rw [hpc] at here
      exact Inv.learnedGone core here.1 hhad here.2.2
  | @resumed conn k reply hpc hbusy hversion hresumed =>
      rw [hpc] at here
      exact Inv.resumed core here.2.1 here.2.2 conn reply
  | @openedNew conn k reply hpc hbusy hversion hhad hresumed =>
      rw [hpc] at here
      exact Inv.openedNew core here.2.1 hhad here.2.2 conn reply
  | @replayed g rest k hpc =>
      rw [hpc] at here
      obtain ⟨hfd, hqueue, -, hrest, hk⟩ := here
      refine Inv.replayRest core hfd hqueue ((List.suffix_cons g rest).trans hrest) ?_
      rintro f rfl
      exact ⟨hk.1, Or.inr hk.2.2, hk.2.1⟩
  | @replayBroke g rest k hpc =>
      rw [hpc] at here
      obtain ⟨hfd, hqueue, -, -, hk⟩ := here
      have hgone := sessionGone_eq_false core hfd
      refine Inv.notConnected (core.drop hqueue) rfl ?_
      rintro f rfl
      have hwaiting : c.drop.Waiting f := hk.1.congr rfl rfl
      exact ⟨hwaiting, Or.inr hk.2.2, fun _ => ⟨hwaiting, hk.2⟩⟩
  | queuedReturn hpc hqueue =>
      rw [hpc] at here
      obtain ⟨notices, happ, -⟩ := queueFrame_appends hqueue
      have hcore := core.append happ here
      exact Inv.ret hcore (hcore.numbered.pos_of_getLast? (happ.getLast?_log)).le _ _
  | queuedFlush hpc hqueue honeWay =>
      rw [hpc] at here
      obtain ⟨notices, happ, -⟩ := queueFrame_appends hqueue
      have hcore := core.append happ here
      refine ⟨hcore.setPc _ _, happ.fd ▸ here, happ.getLast?_log, honeWay, ?_⟩
      exact happ.inCall core hcore
  | queuedWaiting hpc hqueue hreply =>
      rw [hpc] at here
      obtain ⟨notices, happ, -⟩ := queueFrame_appends hqueue
      exact Inv.queuedWaiting core here happ hreply
  | @flushed f last hpc =>
      rw [hpc] at here
      obtain ⟨hfd, -, hwaiting, hlast, hkept⟩ := here
      unfold awaitReply
      rw [if_pos rfl]
      exact ⟨core.clearQueue.setPc _ _, hfd, rfl, hwaiting.congr rfl rfl, hlast, fun _ => hkept⟩
  | @flushBroke f last n hpc hn =>
      rw [hpc] at here
      obtain ⟨hfd, -, hwaiting, hlast, hkept⟩ := here
      have hgone := sessionGone_eq_false core hfd
      exact Inv.broken core.clearQueue rfl hgone (hwaiting.congr rfl rfl) hlast fun _ => hkept
  | flushedAsync hpc =>
      rw [hpc] at here
      exact Inv.ret core.clearQueue (core.numbered.pos_of_getLast? here.2.1).le _ _
  | flushAsyncBroke hpc hn =>
      rw [hpc] at here
      exact Inv.ret (core.clearQueue.drop rfl) (core.numbered.pos_of_getLast? here.2.1).le _ _
  | @receiveBroke f last hpc =>
      rw [hpc] at here
      obtain ⟨hfd, hqueue, hwaiting, hlast, hkept⟩ := here
      exact Inv.broken core hqueue (sessionGone_eq_false core hfd) hwaiting hlast hkept
  | @mismatched f last reply hpc hid =>
      rw [hpc] at here
      obtain ⟨-, hqueue, hwaiting, hlast, -⟩ := here
      exact Inv.abandon (core.drop hqueue) hqueue (hwaiting.congr rfl rfl) hlast
  | @received f last reply hpc hid =>
      rw [hpc] at here
      have hne : c.log ≠ [] := List.ne_nil_of_mem here.2.2.1.mem
      exact Inv.ret ((core.setLastReply hne _).forgetAcked _) (here.2.2.1.pos_eq core).le _ _
  | @triedAgain f hpc =>
      rw [hpc] at here
      obtain ⟨hfd, hgone, hwaiting, hkept⟩ := here
      exact ⟨core.setPc _ _, hfd, hgone, hwaiting.congr rfl rfl, hkept⟩
  | @gaveUp f hpc =>
      rw [hpc] at here
      obtain ⟨hfd, -, hwaiting, -, hlast⟩ := here
      exact Inv.abandon (core.setPc c.pc true) (core.offline hfd) (hwaiting.congr rfl rfl)
        (Or.inr hlast)
  | exitFlushed hpc hfd =>
      refine ⟨core.clearQueue, ?_⟩
      unfold Here
      dsimp only
      rw [hpc]
      trivial
  | exitFlushBroke hpc hfd hn =>
      refine ⟨core.clearQueue.drop rfl, ?_⟩
      unfold Here
      dsimp only
      rw [hpc]
      trivial

/-! ## What a transition adds and what it writes -/

/-- What was queued is never forgotten, and a transition adds to the end of it. -/
theorem Step.log {a : ClientAction} (h : Step cfg c a c') : ∃ fs, c'.log = c.log ++ fs := by
  cases h with
  | queuedReturn hpc hqueue | queuedFlush hpc hqueue | queuedWaiting hpc hqueue =>
      obtain ⟨notices, happ, -⟩ := queueFrame_appends hqueue
      exact ⟨_, happ.log⟩
  | _ => exact ⟨[], by simp⟩

/-- What was queued stays in the log. -/
theorem Step.mem_log {a : ClientAction} (h : Step cfg c a c') (hf : f ∈ c.log) : f ∈ c'.log := by
  obtain ⟨fs, hlog⟩ := h.log
  rw [hlog]
  exact List.mem_append_left _ hf

/-- A frame any byte of which is written is in a buffer. -/
theorem Inv.touches_buffers (inv : Inv cfg c) {a : ClientAction} (hf : f ∈ c.touches a) :
    f ∈ c.unacked ∨ f ∈ c.queued := by
  have here := inv.here
  unfold touches at hf
  split at hf
  · split at hf
    · rename_i g rest k hpc
      unfold Here at here
      rw [hpc] at here
      obtain rfl := List.mem_singleton.mp hf
      exact Or.inl (here.2.2.2.1.subset List.mem_cons_self)
    · cases hf
  · exact Or.inr hf
  · exact Or.inr hf
  · exact Or.inr (List.mem_of_mem_take hf)
  · exact Or.inr (List.mem_of_mem_take hf)
  · cases hf

/-- So it is one of those queued. -/
theorem Inv.touches_subset (inv : Inv cfg c) (a : ClientAction) : ∀ f ∈ c.touches a, f ∈ c.log :=
  fun _ hf => (inv.touches_buffers hf).elim (fun h => inv.core.unacked.subset h)
    fun h => inv.core.queued.subset h

/-- What is written whole is written. -/
theorem writes_subset_touches (c : Client) (a : ClientAction) :
    ∀ f ∈ c.writes a, f ∈ c.touches a := by
  intro f hf
  unfold writes at hf
  split at hf
  · exact hf
  · exact hf
  · exact hf
  · exact (List.take_sublist_take_left (Nat.le_succ _)).subset hf
  · exact (List.take_sublist_take_left (Nat.le_succ _)).subset hf
  · cases hf

end Client

end Rgpu
