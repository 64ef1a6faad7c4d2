import Rgpu.Foundations.StepSystem
import Rgpu.Server.Sessions
import Mathlib.Data.Finset.Card

/-! # Who owns a connection, and the table of sessions

The invariants of the server with any clients, one operation at a time.

* **`Server.Owners`** — the owner recorded for each descriptor is the one that has it, and a
  descriptor was closed once if nobody has it any more, and never before.
* **`Server.Table`** — the table of sessions: every unfinished session is in it, under its own key,
  and it is never longer than the cap.
* **`Server.Unserved`** — a session no thread serves yet has accept code that is about to start one.
* **`Server.descriptor_ownership`** — what these give for every run. -/

namespace Rgpu

open Foundations

variable {ι : Type}

/-- The accept code that makes a session is about it. -/
theorem AcceptPc.session_of_makes {pc : AcceptPc} {sid : SessionId} (h : pc.makes = some sid) :
    pc.session = some sid := by
  cases pc with
  | found sid' resumed hello => cases resumed <;> simp_all [AcceptPc.makes, AcceptPc.session]
  | _ => simp_all [AcceptPc.makes, AcceptPc.session]

namespace Server

variable {limits : Limits} {s t : Server ι} {a : ServerAction ι} {c : ConnId} {sid : SessionId}

/-! ## Descriptors -/

/-- Each descriptor has the owner recorded for it, and has been closed once if it was accepted and
nobody has it, and not otherwise. -/
structure Owners (s : Server ι) : Prop where
  accept : ∀ c, s.owner c = .acceptCode ↔ (s.accept c).holds = true
  slot : ∀ sid c, s.owner c = .slot sid ↔ (s.session sid).pendingFd = some c
  thread : ∀ sid c, s.owner c = .servingThread sid ↔ (s.serve sid).conn = some c
  nobody : ∀ c, s.owner c = .nobody ↔ s.accept c = .idle
  closed : ∀ c, s.closes c = if s.owner c = .closed then 1 else 0

namespace Owners

/-- No descriptor is open at first. -/
theorem initial [Inhabited ι] : Owners (Server.initial ι) := by
  constructor <;> simp [Server.initial, AcceptPc.holds, ServePc.conn]

/-- An accept thread starts with the descriptor that was accepted. -/
theorem acceptStarts (inv : Owners s) (hidle : s.accept c = .idle) {pc : AcceptPc}
    (hpc : pc.holds = true) : Owners (s.acceptStarts c pc) := by
  have hne : pc ≠ .idle := by
    rintro rfl
    cases hpc
  have howner := (inv.nobody c).mpr hidle
  obtain ⟨accept, slot, thread, nobody, closed⟩ := inv
  constructor <;> simp <;> grind [Function.update_apply]

/-- The accept code moves on and keeps the descriptor, or is rid of it on both sides of the move. -/
theorem setAccept (inv : Owners s) {pc : AcceptPc} (hheld : pc.holds = (s.accept c).holds)
    (hstarted : s.accept c ≠ .idle) (hpc : pc ≠ .idle) : Owners (s.setAccept c pc) :=
  { inv with
    accept := by
      simp only [setAccept_owner, setAccept_accept]
      have haccept := inv.accept
      grind [Function.update_apply]
    nobody := by
      simp only [setAccept_owner, setAccept_accept]
      have hnobody := inv.nobody
      grind [Function.update_apply] }

/-- The accept code closes the connection and returns. -/
theorem drop (inv : Owners s) (hheld : (s.accept c).holds = true) :
    Owners ((s.close c).acceptReturns c) := by
  have howner := (inv.accept c).mpr hheld
  obtain ⟨accept, slot, thread, nobody, closed⟩ := inv
  constructor <;> simp <;> grind [Function.update_apply, AcceptPc.holds]

/-- A serving thread goes on with the descriptor it had. -/
theorem setServe (inv : Owners s) {pc : ServePc} (hpc : pc.conn = (s.serve sid).conn) :
    Owners (s.setServe sid pc) :=
  { inv with
    thread := by
      simp only [setServe_owner, setServe_serve]
      have hthread := inv.thread
      grind [Function.update_apply] }

/-- A session's own fields say nothing of descriptors, but for the one that is pending. -/
theorem setSession (inv : Owners s) {x : Session ι}
    (hx : x.pendingFd = (s.session sid).pendingFd) : Owners (s.setSession sid x) :=
  { inv with
    slot := by
      simp only [setSession_owner, setSession_session]
      have hslot := inv.slot
      grind [Function.update_apply] }

/-- The table of sessions says nothing of descriptors. -/
theorem eraseEntry (inv : Owners s) : Owners (s.eraseEntry sid) :=
  ⟨inv.accept, inv.slot, inv.thread, inv.nobody, inv.closed⟩

/-- The serving thread closes its connection and waits for another. -/
theorem hangUp (inv : Owners s) (hconn : (s.serve sid).conn = some c) :
    Owners ((s.close c).setServe sid .waiting) := by
  have howner := (inv.thread sid c).mpr hconn
  obtain ⟨accept, slot, thread, nobody, closed⟩ := inv
  constructor <;> simp <;> grind [Function.update_apply, ServePc.conn]

/-- The serving thread takes the connection in the slot. -/
theorem take (inv : Owners s) (hpending : (s.session sid).pendingFd = some c)
    (hwaiting : s.serve sid = .waiting) :
    Owners (((s.setSession sid { s.session sid with pendingFd := none }).give c
      (.servingThread sid)).setServe sid (.reading c)) := by
  have howner := (inv.slot sid c).mpr hpending
  obtain ⟨accept, slot, thread, nobody, closed⟩ := inv
  constructor <;> simp <;> grind [Function.update_apply, ServePc.conn]

/-- The connection in the slot is closed as the slot is emptied. -/
theorem closePending (inv : Owners s) {x : Session ι} (hx : x.pendingFd = none) :
    Owners ((s.closePending sid).setSession sid x) := by
  cases hpending : (s.session sid).pendingFd with
  | none =>
      have hsame : s.closePending sid = s := by simp [Server.closePending, hpending]
      rw [hsame]
      exact inv.setSession (by rw [hx, hpending])
  | some c' =>
      have howner := (inv.slot sid c').mpr hpending
      obtain ⟨accept, slot, thread, nobody, closed⟩ := inv
      constructor <;> simp [hpending] <;> grind [Function.update_apply]

/-- The accept code gives its connection to the slot, where the one that was there is closed. -/
theorem putPending (inv : Owners s) {pc : AcceptPc} (hheld : (s.accept c).holds = true)
    (hpc : pc.holds = false) (hne : pc ≠ .idle) :
    Owners ((s.putPending sid c).setAccept c pc) := by
  have howner := (inv.accept c).mpr hheld
  cases hpending : (s.session sid).pendingFd with
  | none =>
      obtain ⟨accept, slot, thread, nobody, closed⟩ := inv
      constructor <;> simp [hpending] <;> grind [Function.update_apply]
  | some c' =>
      -- another descriptor than its own: that one the accept code still has
      have howner' := (inv.slot sid c').mpr hpending
      obtain ⟨accept, slot, thread, nobody, closed⟩ := inv
      constructor <;> simp [hpending] <;> grind [Function.update_apply]

/-- How many handshakes are pending is no matter of ownership. -/
theorem acceptReturns (inv : Owners (s.setAccept c .returned)) : Owners (s.acceptReturns c) :=
  ⟨inv.accept, inv.slot, inv.thread, inv.nobody, inv.closed⟩

/-- A serving thread starts with none. -/
theorem startServing (inv : Owners s) (hnot : s.serve sid = .notStarted) :
    Owners (s.startServing sid) :=
  { inv with
    thread := by
      simp only [startServing_owner, startServing_serve]
      have hthread := inv.thread
      grind [Function.update_apply, ServePc.conn] }

/-- A session that is registered has none. -/
theorem register [Inhabited ι] (inv : Owners s) {key : SessionKey}
    (hfresh : (s.session s.made).pendingFd = none) : Owners (s.register key) :=
  { inv with
    slot := by
      simp only [register_owner, register_session]
      have hslot := inv.slot
      grind [Function.update_apply] }

end Owners

/-! ## The table -/

/-- A session that is in the table and is not found unfinished is finished. -/
theorem finished_of_unfinished_eq_none {key : SessionKey} (h : s.unfinished key = none)
    (hl : s.sessions.lookup key = some sid) : (s.session sid).finished = true := by
  unfold unfinished at h
  rw [hl] at h
  by_contra hne
  simp [hne] at h

/-- A session that is found is in the table and is not finished. -/
theorem unfinished_eq_some {key : SessionKey} (h : s.unfinished key = some sid) :
    s.sessions.lookup key = some sid ∧ (s.session sid).finished = false := by
  unfold unfinished at h
  split at h
  · cases h
  · rename_i sid' hl
    split at h
    · cases h
    · rename_i hf
      cases h
      exact ⟨hl, by simpa using hf⟩

/-- A session that is in the table and is not finished is found. -/
theorem unfinished_eq_some_of {key : SessionKey} (hl : s.sessions.lookup key = some sid)
    (hfin : (s.session sid).finished = false) : s.unfinished key = some sid := by
  unfold unfinished
  rw [hl]
  simp [hfin]

/-- The table of sessions, the sessions it lists, and the accept code and threads that are about
them. -/
structure Table [Inhabited ι] (limits : Limits) (s : Server ι) : Prop where
  nodup : (AssocList.keys s.sessions).Nodup
  entry : ∀ key sid, s.sessions.lookup key = some sid → sid < s.made ∧ s.key sid = key
  capped : s.sessions.length ≤ limits.maxSessions
  listed : ∀ sid, sid < s.made → (s.session sid).finished = false →
    s.sessions.lookup (s.key sid) = some sid
  fresh : ∀ sid, s.made ≤ sid →
    s.session sid = { inventory := default } ∧ s.serve sid = .notStarted
  refers : ∀ c sid, (s.accept c).session = some sid → sid < s.made
  makes : ∀ c sid, (s.accept c).makes = some sid →
    s.serve sid = .notStarted ∧ (s.session sid).finished = false
  maker : ∀ c c' sid, (s.accept c).makes = some sid → (s.accept c').makes = some sid → c = c'
  launched : ∀ sid, s.launches sid = if s.serve sid = .notStarted then 0 else 1
  ended : ∀ sid, s.serve sid = .leaving ∨ s.serve sid = .exited → (s.session sid).finished = true
  empty : ∀ sid, (s.session sid).finished = true → (s.session sid).pendingFd = none

namespace Table

variable [Inhabited ι]

/-- The table is empty at first. -/
theorem initial : Table limits (Server.initial ι) := by
  constructor <;> simp [Server.initial, AcceptPc.makes, AcceptPc.session]

/-- A session that has a thread has been made. -/
theorem lt_made (inv : Table limits s) (h : s.serve sid ≠ .notStarted) : sid < s.made := by
  by_contra hge
  exact h (inv.fresh sid (Nat.le_of_not_lt hge)).2

/-- Closing a descriptor changes nothing in the table. -/
theorem close (inv : Table limits s) : Table limits (s.close c) := { inv with }

/-- Handing a descriptor over changes nothing in the table. -/
theorem give (inv : Table limits s) {o : Owner} : Table limits (s.give c o) := { inv with }

/-- Closing the pending descriptor changes nothing in the table. -/
theorem closePending (inv : Table limits s) : Table limits (s.closePending sid) := { inv with }

/-- The accept code moves to where it makes no session, or one that is new and that no other accept code makes. -/
theorem moveAccept (inv : Table limits s) {pc : AcceptPc} (hrefers : ∀ sid, pc.session = some sid → sid < s.made)
    (hnew : ∀ sid, pc.makes = some sid → s.serve sid = .notStarted ∧ (s.session sid).finished = false)
    (halone : ∀ sid, pc.makes = some sid → ∀ c', c' ≠ c → (s.accept c').makes ≠ some sid) :
    Table limits (s.setAccept c pc) :=
  { inv with
    refers := by
      intro c' sid h
      rw [setAccept_accept, Function.update_apply] at h
      split at h
      · exact hrefers sid h
      · exact inv.refers c' sid h
    makes := by
      intro c' sid h
      rw [setAccept_accept, Function.update_apply] at h
      split at h
      · exact hnew sid h
      · exact inv.makes c' sid h
    maker := by
      intro c₁ c₂ sid h₁ h₂
      rw [setAccept_accept, Function.update_apply] at h₁ h₂
      split at h₁ <;> split at h₂
      · rename_i hc₁ hc₂
        rw [hc₁, hc₂]
      · rename_i hc₂
        exact absurd h₂ (halone sid h₁ c₂ hc₂)
      · rename_i hc₁ _
        exact absurd h₁ (halone sid h₂ c₁ hc₁)
      · exact inv.maker c₁ c₂ sid h₁ h₂ }

/-- The accept code moves on, about no session it was not about or may be about. -/
theorem setAccept (inv : Table limits s) {pc : AcceptPc}
    (hmakes : pc.makes = (s.accept c).makes)
    (hrefers : ∀ sid, pc.session = some sid → sid < s.made) : Table limits (s.setAccept c pc) := by
  refine inv.moveAccept hrefers (fun sid h => ?_) fun sid h c' hne h' => ?_
  · rw [hmakes] at h
    exact inv.makes c sid h
  · rw [hmakes] at h
    exact hne (inv.maker c' c sid h' h)

/-- The accept code moves to where it is about no session. -/
theorem leaveAccept (inv : Table limits s) {pc : AcceptPc} (hpc : pc.session = none) :
    Table limits (s.setAccept c pc) := by
  have hmakes : ∀ sid, pc.makes ≠ some sid := fun sid h => by
    rw [AcceptPc.session_of_makes h] at hpc
    cases hpc
  refine inv.moveAccept (fun sid h => ?_) (fun sid h => absurd h (hmakes sid)) fun sid h => absurd h (hmakes sid)
  rw [hpc] at h
  cases h

/-- An accept thread starts without a session. -/
theorem acceptStarts (inv : Table limits s) {pc : AcceptPc} (hpc : pc.session = none) :
    Table limits (s.acceptStarts c pc) := { inv.leaveAccept hpc with }

/-- An accept thread ends without a session. -/
theorem acceptReturns (inv : Table limits s) : Table limits (s.acceptReturns c) :=
  { inv.leaveAccept (c := c) (show AcceptPc.returned.session = none from rfl) with }

/-- A serving thread moves on. -/
theorem setServe (inv : Table limits s) {pc : ServePc} (hstarted : s.serve sid ≠ .notStarted)
    (hpc : pc ≠ .notStarted)
    (hended : pc = .leaving ∨ pc = .exited → (s.session sid).finished = true) :
    Table limits (s.setServe sid pc) :=
  { inv with
    fresh := by
      simp only [setServe_made, setServe_session, setServe_serve]
      have hfresh := inv.fresh
      grind [Function.update_apply]
    makes := by
      simp only [setServe_accept, setServe_session, setServe_serve]
      have hmakes := inv.makes
      grind [Function.update_apply]
    launched := by
      simp only [setServe_launches, setServe_serve]
      have hlaunched := inv.launched
      grind [Function.update_apply]
    ended := by
      simp only [setServe_session, setServe_serve]
      have hended := inv.ended
      grind [Function.update_apply] }

/-- A session goes on, and holds nothing once it is finished. -/
theorem setSession (inv : Table limits s) {x : Session ι}
    (hfin : x.finished = (s.session sid).finished)
    (hpending : x.finished = true → x.pendingFd = none) (hmade : sid < s.made) :
    Table limits (s.setSession sid x) :=
  -- it is finished where it was
  have hfinished : ∀ sid', ((s.setSession sid x).session sid').finished = (s.session sid').finished := by
    simp only [setSession_session]
    grind [Function.update_apply]
  { inv with
    listed := by
      simp only [hfinished]
      exact inv.listed
    fresh := by
      simp only [setSession_made, setSession_session, setSession_serve]
      have hfresh := inv.fresh
      grind [Function.update_apply]
    makes := by
      simp only [hfinished]
      exact inv.makes
    ended := by
      simp only [hfinished]
      exact inv.ended
    empty := by
      simp only [setSession_session]
      have hempty := inv.empty
      grind [Function.update_apply] }

/-- A session that no accept code makes finishes. -/
theorem finish (inv : Table limits s) {x : Session ι} (hmade : sid < s.made)
    (hunmade : ∀ c, (s.accept c).makes ≠ some sid) (hfin : x.finished = true) (hpending : x.pendingFd = none) :
    Table limits (s.setSession sid x) :=
  { inv with
    listed := by
      intro sid' hlt hfin'
      rw [setSession_session, Function.update_apply] at hfin'
      split at hfin'
      · rw [hfin] at hfin'
        cases hfin'
      · exact inv.listed sid' hlt hfin'
    fresh := by
      intro sid' hle
      have hne : sid' ≠ sid := (hmade.trans_le hle).ne'
      rw [setSession_session, Function.update_of_ne hne]
      exact inv.fresh sid' hle
    makes := by
      intro c sid' h
      have hne : sid' ≠ sid := by
        rintro rfl
        exact hunmade c h
      rw [setSession_session, Function.update_of_ne hne]
      exact inv.makes c sid' h
    ended := by
      intro sid' h
      rw [setSession_session, Function.update_apply]
      split
      · exact hfin
      · exact inv.ended sid' h
    empty := by
      intro sid' h
      rw [setSession_session, Function.update_apply] at h ⊢
      split
      · exact hpending
      · rename_i hne
        rw [if_neg hne] at h
        exact inv.empty sid' h }

/-- The accept code returns, and no other one made the session that it made. -/
theorem unmade_acceptReturns (inv : Table limits s) (hmakes : (s.accept c).makes = some sid) (c' : ConnId) :
    ((s.acceptReturns c).accept c').makes ≠ some sid := by
  rw [acceptReturns_accept, Function.update_apply]
  split
  · intro h
    cases h
  · rename_i hne
    exact fun h => hne (inv.maker c' c sid h hmakes)

/-- The accept code that made a session starts its thread, and returns. -/
theorem startServing (inv : Table limits s) (hpc : s.accept c = .launching sid) :
    Table limits ((s.startServing sid).acceptReturns c) := by
  have hmakes : (s.accept c).makes = some sid := by rw [hpc]; rfl
  have hmade := inv.refers c sid (AcceptPc.session_of_makes hmakes)
  obtain ⟨hnot, hfin⟩ := inv.makes c sid hmakes
  have hunmade := inv.unmade_acceptReturns hmakes
  exact { inv.acceptReturns with
    fresh := by
      intro sid' hle
      have hne : sid' ≠ sid := (hmade.trans_le hle).ne'
      rw [acceptReturns_serve, startServing_serve, Function.update_of_ne hne]
      exact inv.fresh sid' hle
    makes := by
      intro c' sid' h
      have hne : sid' ≠ sid := by
        rintro rfl
        exact hunmade c' h
      rw [acceptReturns_serve, startServing_serve, Function.update_of_ne hne]
      exact inv.acceptReturns.makes c' sid' h
    launched := by
      intro sid'
      simp only [acceptReturns_launches, acceptReturns_serve, startServing_launches, startServing_serve]
      by_cases hsid : sid' = sid
      · have hstarted : ServePc.waiting ≠ .notStarted := by rintro ⟨⟩
        rw [hsid, Function.update_self, Function.update_self, inv.launched sid, if_pos hnot, if_neg hstarted]
      · rw [Function.update_of_ne hsid, Function.update_of_ne hsid]
        exact inv.launched sid'
    ended := by
      intro sid' h
      rw [acceptReturns_serve, startServing_serve, Function.update_apply] at h
      split at h
      · rcases h with h | h <;> cases h
      · exact inv.ended sid' h }

/-- The entry of a finished session is taken out; no other session is under its key then. -/
theorem eraseEntry (inv : Table limits s) (hfin : (s.session sid).finished = true) :
    Table limits (s.eraseEntry sid) := by
  by_cases hentry : s.sessions.lookup (s.key sid) = some sid
  · have hsessions : (s.eraseEntry sid).sessions = AssocList.remove (s.key sid) s.sessions := if_pos hentry
    exact { inv with
      nodup := by
        rw [hsessions]
        exact AssocList.nodup_keys_remove inv.nodup
      entry := by
        intro key sid' h
        rw [hsessions, AssocList.lookup_remove] at h
        split at h
        · cases h
        · exact inv.entry key sid' h
      capped := by
        rw [hsessions]
        exact (AssocList.length_remove_le _ _).trans inv.capped
      listed := by
        intro sid' hlt hfin'
        have hlisted := inv.listed sid' hlt hfin'
        rw [hsessions, AssocList.lookup_remove, if_neg]
        · exact hlisted
        · intro hkey
          rw [show s.key sid' = s.key sid from hkey, hentry] at hlisted
          cases hlisted
          rw [show (s.session sid).finished = false from hfin'] at hfin
          cases hfin }
  · have hsessions : (s.eraseEntry sid).sessions = s.sessions := if_neg hentry
    exact { inv with
      nodup := by
        rw [hsessions]
        exact inv.nodup
      entry := by
        rw [hsessions]
        exact inv.entry
      capped := by
        rw [hsessions]
        exact inv.capped
      listed := by
        rw [hsessions]
        exact inv.listed }

/-- A session that was never served is forgotten by the accept code that made it. -/
theorem forget (inv : Table limits s) (hpc : s.accept c = .forgetting sid) {x : Session ι}
    (hfin : x.finished = true) (hpending : x.pendingFd = none) :
    Table limits (((((s.eraseEntry sid).closePending sid).setSession sid x).close c).acceptReturns
      c) := by
  have hmakes : (s.accept c).makes = some sid := by rw [hpc]; rfl
  have hmade := inv.refers c sid (AcceptPc.session_of_makes hmakes)
  -- in which order the session is changed does not matter to the table
  have hfinished := inv.acceptReturns.finish hmade (inv.unmade_acceptReturns hmakes) hfin hpending
  have hdone : (((s.acceptReturns c).setSession sid x).session sid).finished = true := by
    rw [setSession_session, Function.update_self]
    exact hfin
  exact { hfinished.eraseEntry hdone with }

/-- What is under a key once a session was made. -/
theorem lookup_register (key key' : SessionKey) :
    (s.register key).sessions.lookup key' = if key' = key then some s.made else s.sessions.lookup key' := by
  rw [register_sessions]
  split
  · rename_i hold
    rw [AssocList.lookup_adjust]
    split
    · rename_i hkey
      obtain ⟨sid, hsid⟩ := Option.isSome_iff_exists.mp hold
      rw [hkey, hsid, Option.map_some]
    · rfl
  · rw [List.lookup_cons]
    by_cases hkey : key' = key
    · rw [if_pos hkey, beq_iff_eq.mpr hkey]
    · rw [if_neg hkey, beq_eq_false_iff_ne.mpr hkey]

/-- A new session comes into the table, in the place of a finished one or where there is room. -/
theorem register (inv : Table limits s) {key : SessionKey} (hnone : s.unfinished key = none)
    (hroom : s.hasRoom limits key = true) : Table limits (s.register key) := by
  have hold : ∀ sid, sid < s.made → sid ≠ s.made := fun sid hlt => hlt.ne
  constructor
  case nodup =>
    rw [register_sessions]
    split
    · rw [AssocList.keys_adjust]
      exact inv.nodup
    · rename_i hnew
      rw [Option.not_isSome_iff_eq_none] at hnew
      exact List.nodup_cons.mpr ⟨AssocList.lookup_eq_none_iff.mp hnew, inv.nodup⟩
  case entry =>
    intro key' sid h
    rw [lookup_register] at h
    split at h
    · rename_i hkey
      cases h
      rw [hkey, register_key, Function.update_self]
      exact ⟨Nat.lt_succ_self _, rfl⟩
    · obtain ⟨hlt, hsid⟩ := inv.entry key' sid h
      rw [register_key, Function.update_of_ne (hold sid hlt)]
      exact ⟨Nat.lt_succ_of_lt hlt, hsid⟩
  case capped =>
    rw [register_sessions]
    split
    · rw [AssocList.length_adjust]
      exact inv.capped
    · rename_i hnew
      rw [hasRoom, decide_eq_true_iff] at hroom
      exact hroom.resolve_left hnew
  case listed =>
    intro sid hlt hfin
    rw [lookup_register, register_key]
    rcases Nat.lt_succ_iff_lt_or_eq.mp hlt with hlt | rfl
    · rw [Function.update_of_ne (hold sid hlt)]
      rw [register_session, Function.update_of_ne (hold sid hlt)] at hfin
      have hlisted := inv.listed sid hlt hfin
      rw [if_neg]
      · exact hlisted
      · -- what was under the key is finished
        rintro rfl
        rw [finished_of_unfinished_eq_none hnone hlisted] at hfin
        cases hfin
    · rw [Function.update_self, if_pos rfl]
  case fresh =>
    intro sid hle
    rw [register_session, Function.update_of_ne (Nat.lt_of_succ_le hle).ne']
    exact inv.fresh sid (Nat.le_of_succ_le hle)
  case refers => exact fun c sid h => Nat.lt_succ_of_lt (inv.refers c sid h)
  case makes =>
    intro c sid h
    rw [register_session, Function.update_of_ne (hold sid (inv.refers c sid (AcceptPc.session_of_makes h)))]
    exact inv.makes c sid h
  case maker => exact inv.maker
  case launched => exact inv.launched
  case ended =>
    intro sid h
    have hstarted : s.serve sid ≠ .notStarted := by
      intro hnot
      rw [register_serve, hnot] at h
      rcases h with h | h <;> cases h
    rw [register_session, Function.update_of_ne (hold sid (inv.lt_made hstarted))]
    exact inv.ended sid h
  case empty =>
    intro sid h
    rw [register_session, Function.update_apply] at h ⊢
    split
    · rfl
    · rename_i hne
      rw [if_neg hne] at h
      exact inv.empty sid h

/-- The accept code makes a session. -/
theorem made (inv : Table limits s) {hello : Handshake} (hnone : s.unfinished hello.session = none)
    (hroom : s.hasRoom limits hello.session = true) :
    Table limits ((s.register hello.session).setAccept c (.found s.made false hello)) := by
  refine (inv.register hnone hroom).moveAccept ?_ ?_ ?_
  · rintro _ ⟨⟩
    exact Nat.lt_succ_self _
  · rintro _ ⟨⟩
    rw [register_session, Function.update_self]
    exact ⟨(inv.fresh s.made le_rfl).2, rfl⟩
  · rintro _ ⟨⟩ c' - h
    exact lt_irrefl _ (inv.refers c' s.made (AcceptPc.session_of_makes h))

end Table

/-! ## Every step -/

/-- A session that has no serving thread yet has accept code that is about to start one, or to forget
the session. -/
def Unserved (s : Server ι) : Prop :=
  ∀ sid, sid < s.made → s.serve sid = .notStarted → (s.session sid).finished = false →
    ∃ c, (s.accept c).makes = some sid

/-- It reads only which sessions are made, not served and not finished. -/
theorem Unserved.of_keeps (inv : Unserved s)
    (h : ∀ sid, sid < t.made → t.serve sid = .notStarted → (t.session sid).finished = false →
      sid < s.made ∧ s.serve sid = .notStarted ∧ (s.session sid).finished = false ∧
        ∀ c, (s.accept c).makes = some sid → (t.accept c).makes = some sid) : Unserved t := by
  intro sid hmade hnot hfin
  obtain ⟨hmade', hnot', hfin', hkeeps⟩ := h sid hmade hnot hfin
  obtain ⟨c, hc⟩ := inv sid hmade' hnot' hfin'
  exact ⟨c, hkeeps c hc⟩

/-- The accept code moves on, and makes what it made. -/
theorem Unserved.setAccept (inv : Unserved s) {pc : AcceptPc}
    (hpc : ∀ sid, (s.accept c).makes = some sid → pc.makes = some sid) : Unserved (s.setAccept c pc) := by
  refine inv.of_keeps fun sid hmade hnot hfin => ⟨hmade, hnot, hfin, fun c' hc' => ?_⟩
  rw [setAccept_accept, Function.update_apply]
  split
  · rename_i hc
    exact hpc sid (hc ▸ hc')
  · exact hc'

/-- A serving thread that runs is started. -/
theorem Unserved.setServe (inv : Unserved s) {pc : ServePc} (hpc : pc ≠ .notStarted) :
    Unserved (s.setServe sid pc) := by
  refine inv.of_keeps fun sid' hmade hnot hfin => ⟨hmade, ?_, hfin, fun _ => id⟩
  rw [setServe_serve, Function.update_apply] at hnot
  split at hnot
  · exact absurd hnot hpc
  · exact hnot

/-- A session does not come back once it is finished. -/
theorem Unserved.setSession (inv : Unserved s) {x : Session ι}
    (hx : x.finished = false → (s.session sid).finished = false) : Unserved (s.setSession sid x) := by
  refine inv.of_keeps fun sid' hmade hnot hfin => ⟨hmade, hnot, ?_, fun _ => id⟩
  rw [setSession_session, Function.update_apply] at hfin
  split at hfin
  · rename_i hsid
    rw [hsid]
    exact hx hfin
  · exact hfin

/-- The accept code is done with the session that it made, which has a thread now or is finished. -/
theorem Unserved.leave (inv : Unserved s) (hmakes : (s.accept c).makes = some sid)
    (haccept : t.accept = Function.update s.accept c .returned)
    (h : ∀ sid', sid' < t.made → t.serve sid' = .notStarted → (t.session sid').finished = false →
      sid' ≠ sid ∧ sid' < s.made ∧ s.serve sid' = .notStarted ∧ (s.session sid').finished = false) :
    Unserved t := by
  refine inv.of_keeps fun sid' hmade hnot hfin => ?_
  obtain ⟨hne, hmade', hnot', hfin'⟩ := h sid' hmade hnot hfin
  refine ⟨hmade', hnot', hfin', fun c' hc' => ?_⟩
  have hcc : c' ≠ c := by
    rintro rfl
    rw [hmakes] at hc'
    exact hne (Option.some.inj hc').symm
  rw [haccept, Function.update_of_ne hcc]
  exact hc'

/-- **Every step keeps it.** -/
theorem Unserved.step [Inhabited ι] (inv : Unserved s) (h : Step limits s a t) : Unserved t := by
  cases h with
  | accepted hidle hpc =>
      refine Unserved.setAccept inv fun sid h => ?_
      rw [hidle] at h
      cases h
  | helloFailed hpc | resendFailed hpc | handedLate hpc | turnedAway hpc | helloRead hpc | helloForeign hpc
  | lookupFound hpc | lookupFull hpc | lookupGone hpc | resent hpc =>
      refine Unserved.setAccept inv fun sid h => ?_
      rw [hpc] at h
      cases h
  | @lookupMade c hello hpc hnone hstarting hroom =>
      intro sid hmade hnot hfin
      -- either it was there before, or it is the one that this thread makes
      rcases Nat.lt_succ_iff_lt_or_eq.mp hmade with hlt | rfl
      · have hne : sid ≠ s.made := Nat.ne_of_lt hlt
        simp only [setAccept_serve, register_serve, setAccept_session, register_session,
          Function.update_of_ne hne] at hnot hfin
        obtain ⟨c', hc'⟩ := inv sid hlt hnot hfin
        refine ⟨c', ?_⟩
        have hcc : c' ≠ c := by
          rintro rfl
          rw [hpc] at hc'
          cases hc'
        rw [setAccept_accept, Function.update_of_ne hcc]
        exact hc'
      · exact ⟨c, by rw [setAccept_accept, Function.update_self]; rfl⟩
  | @snapshotTaken c sid resumed hello hpc =>
      refine inv.setAccept fun sid' h => ?_
      rw [hpc] at h
      cases resumed with
      | true => cases h
      | false => exact h
  | wroteKept hpc hresumed | wroteResumed hpc hresumed | unwrittenResumed hpc hresumed =>
      refine Unserved.setAccept inv fun sid h => ?_
      rw [hpc, AcceptPc.makes, if_pos hresumed] at h
      cases h
  | wroteNew hpc hresumed | unwrittenNew hpc hresumed =>
      refine inv.setAccept fun sid h => ?_
      rw [hpc, AcceptPc.makes, hresumed] at h
      exact h
  | @forgot c sid hpc =>
      -- the session is finished, and needs no thread
      refine inv.leave (by rw [hpc]; rfl) rfl fun sid' hmade hnot hfin => ?_
      have hsession : (Function.update s.session sid _ sid').finished = false := hfin
      by_cases hsid : sid' = sid
      · rw [hsid, Function.update_self] at hsession
        cases hsession
      · rw [Function.update_of_ne hsid] at hsession
        exact ⟨hsid, hmade, hnot, hsession⟩
  | @handedOver c sid hpc =>
      have hsession : Unserved (s.setSession sid { s.session sid with pendingFd := some c }) := inv.setSession id
      refine Unserved.setAccept hsession fun sid' h => ?_
      rw [setSession_accept, hpc] at h
      cases h
  | @firstPut c sid hpc =>
      have hsession : Unserved (s.setSession sid { s.session sid with pendingFd := some c }) := inv.setSession id
      refine Unserved.setAccept hsession fun sid' h => ?_
      rw [setSession_accept, hpc] at h
      exact h
  | @launched c sid hpc =>
      -- the session has a thread from here on
      refine inv.leave (by rw [hpc]; rfl) rfl fun sid' hmade hnot hfin => ?_
      have hserve : Function.update s.serve sid .waiting sid' = .notStarted := hnot
      by_cases hsid : sid' = sid
      · rw [hsid, Function.update_self] at hserve
        cases hserve
      · rw [Function.update_of_ne hsid] at hserve
        exact ⟨hsid, hmade, hserve, hfin⟩
  | @taken sid c hpc hpending =>
      have hsession : Unserved (s.setSession sid { s.session sid with pendingFd := none }) := inv.setSession id
      have hreading : ServePc.reading c ≠ .notStarted := by rintro ⟨⟩
      exact hsession.setServe hreading
  | expired => exact Unserved.setServe (inv.setSession fun h => (by cases h)) (by rintro ⟨⟩)
  | @left sid hpc =>
      have hsession : Unserved (s.setSession sid { s.session sid with serving := { (s.session sid).serving with
          threads := (s.session sid).serving.threads.expire } }) := inv.setSession id
      have hexited : ServePc.exited ≠ .notStarted := by rintro ⟨⟩
      exact hsession.setServe hexited
  | readFailed | readToRun | readToAnswer | answered | answeredLast =>
      exact Unserved.setServe inv (by rintro ⟨⟩)
  | readToSkip => exact inv
  | executedReply hpc hexec | executedLast hpc hexec | executedOneWay hpc hexec =>
      have hfinished := (Session.executed hexec).finished
      exact Unserved.setServe (inv.setSession fun h => hfinished ▸ h) (by rintro ⟨⟩)

/-- **Every step keeps each descriptor with one owner.** -/
theorem Owners.step [Inhabited ι] (inv : Owners s) (htable : Table limits s)
    (h : Step limits s a t) : Owners t := by
  cases h with
  | accepted hidle hpc =>
      refine inv.acceptStarts hidle ?_
      rcases hpc with rfl | rfl <;> rfl
  | helloFailed hpc | unwrittenResumed hpc | resendFailed hpc | handedLate hpc | turnedAway hpc =>
      exact inv.drop (by rw [hpc]; rfl)
  | helloRead hpc | helloForeign hpc | lookupFound hpc | lookupFull hpc | lookupGone hpc
  | snapshotTaken hpc | wroteKept hpc | wroteResumed hpc | wroteNew hpc | unwrittenNew hpc
  | resent hpc =>
      exact inv.setAccept (by rw [hpc]; rfl) (by rw [hpc]; nofun) nofun
  | lookupMade hpc =>
      have hfresh : (s.session s.made).pendingFd = none := by
        rw [(htable.fresh s.made le_rfl).1]
      refine (inv.register hfresh).setAccept ?_ ?_ nofun
      · rw [register_accept, hpc]
        rfl
      · rw [register_accept, hpc]
        nofun
  | forgot hpc =>
      -- a session whose client could not be told of it
      exact ((inv.eraseEntry).closePending rfl).drop (by
        rw [setSession_accept, closePending_accept, eraseEntry_accept, hpc]
        rfl)
  | handedOver hpc =>
      refine Owners.acceptReturns ?_
      exact inv.putPending (by rw [hpc]; rfl) rfl nofun
  | firstPut hpc => exact inv.putPending (by rw [hpc]; rfl) rfl nofun
  | @launched c sid hpc =>
      have hnot := (htable.makes c sid (by rw [hpc]; rfl)).1
      refine Owners.acceptReturns ?_
      refine (inv.startServing hnot).setAccept ?_ ?_ nofun
      · rw [startServing_accept, hpc]
        rfl
      · rw [startServing_accept, hpc]
        nofun
  | taken hpc hpending => exact inv.take hpending hpc
  | expired hpc hpending =>
      refine Owners.setServe (inv.setSession ?_) ?_
      · rfl
      · rw [setSession_serve, hpc]
        rfl
  | left hpc =>
      refine Owners.setServe (inv.eraseEntry.setSession ?_) ?_
      · rfl
      · rw [setSession_serve, eraseEntry_serve, hpc]
        rfl
  | readFailed hpc => exact inv.hangUp (by rw [hpc]; rfl)
  | readToRun hpc | readToAnswer hpc | answered hpc => exact inv.setServe (by rw [hpc]; rfl)
  | readToSkip => exact inv
  | executedReply hpc hexec | executedOneWay hpc hexec =>
      exact (inv.setSession (Session.executed hexec).pendingFd).setServe (by
        rw [setSession_serve, hpc]
        rfl)
  | executedLast hpc hexec =>
      exact (inv.setSession (Session.executed hexec).pendingFd).hangUp (by
        rw [setSession_serve, hpc]
        rfl)
  | answeredLast hpc => exact inv.hangUp (by rw [hpc]; rfl)

/-- **Every step keeps the table right.** -/
theorem Table.step [Inhabited ι] (inv : Table limits s) (h : Step limits s a t) :
    Table limits t := by
  cases h with
  | accepted hidle hpc =>
      refine inv.acceptStarts ?_
      rcases hpc with rfl | rfl <;> rfl
  | helloFailed | resendFailed | handedLate | turnedAway | unwrittenResumed =>
      exact inv.close.acceptReturns
  | helloRead hpc | helloForeign hpc | lookupFull hpc | lookupGone hpc =>
      exact inv.setAccept (by rw [hpc]; rfl) nofun
  | lookupFound hpc hfound =>
      refine inv.setAccept (by rw [hpc]; rfl) ?_
      rintro _ ⟨⟩
      exact (inv.entry _ _ (unfinished_eq_some hfound).1).1
  | lookupMade hpc hnone hstarting hroom => exact inv.made hnone hroom
  | @snapshotTaken c sid resumed hello hpc =>
      refine inv.setAccept ?_ ?_
      · rw [hpc]
        cases resumed <;> rfl
      · rintro _ ⟨⟩
        exact inv.refers c sid (by rw [hpc]; rfl)
  | @wroteKept c sid reply u hpc hresumed | @wroteResumed c sid reply hpc hresumed =>
      refine inv.setAccept (by rw [hpc, AcceptPc.makes, if_pos hresumed]; rfl) ?_
      rintro _ ⟨⟩
      exact inv.refers c sid (by rw [hpc]; rfl)
  | @wroteNew c sid reply u hpc hresumed | @unwrittenNew c sid reply u hpc hresumed =>
      refine inv.setAccept (by rw [hpc, AcceptPc.makes, hresumed]; rfl) ?_
      rintro _ ⟨⟩
      exact inv.refers c sid (by rw [hpc]; rfl)
  | forgot hpc => exact inv.forget hpc rfl rfl
  | @resent c sid u hpc =>
      refine inv.setAccept (by rw [hpc]; rfl) ?_
      rintro _ ⟨⟩
      exact inv.refers c sid (by rw [hpc]; rfl)
  | @handedOver c sid hpc hfin =>
      have hmade := inv.refers c sid (by rw [hpc]; rfl)
      refine (inv.closePending.setSession ?_ ?_ hmade).give.acceptReturns
      · rw [closePending_session]
      · intro h
        rw [hfin] at h
        cases h
  | @firstPut c sid hpc =>
      -- the slot of a new session is filled before it has a thread
      have hmade := inv.refers c sid (by rw [hpc]; rfl)
      have hfin := (inv.makes c sid (by rw [hpc]; rfl)).2
      refine (inv.closePending.setSession ?_ ?_ hmade).give.setAccept ?_ ?_
      · rw [closePending_session]
      · intro h
        rw [hfin] at h
        cases h
      · rw [give_accept, setSession_accept, closePending_accept, hpc]
        rfl
      · rintro _ ⟨⟩
        exact hmade
  | launched hpc => exact inv.startServing hpc
  | taken hpc =>
      have hmade := inv.lt_made (by rw [hpc]; nofun)
      refine Table.setServe (inv.setSession ?_ ?_ hmade).give ?_ nofun
        (by rintro (h | h) <;> cases h)
      · rfl
      · exact fun _ => rfl
      · rw [give_serve, setSession_serve, hpc]
        nofun
  | @expired sid hpc hpending =>
      -- no connection came in time, so the slot is empty and stays so
      have hstarted : s.serve sid ≠ .notStarted := by rw [hpc]; nofun
      refine Table.setServe (inv.finish (inv.lt_made hstarted) (fun c hc => ?_) ?_ ?_) ?_ ?_ ?_
      · exact hstarted (inv.makes c sid hc).1
      · rfl
      · exact hpending
      · rw [setSession_serve, hpc]
        nofun
      · nofun
      · intro _
        rw [setSession_session, Function.update_self]
  | @left sid hpc =>
      have hfin := inv.ended sid (Or.inl hpc)
      have hmade := inv.lt_made (by rw [hpc]; nofun)
      refine ((inv.eraseEntry hfin).setSession ?_ ?_ hmade).setServe ?_ nofun ?_
      · rw [eraseEntry_session]
      · intro _
        exact inv.empty sid hfin
      · rw [setSession_serve, eraseEntry_serve, hpc]
        nofun
      · intro _
        rw [setSession_session, Function.update_self]
        exact hfin
  | readFailed hpc | answeredLast hpc =>
      exact inv.close.setServe (by rw [close_serve, hpc]; nofun) nofun
        (by rintro (h | h) <;> cases h)
  | readToRun hpc | readToAnswer hpc | answered hpc =>
      exact inv.setServe (by rw [hpc]; nofun) nofun (by rintro (h | h) <;> cases h)
  | readToSkip => exact inv
  | @executedReply sid c f reply x answers last hpc hexec
  | @executedOneWay sid c f x answers hpc hexec =>
      have hpending := (Session.executed hexec).pendingFd
      have hfin := (Session.executed hexec).finished
      have hmade := inv.lt_made (by rw [hpc]; nofun)
      refine (inv.setSession hfin ?_ hmade).setServe ?_ nofun (by rintro (h | h) <;> cases h)
      · intro h
        rw [hpending]
        exact inv.empty sid (hfin ▸ h)
      · rw [setSession_serve, hpc]
        nofun
  | @executedLast sid c f x answers hpc hexec =>
      have hpending := (Session.executed hexec).pendingFd
      have hfin := (Session.executed hexec).finished
      have hmade := inv.lt_made (by rw [hpc]; nofun)
      refine (inv.setSession hfin ?_ hmade).close.setServe ?_ nofun (by rintro (h | h) <;> cases h)
      · intro h
        rw [hpending]
        exact inv.empty sid (hfin ▸ h)
      · rw [close_serve, setSession_serve, hpc]
        nofun

/-- The invariants of the server, with any clients. -/
structure Inv [Inhabited ι] (limits : Limits) (s : Server ι) : Prop where
  owners : Owners s
  table : Table limits s
  unserved : Unserved s

/-- The invariant holds at first. -/
theorem Inv.initial [Inhabited ι] : Inv limits (Server.initial ι) :=
  ⟨Owners.initial, Table.initial, fun _ h => absurd h (Nat.not_lt_zero _)⟩

/-- **Every step keeps the invariant.** -/
theorem Inv.step [Inhabited ι] (inv : Inv limits s) (h : s.step limits a = some t) :
    Inv limits t :=
  have h := Step.of_step h
  ⟨inv.owners.step inv.table h, inv.table.step h, inv.unserved.step h⟩

/-- **The invariants hold in every state the server reaches.** -/
theorem always_inv [Inhabited ι] (limits : Limits) :
    Always (Server.step limits) (fun _ _ => True) (Server.initial ι) (Inv limits) :=
  Always.of_step Inv.initial fun _ _ _ inv _ hstep => inv.step hstep

/-! ## The record of what a session completed -/

/-- The record of what was completed is the same. -/
structure SameRecord (x y : Session ι) : Prop where
  lastReq : y.lastReq = x.lastReq
  lastReplyId : y.lastReplyId = x.lastReplyId
  lastReply : y.lastReply = x.lastReply
  dispatched : y.dispatched = x.dispatched
  replies : y.replies = x.replies

/-- A session that does not change is the same session. -/
theorem SameRecord.rfl {x : Session ι} : SameRecord x x := ⟨.refl _, .refl _, .refl _, .refl _, .refl _⟩

/-- What a step does to the record of a session: nothing, unless it is the execution of the request
that the session's thread is running. -/
inductive Evolves (s t : Server ι) (sid : SessionId) : Prop
  | same (h : SameRecord (s.session sid) (t.session sid))
  | executed {c : ConnId} {f : Frame} {reply : Option Reply} (hrunning : s.serve sid = .running c f)
      (h : Session.Executed (s.session sid) f (t.session sid) reply)
      (hanswers : ∀ r, reply = some r → ∃ last, t.serve sid = .answering c r last)
      (hsilent : reply = none → t.serve sid = .reading c ∨ t.serve sid = .waiting)

/-- Over a step a session goes on as the same one, or begins, or ends. -/
theorem Step.evolves [Inhabited ι] (inv : Table limits s) (h : Step limits s a t)
    (sid : SessionId) : Evolves s t sid := by
  cases h with
  | @forgot c sid' | @handedOver c sid' | @firstPut c sid' | @taken sid' | @expired sid' | @left sid' =>
      refine .same ?_
      by_cases hsid : sid = sid'
      · subst hsid
        simp only [setSession_session, close_session, acceptReturns_session, setServe_session,
          putPending_session, give_session, setAccept_session, Function.update_self]
        exact ⟨.refl _, .refl _, .refl _, .refl _, .refl _⟩
      · simp only [setSession_session, close_session, acceptReturns_session, setServe_session,
          putPending_session, give_session, setAccept_session, closePending_session,
          eraseEntry_session, Function.update_of_ne hsid]
        exact .rfl
  | lookupMade =>
      refine .same ?_
      by_cases hsid : sid = s.made
      · subst hsid
        rw [setAccept_session, register_session, Function.update_self, (inv.fresh _ le_rfl).1]
        exact .rfl
      · rw [setAccept_session, register_session, Function.update_of_ne hsid]
        exact .rfl
  | @executedReply sid' c f reply x answers last hpc hexec =>
      by_cases hsid : sid = sid'
      · subst hsid
        have hdone : Session.Executed (s.session sid) f
            (((s.setSession sid x).setServe sid (.answering c reply last)).session sid) reply := by
          rw [setServe_session, setSession_session, Function.update_self]
          exact Session.executed hexec
        refine .executed hpc hdone ?_ nofun
        rintro r ⟨⟩
        exact ⟨last, by rw [setServe_serve, Function.update_self]⟩
      · refine .same ?_
        rw [setServe_session, setSession_session, Function.update_of_ne hsid]
        exact .rfl
  | @executedLast sid' c f x answers hpc hexec | @executedOneWay sid' c f x answers hpc hexec =>
      by_cases hsid : sid = sid'
      · subst hsid
        refine @Evolves.executed _ _ _ _ c f none hpc ?_ nofun ?_
        · simp only [setServe_session, close_session, setSession_session, Function.update_self]
          exact Session.executed hexec
        · intro _
          simp [setServe_serve, Function.update_self]
      · refine .same ?_
        simp only [setServe_session, close_session, setSession_session, Function.update_of_ne hsid]
        exact .rfl
  | _ => exact .same .rfl

/-! ## What they give -/

/-- Who has a connection's descriptor: its accept code, the slot of a session, or the thread serving
one. -/
def Has (s : Server ι) (c : ConnId) : Owner → Prop
  | .acceptCode => (s.accept c).holds = true
  | .slot sid => (s.session sid).pendingFd = some c
  | .servingThread sid => (s.serve sid).conn = some c
  | .nobody | .closed => False

/-- Who has a descriptor is its owner, if it has one and it is open. -/
theorem Owners.has_iff (inv : Owners s) {o : Owner} :
    s.Has c o ↔ s.owner c = o ∧ o ≠ .nobody ∧ o ≠ .closed := by
  cases o with
  | acceptCode => simp [Has, inv.accept]
  | slot sid => simp [Has, inv.slot]
  | servingThread sid => simp [Has, inv.thread]
  | nobody => simp [Has]
  | closed => simp [Has]

/-- What is true of a descriptor: it has not been accepted and nobody has it; it has exactly one owner
and has not been closed; or it has been closed once and nobody has it. -/
inductive Descriptor (s : Server ι) (c : ConnId) : Prop
  | unaccepted (idle : s.accept c = .idle) (closes : s.closes c = 0) (has : ∀ o, ¬ s.Has c o)
  | owned (accepted : s.accept c ≠ .idle) (closes : s.closes c = 0) (has : ∃! o, s.Has c o)
  | closed (accepted : s.accept c ≠ .idle) (closes : s.closes c = 1) (has : ∀ o, ¬ s.Has c o)

/-- A descriptor has at most one owner, and none once it is closed. -/
theorem Owners.descriptor (inv : Owners s) (c : ConnId) : Descriptor s c := by
  have hcloses := inv.closed c
  by_cases hidle : s.accept c = .idle
  · have howner := (inv.nobody c).mpr hidle
    rw [howner, if_neg nofun] at hcloses
    refine .unaccepted hidle hcloses fun o ho => ?_
    obtain ⟨rfl, hne, -⟩ := inv.has_iff.mp ho
    exact hne howner
  · have howner : s.owner c ≠ .nobody := fun h => hidle ((inv.nobody c).mp h)
    by_cases hclosed : s.owner c = .closed
    · rw [if_pos hclosed] at hcloses
      refine .closed hidle hcloses fun o ho => ?_
      obtain ⟨rfl, -, hne⟩ := inv.has_iff.mp ho
      exact hne hclosed
    · rw [if_neg hclosed] at hcloses
      refine .owned hidle hcloses ⟨s.owner c, inv.has_iff.mpr ⟨rfl, howner, hclosed⟩, ?_⟩
      intro o ho
      exact (inv.has_iff.mp ho).1.symm

/-- Whether an action is that of the one who has the descriptor, so that it may read, write or close
it: the accept code that has it, the thread serving a session on it, or accept code that empties, with
the session's mutex held, the slot it is in. -/
def MayUse (s : Server ι) (c : ConnId) : ServerAction ι → Prop
  | .readHello c' _ | .writeReply c' _ | .resend c' _ | .turnAway c' _ => s.Has c .acceptCode ∧ c = c'
  | .forget c' | .handOver c' | .putFirst c' =>
      s.Has c .acceptCode ∧ c = c' ∨ ∃ sid, (s.accept c').session = some sid ∧ s.Has c (.slot sid)
  | .read sid _ | .execute sid _ | .answer sid _ => s.Has c (.servingThread sid)
  | _ => False

/-- A descriptor that a step uses is used by the one who has it. -/
theorem Step.mayUse [Inhabited ι] (h : Step limits s a t) : ∀ c ∈ s.uses a, s.MayUse c a := by
  cases h <;> simp_all [uses, MayUse, Has, AcceptPc.holds, AcceptPc.session, ServePc.conn]

/-- Closing a descriptor is no close of another. -/
theorem close_closes_of_ne {c' : ConnId} (h : c ≠ c') : (s.close c').closes c = s.closes c := by
  rw [close_closes, Function.update_of_ne h]

/-- Closing the pending descriptor is no close of another. -/
theorem closePending_closes_of_ne (h : (s.session sid).pendingFd ≠ some c) :
    (s.closePending sid).closes c = s.closes c := by
  cases hpending : (s.session sid).pendingFd with
  | none => simp [hpending]
  | some c' =>
      have hne : c ≠ c' := by
        rintro rfl
        exact h hpending
      simpa [hpending] using close_closes_of_ne hne

/-- A descriptor that a step does not use is not closed by it. -/
theorem Step.closes_eq [Inhabited ι] (h : Step limits s a t) (hc : c ∉ s.uses a) :
    t.closes c = s.closes c := by
  cases h with
  | @forgot c' sid hpc =>
      simp only [uses, hpc, List.mem_cons, Option.mem_toList, not_or] at hc
      rw [acceptReturns_closes, close_closes_of_ne hc.1, setSession_closes]
      exact closePending_closes_of_ne hc.2
  | @handedOver c' sid hpc hfin =>
      simp only [uses, hpc, hfin, Bool.false_eq_true, if_false, Option.mem_toList] at hc
      exact closePending_closes_of_ne hc
  | @firstPut c' sid hpc =>
      simp only [uses, hpc, Option.mem_toList] at hc
      exact closePending_closes_of_ne hc
  | _ => simp_all [uses, ServePc.conn]

/-- A descriptor that a step may use has not been closed. -/
theorem Owners.closes_eq_zero (inv : Owners s) (h : s.MayUse c a) : s.closes c = 0 := by
  have hhas : ∀ o, s.Has c o → s.closes c = 0 := by
    intro o ho
    obtain ⟨rfl, -, hne⟩ := inv.has_iff.mp ho
    rw [inv.closed c, if_neg hne]
  cases a <;> simp only [MayUse] at h
  case forget | handOver | putFirst =>
    rcases h with h | ⟨sid, -, h⟩
    · exact hhas _ h.1
    · exact hhas _ h
  case readHello | writeReply | resend | turnAway => exact hhas _ h.1
  case read | execute | answer => exact hhas _ h

/-- The unfinished sessions there are. -/
def unfinishedSessions (s : Server ι) : Finset SessionId :=
  (Finset.range s.made).filter fun sid => (s.session sid).finished = false

/-- The sessions that count are those made and not finished. -/
theorem mem_unfinishedSessions :
    sid ∈ s.unfinishedSessions ↔ sid < s.made ∧ (s.session sid).finished = false := by
  simp [unfinishedSessions]

/-- Two unfinished sessions have different keys. -/
theorem Table.key_injective [Inhabited ι] (inv : Table limits s) :
    Set.InjOn s.key s.unfinishedSessions := by
  intro x hx y hy hkey
  rw [Finset.mem_coe, mem_unfinishedSessions] at hx hy
  have hlx := inv.listed x hx.1 hx.2
  have hly := inv.listed y hy.1 hy.2
  rw [hkey, hly] at hlx
  exact (Option.some.inj hlx).symm

/-- The unfinished sessions are among those the table lists. -/
theorem Table.card_unfinishedSessions [Inhabited ι] (inv : Table limits s) :
    s.unfinishedSessions.card ≤ s.sessions.length := by
  have hmaps : Set.MapsTo s.key s.unfinishedSessions (AssocList.keys s.sessions).toFinset := by
    intro sid hsid
    rw [Finset.mem_coe, mem_unfinishedSessions] at hsid
    rw [Finset.mem_coe, List.mem_toFinset, AssocList.mem_keys_iff]
    exact ⟨sid, inv.listed sid hsid.1 hsid.2⟩
  calc s.unfinishedSessions.card
      ≤ (AssocList.keys s.sessions).toFinset.card := Finset.card_le_card_of_injOn _ hmaps inv.key_injective
    _ ≤ (AssocList.keys s.sessions).length := List.toFinset_card_le _
    _ = s.sessions.length := List.length_map _

/-- The thread serving a session is there, and has not given up. -/
def Served (s : Server ι) (sid : SessionId) : Prop :=
  s.launches sid = 1 ∧ s.serve sid ≠ .notStarted ∧ s.serve sid ≠ .leaving ∧ s.serve sid ≠ .exited

/-- An unfinished session is served by the one thread started for it; or none was started yet, and
exactly one connection's accept code is still to start it or to finish the session. -/
theorem Inv.served_or_making [Inhabited ι] (inv : Inv limits s) (hsid : sid ∈ s.unfinishedSessions) :
    s.Served sid ∨ s.launches sid = 0 ∧ ∃! c, (s.accept c).makes = some sid := by
  obtain ⟨hmade, hfin⟩ := mem_unfinishedSessions.mp hsid
  have hlaunched := inv.table.launched sid
  by_cases hnot : s.serve sid = .notStarted
  · right
    rw [if_pos hnot] at hlaunched
    obtain ⟨c, hc⟩ := inv.unserved sid hmade hnot hfin
    exact ⟨hlaunched, c, hc, fun c' hc' => inv.table.maker c' c sid hc' hc⟩
  · left
    rw [if_neg hnot] at hlaunched
    refine ⟨hlaunched, hnot, fun h => ?_, fun h => ?_⟩
    · rw [inv.table.ended sid (Or.inl h)] at hfin
      cases hfin
    · rw [inv.table.ended sid (Or.inr h)] at hfin
      cases hfin

/-- **Descriptors and sessions.** In every state the server reaches, with any clients: a connection
that was accepted has exactly one owner until it is closed, is closed once, and only its owner uses or
closes it; at most one unfinished session is under a key, served by the one thread started for it or
about to be by the accept code that made it; a finished session holds no connection; there are never
more sessions than the cap; and a handshake for an unfinished session resumes it. -/
theorem descriptor_ownership [Inhabited ι] (limits : Limits) (as : List (ServerAction ι))
    {s : Server ι} (hrun : run (Server.step limits) (Server.initial ι) as = some s) :
    (∀ c, Descriptor s c) ∧
    (∀ a t, s.step limits a = some t →
      (∀ c ∈ s.uses a, s.MayUse c a ∧ s.closes c = 0) ∧
      ∀ c, c ∉ s.uses a → t.closes c = s.closes c) ∧
    (∀ sid ∈ s.unfinishedSessions, ∀ sid' ∈ s.unfinishedSessions, s.key sid = s.key sid' →
      sid = sid') ∧
    (∀ sid ∈ s.unfinishedSessions,
      s.Served sid ∨ s.launches sid = 0 ∧ ∃! c, (s.accept c).makes = some sid) ∧
    (∀ sid, (s.session sid).finished = true → (s.session sid).pendingFd = none) ∧
    (s.unfinishedSessions.card ≤ s.sessions.length ∧ s.sessions.length ≤ limits.maxSessions) ∧
    (∀ c hello sid, s.accept c = .asked hello → sid ∈ s.unfinishedSessions →
      s.key sid = hello.session →
      s.step limits (.lookup c) = some (s.setAccept c (.found sid true hello))) := by
  have inv := always_inv limits as s (along_true _ _ _) hrun
  refine ⟨inv.owners.descriptor, fun a t hstep => ⟨fun c hc => ?_, fun c hc => ?_⟩,
    fun sid hsid sid' hsid' hkey => ?_, fun sid hsid => inv.served_or_making hsid,
    inv.table.empty, ⟨inv.table.card_unfinishedSessions, inv.table.capped⟩,
    fun c hello sid hpc hsid hkey => ?_⟩
  · have hmay := (Step.of_step hstep).mayUse c hc
    exact ⟨hmay, inv.owners.closes_eq_zero hmay⟩
  · exact (Step.of_step hstep).closes_eq hc
  · exact inv.table.key_injective (Finset.mem_coe.mpr hsid) (Finset.mem_coe.mpr hsid') hkey
  · obtain ⟨hmade, hfin⟩ := mem_unfinishedSessions.mp hsid
    have hfound := unfinished_eq_some_of (hkey ▸ inv.table.listed sid hmade hfin) hfin
    simp only [Server.step, hpc, lookup, hfound]

/-- A client's first connection, as far as the look-up of its session. -/
def firstLookup : List (ServerAction Unit) :=
  [.accept 0, .readHello 0 (some { session := ⟨1, 2⟩, lastReq := .none, resuming := false }), .lookup 0]

/-- And from there until it is served. -/
def firstService : List (ServerAction Unit) :=
  firstLookup ++ [.snapshot 0, .writeReply 0 true, .putFirst 0, .launch 0, .take 0]

/-- On a run that ends with the first client served, its thread owns its connection, which was not
closed. -/
theorem descriptor_ownership_served :
    ∃ s, run (Server.step {}) (Server.initial Unit) firstService = some s ∧
      s.Has 0 (.servingThread 0) ∧ Descriptor s 0 :=
  ⟨_, rfl, rfl, (descriptor_ownership {} firstService rfl).1 0⟩

/-- A session is unfinished before a thread serves it: from the look-up that makes it until the accept
code starts the thread. -/
theorem unfinished_session_without_thread :
    ¬ ∀ as s, run (Server.step {}) (Server.initial Unit) as = some s →
      ∀ sid ∈ s.unfinishedSessions, s.Served sid := by
  intro h
  have hserved := h firstLookup _ rfl 0 (mem_unfinishedSessions.mpr ⟨by decide, rfl⟩)
  exact absurd hserved.1 (by decide)

end Server

end Rgpu
