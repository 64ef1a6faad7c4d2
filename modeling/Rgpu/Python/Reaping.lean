import Rgpu.Python.OpServer

/-! # Reaping sessions

A session is kept for a grace period after its connection goes. Whether the connection that goes is
the one that counts is told by a number that starts again at zero when a session is made again under
the same id.

* **`OpServer.Attended`** — an entry that is not marked detached has the connection that attached
  last; one that is marked has been left by it at that time.
* **`OpServer.reaping_abandons_abandoned`** — holds along every run in which no thread detaches a
  session it did not attach to.
* **`OpServer.live_session_reaped`** — a run in which one does. -/

namespace Rgpu

open Foundations

namespace OpServer

variable {σ β ρ : Type} {e : Engine σ β ρ} {grace : ℕ} {s t : OpServer σ β ρ} {c : OpConnId}

/-- The entries of the registry and the connections that have leases on their sessions. -/
structure Attended (s : OpServer σ β ρ) : Prop where
  /-- A session that is not marked detached has the connection that attached to it last. -/
  kept : ∀ sid x, s.registry.find sid = some x → x.detachedAt = none →
    (s.conn (s.newest x.session)).pc.lease = some ⟨sid, x.session, x.generation⟩
  /-- One that is marked was left by that connection at the time marked. -/
  left : ∀ sid x n, s.registry.find sid = some x → x.detachedAt = some n →
    (s.conn (s.newest x.session)).endedAt = some n
  made : ∀ sid x, s.registry.find sid = some x → x.session < s.made
  leased : ∀ c l, (s.conn c).pc.lease = some l → l.session < s.made
  /-- A lease on a registered session is no newer than its entry, and as new only if it is that of
  the connection that attached last. -/
  generation : ∀ c l sid x, (s.conn c).pc.lease = some l → s.registry.find sid = some x →
    x.session = l.session →
    sid = l.sid ∧ l.generation ≤ x.generation ∧ (l.generation = x.generation → c = s.newest x.session)
  entry : ∀ sid sid' x x', s.registry.find sid = some x → s.registry.find sid' = some x' →
    x.session = x'.session → sid = sid'
  ended : ∀ c n, (s.conn c).endedAt = some n → n ≤ s.clock ∧ (s.conn c).pc = .ended

namespace Attended

/-- There are no sessions at first. -/
theorem initial : (OpServer.initial e).Attended := by
  constructor <;> simp [OpServer.initial, OpPc.lease]

/-- Nothing in the invariant is about what the sessions hold. -/
theorem setSession (hs : s.Attended) (u : ℕ) (x : OpSession σ ρ) : (s.setSession u x).Attended :=
  ⟨hs.kept, hs.left, hs.made, hs.leased, hs.generation, hs.entry, hs.ended⟩

/-- A thread moves on with the lease it has. -/
theorem setConn (hs : s.Attended) {x : OpConn σ β ρ} (hlease : x.pc.lease = (s.conn c).pc.lease)
    (hended : x.endedAt = (s.conn c).endedAt) (hpc : (s.conn c).pc = .ended → x.pc = .ended) :
    (s.setConn c x).Attended := by
  have hsame : ∀ c', ((s.setConn c x).conn c').pc.lease = (s.conn c').pc.lease := by
    intro c'
    rw [conn_setConn]
    split
    · rename_i hc
      rw [hc, hlease]
    · rfl
  have hsame' : ∀ c', ((s.setConn c x).conn c').endedAt = (s.conn c').endedAt := by
    intro c'
    rw [conn_setConn]
    split
    · rename_i hc
      rw [hc, hended]
    · rfl
  refine ⟨?_, ?_, hs.made, ?_, ?_, hs.entry, ?_⟩
  · intro sid x' hx' hnone
    rw [hsame]
    exact hs.kept sid x' hx' hnone
  · intro sid x' n hx' hn
    rw [hsame']
    exact hs.left sid x' n hx' hn
  · intro c' l hl
    rw [hsame] at hl
    exact hs.leased c' l hl
  · intro c' l sid x' hl hx' hsession
    rw [hsame] at hl
    exact hs.generation c' l sid x' hl hx' hsession
  · intro c' n hn
    rw [hsame'] at hn
    refine ⟨(hs.ended c' n hn).1, ?_⟩
    rw [conn_setConn]
    split
    · rename_i hc
      exact hpc (hc ▸ (hs.ended c' n hn).2)
    · exact (hs.ended c' n hn).2

/-- A thread moves on, keeping the lease it has. -/
theorem setPc (hs : s.Attended) {pc : OpPc ρ} (hlease : pc.lease = (s.conn c).pc.lease)
    (hpc : (s.conn c).pc ≠ .ended) : (s.setPc c pc).Attended :=
  hs.setConn hlease rfl fun h => absurd h hpc

/-- A thread that has no lease and has not ended has no part in the invariant. -/
theorem newest_ne (hs : s.Attended) (hlease : (s.conn c).pc.lease = none)
    (hpc : (s.conn c).pc ≠ .ended) {sid : OpSessionId} {x : RegistryEntry} (hx : s.registry.find sid = some x) :
    c ≠ s.newest x.session := by
  rintro rfl
  cases hd : x.detachedAt with
  | none =>
      rw [hs.kept sid x hx hd] at hlease
      cases hlease
  | some n => exact hpc (hs.ended _ n (hs.left sid x n hx hd)).2

/-- An entry of which the thread is the one that attached last is put in, in a generation that no lease has yet. -/
theorem put (hs : s.Attended) (hlease : (s.conn c).pc.lease = none) (hpc : (s.conn c).pc ≠ .ended)
    {sid : OpSessionId} {y : RegistryEntry} {m : ℕ} (resumed : Bool) (lastAcked : ℕ) (hnone : y.detachedAt = none)
    (hmade : s.made ≤ m) (hy : y.session < m)
    (hother : ∀ sid' x, s.registry.find sid' = some x → x.session = y.session → sid' = sid)
    (hleases : ∀ c' l, (s.conn c').pc.lease = some l → y.session = l.session →
      sid = l.sid ∧ l.generation < y.generation) :
    (({ s with registry := s.registry.insert sid y, made := m, newest := Function.update s.newest y.session c } :
      OpServer σ β ρ).setPc c (.attached ⟨sid, y.session, y.generation⟩ resumed lastAcked)).Attended := by
  -- the entries of the other ids are of other sessions, and the thread was not the one that counts for them
  have hold : ∀ sid' x, s.registry.find sid' = some x → sid' ≠ sid →
      Function.update s.newest y.session c x.session = s.newest x.session ∧ c ≠ s.newest x.session :=
    fun sid' x hx hne => ⟨Function.update_of_ne (fun h => hne (hother sid' x hx h)) _ _, hs.newest_ne hlease hpc hx⟩
  have hend : ∀ n, (s.conn c).endedAt ≠ some n := fun n hn => hpc (hs.ended c n hn).2
  constructor <;> simp only [OpServer.setPc, OpServer.setConn, Table.find_insert]
  case kept =>
    intro sid' x hx hdetached
    split at hx
    · rename_i heq
      cases hx
      rw [heq, Function.update_self, Function.update_self]
      rfl
    · rename_i hne
      obtain ⟨hnewest, hc⟩ := hold sid' x hx hne
      rw [hnewest, Function.update_of_ne hc.symm]
      exact hs.kept sid' x hx hdetached
  case left =>
    intro sid' x n hx hdetached
    split at hx
    · cases hx
      rw [hnone] at hdetached
      cases hdetached
    · rename_i hne
      obtain ⟨hnewest, hc⟩ := hold sid' x hx hne
      rw [hnewest, Function.update_of_ne hc.symm]
      exact hs.left sid' x n hx hdetached
  case made =>
    intro sid' x hx
    split at hx
    · cases hx
      exact hy
    · exact (hs.made sid' x hx).trans_le hmade
  case leased =>
    intro c' l hl
    by_cases hc : c' = c
    · rw [hc, Function.update_self] at hl
      cases hl
      exact hy
    · rw [Function.update_of_ne hc] at hl
      exact (hs.leased c' l hl).trans_le hmade
  case generation =>
    intro c' l sid' x hl hx hsession
    by_cases hc : c' = c
    · rw [hc, Function.update_self] at hl
      cases hl
      split at hx
      · rename_i heq
        cases hx
        exact ⟨heq, le_rfl, fun _ => by rw [hc, Function.update_self]⟩
      · rename_i hne
        exact absurd (hother sid' x hx hsession) hne
    · rw [Function.update_of_ne hc] at hl
      split at hx
      · rename_i heq
        cases hx
        obtain ⟨hsid, hgeneration⟩ := hleases c' l hl hsession
        exact ⟨heq.trans hsid, hgeneration.le, fun h => absurd h hgeneration.ne⟩
      · rename_i hne
        rw [(hold sid' x hx hne).1]
        exact hs.generation c' l sid' x hl hx hsession
  case entry =>
    intro sid' sid'' x x' hx hx' hsession
    split at hx <;> split at hx'
    · rename_i heq heq'
      rw [heq, heq']
    · rename_i heq _
      cases hx
      rw [heq, hother sid'' x' hx' hsession.symm]
    · rename_i _ heq'
      cases hx'
      rw [heq', hother sid' x hx hsession]
    · exact hs.entry sid' sid'' x x' hx hx' hsession
  case ended =>
    intro c' n hn
    by_cases hc : c' = c
    · rw [hc, Function.update_self] at hn
      exact absurd hn (hend n)
    · rw [Function.update_of_ne hc] at hn ⊢
      exact hs.ended c' n hn

/-- **An attach.** -/
theorem attach (hs : s.Attended) (hlease : (s.conn c).pc.lease = none) (hpc : (s.conn c).pc ≠ .ended)
    (sid : OpSessionId) (lastAcked : ℕ) :
    ((s.registryAttach c sid).1.setPc c
      (.attached (s.registryAttach c sid).2.1 (s.registryAttach c sid).2.2 lastAcked)).Attended := by
  rw [registryAttach]
  split
  · -- the entry of the id is in a new generation, and this connection is the one attached last
    rename_i x hx
    refine hs.put hlease hpc (y := { x with generation := x.generation + 1, detachedAt := none }) true lastAcked rfl
      le_rfl (hs.made sid x hx) (fun sid' x' hx' => hs.entry sid' sid x' x hx' hx) fun c' l hl hsession => ?_
    obtain ⟨hsid, hgeneration, -⟩ := hs.generation c' l sid x hl hx hsession
    exact ⟨hsid, Nat.lt_succ_of_le hgeneration⟩
  · -- a new session, which no connection has a lease on yet
    refine hs.put hlease hpc (y := ⟨s.made, 0, none⟩) false lastAcked rfl (Nat.le_succ _) (Nat.lt_succ_self _) ?_ ?_
    · exact fun sid' x hx hsession => absurd (hs.made sid' x hx) (Nat.not_lt.mpr hsession.ge)
    · exact fun c' l hl hsession => absurd (hs.leased c' l hl) (Nat.not_lt.mpr hsession.le)

/-- A thread ends, and of the entries it leaves those are marked of which it was the one that attached last. -/
theorem ends (hs : s.Attended) {r : Table OpSessionId RegistryEntry}
    (hr : ∀ sid x, r.find sid = some x → ∃ y, s.registry.find sid = some y ∧
      x = { y with detachedAt := if c = s.newest y.session then some s.clock else y.detachedAt }) :
    (({ s with registry := r } : OpServer σ β ρ).setConn c
      { s.conn c with pc := .ended, endedAt := some s.clock }).Attended := by
  constructor <;> simp only [OpServer.setConn]
  case kept =>
    intro sid x hx hdetached
    obtain ⟨y, hy, rfl⟩ := hr sid x hx
    by_cases hc : c = s.newest y.session
    · rw [if_pos hc] at hdetached
      cases hdetached
    · rw [if_neg hc] at hdetached
      rw [Function.update_of_ne (Ne.symm hc)]
      exact hs.kept sid y hy hdetached
  case left =>
    intro sid x n hx hdetached
    obtain ⟨y, hy, rfl⟩ := hr sid x hx
    by_cases hc : c = s.newest y.session
    · rw [if_pos hc] at hdetached
      rw [← hc, Function.update_self]
      exact hdetached
    · rw [if_neg hc] at hdetached
      rw [Function.update_of_ne (Ne.symm hc)]
      exact hs.left sid y n hy hdetached
  case made =>
    intro sid x hx
    obtain ⟨y, hy, rfl⟩ := hr sid x hx
    exact hs.made sid y hy
  case leased =>
    intro c' l hl
    by_cases hc : c' = c
    · rw [hc, Function.update_self] at hl
      cases hl
    · rw [Function.update_of_ne hc] at hl
      exact hs.leased c' l hl
  case generation =>
    intro c' l sid x hl hx hsession
    obtain ⟨y, hy, rfl⟩ := hr sid x hx
    by_cases hc : c' = c
    · rw [hc, Function.update_self] at hl
      cases hl
    · rw [Function.update_of_ne hc] at hl
      exact hs.generation c' l sid y hl hy hsession
  case entry =>
    intro sid sid' x x' hx hx' hsession
    obtain ⟨y, hy, rfl⟩ := hr sid x hx
    obtain ⟨y', hy', rfl⟩ := hr sid' x' hx'
    exact hs.entry sid sid' y y' hy hy' hsession
  case ended =>
    intro c' n hn
    by_cases hc : c' = c
    · rw [hc, Function.update_self] at hn ⊢
      cases hn
      exact ⟨le_rfl, rfl⟩
    · rw [Function.update_of_ne hc] at hn ⊢
      exact hs.ended c' n hn

/-- **A detach** by a thread that is about the session it attached to, if the numbers agree. -/
theorem detach (hs : s.Attended) {l : Lease} (hpc : (s.conn c).pc = .closing l)
    (hown : ∀ x, s.registry.find l.sid = some x → x.generation = l.generation → x.session = l.session) :
    ((s.registryDetach l).setConn c
      { s.conn c with pc := .ended, endedAt := some s.clock }).Attended := by
  have hlease : (s.conn c).pc.lease = some l := by rw [hpc]; rfl
  -- the thread is the one that counts for the entry of its lease at most
  have hcounts : ∀ sid x, s.registry.find sid = some x → c = s.newest x.session →
      sid = l.sid ∧ x.generation = l.generation := by
    intro sid x hx hc
    cases hdetached : x.detachedAt with
    | none =>
        have hkept := hs.kept sid x hx hdetached
        rw [← hc, hlease] at hkept
        cases hkept
        exact ⟨rfl, rfl⟩
    | some n =>
        have hended := (hs.ended _ n (hs.left sid x n hx hdetached)).2
        rw [← hc, hpc] at hended
        cases hended
  rw [registryDetach]
  split
  · rename_i x hx
    split
    · -- the entry is in the generation of the lease, so the thread is the one that attached last
      rename_i hgen
      have hnewest : c = s.newest x.session :=
        (hs.generation c l l.sid x hlease hx (hown x hx hgen)).2.2 hgen.symm
      refine hs.ends fun sid x' hx' => ?_
      rw [Table.find_insert] at hx'
      split at hx'
      · rename_i heq
        cases hx'
        exact ⟨x, heq ▸ hx, by rw [if_pos hnewest]⟩
      · rename_i hne
        exact ⟨x', hx', by rw [if_neg fun hc => hne (hcounts sid x' hx' hc).1]⟩
    · rename_i hgen
      refine hs.ends fun sid x' hx' => ⟨x', hx', ?_⟩
      have hne : c ≠ s.newest x'.session := by
        intro hc
        obtain ⟨rfl, heq⟩ := hcounts sid x' hx' hc
        rw [hx] at hx'
        cases hx'
        exact hgen heq
      rw [if_neg hne]
  · rename_i hnone
    refine hs.ends fun sid x' hx' => ⟨x', hx', ?_⟩
    have hne : c ≠ s.newest x'.session := by
      intro hc
      obtain ⟨rfl, -⟩ := hcounts sid x' hx' hc
      rw [hnone] at hx'
      cases hx'
    rw [if_neg hne]

/-- Reaping takes out what nobody attends to. -/
theorem reap (hs : s.Attended) (now : ℕ) : (s.reap grace now).Attended := by
  have hsub : ∀ sid x, (s.reap grace now).registry.find sid = some x → s.registry.find sid = some x :=
    fun sid x hx => (Table.find_filter_eq_some.mp hx).1
  exact ⟨fun sid x hx => hs.kept sid x (hsub sid x hx), fun sid x n hx => hs.left sid x n (hsub sid x hx),
    fun sid x hx => hs.made sid x (hsub sid x hx), hs.leased,
    fun c l sid x hl hx => hs.generation c l sid x hl (hsub sid x hx),
    fun sid sid' x x' hx hx' => hs.entry sid sid' x x' (hsub sid x hx) (hsub sid' x' hx'), hs.ended⟩

end Attended

/-- The condition on a step: a thread that ends does not find, under the id of its session, an entry of
another session in the generation it has its own in. -/
def Unconfused (s : OpServer σ β ρ) : OpServerAction β → Prop
  | .detach c =>
      match (s.conn c).pc with
      | .closing l => ∀ x ∈ s.registry.find l.sid, x.generation = l.generation → x.session = l.session
      | _ => True
  | _ => True

instance (s : OpServer σ β ρ) (a : OpServerAction β) : Decidable (Unconfused s a) :=
  match a with
  | .detach c =>
      match h : (s.conn c).pc with
      | .closing l => decidable_of_iff
          (∀ x ∈ s.registry.find l.sid, x.generation = l.generation → x.session = l.session) (by rw [Unconfused, h])
      | .idle | .greeted _ _ | .attached _ _ _ | .serving _ | .replying _ _ | .ended =>
          .isTrue (by rw [Unconfused, h]; trivial)
  | .accept _ _ _ | .attach _ | .handshake _ _ | .arrive _ _ | .read _ | .apply _ | .reply _ _ | .close _ | .reap _
  | .tick _ => .isTrue trivial

/-- What a step does, but for what the sessions hold: a thread moves on with the lease it has, or the
registry is changed by an attach, a detach or a reap, or time passes. -/
theorem Attended.step (hs : s.Attended) {a : OpServerAction β} (ha : Unconfused s a)
    (hstep : s.step e grace a = some t) : t.Attended := by
  cases a with
  | accept c sid lastAcked =>
      unfold OpServer.step at hstep
      dsimp only at hstep
      split at hstep
      · rename_i hpc
        rw [← Option.some.inj hstep]
        refine hs.setPc ?_ ?_ <;> simp [hpc, OpPc.lease]
      · cases hstep
  | attach c =>
      unfold OpServer.step at hstep
      dsimp only at hstep
      split at hstep
      · rename_i sid lastAcked hpc
        rw [← Option.some.inj hstep]
        refine hs.attach ?_ ?_ sid lastAcked <;> simp [hpc, OpPc.lease]
      · cases hstep
  | handshake c sent =>
      unfold OpServer.step at hstep
      dsimp only at hstep
      split at hstep
      · rename_i l resumed lastAcked hpc
        rw [← Option.some.inj hstep, greet]
        refine (hs.setSession _ _).setConn ?_ rfl ?_
        · rw [conn_setSession, hpc]
          split <;> rfl
        · rw [conn_setSession, hpc]
          exact fun h => nomatch h
      · cases hstep
  | arrive c batch =>
      rw [← Option.some.inj hstep]
      exact hs.setConn rfl rfl id
  | read c =>
      unfold OpServer.step at hstep
      dsimp only at hstep
      split at hstep
      · rw [← Option.some.inj hstep]
        exact hs.setConn rfl rfl id
      · cases hstep
  | apply c =>
      unfold OpServer.step at hstep
      dsimp only at hstep
      split at hstep
      · rename_i l m rest hpc hbatch
        rw [← Option.some.inj hstep, applyNext]
        dsimp only
        split
        · refine hs.setPc ?_ ?_ <;> simp [hpc, OpPc.lease]
        · refine (hs.setSession _ _).setConn ?_ rfl ?_
          · rw [conn_setSession, hpc]
            split <;> rfl
          · rw [conn_setSession, hpc]
            exact fun h => nomatch h
      · cases hstep
  | reply c ok =>
      unfold OpServer.step at hstep
      dsimp only at hstep
      split at hstep
      · rename_i l r hpc
        split at hstep
        · rw [← Option.some.inj hstep]
          refine hs.setConn ?_ rfl ?_ <;> simp [hpc, OpPc.lease]
        · rw [← Option.some.inj hstep]
          refine hs.setPc ?_ ?_ <;> simp [hpc, OpPc.lease]
      · cases hstep
  | close c =>
      unfold OpServer.step at hstep
      dsimp only at hstep
      split at hstep
      · rename_i sid lastAcked hpc
        rw [← Option.some.inj hstep]
        refine hs.setPc ?_ ?_ <;> simp [hpc, OpPc.lease]
      · rename_i l hpc
        rw [← Option.some.inj hstep]
        refine hs.setPc ?_ ?_ <;> simp [hpc, OpPc.lease]
      · cases hstep
  | detach c =>
      unfold OpServer.step at hstep
      dsimp only at hstep
      split at hstep
      · rename_i l hpc
        have hown : ∀ x, s.registry.find l.sid = some x → x.generation = l.generation →
            x.session = l.session := by
          simp only [Unconfused, hpc] at ha
          exact ha
        -- only a registry entry of the thread's own session is marked as detached
        have hdetach := hs.detach hpc hown
        have hframe : (s.registryDetach l).conn = s.conn ∧ (s.registryDetach l).clock = s.clock := by
          rw [registryDetach]
          split
          · split <;> exact ⟨rfl, rfl⟩
          · exact ⟨rfl, rfl⟩
        rw [← Option.some.inj hstep, hframe.1, hframe.2]
        exact hdetach
      · cases hstep
  | reap now =>
      simp only [OpServer.step, Option.ite_none_right_eq_some, Option.some.injEq] at hstep
      obtain ⟨-, rfl⟩ := hstep
      exact hs.reap now
  | tick n =>
      rw [← Option.some.inj hstep]
      exact ⟨hs.kept, hs.left, hs.made, hs.leased, hs.generation, hs.entry,
        fun c m hm => ⟨Nat.le_add_right_of_le (hs.ended c m hm).1, (hs.ended c m hm).2⟩⟩

/-- It holds in every run along `Unconfused`. -/
theorem always_attended (e : Engine σ β ρ) (grace : ℕ) :
    Always (step e grace) Unconfused (initial e) Attended :=
  Always.of_step Attended.initial fun _ _ _ hs ha hstep => hs.step ha hstep

/-- A registered session stays registered through a step, unless it has been marked detached for
longer than the grace period. -/
theorem registered_step {a : OpServerAction β} (hstep : s.step e grace a = some t) {sid : OpSessionId}
    {x : RegistryEntry} (hx : s.registry.find sid = some x) :
    (∃ x', t.registry.find sid = some x' ∧ x'.session = x.session) ∨
      ∃ n, x.detachedAt = some n ∧ n + grace < s.clock := by
  have hsame : t.registry = s.registry →
      (∃ x', t.registry.find sid = some x' ∧ x'.session = x.session) ∨
        ∃ n, x.detachedAt = some n ∧ n + grace < s.clock := fun h => Or.inl ⟨x, h ▸ hx, rfl⟩
  cases a with
  | attach c =>
      unfold OpServer.step at hstep
      dsimp only at hstep
      split at hstep
      · rename_i sid' lastAcked hpc
        rw [← Option.some.inj hstep, OpServer.setPc, registry_setConn, registryAttach]
        -- an attach raises the generation of an entry or makes one, and takes none out
        refine Or.inl ?_
        split
        · rename_i y hy
          rw [Table.find_insert]
          split
          · rename_i heq
            rw [heq, hy, Option.some.injEq] at hx
            exact ⟨_, rfl, by rw [← hx]⟩
          · exact ⟨x, hx, rfl⟩
        · rename_i hnone
          rw [Table.find_insert_of_ne]
          · exact ⟨x, hx, rfl⟩
          · rintro rfl
            rw [hnone] at hx
            cases hx
      · cases hstep
  | detach c =>
      unfold OpServer.step at hstep
      dsimp only at hstep
      split at hstep
      · rename_i l hpc
        rw [← Option.some.inj hstep, registry_setConn, registryDetach]
        -- a detach marks the entry and leaves it in
        refine Or.inl ?_
        split
        · rename_i y hy
          split
          · rw [Table.find_insert]
            split
            · rename_i heq
              rw [heq, hy, Option.some.injEq] at hx
              exact ⟨_, rfl, by rw [← hx]⟩
            · exact ⟨x, hx, rfl⟩
          · exact ⟨x, hx, rfl⟩
        · exact ⟨x, hx, rfl⟩
      · cases hstep
  | reap now =>
      simp only [OpServer.step, Option.ite_none_right_eq_some, Option.some.injEq] at hstep
      obtain ⟨hnow, rfl⟩ := hstep
      rw [OpServer.reap]
      -- the clock has reached the time the reaper looked at, or is past it
      simp only [Table.find_filter_eq_some]
      cases hd : x.detachedAt with
      | none => exact Or.inl ⟨x, ⟨hx, by rw [hd]⟩, rfl⟩
      | some n =>
          by_cases hgrace : now ≤ n + grace
          · exact Or.inl ⟨x, ⟨hx, by rw [hd]; exact decide_eq_true hgrace⟩, rfl⟩
          · exact Or.inr ⟨n, rfl, by omega⟩
  | accept c sid' lastAcked =>
      unfold OpServer.step at hstep
      dsimp only at hstep
      split at hstep
      · exact hsame (Option.some.inj hstep ▸ rfl)
      · cases hstep
  | handshake c sent =>
      unfold OpServer.step at hstep
      dsimp only at hstep
      split at hstep
      · exact hsame (Option.some.inj hstep ▸ rfl)
      · cases hstep
  | arrive c batch => exact hsame (Option.some.inj hstep ▸ rfl)
  | read c =>
      unfold OpServer.step at hstep
      dsimp only at hstep
      split at hstep
      · exact hsame (Option.some.inj hstep ▸ rfl)
      · cases hstep
  | apply c =>
      unfold OpServer.step at hstep
      dsimp only at hstep
      split at hstep
      · refine hsame ?_
        rw [← Option.some.inj hstep, applyNext]
        dsimp only
        split <;> rfl
      · cases hstep
  | reply c ok =>
      unfold OpServer.step at hstep
      dsimp only at hstep
      split at hstep
      · refine hsame ?_
        split at hstep <;> exact Option.some.inj hstep ▸ rfl
      · cases hstep
  | close c =>
      unfold OpServer.step at hstep
      dsimp only at hstep
      split at hstep
      · exact hsame (Option.some.inj hstep ▸ rfl)
      · exact hsame (Option.some.inj hstep ▸ rfl)
      · cases hstep
  | tick n => exact hsame (Option.some.inj hstep ▸ rfl)

/-- **Reaping only abandons what is abandoned**, in every run in which no thread that ends finds an
entry of another session in its own generation. A session leaves the registry only when the connection
that attached to it last ended more than the grace period ago; and one that no connection has a lease
on carries a detach time. -/
theorem reaping_abandons_abandoned (e : Engine σ β ρ) (grace : ℕ) (as : List (OpServerAction β))
    (s : OpServer σ β ρ) (halong : Along (step e grace) Unconfused (initial e) as)
    (hrun : run (step e grace) (initial e) as = some s) :
    (∀ a t, s.step e grace a = some t → ∀ sid x, s.registry.find sid = some x →
      (∃ x', t.registry.find sid = some x' ∧ x'.session = x.session) ∨
        ∃ n, (s.conn (s.newest x.session)).endedAt = some n ∧ n + grace < s.clock) ∧
    ∀ sid x, s.registry.find sid = some x →
      (∀ c l, (s.conn c).pc.lease = some l → l.session ≠ x.session) → x.detachedAt ≠ none := by
  have hs : s.Attended := always_attended e grace as s halong hrun
  constructor
  · intro a t hstep sid x hx
    rcases registered_step hstep hx with hkept | ⟨n, hn, hgrace⟩
    · exact Or.inl hkept
    · exact Or.inr ⟨n, hs.left sid x n hx hn, hgrace⟩
  · intro sid x hx hall hnone
    exact hall _ _ (hs.kept sid x hx hnone) rfl

/-- Two connections of one session, the second of which ends and leaves the session to be reaped; and
a third that makes a session again under its id, before the first has ended. -/
def outlived : List (OpServerAction Bool) :=
  [.accept 0 7 0, .attach 0, .handshake 0 none, .accept 1 7 0, .attach 1, .handshake 1 none,
    .close 1, .detach 1, .tick 121, .reap 121, .accept 2 7 0, .attach 2, .handshake 2 none, .close 0]

/-- The second connection's session is reaped when its time is up: the theorem's step, in a run. -/
theorem reaping_abandons_abandoned_outlived : ∃ s, run (step counting 120) (initial counting)
      (outlived.take 9) = some s ∧
    ∃ n, (s.conn 1).endedAt = some n ∧ n + 120 < s.clock := by
  have hsome : (run (step counting 120) (initial counting) (outlived.take 9)).isSome = true := by decide
  obtain ⟨s, hs⟩ := Option.isSome_iff_exists.mp hsome
  have hstate : (run (step counting 120) (initial counting) (outlived.take 9)).map (fun s =>
      (s.registry.find 7, s.newest 0, ((s.step counting 120 (.reap 121)).map (·.registry.find 7)))) =
      some (some ⟨0, 1, some 0⟩, 1, some none) := by decide
  rw [hs, Option.map_some, Option.some.injEq] at hstate
  simp only [Prod.mk.injEq] at hstate
  obtain ⟨hfind, hnewest, hreaped⟩ := hstate
  obtain ⟨t, ht, hgone⟩ := Option.map_eq_some_iff.mp hreaped
  refine ⟨s, hs, ?_⟩
  rcases (reaping_abandons_abandoned counting 120 (outlived.take 9) s (by decide) hs).1 _ t ht 7 _ hfind
    with ⟨x', hx', -⟩ | hended
  · rw [hgone] at hx'
    cases hx'
  · rw [hnewest] at hended
    exact hended

/-- The first connection, which ends last, marks the third one's session detached, and it is reaped
although the third connection is being served. -/
theorem live_session_reaped : ∃ s t, run (step counting 120) (initial counting)
      (outlived ++ [.detach 0, .tick 121]) = some s ∧
    s.registry.find 7 = some ⟨1, 0, some 121⟩ ∧ (s.conn (s.newest 1)).endedAt = none ∧
    s.step counting 120 (.reap 242) = some t ∧ t.registry.find 7 = none ∧
    (t.conn (t.newest 1)).pc = .serving ⟨7, 1, 0⟩ := by
  have hsome : (run (step counting 120) (initial counting)
      (outlived ++ [.detach 0, .tick 121])).isSome = true := by decide
  obtain ⟨s, hs⟩ := Option.isSome_iff_exists.mp hsome
  have hstate : (run (step counting 120) (initial counting) (outlived ++ [.detach 0, .tick 121])).map
      (fun s => (s.registry.find 7, (s.conn (s.newest 1)).endedAt,
        (s.step counting 120 (.reap 242)).map fun t =>
          (t.registry.find 7, (t.conn (t.newest 1)).pc))) =
      some (some ⟨1, 0, some 121⟩, none, some (none, .serving ⟨7, 1, 0⟩)) := by decide
  rw [hs, Option.map_some, Option.some.injEq] at hstate
  simp only [Prod.mk.injEq] at hstate
  obtain ⟨hfind, hended, hreaped⟩ := hstate
  obtain ⟨t, ht, hgone⟩ := Option.map_eq_some_iff.mp hreaped
  rw [Prod.mk.injEq] at hgone
  exact ⟨s, t, hs, hfind, hended, ht, hgone.1, hgone.2⟩

end OpServer

end Rgpu
