import Rgpu.Python.OpServer

/-! # Fencing off older connections

Several connections can name one session, and the thread of an old one may be anywhere when a new one
attaches. What keeps them apart is the generation on the session, which a handshake raises and a
message is checked against, both under the session's lock.

* **`OpSession.Ran`** — what a session is after some messages, and how each ended.
* **`OpServer.Fenced`** — a connection of the session's generation is the only one that has run
  messages since its handshake.
* **`OpServer.serves_from_snapshot`** — what this gives for every run. -/

namespace Rgpu

open Foundations

variable {σ β ρ : Type}

namespace OpSession

variable {e : Engine σ β ρ} {x y : OpSession σ ρ} {m : OpMessage β}

/-- `y` is what `x` becomes when these messages are executed, each ending as it says. -/
def Ran (e : Engine σ β ρ) : OpSession σ ρ → List (OpMessage β × OpOutcome (OpReply ρ)) →
    OpSession σ ρ → Prop
  | x, [], y => x = y
  | x, (m, o) :: rest, y => (x.execute e m).2 = o ∧ Ran e (x.execute e m).1 rest y

/-- One more message. -/
theorem Ran.concat {done : List (OpMessage β × OpOutcome (OpReply ρ))} (h : Ran e x done y) (m : OpMessage β) :
    Ran e x (done ++ [(m, (y.execute e m).2)]) (y.execute e m).1 := by
  induction done generalizing x with
  | nil => cases h; exact ⟨rfl, rfl⟩
  | cons d done ih => exact ⟨h.1, ih h.2⟩

/-- The messages applied have distinct numbers, in order, none above the last; and the last reply is
to one of them. -/
structure InOrder (x : OpSession σ ρ) : Prop where
  increasing : x.applied.Pairwise (· < ·)
  bounded : ∀ n ∈ x.applied, n ≤ x.lastSeq
  replied : ∀ r, x.lastReply = some r → r.seq ≤ x.lastSeq

/-- Executing a message keeps what was applied in order. -/
theorem InOrder.execute (hx : x.InOrder) (e : Engine σ β ρ) (m : OpMessage β) :
    (x.execute e m).1.InOrder := by
  rw [OpSession.execute]
  split
  · exact hx
  · rename_i hnew
    rw [not_le] at hnew
    have hincreasing : (x.applied ++ [m.seq]).Pairwise (· < ·) := by
      refine List.pairwise_append.mpr ⟨hx.increasing, List.pairwise_singleton _ _, fun n hn k hk => ?_⟩
      rw [List.mem_singleton.mp hk]
      exact (hx.bounded n hn).trans_lt hnew
    have hbounded : ∀ n ∈ x.applied ++ [m.seq], n ≤ m.seq := by
      intro n hn
      rcases List.mem_append.mp hn with hn | hn
      · exact ((hx.bounded n hn).trans_lt hnew).le
      · rw [List.mem_singleton.mp hn]
    have hreplied : ∀ r, x.lastReply = some r → r.seq ≤ m.seq :=
      fun r hr => ((hx.replied r hr).trans_lt hnew).le
    dsimp only
    split
    · exact ⟨hincreasing, hbounded, hreplied⟩
    · refine ⟨hincreasing, hbounded, fun r hr => ?_⟩
      rw [← Option.some.inj hr]
    · exact ⟨hincreasing, hbounded, hreplied⟩

/-- `execute` leaves the generation as it is. -/
@[simp] theorem generation_execute (e : Engine σ β ρ) (x : OpSession σ ρ) (m : OpMessage β) :
    (x.execute e m).1.generation = x.generation := by
  rw [execute]
  split
  · rfl
  · dsimp only
    split <;> rfl

end OpSession

namespace OpPc

/-- The lease of a thread that has done its handshake. -/
def served : OpPc ρ → Option Lease
  | .serving l | .replying l _ | .closing l => some l
  | .idle | .greeted _ _ | .attached _ _ _ | .ended => none

/-- A connection that serves has a lease. -/
theorem lease_of_served {pc : OpPc ρ} {l : Lease} (h : pc.served = some l) : pc.lease = some l := by
  cases pc <;> simp_all [served, lease]

end OpPc

/-- The frames that answer messages. -/
def answers (done : List (OpMessage β × OpOutcome (OpReply ρ))) : List (OpFrame ρ) :=
  done.filterMap fun d =>
    match d.2 with
    | .answer r => some (.reply r)
    | .quiet | .raises => none

/-- The answer of one message more. -/
theorem answers_concat (done : List (OpMessage β × OpOutcome (OpReply ρ))) (m : OpMessage β)
    (o : OpOutcome (OpReply ρ)) : answers (done ++ [(m, o)]) = answers done ++ answers [(m, o)] :=
  List.filterMap_append

namespace OpServer

variable {e : Engine σ β ρ} {grace : ℕ} {s t : OpServer σ β ρ} {c : OpConnId}

/-- What a thread has still to write. -/
def unsent (x : OpConn σ β ρ) : List (OpFrame ρ) :=
  match x.pc with
  | .replying _ r => [.reply r]
  | _ => []

/-- Leases, and what was done under them. -/
structure Fenced (e : Engine σ β ρ) (s : OpServer σ β ρ) : Prop where
  made : ∀ sid x, s.registry.find sid = some x → x.session < s.made
  leased : ∀ c l, (s.conn c).pc.lease = some l → l.session < s.made
  entry : ∀ sid sid' x x', s.registry.find sid = some x → s.registry.find sid' = some x' →
    x.session = x'.session → sid = sid'
  bound : ∀ c l sid x, (s.conn c).pc.lease = some l → s.registry.find sid = some x →
    x.session = l.session → l.generation ≤ x.generation
  /-- No two connections have a session in one generation. -/
  unique : ∀ c c' l l', (s.conn c).pc.lease = some l → (s.conn c').pc.lease = some l' →
    l.session = l'.session → l.generation = l'.generation → c = c'
  /-- A handshake has raised the generation of its session for good. -/
  raised : ∀ c f, (s.conn c).found = some f →
    f.lease.session < s.made ∧ f.lease.generation ≤ (s.session f.lease.session).generation
  found : ∀ c l, (s.conn c).pc.served = some l → ∃ f, (s.conn c).found = some f ∧ f.lease = l ∧
    f.session.InOrder
  /-- The session is what the handshake of its generation found, after that connection's messages. -/
  ran : ∀ c l f, (s.conn c).pc.served = some l → (s.conn c).found = some f →
    (s.session l.session).generation = l.generation →
    f.session.Ran e (s.conn c).executed (s.session l.session)
  /-- What was written is the greeting and the answers. -/
  written : ∀ c l f, (s.conn c).found = some f →
    (s.conn c).pc = .serving l ∨ (∃ r, (s.conn c).pc = .replying l r) →
    (s.conn c).outbox ++ unsent (s.conn c) =
      greeting f.session f.resumed f.lastAcked ++ answers (s.conn c).executed
  inOrder : ∀ u, (s.session u).InOrder

namespace Fenced

/-- Nothing is applied at first. -/
theorem initial : Fenced e (OpServer.initial e) := by
  constructor
  all_goals simp [OpServer.initial, OpPc.lease, OpPc.served]
  exact ⟨List.Pairwise.nil, by simp, by simp⟩

/-- A connection keeps the lease it has. -/
theorem lease_setConn {x : OpConn σ β ρ}
    (hlease : ∀ l, x.pc.lease = some l → (s.conn c).pc.lease = some l) {c' : OpConnId} {l : Lease}
    (hl : ((s.setConn c x).conn c').pc.lease = some l) :
    (s.conn c').pc.lease = some l := by
  rw [conn_setConn] at hl
  split at hl
  · rename_i hc
    rw [hc]
    exact hlease l hl
  · exact hl

/-- A thread moves on and keeps its lease or drops it; what it wrote is what it wrote. -/
theorem setConn (hs : s.Fenced e) {x : OpConn σ β ρ}
    (hlease : ∀ l, x.pc.lease = some l → (s.conn c).pc.lease = some l)
    (hserved : ∀ l, x.pc.served = some l → (s.conn c).pc.served = some l)
    (hfound : x.found = (s.conn c).found) (hexecuted : x.executed = (s.conn c).executed)
    (hwritten : ∀ l, (x.pc = .serving l ∨ ∃ r, x.pc = .replying l r) →
      ((s.conn c).pc = .serving l ∨ ∃ r, (s.conn c).pc = .replying l r) ∧
        x.outbox ++ unsent x = (s.conn c).outbox ++ unsent (s.conn c)) :
    (s.setConn c x).Fenced e := by
  have hkept : ∀ c', ((s.setConn c x).conn c').found = (s.conn c').found ∧
      ((s.setConn c x).conn c').executed = (s.conn c').executed := by
    intro c'
    rw [conn_setConn]
    split
    · rename_i hc
      rw [hc]
      exact ⟨hfound, hexecuted⟩
    · exact ⟨rfl, rfl⟩
  have hstill : ∀ c' l, ((s.setConn c x).conn c').pc.served = some l → (s.conn c').pc.served = some l := by
    intro c' l hl
    rw [conn_setConn] at hl
    split at hl
    · rename_i hc
      rw [hc]
      exact hserved l hl
    · exact hl
  exact { hs with
    leased := fun c' l hl => hs.leased c' l (lease_setConn hlease hl)
    bound := fun c' l sid x' hl => hs.bound c' l sid x' (lease_setConn hlease hl)
    unique := fun c₁ c₂ l₁ l₂ hl₁ hl₂ =>
      hs.unique c₁ c₂ l₁ l₂ (lease_setConn hlease hl₁) (lease_setConn hlease hl₂)
    raised := by
      intro c' f hf
      rw [(hkept c').1] at hf
      exact hs.raised c' f hf
    found := by
      intro c' l hl
      rw [(hkept c').1]
      exact hs.found c' l (hstill c' l hl)
    ran := by
      intro c' l f hl hf hgen
      rw [(hkept c').1] at hf
      rw [(hkept c').2]
      exact hs.ran c' l f (hstill c' l hl) hf hgen
    written := by
      intro c' l f hf hpc
      rw [conn_setConn] at hf hpc ⊢
      split at hf
      · rename_i hc
        rw [if_pos hc] at hpc ⊢
        rw [(hwritten l hpc).2, hexecuted]
        exact hs.written c l f (hfound ▸ hf) (hwritten l hpc).1
      · rename_i hc
        rw [if_neg hc] at hpc ⊢
        exact hs.written c' l f hf hpc }

/-- A connection goes on with its lease, and serves no more than it served. -/
theorem setPc (hs : s.Fenced e) {pc : OpPc ρ}
    (hlease : ∀ l, pc.lease = some l → (s.conn c).pc.lease = some l)
    (hserved : ∀ l, pc.served = some l → (s.conn c).pc.served = some l)
    (hpc : ∀ l, pc ≠ .serving l ∧ ∀ r, pc ≠ .replying l r) : (s.setPc c pc).Fenced e := by
  refine hs.setConn hlease hserved rfl rfl ?_
  rintro l (h | ⟨r, h⟩)
  · exact absurd h (hpc l).1
  · exact absurd h ((hpc l).2 r)

/-- A connection takes a lease that is newer than every other one on its session. -/
theorem put (hs : s.Fenced e) {sid : OpSessionId} {y : RegistryEntry} {m : ℕ} (newest : ℕ → OpConnId)
    (resumed : Bool) (lastAcked : ℕ) (hmade : s.made ≤ m) (hy : y.session < m)
    (hother : ∀ sid' x, s.registry.find sid' = some x → x.session = y.session → sid' = sid)
    (hnewer : ∀ c' l, (s.conn c').pc.lease = some l → l.session = y.session →
      l.generation < y.generation) :
    (({ s with registry := s.registry.insert sid y, made := m, newest := newest } :
      OpServer σ β ρ).setPc c (.attached ⟨sid, y.session, y.generation⟩ resumed lastAcked)).Fenced e := by
  constructor <;> simp only [OpServer.setPc, OpServer.setConn, Table.find_insert]
  case made =>
    intro sid' x hx
    split at hx
    · cases hx
      exact hy
    · exact (hs.made sid' x hx).trans_le hmade
  case leased =>
    intro c' l hl
    by_cases hc : c' = c
    · rw [hc, Function.update_self] at hl
      cases hl
      exact hy
    · rw [Function.update_of_ne hc] at hl
      exact (hs.leased c' l hl).trans_le hmade
  case entry =>
    intro sid₁ sid₂ x₁ x₂ hx₁ hx₂ hsession
    split at hx₁ <;> split at hx₂
    · rename_i h₁ h₂
      rw [h₁, h₂]
    · rename_i h₁ _
      cases hx₁
      rw [h₁, hother sid₂ x₂ hx₂ hsession.symm]
    · rename_i _ h₂
      cases hx₂
      rw [h₂, hother sid₁ x₁ hx₁ hsession]
    · exact hs.entry sid₁ sid₂ x₁ x₂ hx₁ hx₂ hsession
  case bound =>
    intro c' l sid' x hl hx hsession
    by_cases hc : c' = c
    · rw [hc, Function.update_self] at hl
      cases hl
      split at hx
      · cases hx
        exact le_rfl
      · rename_i hne
        -- no other id has an entry of the session
        exact absurd (hother sid' x hx hsession) hne
    · rw [Function.update_of_ne hc] at hl
      split at hx
      · cases hx
        exact (hnewer c' l hl hsession.symm).le
      · exact hs.bound c' l sid' x hl hx hsession
  case unique =>
    intro c₁ c₂ l₁ l₂ hl₁ hl₂ hsession hgen
    by_cases h₁ : c₁ = c <;> by_cases h₂ : c₂ = c
    · rw [h₁, h₂]
    · -- what another connection has is older
      rw [h₁, Function.update_self] at hl₁
      rw [Function.update_of_ne h₂] at hl₂
      cases hl₁
      exact absurd hgen (hnewer c₂ l₂ hl₂ hsession.symm).ne'
    · rw [Function.update_of_ne h₁] at hl₁
      rw [h₂, Function.update_self] at hl₂
      cases hl₂
      exact absurd hgen (hnewer c₁ l₁ hl₁ hsession).ne
    · rw [Function.update_of_ne h₁] at hl₁
      rw [Function.update_of_ne h₂] at hl₂
      exact hs.unique c₁ c₂ l₁ l₂ hl₁ hl₂ hsession hgen
  case raised =>
    intro c' f hf
    have hf' : (s.conn c').found = some f := by
      by_cases hc : c' = c
      · rw [hc, Function.update_self] at hf
        rw [hc]
        exact hf
      · rw [Function.update_of_ne hc] at hf
        exact hf
    obtain ⟨hlt, hle⟩ := hs.raised c' f hf'
    exact ⟨hlt.trans_le hmade, hle⟩
  case found =>
    intro c' l hl
    by_cases hc : c' = c
    · rw [hc, Function.update_self] at hl
      cases hl
    · rw [Function.update_of_ne hc] at hl ⊢
      exact hs.found c' l hl
  case ran =>
    intro c' l f hl hf hgen
    by_cases hc : c' = c
    · rw [hc, Function.update_self] at hl
      cases hl
    · rw [Function.update_of_ne hc] at hl hf ⊢
      exact hs.ran c' l f hl hf hgen
  case written =>
    intro c' l f hf hpc
    by_cases hc : c' = c
    · rw [hc, Function.update_self] at hpc
      rcases hpc with h | ⟨r, h⟩ <;> cases h
    · rw [Function.update_of_ne hc] at hf hpc ⊢
      exact hs.written c' l f hf hpc
  case inOrder => exact hs.inOrder

/-- A connection is given a new lease. -/
theorem attach (hs : s.Fenced e) (sid : OpSessionId) (lastAcked : ℕ) :
    ((s.registryAttach c sid).1.setPc c
      (.attached (s.registryAttach c sid).2.1 (s.registryAttach c sid).2.2 lastAcked)).Fenced e := by
  rw [registryAttach]
  split
  · -- the generation is newer than that of every lease on the session
    rename_i x hx
    refine hs.put (y := { x with generation := x.generation + 1, detachedAt := none }) _ _ _ le_rfl
      (hs.made sid x hx) ?_ ?_
    · exact fun sid' x' hx' hsession => hs.entry sid' sid x' x hx' hx hsession
    · exact fun c' l hl hsession => Nat.lt_succ_of_le (hs.bound c' l sid x hl hx hsession.symm)
  · -- no lease is on the new session
    refine hs.put (y := ⟨s.made, 0, none⟩) _ _ _ (Nat.le_succ _) (Nat.lt_succ_self _) ?_ ?_
    · exact fun sid' x hx hsession => absurd hsession (hs.made sid' x hx).ne
    · exact fun c' l hl hsession => absurd hsession (hs.leased c' l hl).ne

/-- **A handshake** raises the generation of the session and starts from what is found. -/
theorem greet (hs : s.Fenced e) {l : Lease} {resumed : Bool} {lastAcked : ℕ}
    (hpc : (s.conn c).pc = .attached l resumed lastAcked) (sent : Option ℕ) :
    (s.greet c l resumed lastAcked sent).Fenced e := by
  have hlease : (s.conn c).pc.lease = some l := by rw [hpc]; rfl
  have hmade := hs.leased c l hlease
  obtain ⟨made, leased, entry, bound, unique, raised, found, ran, written, inOrder⟩ := hs
  have hx : ({ s.session l.session with
      generation := max (s.session l.session).generation l.generation } : OpSession σ ρ).InOrder :=
    ⟨(inOrder _).increasing, (inOrder _).bounded, (inOrder _).replied⟩
  -- another connection of the generation the session is in now had it in that generation before
  have hsame : ∀ c' l', c' ≠ c → (s.conn c').pc.served = some l' → l'.session = l.session →
      max (s.session l.session).generation l.generation = l'.generation →
      { s.session l.session with generation := max (s.session l.session).generation l.generation } =
        s.session l'.session ∧ (s.session l'.session).generation = l'.generation := by
    intro c' l' hc hl' hsession hgen
    have hne : l.generation ≠ l'.generation := fun h =>
      hc (unique c c' l l' hlease (OpPc.lease_of_served hl') hsession.symm h).symm
    have hold : (s.session l.session).generation = l'.generation := by omega
    rw [hsession, hgen, ← hold]
    exact ⟨rfl, rfl⟩
  have hkept : ∀ l', (if sent = none then .serving l else .closing l : OpPc ρ).lease = some l' →
      (s.conn c).pc.lease = some l' := by
    intro l' hl'
    rw [hlease]
    split at hl' <;> exact hl'
  -- the generation of a session only rises
  have hraised : ∀ u, (s.session u).generation ≤ (Function.update s.session l.session
      { s.session l.session with generation := max (s.session l.session).generation l.generation } u).generation := by
    intro u
    rw [Function.update_apply]
    split
    · rename_i hu
      rw [hu]
      exact le_max_left _ _
    · exact le_rfl
  rw [OpServer.greet]
  constructor
  case made => exact made
  case leased => exact fun c' l' hl => leased c' l' (lease_setConn hkept hl)
  case entry => exact entry
  case bound => exact fun c' l' sid x hl => bound c' l' sid x (lease_setConn hkept hl)
  case unique =>
    exact fun c₁ c₂ l₁ l₂ hl₁ hl₂ => unique c₁ c₂ l₁ l₂ (lease_setConn hkept hl₁) (lease_setConn hkept hl₂)
  case raised =>
    intro c' f hf
    rw [conn_setConn] at hf
    split at hf
    · obtain rfl := Option.some.inj hf
      refine ⟨hmade, ?_⟩
      simp only [OpServer.setConn, OpServer.setSession, Function.update_self]
      exact le_max_right _ _
    · obtain ⟨hlt, hle⟩ := raised c' f hf
      exact ⟨hlt, hle.trans (hraised _)⟩
  case inOrder =>
    intro u
    simp only [OpServer.setConn, OpServer.setSession, Function.update_apply]
    split
    · exact hx
    · exact inOrder u
  all_goals simp only [OpServer.setConn, OpServer.setSession, Function.update_apply]
  case ran =>
    intro c' l' f hl' hf hgen
    by_cases hc : c' = c
    · rw [if_pos hc] at hl' hf ⊢
      have hll : l' = l := by
        revert hl'
        split <;> exact fun h => (Option.some.inj h).symm
      obtain rfl := hll
      rw [← Option.some.inj hf, if_pos rfl]
      rfl
    · rw [if_neg hc] at hl' hf ⊢
      by_cases hsession : l'.session = l.session
      · rw [if_pos hsession] at hgen ⊢
        obtain ⟨heq, hold⟩ := hsame c' l' hc hl' hsession hgen
        rw [heq]
        exact ran c' l' f hl' hf hold
      · rw [if_neg hsession] at hgen ⊢
        exact ran c' l' f hl' hf hgen
  case written =>
    intro c' l' f hf hserving
    by_cases hc : c' = c
    · rw [if_pos hc] at hf hserving ⊢
      obtain rfl := Option.some.inj hf
      have hsent : sent = none := by
        by_contra hne
        simp [hne] at hserving
      simp [hsent, unsent, answers]
    · rw [if_neg hc] at hf hserving ⊢
      exact written c' l' f hf hserving
  case found =>
    intro c' l' hl'
    by_cases hc : c' = c
    · rw [if_pos hc] at hl' ⊢
      refine ⟨_, rfl, ?_, hx⟩
      revert hl'
      split <;> exact fun h => Option.some.inj h
    · rw [if_neg hc] at hl' ⊢
      exact found c' l' hl'

/-- **A message.** A connection that is not of the session's generation stops; one that is runs it, and
no other connection is of that generation. -/
theorem applyNext (hs : s.Fenced e) {l : Lease} (hpc : (s.conn c).pc = .serving l) (m : OpMessage β)
    (rest : List (OpMessage β)) : (s.applyNext e c l m rest).Fenced e := by
  rw [OpServer.applyNext]
  dsimp only
  split
  · refine hs.setPc ?_ ?_ ?_ <;> simp [hpc, OpPc.lease, OpPc.served]
  · rename_i hgen
    rw [not_not] at hgen
    have hlease : (s.conn c).pc.lease = some l := by rw [hpc]; rfl
    have hserved : (s.conn c).pc.served = some l := by rw [hpc]; rfl
    have hexecute := (hs.inOrder l.session).execute e m
    obtain ⟨made, leased, entry, bound, unique, raised, found, ran, written, inOrder⟩ := hs
    have hkept : ∀ x : OpConn σ β ρ, x.pc.lease = some l → ∀ l', x.pc.lease = some l' →
        (s.conn c).pc.lease = some l' := by
      intro x hx l' hl'
      rw [hlease, ← hx]
      exact hl'
    constructor
    case made => exact made
    case leased => exact fun c' l' hl => leased c' l' (lease_setConn (hkept _ (by split <;> rfl)) hl)
    case entry => exact entry
    case bound =>
      exact fun c' l' sid x hl => bound c' l' sid x (lease_setConn (hkept _ (by split <;> rfl)) hl)
    case unique =>
      exact fun c₁ c₂ l₁ l₂ hl₁ hl₂ => unique c₁ c₂ l₁ l₂ (lease_setConn (hkept _ (by split <;> rfl)) hl₁)
        (lease_setConn (hkept _ (by split <;> rfl)) hl₂)
    all_goals simp only [OpServer.setConn, OpServer.setSession, Function.update_apply]
    case raised =>
      intro c' f hf
      have hf' : (s.conn c').found = some f := by
        split at hf
        · rename_i hc
          rw [hc]
          exact hf
        · exact hf
      obtain ⟨hlt, hle⟩ := raised c' f hf'
      refine ⟨hlt, ?_⟩
      -- a message leaves the generation as it is
      split
      · rename_i hsession
        rw [OpSession.generation_execute, ← hsession]
        exact hle
      · exact hle
    case inOrder =>
      intro u
      split
      · exact hexecute
      · exact inOrder u
    case ran =>
      intro c' l' f hl' hf hgen'
      by_cases hc : c' = c
      · rw [if_pos hc] at hl' hf ⊢
        have hll : l' = l := by
          revert hl'
          split <;> exact fun h => (Option.some.inj h).symm
        obtain rfl := hll
        rw [if_pos rfl]
        exact (ran c l' f hserved hf hgen).concat m
      · rw [if_neg hc] at hl' hf ⊢
        by_cases hsession : l'.session = l.session
        · -- it would be of the session's generation too
          rw [if_pos hsession, OpSession.generation_execute, hgen] at hgen'
          exact absurd (unique c c' l l' hlease (OpPc.lease_of_served hl') hsession.symm hgen').symm hc
        · rw [if_neg hsession] at hgen' ⊢
          exact ran c' l' f hl' hf hgen'
    case written =>
      intro c' l' f hf hserving
      by_cases hc : c' = c
      · rw [if_pos hc] at hf hserving ⊢
        have hold := written c l f hf (Or.inl hpc)
        simp only [unsent, hpc, List.append_nil] at hold
        rw [answers_concat, ← List.append_assoc, ← hold]
        cases houtcome : (OpSession.execute e (s.session l.session) m).2 with
        | quiet => simp [unsent, answers]
        | answer r => simp [unsent, answers]
        | raises => simp [houtcome] at hserving
      · rw [if_neg hc] at hf hserving ⊢
        exact written c' l' f hf hserving
    case found =>
      intro c' l' hl'
      by_cases hc : c' = c
      · rw [if_pos hc] at hl' ⊢
        obtain ⟨f, hf, hfl, hfx⟩ := found c l hserved
        refine ⟨f, hf, ?_, hfx⟩
        rw [hfl]
        revert hl'
        split <;> exact fun h => Option.some.inj h
      · rw [if_neg hc] at hl' ⊢
        exact found c' l' hl'

/-- What the registry holds goes, and marks on it change nothing here. -/
theorem setRegistry (hs : s.Fenced e) {r : Table OpSessionId RegistryEntry}
    (hr : ∀ sid x, r.find sid = some x → ∃ x', s.registry.find sid = some x' ∧
      x'.session = x.session ∧ x'.generation = x.generation) :
    Fenced e { s with registry := r } := by
  exact { hs with
    made := by
      intro sid x hx
      obtain ⟨x', hx', hsession, -⟩ := hr sid x hx
      rw [← hsession]
      exact hs.made sid x' hx'
    entry := by
      intro sid₁ sid₂ x₁ x₂ hx₁ hx₂ hsession
      obtain ⟨x₁', hx₁', hsession₁, -⟩ := hr sid₁ x₁ hx₁
      obtain ⟨x₂', hx₂', hsession₂, -⟩ := hr sid₂ x₂ hx₂
      exact hs.entry sid₁ sid₂ x₁' x₂' hx₁' hx₂' (hsession₁.trans (hsession.trans hsession₂.symm))
    bound := by
      intro c l sid x hl hx hsession
      obtain ⟨x', hx', hsession', hgen⟩ := hr sid x hx
      rw [← hgen]
      exact hs.bound c l sid x' hl hx' (hsession'.trans hsession) }

/-- Detaching changes the registry only. -/
theorem registryDetach (hs : s.Fenced e) (l : Lease) : (s.registryDetach l).Fenced e := by
  rw [OpServer.registryDetach]
  split
  · rename_i y hy
    split
    · refine hs.setRegistry fun sid x hx => ?_
      rw [Table.find_insert] at hx
      split at hx
      · rename_i heq
        refine ⟨y, heq ▸ hy, ?_⟩
        rw [← Option.some.inj hx]
        exact ⟨rfl, rfl⟩
      · exact ⟨x, hx, rfl, rfl⟩
    · exact hs
  · exact hs

/-- **Each step keeps the connections fenced.** -/
theorem step (hs : s.Fenced e) {a : OpServerAction β} (hstep : s.step e grace a = some t) :
    t.Fenced e := by
  cases a with
  | accept c sid lastAcked =>
      unfold OpServer.step at hstep
      dsimp only at hstep
      split at hstep
      · rw [← Option.some.inj hstep]
        refine hs.setPc ?_ ?_ ?_ <;> simp [OpPc.lease, OpPc.served]
      · cases hstep
  | attach c =>
      unfold OpServer.step at hstep
      dsimp only at hstep
      split at hstep
      · rename_i sid lastAcked hpc
        rw [← Option.some.inj hstep]
        exact hs.attach sid lastAcked
      · cases hstep
  | handshake c sent =>
      unfold OpServer.step at hstep
      dsimp only at hstep
      split at hstep
      · rename_i l resumed lastAcked hpc
        rw [← Option.some.inj hstep]
        exact hs.greet hpc sent
      · cases hstep
  | arrive c batch =>
      rw [← Option.some.inj hstep]
      exact hs.setConn (fun _ => id) (fun _ => id) rfl rfl fun _ h => ⟨h, rfl⟩
  | read c =>
      unfold OpServer.step at hstep
      dsimp only at hstep
      split at hstep
      · rw [← Option.some.inj hstep]
        exact hs.setConn (fun _ => id) (fun _ => id) rfl rfl fun _ h => ⟨h, rfl⟩
      · cases hstep
  | apply c =>
      unfold OpServer.step at hstep
      dsimp only at hstep
      split at hstep
      · rename_i l m rest hpc hbatch
        rw [← Option.some.inj hstep]
        exact hs.applyNext hpc m rest
      · cases hstep
  | reply c ok =>
      unfold OpServer.step at hstep
      dsimp only at hstep
      split at hstep
      · rename_i l r hpc
        split at hstep
        · -- the reply moves from what is unsent to what is written
          rw [← Option.some.inj hstep]
          refine hs.setConn ?_ ?_ rfl rfl fun l' hl' => ?_
          · simp [hpc, OpPc.lease]
          · simp [hpc, OpPc.served]
          · have hll : l = l' := by simpa using hl'
            refine ⟨Or.inr ⟨r, hll ▸ hpc⟩, ?_⟩
            simp [unsent, hpc]
        · rw [← Option.some.inj hstep]
          refine hs.setPc ?_ ?_ ?_ <;> simp [hpc, OpPc.lease, OpPc.served]
      · cases hstep
  | close c =>
      unfold OpServer.step at hstep
      dsimp only at hstep
      split at hstep
      · rename_i sid lastAcked hpc
        rw [← Option.some.inj hstep]
        refine hs.setPc ?_ ?_ ?_ <;> simp [OpPc.lease, OpPc.served]
      · rename_i l hpc
        rw [← Option.some.inj hstep]
        refine hs.setPc ?_ ?_ ?_ <;> simp [hpc, OpPc.lease, OpPc.served]
      · cases hstep
  | detach c =>
      unfold OpServer.step at hstep
      dsimp only at hstep
      split at hstep
      · rename_i l hpc
        rw [← Option.some.inj hstep]
        have hframe : (s.registryDetach l).conn c = s.conn c := by
          rw [OpServer.registryDetach]
          split
          · split <;> rfl
          · rfl
        refine (hs.registryDetach l).setConn ?_ ?_ ?_ ?_ ?_ <;>
          simp [hframe, OpPc.lease, OpPc.served]
      · cases hstep
  | reap now =>
      simp only [OpServer.step, Option.ite_none_right_eq_some, Option.some.injEq] at hstep
      obtain ⟨-, rfl⟩ := hstep
      exact hs.setRegistry fun sid x hx => ⟨x, (Table.find_filter_eq_some.mp hx).1, rfl, rfl⟩
  | tick n =>
      rw [← Option.some.inj hstep]
      exact ⟨hs.made, hs.leased, hs.entry, hs.bound, hs.unique, hs.raised, hs.found, hs.ran, hs.written,
        hs.inOrder⟩

end Fenced

/-- It holds in every run of the server. -/
theorem always_fenced (e : Engine σ β ρ) (grace : ℕ) :
    Always (step e grace) (fun _ _ => True) (initial e) (Fenced e) :=
  Always.of_step Fenced.initial fun _ _ _ hs _ hstep => hs.step hstep

/-! ## Replaying -/

/-- The numbers of the replies among some frames. -/
def replies (frames : List (OpFrame ρ)) : List ℕ :=
  frames.filterMap fun
    | .reply r => some r.seq
    | .hello _ _ => none

/-- A message is answered under its own number. -/
theorem seq_of_answer {x : OpSession σ ρ} {m : OpMessage β} {r : OpReply ρ}
    (h : (x.execute e m).2 = .answer r) : r.seq = m.seq := by
  rw [OpSession.execute] at h
  split at h
  · cases h
  · dsimp only at h
    split at h
    · cases h
    · cases h
      rfl
    · cases h

/-- The answers are to some of the messages, in their order. -/
theorem replies_answers_sublist {x y : OpSession σ ρ} {done : List (OpMessage β × OpOutcome (OpReply ρ))}
    (h : x.Ran e done y) : (replies (answers done)).Sublist (done.map (·.1.seq)) := by
  induction done generalizing x with
  | nil => exact List.Sublist.refl _
  | cons d done ih =>
      obtain ⟨m, o⟩ := d
      have hrest := ih h.2
      cases o with
      | quiet => exact hrest.cons _
      | raises => exact hrest.cons _
      | answer r =>
          have hseq : r.seq = m.seq := seq_of_answer h.1
          rw [show replies (answers ((m, .answer r) :: done)) = r.seq :: replies (answers done) from rfl,
            hseq]
          exact hrest.cons_cons _

/-- A message has a reply if it was answered. -/
theorem mem_replies_answers {done : List (OpMessage β × OpOutcome (OpReply ρ))} {n : ℕ} :
    n ∈ replies (answers done) ↔ ∃ m v, (m, .answer ⟨n, v⟩) ∈ done := by
  simp only [replies, answers, List.filterMap_filterMap, List.mem_filterMap]
  constructor
  · rintro ⟨⟨m, o⟩, hmem, ho⟩
    cases o with
    | quiet => cases ho
    | raises => cases ho
    | answer r =>
        obtain rfl := Option.some.inj ho
        exact ⟨m, r.value, hmem⟩
  · rintro ⟨m, v, hmem⟩
    exact ⟨(m, .answer ⟨n, v⟩), hmem, rfl⟩

/-- **A replay from the next message on.** Messages numbered on from the last one applied are each
applied, once. -/
theorem applied_of_replay {x y : OpSession σ ρ} {done : List (OpMessage β × OpOutcome (OpReply ρ))}
    (h : x.Ran e done y)
    (hseqs : done.map (·.1.seq) = List.range' (x.lastSeq + 1) done.length) :
    y.applied = x.applied ++ done.map (·.1.seq) := by
  induction done generalizing x with
  | nil =>
      obtain rfl := h
      simp
  | cons d done ih =>
      obtain ⟨m, o⟩ := d
      simp only [List.map_cons, List.length_cons, List.range'_succ, List.cons.injEq] at hseqs
      obtain ⟨hm, hrest⟩ := hseqs
      have hnew : ¬m.seq ≤ x.lastSeq := by omega
      have hexecute : (x.execute e m).1.lastSeq = m.seq ∧
          (x.execute e m).1.applied = x.applied ++ [m.seq] := by
        rw [OpSession.execute, if_neg hnew]
        dsimp only
        split <;> exact ⟨rfl, rfl⟩
      rw [ih h.2 (by rw [hexecute.1, hm]; exact hrest), hexecute.2]
      simp

/-- The replies of a greeting: the last one, if the client resumes and has not acknowledged it. -/
theorem mem_replies_greeting {x : OpSession σ ρ} {resumed : Bool} {lastAcked n : ℕ} :
    n ∈ replies (greeting x resumed lastAcked) ↔
      ∃ r, x.lastReply = some r ∧ r.seq = n ∧ resumed = true ∧ lastAcked < n := by
  rw [greeting]
  cases x.lastReply with
  | none => simp [replies]
  | some r =>
      simp only [Option.some.injEq, exists_eq_left']
      split
      · rename_i h
        simp [replies, h.1]
        constructor
        · rintro rfl
          exact ⟨rfl, h.2⟩
        · exact fun h' => h'.1.symm
      · rename_i h
        simp only [replies, List.filterMap_cons, List.filterMap_nil, List.not_mem_nil, false_iff]
        rintro ⟨rfl, hresumed, hacked⟩
        exact h ⟨hresumed, hacked⟩

/-- A handshake sends a cached reply once at most. -/
theorem nodup_replies_greeting {x : OpSession σ ρ} {resumed : Bool} {lastAcked : ℕ} :
    (replies (greeting x resumed lastAcked)).Nodup := by
  rw [greeting]
  cases x.lastReply with
  | none => simp [replies]
  | some r =>
      dsimp only
      split <;> simp [replies]

/-- The replies a connection gets when it replays from the next message on: the greeting's and those of
its own messages, none twice. -/
theorem Fenced.replies_of_replay (hs : s.Fenced e) {l : Lease} {f : Snapshot σ ρ}
    (hpc : (s.conn c).pc = .serving l ∨ ∃ r, (s.conn c).pc = .replying l r)
    (hfound : (s.conn c).found = some f) (hgen : (s.session l.session).generation = l.generation)
    (hseqs : (s.conn c).executed.map (·.1.seq) =
      List.range' (f.session.lastSeq + 1) (s.conn c).executed.length) :
    (replies ((s.conn c).outbox ++ unsent (s.conn c))).Nodup ∧
    ∀ n, n ∈ replies ((s.conn c).outbox ++ unsent (s.conn c)) ↔
      (∃ r, f.session.lastReply = some r ∧ r.seq = n ∧ f.resumed = true ∧ f.lastAcked < n) ∨
        ∃ m v, (m, .answer ⟨n, v⟩) ∈ (s.conn c).executed := by
  have hserved : (s.conn c).pc.served = some l := by
    rcases hpc with h | ⟨r, h⟩ <;> rw [h] <;> rfl
  have hran := hs.ran c l f hserved hfound hgen
  obtain ⟨f', hf', -, horder⟩ := hs.found c l hserved
  obtain rfl : f = f' := Option.some.inj (hfound.symm.trans hf')
  have hsplit : replies ((s.conn c).outbox ++ unsent (s.conn c)) =
      replies (greeting f.session f.resumed f.lastAcked) ++ replies (answers (s.conn c).executed) := by
    rw [hs.written c l f hfound hpc]
    exact List.filterMap_append
  rw [hsplit]
  constructor
  · refine List.Nodup.append nodup_replies_greeting ?_ ?_
    · refine (replies_answers_sublist hran).nodup ?_
      rw [hseqs]
      exact List.nodup_range'
    · -- the greeting's reply is to a message applied before
      intro n hgreeting hanswer
      obtain ⟨r, hr, rfl, -⟩ := mem_replies_greeting.mp hgreeting
      have hle := horder.replied r hr
      have hmem := (replies_answers_sublist hran).subset hanswer
      rw [hseqs, List.mem_range'_1] at hmem
      omega
  · intro n
    rw [List.mem_append, mem_replies_greeting, mem_replies_answers]

/-- **Fencing**, in every run. The messages applied to a session have increasing numbers. Once a newer
connection has done its handshake, an older one applies nothing. As long as none has, the session is
what a connection's handshake found and reported, after that connection's own messages; so that a
client that replays from the message after the one reported has each message applied once, and each
reply written once: the one the greeting resends, and those of the messages it sends. -/
theorem serves_from_snapshot (e : Engine σ β ρ) (grace : ℕ) (as : List (OpServerAction β))
    (s : OpServer σ β ρ) (hrun : run (step e grace) (initial e) as = some s) :
    (∀ u, (s.session u).applied.Pairwise (· < ·)) ∧
    (∀ c c' l f, (s.conn c).pc = .serving l → (s.conn c').found = some f →
      f.lease.session = l.session → l.generation < f.lease.generation →
      ∀ t, s.step e grace (.apply c) = some t → t.session = s.session) ∧
    ∀ c l f, (s.conn c).pc = .serving l ∨ (∃ r, (s.conn c).pc = .replying l r) →
      (s.conn c).found = some f → (s.session l.session).generation = l.generation →
      f.session.Ran e (s.conn c).executed (s.session l.session) ∧
      (s.conn c).outbox ++ unsent (s.conn c) =
        greeting f.session f.resumed f.lastAcked ++ answers (s.conn c).executed ∧
      ((s.conn c).executed.map (·.1.seq) =
          List.range' (f.session.lastSeq + 1) (s.conn c).executed.length →
        (s.session l.session).applied =
          f.session.applied ++ (s.conn c).executed.map (·.1.seq) ∧
        (replies ((s.conn c).outbox ++ unsent (s.conn c))).Nodup ∧
        ∀ n, n ∈ replies ((s.conn c).outbox ++ unsent (s.conn c)) ↔
          (∃ r, f.session.lastReply = some r ∧ r.seq = n ∧ f.resumed = true ∧ f.lastAcked < n) ∨
            ∃ m v, (m, .answer ⟨n, v⟩) ∈ (s.conn c).executed) := by
  have hs : s.Fenced e := always_fenced e grace as s (along_true _ _ _) hrun
  refine ⟨fun u => (hs.inOrder u).increasing, ?_, ?_⟩
  · intro c c' l f hpc hfound hsession hnewer t hstep
    have hraised := (hs.raised c' f hfound).2
    have hgen : (s.session l.session).generation ≠ l.generation := by
      rw [hsession] at hraised
      omega
    unfold step at hstep
    dsimp only at hstep
    split at hstep
    · rename_i l' m rest hpc' hbatch
      obtain rfl : l = l' := by
        rw [hpc] at hpc'
        exact OpPc.serving.inj hpc'
      rw [← Option.some.inj hstep, applyNext]
      dsimp only
      rw [if_pos hgen]
      rfl
    · cases hstep
  · intro c l f hpc hfound hgen
    have hserved : (s.conn c).pc.served = some l := by
      rcases hpc with h | ⟨r, h⟩ <;> rw [h] <;> rfl
    have hran := hs.ran c l f hserved hfound hgen
    exact ⟨hran, hs.written c l f hfound hpc, fun hseqs => ⟨applied_of_replay hran hseqs,
      hs.replies_of_replay hpc hfound hgen hseqs⟩⟩

/-- A connection applies a message and its reply is lost; the client comes back, is sent the reply again
and goes on with the next message, while the old connection has one more to apply. -/
def tookOver : List (OpServerAction Bool) :=
  [.accept 0 7 0, .attach 0, .handshake 0 none, .arrive 0 [⟨1, true⟩, ⟨2, false⟩], .read 0, .apply 0,
    .reply 0 true, .accept 1 7 0, .attach 1, .handshake 1 none, .arrive 1 [⟨2, true⟩], .read 1, .apply 1]

/-- A second connection takes over, and every message is applied and answered once. -/
theorem serves_from_snapshot_tookOver : ∃ s, run (step counting 120) (initial counting) tookOver = some s ∧
    (s.session 0).applied = [1, 2] ∧ replies ((s.conn 1).outbox ++ unsent (s.conn 1)) = [1, 2] ∧
    (replies ((s.conn 1).outbox ++ unsent (s.conn 1))).Nodup ∧
    (∀ t, s.step counting 120 (.apply 0) = some t → t.session = s.session) := by
  have hsome : (run (step counting 120) (initial counting) tookOver).isSome = true := by decide
  obtain ⟨s, hs⟩ := Option.isSome_iff_exists.mp hsome
  have hsessions : (run (step counting 120) (initial counting) tookOver).map (fun s =>
      ((s.session 0).applied, (s.session 0).generation)) = some ([1, 2], 1) := by decide
  have hpcs : (run (step counting 120) (initial counting) tookOver).map (fun s =>
      ((s.conn 0).pc, (s.conn 1).pc)) = some (.serving ⟨7, 0, 0⟩, .replying ⟨7, 0, 1⟩ ⟨2, 2⟩) := by decide
  have hfounds : (run (step counting 120) (initial counting) tookOver).map (fun s =>
      (s.conn 1).found) = some (some ⟨⟨7, 0, 1⟩, ⟨1, 1, some ⟨1, 1⟩, 1, [1]⟩, true, 0⟩) := by decide
  have hruns : (run (step counting 120) (initial counting) tookOver).map (fun s =>
      ((s.conn 1).executed, replies ((s.conn 1).outbox ++ unsent (s.conn 1)))) =
      some ([(⟨2, true⟩, .answer ⟨2, 2⟩)], [1, 2]) := by decide
  simp only [hs, Option.map_some, Option.some.injEq, Prod.mk.injEq] at hsessions hpcs hfounds hruns
  obtain ⟨happlied, hgen⟩ := hsessions
  obtain ⟨hold, hnew⟩ := hpcs
  obtain ⟨hexecuted, hreplies⟩ := hruns
  obtain ⟨-, hfenced, hserves⟩ := serves_from_snapshot counting 120 tookOver s hs
  refine ⟨s, hs, happlied, hreplies, ?_, fun t ht => ?_⟩
  · exact ((hserves 1 _ _ (Or.inr ⟨_, hnew⟩) hfounds hgen).2.2 (by rw [hexecuted]; rfl)).2.1
  · exact hfenced 0 1 _ _ hold hfounds rfl (by decide) t ht

/-- Between the attach of a newer connection and its handshake, the older one still applies a message. -/
theorem older_applies_after_attach : ∃ s t, run (step counting 120) (initial counting)
      [.accept 0 7 0, .attach 0, .handshake 0 none, .arrive 0 [⟨1, false⟩], .read 0, .accept 1 7 0,
        .attach 1] = some s ∧
    (s.conn 1).pc = .attached ⟨7, 0, 1⟩ true 0 ∧ s.step counting 120 (.apply 0) = some t ∧
    (s.session 0).applied = [] ∧ (t.session 0).applied = [1] := by
  have hsome : (run (step counting 120) (initial counting)
      [.accept 0 7 0, .attach 0, .handshake 0 none, .arrive 0 [⟨1, false⟩], .read 0, .accept 1 7 0,
        .attach 1]).isSome = true := by decide
  obtain ⟨s, hs⟩ := Option.isSome_iff_exists.mp hsome
  have hstate : (run (step counting 120) (initial counting)
      [.accept 0 7 0, .attach 0, .handshake 0 none, .arrive 0 [⟨1, false⟩], .read 0, .accept 1 7 0,
        .attach 1]).map (fun s => ((s.conn 1).pc, (s.session 0).applied,
          (s.step counting 120 (.apply 0)).map fun t => (t.session 0).applied)) =
      some (.attached ⟨7, 0, 1⟩ true 0, [], some [1]) := by decide
  rw [hs, Option.map_some, Option.some.injEq] at hstate
  simp only [Prod.mk.injEq] at hstate
  obtain ⟨hattached, hbefore, hstep⟩ := hstate
  obtain ⟨t, ht, hafter⟩ := Option.map_eq_some_iff.mp hstep
  exact ⟨s, t, hs, hattached, ht, hbefore, hafter⟩

end OpServer

end Rgpu
