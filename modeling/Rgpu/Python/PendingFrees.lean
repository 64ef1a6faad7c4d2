import Rgpu.Python.Bookkeeping
import Mathlib.Data.Multiset.UnionInter
import Mathlib.Algebra.Order.Group.Multiset
import Mathlib.Tactic.Abel

/-! # The ids that wait to be freed

`_queue` takes all ids out of `pending_frees` before it appends a `FREE` for them, and puts them back if that
raises an `EncodeError`. Appending it may ask for an acknowledgement first, which may raise anything else.

* **`Freeing.step`** — the client with its `pending_frees`.
* **`Freeing.kept`** — the ids that are still pending, or in a message that was given a number.
* **`frees_kept_iff`** — none gets lost exactly if nothing else is raised in between. -/

namespace Rgpu

open Foundations

variable {ρ : Type}

namespace WireBody

/-- The `FREE` message for some ids. -/
def freeOf (ids : List ℤ) : WireBody := (free, [.list (ids.map .int)])

/-- A value that is a number. -/
def int? : PyWire.Value → Option ℤ
  | .int i => some i
  | _ => none

/-- The ids that a message frees. -/
def freed (b : WireBody) : List ℤ :=
  if b.1 = free then
    match b.2 with
    | [.list xs] => xs.filterMap int?
    | _ => []
  else []

/-- A `FREE` frees the ids it was made of. -/
@[simp] theorem freed_freeOf (ids : List ℤ) : (freeOf ids).freed = ids := by
  rw [freed, freeOf, if_pos rfl]
  dsimp only
  rw [List.filterMap_map]
  exact List.filterMap_some

/-- An `ACK` frees nothing. -/
@[simp] theorem freed_ack : freed (ack, []) = [] := rfl

/-- A message other than a `FREE` frees nothing. -/
theorem freed_of_ne {b : WireBody} (h : b.1 ≠ free) : b.freed = [] := if_neg h

end WireBody

/-- The ids in a message that a call is still to queue. -/
def OpInstr.frees : OpInstr WireBody → List ℤ
  | .queue b | .append b | .commit b => b.freed
  | _ => []

/-- The client, with the ids whose last reference has gone. -/
structure Freeing where
  client : OpClient WireBody := {}
  pendingFrees : List ℤ := []
  /-- The messages that have been given a number. Nothing reads it. -/
  numbered : List WireBody := []

/-- What happens. -/
inductive FreeAction (ρ : Type)
  /-- A finalizer appends an id, at any moment. -/
  | finalize (id : ℤ)
  | act (a : OpClientAction WireBody ρ)

namespace Freeing

/-- The ids that only the call in progress remembers, the outermost message first. -/
def inHand (s : Freeing) : List ℤ := s.client.todo.reverse.flatMap OpInstr.frees

/-- The message that the next move encodes. -/
def encoding (c : OpClient WireBody) : Option WireBody :=
  match c.todo with
  | .append b :: _ | .commit b :: _ => some b
  | _ => none

/-- What encoding it raises. -/
def raised (c : OpClient WireBody) : Option PyWire.EncodeFailure :=
  (encoding c).bind fun b => PyWire.raised (b.encode (c.seq + 1))

/-- The handlers of `_queue` see only an `EncodeError`. -/
def caught (c : OpClient WireBody) : Bool :=
  match raised c with
  | some (.encodeError _) => true
  | _ => false

/-- A move. The application posts no `FREE` of its own. -/
def step (w : OpConfig WireBody ρ) (s : Freeing) : FreeAction ρ → Option Freeing
  | .finalize id => some { s with pendingFrees := s.pendingFrees ++ [id] }
  | .act (.free _) => none
  | .act (.post b) =>
      if b.1 = WireBody.free then none else (s.client.act w (.post b)).map fun c => { s with client := c }
  | .act (.request b) =>
      if b.1 = WireBody.free then none else (s.client.act w (.request b)).map fun c => { s with client := c }
  | .act .next =>
      match s.client.todo with
      | .queue b :: rest =>
          if s.pendingFrees = [] then (s.client.next w).map fun c => { s with client := c }
          else
            some { s with
              client := { s.client with todo := .append (WireBody.freeOf s.pendingFrees) :: .append b :: rest }
              pendingFrees := [] }
      | .append b :: _ | .commit b :: _ =>
          (s.client.next w).map fun c =>
            { client := c
              pendingFrees := if caught s.client then s.inHand ++ s.pendingFrees else s.pendingFrees
              numbered := if c.seq = s.client.seq then s.numbered else s.numbered ++ [b] }
      | _ => (s.client.next w).map fun c => { s with client := c }
  | .act a => (s.client.act w a).map fun c => { s with client := c }

/-- The ids that are still pending, or in a message that was given a number. -/
def kept (s : Freeing) : Multiset ℤ := ↑s.pendingFrees + ↑(s.numbered.flatMap WireBody.freed)

/-- Those, and the ids that the call in progress remembers. -/
def account (s : Freeing) : Multiset ℤ := s.kept + ↑s.inHand

/-- The ids that an action brings in. -/
def brings : FreeAction ρ → Multiset ℤ
  | .finalize id => {id}
  | .act _ => 0

/-- An exception that is no `EncodeError` leaves the call: a recovery is given up or cannot replay, the first
connection fails, or the reply says that an earlier op failed. -/
def Raises (w : OpConfig WireBody ρ) (c : OpClient WireBody) : OpClientAction WireBody ρ → Prop
  | .refuse | .giveUp => True
  | .shake resumed n => (c.hadSession = true ∧ resumed = false) ∨
      ∃ rest, c.todo = .reconnect :: rest ∧ n < c.seq ∧ c.lacks n = true
  | .send ok => ok = false ∧ c.hadSession = false ∧ ∃ rest, c.todo = .flush :: rest
  | .fail => c.hadSession = false ∧ ∃ rest, c.todo = .flush :: rest
  | .receive r => ∃ seq rest, c.todo = .awaiting seq :: rest ∧ seq ≤ r.seq ∧ w.failed r.value = true
  | .next => raised c ≠ none ∧ caught c = false
  | _ => False

/-- It is raised in the acknowledgement that a `FREE` waits for, or by the `FREE` itself. -/
def Drops (w : OpConfig WireBody ρ) (s : Freeing) : FreeAction ρ → Prop
  | .finalize _ => False
  | .act a => Raises w s.client a ∧ s.inHand ≠ []

/-! ### Moves -/

variable {w : OpConfig WireBody ρ} {c d : OpClient WireBody}

/-- The ids in what a call is still to queue. -/
def held (todo : List (OpInstr WireBody)) : Multiset ℤ := ↑(todo.flatMap OpInstr.frees)

/-- Nothing is held where nothing is to be done. -/
@[simp] theorem held_nil : held [] = 0 := rfl

/-- What is held by an instruction and by the rest. -/
@[simp] theorem held_cons (i : OpInstr WireBody) (rest : List (OpInstr WireBody)) :
    held (i :: rest) = ↑i.frees + held rest := by
  rw [held, List.flatMap_cons, ← Multiset.coe_add]
  rfl

/-- What is in hand is what the instructions ahead hold. -/
theorem coe_inHand (s : Freeing) : (↑s.inHand : Multiset ℤ) = held s.client.todo :=
  Multiset.coe_eq_coe.mpr ((List.reverse_perm _).flatMap_right _)

/-- A connection that breaks leaves the call only if there has been none before. -/
theorem held_broken (c : OpClient WireBody) :
    (¬(c.hadSession = false ∧ ∃ rest, c.todo = .flush :: rest) → held c.broken.todo = held c.todo) ∧
      (c.hadSession = false ∧ (∃ rest, c.todo = .flush :: rest) → c.broken.todo = []) := by
  unfold OpClient.broken
  constructor
  · intro hnot
    split
    · rename_i rest htodo
      have hhad : c.hadSession = true := Bool.eq_true_of_not_eq_false fun hhad => hnot ⟨hhad, rest, htodo⟩
      rw [if_pos hhad, htodo]
      rfl
    · rename_i seq rest htodo
      rw [htodo]
      rfl
    · rename_i rest htodo
      rw [htodo]
      rfl
    · rfl
  · rintro ⟨hhad, rest, htodo⟩
    rw [htodo]
    dsimp only
    rw [hhad, if_neg Bool.false_ne_true]
    rfl

/-- A handshake leaves the call, unless the server has lost the session or the client the frames for it. -/
theorem held_shaken {k : OpConnId} {resumed : Bool} {n : ℕ} :
    (¬Raises w c (.shake resumed n) → held (c.shaken k resumed n).todo = held c.todo) ∧
      (Raises w c (.shake resumed n) → (c.shaken k resumed n).todo = []) := by
  unfold OpClient.shaken
  split
  · rename_i hlost
    exact ⟨fun hnot => absurd (.inl hlost) hnot, fun _ => rfl⟩
  · rename_i hlost
    dsimp only
    split
    · rename_i rest htodo
      unfold OpClient.resume
      split
      · rename_i hlacks
        exact ⟨fun hnot => absurd (.inr ⟨rest, htodo, hlacks⟩) hnot, fun _ => rfl⟩
      · rename_i hlacks
        refine ⟨fun _ => by rw [htodo]; rfl, ?_⟩
        rintro (hlost' | ⟨rest', -, hlacks'⟩)
        · exact absurd hlost' hlost
        · exact absurd hlacks' hlacks
    · rename_i hnot
      refine ⟨fun _ => rfl, ?_⟩
      rintro (hlost' | ⟨rest', hrest, -⟩)
      · exact absurd hlost' hlost
      · exact absurd hrest (hnot rest')

/-- Sending takes nothing out of a call. -/
theorem held_sent (hout : c.outgoing ≠ []) : held c.sent.todo = held c.todo := by
  unfold OpClient.outgoing at hout
  unfold OpClient.sent
  split at hout
  · rename_i rest htodo
    rw [htodo]
    rfl
  · rename_i rest htodo
    rw [htodo]
    rfl
  · exact absurd rfl hout

/-- A reply leaves the call, unless it is the one waited for and reports a failure. -/
theorem held_receive {seq : ℕ} {rest : List (OpInstr WireBody)} {r : OpReply ρ} (htodo : c.todo = .awaiting seq :: rest) :
    (¬Raises w c (.receive r) → held (c.receive w seq rest r).todo = held c.todo) ∧
      (Raises w c (.receive r) → (c.receive w seq rest r).todo = []) := by
  unfold OpClient.receive
  split
  · rename_i hold
    refine ⟨fun _ => rfl, ?_⟩
    rintro ⟨seq', rest', htodo', hle, -⟩
    rw [htodo] at htodo'
    cases htodo'
    exact absurd hold (not_lt.mpr hle)
  · rename_i hold
    dsimp only
    split
    · rename_i hfailed
      exact ⟨fun hnot => absurd ⟨seq, rest, htodo, not_lt.mp hold, hfailed⟩ hnot, fun _ => rfl⟩
    · rename_i hfailed
      refine ⟨fun _ => by rw [htodo]; rfl, ?_⟩
      rintro ⟨-, -, -, -, hfailed'⟩
      exact absurd hfailed' hfailed

/-- What the network and the server do to a call. -/
theorem held_act {a : OpClientAction WireBody ρ} (h : c.act w a = some d) (hnext : a ≠ .next) (hfree : ∀ b, a ≠ .free b)
    (hpost : ∀ b, a = .post b ∨ a = .request b → b.freed = []) :
    (¬Raises w c a → held d.todo = held c.todo) ∧ (Raises w c a → d.todo = []) := by
  cases OpClient.Acts.of_act h with
  | post htodo =>
      refine ⟨fun _ => ?_, False.elim⟩
      rw [htodo, held_cons, OpInstr.frees, hpost _ (.inl rfl)]
      rfl
  | request htodo =>
      refine ⟨fun _ => ?_, False.elim⟩
      rw [htodo, held_cons, OpInstr.frees, hpost _ (.inr rfl)]
      rfl
  | flush htodo =>
      refine ⟨fun _ => ?_, False.elim⟩
      rw [htodo]
      rfl
  | free => exact absurd rfl (hfree _)
  | next => exact absurd rfl hnext
  | dial => exact ⟨fun _ => rfl, False.elim⟩
  | shake => exact held_shaken
  | sent _ hout => exact ⟨fun _ => held_sent hout, fun hraises => nomatch hraises.1⟩
  | unsent =>
      obtain ⟨hsame, hnone⟩ := held_broken c
      exact ⟨fun hnot => hsame fun h => hnot ⟨rfl, h⟩, fun hraises => hnone hraises.2⟩
  | receive htodo => exact held_receive htodo
  | fail => exact held_broken c
  | refuse | giveUp => exact ⟨fun hnot => absurd trivial hnot, fun _ => rfl⟩

/-- Of a call that goes on without encoding anything, nothing is lost. -/
theorem held_next (h : c.next w = some d) (hnone : encoding c = none) : held d.todo = held c.todo := by
  unfold OpClient.next at h
  unfold encoding at hnone
  cases htodo : c.todo with
  | nil =>
      rw [htodo] at h
      cases h
  | cons i rest =>
      rw [htodo] at h hnone
      cases i with
      | append b => cases hnone
      | commit b => cases hnone
      | queue b =>
          cases h
          rfl
      | flushIfFull =>
          dsimp only at h
          split at h <;> cases h <;> rfl
      | flush =>
          dsimp only at h
          split at h <;> cases h
          rfl
      | await =>
          cases h
          rfl
      | awaiting n => cases h
      | reconnect => cases h
      | replay =>
          dsimp only at h
          split at h <;> cases h
          rfl

/-- Encoding the next message: it is refused and the call left, or it is queued, or it waits for an
acknowledgement. -/
theorem next_encoding {b : WireBody} (hb : encoding c = some b) (h : c.next w = some d) :
    (w.size (c.seq + 1) b = none ∧ d = c.raise) ∨
      (w.size (c.seq + 1) b ≠ none ∧ d.seq = c.seq + 1 ∧ held c.todo = ↑b.freed + held d.todo) ∨
      (w.size (c.seq + 1) b ≠ none ∧ d.seq = c.seq ∧ held d.todo = ↑w.ack.freed + held c.todo) := by
  unfold OpClient.next at h
  unfold encoding at hb
  split at hb
  · rename_i b' rest htodo
    cases hb
    rw [htodo] at h ⊢
    dsimp only at h
    split at h
    · rename_i hsize
      exact .inl ⟨hsize, (Option.some.inj h).symm⟩
    · rename_i n hsize
      rw [hsize]
      split at h <;> cases h
      · exact .inr (.inr ⟨Option.some_ne_none n, rfl, rfl⟩)
      · exact .inr (.inl ⟨Option.some_ne_none n, OpClient.seq_commit c b n, rfl⟩)
  · rename_i b' rest htodo
    cases hb
    rw [htodo] at h ⊢
    dsimp only at h
    split at h
    · rename_i hsize
      exact .inl ⟨hsize, (Option.some.inj h).symm⟩
    · rename_i n hsize
      rw [hsize]
      cases h
      exact .inr (.inl ⟨Option.some_ne_none n, OpClient.seq_commit c b n, rfl⟩)
  · cases hb

/-- A message has no size if it cannot be encoded. -/
theorem size_eq_none_iff {n : ℕ} {b : WireBody} : WireBody.size n b = none ↔ PyWire.raised (b.encode n) ≠ none := by
  rw [WireBody.size]
  cases b.encode n with
  | error e => exact ⟨fun _ => Option.some_ne_none e, fun _ => rfl⟩
  | ok bs => exact ⟨by rintro ⟨⟩, fun h => absurd rfl h⟩

/-- A call that an exception leaves drops what it remembers. -/
theorem account_lt {s t : Freeing} (hinHand : s.inHand ≠ []) (hkept : t.kept = s.kept) (htodo : t.client.todo = []) :
    t.account < s.account := by
  have hlost : t.account = s.kept := by
    rw [account, coe_inHand, htodo, held_nil, add_zero, hkept]
  rw [hlost, account]
  refine lt_add_of_pos_right _ (lt_of_le_of_ne (Multiset.zero_le _) fun h => hinHand ?_)
  exact (Multiset.coe_eq_zero _).mp h.symm

/-- **A step that encodes a message.** -/
theorem account_encoding (hsize : w.size = WireBody.size) (hack : w.ack = (WireBody.ack, [])) {s : Freeing}
    {b : WireBody} (hb : encoding s.client = some b) (h : s.client.next w = some d) {t : Freeing}
    (ht : t = { client := d
                pendingFrees := if caught s.client then s.inHand ++ s.pendingFrees else s.pendingFrees
                numbered := if d.seq = s.client.seq then s.numbered else s.numbered ++ [b] }) :
    (¬Drops w s (.act .next) → t.account = s.account) ∧ (Drops w s (.act .next) → t.account < s.account) := by
  have hraised : raised s.client = PyWire.raised (b.encode (s.client.seq + 1)) := by
    rw [raised, hb, Option.bind_some]
  rcases next_encoding hb h with ⟨hnone, rfl⟩ | ⟨hsome, hseq, hheld⟩ | ⟨hsome, hseq, hheld⟩
  · rw [hsize, size_eq_none_iff, ← hraised] at hnone
    rw [show s.client.raise.seq = s.client.seq from rfl, if_pos rfl] at ht
    cases hcaught : caught s.client with
    | true =>
        -- the handlers put the ids back
        rw [hcaught, if_pos rfl] at ht
        refine ⟨fun _ => ?_, fun hdrops => nomatch hcaught.symm.trans hdrops.1.2⟩
        rw [ht, account, account, kept, kept, coe_inHand]
        dsimp only
        rw [show held s.client.raise.todo = 0 from rfl, ← Multiset.coe_add]
        abel
    | false =>
        rw [hcaught, if_neg Bool.false_ne_true] at ht
        by_cases hinHand : s.inHand = []
        · refine ⟨fun _ => ?_, fun hdrops => absurd hinHand hdrops.2⟩
          rw [ht, account, account, kept, kept, coe_inHand, hinHand]
          rfl
        · refine ⟨fun hnot => absurd ⟨⟨hnone, hcaught⟩, hinHand⟩ hnot, fun _ => ?_⟩
          exact account_lt hinHand (by rw [ht]; rfl) (by rw [ht]; rfl)
  · rw [hsize, Ne, size_eq_none_iff, ← hraised, not_not] at hsome
    have hcaught : caught s.client = false := by rw [caught, hsome]
    rw [hcaught, if_neg Bool.false_ne_true, if_neg (by omega)] at ht
    refine ⟨fun _ => ?_, fun hdrops => absurd hsome hdrops.1.1⟩
    rw [ht, account, account, kept, kept, coe_inHand, coe_inHand, hheld]
    dsimp only
    rw [List.flatMap_append, List.flatMap_singleton, ← Multiset.coe_add]
    abel
  · rw [hsize, Ne, size_eq_none_iff, ← hraised, not_not] at hsome
    have hcaught : caught s.client = false := by rw [caught, hsome]
    rw [hcaught, if_neg Bool.false_ne_true, if_pos hseq] at ht
    refine ⟨fun _ => ?_, fun hdrops => absurd hsome hdrops.1.1⟩
    rw [ht, account, account, kept, kept, coe_inHand, coe_inHand, hheld, hack, WireBody.freed_ack]
    rfl

/-- **A step** keeps the account unless it drops ids. -/
theorem account_step (hsize : w.size = WireBody.size) (hack : w.ack = (WireBody.ack, [])) {s t : Freeing}
    {a : FreeAction ρ} (h : s.step w a = some t) :
    (¬Drops w s a → t.account = s.account + brings a) ∧ (Drops w s a → t.account < s.account + brings a) := by
  -- what the client does but for its queue holds what it held, or drops all of it
  have hplain : ∀ x : OpClientAction WireBody ρ, x ≠ .next → (∀ b, x ≠ .free b) →
      (∀ b, x = .post b ∨ x = .request b → b.freed = []) →
      (s.client.act w x).map (fun c => { s with client := c }) = some t →
      (¬Drops w s (.act x) → t.account = s.account + brings (.act x)) ∧
        (Drops w s (.act x) → t.account < s.account + brings (.act x)) := by
    intro x hnext hfree hpost hx
    obtain ⟨c, hc, rfl⟩ := Option.map_eq_some_iff.mp hx
    obtain ⟨hsame, hnone⟩ := held_act hc hnext hfree hpost
    rw [brings, add_zero]
    constructor
    · intro hnot
      rw [account, account, coe_inHand, coe_inHand]
      by_cases hraises : Raises w s.client x
      · have hinHand : s.inHand = [] := by
          by_contra hne
          exact hnot ⟨hraises, hne⟩
        rw [hnone hraises, ← coe_inHand s, hinHand]
        rfl
      · rw [hsame hraises]
        rfl
    · intro hdrops
      exact account_lt hdrops.2 rfl (hnone hdrops.1)
  -- outside the encoder nothing is dropped
  have hmove : encoding s.client = none → (s.client.next w).map (fun c => { s with client := c }) = some t →
      (¬Drops w s (.act .next) → t.account = s.account + brings (.act (ρ := ρ) .next)) ∧
        (Drops w s (.act .next) → t.account < s.account + brings (.act (ρ := ρ) .next)) := by
    intro hnone hx
    obtain ⟨c, hc, rfl⟩ := Option.map_eq_some_iff.mp hx
    refine ⟨fun _ => ?_, fun hdrops => absurd ?_ hdrops.1.1⟩
    · rw [brings, add_zero, account, account, coe_inHand, coe_inHand, held_next hc hnone]
      rfl
    · rw [raised, hnone, Option.bind_none]
  cases a with
  | finalize id =>
      obtain rfl := Option.some.inj h
      refine ⟨fun _ => ?_, False.elim⟩
      rw [account, account, kept, kept, brings, coe_inHand, coe_inHand]
      dsimp only
      rw [← Multiset.coe_add, Multiset.coe_singleton]
      abel
  | act a =>
      cases a with
      | free b => cases h
      | post b =>
          unfold step at h
          dsimp only at h
          split at h
          · cases h
          · rename_i hb
            refine hplain _ nofun nofun (fun b' hb' => ?_) h
            rcases hb' with hb' | hb' <;> cases hb'
            exact WireBody.freed_of_ne hb
      | request b =>
          unfold step at h
          dsimp only at h
          split at h
          · cases h
          · rename_i hb
            refine hplain _ nofun nofun (fun b' hb' => ?_) h
            rcases hb' with hb' | hb' <;> cases hb'
            exact WireBody.freed_of_ne hb
      | next =>
          unfold step at h
          dsimp only at h
          split at h
          · rename_i b rest htodo
            split at h
            · exact hmove (by rw [encoding, htodo]) h
            · -- the ids are taken out of `pending_frees`
              obtain rfl := Option.some.inj h
              refine ⟨fun _ => ?_, fun hdrops => absurd ?_ hdrops.1.1⟩
              · rw [account, account, kept, kept, brings, coe_inHand, coe_inHand, htodo]
                dsimp only
                rw [held_cons, held_cons, held_cons, OpInstr.frees, OpInstr.frees, OpInstr.frees,
                  WireBody.freed_freeOf, Multiset.coe_nil]
                abel
              · rw [raised, encoding, htodo]
                rfl
          · rename_i b rest htodo
            obtain ⟨c, hc, rfl⟩ := Option.map_eq_some_iff.mp h
            rw [brings, add_zero]
            exact account_encoding hsize hack (by rw [encoding, htodo]) hc rfl
          · rename_i b rest htodo
            obtain ⟨c, hc, rfl⟩ := Option.map_eq_some_iff.mp h
            rw [brings, add_zero]
            exact account_encoding hsize hack (by rw [encoding, htodo]) hc rfl
          · rename_i hqueue happend hcommit
            refine hmove ?_ h
            unfold encoding
            split
            · exact absurd ‹_› (happend _ _)
            · exact absurd ‹_› (hcommit _ _)
            · rfl
      | flush => exact hplain _ nofun nofun nofun h
      | dial k => exact hplain _ nofun nofun nofun h
      | shake resumed n => exact hplain _ nofun nofun nofun h
      | refuse => exact hplain _ nofun nofun nofun h
      | send ok => exact hplain _ nofun nofun nofun h
      | receive r => exact hplain _ nofun nofun nofun h
      | fail => exact hplain _ nofun nofun nofun h
      | giveUp => exact hplain _ nofun nofun nofun h

/-- **Ids are kept** by whatever the client does, from any state of the connection up to where its call is done,
exactly if nothing but an `EncodeError` is raised while `_queue` has ids in hand. -/
theorem frees_kept_iff (sid : OpSessionId) (failed : ρ → Bool) (flushOps flushBytes : ℕ) (s t : Freeing)
    (as : List (FreeAction ρ)) (hs : s.client.todo = []) (ht : t.client.todo = [])
    (hrun : run (step (wireConfig sid failed flushOps flushBytes)) s as = some t) :
    t.kept = s.kept + (as.map brings).sum ↔
      Along (step (wireConfig sid failed flushOps flushBytes))
        (fun s a => ¬Drops (wireConfig sid failed flushOps flushBytes) s a) s as := by
  have hdone : ∀ u : Freeing, u.client.todo = [] → u.account = u.kept := by
    intro u hu
    rw [account, coe_inHand, hu, held_nil, add_zero]
  rw [← hdone s hs, ← hdone t ht]
  have hsize := size_wireConfig sid failed flushOps flushBytes
  have hack := ack_wireConfig sid failed flushOps flushBytes
  refine (balanced_iff_along (fun u a v hstep hkeeps => ?_)
    (fun u a v hstep hdrops => ?_) hrun).2
  · exact (account_step hsize hack hstep).1 hkeeps
  · exact (account_step hsize hack hstep).2 (not_not.mp hdrops)

/-- A connection that holds as much as it may without asking, with an id to be freed. -/
def full : Freeing where
  client :=
    { seq := 1
      unacked := [⟨⟨1, (3, [])⟩, replayAckAt⟩]
      unackedBytes := replayAckAt
      hadSession := true
      sock := some 0 }
  pendingFrees := [7]

/-- A seed is posted, and the `FREE` ahead of it asks for an acknowledgement. -/
def postSeed (r : OpReply Bool) : List (FreeAction Bool) :=
  [.act (.post (6, [.int 1])), .act .next, .act .next, .act .next, .act .next, .act (.send true), .act .next,
    .act (.receive r)]

/-- With room in the queue, or an acknowledgement that reports nothing, the id goes out. -/
theorem frees_kept_iff_full :
    Along (step (wireConfig 0 (fun failed : Bool => failed) 64 1000))
      (fun s a => ¬Drops (wireConfig 0 (fun failed : Bool => failed) 64 1000) s a) full
      (postSeed ⟨2, false⟩ ++ [.act .next, .act .next, .act .next]) := by
  obtain ⟨t, ht⟩ := Option.isSome_iff_exists.mp (show (run (step (wireConfig 0 (fun failed : Bool => failed) 64 1000)) full
    (postSeed ⟨2, false⟩ ++ [.act .next, .act .next, .act .next])).isSome = true from by decide +kernel)
  have hsome : (run (step (wireConfig 0 (fun failed : Bool => failed) 64 1000)) full
      (postSeed ⟨2, false⟩ ++ [.act .next, .act .next, .act .next])).map
      (fun t => (t.client.todo.isEmpty, t.pendingFrees, t.numbered.flatMap WireBody.freed)) =
        some (true, [], [7]) := by decide +kernel
  rw [ht, Option.map_some, Option.some.injEq, Prod.mk.injEq, Prod.mk.injEq] at hsome
  refine (frees_kept_iff 0 (fun failed => failed) 64 1000 full t _ rfl (List.isEmpty_iff.mp hsome.1) ht).mp ?_
  rw [kept, hsome.2.1, hsome.2.2]
  rfl

/-- An op that failed earlier is reported to the acknowledgement, and the id is in no place any more. -/
theorem free_lost : ∃ t, run (step (wireConfig 0 (fun failed : Bool => failed) 64 1000)) full (postSeed ⟨2, true⟩) = some t ∧
    t.client.todo = [] ∧ 7 ∈ full.pendingFrees ∧ t.pendingFrees = [] ∧ t.numbered.flatMap WireBody.freed = [] := by
  obtain ⟨t, ht⟩ := Option.isSome_iff_exists.mp (show (run (step (wireConfig 0 (fun failed : Bool => failed) 64 1000)) full
    (postSeed ⟨2, true⟩)).isSome = true from by decide +kernel)
  have hsome : (run (step (wireConfig 0 (fun failed : Bool => failed) 64 1000)) full (postSeed ⟨2, true⟩)).map
      (fun t => (t.client.todo.isEmpty, t.pendingFrees, t.numbered.flatMap WireBody.freed)) =
        some (true, [], []) := by decide +kernel
  rw [ht, Option.map_some, Option.some.injEq, Prod.mk.injEq, Prod.mk.injEq] at hsome
  exact ⟨t, ht, List.isEmpty_iff.mp hsome.1, by decide, hsome.2.1, hsome.2.2⟩

end Freeing

end Rgpu
