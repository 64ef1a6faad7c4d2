import Rgpu.Server.Descriptors
import Rgpu.Server.Ledger

/-! # Deferred failures

The failure of a call sent without a reply is held in its thread's slot. From there it is handed to the
thread in one reply, or counted when the slot is forgotten.

* **`Balanced`** — the bookkeeping of the failures, over the slots in any order, with one rule for each
  thing that can happen to a slot.
* **`ClientThreads.Sound`** — a table whose books balance and that keeps its bounds.
* **`Server.deferred_failures`** — the result, for every session of the server in every run. -/

namespace Rgpu

open Foundations

/-- What the books say of a slot: its thread, its failure and which one that is. -/
abbrev Entry := ThreadId × CUresult × ℕ

/-- The failure an entry holds, and for whom. -/
def Entry.owes (e : Entry) : Option (ℕ × ThreadId) := if e.2.1 = .success then none else some (e.2.2, e.1)

namespace FailureEvent

/-- A failure came to be held, and for whom. -/
def heldFor : FailureEvent → Option (ℕ × ThreadId)
  | .held n id _ => some (n, id)
  | _ => none

/-- A failure ceased to be held, and for whom it was. -/
def settledFor : FailureEvent → Option (ℕ × ThreadId)
  | .delivered n id _ _ | .unreported n id => some (n, id)
  | .held .. => none

/-- A failure was forgotten with its slot. -/
def isUnreported : FailureEvent → Bool
  | .unreported .. => true
  | _ => false

/-- A failure was handed to its thread. -/
def isDelivered : FailureEvent → Bool
  | .delivered .. => true
  | _ => false

end FailureEvent

/-- The books balance: every thread has one slot, and each failure ever held is delivered, counted as
unreported or still in its thread's slot, in exactly one of these ways and once. -/
structure Balanced (entries : List Entry) (history : List FailureEvent) (held unreported : ℕ) : Prop where
  distinct : (AssocList.keys entries).Nodup
  conserved : (history.filterMap FailureEvent.settledFor ++ entries.filterMap Entry.owes).Perm
    (history.filterMap FailureEvent.heldFor)
  numbered : (history.filterMap FailureEvent.heldFor).map Prod.fst = List.range held
  pending : ∀ id code n, (id, code, n) ∈ entries → code ≠ .success → .held n id code ∈ history
  delivered : ∀ n id req code, .delivered n id req code ∈ history →
    .held n id code ∈ history ∧ code ≠ .success
  counted : unreported = history.countP FailureEvent.isUnreported

namespace Balanced

variable {es es' rest : List Entry} {hist : List FailureEvent} {held unreported n m : ℕ} {id : ThreadId}
  {code : CUresult}

/-- No failures, no books. -/
theorem nil : Balanced [] [] 0 0 where
  distinct := List.nodup_nil
  conserved := List.Perm.nil
  numbered := rfl
  pending := by simp
  delivered := by simp
  counted := rfl

/-- Entries in another order. -/
theorem perm (h : Balanced es hist held unreported) (hp : es'.Perm es) :
    Balanced es' hist held unreported where
  distinct := (hp.map Prod.fst).nodup_iff.mpr h.distinct
  conserved := ((hp.filterMap _).append_left _).trans h.conserved
  numbered := h.numbered
  pending := fun id code n hmem => h.pending id code n (hp.subset hmem)
  delivered := h.delivered
  counted := h.counted

/-- An entry of a thread that has none, holding nothing. -/
theorem enter (h : Balanced es hist held unreported) (hid : id ∉ AssocList.keys es) :
    Balanced ((id, .success, n) :: es) hist held unreported where
  distinct := List.nodup_cons.mpr ⟨hid, h.distinct⟩
  conserved := by simpa [List.filterMap_cons, Entry.owes] using h.conserved
  numbered := h.numbered
  pending := by
    intro id' code' n' hmem hcode
    rcases List.mem_cons.mp hmem with heq | hmem
    · simp only [Prod.mk.injEq] at heq
      exact absurd heq.2.1 hcode
    · exact h.pending id' code' n' hmem hcode
  delivered := h.delivered
  counted := h.counted

/-- Any entry left out, if it holds nothing. -/
theorem drop (h : Balanced ((id, .success, n) :: es) hist held unreported) :
    Balanced es hist held unreported where
  distinct := (List.nodup_cons.mp h.distinct).2
  conserved := by simpa [List.filterMap_cons, Entry.owes] using h.conserved
  numbered := h.numbered
  pending := fun id' code' n' hmem => h.pending id' code' n' (List.mem_cons_of_mem _ hmem)
  delivered := h.delivered
  counted := h.counted

/-- An entry left out, and the failure it holds counted. -/
theorem forget (h : Balanced ((id, code, n) :: es) hist held unreported) (hcode : code ≠ .success) :
    Balanced es (hist ++ [.unreported n id]) held (unreported + 1) where
  distinct := (List.nodup_cons.mp h.distinct).2
  conserved := by
    have := h.conserved
    simp only [List.filterMap_cons, Entry.owes, if_neg hcode, List.filterMap_append,
      FailureEvent.settledFor, FailureEvent.heldFor, List.filterMap_nil, List.append_nil] at this ⊢
    rw [List.append_assoc]
    exact this
  numbered := by simpa [List.filterMap_cons, FailureEvent.heldFor] using h.numbered
  pending := by
    intro id' code' n' hmem hcode'
    exact List.mem_append_left _ (h.pending id' code' n' (List.mem_cons_of_mem _ hmem) hcode')
  delivered := by
    intro n' id' req code' hmem
    simp only [List.mem_append, List.mem_singleton, reduceCtorEq, or_false] at hmem ⊢
    exact h.delivered n' id' req code' hmem
  counted := by simp [h.counted, FailureEvent.isUnreported]

/-- A failure put in an entry that holds nothing. -/
theorem hold (h : Balanced ((id, .success, m) :: es) hist held unreported) (hcode : code ≠ .success) :
    Balanced ((id, code, held) :: es) (hist ++ [.held held id code]) (held + 1) unreported where
  distinct := h.distinct
  conserved := by
    have hrest := h.drop.conserved
    simp only [List.filterMap_cons, Entry.owes, if_neg hcode, List.filterMap_append,
      FailureEvent.settledFor, FailureEvent.heldFor, List.filterMap_nil, List.append_nil]
    refine (List.perm_middle).trans ?_
    exact ((hrest.cons (held, id)).trans (List.perm_append_singleton _ _).symm)
  numbered := by
    simp only [List.filterMap_append, List.filterMap_cons, FailureEvent.heldFor, List.filterMap_nil,
      List.map_append, List.map_cons, List.map_nil, h.numbered, List.range_succ]
  pending := by
    intro id' code' n' hmem hcode'
    rcases List.mem_cons.mp hmem with heq | hmem
    · simp only [Prod.mk.injEq] at heq
      obtain ⟨rfl, rfl, rfl⟩ := heq
      exact List.mem_append_right _ List.mem_cons_self
    · exact List.mem_append_left _ (h.pending id' code' n' (List.mem_cons_of_mem _ hmem) hcode')
  delivered := by
    intro n' id' req code' hmem
    simp only [List.mem_append, List.mem_singleton, reduceCtorEq, or_false] at hmem
    exact ⟨List.mem_append_left _ (h.delivered n' id' req code' hmem).1,
      (h.delivered n' id' req code' hmem).2⟩
  counted := by simp [h.counted, FailureEvent.isUnreported]

/-- The failure an entry holds handed to its thread. -/
theorem deliver (h : Balanced ((id, code, n) :: es) hist held unreported) (hcode : code ≠ .success)
    (req : RequestId) :
    Balanced ((id, .success, m) :: es) (hist ++ [.delivered n id req code]) held unreported where
  distinct := h.distinct
  conserved := by
    have := h.conserved
    simp only [List.filterMap_cons, Entry.owes, if_neg hcode, List.filterMap_append, if_true,
      FailureEvent.settledFor, FailureEvent.heldFor, List.filterMap_nil, List.append_nil] at this ⊢
    rw [List.append_assoc]
    exact this
  numbered := by simpa [List.filterMap_cons, FailureEvent.heldFor] using h.numbered
  pending := by
    intro id' code' n' hmem hcode'
    rcases List.mem_cons.mp hmem with heq | hmem
    · simp only [Prod.mk.injEq] at heq
      exact absurd heq.2.1 hcode'
    · exact List.mem_append_left _ (h.pending id' code' n' (List.mem_cons_of_mem _ hmem) hcode')
  delivered := by
    intro n' id' req' code' hmem
    simp only [List.mem_append, List.mem_singleton, FailureEvent.delivered.injEq] at hmem
    rcases hmem with hmem | ⟨rfl, rfl, rfl, rfl⟩
    · exact ⟨List.mem_append_left _ (h.delivered n' id' req' code' hmem).1,
        (h.delivered n' id' req' code' hmem).2⟩
    · exact ⟨List.mem_append_left _ (h.pending _ _ _ List.mem_cons_self hcode), hcode⟩
  counted := by simp [h.counted, FailureEvent.isUnreported]

/-- No failure is delivered or counted twice. -/
theorem once (h : Balanced es hist held unreported) :
    (hist.filterMap FailureEvent.settledFor).Nodup := by
  have hheld : (hist.filterMap FailureEvent.heldFor).Nodup := by
    refine List.Nodup.of_map Prod.fst ?_
    rw [h.numbered]
    exact List.nodup_range
  exact (List.nodup_append.mp (h.conserved.nodup_iff.mpr hheld)).1

/-- Once no slot is left, what was held was delivered or counted. -/
theorem settled (h : Balanced [] hist held unreported) :
    held = hist.countP FailureEvent.isDelivered + unreported := by
  have hlen : (hist.filterMap FailureEvent.settledFor).length = held := by
    have := h.conserved.length_eq
    rw [List.filterMap_nil, List.append_nil] at this
    rw [this, ← List.length_map (f := Prod.fst), h.numbered, List.length_range]
  rw [← hlen, h.counted]
  -- an event settles a failure by delivering it or by counting it
  clear h hlen
  induction hist with
  | nil => rfl
  | cons e es ih =>
      cases e <;>
        simp [List.filterMap_cons, FailureEvent.settledFor, FailureEvent.isDelivered,
          FailureEvent.isUnreported, List.countP_cons, ih] <;> omega

end Balanced

namespace ClientThreads

variable {limits : Limits} {ts ts' : ClientThreads} {id : ThreadId} {t : ClientThread}

/-- The entries of a table. -/
def entries (ts : ClientThreads) : List Entry := ts.ledger.live ++ ts.ledger.retired

/-- The books of a table balance. -/
def Books (ts : ClientThreads) : Prop :=
  Balanced ts.entries ts.history ts.heldFailures ts.unreportedFailures

/-- A table whose books balance and that keeps its bounds. -/
structure Sound (limits : Limits) (ts : ClientThreads) : Prop where
  books : ts.Books
  live_le : ts.live.length ≤ limits.maxClientThreads
  retired_le : ts.retired.length ≤ kRetiredSlots

/-- Only the ledger matters. -/
theorem Sound.of_ledger (h : ts.Sound limits) (hledger : ts'.ledger = ts.ledger) :
    ts'.Sound limits where
  books := by
    have hbooks := h.books
    unfold Books entries at hbooks ⊢
    rw [hledger, show ts'.history = ts.history from congrArg Ledger.history hledger,
      show ts'.heldFailures = ts.heldFailures from congrArg Ledger.heldFailures hledger,
      show ts'.unreportedFailures = ts.unreportedFailures from
        congrArg Ledger.unreportedFailures hledger]
    exact hbooks
  live_le := by
    have hlen := congrArg (fun g : Ledger => g.live.length) hledger
    simp only [ledger, AssocList.length_mapValues] at hlen
    rw [hlen]
    exact h.live_le
  retired_le := by
    have hlen := congrArg (fun g : Ledger => g.retired.length) hledger
    simp only [ledger, AssocList.length_mapValues] at hlen
    rw [hlen]
    exact h.retired_le

/-- No thread has two live slots. -/
theorem Books.nodup_live (h : ts.Books) : (AssocList.keys ts.live).Nodup := by
  have hnd := h.distinct
  rw [entries, AssocList.keys_append, keys_live] at hnd
  exact (List.nodup_append.mp hnd).1

/-- No thread has two retired slots. -/
theorem Books.nodup_retired (h : ts.Books) : (AssocList.keys ts.retired).Nodup := by
  have hnd := h.distinct
  rw [entries, AssocList.keys_append, keys_retired] at hnd
  exact (List.nodup_append.mp hnd).2.1

/-- A thread without a slot has no entry. -/
theorem notMem_entries (hlive : ts.live.lookup id = none) (hretired : ts.retired.lookup id = none) :
    id ∉ AssocList.keys ts.entries := by
  rw [AssocList.lookup_eq_none_iff] at hlive hretired
  rw [entries, AssocList.keys_append, keys_live, keys_retired, List.mem_append, not_or]
  exact ⟨hlive, hretired⟩

/-! ## Trimming -/

/-- The oldest retired slot forgotten. -/
theorem Books.dropOldest {rest : List (ThreadId × ClientThread)} (h : ts.Books)
    (hretired : ts.retired = (id, t) :: rest) :
    ({ ts.sayUnreported id t with retired := rest } : ClientThreads).Books := by
  -- its entry, brought to the front
  unfold Books entries ledger at h
  rw [hretired] at h
  have hfront := h.perm (List.perm_middle (a := (id, t.account))).symm
  unfold sayUnreported
  split
  · rename_i hcode
    have haccount : t.account = (.success, t.failure) := Prod.ext hcode rfl
    rw [haccount] at hfront
    exact hfront.drop
  · rename_i hcode
    exact Balanced.forget hfront hcode

/-- Dropping the oldest retired slots keeps the books. -/
theorem books_trimLoop (n : ℕ) (h : ts.Books) : (trimLoop n ts).Books := by
  induction n generalizing ts with
  | zero => exact h
  | succ n ih =>
      unfold trimLoop
      split
      · exact h
      · rename_i id t rest hretired
        split
        · apply ih
          exact h.dropOldest hretired
        · exact h

/-- Counting a failure that is never reported leaves the live slots. -/
theorem live_sayUnreported (ts : ClientThreads) (id : ThreadId) (t : ClientThread) :
    (ts.sayUnreported id t).live = ts.live := by
  unfold sayUnreported
  split <;> rfl

/-- Dropping retired slots leaves the live ones. -/
@[simp] theorem live_trimLoop (n : ℕ) (ts : ClientThreads) : (trimLoop n ts).live = ts.live := by
  induction n generalizing ts with
  | zero => rfl
  | succ n ih =>
      unfold trimLoop
      split
      · rfl
      · split
        · rw [ih]
          exact live_sayUnreported ts _ _
        · rfl

/-- Trimming leaves the live slots. -/
@[simp] theorem live_trimRetired (ts : ClientThreads) : ts.trimRetired.live = ts.live :=
  live_trimLoop _ ts

/-- Trimming leaves at most as many retired slots as there may be. -/
theorem length_trimLoop (n : ℕ) (h : ts.retired.length ≤ kRetiredSlots + n) :
    (trimLoop n ts).retired.length ≤ kRetiredSlots := by
  induction n generalizing ts with
  | zero => exact h
  | succ n ih =>
      unfold trimLoop
      split
      · rename_i hretired
        simp [hretired]
      · rename_i id t rest hretired
        split
        · apply ih
          rw [hretired, List.length_cons] at h
          show rest.length ≤ kRetiredSlots + n
          omega
        · omega

/-- Trimming restores the bound of the retired set. -/
theorem Books.trimmed (h : ts.Books) (hlive : ts.live.length ≤ limits.maxClientThreads) :
    ts.trimRetired.Sound limits where
  books := books_trimLoop _ h
  live_le := by rwa [live_trimRetired]
  retired_le := length_trimLoop _ (by omega)

/-! ## Slots -/

/-- A thread is given its slot. -/
theorem Sound.threadSlot (h : ts.Sound limits) (hslot : ts.threadSlot limits id = some ts') :
    ts'.Sound limits := by
  unfold ClientThreads.threadSlot at hslot
  split at hslot
  · obtain rfl := Option.some.inj hslot
    exact h
  · rename_i hlive
    unfold admitThread at hslot
    split at hslot
    · cases hslot
    · rename_i hroom
      obtain rfl := Option.some.inj hslot
      have hbooks := h.books
      refine ⟨?_, ?_, (AssocList.length_remove_le id _).trans h.retired_le⟩
      · unfold Books entries ledger
        dsimp only
        cases hretired : ts.retired.lookup id with
        | none =>
            -- a new slot
            rw [Option.getD_none, AssocList.remove_of_notMem (AssocList.lookup_eq_none_iff.mp hretired)]
            exact hbooks.enter (notMem_entries hlive hretired)
        | some t =>
            -- its retired slot, taken back
            refine hbooks.perm ?_
            have hback := (AssocList.perm_remove hbooks.nodup_retired hretired).map
              fun e : ThreadId × ClientThread => (e.1, e.2.account)
            exact List.perm_middle.symm.trans (hback.symm.append_left _)
      · rw [List.length_cons]
        omega

/-- A slot moved to the retired set. -/
theorem Books.move (h : ts.Books) (hlive : ts.live.lookup id = some t) :
    ({ ts with live := AssocList.remove id ts.live, retired := ts.retired ++ [(id, t)] } :
      ClientThreads).Books := by
  refine h.perm ?_
  have hout := (AssocList.perm_remove h.nodup_live hlive).map
    fun e : ThreadId × ClientThread => (e.1, e.2.account)
  unfold entries ledger
  dsimp only
  rw [AssocList.mapValues_append, ← List.append_assoc]
  exact (List.perm_append_singleton _ _).trans (hout.symm.append_right _)

/-- A new, empty slot put in the retired set. -/
theorem Books.add (h : ts.Books) (hfind : ts.find id = none) :
    ({ ts with retired := ts.retired ++ [(id, {})] } : ClientThreads).Books := by
  unfold find at hfind
  rw [Option.or_eq_none_iff] at hfind
  have henter := h.enter (n := 0) (notMem_entries hfind.1 hfind.2)
  refine henter.perm ?_
  unfold entries ledger
  dsimp only
  rw [AssocList.mapValues_append, ← List.append_assoc]
  exact List.perm_append_singleton _ _

/-- A thread announced gone. -/
theorem Sound.retireThread (h : ts.Sound limits) (id : ThreadId) : (ts.retireThread id).Sound limits := by
  unfold ClientThreads.retireThread
  split
  · exact h
  · rename_i t hlive
    exact (h.books.move hlive).trimmed ((AssocList.length_remove_le id _).trans h.live_le)

/-- Retiring threads one by one keeps the books. -/
theorem Sound.retireThreads (h : ts.Sound limits) (ids : List ThreadId) :
    (ids.foldl ClientThreads.retireThread ts).Sound limits := by
  induction ids generalizing ts with
  | nil => exact h
  | cons id ids ih => exact ih (h.retireThread id)

/-- A slot seen to for a request that was given none. -/
theorem Sound.deferredHome (h : ts.Sound limits) (id : ThreadId) (make : Bool) :
    (ts.deferredHome id make).Sound limits := by
  unfold ClientThreads.deferredHome
  split
  · exact h
  · split
    · exact h
    · rename_i hfind
      split
      · exact (h.books.add hfind).trimmed h.live_le
      · exact h

/-- The slot of a thread, and the others, up to order. -/
theorem Books.split (h : ts.Books) (hfind : ts.find id = some t) :
    ∃ rest, ts.entries.Perm ((id, t.account) :: rest) ∧
      ∀ f : ClientThread → ClientThread, (ts.adjust id f).entries.Perm ((id, (f t).account) :: rest) := by
  unfold find at hfind
  unfold adjust
  cases hlive : ts.live.lookup id with
  | some u =>
      obtain rfl : u = t := by simpa [hlive] using hfind
      refine ⟨_, ((AssocList.perm_remove h.nodup_live hlive).map _).append_right _, fun f => ?_⟩
      exact ((AssocList.perm_adjust h.nodup_live hlive f).map _).append_right _
  | none =>
      have hretired : ts.retired.lookup id = some t := by simpa [hlive] using hfind
      refine ⟨ts.ledger.live ++ AssocList.mapValues ClientThread.account (AssocList.remove id ts.retired),
        ?_, fun f => ?_⟩
      · exact (((AssocList.perm_remove h.nodup_retired hretired).map _).append_left _).trans
          List.perm_middle
      · exact (((AssocList.perm_adjust h.nodup_retired hretired f).map _).append_left _).trans
          List.perm_middle

/-- Adjusting a slot makes no slot. -/
theorem length_adjust (ts : ClientThreads) (id : ThreadId) (f : ClientThread → ClientThread) :
    (ts.adjust id f).live.length = ts.live.length ∧
      (ts.adjust id f).retired.length = ts.retired.length := by
  unfold adjust
  split
  · exact ⟨AssocList.length_adjust _ _ _, rfl⟩
  · exact ⟨rfl, AssocList.length_adjust _ _ _⟩

/-- Adjusting a slot counts nothing. -/
theorem counters_adjust (ts : ClientThreads) (id : ThreadId) (f : ClientThread → ClientThread) :
    (ts.adjust id f).heldFailures = ts.heldFailures ∧
      (ts.adjust id f).unreportedFailures = ts.unreportedFailures := by
  unfold adjust
  split <;> exact ⟨rfl, rfl⟩

/-- A failure held for a thread whose slot holds none. -/
theorem Sound.hold (h : ts.Sound limits) (hfind : ts.find id = some t) (hnone : t.pendingAsync = .success)
    {code : CUresult} (hcode : code ≠ .success) : (ts.hold id code).Sound limits where
  books := by
    obtain ⟨rest, hbefore, hafter⟩ := h.books.split hfind
    have haccount : t.account = (.success, t.failure) := Prod.ext hnone rfl
    rw [haccount] at hbefore
    have hheld := (h.books.perm hbefore.symm).hold hcode
    rw [← (counters_adjust ts id _).2] at hheld
    exact hheld.perm (hafter fun t => { t with pendingAsync := code, failure := ts.heldFailures })
  live_le := (length_adjust ts id _).1 ▸ h.live_le
  retired_le := (length_adjust ts id _).2 ▸ h.retired_le

/-- The failure a thread's slot holds, handed to it. -/
theorem Sound.deliver (h : ts.Sound limits) (hfind : ts.find id = some t)
    (hsome : t.pendingAsync ≠ .success) (req : RequestId) : (ts.deliver id t req).Sound limits where
  books := by
    obtain ⟨rest, hbefore, hafter⟩ := h.books.split hfind
    have hdelivered := (h.books.perm hbefore.symm).deliver (m := t.failure) hsome req
    rw [← (counters_adjust ts id _).1, ← (counters_adjust ts id _).2] at hdelivered
    exact hdelivered.perm (hafter fun t => { t with pendingAsync := .success })
  live_le := (length_adjust ts id _).1 ▸ h.live_le
  retired_le := (length_adjust ts id _).2 ▸ h.retired_le

end ClientThreads

/-! ## What is written to the history -/

/-- The history went on with events of one kind. -/
def Extends (P : FailureEvent → Prop) (ts ts' : ClientThreads) : Prop :=
  ∃ news, ts'.history = ts.history ++ news ∧ ∀ ev ∈ news, P ev

namespace ClientThreads

variable {limits : Limits} {P : FailureEvent → Prop} {ts ts' ts'' : ClientThreads} {id : ThreadId}

/-- A history that is the same goes on with nothing. -/
theorem extends_of_eq (h : ts'.history = ts.history) : Extends P ts ts' :=
  ⟨[], by simp [h], by simp⟩

/-- What goes on, and then goes on. -/
theorem extends_trans (h : Extends P ts ts') (h' : Extends P ts' ts'') : Extends P ts ts'' := by
  obtain ⟨news, heq, hnews⟩ := h
  obtain ⟨news', heq', hnews'⟩ := h'
  refine ⟨news ++ news', by rw [heq', heq, List.append_assoc], fun ev hev => ?_⟩
  rcases List.mem_append.mp hev with hev | hev
  · exact hnews ev hev
  · exact hnews' ev hev

/-- A failure that is never reported is all that is entered for it. -/
theorem extends_sayUnreported (hP : ∀ n id, P (.unreported n id)) (ts : ClientThreads) (id : ThreadId)
    (t : ClientThread) : Extends P ts (ts.sayUnreported id t) := by
  unfold sayUnreported
  split
  · exact extends_of_eq rfl
  · exact ⟨_, rfl, by simpa using hP _ _⟩

/-- Dropping the oldest retired slots enters nothing but failures that are never reported. -/
theorem extends_trimLoop (hP : ∀ n id, P (.unreported n id)) (n : ℕ) (ts : ClientThreads) :
    Extends P ts (trimLoop n ts) := by
  induction n generalizing ts with
  | zero => exact extends_of_eq rfl
  | succ n ih =>
      unfold trimLoop
      split
      · exact extends_of_eq rfl
      · rename_i id t _ _
        split
        · have hsaid := extends_sayUnreported hP ts id t
          exact extends_trans (extends_trans hsaid (extends_of_eq rfl)) (ih _)
        · exact extends_of_eq rfl

/-- Retiring a thread enters nothing but failures that are never reported. -/
theorem extends_retireThread (hP : ∀ n id, P (.unreported n id)) (ts : ClientThreads) (id : ThreadId) :
    Extends P ts (ts.retireThread id) := by
  unfold retireThread
  split
  · exact extends_of_eq rfl
  · exact extends_trans (extends_of_eq rfl) (extends_trimLoop hP _ _)

/-- Retiring several threads enters nothing else either. -/
theorem extends_retireThreads (hP : ∀ n id, P (.unreported n id)) (ids : List ThreadId)
    (ts : ClientThreads) : Extends P ts (ids.foldl retireThread ts) := by
  induction ids generalizing ts with
  | nil => exact extends_of_eq rfl
  | cons id ids ih => exact extends_trans (extends_retireThread hP ts id) (ih _)

/-- Finding a home for a failure enters nothing but failures that are never reported. -/
theorem extends_deferredHome (hP : ∀ n id, P (.unreported n id)) (ts : ClientThreads) (id : ThreadId)
    (make : Bool) : Extends P ts (ts.deferredHome id make) := by
  unfold deferredHome
  split
  · exact extends_of_eq rfl
  · split
    · exact extends_of_eq rfl
    · split
      · exact extends_trans (extends_of_eq rfl) (extends_trimLoop hP _ _)
      · exact extends_of_eq rfl

/-- The expiry enters nothing but failures that are never reported. -/
theorem extends_expire (hP : ∀ n id, P (.unreported n id)) (ts : ClientThreads) :
    Extends P ts ts.expire := by
  have hfold : ∀ (l : List (ThreadId × ClientThread)) (ts : ClientThreads),
      Extends P ts (l.foldl (fun ts e => ts.sayUnreported e.1 e.2) ts) := by
    intro l
    induction l with
    | nil => exact fun ts => extends_of_eq rfl
    | cons e l ih => exact fun ts => extends_trans (extends_sayUnreported hP ts e.1 e.2) (ih _)
  exact extends_trans (hfold _ ts) (extends_of_eq rfl)

/-- Admitting a thread enters nothing into the history. -/
theorem history_threadSlot (h : ts.threadSlot limits id = some ts') : ts'.history = ts.history := by
  unfold threadSlot at h
  split at h
  · rw [← Option.some.inj h]
  · unfold admitThread at h
    split at h
    · cases h
    · rw [← Option.some.inj h]

/-- A slot given is in the live table. -/
theorem lookup_threadSlot (h : ts.threadSlot limits id = some ts') :
    ∃ t, ts'.live.lookup id = some t := by
  unfold threadSlot at h
  split at h
  · rename_i t hlive
    exact ⟨t, Option.some.inj h ▸ hlive⟩
  · unfold admitThread at h
    split at h
    · cases h
    · rw [← Option.some.inj h]
      exact ⟨_, List.lookup_cons_self⟩

end ClientThreads

/-- What completing a request may write to the history: the failure of a call sent without a reply, held
for the thread that sent it; a failure of its thread handed to it in its own reply; and failures
forgotten. -/
def Recorded (f : Frame) (o : Outcome) (result : CUresult) : FailureEvent → Prop
  | .held _ id code => f.noReply = true ∧ f.threadId = id ∧ o.result = code ∧ code ≠ .success
  | .delivered _ id req code =>
      f.noReply = false ∧ f.threadId = id ∧ f.reqId = req ∧ o.result = .success ∧ result = code
  | .unreported .. => True

namespace ClientThreads

variable {limits : Limits} {ts : ClientThreads} {f : Frame} {o : Outcome}

/-- The slot a request is settled in is its thread's. -/
theorem find_of_home {t : ClientThread} (h : ts.home f o = some t) : ts.find f.threadId = some t := by
  unfold home at h
  split at h
  · rw [find, h]
    rfl
  · split at h
    · cases h
    · exact h

/-- Completing a request keeps the table sound, and writes what it may. -/
theorem Sound.settle (h : ts.Sound limits) (f : Frame) (o : Outcome) :
    (ts.settle f o).1.Sound limits ∧ Extends (Recorded f o (ts.settle f o).2) ts (ts.settle f o).1 := by
  have hhome : ∀ make, (if o.hasSlot then ts else ts.deferredHome f.threadId make).Sound limits := by
    intro make
    split
    · exact h
    · exact h.deferredHome _ _
  have hseen : ∀ make result, Extends (Recorded f o result) ts
      (if o.hasSlot then ts else ts.deferredHome f.threadId make) := by
    intro make result
    split
    · exact extends_of_eq rfl
    · exact extends_deferredHome (fun _ _ => trivial) ts _ _
  unfold ClientThreads.settle
  split
  · rename_i hno
    -- a request that no one answers: its failure is held for the thread, unless one is held already
    split
    · exact ⟨h, extends_of_eq rfl⟩
    · rename_i hfailed
      dsimp only
      split
      · exact ⟨hhome true, hseen true _⟩
      · rename_i t ht
        split
        · rename_i hnone
          refine ⟨(hhome true).hold (find_of_home ht) hnone hfailed, ?_⟩
          refine extends_trans (hseen true _) ⟨_, rfl, ?_⟩
          simpa using ⟨hno, rfl, rfl, hfailed⟩
        · exact ⟨hhome true, hseen true _⟩
  · rename_i hno
    dsimp only
    -- a request that is answered: its answer may take along the failure held for the thread
    split
    · exact ⟨hhome false, hseen false _⟩
    · rename_i t ht
      split
      · rename_i hcarries
        refine ⟨(hhome false).deliver (find_of_home ht) hcarries.2.1 f.reqId, ?_⟩
        refine extends_trans (hseen false _) ⟨_, rfl, ?_⟩
        simpa using ⟨by simpa using hno, rfl, rfl, hcarries.1, rfl⟩
      · exact ⟨hhome false, hseen false _⟩

/-- Expiry counts every failure still held. -/
theorem Sound.expire (h : ts.Sound limits) :
    ts.expire.Sound limits ∧ ts.expire.entries = [] := by
  have hfold : ∀ (l : List (ThreadId × ClientThread)) (ts : ClientThreads),
      Balanced (AssocList.mapValues ClientThread.account l) ts.history ts.heldFailures
        ts.unreportedFailures →
      let us := l.foldl (fun ts e => ts.sayUnreported e.1 e.2) ts
      Balanced [] us.history us.heldFailures us.unreportedFailures := by
    intro l
    induction l with
    | nil => exact fun _ h => h
    | cons e l ih =>
        intro ts h
        apply ih
        unfold sayUnreported
        dsimp only
        split
        · rename_i hcode
          have haccount : e.2.account = (.success, e.2.failure) := Prod.ext hcode rfl
          rw [AssocList.mapValues, List.map_cons, haccount] at h
          exact h.drop
        · rename_i hcode
          exact Balanced.forget h hcode
  have hbooks := h.books
  unfold Books entries ledger at hbooks
  rw [← AssocList.mapValues_append] at hbooks
  exact ⟨⟨hfold _ ts hbooks, Nat.zero_le _, Nat.zero_le _⟩, rfl⟩

end ClientThreads

/-- Running a request, before it is completed, keeps the table sound and only forgets failures. -/
theorem Serving.Executes.sound {ι : Type} {limits : Limits} {s s' : Serving} {f : Frame} {a : Answers ι}
    {o : Outcome} {result : CUresult} (hex : Executes limits s f a s' o)
    (h : s.threads.Sound limits) :
    s'.threads.Sound limits ∧ Extends (Recorded f o result) s.threads s'.threads := by
  rcases hex.ledger with ⟨-, ts, hslot, hledger⟩ | ⟨-, hsame | ⟨ids, -, hretired⟩⟩
  · refine ⟨(h.threadSlot hslot.slot).of_ledger hledger, ClientThreads.extends_of_eq ?_⟩
    exact (congrArg Ledger.history hledger).trans (ClientThreads.history_threadSlot hslot.slot)
  · rw [hsame]
    exact ⟨h, ClientThreads.extends_of_eq rfl⟩
  · rw [hretired]
    exact ⟨h.retireThreads ids, ClientThreads.extends_retireThreads (fun _ _ => trivial) ids _⟩

namespace Session

variable {ι : Type} {limits : Limits} {x : Session ι} {f : Frame} {a : Answers ι}

/-- Executing a request keeps the table sound, and writes to the history what its outcome and its reply
may write. -/
theorem sound_execute (h : x.serving.threads.Sound limits) :
    (x.execute limits f a).1.serving.threads.Sound limits ∧
      ∃ result, (f.noReply = false → ∃ r : Reply, (x.execute limits f a).2.1 = some r ∧
          r.result = result) ∧
        Extends (Recorded f (x.dispatch limits f a).2 result) x.serving.threads
          (x.execute limits f a).1.serving.threads := by
  have hran := fun result =>
    ((Serving.executes limits x.serving f a).sound h : _ ∧ Extends (Recorded f _ result) _ _)
  have hsettled := (hran .success).1.settle f (x.dispatch limits f a).2
  have hserving : (x.execute limits f a).1.serving.threads =
      ((x.dispatch limits f a).1.serving.threads.settle f (x.dispatch limits f a).2).1 := by
    unfold execute complete
    dsimp only
    split <;> rfl
  rw [hserving]
  refine ⟨hsettled.1, _, fun hno => ?_, ClientThreads.extends_trans (hran _).2 hsettled.2⟩
  unfold execute complete
  dsimp only
  rw [if_neg (by simp [hno])]
  exact ⟨_, rfl, rfl⟩

end Session

/-! ## In the server -/

namespace Server

variable {ι : Type} [Inhabited ι] {limits : Limits} {s t : Server ι} {a : ServerAction ι}
  {sid : SessionId}

/-- What a step does to the table of client threads of a session and to the driver that serves it:
nothing, or its thread runs a request, or leaves. -/
inductive Serves (limits : Limits) (s t : Server ι) (sid : SessionId) : ServerAction ι → Prop
  | same {b : ServerAction ι} (hserving : (t.session sid).serving = (s.session sid).serving)
      (hpc : t.serve sid = .exited ↔ s.serve sid = .exited) : Serves limits s t sid b
  | executed {answers c f} (hpc : s.serve sid = .running c f) (hpc' : t.serve sid ≠ .exited)
      (hsession : t.session sid = ((s.session sid).execute limits f answers).1) :
      Serves limits s t sid (.execute sid answers)
  | left (hpc : t.serve sid = .exited)
      (hthreads : (t.session sid).serving.threads = (s.session sid).serving.threads.expire) :
      Serves limits s t sid (.leave sid)

/-- Every step does one of these to a session. -/
theorem Step.serves (inv : Table limits s) (h : Step limits s a t) (sid : SessionId) :
    Serves limits s t sid a := by
  cases h with
  | @forgot c sid' | @handedOver c sid' | @firstPut c sid' =>
      refine .same ?_ ?_
      · by_cases hsid : sid = sid'
        · subst hsid
          simp
        · simp [Function.update_of_ne hsid]
      · simp
  | @taken sid' _ hpc | @expired sid' hpc =>
      refine .same ?_ ?_
      · by_cases hsid : sid = sid'
        · subst hsid
          simp
        · simp [Function.update_of_ne hsid]
      · by_cases hsid : sid = sid'
        · subst hsid
          simp [hpc]
        · simp [Function.update_of_ne hsid]
  | @left sid' =>
      by_cases hsid : sid = sid'
      · subst hsid
        exact .left (by simp) (by simp)
      · exact .same (by simp [Function.update_of_ne hsid]) (by simp [Function.update_of_ne hsid])
  | @lookupMade c hello =>
      refine .same ?_ (by simp)
      by_cases hsid : sid = s.made
      · subst hsid
        simp [(inv.fresh s.made le_rfl).1]
      · simp [Function.update_of_ne hsid]
  | @executedReply sid' c f reply x answers last hpc hexec =>
      by_cases hsid : sid = sid'
      · subst hsid
        exact .executed hpc (by simp) (by simp [hexec])
      · exact .same (by simp [Function.update_of_ne hsid]) (by simp [Function.update_of_ne hsid])
  | @executedLast sid' c f x answers hpc hexec | @executedOneWay sid' c f x answers hpc hexec =>
      by_cases hsid : sid = sid'
      · subst hsid
        exact .executed hpc (by simp) (by simp [hexec])
      · exact .same (by simp [Function.update_of_ne hsid]) (by simp [Function.update_of_ne hsid])
  | @launched c sid' hpc =>
      refine .same (by simp) ?_
      by_cases hsid : sid = sid'
      · subst hsid
        have hnot := (inv.makes c sid (by rw [hpc]; rfl)).1
        simp [hnot]
      · simp [Function.update_of_ne hsid]
  | @readFailed sid' _ hpc | @readToRun sid' _ _ hpc | @readToAnswer sid' _ _ _ hpc
  | @answered sid' _ _ hpc | @answeredLast sid' _ _ _ _ hpc =>
      refine .same (by simp) ?_
      by_cases hsid : sid = sid'
      · subst hsid
        simp [hpc]
      · simp [Function.update_of_ne hsid]
  | _ => exact .same (by simp) (by simp)

/-- What a step of the server may write to the history of a session. -/
def Causes (limits : Limits) (s t : Server ι) (sid : SessionId) (a : ServerAction ι) :
    FailureEvent → Prop
  | .held _ id code => ∃ answers c f, a = .execute sid answers ∧ s.serve sid = .running c f ∧
      f.noReply = true ∧ f.threadId = id ∧
      ((s.session sid).dispatch limits f answers).2.result = code ∧ code ≠ .success
  | .delivered _ id req code => ∃ answers c f r, a = .execute sid answers ∧
      s.serve sid = .running c f ∧ f.noReply = false ∧ f.threadId = id ∧ f.reqId = req ∧
      ((s.session sid).dispatch limits f answers).2.result = .success ∧
      (t.session sid).replies = (s.session sid).replies ++ [r] ∧ r.reqId = req ∧ r.result = code
  | .unreported .. => (∃ answers, a = .execute sid answers) ∨ a = .leave sid

/-- The tables of client threads are sound, and a session whose thread has gone holds no failure. -/
structure Holds (limits : Limits) (s : Server ι) (sid : SessionId) : Prop where
  sound : (s.session sid).serving.threads.Sound limits
  exited : s.serve sid = .exited → (s.session sid).serving.threads.entries = []

/-- The books are kept in every state of every run of the server. -/
theorem always_holds (limits : Limits) (sid : SessionId) :
    Always (Server.step limits) (fun _ _ => True) (Server.initial ι) fun s => s.Holds limits sid := by
  refine Always.of_step_under (always_inv limits) ?_ ?_
  · exact ⟨⟨Balanced.nil, Nat.zero_le _, Nat.zero_le _⟩, fun _ => rfl⟩
  · intro s a t inv _ h _ hstep
    cases (Step.of_step hstep).serves inv.table sid with
    | same hserving hpc => exact ⟨hserving ▸ h.sound, fun hexited => hserving ▸ h.exited (hpc.mp hexited)⟩
    | executed hpc hpc' hsession =>
        exact ⟨hsession ▸ (Session.sound_execute h.sound).1, fun hexited => absurd hexited hpc'⟩
    | left hpc hthreads =>
        exact ⟨hthreads ▸ h.sound.expire.1, fun _ => hthreads ▸ h.sound.expire.2⟩

omit [Inhabited ι] in
/-- What a step adds to the history of a session is caused by it. -/
theorem Holds.causes (h : s.Holds limits sid) (hserves : Serves limits s t sid a) :
    Extends (Causes limits s t sid a) (s.session sid).serving.threads (t.session sid).serving.threads := by
  cases hserves with
  | same hserving _ => exact ClientThreads.extends_of_eq (by rw [hserving])
  | @executed answers c f hpc _ hsession =>
      have hexecuted := Session.sound_execute h.sound (f := f) (a := answers)
      obtain ⟨-, result, hresult, news, hnews, hrecorded⟩ := hexecuted
      refine ⟨news, by rw [hsession, hnews], fun ev hev => ?_⟩
      have hev := hrecorded ev hev
      cases ev with
      | held n id code =>
          obtain ⟨hno, hid, hcode, hfailed⟩ := hev
          exact ⟨answers, c, f, rfl, hpc, hno, hid, hcode, hfailed⟩
      | delivered n id req code =>
          obtain ⟨hno, hid, hreq, hsuccess, hcode⟩ := hev
          obtain ⟨r, hr, hrresult⟩ := hresult hno
          -- the reply is the one the request is completed with
          have hexec : (s.session sid).execute limits f answers = (_, _, _) := rfl
          obtain ⟨r', hr', hreqId, -, -, hreplies⟩ := (Session.executed hexec).waiting hno
          obtain rfl : r = r' := Option.some.inj (hr.symm.trans hr')
          refine ⟨answers, c, f, r, rfl, hpc, hno, hid, hreq, hsuccess, ?_, hreqId.trans hreq,
            hrresult.trans hcode⟩
          rw [hsession]
          exact hreplies
      | unreported n id => exact Or.inl ⟨answers, rfl⟩
  | left _ hthreads =>
      rw [hthreads]
      exact ClientThreads.extends_expire (fun _ _ => Or.inr rfl) _

/-- **Deferred failures and the thread table.** In every run of the server and for every session: no
thread has two slots, and both lists keep their bounds; the failures ever held are numbered as they came,
none is handed over or counted twice, and what is handed over was held for that thread with that code; a
failure comes to be held only as the result of a request sent without a reply, for the thread that sent
it, and is handed over only in the reply with which a request of that thread is completed; and when the
session is gone, as many failures were held as were delivered or counted as never delivered. -/
theorem deferred_failures (limits : Limits) (as : List (ServerAction ι))
    (hrun : run (Server.step limits) (Server.initial ι) as = some s) (sid : SessionId) :
    let ts := (s.session sid).serving.threads
    ((AssocList.keys ts.live ++ AssocList.keys ts.retired).Nodup ∧
      ts.live.length ≤ limits.maxClientThreads ∧ ts.retired.length ≤ kRetiredSlots) ∧
    ((ts.history.filterMap FailureEvent.heldFor).map Prod.fst = List.range ts.heldFailures ∧
      (ts.history.filterMap FailureEvent.settledFor).Nodup ∧
      ∀ n id req code, .delivered n id req code ∈ ts.history → .held n id code ∈ ts.history) ∧
    (∀ a t, s.step limits a = some t →
      Extends (Causes limits s t sid a) ts (t.session sid).serving.threads) ∧
    (s.serve sid = .exited →
      ts.heldFailures = ts.history.countP FailureEvent.isDelivered + ts.unreportedFailures) := by
  intro ts
  have inv := always_inv limits as s (along_true _ _ _) hrun
  have h := always_holds limits sid as s (along_true _ _ _) hrun
  have hbooks := h.sound.books
  refine ⟨⟨?_, h.sound.live_le, h.sound.retired_le⟩,
    ⟨hbooks.numbered, hbooks.once, fun n id req code hmem => (hbooks.delivered n id req code hmem).1⟩,
    fun a t hstep => h.causes ((Step.of_step hstep).serves inv.table sid), fun hexited => ?_⟩
  · have hdistinct := hbooks.distinct
    rwa [ClientThreads.entries, AssocList.keys_append, ClientThreads.keys_live,
      ClientThreads.keys_retired] at hdistinct
  · unfold ClientThreads.Books at hbooks
    rw [h.exited hexited] at hbooks
    exact hbooks.settled

/-- The first client's thread sends a call without a reply, which fails, and one that waits for its reply;
then the client goes, and its session expires. -/
def failedCall : List (ServerAction Unit) :=
  firstService ++
    [.read 0 (some ⟨⟨1, 1⟩, true, 1, .other 200, 8⟩), .execute 0 { result := CUresult.unknown },
      .read 0 (some ⟨⟨2, 2⟩, false, 1, .other 201, 8⟩), .execute 0 {}, .answer 0 true, .read 0 none,
      .expire 0, .leave 0]

/-- There the failure was held, handed over in the second reply, and accounted for at expiry. -/
theorem deferred_failures_delivered :
    ∃ s, run (Server.step {}) (Server.initial Unit) failedCall = some s ∧
      (s.session 0).serving.threads.history =
        [.held 0 1 .unknown, .delivered 0 1 ⟨2, 2⟩ .unknown] ∧
      (s.session 0).serving.threads.heldFailures =
        (s.session 0).serving.threads.history.countP FailureEvent.isDelivered +
          (s.session 0).serving.threads.unreportedFailures :=
  ⟨_, rfl, rfl, (deferred_failures {} failedCall rfl 0).2.2.2 rfl⟩

end Server

end Rgpu
