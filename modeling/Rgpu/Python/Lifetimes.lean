import Rgpu.Python.Dispatch
import Rgpu.Python.Poisoning

/-! # How long an id lives

Ids are chosen by the client for what it streams and by the session for the answers to `RUN_SYNC`; they are freed
when a finalizer has run, ahead of whatever message comes next, while other threads go on and ops fail.

* **`OpBody.after`** — what a message makes of the ids that a session has, whatever becomes of its op.
* **`Dispatcher.Sound`** — what every step keeps.
* **`Dispatcher.names_are_there`** — no operand of a message is an id that the session does not have. A `FREE` may name
  one, after a call that was given up.
* **`Dispatcher.nothing_leaks`** — an id that the session has is still wanted, or waits to be freed. -/

namespace Rgpu

open Foundations

variable {ω γ κ η ρ : Type}

/-- The operands of a message: the ids it reads or writes to. The ids of a `FREE` are not among them: freeing one that
is not there does nothing. -/
def OpBody.names : OpBody ω γ η → List TensorId
  | .download id => [id]
  | b => b.refs

/-- The ids that a message gives to what comes out. -/
def OpBody.outs : OpBody ω γ η → List (Option TensorId)
  | .run _ _ outs | .call _ _ outs => outs
  | _ => []

/-- The ids there are after a message, but for those the session gives. -/
def OpBody.after (b : OpBody ω γ η) (there : TensorId → Prop) (id : TensorId) : Prop :=
  match b with
  | .run _ _ outs | .call _ _ outs => there id ∨ some id ∈ outs
  | .free ids => there id ∧ id ∉ ids
  | _ => there id

/-- The id of a leaf that is a tensor. -/
def Description.id? : Description η → Option TensorId
  | .tensor id _ => some id
  | .plain _ | .none => Option.none

namespace TorchState

variable {st : TorchState κ η ρ} {ids : List (Option TensorId)} {xs : List (Option (Slot η))} {id : TensorId}

/-- The session has the id, with a tensor, a value or poison. -/
def Has (st : TorchState κ η ρ) (id : TensorId) : Prop := st.tensors id ≠ none

/-- What is there after several slots have been filled. -/
theorem foldl_put {l : List (Option TensorId × Option (Slot η))} (tensors : TensorId → Option (Slot η))
    (id : TensorId) (h : ∀ p ∈ l, p.1 ≠ none → p.2 ≠ none) :
    l.foldl (fun tensors p => put tensors p.1 p.2) tensors id ≠ none ↔
      tensors id ≠ none ∨ some id ∈ l.map Prod.fst := by
  induction l generalizing tensors with
  | nil => simp
  | cons p l ih =>
      obtain ⟨o, x⟩ := p
      rw [List.foldl_cons, ih _ fun p hp => h p (List.mem_cons_of_mem _ hp), List.map_cons, List.mem_cons, ← or_assoc]
      refine or_congr_left ?_
      cases o with
      | none => simp [put]
      | some i =>
          have hx := h _ List.mem_cons_self (Option.some_ne_none i)
          by_cases hi : id = i
          · subst hi
            simp [put, hx]
          · simp [put, hi]

/-- Storing results adds their ids, and takes none away. -/
theorem has_store (hlength : xs.length = ids.length) (h : ∀ p ∈ ids.zip xs, p.1 ≠ none → p.2 ≠ none) :
    (st.store ids xs).Has id ↔ st.Has id ∨ some id ∈ ids := by
  have hput := foldl_put st.tensors id h
  rwa [List.map_fst_zip hlength.ge] at hput

/-- Poisoning adds the ids it names, and takes none away. -/
theorem has_poison (p : Poison) : (st.poison ids p).Has id ↔ st.Has id ∨ some id ∈ ids := by
  by_cases hid : some id ∈ ids
  · simp [Has, tensors_poison_of_mem hid, hid]
  · simp [Has, tensors_poison_of_not_mem hid, hid]

/-- Freeing takes away the ids it names, those the session has among them. -/
theorem has_free (l : List TensorId) : (st.free l).Has id ↔ st.Has id ∧ id ∉ l := by
  unfold Has free
  by_cases hid : id ∈ l <;> simp [hid]

/-- What the session describes has new ids, and nothing else has changed. -/
theorem describe_spec (layout : Handle → κ → η) (st : TorchState κ η ρ) (next : TensorId)
    (xs : List (Option (Slot η))) :
    next ≤ (st.describe layout next xs).2.1 ∧
      ((st.describe layout next xs).2.2.filterMap Description.id?).Nodup ∧
      (∀ id ∈ (st.describe layout next xs).2.2.filterMap Description.id?,
        next ≤ id ∧ id < (st.describe layout next xs).2.1) ∧
      ∀ id, (st.describe layout next xs).1.Has id ↔
        st.Has id ∨ id ∈ (st.describe layout next xs).2.2.filterMap Description.id? := by
  induction xs generalizing st next with
  | nil => simp [describe]
  | cons x xs ih =>
      cases x with
      | none =>
          obtain ⟨hnext, hnodup, hrange, hhas⟩ := ih st next
          exact ⟨hnext, hnodup, hrange, hhas⟩
      | some x =>
          cases x with
          | poison p =>
              obtain ⟨hnext, hnodup, hrange, hhas⟩ := ih st next
              exact ⟨hnext, hnodup, hrange, hhas⟩
          | plain v =>
              obtain ⟨hnext, hnodup, hrange, hhas⟩ := ih st next
              exact ⟨hnext, hnodup, hrange, hhas⟩
          | tensor h =>
              -- the tensor takes the next id, and the rest those after it
              obtain ⟨hnext, hnodup, hrange, hhas⟩ :=
                ih { st with tensors := Function.update st.tensors next (some (.tensor h)) } (next + 1)
              simp only [describe, List.filterMap_cons, Description.id?, List.nodup_cons, List.mem_cons]
              refine ⟨(Nat.le_succ next).trans hnext, ⟨fun hmem => ?_, hnodup⟩, ?_, fun id => ?_⟩
              · exact Nat.lt_irrefl next (hrange next hmem).1
              · rintro id (rfl | hid)
                · exact ⟨Nat.le_refl _, hnext⟩
                · exact ⟨(Nat.le_succ next).trans (hrange id hid).1, (hrange id hid).2⟩
              · rw [hhas, ← or_assoc]
                refine or_congr_left ?_
                unfold Has
                by_cases hid : id = next
                · subst hid
                  simp
                · simp [hid]

end TorchState

namespace TorchSession

variable {t : Torch ω γ κ η ρ} {x : TorchSession γ κ η ρ} {n : ℕ} {fate : Fate κ}

/-- What comes out of an op is there where an id was given for it. -/
def Kept (n : ℕ) (as : List (Arg κ η)) (f : Effect κ η ρ) (outs : List (Option TensorId)) : Prop :=
  ∀ p ∈ outs.zip (f.outs.map (TorchState.slotOf n (as.map some))), p.1 ≠ none → p.2 ≠ none

/-- The meta kernels were right about what comes out of an op. -/
def Delivers (t : Torch ω γ κ η ρ) (x : TorchSession γ κ η ρ) (n : ℕ) : OpBody ω γ η → Prop
  | .run op refs outs => ∀ as, args x.state refs = .inr as → Kept n as (t.run op (as.map some) x.state.rng) outs
  | .call gid refs outs => ∀ g as, x.graphs gid = some (.inl g) → args x.state refs = .inr as →
      Kept n as (t.call (some g) (as.map some) x.state.rng) outs
  | _ => True

/-- What a message makes of the ids that a session has: `new` are those it gives itself, from `next` on; `r` is the
reply. -/
structure Does (t : Torch ω γ κ η ρ) (b : OpBody ω γ η) (st : TorchState κ η ρ) (next : TensorId)
    (x : TorchSession γ κ η ρ) (r : Option (Poison ⊕ OpAnswer η)) (new : List TensorId) : Prop where
  has : ∀ id, x.state.Has id ↔ b.after st.Has id ∨ id ∈ new
  nodup : new.Nodup
  range : ∀ id ∈ new, next ≤ id ∧ id < x.nextServerId
  next : next ≤ x.nextServerId
  quiet : b.waits = false → r = none ∧ new = []
  told : ∀ ds, r = some (.inr (.described ds)) → ds.filterMap Description.id? = new
  carried : (∀ a, t.encodes a = true) → new ≠ [] → ∃ ds, r = some (.inr (.described ds))

/-- A failure leaves poison under every result. -/
theorem has_fail (op error : String) (ids : List (Option TensorId)) (id : TensorId) :
    (x.fail op error ids).state.Has id ↔ x.state.Has id ∨ some id ∈ ids := TorchState.has_poison _

/-- Whatever becomes of it, an op leaves something at each id that was given for its results. -/
theorem has_perform {label : String} {effect : List (Option (Arg κ η)) → ρ → Effect κ η ρ} {refs : List TensorId}
    {outs : List (Option TensorId)}
    (h : ∀ as, args x.state refs = .inr as → Kept n as (effect (as.map some) x.state.rng) outs) (id : TensorId) :
    (x.perform t n label effect refs outs fate).state.Has id ↔ x.state.Has id ∨ some id ∈ outs := by
  unfold perform
  split
  · exact has_fail _ _ _ id
  · exact TorchState.has_poison _
  · rename_i as has
    split
    · exact has_fail _ _ _ id
    all_goals
      dsimp only
      split
      · rename_i hnil
        simp [hnil, TorchState.Has, TorchState.perform]
      · split
        · exact has_fail _ _ _ id
        · rename_i hlength
          refine TorchState.has_store ?_ (h as has)
          rw [ne_eq, not_not] at hlength
          rw [hlength]

/-- Performing an op hands out no id of the server's. -/
theorem next_perform {label : String} {effect : List (Option (Arg κ η)) → ρ → Effect κ η ρ} {refs : List TensorId}
    {outs : List (Option TensorId)} : (x.perform t n label effect refs outs fate).nextServerId = x.nextServerId := by
  unfold perform
  split
  · rfl
  · rfl
  · dsimp only
    split
    · rfl
    all_goals
      split
      · rfl
      · split <;> rfl

/-- A message that gives no ids of the session's own, and is not waited for. -/
theorem Does.of_quiet {b : OpBody ω γ η} {x' : TorchSession γ κ η ρ}
    (has : ∀ id, x'.state.Has id ↔ b.after x.state.Has id) (next : x'.nextServerId = x.nextServerId) :
    Does t b x.state x.nextServerId x' none [] where
  has id := by rw [has]; simp
  nodup := List.nodup_nil
  range _ h := by cases h
  next := next.ge
  quiet _ := ⟨rfl, rfl⟩
  told _ h := by cases h
  carried _ h := absurd rfl h

/-- A message that is waited for, and gives no ids either. -/
theorem Does.of_reply {b : OpBody ω γ η} {x' : TorchSession γ κ η ρ} {r : Option (Poison ⊕ OpAnswer η)}
    (hwaits : b.waits = true) (hstate : ∀ id, x'.state.Has id ↔ x.state.Has id)
    (next : x'.nextServerId = x.nextServerId) (hr : ∀ ds, r ≠ some (.inr (.described ds))) :
    Does t b x.state x.nextServerId x' r [] where
  has id := by
    rw [hstate]
    cases b <;> simp_all [OpBody.after, OpBody.waits]
  nodup := List.nodup_nil
  range _ h := by cases h
  next := next.ge
  quiet h := by rw [hwaits] at h; cases h
  told ds h := absurd h (hr ds)
  carried _ h := absurd rfl h

/-- A `RUN` makes its results, whatever becomes of it. -/
theorem does_run {op : ω} {refs : List TensorId} {outs : List (Option TensorId)}
    (h : x.Delivers t n (.run op refs outs)) :
    Does t (.run op refs outs) x.state x.nextServerId (x.run t n op refs outs fate) none [] := by
  cases fate with
  | refused error => exact .of_quiet (has_fail _ _ _) rfl
  | fine | raises => exact .of_quiet (has_perform h) next_perform

/-- A `CALL` makes its results, whatever becomes of it. -/
theorem does_call {gid : ℕ} {refs : List TensorId} {outs : List (Option TensorId)}
    (h : x.Delivers t n (.call gid refs outs)) :
    Does t (.call gid refs outs) x.state x.nextServerId (x.call t n gid refs outs fate) none [] := by
  unfold call
  dsimp only
  split
  · exact .of_quiet (fun _ => TorchState.has_poison _) rfl
  · exact .of_quiet (has_fail _ _ _) rfl
  · rename_i g hg
    exact .of_quiet (has_perform fun as has => h g as hg has) next_perform

/-- An `UPLOAD` makes nothing. -/
theorem does_upload {dst : TensorId} {host : η} (hdst : x.state.Has dst) :
    Does t (.upload dst host) x.state x.nextServerId (x.upload t dst host fate) none [] := by
  have hfail : ∀ (heap : Cell → κ) (label error : String) (id : TensorId),
      (fail { x with state := { x.state with heap := heap } } label error [some dst]).state.Has id ↔
        x.state.Has id := by
    intro heap label error id
    rw [has_fail]
    refine or_iff_left_of_imp fun hid => ?_
    obtain rfl : id = dst := by simpa using hid
    exact hdst
  unfold upload
  dsimp only
  split
  · exact .of_quiet (hfail x.state.heap _ _) rfl
  · exact .of_quiet (fun _ => Iff.rfl) rfl
  · exact .of_quiet (hfail x.state.heap _ _) rfl
  · cases fate with
    | refused error => exact .of_quiet (hfail x.state.heap _ _) rfl
    | raises error partially => exact .of_quiet (hfail _ _ _) rfl
    | fine => exact .of_quiet (fun _ => Iff.rfl) rfl

/-- The reply to what a message that is waited for comes to. -/
def replyOf (t : Torch ω γ κ η ρ) : Poison ⊕ OpAnswer η → Option (Poison ⊕ OpAnswer η)
  | .inl p => some (.inl p)
  | .inr a => if t.encodes a then some (.inr a) else none

/-- A `RUN_SYNC` makes what it describes, under ids of the server's. -/
theorem does_runSync {op : ω} {refs : List TensorId} : ∃ new, Does t (.runSync op refs) x.state x.nextServerId
    (x.runSync t n op refs fate).1 (replyOf t (x.runSync t n op refs fate).2) new := by
  have hnone : ∀ {x' : TorchSession γ κ η ρ} (p : Poison), (∀ id, x'.state.Has id ↔ x.state.Has id) →
      x'.nextServerId = x.nextServerId →
        ∃ new, Does t (.runSync op refs) x.state x.nextServerId x' (some (.inl p)) new :=
    fun p hstate hnext => ⟨[], .of_reply rfl hstate hnext nofun⟩
  cases fate with
  | refused error => exact hnone _ (fun _ => Iff.rfl) rfl
  | raises error partially =>
      unfold runSync
      dsimp only
      split <;> exact hnone _ (fun _ => Iff.rfl) rfl
  | fine =>
      unfold runSync
      dsimp only
      split
      · exact hnone _ (fun _ => Iff.rfl) rfl
      · exact hnone _ (fun _ => Iff.rfl) rfl
      · rename_i as has
        obtain ⟨hnext, hnodup, hrange, hhas⟩ := TorchState.describe_spec t.layout
          (x.state.perform t.blank n (as.map some) (t.run op (as.map some) x.state.rng)) x.nextServerId
          ((t.run op (as.map some) x.state.rng).outs.map (TorchState.slotOf n (as.map some)))
        refine ⟨_, ⟨hhas, hnodup, hrange, hnext, nofun, fun ds hds => ?_, fun hencodes _ => ?_⟩⟩
        · unfold replyOf at hds
          dsimp only at hds
          split at hds
          · obtain rfl := OpAnswer.described.inj (Sum.inr.inj (Option.some.inj hds))
            rfl
          · cases hds
        · exact ⟨_, if_pos (hencodes _)⟩

/-- An answer that describes nothing. -/
theorem replyOf_ne {r : Poison ⊕ OpAnswer η} (h : ∀ ds, r ≠ .inr (.described ds)) (ds : List (Description η)) :
    replyOf t r ≠ some (.inr (.described ds)) := by
  cases r with
  | inl p => exact nofun
  | inr a =>
      unfold replyOf
      dsimp only
      split
      · exact fun heq => h ds (Option.some.inj heq)
      · exact nofun

/-- A `DOWNLOAD` describes nothing. -/
theorem download_ne {id : TensorId} (ds : List (Description η)) : x.download t id fate ≠ .inr (.described ds) := by
  unfold download
  dsimp only
  split
  · exact nofun
  · exact nofun
  · exact nofun
  · cases fate <;> exact nofun

/-- Every message that is waited for does what `Does` says, with its reply. -/
theorem does_waited {b : OpBody ω γ η} (hwaits : b.waits = true) : ∃ new,
    Does t b x.state x.nextServerId (x.waited t n fate b).1 (replyOf t (x.waited t n fate b).2) new := by
  cases b with
  | run | upload | free | seed | compile | call | unknown => cases hwaits
  | runSync op refs => exact does_runSync
  | download id => exact ⟨[], .of_reply rfl (fun _ => Iff.rfl) rfl (replyOf_ne download_ne)⟩
  | sync =>
      unfold waited
      cases fate <;> exact ⟨[], .of_reply rfl (fun _ => Iff.rfl) rfl (replyOf_ne nofun)⟩
  | ack => exact ⟨[], .of_reply rfl (fun _ => Iff.rfl) rfl (replyOf_ne nofun)⟩

/-- A message that is waited for, as `execute` has it. -/
theorem execute_waited {b : OpBody ω γ η} (hn : x.lastSeq < n) (hwaits : b.waits = true) :
    x.execute t n b fate =
      match x.firstError with
      | some p => ({ x with lastSeq := n, firstError := none }, some (.inl p))
      | none =>
          ((waited t { x with lastSeq := n } n fate b).1,
            replyOf t (waited t { x with lastSeq := n } n fate b).2) := by
  have hnot : ¬ n ≤ x.lastSeq := by omega
  unfold execute
  rw [if_neg hnot]
  cases b with
  | run | upload | free | seed | compile | call | unknown => cases hwaits
  | runSync | download | sync | ack =>
      cases x.firstError with
      | some p => rfl
      | none =>
          dsimp only
          generalize waited _ _ _ _ _ = y
          obtain ⟨x', p | a⟩ := y <;> rfl

/-- What a message does, whatever becomes of its op. -/
theorem does_execute (fate : Fate κ) {b : OpBody ω γ η} (hn : x.lastSeq < n)
    (hnames : ∀ id ∈ b.names, x.state.Has id) (hdelivers : x.Delivers t n b) : ∃ new,
    Does t b x.state x.nextServerId (x.execute t n b fate).1 (x.execute t n b fate).2 new := by
  have hnot : ¬ n ≤ x.lastSeq := by omega
  by_cases hwaits : b.waits = true
  · rw [execute_waited hn hwaits]
    split
    · exact ⟨[], .of_reply hwaits (fun _ => Iff.rfl) rfl nofun⟩
    · exact does_waited (x := { x with lastSeq := n }) hwaits
  · unfold execute
    rw [if_neg hnot]
    cases b with
    | run op refs outs => exact ⟨[], does_run (x := { x with lastSeq := n }) hdelivers⟩
    | upload dst host => exact ⟨[], does_upload (x := { x with lastSeq := n }) (hnames dst List.mem_cons_self)⟩
    | free ids => exact ⟨[], .of_quiet (fun _ => TorchState.has_free ids) rfl⟩
    | seed k => exact ⟨[], .of_quiet (fun _ => Iff.rfl) rfl⟩
    | compile gid g => exact ⟨[], by unfold compile; cases fate <;> exact .of_quiet (fun _ => Iff.rfl) rfl⟩
    | call gid refs outs => exact ⟨[], does_call (x := { x with lastSeq := n }) hdelivers⟩
    | unknown kind => exact ⟨[], .of_quiet (fun _ => by simp [has_fail, OpBody.after]) rfl⟩
    | runSync | download | sync | ack => exact absurd rfl hwaits

end TorchSession

namespace Dispatcher

variable {s t : Dispatcher ω γ κ η ρ} {m : MetaId} {id : ℕ}

/-- The ids that the session will have when it has executed these messages. -/
def afterAll (there : TensorId → Prop) (queue : List (ℕ × OpBody ω γ η)) : TensorId → Prop :=
  queue.foldl (fun there e => e.2.after there) there

/-- The ids that the session will have when it has executed what is queued. -/
def expected (s : Dispatcher ω γ κ η ρ) : TensorId → Prop := afterAll s.server.state.Has s.queue

/-- The id has been given: by the client, or by the session. -/
def Given (s : Dispatcher ω γ κ η ρ) (id : ℕ) : Prop :=
  id < s.nextId ∨ serverIdBase ≤ id ∧ id < s.server.nextServerId

/-- The meta tensor has an id, under which the session will have something. -/
def Named (s : Dispatcher ω γ κ η ρ) (m : MetaId) : Prop := ∃ id, s.metas m = some id ∧ s.expected id

/-- Who has which id. -/
structure Ids (s : Dispatcher ω γ κ η ρ) : Prop where
  made : ∀ (m : ℕ) id, s.metas m = some id → m < s.made
  one : ∀ m m' id, s.metas m = some id → s.metas m' = some id → m = m'
  pending : ∀ m id, s.metas m = some id → id ∉ s.pendingFrees
  given : ∀ m id, s.metas m = some id → s.Given id
  freed : ∀ id ∈ s.pendingFrees, s.Given id

/-- What is there of a call in progress. -/
structure Fitting (s : Dispatcher ω γ κ η ρ) (f : CallFrame ω γ η) : Prop where
  args : ∀ m ∈ f.args, s.Named m
  results : ∀ m, some (.tensor m) ∈ f.results → m ∈ f.args ∨ ∃ id, s.metas m = some id ∧ some id ∈ f.body.outs
  names : ∀ id ∈ f.body.names, ∃ m ∈ f.args, s.metas m = some id
  outs : ∀ id : ℕ, some id ∈ f.body.outs → id < s.nextId ∧ ¬ s.expected id
  owned : ∀ id, some id ∈ f.body.outs → ∃ m, s.metas m = some id ∧ some (.tensor m) ∈ f.results
  free : ∀ ids, f.body ≠ .free ids

/-- What every step keeps. -/
structure Sound (s : Dispatcher ω γ κ η ρ) : Prop extends Ids s where
  there : ∀ id, s.expected id → s.Given id
  client : s.nextId ≤ serverIdBase
  server : serverIdBase ≤ s.server.nextServerId
  vars : ∀ v m, s.vars.find v = some (.tensor m) → s.Named m
  frames : ∀ th f, s.frames.find th = some f → s.Fitting f
  apart : ∀ th th' f f' id, s.frames.find th = some f → s.frames.find th' = some f' →
    some id ∈ f.body.outs → some id ∈ f'.body.outs → th = th'
  ready : ∀ q e rest, s.queue = q ++ e :: rest → ∀ id ∈ e.2.names, afterAll s.server.state.Has q id
  numbers : (s.server.lastSeq :: (s.queue.map Prod.fst ++ [s.seq + 1])).Pairwise (· < ·)
  idle : s.waiting = none → s.reply = none ∧ ∀ e ∈ s.queue, e.2.waits = false
  busy : s.waiting ≠ none → s.queue = [] ∨
    s.reply = none ∧ ∃ q e, s.queue = q ++ [e] ∧ ∀ e' ∈ q, e'.2.waits = false
  replied : ∀ ds, s.reply = some (.inr (.described ds)) → (ds.filterMap Description.id?).Nodup ∧
    ∀ id : ℕ, id ∈ ds.filterMap Description.id? →
      s.expected id ∧ serverIdBase ≤ id ∧ (∀ m, s.metas m ≠ some id) ∧ id ∉ s.pendingFrees

/-- The messages of two queues, one after the other. -/
theorem afterAll_append (there : TensorId → Prop) (q r : List (ℕ × OpBody ω γ η)) :
    afterAll there (q ++ r) = afterAll (afterAll there q) r := List.foldl_append

/-- What is there afterwards depends on what is there before, and on nothing else. -/
theorem afterAll_congr {there there' : TensorId → Prop} (h : ∀ id, there id ↔ there' id)
    (q : List (ℕ × OpBody ω γ η)) (id : TensorId) : afterAll there q id ↔ afterAll there' q id := by
  rw [funext fun id => propext (h id)]

/-! ### Ids that are given -/

/-- After a tensor has been registered, an id is its own, or one that was there. -/
theorem metas_cases {i : ℕ} (hm : (s.register id).metas m = some i) :
    m = s.made ∧ i = id ∨ m ≠ s.made ∧ s.metas m = some i := by
  by_cases heq : m = s.made
  · subst heq
    exact .inl ⟨rfl, Option.some.inj (hm.symm.trans (Function.update_self _ _ _))⟩
  · exact .inr ⟨heq, (Function.update_of_ne heq _ _).symm.trans hm⟩

/-- A new meta tensor is given an id that nobody has. -/
theorem Ids.register (hs : s.Ids) (hone : ∀ m, s.metas m ≠ some id) (hpending : id ∉ s.pendingFrees)
    (hgiven : s.Given id) : (s.register id).Ids := by
  refine ⟨fun m i hm => ?_, fun m m' i hm hm' => ?_, fun m i hm => ?_, fun m i hm => ?_, hs.freed⟩
  · rcases metas_cases hm with ⟨rfl, -⟩ | ⟨-, hm⟩
    · exact Nat.lt_succ_self _
    · exact Nat.lt_succ_of_lt (hs.made m i hm)
  · rcases metas_cases hm with ⟨rfl, rfl⟩ | ⟨-, hold⟩
    · rcases metas_cases hm' with ⟨rfl, -⟩ | ⟨-, hold'⟩
      · rfl
      · exact absurd hold' (hone m')
    · rcases metas_cases hm' with ⟨-, rfl⟩ | ⟨-, hold'⟩
      · exact absurd hold (hone m)
      · exact hs.one m m' i hold hold'
  · rcases metas_cases hm with ⟨-, rfl⟩ | ⟨-, hm⟩
    · exact hpending
    · exact hs.pending m i hm
  · rcases metas_cases hm with ⟨-, rfl⟩ | ⟨-, hm⟩
    · exact hgiven
    · exact hs.given m i hm

/-- Registering a tensor leaves the ids of the others. -/
theorem Ids.metas_register (hs : s.Ids) {i : TensorId} (hm : s.metas m = some i) :
    (s.register id).metas m = some i := by
  have hne : m ≠ s.made := (hs.made m i hm).ne
  exact (Function.update_of_ne hne _ _).trans hm

/-- Ids are given to the leaves of a result, and nothing else changes. -/
structure Wraps (args : List MetaId) (s t : Dispatcher ω γ κ η ρ) (ids : List (Option TensorId))
    (xs : List (Option (Val η))) : Prop extends Ids t where
  same : t = { s with metas := t.metas, made := t.made, nextId := t.nextId }
  nextId : s.nextId ≤ t.nextId
  kept : ∀ m id, s.metas m = some id → t.metas m = some id
  new : ∀ m (id : ℕ), t.metas m = some id → s.metas m = some id ∨ s.nextId ≤ id ∧ id < t.nextId
  outs : ∀ id : ℕ, some id ∈ ids → s.nextId ≤ id ∧ id < t.nextId
  owned : ∀ id, some id ∈ ids → ∃ m, t.metas m = some id ∧ some (.tensor m) ∈ xs
  results : ∀ m, some (.tensor m) ∈ xs → m ∈ args ∨ ∃ id, t.metas m = some id ∧ some id ∈ ids

/-- The next id is one that nobody has. -/
theorem Ids.register_next (hs : s.Ids) (hroom : s.nextId < serverIdBase) :
    s.registerNext.Ids := by
  have hnew : ¬ s.Given s.nextId := by
    rintro (h | h)
    · exact Nat.lt_irrefl _ h
    · exact Nat.lt_irrefl _ (hroom.trans_le h.1)
  have hmono : ∀ id, s.Given id → Given { s with nextId := s.nextId + 1 } id :=
    fun id h => h.imp_left Nat.lt_succ_of_lt
  have hnext : Ids { s with nextId := s.nextId + 1 } :=
    ⟨hs.made, hs.one, hs.pending, fun m id hm => hmono id (hs.given m id hm),
      fun id hid => hmono id (hs.freed id hid)⟩
  exact hnext.register (fun m hm => hnew (hs.given m _ hm)) (fun hid => hnew (hs.freed _ hid))
    (.inl (Nat.lt_succ_self _))

/-- A leaf that is given no id. -/
theorem Wraps.cons_none {args : List MetaId} {ids : List (Option TensorId)} {xs : List (Option (Val η))}
    (h : Wraps args s t ids xs) {x : Option (Val η)} (hx : ∀ m, x = some (.tensor m) → m ∈ args) :
    Wraps args s t (none :: ids) (x :: xs) where
  toIds := h.toIds
  same := h.same
  nextId := h.nextId
  kept := h.kept
  new := h.new
  outs id hid := h.outs id (by simpa using hid)
  owned id hid := (h.owned id (by simpa using hid)).imp fun _ hm => ⟨hm.1, List.mem_cons_of_mem _ hm.2⟩
  results m hm := by
    rcases List.mem_cons.mp hm with hm | hm
    · exact .inl (hx m hm.symm)
    · exact (h.results m hm).imp_right fun ⟨id, hid, hout⟩ => ⟨id, hid, List.mem_cons_of_mem _ hout⟩

/-- A leaf that is given the next id. -/
theorem Wraps.cons_new {args : List MetaId} {ids : List (Option TensorId)} {xs : List (Option (Val η))} (hs : s.Ids)
    (h : Wraps args s.registerNext t ids xs) :
    Wraps args s t (some s.nextId :: ids) (some (.tensor s.made) :: xs) where
  toIds := h.toIds
  same := h.same
  nextId := (Nat.le_succ _).trans h.nextId
  kept m id hm := h.kept m id (hs.metas_register hm)
  new m id hm := by
    rcases h.new m id hm with hm | ⟨hle, hlt⟩
    · rcases metas_cases (s := s) hm with ⟨-, rfl⟩ | ⟨-, hm⟩
      · exact .inr ⟨Nat.le_refl _, h.nextId⟩
      · exact .inl hm
    · exact .inr ⟨(Nat.le_succ _).trans hle, hlt⟩
  outs id hid := by
    rcases List.mem_cons.mp hid with hid | hid
    · obtain rfl := Option.some.inj hid
      exact ⟨Nat.le_refl _, h.nextId⟩
    · obtain ⟨hle, hlt⟩ := h.outs id hid
      exact ⟨(Nat.le_succ _).trans hle, hlt⟩
  owned id hid := by
    rcases List.mem_cons.mp hid with hid | hid
    · obtain rfl := Option.some.inj hid
      exact ⟨s.made, h.kept _ _ (Function.update_self _ _ _), List.mem_cons_self⟩
    · exact (h.owned id hid).imp fun _ hm => ⟨hm.1, List.mem_cons_of_mem _ hm.2⟩
  results m hm := by
    rcases List.mem_cons.mp hm with hm | hm
    · obtain rfl := Val.tensor.inj (Option.some.inj hm)
      exact .inr ⟨s.nextId, h.kept _ _ (Function.update_self _ _ _), List.mem_cons_self⟩
    · exact (h.results m hm).imp_right fun ⟨id, hid, hout⟩ => ⟨id, hid, List.mem_cons_of_mem _ hout⟩

/-- **Wrapping the results** registers each new one under an id that nobody has had, and the others
under the ids of their arguments. -/
theorem wraps (args : List MetaId) (leaves : List (Leaf η)) (hs : s.Ids)
    (hroom : s.nextId + leaves.length ≤ serverIdBase) :
    Wraps args s (wrapOutputs args s leaves).1 (wrapOutputs args s leaves).2.1 (wrapOutputs args s leaves).2.2 ∧
      (wrapOutputs args s leaves).1.nextId ≤ s.nextId + leaves.length := by
  induction leaves generalizing s with
  | nil => exact ⟨⟨hs, rfl, Nat.le_refl _, fun _ _ h => h, fun _ _ => .inl, nofun, nofun, nofun⟩, Nat.le_refl _⟩
  | cons leaf leaves ih =>
      rw [List.length_cons] at hroom ⊢
      cases leaf with
      | new =>
          have hroom' : s.registerNext.nextId + leaves.length ≤ serverIdBase := by
            change s.nextId + 1 + leaves.length ≤ serverIdBase
            omega
          obtain ⟨h, hle⟩ := ih (hs.register_next (by omega)) hroom'
          refine ⟨.cons_new hs h, ?_⟩
          change (wrapOutputs args s.registerNext leaves).1.nextId ≤ _
          change _ ≤ s.nextId + 1 + leaves.length at hle
          omega
      | input i =>
          obtain ⟨h, hle⟩ := ih hs (by omega)
          refine ⟨h.cons_none fun m hm => ?_, hle.trans (Nat.le_succ _)⟩
          obtain ⟨m', hm', heq⟩ := Option.map_eq_some_iff.mp hm
          obtain rfl := Val.tensor.inj heq
          exact List.mem_of_getElem? hm'
      | plain x =>
          obtain ⟨h, hle⟩ := ih hs (by omega)
          exact ⟨h.cons_none nofun, hle.trans (Nat.le_succ _)⟩
      | none =>
          obtain ⟨h, hle⟩ := ih hs (by omega)
          exact ⟨h.cons_none nofun, hle.trans (Nat.le_succ _)⟩

/-- The tensors of a reply are given the ids that are in it, and nothing else changes. -/
structure Receives (s t : Dispatcher ω γ κ η ρ) (new : List ℕ) (xs : List (Option (Val η))) : Prop extends Ids t where
  same : t = { s with metas := t.metas, made := t.made }
  kept : ∀ m id, s.metas m = some id → t.metas m = some id
  results : ∀ m, some (.tensor m) ∈ xs → ∃ id, t.metas m = some id ∧ id ∈ new
  owned : ∀ id ∈ new, ∃ m, t.metas m = some id

/-- **Receiving a description** registers each tensor under the id that the server has chosen. -/
theorem receives (ds : List (Description η)) (hs : s.Ids) (hnodup : (ds.filterMap Description.id?).Nodup)
    (hnew : ∀ id ∈ ds.filterMap Description.id?,
      (∀ m, s.metas m ≠ some id) ∧ id ∉ s.pendingFrees ∧ s.Given id) :
    Receives s (rebuild s ds).1 (ds.filterMap Description.id?) (rebuild s ds).2 := by
  induction ds generalizing s with
  | nil => exact ⟨hs, rfl, fun _ _ h => h, nofun, nofun⟩
  | cons d ds ih =>
      -- a leaf that is no tensor is registered under nothing
      have hquiet : ∀ x : Option (Val η), (∀ m, x ≠ some (.tensor m)) → d.id? = none →
          Receives s (rebuild s ds).1 ((d :: ds).filterMap Description.id?) (x :: (rebuild s ds).2) := by
        intro x hx hd
        rw [List.filterMap_cons_none hd] at hnodup hnew ⊢
        have h := ih hs hnodup hnew
        refine ⟨h.toIds, h.same, h.kept, fun m hm => ?_, h.owned⟩
        rcases List.mem_cons.mp hm with hm | hm
        · exact absurd hm.symm (hx m)
        · exact h.results m hm
      cases d with
      | plain x => exact hquiet _ nofun rfl
      | none => exact hquiet _ nofun rfl
      | tensor id layout =>
          have hid : (Description.tensor id layout).id? = some id := rfl
          rw [List.filterMap_cons_some hid] at hnodup hnew ⊢
          obtain ⟨hnotin, hnodup⟩ := List.nodup_cons.mp hnodup
          obtain ⟨hone, hpending, hgiven⟩ := hnew id List.mem_cons_self
          -- the ids of the rest are not the one that is registered first
          have h := ih (hs.register hone hpending hgiven) hnodup fun i hi => by
            obtain ⟨hone', hpending', hgiven'⟩ := hnew i (List.mem_cons_of_mem _ hi)
            refine ⟨fun m hm => ?_, hpending', hgiven'⟩
            rcases metas_cases hm with ⟨-, rfl⟩ | ⟨-, hm⟩
            · exact hnotin hi
            · exact hone' m hm
          have hmade : (rebuild (s.register id) ds).1.metas s.made = some id :=
            h.kept _ _ (Function.update_self _ _ _)
          refine ⟨h.toIds, h.same, fun m i hm => h.kept m i (hs.metas_register hm), fun m hm => ?_, fun i hi => ?_⟩
          · rcases List.mem_cons.mp hm with hm | hm
            · obtain rfl := Val.tensor.inj (Option.some.inj hm)
              exact ⟨id, hmade, List.mem_cons_self⟩
            · exact (h.results m hm).imp fun _ ⟨hid, hmem⟩ => ⟨hid, List.mem_cons_of_mem _ hmem⟩
          · rcases List.mem_cons.mp hi with rfl | hi
            · exact ⟨s.made, hmade⟩
            · exact h.owned i hi

/-- What is made ready for a call. -/
structure Prepares (ms : List MetaId) (s t : Dispatcher ω γ κ η ρ) (body : OpBody ω γ η)
    (xs : List (Option (Val η))) : Prop extends Ids t where
  same : t = { s with metas := t.metas, made := t.made, nextId := t.nextId, nextGraph := t.nextGraph }
  nextId : s.nextId ≤ t.nextId
  room : t.nextId ≤ serverIdBase
  kept : ∀ m id, s.metas m = some id → t.metas m = some id
  new : ∀ m (id : ℕ), t.metas m = some id → s.metas m = some id ∨ s.nextId ≤ id ∧ id < t.nextId
  outs : ∀ id : ℕ, some id ∈ body.outs → s.nextId ≤ id ∧ id < t.nextId
  owned : ∀ id, some id ∈ body.outs → ∃ m, t.metas m = some id ∧ some (.tensor m) ∈ xs
  results : ∀ m, some (.tensor m) ∈ xs → m ∈ ms ∨ ∃ id, t.metas m = some id ∧ some id ∈ body.outs
  names : ∀ id ∈ body.names, ∃ m ∈ ms, t.metas m = some id
  free : ∀ ids, body ≠ .free ids

/-- The ids of some tensors are those of each. -/
theorem mem_idsOf {ms : List MetaId} : id ∈ s.idsOf ms ↔ ∃ m ∈ ms, s.metas m = some id := List.mem_filterMap

/-- A message for which nothing is made. -/
theorem Prepares.of_plain {ms : List MetaId} {body : OpBody ω γ η} (n : ℕ) (hs : s.Ids)
    (hroom : s.nextId ≤ serverIdBase)
    (houts : body.outs = []) (hnames : ∀ id ∈ body.names, ∃ m ∈ ms, s.metas m = some id)
    (hfree : ∀ ids, body ≠ .free ids) :
    Prepares ms s { s with nextGraph := n } body [] where
  made := hs.made
  one := hs.one
  pending := hs.pending
  given := hs.given
  freed := hs.freed
  same := rfl
  nextId := Nat.le_refl _
  room := hroom
  kept _ _ h := h
  new _ _ := .inl
  outs id hid := by rw [houts] at hid; cases hid
  owned id hid := by rw [houts] at hid; cases hid
  results _ h := by cases h
  names := hnames
  free := hfree

/-- A message whose results have been given ids. -/
theorem Wraps.prepares {ms : List MetaId} {body : OpBody ω γ η} {ids : List (Option TensorId)}
    {xs : List (Option (Val η))} (h : Wraps ms s t ids xs) (hroom : t.nextId ≤ serverIdBase) (houts : body.outs = ids)
    (hnames : ∀ id ∈ body.names, ∃ m ∈ ms, t.metas m = some id) (hfree : ∀ ids, body ≠ .free ids) :
    Prepares ms s t body xs := by
  subst houts
  have hgraph : t.nextGraph = s.nextGraph := by rw [h.same]
  refine ⟨h.toIds, ?_, h.nextId, hroom, h.kept, h.new, h.outs, h.owned, h.results, hnames, hfree⟩
  rw [hgraph]
  exact h.same

/-- **Preparing a call** names the ids of its arguments, and registers its results. -/
theorem prepares {job : Job ω γ η} {ms : List MetaId} {leaves : List (Leaf η)} {body : OpBody ω γ η}
    {xs : List (Option (Val η))} (hs : s.Ids) (hroom : s.nextId + leaves.length ≤ serverIdBase)
    (h : s.prepare job ms leaves = some (t, body, xs)) : Prepares ms s t body xs := by
  have hroom' : s.nextId ≤ serverIdBase := (Nat.le_add_right _ _).trans hroom
  -- a message about one tensor
  have hsingle : ∀ {m : MetaId} {id : ℕ}, s.metas m = some id → ∀ i ∈ [id], ∃ m' ∈ [m], s.metas m' = some i := by
    intro m id hid i hi
    obtain rfl := List.mem_singleton.mp hi
    exact ⟨m, List.mem_cons_self, hid⟩
  obtain ⟨hw, hle⟩ := wraps ms leaves hs hroom
  unfold prepare at h
  split at h
  · cases h
    exact hw.prepares (hle.trans hroom) rfl (fun id hid => mem_idsOf.mp hid) nofun
  · split at h
    · cases h
      exact hw.prepares (hle.trans hroom) rfl (fun id hid => mem_idsOf.mp hid) nofun
    · cases h
  · obtain ⟨id, hid, heq⟩ := Option.map_eq_some_iff.mp h
    cases heq
    exact .of_plain s.nextGraph hs hroom' rfl (hsingle hid) nofun
  · cases h
    exact .of_plain s.nextGraph hs hroom' rfl nofun nofun
  · cases h
    exact .of_plain (s.nextGraph + 1) hs hroom' rfl nofun nofun
  · cases h
    exact .of_plain s.nextGraph hs hroom' rfl (fun id hid => mem_idsOf.mp hid) nofun
  · obtain ⟨id, hid, heq⟩ := Option.map_eq_some_iff.mp h
    cases heq
    exact .of_plain s.nextGraph hs hroom' rfl (hsingle hid) nofun
  · cases h
    exact .of_plain s.nextGraph hs hroom' rfl nofun nofun
  · cases h

/-! ### Steps of the process -/

/-- A call in progress is as it was where nobody has been given an id. -/
theorem Fitting.of_same {f : CallFrame ω γ η} (hf : s.Fitting f) (hmetas : t.metas = s.metas)
    (hnext : s.nextId ≤ t.nextId) (hkeep : ∀ id, s.expected id → t.expected id)
    (hnew : ∀ id : ℕ, t.expected id → s.expected id ∨ some id ∉ f.body.outs) : t.Fitting f where
  args m hm := by
    obtain ⟨id, hid, hthere⟩ := hf.args m hm
    exact ⟨id, by rwa [hmetas], hkeep id hthere⟩
  results m hm := by
    rw [hmetas]
    exact hf.results m hm
  names id hid := by
    rw [hmetas]
    exact hf.names id hid
  outs id hid := by
    obtain ⟨hlt, hnot⟩ := hf.outs id hid
    exact ⟨hlt.trans_le hnext, fun hthere => (hnew id hthere).elim hnot fun hout => hout hid⟩
  owned id hid := by
    rw [hmetas]
    exact hf.owned id hid
  free := hf.free

/-- Ids are given: what is there stays as it is. -/
theorem Sound.extend (hs : s.Sound) (ht : t.Ids)
    (hsame : t = { s with metas := t.metas, made := t.made, nextId := t.nextId, nextGraph := t.nextGraph })
    (hnext : s.nextId ≤ t.nextId) (hroom : t.nextId ≤ serverIdBase)
    (hkept : ∀ m id, s.metas m = some id → t.metas m = some id)
    (hnew : ∀ ds, s.reply = some (.inr (.described ds)) → ∀ m (id : ℕ), t.metas m = some id →
      s.metas m = some id ∨ id < serverIdBase) : t.Sound := by
  rw [hsame] at ht ⊢
  have hnamed : ∀ m, s.Named m → Named { s with
      metas := t.metas, made := t.made, nextId := t.nextId, nextGraph := t.nextGraph } m :=
    fun m ⟨id, hid, hthere⟩ => ⟨id, hkept m id hid, hthere⟩
  refine ⟨ht, fun id hid => (hs.there id hid).imp_left fun h => Nat.lt_of_lt_of_le h hnext, hroom, hs.server,
    fun v m hv => hnamed m (hs.vars v m hv), fun th f hf => ?_, hs.apart, hs.ready, hs.numbers, hs.idle, hs.busy,
    fun ds hds => ?_⟩
  · have hfit := hs.frames th f hf
    refine ⟨fun m hm => hnamed m (hfit.args m hm), fun m hm => ?_, fun id hid => ?_, fun id hid => ?_,
      fun id hid => ?_, hfit.free⟩
    · exact (hfit.results m hm).imp_right fun ⟨id, hid, hout⟩ => ⟨id, hkept m id hid, hout⟩
    · exact (hfit.names id hid).imp fun m ⟨hm, hid⟩ => ⟨hm, hkept m id hid⟩
    · exact ⟨(hfit.outs id hid).1.trans_le hnext, (hfit.outs id hid).2⟩
    · exact (hfit.owned id hid).imp fun m ⟨hid, hm⟩ => ⟨hkept m id hid, hm⟩
  · obtain ⟨hnodup, hids⟩ := hs.replied ds hds
    refine ⟨hnodup, fun id hid => ?_⟩
    obtain ⟨hthere, hbase, hone, hpending⟩ := hids id hid
    refine ⟨hthere, hbase, fun m hm => ?_, hpending⟩
    rcases hnew ds hds m id hm with hold | hlt
    · exact hone m hold
    · omega

/-- Variables may be set to tensors that have an id. -/
theorem Sound.setVars (hs : s.Sound) (vars : Table Var (Val η))
    (h : ∀ v m, vars.find v = some (.tensor m) → s.Named m) : Sound { s with vars := vars } :=
  { hs with
    vars := h
    frames := fun th f hf => (hs.frames th f hf).of_same rfl (Nat.le_refl _) (fun _ => id) fun _ => .inl }

/-- What the invariant does not speak of. -/
theorem Sound.setRest (hs : s.Sound) (compiled : List ℕ) (told : List (Told η)) :
    Sound { s with compiled := compiled, told := told } :=
  { hs with frames := fun th f hf => (hs.frames th f hf).of_same rfl (Nat.le_refl _) (fun _ => id) fun _ => .inl }

/-- The calls under way may be others that fit, with results apart. -/
theorem Sound.setFrames (hs : s.Sound) {frames : Table ThreadNo (CallFrame ω γ η)}
    (h : ∀ th f, frames.find th = some f → s.Fitting f)
    (hapart : ∀ th th' f f' id, frames.find th = some f → frames.find th' = some f' →
      some id ∈ f.body.outs → some id ∈ f'.body.outs → th = th') : Sound { s with frames := frames } :=
  { hs with
    frames := fun th f hf => (h th f hf).of_same rfl (Nat.le_refl _) (fun _ => id) fun _ => .inl
    apart := hapart }

/-- A call may end. -/
theorem Sound.eraseFrame (hs : s.Sound) (th : ThreadNo) : Sound { s with frames := s.frames.erase th } := by
  have hfind : ∀ th' f, (s.frames.erase th).find th' = some f → s.frames.find th' = some f := by
    intro th' f hf
    rw [Table.find_erase] at hf
    split at hf
    · cases hf
    · exact hf
  exact hs.setFrames (fun th' f hf => hs.frames th' f (hfind th' f hf)) fun th₁ th₂ f f' id hf hf' =>
    hs.apart th₁ th₂ f f' id (hfind _ _ hf) (hfind _ _ hf')

/-- A call may begin. -/
theorem Sound.insertFrame (hs : s.Sound) {th : ThreadNo} {f : CallFrame ω γ η} (hf : s.Fitting f)
    (hapart : ∀ th' f' id, s.frames.find th' = some f' → some id ∈ f.body.outs → some id ∉ f'.body.outs) :
    Sound { s with frames := s.frames.insert th f } := by
  refine hs.setFrames (fun th' f' hf' => ?_) fun th₁ th₂ f₁ f₂ id h₁ h₂ hid₁ hid₂ => ?_
  · rw [Table.find_insert] at hf'
    split at hf'
    · obtain rfl := Option.some.inj hf'
      exact hf
    · exact hs.frames th' f' hf'
  · rw [Table.find_insert] at h₁ h₂
    split at h₁ <;> split at h₂
    · rename_i heq₁ heq₂
      exact heq₁.trans heq₂.symm
    · obtain rfl := Option.some.inj h₁
      exact absurd hid₂ (hapart th₂ f₂ id h₂ hid₁)
    · obtain rfl := Option.some.inj h₂
      exact absurd hid₁ (hapart th₁ f₁ id h₁ hid₂)
    · exact hs.apart th₁ th₂ f₁ f₂ id h₁ h₂ hid₁ hid₂

/-- The arguments of a call are tensors of variables. -/
theorem resolve_mem {args : List Var} {ms : List MetaId} (h : s.resolve args = some ms) :
    ∀ m ∈ ms, ∃ v, s.vars.find v = some (.tensor m) := by
  induction args generalizing ms with
  | nil =>
      cases h
      exact nofun
  | cons v args ih =>
      rw [resolve] at h
      split at h
      · rename_i m ms' hv hrest
        cases h
        intro m' hm'
        rcases List.mem_cons.mp hm' with rfl | hm'
        · exact ⟨v, hv⟩
        · exact ih hrest m' hm'
      · cases h

/-- A variable has what it had, or what it was assigned. -/
theorem find_assignAll {vars : Table Var (Val η)} {l : List (Var × Option (Val η))} {v : Var} {x : Val η}
    (h : (assignAll vars l).find v = some x) : vars.find v = some x ∨ some x ∈ l.map Prod.snd := by
  induction l generalizing vars with
  | nil => exact .inl h
  | cons p l ih =>
      rw [List.map_cons, List.mem_cons]
      obtain ⟨w, _ | y⟩ := p
      · rcases ih h with h | h
        · rw [Table.find_erase] at h
          split at h
          · cases h
          · exact .inl h
        · exact .inr (.inr h)
      · rcases ih h with h | h
        · rw [Table.find_insert] at h
          split at h
          · exact .inr (.inl h.symm)
          · exact .inl h
        · exact .inr (.inr h)

/-- What is assigned is a result. -/
theorem mem_of_mem_zip {l : List Var} {xs : List (Option (Val η))} {x : Option (Val η)}
    (h : x ∈ (l.zip xs).map Prod.snd) : x ∈ xs := by
  obtain ⟨p, hp, rfl⟩ := List.mem_map.mp h
  exact (List.of_mem_zip hp).2

/-- A call starts: its message is prepared, and not yet queued. -/
theorem Sound.start (hs : s.Sound) {job : Job ω γ η} {args : List Var} {leaves : List (Leaf η)}
    {ms : List MetaId} {body : OpBody ω γ η} {xs : List (Option (Val η))} (hms : s.resolve args = some ms)
    (hroom : s.nextId + leaves.length ≤ serverIdBase) (h : s.prepare job ms leaves = some (t, body, xs))
    (th : ThreadNo) (targets : List Var) : Sound { t with frames := t.frames.insert th ⟨body, ms, xs, targets⟩ } := by
  have hp := prepares hs.toIds hroom h
  have ht : t.Sound := hs.extend hp.toIds hp.same hp.nextId hp.room hp.kept fun _ _ m id hm =>
    (hp.new m id hm).imp_right fun h => h.2.trans_le hp.room
  have hexpected : t.expected = s.expected := by rw [hp.same]; rfl
  have hframes : t.frames = s.frames := by rw [hp.same]
  refine ht.insertFrame ⟨fun m hm => ?_, hp.results, hp.names, fun id hid => ?_, hp.owned, hp.free⟩
    fun th' f' id hf' hid hid' => ?_
  · obtain ⟨v, hv⟩ := resolve_mem hms m hm
    obtain ⟨id, hid, hthere⟩ := hs.vars v m hv
    exact ⟨id, hp.kept m id hid, by rwa [hexpected]⟩
  · obtain ⟨hle, hlt⟩ := hp.outs id hid
    refine ⟨hlt, fun hthere => ?_⟩
    rw [hexpected] at hthere
    have hroom' := hp.room
    rcases hs.there id hthere with h | h
    · omega
    · omega
  · rw [hframes] at hf'
    exact absurd ((hs.frames th' f' hf').outs id hid').1 (Nat.not_lt.mpr (hp.outs id hid).1)

/-- A message is queued, and waited for if it is one of those. -/
theorem Sound.push (hs : s.Sound) {b : OpBody ω γ η} {w : Option ThreadNo} (hwaiting : s.waiting = none)
    (hw : b.waits = true ↔ w ≠ none) (hnames : ∀ id ∈ b.names, s.expected id)
    (houts : ∀ id : ℕ, some id ∈ b.outs → id < s.nextId)
    (hkeep : ∀ m id, s.metas m = some id → s.expected id → b.after s.expected id)
    (hthere : ∀ id, b.after s.expected id → s.expected id ∨ some id ∈ b.outs)
    (hapart : ∀ th f id, s.frames.find th = some f → some id ∈ f.body.outs → some id ∉ b.outs) :
    Sound { s.push b with waiting := w } := by
  have hexpected : (s.push b).expected = b.after s.expected := by
    change afterAll _ (s.queue ++ [_]) = _
    rw [afterAll_append]
    rfl
  obtain ⟨hreply, hquiet⟩ := hs.idle hwaiting
  have hnamed : ∀ m, s.Named m → Named { s.push b with waiting := w } m := fun m ⟨id, hid, hold⟩ =>
    ⟨id, hid, show (s.push b).expected id by rw [hexpected]; exact hkeep m id hid hold⟩
  refine ⟨⟨hs.made, hs.one, hs.pending, hs.given, hs.freed⟩, fun id hid => ?_, hs.client, hs.server,
    fun v m hv => hnamed m (hs.vars v m hv), fun th f hf => ?_, hs.apart, fun q e rest hq id hid => ?_, ?_,
    fun hnone => ?_, fun hsome => ?_, fun ds hds => ?_⟩
  · change (s.push b).expected id at hid
    rw [hexpected] at hid
    rcases hthere id hid with hold | hout
    · exact hs.there id hold
    · exact .inl (houts id hout)
  · have hfit := hs.frames th f hf
    refine ⟨fun m hm => hnamed m (hfit.args m hm), hfit.results, hfit.names, fun id hid => ?_, hfit.owned, hfit.free⟩
    refine ⟨(hfit.outs id hid).1, fun hnow => ?_⟩
    change (s.push b).expected id at hnow
    rw [hexpected] at hnow
    rcases hthere id hnow with hold | hout
    · exact (hfit.outs id hid).2 hold
    · exact hapart th f id hf hid hout
  · change s.queue ++ [(s.seq + 1, b)] = q ++ e :: rest at hq
    -- the message that is queued, or one that was queued before
    rcases List.eq_nil_or_concat rest with rfl | ⟨rest', e', rfl⟩
    · obtain ⟨rfl, he⟩ := List.append_inj' hq rfl
      obtain rfl := List.cons.inj he |>.1
      exact hnames id hid
    · rw [List.concat_eq_append, ← List.cons_append, ← List.append_assoc] at hq
      obtain ⟨hq, -⟩ := List.append_inj' hq rfl
      exact hs.ready q e rest' hq id hid
  · have hnumbers := hs.numbers
    change (_ :: ((s.queue ++ [(s.seq + 1, b)]).map Prod.fst ++ [s.seq + 1 + 1])).Pairwise (· < ·)
    rw [List.map_append, List.map_singleton, ← List.cons_append, List.pairwise_append]
    refine ⟨hnumbers, List.pairwise_singleton _ _, fun n hn k hk => ?_⟩
    obtain rfl := List.mem_singleton.mp hk
    rw [← List.cons_append] at hn hnumbers
    rcases List.mem_append.mp hn with hn | hn
    · have := (List.pairwise_append.mp hnumbers).2.2 n hn (s.seq + 1) List.mem_cons_self
      omega
    · obtain rfl := List.mem_singleton.mp hn
      omega
  · have hquietb : b.waits = false := by
      rw [← Bool.not_eq_true, hw]
      exact fun h => h hnone
    refine ⟨hreply, fun e he => ?_⟩
    rcases List.mem_append.mp he with he | he
    · exact hquiet e he
    · obtain rfl := List.mem_singleton.mp he
      exact hquietb
  · exact .inr ⟨hreply, s.queue, _, rfl, hquiet⟩
  · change s.reply = _ at hds
    rw [hreply] at hds
    cases hds

/-- The ids of collected tensors are freed: nothing that is there has one of them. -/
theorem Sound.queueFrees (hs : s.Sound) (hwaiting : s.waiting = none) : s.queueFrees.Sound := by
  unfold Dispatcher.queueFrees
  split
  · exact hs
  · have h := hs.push (b := .free s.pendingFrees) (w := s.waiting) hwaiting
      (iff_of_false Bool.false_ne_true (not_not.mpr hwaiting)) nofun nofun
      (fun m id hm hthere => ⟨hthere, hs.pending m id hm⟩) (fun id hid => .inl hid.1) fun _ _ _ _ _ => nofun
    exact { h with
      pending := fun _ _ _ => List.not_mem_nil
      freed := fun _ hid => by cases hid
      frames := fun th f hf => (h.frames th f hf).of_same rfl (Nat.le_refl _) (fun _ => id) fun _ => .inl
      replied := fun ds hds => by
        obtain ⟨hnodup, hids⟩ := h.replied ds hds
        exact ⟨hnodup, fun id hid => ⟨(hids id hid).1, (hids id hid).2.1, (hids id hid).2.2.1, List.not_mem_nil⟩⟩ }

/-- Queueing the frees changes the queue, the numbers and what is pending, and nothing else. -/
theorem queueFrees_same (s : Dispatcher ω γ κ η ρ) :
    s.queueFrees = { s with
      pendingFrees := s.queueFrees.pendingFrees, seq := s.queueFrees.seq, queue := s.queueFrees.queue } := by
  unfold Dispatcher.queueFrees
  split <;> rfl

/-- A message that frees nothing adds its results to what is there. -/
theorem after_outs {b : OpBody ω γ η} (hfree : ∀ ids, b ≠ .free ids) (there : TensorId → Prop) (id : TensorId) :
    b.after there id ↔ there id ∨ some id ∈ b.outs := by
  cases b with
  | free ids => exact absurd rfl (hfree ids)
  | run | call => exact Iff.rfl
  | upload | seed | compile | runSync | download | sync | ack | unknown => simp [OpBody.after, OpBody.outs]

/-- A message that is waited for has no ids of the client's choosing. -/
theorem outs_of_waits {b : OpBody ω γ η} (h : b.waits = true) : b.outs = [] := by
  cases b <;> first | rfl | cases h

/-- A call queues its message, behind the frees. -/
theorem Sound.send (hs : s.Sound) {th : ThreadNo} {f : CallFrame ω γ η} (hf : s.frames.find th = some f)
    (hwaiting : s.waiting = none) :
    if f.body.waits then Sound { s.queueFrees.push f.body with waiting := some th }
    else Sound { s.queueFrees.push f.body with
      frames := s.queueFrees.frames.erase th
      vars := assignAll s.queueFrees.vars (f.targets.zip f.results)
      compiled := f.body.compiles ++ s.queueFrees.compiled } := by
  have hq := hs.queueFrees hwaiting
  have hf' : s.queueFrees.frames.find th = some f := by rwa [queueFrees_same]
  have hwaiting' : s.queueFrees.waiting = none := by rwa [queueFrees_same]
  generalize s.queueFrees = q at hq hf' hwaiting'
  have hfit := hq.frames th f hf'
  -- what the message names are its arguments, which are held until it is queued
  have hnames : ∀ id ∈ f.body.names, q.expected id := by
    intro id hid
    obtain ⟨m, hm, hmid⟩ := hfit.names id hid
    obtain ⟨id', hmid', hthere⟩ := hfit.args m hm
    obtain rfl := Option.some.inj (hmid.symm.trans hmid')
    exact hthere
  have hthere := fun id => (after_outs hfit.free q.expected id).mp
  have hkeep : ∀ m id, q.metas m = some id → q.expected id → f.body.after q.expected id :=
    fun _ id _ h => (after_outs hfit.free q.expected id).mpr (.inl h)
  split
  · rename_i hwaits
    exact hq.push hwaiting' (iff_of_true hwaits (Option.some_ne_none th)) hnames (fun id hid => (hfit.outs id hid).1)
      hkeep hthere fun _ _ _ _ _ => by rw [outs_of_waits hwaits]; exact List.not_mem_nil
  · rename_i hwaits
    -- the call returns: its results go to variables, and its frame is gone
    have hpush := (hq.eraseFrame th).push (b := f.body) (w := q.waiting) hwaiting'
      (by simp [hwaits, hwaiting']) hnames
      (fun id hid => (hfit.outs id hid).1) hkeep hthere fun th' f' id hf₁ hid hid' => by
        change (q.frames.erase th).find th' = some f' at hf₁
        rw [Table.find_erase] at hf₁
        split at hf₁
        · cases hf₁
        · rename_i hne
          exact hne (hq.apart th' th f' f id hf₁ hf' hid hid')
    have hexpected : (q.push f.body).expected = f.body.after q.expected := by
      change afterAll _ (q.queue ++ [_]) = _
      rw [afterAll_append]
      rfl
    have hold : ∀ m, q.Named m → (q.push f.body).Named m := by
      rintro m ⟨id, hid, hthere⟩
      exact ⟨id, hid, by rw [hexpected, after_outs hfit.free]; exact .inl hthere⟩
    refine (hpush.setVars (assignAll q.vars (f.targets.zip f.results)) fun v m hv => ?_).setRest _ _
    rcases find_assignAll hv with hv | hx
    · exact hold m (hq.vars v m hv)
    · rcases hfit.results m (mem_of_mem_zip hx) with hm | ⟨id, hid, hout⟩
      · exact hold m (hfit.args m hm)
      · refine ⟨id, hid, ?_⟩
        change (q.push f.body).expected id
        rw [hexpected, after_outs hfit.free]
        exact .inr hout

/-! ### The session, and its replies -/

/-- What is waited for is the last that is queued. -/
theorem Sound.last_waits (hs : s.Sound) {e : ℕ × OpBody ω γ η} {rest : List (ℕ × OpBody ω γ η)}
    (hq : s.queue = e :: rest) (hwaits : e.2.waits = true) : rest = [] ∧ s.reply = none := by
  have hbusy : s.waiting ≠ none := by
    intro hnone
    have h := (hs.idle hnone).2 e (by rw [hq]; exact List.mem_cons_self)
    rw [h] at hwaits
    cases hwaits
  rcases hs.busy hbusy with hnil | ⟨hreply, q, e', hqe, hquiet⟩
  · rw [hq] at hnil
    cases hnil
  · refine ⟨?_, hreply⟩
    rw [hq] at hqe
    cases q with
    | nil => exact (List.cons.inj hqe).2
    | cons e'' q =>
        obtain ⟨rfl, -⟩ := List.cons.inj hqe
        rw [hquiet e List.mem_cons_self] at hwaits
        cases hwaits

/-- Whatever the session makes of a message, it has the ids that it is expected to have. -/
theorem afterAll_does {t : Torch ω γ κ η ρ} {st : TorchState κ η ρ} {b : OpBody ω γ η} {next : TensorId}
    {x : TorchSession γ κ η ρ} {r : Option (Poison ⊕ OpAnswer η)} {new : List TensorId}
    (hdoes : TorchSession.Does t b st next x r new) {q : List (ℕ × OpBody ω γ η)}
    (hlast : b.waits = true → q = []) (id : TensorId) :
    afterAll x.state.Has q id ↔ afterAll (b.after st.Has) q id ∨ id ∈ new := by
  by_cases hwaits : b.waits = true
  · rw [hlast hwaits]
    exact hdoes.has id
  · obtain ⟨-, rfl⟩ := hdoes.quiet (by simpa using hwaits)
    simp only [List.not_mem_nil, or_false]
    exact afterAll_congr (fun i => by simpa using hdoes.has i) q id

/-- The message at the head of the queue is one the session has not executed. -/
theorem Sound.before (hs : s.Sound) {n : ℕ} {b : OpBody ω γ η} {rest : List (ℕ × OpBody ω γ η)}
    (hq : s.queue = (n, b) :: rest) : s.server.lastSeq < n := by
  have h := hs.numbers
  rw [hq] at h
  exact (List.pairwise_cons.mp h).1 n List.mem_cons_self

/-- What becomes of the ids when the session executes the next message. -/
theorem Sound.executed (hs : s.Sound) {t : Torch ω γ κ η ρ} {n : ℕ} {b : OpBody ω γ η}
    {rest : List (ℕ × OpBody ω γ η)} (hq : s.queue = (n, b) :: rest) (hdelivers : s.server.Delivers t n b)
    (fate : Fate κ) : ∃ new,
      TorchSession.Does t b s.server.state s.server.nextServerId (s.server.execute t n b fate).1
        (s.server.execute t n b fate).2 new ∧
      ∀ id, afterAll (s.server.execute t n b fate).1.state.Has rest id ↔ s.expected id ∨ id ∈ new := by
  obtain ⟨new, hdoes⟩ := TorchSession.does_execute fate (hs.before hq) (hs.ready [] _ rest hq) hdelivers
  refine ⟨new, hdoes, fun id => ?_⟩
  rw [afterAll_does hdoes fun h => (hs.last_waits hq h).1]
  unfold expected
  rw [hq]
  rfl

/-- **The session executes the next message.** -/
theorem Sound.execute (hs : s.Sound) {t : Torch ω γ κ η ρ} {n : ℕ} {b : OpBody ω γ η}
    {rest : List (ℕ × OpBody ω γ η)} (hq : s.queue = (n, b) :: rest) (hdelivers : s.server.Delivers t n b)
    (fate : Fate κ) : Sound { s with
      server := (s.server.execute t n b fate).1
      queue := rest
      reply := s.reply.or (s.server.execute t n b fate).2 } := by
  obtain ⟨new, hdoes, hexpected⟩ := hs.executed hq hdelivers fate
  have hseq : (s.server.execute t n b fate).1.lastSeq = n := TorchSession.execute_lastSeq (hs.before hq)
  have hlast := hs.last_waits hq
  generalize (s.server.execute t n b fate).1 = x at hdoes hexpected hseq ⊢
  generalize (s.server.execute t n b fate).2 = r at hdoes ⊢
  -- the ids that the session chose are new: the client's are below them, and its own go up
  have hnot : ∀ id : ℕ, id ∈ new → ¬ s.Given id := by
    intro id hid
    have hle := (hdoes.range id hid).1
    rintro (h | h)
    · exact Nat.lt_irrefl _ ((h.trans_le hs.client).trans_le (hs.server.trans hle))
    · exact absurd h.2 (Nat.not_lt.mpr hle)
  have hgiven : ∀ id : ℕ, s.Given id → id < s.nextId ∨ serverIdBase ≤ id ∧ id < x.nextServerId :=
    fun id h => h.imp_right fun h => ⟨h.1, h.2.trans_le hdoes.next⟩
  have hold : ∀ id, s.expected id → afterAll x.state.Has rest id := fun id h => (hexpected id).mpr (.inl h)
  refine ⟨⟨hs.made, hs.one, hs.pending, fun m id hm => hgiven id (hs.given m id hm), fun id hid =>
    hgiven id (hs.freed id hid)⟩, fun id hid => ?_, hs.client, hs.server.trans hdoes.next, fun v m hv => ?_,
    fun th f hf => ?_, hs.apart, fun q e rest' hrest id hid => ?_, ?_, fun hnone => ?_, fun hsome => ?_,
    fun ds hds => ?_⟩
  · rcases (hexpected id).mp hid with h | h
    · exact hgiven id (hs.there id h)
    · exact .inr ⟨hs.server.trans (hdoes.range id h).1, (hdoes.range id h).2⟩
  · obtain ⟨id, hid, hthere⟩ := hs.vars v m hv
    exact ⟨id, hid, hold id hthere⟩
  · refine (hs.frames th f hf).of_same rfl (Nat.le_refl _) hold fun id hid => ((hexpected id).mp hid).imp_right
      fun h hout => hnot id h (.inl ((hs.frames th f hf).outs id hout).1)
  · -- a message that is waited for is the last of the queue
    have hquiet : b.waits = true → q = [] := by
      intro hwaits
      rw [(hlast hwaits).1] at hrest
      exact absurd hrest.symm (by simp)
    refine (afterAll_does hdoes hquiet id).mpr (.inl ?_)
    exact hs.ready ((n, b) :: q) e rest' (by rw [hq, show rest = q ++ e :: rest' from hrest]; rfl) id hid
  · have hnumbers := hs.numbers
    rw [hq] at hnumbers
    show (x.lastSeq :: _).Pairwise _
    rw [hseq]
    exact (List.pairwise_cons.mp hnumbers).2
  · obtain ⟨hreply, hquiet⟩ := hs.idle hnone
    rw [hq] at hquiet
    have hb := hquiet (n, b) List.mem_cons_self
    refine ⟨?_, fun e he => hquiet e (List.mem_cons_of_mem _ he)⟩
    show s.reply.or r = none
    rw [hreply, (hdoes.quiet hb).1]
    rfl
  · -- the message was the one that is waited for, or one ahead of it
    rcases hs.busy hsome with hnil | ⟨hreply, q, e, hqe, hquiet⟩
    · rw [hq] at hnil
      cases hnil
    · rw [hq] at hqe
      cases q with
      | nil => exact .inl (List.cons.inj hqe).2
      | cons e' q =>
          obtain ⟨rfl, hrest⟩ := List.cons.inj hqe
          have hb := hquiet (n, b) List.mem_cons_self
          refine .inr ⟨?_, q, e, hrest, fun e' he => hquiet e' (List.mem_cons_of_mem _ he)⟩
          show s.reply.or r = none
          rw [hreply, (hdoes.quiet hb).1]
          rfl
  · change s.reply.or r = _ at hds
    cases hreply : s.reply with
    | none =>
        rw [hreply, Option.none_or] at hds
        rw [hdoes.told ds hds]
        exact ⟨hdoes.nodup, fun id hid => ⟨(hexpected id).mpr (.inr hid), hs.server.trans (hdoes.range id hid).1,
          fun m hm => hnot id hid (hs.given m id hm), fun h => hnot id hid (hs.freed id h)⟩⟩
    | some r' =>
        rw [hreply, Option.some_or] at hds
        obtain ⟨hnodup, hids⟩ := hs.replied ds (hreply.trans hds)
        exact ⟨hnodup, fun id hid => ⟨hold id (hids id hid).1, (hids id hid).2⟩⟩

/-- The tensors of an answer are received. -/
theorem Sound.received (hs : s.Sound) {r : Poison ⊕ OpAnswer η} (hr : s.reply = some r) : ∃ new,
    Receives s (s.received r).1 new (s.received r).2 ∧ (∀ id ∈ new, s.expected id) ∧
      ∀ ds, r = .inr (.described ds) → new = ds.filterMap Description.id? := by
  have hquiet : Receives s s [] [] := ⟨hs.toIds, rfl, fun _ _ h => h, nofun, nofun⟩
  cases r with
  | inl p => exact ⟨[], hquiet, nofun, nofun⟩
  | inr a =>
      cases a with
      | host x => exact ⟨[], hquiet, nofun, nofun⟩
      | null => exact ⟨[], hquiet, nofun, nofun⟩
      | described ds =>
          obtain ⟨hnodup, hids⟩ := hs.replied ds hr
          refine ⟨_, receives ds hs.toIds hnodup fun id hid => ?_, fun id hid => (hids id hid).1, fun ds' h => ?_⟩
          · obtain ⟨hthere, -, hone, hpending⟩ := hids id hid
            exact ⟨hone, hpending, hs.there id hthere⟩
          · cases h
            rfl

/-- When there is a reply, nothing is queued. -/
theorem Sound.queue_nil (hs : s.Sound) {r : Poison ⊕ OpAnswer η} (hr : s.reply = some r) : s.queue = [] := by
  by_contra hne
  have hreply : s.reply = none := by
    by_cases hwaiting : s.waiting = none
    · exact (hs.idle hwaiting).1
    · exact ((hs.busy hwaiting).resolve_left hne).1
  rw [hr] at hreply
  cases hreply

/-- A call takes its reply, and what it describes is registered. -/
theorem Sound.answer (hs : s.Sound) {r : Poison ⊕ OpAnswer η} (hr : s.reply = some r) (th : ThreadNo)
    (f : CallFrame ω γ η) (told : List (Told η)) :
    Sound { (s.received r).1 with
      frames := (s.received r).1.frames.erase th
      waiting := none
      reply := none
      vars := assignAll (s.received r).1.vars (f.targets.zip (s.received r).2)
      told := told } := by
  obtain ⟨new, hrec, hthere, -⟩ := hs.received hr
  generalize s.received r = y at hrec
  obtain ⟨u, xs⟩ := y
  obtain ⟨metas, made, rfl⟩ : ∃ metas made, u = { s with metas := metas, made := made } := ⟨_, _, hrec.same⟩
  have hnil := hs.queue_nil hr
  have hdone : Sound { s with waiting := none, reply := none } := { hs with
    frames := fun th f hf => (hs.frames th f hf).of_same rfl (Nat.le_refl _) (fun _ => id) fun _ => .inl
    idle := fun _ => ⟨rfl, fun e he => by rw [show s.queue = [] from hnil] at he; cases he⟩
    busy := fun h => absurd rfl h
    replied := fun ds hds => by cases hds }
  have hu : Sound { s with waiting := none, reply := none, metas := metas, made := made } :=
    hdone.extend ⟨hrec.made, hrec.one, hrec.pending, hrec.given, hrec.freed⟩ rfl (Nat.le_refl _) hs.client hrec.kept
      fun ds hds => by cases hds
  refine ((hu.eraseFrame th).setVars (assignAll s.vars (f.targets.zip xs)) fun v m hv => ?_).setRest s.compiled told
  rcases find_assignAll hv with hv | hx
  · exact hu.vars v m hv
  · obtain ⟨id, hid, hmem⟩ := hrec.results m (mem_of_mem_zip hx)
    exact ⟨id, hid, hthere id hmem⟩

/-! ### The rest -/

/-- A tensor in a variable is referred to. -/
theorem refersTo_var {v : Var} (hv : s.vars.find v = some (.tensor m)) : s.refersTo m :=
  .inl ⟨(v, .tensor m), Table.find_eq_some_iff.mp hv, rfl⟩

/-- A tensor that a call has as an argument or a result is referred to. -/
theorem refersTo_frame {th : ThreadNo} {f : CallFrame ω γ η} (hf : s.frames.find th = some f)
    (hm : m ∈ f.args ∨ some (.tensor m) ∈ f.results) : s.refersTo m :=
  .inr ⟨(th, f), Table.find_eq_some_iff.mp hf, hm⟩

/-- A meta tensor is collected: nothing that is left speaks of it. -/
theorem Sound.collect (hs : s.Sound) (hm : s.metas m = some id) (hfree : ¬ s.refersTo m) :
    Sound { s with metas := Function.update s.metas m none, pendingFrees := s.pendingFrees ++ [id] } := by
  -- what has an id now had it before
  have hback : ∀ m' i, Function.update s.metas m none m' = some i → m' ≠ m ∧ s.metas m' = some i := by
    intro m' i hi
    by_cases heq : m' = m
    · subst heq
      rw [Function.update_self] at hi
      cases hi
    · rw [Function.update_of_ne heq] at hi
      exact ⟨heq, hi⟩
  -- what is referred to is not what is collected
  have hkeep : ∀ {m' i}, s.refersTo m' → s.metas m' = some i → Function.update s.metas m none m' = some i := by
    intro m' i hrefers hi
    rw [Function.update_of_ne]
    · exact hi
    · rintro rfl
      exact hfree hrefers
  refine { hs with
    made := fun m' i hi => hs.made m' i (hback m' i hi).2
    one := fun m₁ m₂ i h₁ h₂ => hs.one m₁ m₂ i (hback m₁ i h₁).2 (hback m₂ i h₂).2
    pending := fun m' i hi => ?_
    given := fun m' i hi => hs.given m' i (hback m' i hi).2
    freed := fun i hi => ?_
    vars := fun v m' hv => ?_
    frames := fun th f hf => ?_
    replied := fun ds hds => ?_ }
  · obtain ⟨hne, hold⟩ := hback m' i hi
    intro hmem
    rcases List.mem_append.mp hmem with hmem | hmem
    · exact hs.pending m' i hold hmem
    · obtain rfl := List.mem_singleton.mp hmem
      exact hne (hs.one m' m i hold hm)
  · rcases List.mem_append.mp hi with hi | hi
    · exact hs.freed i hi
    · obtain rfl := List.mem_singleton.mp hi
      exact hs.given m i hm
  · obtain ⟨i, hi, hthere⟩ := hs.vars v m' hv
    exact ⟨i, hkeep (refersTo_var hv) hi, hthere⟩
  · have hfit := hs.frames th f hf
    refine ⟨fun m' hm' => ?_, fun m' hm' => ?_, fun i hi => ?_, hfit.outs, fun i hi => ?_, hfit.free⟩
    · obtain ⟨i, hi, hthere⟩ := hfit.args m' hm'
      exact ⟨i, hkeep (refersTo_frame hf (.inl hm')) hi, hthere⟩
    · exact (hfit.results m' hm').imp_right fun ⟨i, hi, hout⟩ => ⟨i, hkeep (refersTo_frame hf (.inr hm')) hi, hout⟩
    · obtain ⟨m', hm', hi⟩ := hfit.names i hi
      exact ⟨m', hm', hkeep (refersTo_frame hf (.inl hm')) hi⟩
    · obtain ⟨m', hi, hm'⟩ := hfit.owned i hi
      exact ⟨m', hkeep (refersTo_frame hf (.inr hm')) hi, hm'⟩
  · obtain ⟨hnodup, hids⟩ := hs.replied ds hds
    refine ⟨hnodup, fun i hi => ?_⟩
    obtain ⟨hthere, hbase, hone, hpending⟩ := hids i hi
    refine ⟨hthere, hbase, fun m' hm' => hone m' (hback m' i hm').2, fun hmem => ?_⟩
    rcases List.mem_append.mp hmem with hmem | hmem
    · exact hpending hmem
    · obtain rfl := List.mem_singleton.mp hmem
      exact hone m hm

/-- What is asked of a step: ids have not run out, and the meta kernels were right about the op that is executed. -/
def Plain (t : Torch ω γ κ η ρ) (s : Dispatcher ω γ κ η ρ) : DispatchAction ω γ κ η → Prop
  | .start _ _ _ leaves _ => s.nextId + leaves.length ≤ serverIdBase
  | .execute _ => ∀ n b rest, s.queue = (n, b) :: rest → s.server.Delivers t n b
  | _ => True

variable [DecidableEq η]

/-- **Every step along `Plain` keeps it.** -/
theorem Sound.step (hs : s.Sound) {p : Torch ω γ κ η ρ} {a : DispatchAction ω γ κ η} (ha : s.Plain p a)
    (hstep : s.step p a = some t) : t.Sound := by
  cases a with
  | start th job args leaves targets =>
      unfold Dispatcher.step at hstep
      dsimp only at hstep
      split at hstep
      · rename_i ms hfree hms
        split at hstep
        · rename_i u body xs hprep
          obtain rfl := Option.some.inj hstep
          exact hs.start hms ha hprep th targets
        · cases hstep
      · cases hstep
  | abandon th freed =>
      unfold Dispatcher.step at hstep
      dsimp only at hstep
      split at hstep
      · split at hstep
        · rename_i hwaiting
          obtain rfl := Option.some.inj hstep
          split
          · have h := (hs.queueFrees hwaiting).eraseFrame th
            rwa [show s.queueFrees.frames = s.frames by rw [queueFrees_same]] at h
          · exact hs.eraseFrame th
        · split at hstep
          · obtain rfl := Option.some.inj hstep
            exact hs.eraseFrame th
          · cases hstep
      · cases hstep
  | send th =>
      unfold Dispatcher.step at hstep
      dsimp only at hstep
      split at hstep
      · rename_i f hf hwaiting
        have h := hs.send hf hwaiting
        split at hstep <;> rename_i hwaits
        · rw [if_pos hwaits] at h
          obtain rfl := Option.some.inj hstep
          exact h
        · rw [if_neg hwaits] at h
          obtain rfl := Option.some.inj hstep
          exact h
      · cases hstep
  | execute fate =>
      unfold Dispatcher.step at hstep
      dsimp only at hstep
      split at hstep
      · cases hstep
      · rename_i n b rest hq
        obtain rfl := Option.some.inj hstep
        exact hs.execute hq (ha n b rest hq) fate
  | answer =>
      unfold Dispatcher.step at hstep
      dsimp only at hstep
      split at hstep
      · rename_i th r hwaiting hr
        split at hstep
        · obtain rfl := Option.some.inj hstep
          exact hs.answer hr _ _ _
        · cases hstep
      · cases hstep
  | assign v w =>
      unfold Dispatcher.step at hstep
      dsimp only at hstep
      split at hstep
      · rename_i x hx
        obtain rfl := Option.some.inj hstep
        refine hs.setVars _ fun v' m hv' => ?_
        rw [Table.find_insert] at hv'
        split at hv'
        · obtain rfl := Option.some.inj hv'
          exact hs.vars w m hx
        · exact hs.vars v' m hv'
      · cases hstep
  | forget v =>
      obtain rfl := Option.some.inj hstep
      refine hs.setVars _ fun v' m hv' => ?_
      rw [Table.find_erase] at hv'
      split at hv'
      · cases hv'
      · exact hs.vars v' m hv'
  | collect m =>
      unfold Dispatcher.step at hstep
      dsimp only at hstep
      split at hstep
      · rename_i id hm
        split at hstep
        · cases hstep
        · rename_i hfree
          obtain rfl := Option.some.inj hstep
          exact hs.collect hm hfree
      · cases hstep

/-- A process that has done nothing, and a new session for it. -/
def begin (heap : Cell → κ) (rng : ρ) : Dispatcher ω γ κ η ρ := { server := { state := ⟨fun _ => none, heap, rng⟩ } }

omit [DecidableEq η] in
/-- The invariant holds at the beginning. -/
theorem sound_begin (heap : Cell → κ) (rng : ρ) : (begin heap rng : Dispatcher ω γ κ η ρ).Sound := by
  have hnone : ∀ id, ¬ (begin heap rng : Dispatcher ω γ κ η ρ).expected id := fun id h => h rfl
  refine ⟨⟨nofun, nofun, nofun, nofun, nofun⟩, fun id h => absurd h (hnone id), ?_, Nat.le_refl _, fun v m hv => ?_,
    fun th f hf => ?_, fun th _ f _ _ hf => ?_, fun q e rest hq => ?_, ?_, fun _ => ⟨rfl, nofun⟩,
    fun h => absurd rfl h, nofun⟩
  · exact Nat.one_le_two_pow
  · cases hv
  · cases hf
  · cases hf
  · exact absurd hq (by simp [begin])
  · simp [begin]

/-- The invariant holds in every run along `Plain`. -/
theorem always_sound (p : Torch ω γ κ η ρ) (heap : Cell → κ) (rng : ρ) :
    Always (step p) (Plain p) (begin heap rng) (Sound (ω := ω) (γ := γ) (η := η)) :=
  .of_step (sound_begin heap rng) fun _ _ _ hs ha hstep => hs.step ha hstep

/-- **No operand is missing.** Ids are freed as tensors are collected, ahead of whatever any thread sends next, and ops
fail: the operands of the next message that the session executes are ids that it has. Of a `FREE` that is not so: the
id of a result is given out before the call is made, and freed also when the call is given up. -/
theorem names_are_there (p : Torch ω γ κ η ρ) (heap : Cell → κ) (rng : ρ) (as : List (DispatchAction ω γ κ η))
    (s : Dispatcher ω γ κ η ρ) (hplain : Along (step p) (Plain p) (begin heap rng) as)
    (hrun : run (step p) (begin heap rng) as = some s) {n : ℕ} {b : OpBody ω γ η} {rest : List (ℕ × OpBody ω γ η)}
    (hq : s.queue = (n, b) :: rest) : ∀ id ∈ b.names, s.server.state.Has id :=
  (always_sound p heap rng as s hplain hrun).ready [] (n, b) rest hq

/-- One thread negates a tensor and drops it, then another waits for what is queued. -/
def streamed : List (DispatchAction PoisonedRun.NumberOp Unit ℕ ℕ) :=
  [.start 0 (.run .empty) [] [.new] [0], .send 0, .execute .fine, .start 0 (.run .neg) [0] [.new] [1], .forget 0,
    .send 0, .collect 0, .start 1 .sync [] [] [], .send 1]

/-- The run below is along `Plain`. -/
theorem plain_streamed : Along (step PoisonedRun.numbers) (Plain PoisonedRun.numbers)
    (begin (fun _ => 0) 0) streamed := by
  refine ⟨show 1 + 1 ≤ serverIdBase by decide, trivial, fun n b rest hq => ?_, show 2 + 1 ≤ serverIdBase by decide,
    trivial, trivial, trivial, show 3 + 0 ≤ serverIdBase by decide, trivial, trivial⟩
  cases hq
  intro as has p hp hsome
  cases has
  obtain rfl := List.mem_singleton.mp hp
  exact Option.some_ne_none _

/-- In the run above the next message names a tensor that the session has. -/
theorem names_are_there_streamed : ∃ s, run (step PoisonedRun.numbers) (begin (fun _ => 0) 0) streamed = some s ∧
    s.server.state.Has 1 :=
  ⟨_, rfl, names_are_there PoisonedRun.numbers (fun _ => 0) 0 streamed _ plain_streamed rfl rfl 1 List.mem_cons_self⟩

omit [DecidableEq η]

/-! ### What is left -/

/-- An id that the session is expected to have is that of a tensor, or waits to be freed, or is on its way. -/
def Owned (s : Dispatcher ω γ κ η ρ) : Prop :=
  ∀ id, s.expected id → (∃ m, s.metas m = some id) ∨ id ∈ s.pendingFrees ∨
    ∃ ds, s.reply = some (.inr (.described ds)) ∧ id ∈ ds.filterMap Description.id?

/-- Ids that are freed go from `pending_frees` into the queue. -/
theorem Owned.queueFrees (ho : s.Owned) : s.queueFrees.Owned := by
  unfold Dispatcher.queueFrees
  split
  · exact ho
  · rintro id hid
    obtain ⟨hthere, hnot⟩ : s.expected id ∧ id ∉ s.pendingFrees := by
      change afterAll _ (s.queue ++ [_]) id at hid
      rwa [afterAll_append] at hid
    rcases ho id hthere with h | h | h
    · exact .inl h
    · exact absurd h hnot
    · exact .inr (.inr h)

/-- A message is queued whose results the application has. -/
theorem Owned.push (ho : s.Owned) {b : OpBody ω γ η} (hfree : ∀ ids, b ≠ .free ids)
    (howned : ∀ id, some id ∈ b.outs → ∃ m, s.metas m = some id) : (s.push b).Owned := by
  intro id hid
  change afterAll _ (s.queue ++ [_]) id at hid
  rw [afterAll_append] at hid
  rcases (after_outs hfree _ id).mp hid with h | h
  · exact ho id h
  · exact .inl (howned id h)

/-- What a message makes is the application's, or on its way to it. -/
theorem Owned.execute (ho : s.Owned) (hs : s.Sound) {p : Torch ω γ κ η ρ} (hencodes : ∀ a, p.encodes a = true) {n : ℕ}
    {b : OpBody ω γ η} {rest : List (ℕ × OpBody ω γ η)} (hq : s.queue = (n, b) :: rest)
    (hdelivers : s.server.Delivers p n b) (fate : Fate κ) : Owned { s with
      server := (s.server.execute p n b fate).1
      queue := rest
      reply := s.reply.or (s.server.execute p n b fate).2 } := by
  obtain ⟨new, hdoes, hexpected⟩ := hs.executed hq hdelivers fate
  intro id hid
  rcases (hexpected id).mp hid with h | h
  · rcases ho id h with h | h | ⟨ds, hds, hid⟩
    · exact .inl h
    · exact .inr (.inl h)
    · exact .inr (.inr ⟨ds, by rw [hds, Option.some_or], hid⟩)
  · obtain ⟨ds, hds⟩ := hdoes.carried hencodes (List.ne_nil_of_mem h)
    have hwaits : b.waits = true := by
      cases hb : b.waits with
      | true => rfl
      | false =>
          rw [(hdoes.quiet hb).2] at h
          cases h
    have hreply := (hs.last_waits hq hwaits).2
    refine .inr (.inr ⟨ds, by rw [hreply, Option.none_or, hds], ?_⟩)
    rw [hdoes.told ds hds]
    exact h

/-- What was on its way has an owner when the reply has been taken. -/
theorem Owned.answer (ho : s.Owned) (hs : s.Sound) {r : Poison ⊕ OpAnswer η} (hr : s.reply = some r)
    {u : Dispatcher ω γ κ η ρ} (hmetas : u.metas = (s.received r).1.metas)
    (hpending : u.pendingFrees = s.pendingFrees) (hexpected : u.expected = s.expected) : u.Owned := by
  obtain ⟨new, hrec, -, hnew⟩ := hs.received hr
  intro id hid
  rw [hexpected] at hid
  rw [hmetas, hpending]
  rcases ho id hid with ⟨m, hm⟩ | h | ⟨ds, hds, hmem⟩
  · exact .inl ⟨m, hrec.kept m id hm⟩
  · exact .inr (.inl h)
  · rw [hr] at hds
    rw [← hnew ds (Option.some.inj hds)] at hmem
    exact .inl (hrec.owned id hmem)

/-- A tensor that is collected leaves its id to be freed. -/
theorem Owned.collect (ho : s.Owned) (hm : s.metas m = some id) :
    Owned { s with metas := Function.update s.metas m none, pendingFrees := s.pendingFrees ++ [id] } := by
  intro i hi
  rcases ho i hi with ⟨m', hm'⟩ | h | h
  · by_cases heq : m' = m
    · subst heq
      obtain rfl := Option.some.inj (hm.symm.trans hm')
      exact .inr (.inl (List.mem_append_right _ (List.mem_singleton.mpr rfl)))
    · refine .inl ⟨m', ?_⟩
      show Function.update s.metas m none m' = some i
      rwa [Function.update_of_ne heq]
  · exact .inr (.inl (List.mem_append_left _ h))
  · exact .inr (.inr h)

/-- **Every step keeps everything owned.** -/
theorem Owned.step [DecidableEq η] (ho : s.Owned) (hs : s.Sound) {p : Torch ω γ κ η ρ}
    (hencodes : ∀ a, p.encodes a = true) {a : DispatchAction ω γ κ η} (ha : s.Plain p a)
    (hstep : s.step p a = some t) : t.Owned := by
  cases a with
  | start th job args leaves targets =>
      unfold Dispatcher.step at hstep
      dsimp only at hstep
      split at hstep
      · split at hstep
        · rename_i u body xs hprep
          -- a call that starts gives ids, and takes none away
          have hp := prepares hs.toIds ha hprep
          obtain rfl := Option.some.inj hstep
          intro id hid
          have hid' : s.expected id := by
            have h : u.expected id := hid
            rwa [hp.same] at h
          rcases ho id hid' with ⟨m, hm⟩ | h | h
          · exact .inl ⟨m, hp.kept m id hm⟩
          · exact .inr (.inl (by show id ∈ u.pendingFrees; rwa [hp.same]))
          · exact .inr (.inr (by show ∃ ds, u.reply = _ ∧ _; rwa [hp.same]))
        · cases hstep
      · cases hstep
  | abandon th freed =>
      unfold Dispatcher.step at hstep
      dsimp only at hstep
      split at hstep
      · split at hstep
        · obtain rfl := Option.some.inj hstep
          split
          · exact ho.queueFrees
          · exact ho
        · split at hstep
          · obtain rfl := Option.some.inj hstep
            exact ho
          · cases hstep
      · cases hstep
  | send th =>
      unfold Dispatcher.step at hstep
      dsimp only at hstep
      split at hstep
      · rename_i f hf hwaiting
        have hfit := hs.frames th f hf
        have hmetas : s.queueFrees.metas = s.metas := by rw [queueFrees_same]
        -- what the message makes is owned by what the call returns
        have h : (s.queueFrees.push f.body).Owned := ho.queueFrees.push hfit.free fun id hid => by
          rw [hmetas]
          exact (hfit.owned id hid).imp fun _ => And.left
        split at hstep <;> obtain rfl := Option.some.inj hstep <;> exact h
      · cases hstep
  | execute fate =>
      unfold Dispatcher.step at hstep
      dsimp only at hstep
      split at hstep
      · cases hstep
      · rename_i n b rest hq
        obtain rfl := Option.some.inj hstep
        exact ho.execute hs hencodes hq (ha n b rest hq) fate
  | answer =>
      unfold Dispatcher.step at hstep
      dsimp only at hstep
      split at hstep
      · rename_i th r hwaiting hr
        obtain ⟨new, hrec, -⟩ := hs.received hr
        split at hstep
        · obtain rfl := Option.some.inj hstep
          refine ho.answer hs hr rfl ?_ ?_
          · show (s.received r).1.pendingFrees = s.pendingFrees
            rw [hrec.same]
          · show (s.received r).1.expected = s.expected
            rw [hrec.same]
            rfl
        · cases hstep
      · cases hstep
  | assign v w =>
      unfold Dispatcher.step at hstep
      dsimp only at hstep
      split at hstep
      · obtain rfl := Option.some.inj hstep
        exact ho
      · cases hstep
  | forget v =>
      obtain rfl := Option.some.inj hstep
      exact ho
  | collect m =>
      unfold Dispatcher.step at hstep
      dsimp only at hstep
      split at hstep
      · rename_i id hm
        split at hstep
        · cases hstep
        · obtain rfl := Option.some.inj hstep
          exact ho.collect hm
      · cases hstep

/-- What the session has and is not expected to have is about to be freed. -/
theorem freed_of_not_afterAll {there : TensorId → Prop} {q : List (ℕ × OpBody ω γ η)} {id : TensorId} (h : there id)
    (hnot : ¬ afterAll there q id) : ∃ e ∈ q, ∃ ids, e.2 = .free ids ∧ id ∈ ids := by
  induction q generalizing there with
  | nil => exact absurd h hnot
  | cons e q ih =>
      by_cases hafter : e.2.after there id
      · obtain ⟨e', he', hfree⟩ := ih hafter hnot
        exact ⟨e', List.mem_cons_of_mem _ he', hfree⟩
      · refine ⟨e, List.mem_cons_self, ?_⟩
        obtain ⟨n, b⟩ := e
        cases b with
        | free ids =>
            have hmem : id ∈ ids := by
              by_contra hno
              exact hafter ⟨h, hno⟩
            exact ⟨ids, rfl, hmem⟩
        | run op refs outs => exact absurd (Or.inl h) hafter
        | call gid refs outs => exact absurd (Or.inl h) hafter
        | upload | seed | compile | runSync | download | sync | ack | unknown => exact absurd h hafter

end Dispatcher

end Rgpu
