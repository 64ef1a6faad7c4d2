import Rgpu.Foundations.Journal
import Rgpu.Server.ReverseIndex

/-! # Releasing an inventory

`release_inventory` of `server/inventory.cpp`: what the thread that served a session gives back when the session
expires. It is a long series of driver calls any of which may fail, made beside the other sessions, which may end
the generation of a primary context at any moment that the thread does not hold `g_primary_mu`.

* **`Surroundings`** — what the series works on: the driver, the tables of the generations, the other sessions.
* **`releaseInventory`** — the series, with a journal of what was tried in which order.
* **`Round`** — what one round of its loops may do, and what every round keeps.
* **`keeps_releaseInventory`** — what is kept by the parts is kept by the whole. -/

namespace Rgpu

open Foundations Foundations.Journal

/-- The driver calls of an expiry, without the arguments that it only hands back. -/
inductive ReleaseCall
  /-- `set_context` -/
  | setContext (ctx : CUcontext)
  /-- `sync_context` -/
  | syncContext
  /-- `end_capture` -/
  | endCapture (stream : ℕ)
  /-- `LibHandle::destroy` -/
  | destroyHandle (handle : ℕ)
  /-- `destroy_alloc`, `destroy_module`, `destroy_library`, `destroy_vmm_handle`, `destroy_stream`, `destroy_event`,
  `destroy_graph`, `destroy_graph_exec` and `destroy_context` -/
  | destroy (kind : ItemKind) (handle : ℕ)
  /-- `unmap_vmm` -/
  | unmapVmm (start bytes : ℕ)
  /-- `free_vmm_range` -/
  | freeVmmRange (start bytes : ℕ)
  /-- `release_primary` -/
  | releasePrimary (dev : Device)
  /-- `cuDevicePrimaryCtxGetState` -/
  | getState (dev : Device)
  deriving DecidableEq, Repr

/-- What an expiry works on. A world holds the state of the driver and of the process. -/
structure Surroundings (ω : Type) where
  /-- `g_primary_dev` and `g_primary_gen`. -/
  gens : ω → Generations
  /-- A driver call: its result and, for a call that has one, its output. -/
  call : ω → ReleaseCall → (CUresult × ℕ) × ω
  /-- What the other sessions do before this one gets on. -/
  others : ω → ω
  /-- `bump_generation` -/
  bump : ω → Device → ω
  /-- The order in which an unordered map is walked. -/
  walk : Table ℕ Stamp → List (ℕ × Stamp)
  walk_perm : ∀ t, (walk t).Perm t.entries
  /-- The driver knows nothing of the tables. -/
  gens_call : ∀ w c, gens (call w c).2 = gens w
  gens_bump : ∀ w d, gens (bump w d) = (gens w).bumpGeneration d

/-- One thing a session holds, but for the retains. -/
inductive Holding
  | capture (c : OpenCapture)
  | handle (handle : ℕ) (l : LibHandle)
  | item (kind : ItemKind) (handle : ℕ) (st : Stamp)
  | mapping (start bytes : ℕ)
  | range (start bytes : ℕ)
  deriving DecidableEq, Repr

/-- Where it was made, if the expiry looks at that: contexts are given back by `release_detached` and virtual memory
by `release_sized`, which do not. -/
def Holding.made : Holding → Option Stamp
  | .capture c => some c.where'
  | .handle _ l => some l.made
  | .item .contexts _ _ => none
  | .item _ _ st => some st
  | .mapping _ _ => none
  | .range _ _ => none

/-- An entry of the journal. -/
inductive ReleaseEvent
  /-- A context was asked to be current, and the answer of `cuCtxSetCurrent`. -/
  | used (ctx : CUcontext) (r : CUresult)
  /-- It was waited, after `ctx` had been asked to be current. -/
  | waited (ctx : CUcontext) (r : CUresult)
  /-- A capture that was ended left a graph. -/
  | captured (graph : ℕ) (st : Stamp)
  /-- Something was to be given back, the generations being as they are in `now`. -/
  | tried (x : Holding) (now : Generations) (r : CUresult)
  /-- Something was left alone. -/
  | skipped (x : Holding) (now : Generations)
  /-- A retain was to be given back; `ended` says whether the generation was ended over it. -/
  | releasedPrimary (dev : Device) (r : CUresult) (ended : Bool)

/-- What the expiry keeps while it goes on. -/
structure Releasing (ω : Type) where
  world : ω
  /-- The class `Current`: the context that was last asked to be current, granted or not. -/
  current : Option CUcontext := none
  /-- The graphs of the session, those of its ended captures among them. -/
  graphs : Table ℕ Stamp := .empty
  failed : ℕ := 0
  skipped : ℕ := 0

/-- A part of the expiry. -/
abbrev Release (ω α : Type) := Journal (Releasing ω) ReleaseEvent α

/-- How much of what was given back. -/
structure Tally where
  capturesEnded : ℕ := 0
  handles : ℕ := 0
  libraries : ℕ := 0
  vmmUnmapped : ℕ := 0
  vmmHandles : ℕ := 0
  vmmRanges : ℕ := 0
  execs : ℕ := 0
  graphs : ℕ := 0
  events : ℕ := 0
  streams : ℕ := 0
  modules : ℕ := 0
  allocs : ℕ := 0
  contexts : ℕ := 0
  retains : ℕ := 0
  failed : ℕ := 0
  skipped : ℕ := 0
  deriving DecidableEq, Repr

namespace Surroundings

variable {ω : Type} (S : Surroundings ω)

/-! ## The parts -/

/-- Make a driver call. -/
def ask (c : ReleaseCall) : Release ω (CUresult × ℕ) :=
  change fun s => ((S.call s.world c).1, { s with world := (S.call s.world c).2 })

/-- Let the other sessions go on, and look at the tables. -/
def generations : Release ω Generations :=
  change fun s => (S.gens (S.others s.world), { s with world := S.others s.world })

/-- `Current::use` -/
def use (ctx : CUcontext) : Release ω Unit := do
  let current ← look Releasing.current
  if current = some ctx then pure ()
  else
    -- a refusal is logged, and the context counts as the last one asked for
    let (r, _) ← S.ask (.setContext ctx)
    emit (.used ctx r)
    change fun s => ((), { s with current := some ctx })

/-- `unless_destroyed`: the generations at the time of the check, and what comes of `destroy` if it is run. -/
def unlessDestroyed (st : Stamp) (destroy : Generations → Release ω CUresult) :
    Release ω (Generations × Option CUresult) := do
  let now ← S.generations
  if st.gen = kEndedGeneration then pure (now, none)
  else
    match st.dev with
    | none =>
        let r ← destroy now
        pure (now, some r)
    | some dev =>
        -- under g_primary_mu, so that the generation does not end before `destroy` is done
        if now.stillCurrent (some dev) st.gen then
          let r ← destroy now
          pure (now, some r)
        else pure (now, none)

/-- One round of a loop over what was made in a context: how many were given back. -/
def release (x : Holding) (st : Stamp) (destroy : Release ω CUresult) : Release ω ℕ := do
  let (now, ran) ← S.unlessDestroyed st fun now => do
    S.use st.ctx
    let r ← destroy
    emit (.tried x now r)
    pure r
  match ran with
  | none =>
      emit (.skipped x now)
      change fun s => (0, { s with skipped := s.skipped + 1 })
  | some r =>
      if r = .success then pure 1
      else change fun s => (0, { s with failed := s.failed + 1 })

/-- End a capture. The graph that comes out is one of the session's. -/
def endCapture (c : OpenCapture) : Release ω CUresult := do
  let (r, graph) ← S.ask (.endCapture c.stream)
  if r = .success ∧ graph ≠ 0 then
    emit (.captured graph c.where')
    change fun s => ((), { s with graphs := s.graphs.insert graph c.where' })
  pure r

/-- The loop over the open captures: each is ended where its stream is. -/
def endCaptures : List OpenCapture → Release ω ℕ :=
  total fun c => S.release (.capture c) c.where' (S.endCapture c)

/-- Wait for a context. -/
def wait (ctx : CUcontext) : Release ω Unit := do
  S.use ctx
  let (r, _) ← S.ask .syncContext
  emit (.waited ctx r)

/-- The loop that waits for the contexts, each once; `seen` are those waited for already. -/
def synchronize : List (ℕ × Stamp) → List CUcontext → Release ω Unit
  | [], _ => pure ()
  | (_, st) :: entries, seen => do
      -- made without a context
      if st.ctx = 0 then synchronize entries seen
      else
        let now ← S.generations
        -- destroyed with its context, which has nothing of this session's to wait for
        if ¬ now.stillCurrent st.dev st.gen then synchronize entries seen
        -- once each
        else if st.ctx ∈ seen then synchronize entries seen
        else
          S.wait st.ctx
          synchronize entries (seen ++ [st.ctx])

/-- Destroy something by a driver call. -/
def destroyBy (c : ReleaseCall) : Release ω CUresult := do
  let (r, _) ← S.ask c
  pure r

/-- The loop over the library handles. One whose library left no way to destroy it is not destroyed. -/
def releaseHandles (handles : Table ℕ LibHandle) : Release ω ℕ :=
  total (fun e => S.release (.handle e.1 e.2) e.2.made
    (if e.2.destroy then S.destroyBy (.destroyHandle e.1) else pure .notSupported)) handles.entries

/-- `release_items` -/
def releaseItems (kind : ItemKind) (items : Table ℕ Stamp) : Release ω ℕ :=
  total (fun e => S.release (.item kind e.1 e.2) e.2 (S.destroyBy (.destroy kind e.1))) (S.walk items)

/-- One round of a loop over what belongs to no context. -/
def giveBack (x : Holding) (c : ReleaseCall) : Release ω ℕ := do
  let now ← S.generations
  let (r, _) ← S.ask c
  emit (.tried x now r)
  if r = .success then pure 1
  else change fun s => (0, { s with failed := s.failed + 1 })

/-- `release_detached`, over the contexts. -/
def releaseDetached (contexts : Table ℕ Stamp) : Release ω ℕ :=
  total (fun e => S.giveBack (.item .contexts e.1 e.2) (.destroy .contexts e.1)) (S.walk contexts)

/-- `release_sized`, over the mappings. -/
def releaseMappings (maps : Table ℕ ℕ) : Release ω ℕ :=
  total (fun e => S.giveBack (.mapping e.1 e.2) (.unmapVmm e.1 e.2)) maps.entries

/-- `release_sized`, over the address ranges. -/
def releaseRanges (ranges : Table ℕ ℕ) : Release ω ℕ :=
  total (fun e => S.giveBack (.range e.1 e.2) (.freeVmmRange e.1 e.2)) ranges.entries

/-- One release of a primary context and the question whether it was the last, both under `g_primary_mu`. -/
def releasePrimary (dev : Device) : Release ω CUresult := do
  let _ ← S.generations
  let (r, _) ← S.ask (.releasePrimary dev)
  let (q, active) ← if r = .success then S.ask (.getState dev) else pure (.success, 1)
  -- `primary_inactive`: a state that cannot be read is not taken for the end of the context
  let ended := decide (q = .success ∧ active = 0)
  if ended then change fun s => ((), { s with world := S.bump s.world dev })
  emit (.releasedPrimary dev r ended)
  pure r

/-- The releases owed for one device, until one fails. -/
def releaseRetainsOf (dev : Device) : ℕ → Release ω ℕ
  | 0 => pure 0
  | n + 1 => do
      let r ← S.releasePrimary dev
      if r = .success then
        let m ← releaseRetainsOf dev n
        pure (m + 1)
      -- the first release that fails is the last for the device
      else change fun s => (0, { s with failed := s.failed + 1 })

/-- The loop over the retains. -/
def releaseRetains (retains : Table Device ℕ) : Release ω ℕ :=
  total (fun e => S.releaseRetainsOf e.1 e.2) retains.entries

/-! ## The whole -/

/-- What `release_inventory` waits for: everything in the six tables that a context teardown sweeps. -/
def awaited (inv : Inventory) (graphs : Table ℕ Stamp) : List (ℕ × Stamp) :=
  S.walk (inv.items .allocs) ++ S.walk (inv.items .modules) ++ S.walk (inv.items .streams) ++
    S.walk (inv.items .events) ++ S.walk graphs ++ S.walk (inv.items .graphExecs)

/-- The middle of `release_inventory`: what the library handles own, what belongs to no context, and what lives in
one. -/
def releaseContents (inv : Inventory) (all : Table ℕ Stamp) : Release ω Tally := do
  -- a library handle owns streams and workspaces, so it goes before the memory
  let handles ← S.releaseHandles inv.handles
  let libraries ← S.releaseItems .libraries (inv.items .libraries)
  -- a mapping before what is mapped, and both before the addresses
  let vmmUnmapped ← S.releaseMappings inv.vmmMaps
  let vmmHandles ← S.releaseItems .vmmHandles (inv.items .vmmHandles)
  let vmmRanges ← S.releaseRanges inv.vmmRanges
  let execs ← S.releaseItems .graphExecs (inv.items .graphExecs)
  let graphs ← S.releaseItems .graphs all
  let events ← S.releaseItems .events (inv.items .events)
  let streams ← S.releaseItems .streams (inv.items .streams)
  let modules ← S.releaseItems .modules (inv.items .modules)
  let allocs ← S.releaseItems .allocs (inv.items .allocs)
  pure { handles := handles, libraries := libraries, vmmUnmapped := vmmUnmapped, vmmHandles := vmmHandles,
         vmmRanges := vmmRanges, execs := execs, graphs := graphs, events := events, streams := streams,
         modules := modules, allocs := allocs }

/-- `release_inventory`, once it has taken everything out of the inventory. -/
def releaseInventory (inv : Inventory) : Release ω Tally := do
  let capturesEnded ← S.endCaptures inv.captures
  let all ← look Releasing.graphs
  S.synchronize (S.awaited inv all) []
  let contents ← S.releaseContents inv all
  -- `current.none()`: a context is not destroyed while it is current
  S.use 0
  let contexts ← S.releaseDetached (inv.items .contexts)
  let retains ← S.releaseRetains inv.primaryRetains
  let (failed, skipped) ← look fun s => (s.failed, s.skipped)
  pure { contents with capturesEnded := capturesEnded, contexts := contexts, retains := retains, failed := failed,
                       skipped := skipped }

end Surroundings

/-! ## What one round does -/

/-- The context that was last asked to be current, by the `used` entries. It is current unless `cuCtxSetCurrent` has
refused, which the entry says: `Current::use` logs a refusal, remembers the context as if it were current and goes on,
so what is done after one is done in whatever context the thread has. -/
def contextWatch : Monitor (Option CUcontext) ReleaseEvent where
  next c e :=
    match e with
    | .used ctx _ => some ctx
    | _ => c
  -- what was made in a context is given back there, a context and a retain where none is
  Passes c e :=
    match e with
    | .tried (.item .contexts _ _) _ _ => c = some 0
    | .tried x _ _ => ∀ st, x.made = some st → c = some st.ctx
    | .waited ctx _ => c = some ctx
    | .releasedPrimary _ _ _ => c = some 0
    | _ => True

/-- The graphs there are once those of the ended captures are among them. -/
def collect (graphs : Table ℕ Stamp) (l : List ReleaseEvent) : Table ℕ Stamp :=
  l.foldl (fun t e =>
    match e with
    | .captured graph st => t.insert graph st
    | _ => t) graphs

/-- An entry that goes before a try of `x`: the context is made current, or a graph comes out of a capture. -/
def ReleaseEvent.Before (x : Holding) : ReleaseEvent → Prop
  | .used _ _ => True
  | .captured _ st => ∃ c, x = .capture c ∧ st = c.where'
  | _ => False

/-- Graphs that come in, and then others. -/
theorem collect_append (graphs : Table ℕ Stamp) (l l' : List ReleaseEvent) :
    collect graphs (l ++ l') = collect (collect graphs l) l' := List.foldl_append

namespace Surroundings

variable {ω : Type} (S : Surroundings ω)

/-- What a round may do about `x`: what it logs, the state it leaves, and how many it gives back. -/
inductive Round (x : Holding) (s : Releasing ω) : List ReleaseEvent → Releasing ω → ℕ → Prop
  | skipped {st : Stamp} (hmade : x.made = some st)
      (hgone : (S.gens (S.others s.world)).stillCurrent st.dev st.gen = false) :
      Round x s [.skipped x (S.gens (S.others s.world))]
        { s with world := S.others s.world, skipped := s.skipped + 1 } 0
  | tried {pre : List ReleaseEvent} {r : CUresult} {t : Releasing ω}
      (hpre : ∀ e ∈ pre, e.Before x)
      (hmade : ∀ st, x.made = some st → (S.gens (S.others s.world)).stillCurrent st.dev st.gen = true ∧
        contextWatch.after s.current pre = some st.ctx)
      (hnot : x.made = none → pre = [])
      (hgens : S.gens t.world = S.gens (S.others s.world))
      (hcurrent : t.current = contextWatch.after s.current pre)
      (hgraphs : t.graphs = collect s.graphs pre)
      (hfailed : t.failed = s.failed + if r = .success then 0 else 1)
      (hskipped : t.skipped = s.skipped) :
      Round x s (pre ++ [.tried x (S.gens (S.others s.world)) r]) t (if r = .success then 1 else 0)

/-- What destroys something logs at most the graph that comes out, and touches neither the tables of the generations
nor what is current nor the counts. -/
structure Quiet (x : Holding) (destroy : Release ω CUresult) : Prop where
  pre : ∀ s, ∀ e ∈ destroy.log s, (∃ graph st, e = .captured graph st) ∧ e.Before x
  gens : ∀ s, S.gens (destroy.last s).world = S.gens s.world
  current : ∀ s, (destroy.last s).current = s.current
  graphs : ∀ s, (destroy.last s).graphs = collect s.graphs (destroy.log s)
  failed : ∀ s, (destroy.last s).failed = s.failed
  skipped : ∀ s, (destroy.last s).skipped = s.skipped

/-- The check is `still_current`, whichever way it is made. -/
theorem unlessDestroyed_eq (st : Stamp) (destroy : Generations → Release ω CUresult) :
    S.unlessDestroyed st destroy = (do
      let now ← S.generations
      if now.stillCurrent st.dev st.gen then
        let r ← destroy now
        pure (now, some r)
      else pure (now, none)) := by
  unfold unlessDestroyed
  congr 1
  funext now
  by_cases hended : st.gen = kEndedGeneration
  · simp [Generations.stillCurrent, hended]
  · rw [if_neg hended]
    cases hdev : st.dev with
    | none => simp [Generations.stillCurrent, hended]
    | some dev => rfl

/-- Asking for a context is logged unless it was the last one asked for. -/
theorem log_use (ctx : CUcontext) (s : Releasing ω) : (S.use ctx).log s =
    if s.current = some ctx then [] else [.used ctx (S.call s.world (.setContext ctx)).1.1] := by
  by_cases h : s.current = some ctx <;> simp [use, ask, h]

/-- After a context has been asked for it is noted as the one asked for last. -/
theorem last_use (ctx : CUcontext) (s : Releasing ω) : (S.use ctx).last s =
    if s.current = some ctx then s
    else { s with world := (S.call s.world (.setContext ctx)).2, current := some ctx } := by
  by_cases h : s.current = some ctx <;> simp [use, ask, h]

/-- After a context has been asked for, it is the one asked for last. -/
theorem current_use (ctx : CUcontext) (s : Releasing ω) : ((S.use ctx).last s).current = some ctx := by
  rw [last_use]
  split
  · assumption
  · rfl

/-- The watch sees the same. -/
theorem after_use (ctx : CUcontext) (s : Releasing ω) :
    contextWatch.after s.current ((S.use ctx).log s) = some ctx := by
  rw [log_use]
  split
  · assumption
  · rfl

/-- Making a context current leaves the tables and the counts alone. -/
theorem use_rest (ctx : CUcontext) (s : Releasing ω) :
    S.gens ((S.use ctx).last s).world = S.gens s.world ∧
      ((S.use ctx).last s).graphs = collect s.graphs ((S.use ctx).log s) ∧
      ((S.use ctx).last s).failed = s.failed ∧ ((S.use ctx).last s).skipped = s.skipped := by
  rw [last_use, log_use]
  split
  · exact ⟨rfl, rfl, rfl, rfl⟩
  · exact ⟨S.gens_call _ _, rfl, rfl, rfl⟩

/-- Asking for a context may come ahead of any try. -/
theorem before_use (x : Holding) (ctx : CUcontext) (s : Releasing ω) : ∀ e ∈ (S.use ctx).log s, e.Before x := by
  rw [log_use]
  split
  · exact fun e he => absurd he List.not_mem_nil
  · rintro e he
    rw [List.mem_singleton.mp he]
    trivial

/-- Graphs that come out are not contexts made current. -/
theorem after_captured {l : List ReleaseEvent} {P : ReleaseEvent → Prop}
    (h : ∀ e ∈ l, (∃ graph st, e = .captured graph st) ∧ P e)
    (c : Option CUcontext) : contextWatch.after c l = c := by
  induction l with
  | nil => rfl
  | cons e l ih =>
      obtain ⟨⟨graph, st, rfl⟩, -⟩ := h e List.mem_cons_self
      exact ih fun e he => h e (List.mem_cons_of_mem _ he)

section Rounds

variable (x : Holding) {st : Stamp} (destroy : Release ω CUresult) {s t : Releasing ω}

/-- A round that leaves `x` alone. -/
theorem release_of_gone (hgone : (S.gens (S.others s.world)).stillCurrent st.dev st.gen = false) :
    (S.release x st destroy).value s = 0 ∧
      (S.release x st destroy).log s = [.skipped x (S.gens (S.others s.world))] ∧
      (S.release x st destroy).last s = { s with world := S.others s.world, skipped := s.skipped + 1 } := by
  simp [release, unlessDestroyed_eq, generations, hgone]

/-- A round that gives `x` back, if the driver lets it. -/
theorem release_of_current (hstill : (S.gens (S.others s.world)).stillCurrent st.dev st.gen = true)
    (ht : t = (S.use st.ctx).last { s with world := S.others s.world }) :
    (S.release x st destroy).value s = (if destroy.value t = .success then 1 else 0) ∧
      (S.release x st destroy).log s = ((S.use st.ctx).log { s with world := S.others s.world } ++ destroy.log t) ++
        [.tried x (S.gens (S.others s.world)) (destroy.value t)] ∧
      (S.release x st destroy).last s = { destroy.last t with
        failed := (destroy.last t).failed + if destroy.value t = .success then 0 else 1 } := by
  subst ht
  by_cases hr : destroy.value ((S.use st.ctx).last { s with world := S.others s.world }) = .success <;>
    simp [release, unlessDestroyed_eq, generations, hstill, hr]

variable {x destroy}

/-- A round of a loop over what was made in a context. -/
theorem round_release (hmade : x.made = some st) (hquiet : S.Quiet x destroy) (s : Releasing ω) :
    S.Round x s ((S.release x st destroy).log s) ((S.release x st destroy).last s)
      ((S.release x st destroy).value s) := by
  by_cases hstill : (S.gens (S.others s.world)).stillCurrent st.dev st.gen
  · set t : Releasing ω := { s with world := S.others s.world } with ht
    obtain ⟨hvalue, hlog, hlast⟩ := S.release_of_current x destroy hstill rfl
    obtain ⟨hgens, hgraphs, hfailed, hskipped⟩ := S.use_rest st.ctx t
    rw [hvalue, hlog, hlast, ← ht]
    refine .tried ?_ ?_ ?_ ?_ ?_ ?_ ?_ ?_
    · intro e he
      rcases List.mem_append.mp he with he | he
      · exact S.before_use x st.ctx t e he
      · exact (hquiet.pre _ e he).2
    · rintro st' hst'
      rw [hmade, Option.some.injEq] at hst'
      subst hst'
      rw [contextWatch.after_append, after_captured (hquiet.pre _)]
      exact ⟨hstill, S.after_use st.ctx t⟩
    · intro hnone
      rw [hmade] at hnone
      cases hnone
    · exact (hquiet.gens _).trans hgens
    · show (destroy.last ((S.use st.ctx).last t)).current = _
      rw [contextWatch.after_append, after_captured (hquiet.pre _), hquiet.current, current_use]
      exact (S.after_use st.ctx t).symm
    · show (destroy.last ((S.use st.ctx).last t)).graphs = _
      rw [collect_append, hquiet.graphs, hgraphs]
    · show (destroy.last ((S.use st.ctx).last t)).failed + _ = _
      rw [hquiet.failed, hfailed]
    · show (destroy.last ((S.use st.ctx).last t)).skipped = _
      rw [hquiet.skipped, hskipped]
  · rw [Bool.not_eq_true] at hstill
    obtain ⟨hvalue, hlog, hlast⟩ := S.release_of_gone x destroy hstill
    rw [hvalue, hlog, hlast]
    exact .skipped hmade hstill

/-- A round of a loop over what belongs to no context. -/
theorem round_giveBack (hmade : x.made = none) (c : ReleaseCall) (s : Releasing ω) :
    S.Round x s ((S.giveBack x c).log s) ((S.giveBack x c).last s) ((S.giveBack x c).value s) := by
  set w := S.others s.world with hw
  have hlog : (S.giveBack x c).log s = [] ++ [.tried x (S.gens w) (S.call w c).1.1] := by
    by_cases hr : (S.call w c).1.1 = .success <;> simp [giveBack, generations, ask, ← hw, hr]
  have hvalue : (S.giveBack x c).value s = if (S.call w c).1.1 = .success then 1 else 0 := by
    by_cases hr : (S.call w c).1.1 = .success <;> simp [giveBack, generations, ask, ← hw, hr]
  have hlast : (S.giveBack x c).last s = { s with
      world := (S.call w c).2, failed := s.failed + if (S.call w c).1.1 = .success then 0 else 1 } := by
    by_cases hr : (S.call w c).1.1 = .success <;> simp [giveBack, generations, ask, ← hw, hr]
  rw [hlog, hvalue, hlast]
  refine .tried ?_ ?_ (fun _ => rfl) (S.gens_call w c) rfl rfl rfl rfl
  · exact fun e he => absurd he List.not_mem_nil
  · intro st hst
    rw [hmade] at hst
    cases hst

/-- A code that is known beforehand takes no call and logs nothing. -/
theorem quiet_pure (r : CUresult) : S.Quiet x (pure r) where
  pre _ _ he := absurd he List.not_mem_nil
  gens _ := rfl
  current _ := rfl
  graphs _ := rfl
  failed _ := rfl
  skipped _ := rfl

/-- A destroy call logs nothing ahead of its try. -/
theorem quiet_destroyBy (c : ReleaseCall) : S.Quiet x (S.destroyBy c) where
  pre _ _ he := absurd he List.not_mem_nil
  gens s := S.gens_call s.world c
  current _ := rfl
  graphs _ := rfl
  failed _ := rfl
  skipped _ := rfl

/-- Ending a capture logs at most the graph that it yields. -/
theorem quiet_endCapture (c : OpenCapture) : S.Quiet (.capture c) (S.endCapture c) := by
  have hcases : ∀ s : Releasing ω, ∃ w, S.gens w = S.gens s.world ∧
      ((S.endCapture c).log s = [] ∧ (S.endCapture c).last s = { s with world := w } ∨
        ∃ graph, (S.endCapture c).log s = [.captured graph c.where'] ∧
          (S.endCapture c).last s = { s with world := w, graphs := s.graphs.insert graph c.where' }) := by
    intro s
    refine ⟨(S.call s.world (.endCapture c.stream)).2, S.gens_call _ _, ?_⟩
    by_cases hgraph : (S.call s.world (.endCapture c.stream)).1.1 = .success ∧
        (S.call s.world (.endCapture c.stream)).1.2 ≠ 0
    · exact .inr ⟨(S.call s.world (.endCapture c.stream)).1.2, by simp [endCapture, ask, hgraph],
        by simp [endCapture, ask, hgraph]⟩
    · exact .inl ⟨by simp [endCapture, ask, hgraph], by simp [endCapture, ask, hgraph]⟩
  constructor <;> intro s <;> obtain ⟨w, hw, ⟨hlog, hlast⟩ | ⟨graph, hlog, hlast⟩⟩ := hcases s <;>
    simp [hlog, hlast, hw, collect, ReleaseEvent.Before]

end Rounds

/-! ## What every round keeps -/

end Surroundings

/-- What an entry is about. -/
def ReleaseEvent.subject : ReleaseEvent → List Holding
  | .tried x _ _ => [x]
  | .skipped x _ => [x]
  | _ => []

/-- Something is tried only in a generation that it was made in, and left alone only out of it. -/
def ReleaseEvent.Decided : ReleaseEvent → Prop
  | .tried x now _ => ∀ st, x.made = some st → now.stillCurrent st.dev st.gen = true
  | .skipped x now => ∃ st, x.made = some st ∧ now.stillCurrent st.dev st.gen = false
  | _ => True

/-- The place of something in the order of the expiry. -/
def Holding.phase : Holding → ℕ
  | .capture _ => 0
  | .handle _ _ => 2
  | .item .libraries _ _ => 3
  | .mapping _ _ => 4
  | .item .vmmHandles _ _ => 5
  | .range _ _ => 6
  | .item .graphExecs _ _ => 7
  | .item .graphs _ _ => 8
  | .item .events _ _ => 9
  | .item .streams _ _ => 10
  | .item .modules _ _ => 11
  | .item .allocs _ _ => 12
  | .item .contexts _ _ => 13

/-- The place of an entry in that order: the wait comes after the captures, the retains come last. -/
def ReleaseEvent.phase : ReleaseEvent → Option ℕ
  | .used _ _ => none
  | .captured _ _ => some 0
  | .waited _ _ => some 1
  | .tried x _ _ => some x.phase
  | .skipped x _ => some x.phase
  | .releasedPrimary _ _ _ => some 14

/-- How many failures an entry stands for. -/
def ReleaseEvent.failures : ReleaseEvent → ℕ
  | .tried _ _ r => if r = .success then 0 else 1
  | .releasedPrimary _ r _ => if r = .success then 0 else 1
  | _ => 0

/-- How many things were left alone in an entry. -/
def ReleaseEvent.skips : ReleaseEvent → ℕ
  | .skipped _ _ => 1
  | _ => 0

/-- How many things were given back in an entry. -/
def ReleaseEvent.given : ReleaseEvent → ℕ
  | .tried _ _ r => if r = .success then 1 else 0
  | .releasedPrimary _ r _ => if r = .success then 1 else 0
  | _ => 0

/-- The generations an entry was decided by. -/
def ReleaseEvent.now : ReleaseEvent → Option Generations
  | .tried _ now _ => some now
  | .skipped _ now => some now
  | _ => none

namespace Surroundings

variable {ω : Type} {S : Surroundings ω} {x : Holding} {s t : Releasing ω} {l : List ReleaseEvent} {n : ℕ}

/-- What is logged ahead of a try adds nothing to what tries add. -/
theorem before_of_mem {pre : List ReleaseEvent} {α : Type*} {f : ReleaseEvent → List α} (hpre : ∀ e ∈ pre, e.Before x)
    (hf : ∀ e, e.Before x → f e = []) : pre.flatMap f = [] := by
  rw [List.flatMap_eq_nil_iff]
  exact fun e he => hf e (hpre e he)

/-- A round is about its one holding. -/
theorem Round.subjects (h : S.Round x s l t n) : l.flatMap ReleaseEvent.subject = [x] := by
  cases h with
  | skipped => rfl
  | tried hpre =>
      rw [List.flatMap_append, before_of_mem hpre]
      · rfl
      · rintro (_ | _ | _ | _ | _ | _) he <;> first | rfl | cases he

/-- A round tries its holding or leaves it alone by the generations there are. -/
theorem Round.decided (h : S.Round x s l t n) : ∀ e ∈ l, e.Decided := by
  cases h with
  | skipped hmade hgone =>
      intro e he
      obtain rfl := List.mem_singleton.mp he
      exact ⟨_, hmade, hgone⟩
  | tried hpre hmade =>
      intro e he
      rcases List.mem_append.mp he with he | he
      · have hbefore := hpre e he
        cases e <;> trivial
      · obtain rfl := List.mem_singleton.mp he
        exact fun st hst => (hmade st hst).1

/-- A round is in the phase of its holding. -/
theorem Round.phase (h : S.Round x s l t n) : ∀ e ∈ l, ∀ k, e.phase = some k → k = x.phase := by
  cases h with
  | skipped hmade hgone =>
      intro e he k hk
      obtain rfl := List.mem_singleton.mp he
      exact (Option.some.inj hk).symm
  | tried hpre =>
      intro e he k hk
      rcases List.mem_append.mp he with he | he
      · have hbefore := hpre e he
        cases e with
        | used => cases hk
        | captured =>
            obtain ⟨c, rfl, -⟩ := hbefore
            exact (Option.some.inj hk).symm
        | _ => cases hbefore
      · obtain rfl := List.mem_singleton.mp he
        exact (Option.some.inj hk).symm

/-- The graphs that come in are those it logs. -/
theorem Round.graphs (h : S.Round x s l t n) : t.graphs = collect s.graphs l := by
  cases h with
  | skipped => rfl
  | tried _ _ _ _ _ hgraphs =>
      rw [collect_append, ← hgraphs]
      rfl

/-- What it counts is what it logs. -/
theorem Round.counts (h : S.Round x s l t n) : n = (l.map ReleaseEvent.given).sum ∧
    t.failed = s.failed + (l.map ReleaseEvent.failures).sum ∧
    t.skipped = s.skipped + (l.map ReleaseEvent.skips).sum := by
  cases h with
  | skipped => exact ⟨rfl, rfl, rfl⟩
  | tried hpre hmade hnot hgens hcurrent hgraphs hfailed hskipped =>
      have hzero : ∀ f : ReleaseEvent → ℕ, (∀ e : ReleaseEvent, e.Before x → f e = 0) →
          ∀ pre : List ReleaseEvent, (∀ e ∈ pre, e.Before x) → (pre.map f).sum = 0 := by
        intro f hf pre hpre
        refine List.sum_eq_zero fun k hk => ?_
        obtain ⟨e, he, rfl⟩ := List.mem_map.mp hk
        exact hf e (hpre e he)
      rw [hfailed, hskipped]
      simp only [List.map_append, List.sum_append]
      rw [hzero ReleaseEvent.given _ _ hpre, hzero ReleaseEvent.failures _ _ hpre,
        hzero ReleaseEvent.skips _ _ hpre]
      · simp [ReleaseEvent.given, ReleaseEvent.failures, ReleaseEvent.skips]
      all_goals rintro (_ | _ | _ | _ | _ | _) he <;> first | rfl | cases he

/-- The watch passes what is logged ahead of a try. -/
theorem accepts_before {pre : List ReleaseEvent} (hpre : ∀ e ∈ pre, e.Before x) (c : Option CUcontext) :
    contextWatch.Accepts c pre := by
  induction pre generalizing c with
  | nil => trivial
  | cons e pre ih =>
      refine ⟨?_, ih (fun e he => hpre e (List.mem_cons_of_mem _ he)) _⟩
      have hbefore := hpre e List.mem_cons_self
      cases e <;> trivial

/-- The watch passes a try where the holding's own context was asked for last. -/
theorem passes_tried {st : Stamp} (hmade : x.made = some st) {c : Option CUcontext} (now : Generations) (r : CUresult)
    (hc : c = some st.ctx) : contextWatch.Passes c (.tried x now r) := by
  have hall : ∀ st', x.made = some st' → c = some st'.ctx := by
    intro st' hst'
    rw [hmade, Option.some.injEq] at hst'
    rw [hc, hst']
  rcases x with _ | _ | ⟨_ | _, _, _⟩ | _ | _ <;> first | exact hall | cases hmade

/-- What is made current is as `contextWatch` wants it, and is kept. -/
def Watched (s : Releasing ω) (l : List ReleaseEvent) (t : Releasing ω) : Prop :=
  contextWatch.Accepts s.current l ∧ t.current = contextWatch.after s.current l

/-- What was made in a context is tried with that context current. -/
theorem Round.watched (h : S.Round x s l t n) (hmade : x.made.isSome) : Watched s l t := by
  obtain ⟨st, hst⟩ := Option.isSome_iff_exists.mp hmade
  cases h with
  | skipped => exact ⟨⟨trivial, trivial⟩, rfl⟩
  | tried hpre hmade _ _ hcurrent =>
      refine ⟨contextWatch.accepts_append.mpr ⟨accepts_before hpre _, ?_, trivial⟩, ?_⟩
      · exact passes_tried hst _ _ (hmade st hst).2
      · rw [contextWatch.after_append, ← hcurrent]
        rfl

/-- Outside every context a round changes nothing about which context is current. -/
theorem Round.watched_none (h : S.Round x s l t n) (hmade : x.made = none)
    (hcurrent : ∀ kind handle st, x = .item kind handle st → s.current = some 0) :
    Watched s l t ∧ t.current = s.current := by
  cases h with
  | skipped hsome =>
      rw [hmade] at hsome
      cases hsome
  | tried _ _ hnot _ hafter =>
      obtain rfl := hnot hmade
      refine ⟨⟨⟨?_, trivial⟩, hafter⟩, hafter⟩
      rcases x with _ | _ | ⟨_ | _, _, _⟩ | _ | _ <;>
        first | exact hcurrent _ _ _ rfl | (intro st hst; cases hst; done) | cases hmade

/-- The generations of a device only go up. -/
def Later (g g' : Generations) : Prop := ∀ dev, g.generation dev ≤ g'.generation dev

/-- The generations go up, and what is logged was decided by later ones. -/
def Ages (S : Surroundings ω) (s : Releasing ω) (l : List ReleaseEvent) (t : Releasing ω) : Prop :=
  Later (S.gens s.world) (S.gens t.world) ∧ ∀ e ∈ l, ∀ now, e.now = some now → Later (S.gens s.world) now

/-- Generations that do not go back in two parts do not in both. -/
theorem composes_ages : Composes S.Ages where
  nil _ := ⟨fun _ => le_rfl, fun e he => absurd he List.not_mem_nil⟩
  append := by
    rintro s t u l l' ⟨hst, hl⟩ ⟨htu, hl'⟩
    refine ⟨fun dev => (hst dev).trans (htu dev), fun e he now hnow => ?_⟩
    rcases List.mem_append.mp he with he | he
    · exact hl e he now hnow
    · exact fun dev => (hst dev).trans (hl' e he now hnow dev)

/-- A round lets no generation go back, if the others do not. -/
theorem Round.ages (h : S.Round x s l t n) (hgrow : ∀ w, Later (S.gens w) (S.gens (S.others w))) : S.Ages s l t := by
  cases h with
  | skipped =>
      refine ⟨hgrow _, fun e he now hnow => ?_⟩
      obtain rfl := List.mem_singleton.mp he
      exact Option.some.inj hnow ▸ hgrow _
  | tried hpre _ _ hgens =>
      refine ⟨hgens ▸ hgrow _, fun e he now hnow => ?_⟩
      rcases List.mem_append.mp he with he | he
      · have hbefore := hpre e he
        cases e <;> first | exact hbefore.elim | cases hnow
      · obtain rfl := List.mem_singleton.mp he
        exact Option.some.inj hnow ▸ hgrow _

/-! ## What every loop keeps -/

section Loops

variable {β : Type} {body : β → Release ω ℕ} {holding : β → Holding} {bs : List β}

/-- The loop is made of rounds, one about each thing. -/
def Rounds (S : Surroundings ω) (holding : β → Holding) (body : β → Release ω ℕ) : Prop :=
  ∀ b s, S.Round (holding b) s ((body b).log s) ((body b).last s) ((body b).value s)

/-- A loop of rounds is about the holdings it goes through, in order. -/
theorem Rounds.subjects (h : S.Rounds holding body) (s : Releasing ω) :
    ((total body bs).log s).flatMap ReleaseEvent.subject = bs.map holding := by
  rw [List.map_eq_flatMap]
  exact flatMap_total (fun b s => (h b s).subjects) bs s

/-- Where they are all of one phase, so is the loop. -/
theorem Rounds.phase (h : S.Rounds holding body) {k : ℕ} (hk : ∀ b ∈ bs, (holding b).phase = k) (s : Releasing ω) :
    ∀ e ∈ (total body bs).log s, ∀ j, e.phase = some j → j = k := by
  refine (composes_forall fun e => ∀ j, ReleaseEvent.phase e = some j → j = k).total (fun b hb s e he j hj => ?_) s
  rw [← hk b hb]
  exact (h b s).phase e he j hj

/-- A loop of rounds of one phase stands in that phase. -/
theorem Rounds.phased (h : S.Rounds holding body) {k : ℕ} (hk : ∀ b ∈ bs, (holding b).phase = k) (s : Releasing ω) :
    Phased ReleaseEvent.phase k (k + 1) ((total body bs).log s) := phased_of_forall (h.phase hk s)

/-- A relation that a round keeps is kept by the loop. -/
theorem Rounds.keeps {R : Releasing ω → List ReleaseEvent → Releasing ω → Prop} (hR : Composes R)
    (h : S.Rounds holding body)
    (hround : ∀ b ∈ bs, ∀ s l t n, S.Round (holding b) s l t n → R s l t) : Keeps R (total body bs) :=
  hR.total fun b hb s => hround b hb s _ _ _ (h b s)

end Loops

/-- Ending the captures is such a loop. -/
theorem rounds_endCaptures : S.Rounds Holding.capture fun c => S.release (.capture c) c.where' (S.endCapture c) :=
  fun c s => S.round_release rfl (S.quiet_endCapture c) s

/-- Releasing the library handles is such a loop. -/
theorem rounds_handles : S.Rounds (fun e : ℕ × LibHandle => .handle e.1 e.2) fun e =>
    S.release (.handle e.1 e.2) e.2.made
      (if e.2.destroy then S.destroyBy (.destroyHandle e.1) else pure .notSupported) := by
  intro e s
  refine S.round_release rfl ?_ s
  split
  · exact S.quiet_destroyBy _
  · exact S.quiet_pure _

/-- Releasing the entries of a table is such a loop. -/
theorem rounds_items {kind : ItemKind} (hkind : kind ≠ .contexts) : S.Rounds (fun e : ℕ × Stamp => .item kind e.1 e.2)
    fun e => S.release (.item kind e.1 e.2) e.2 (S.destroyBy (.destroy kind e.1)) := by
  intro e s
  refine S.round_release ?_ (S.quiet_destroyBy _) s
  cases kind <;> first | rfl | exact absurd rfl hkind

/-- Destroying the contexts the session made is such a loop. -/
theorem rounds_detached : S.Rounds (fun e : ℕ × Stamp => .item .contexts e.1 e.2)
    fun e => S.giveBack (.item .contexts e.1 e.2) (.destroy .contexts e.1) :=
  fun _ s => S.round_giveBack rfl _ s

/-- Unmapping is such a loop. -/
theorem rounds_mappings : S.Rounds (fun e : ℕ × ℕ => .mapping e.1 e.2)
    fun e => S.giveBack (.mapping e.1 e.2) (.unmapVmm e.1 e.2) :=
  fun _ s => S.round_giveBack rfl _ s

/-- Freeing the address ranges is such a loop. -/
theorem rounds_ranges : S.Rounds (fun e : ℕ × ℕ => .range e.1 e.2)
    fun e => S.giveBack (.range e.1 e.2) (.freeVmmRange e.1 e.2) :=
  fun _ s => S.round_giveBack rfl _ s

/-! ## The other parts -/

/-- Waiting asks for the context, and then waits. -/
theorem log_wait (ctx : CUcontext) (s : Releasing ω) :
    ∃ r, (S.wait ctx).log s = (S.use ctx).log s ++ [.waited ctx r] := by
  refine ⟨(S.call ((S.use ctx).last s).world .syncContext).1.1, ?_⟩
  simp [wait, ask]

/-- A relation that goes through is kept by the waiting if it is by a look at the tables and one wait. -/
theorem keeps_synchronize {R : Releasing ω → List ReleaseEvent → Releasing ω → Prop} (hR : Composes R)
    (hlook : Keeps R S.generations) (hwait : ∀ ctx, Keeps R (S.wait ctx)) (entries : List (ℕ × Stamp))
    (seen : List CUcontext) : Keeps R (S.synchronize entries seen) := by
  induction entries generalizing seen with
  | nil => exact hR.pure ()
  | cons e entries ih =>
      rw [synchronize]
      split
      · exact ih seen
      · refine hR.bind hlook fun now => ?_
        split
        · exact ih seen
        · split
          · exact ih seen
          · exact hR.bind (hwait _) fun _ => ih _

/-- The same for the middle, all of whose loops are made of rounds. -/
theorem keeps_releaseContents {R : Releasing ω → List ReleaseEvent → Releasing ω → Prop} (hR : Composes R)
    (hround : ∀ x, x.phase ≠ 13 → ∀ s l t n, S.Round x s l t n → R s l t) (inv : Inventory) (all : Table ℕ Stamp) :
    Keeps R (S.releaseContents inv all) := by
  have hitems : ∀ kind ≠ .contexts, ∀ items, Keeps R (S.releaseItems kind items) := by
    intro kind hkind items
    refine (S.rounds_items hkind).keeps hR fun e _ => hround _ ?_
    cases kind <;> first | exact absurd rfl hkind | simp [Holding.phase]
  refine hR.bind (S.rounds_handles.keeps hR fun e _ => hround _ (by simp [Holding.phase])) fun _ => ?_
  refine hR.bind (hitems _ (by decide) _) fun _ => ?_
  refine hR.bind (S.rounds_mappings.keeps hR fun e _ => hround _ (by simp [Holding.phase])) fun _ => ?_
  refine hR.bind (hitems _ (by decide) _) fun _ => ?_
  refine hR.bind (S.rounds_ranges.keeps hR fun e _ => hround _ (by simp [Holding.phase])) fun _ => ?_
  refine hR.bind (hitems _ (by decide) _) fun _ => hR.bind (hitems _ (by decide) _) fun _ => ?_
  refine hR.bind (hitems _ (by decide) _) fun _ => hR.bind (hitems _ (by decide) _) fun _ => ?_
  refine hR.bind (hitems _ (by decide) _) fun _ => hR.bind (hitems _ (by decide) _) fun _ => ?_
  exact hR.pure _

/-- And for the whole. -/
theorem keeps_releaseInventory {R : Releasing ω → List ReleaseEvent → Releasing ω → Prop} (hR : Composes R)
    (hlook : Keeps R S.generations) (huse : ∀ ctx, Keeps R (S.use ctx)) (hwait : ∀ ctx, Keeps R (S.wait ctx))
    (hround : ∀ x s l t n, S.Round x s l t n → R s l t) (hretains : ∀ dev n, Keeps R (S.releaseRetainsOf dev n))
    (inv : Inventory) : Keeps R (S.releaseInventory inv) := by
  refine hR.bind (S.rounds_endCaptures.keeps hR fun c _ => hround _) fun _ => ?_
  refine hR.bind (fun s => hR.nil s) fun all => ?_
  refine hR.bind (keeps_synchronize hR hlook hwait _ _) fun _ => ?_
  refine hR.bind (keeps_releaseContents hR (fun x _ => hround x) inv all) fun _ => ?_
  refine hR.bind (huse 0) fun _ => ?_
  refine hR.bind (S.rounds_detached.keeps hR fun c _ => hround _) fun _ => ?_
  refine hR.bind (hR.total fun e _ => hretains e.1 e.2) fun _ => ?_
  exact hR.bind (fun s => hR.nil s) fun _ => hR.pure _

/-- Reading the generations logs nothing. -/
theorem log_generations (s : Releasing ω) : (S.generations).log s = [] := rfl

/-- What a release of a primary context does. -/
theorem releasePrimary_spec (dev : Device) (s : Releasing ω) : ∃ r ended w,
    (S.releasePrimary dev).value s = r ∧ (S.releasePrimary dev).log s = [.releasedPrimary dev r ended] ∧
      (S.releasePrimary dev).last s = { s with world := w } ∧ (ended = true → r = .success) := by
  set w := S.others s.world with hw
  by_cases hr : (S.call w (.releasePrimary dev)).1.1 = .success
  · by_cases hended : (S.call (S.call w (.releasePrimary dev)).2 (.getState dev)).1.1 = .success ∧
        (S.call (S.call w (.releasePrimary dev)).2 (.getState dev)).1.2 = 0
    · refine ⟨.success, true, S.bump (S.call (S.call w (.releasePrimary dev)).2 (.getState dev)).2 dev, ?_⟩
      simp [releasePrimary, generations, ask, ← hw, hr, hended]
    · refine ⟨.success, false, (S.call (S.call w (.releasePrimary dev)).2 (.getState dev)).2, ?_⟩
      simp [releasePrimary, generations, ask, ← hw, hr, hended]
      exact fun hq => decide_eq_false fun hactive => hended ⟨of_decide_eq_true hq, hactive⟩
  · refine ⟨(S.call w (.releasePrimary dev)).1.1, false, (S.call w (.releasePrimary dev)).2, ?_⟩
    simp [releasePrimary, generations, ask, ← hw, hr]

end Surroundings

/-- Of `n` releases these were made: none after one that failed, and fewer than `n` only after one that failed. -/
structure Drained (n : ℕ) (rs : List CUresult) : Prop where
  most : rs.length ≤ n
  succeeded : ∀ r ∈ rs.dropLast, r = .success
  stopped : rs.length < n → ∃ r, rs.getLast? = some r ∧ r ≠ .success

/-- Nothing to release, nothing released. -/
theorem drained_zero : Drained 0 [] where
  most := le_rfl
  succeeded _ hr := absurd hr List.not_mem_nil
  stopped h := absurd h (Nat.lt_irrefl 0)

/-- A release that fails is the last. -/
theorem drained_failed {r : CUresult} (hr : r ≠ .success) (n : ℕ) : Drained (n + 1) [r] where
  most := Nat.le_add_left 1 n
  succeeded _ h := absurd h List.not_mem_nil
  stopped _ := ⟨r, rfl, hr⟩

/-- One that succeeds leaves one retain less to release. -/
theorem Drained.succ {n : ℕ} {rs : List CUresult} (h : Drained n rs) : Drained (n + 1) (.success :: rs) where
  most := Nat.succ_le_succ h.most
  succeeded r hr := by
    cases rs with
    | nil => exact absurd hr List.not_mem_nil
    | cons r' rs =>
        rw [List.dropLast_cons_cons, List.mem_cons] at hr
        exact hr.elim id (h.succeeded r)
  stopped hlt := by
    obtain ⟨r, hlast, hr⟩ := h.stopped (Nat.lt_of_succ_lt_succ hlt)
    refine ⟨r, ?_, hr⟩
    rw [List.getLast?_cons, hlast]
    rfl

namespace Surroundings

variable {ω : Type} {S : Surroundings ω}

/-- What the releases owed for a device do. -/
theorem releaseRetainsOf_spec (dev : Device) (n : ℕ) (s : Releasing ω) : ∃ (rs : List (CUresult × Bool)) (w : ω),
    (S.releaseRetainsOf dev n).log s = rs.map (fun r => .releasedPrimary dev r.1 r.2) ∧
      (∀ r ∈ rs, r.2 = true → r.1 = .success) ∧ Drained n (rs.map Prod.fst) ∧
      (S.releaseRetainsOf dev n).value s = (rs.map Prod.fst).count .success ∧
      (S.releaseRetainsOf dev n).last s = { s with
        world := w, failed := s.failed + (rs.length - (rs.map Prod.fst).count .success) } := by
  induction n generalizing s with
  | zero => exact ⟨[], s.world, rfl, fun r hr => absurd hr List.not_mem_nil, drained_zero, rfl, rfl⟩
  | succ n ih =>
      obtain ⟨r, ended, w, hvalue, hlog, hlast, hended⟩ := S.releasePrimary_spec dev s
      by_cases hr : r = .success
      · obtain ⟨rs, w', hlog', hended', hdrained, hvalue', hlast'⟩ := ih { s with world := w }
        subst hr
        refine ⟨(.success, ended) :: rs, w', ?_, ?_, hdrained.succ, ?_, ?_⟩
        · simp [releaseRetainsOf, hvalue, hlog, hlast, hlog']
        · rintro r hr
          rcases List.mem_cons.mp hr with rfl | hr
          · exact fun _ => rfl
          · exact hended' r hr
        · simp [releaseRetainsOf, hvalue, hlast, hvalue']
        · simp [releaseRetainsOf, hvalue, hlast, hlast']
      · refine ⟨[(r, ended)], w, ?_, ?_, drained_failed hr n, ?_, ?_⟩
        · simp [releaseRetainsOf, hvalue, hlog, hr]
        · intro r' hr'
          obtain rfl := List.mem_singleton.mp hr'
          exact hended
        · simp [releaseRetainsOf, hvalue, hlast, hr]
        · simp [releaseRetainsOf, hvalue, hlast, hr]

/-- What the watch passes in two parts it passes in both. -/
theorem composes_watched : Composes fun (s : Releasing ω) l t => Watched s l t :=
  contextWatch.composes Releasing.current

/-- Where no context is current none becomes so. -/
def Detached (s : Releasing ω) (l : List ReleaseEvent) (t : Releasing ω) : Prop :=
  s.current = some 0 → Watched s l t ∧ t.current = some 0

/-- What the watch passes in two parts, where no context is asked for, it passes in both. -/
theorem composes_detached : Composes fun (s : Releasing ω) l t => Detached s l t where
  nil s h := ⟨composes_watched.nil s, h⟩
  append := by
    intro s t u l l' hl hl' hs
    obtain ⟨hwatched, ht⟩ := hl hs
    obtain ⟨hwatched', hu⟩ := hl' ht
    exact ⟨composes_watched.append hwatched hwatched', hu⟩

/-- A part that stays without a context begins in one that is without. -/
theorem Keeps.detached {α : Type} {r : Release ω α} {s : Releasing ω} (hr : Keeps Detached r)
    (hs : s.current = some 0) : Watched s (r.log s) (r.last s) := (hr s hs).1

/-- The watch follows what is asked for. -/
theorem watched_use (ctx : CUcontext) : Keeps Watched (S.use ctx) := by
  intro s
  rw [Watched, S.after_use]
  exact ⟨accepts_before (S.before_use (.mapping 0 0) ctx s) _, S.current_use ctx s⟩

/-- The watch passes a wait with the context asked for. -/
theorem watched_wait (ctx : CUcontext) : Keeps Watched (S.wait ctx) := by
  intro s
  obtain ⟨r, hlog⟩ := S.log_wait ctx s
  rw [hlog]
  refine composes_watched.append (S.watched_use ctx s) (t := (S.wait ctx).last s) ⟨⟨?_, trivial⟩, ?_⟩
  · exact S.current_use ctx s
  · rfl

/-- Contexts are destroyed with no context asked for. -/
theorem detached_contexts (contexts : Table ℕ Stamp) : Keeps Detached (S.releaseDetached contexts) := by
  refine S.rounds_detached.keeps composes_detached fun e _ s l t n h hs => ?_
  obtain ⟨hwatched, ht⟩ := h.watched_none rfl fun _ _ _ _ => hs
  exact ⟨hwatched, ht.trans hs⟩

/-- The watch passes releases of primary contexts, which ask for none. -/
theorem watched_releasedPrimary (dev : Device) (rs : List (CUresult × Bool)) :
    contextWatch.Accepts (some 0) (rs.map fun r => .releasedPrimary dev r.1 r.2) ∧
      contextWatch.after (some 0) (rs.map fun r => .releasedPrimary dev r.1 r.2) = some 0 := by
  induction rs with
  | nil => exact ⟨trivial, rfl⟩
  | cons r rs ih => exact ⟨⟨rfl, ih.1⟩, ih.2⟩

/-- Primary contexts are released with no context asked for. -/
theorem detached_retains (retains : Table Device ℕ) : Keeps Detached (S.releaseRetains retains) := by
  refine composes_detached.total fun e _ s hs => ?_
  obtain ⟨rs, w, hlog, -, -, -, hlast⟩ := S.releaseRetainsOf_spec e.1 e.2 s
  obtain ⟨haccepts, hafter⟩ := watched_releasedPrimary e.1 rs
  rw [hlog, hlast, Watched]
  simp only [hs, hafter]
  exact ⟨⟨haccepts, trivial⟩, trivial⟩

/-- A round about anything but a context. -/
theorem Round.watched_contents {x : Holding} {s t : Releasing ω} {l : List ReleaseEvent} {n : ℕ}
    (h : S.Round x s l t n) (hx : x.phase ≠ 13) : Watched s l t := by
  cases hmade : x.made with
  | some st => exact h.watched (by rw [hmade]; rfl)
  | none =>
      refine (h.watched_none hmade ?_).1
      rintro kind handle st rfl
      cases kind <;> first | exact absurd rfl hx | cases hmade

/-- **The watch passes a whole expiry.** -/
theorem watched_releaseInventory (inv : Inventory) : Keeps Watched (S.releaseInventory inv) := by
  have hR := composes_watched (ω := ω)
  refine hR.bind (S.rounds_endCaptures.keeps hR fun c _ s l t n h => h.watched rfl) fun _ => ?_
  refine hR.bind (fun s => hR.nil s) fun all => ?_
  refine hR.bind (keeps_synchronize hR (fun s => ⟨trivial, rfl⟩) watched_wait _ _) fun _ => ?_
  refine hR.bind (keeps_releaseContents hR (fun x hx s l t n h => h.watched_contents hx) inv all) fun _ => ?_
  -- once no context is current, the contexts and the retains leave it so
  refine hR.bind_after (watched_use 0) (S.current_use 0) fun _ s hs => Keeps.detached ?_ hs
  refine composes_detached.bind (detached_contexts _) fun _ => ?_
  refine composes_detached.bind (detached_retains _) fun _ => ?_
  exact composes_detached.bind (fun s => composes_detached.nil s) fun _ => composes_detached.pure _

end Surroundings

end Rgpu
