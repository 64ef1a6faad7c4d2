import Rgpu.Driver.Contexts
import Rgpu.Foundations.Table
import Mathlib.Algebra.Group.Nat.Defs
import Mathlib.Data.Fintype.Basic
import Mathlib.Logic.Function.Basic

/-! # What a session has taken from the driver

The record the server keeps of what each session holds, so that it can be given back when the session
expires (`server/inventory.h`), and the bookkeeping under every call that makes or destroys something
(the recording half of `server/inventory.cpp`).

* **`Generations`** — the tables of the process: whose primary context a handle is, and how many times
  the primary context of a device has been seen destroyed.
* **`Stamp`** — where something was made: a context and, for a primary context, its device and
  generation.
* **`Inventory`** — the tables of one session, with the reverse index `byCtx` beside them.

A thread that serves no session records nothing, so the operations here are those of a serving
thread on the inventory of its session; what they do they do under that inventory's mutex. -/

namespace Rgpu

open Foundations

/-- A device. -/
abbrev Device := ℕ

/-! ## Primary-context generations -/

/-- A generation no primary context ever reaches, `~uint64_t{0}`. -/
def kEndedGeneration : ℕ := 2 ^ 64 - 1

/-- Where something was made. -/
structure Stamp where
  /-- The context that was current; `0` for none. -/
  ctx : CUcontext := 0
  /-- The device, if that was a primary context. -/
  dev : Option Device := none
  /-- The generation of that device's primary context at the time. -/
  gen : ℕ := 0
  deriving DecidableEq, Repr

/-- The tables of the process, under `g_gen_mu`. -/
structure Generations where
  /-- `g_primary_dev`: the device whose primary context a handle is. -/
  primaryDev : Table CUcontext Device := .empty
  /-- `g_primary_gen`: the generation of a device's primary context. -/
  primaryGen : Table Device ℕ := .empty

namespace Generations

/-- `learn_primary`. -/
def learnPrimary (g : Generations) (ctx : CUcontext) (dev : Device) : Generations :=
  if ctx = 0 then g else { g with primaryDev := g.primaryDev.insert ctx dev }

/-- `generation`. -/
def generation (g : Generations) (dev : Device) : ℕ := (g.primaryGen.find dev).getD 0

/-- `bump_generation`, on a 64-bit counter. -/
def bumpGeneration (g : Generations) (dev : Device) : Generations :=
  { g with primaryGen := g.primaryGen.insert dev ((g.generation dev + 1) % 2 ^ 64) }

/-- `stamp_context`: the context and, if it is a primary context, its device and generation. -/
def stampContext (g : Generations) (ctx : CUcontext) : Stamp :=
  match g.primaryDev.find ctx with
  | none => { ctx := ctx }
  | some d => { ctx := ctx, dev := some d, gen := g.generation d }

/-- `still_current`: whether an entry is still what it was when it was made. -/
def stillCurrent (g : Generations) (dev : Option Device) (gen : ℕ) : Bool :=
  if gen = kEndedGeneration then false
  else
    match dev with
    | none => true
    | some d => g.generation d = gen

/-- `primary_handles`: the handles learned for a device. -/
def primaryHandles (g : Generations) (dev : Device) : List CUcontext :=
  (g.primaryDev.entries.filter fun e => e.2 = dev).map Prod.fst

/-- The handles of a device's primary context are those that were learned of it. -/
theorem mem_primaryHandles {g : Generations} {dev : Device} {ctx : CUcontext} :
    ctx ∈ g.primaryHandles dev ↔ g.primaryDev.find ctx = some dev := by
  rw [primaryHandles, List.mem_map, Table.find_eq_some_iff]
  constructor
  · rintro ⟨⟨c, d⟩, he, rfl⟩
    rw [List.mem_filter, decide_eq_true_iff] at he
    obtain ⟨hmem, rfl⟩ := he
    exact hmem
  · intro h
    exact ⟨(ctx, dev), List.mem_filter.mpr ⟨h, by simp⟩, rfl⟩

end Generations

/-! ## The tables of a session -/

/-- The tables that are keyed by a driver handle. -/
inductive ItemKind
  | allocs
  | contexts
  | modules
  | streams
  | events
  | graphs
  | graphExecs
  | libraries
  | vmmHandles
  deriving DecidableEq, Repr

/-- `Inventory::CtxMap`: the tables a context teardown sweeps. -/
inductive CtxMap
  | kAllocs
  | kModules
  | kStreams
  | kEvents
  | kGraphs
  | kGraphExecs
  deriving DecidableEq, Repr

instance : Fintype CtxMap where
  elems := {.kAllocs, .kModules, .kStreams, .kEvents, .kGraphs, .kGraphExecs}
  complete s := by cases s <;> decide

/-- `ctx_slot`: the slot of a table in the reverse index, or none for a table that no context teardown
sweeps. -/
def ItemKind.ctxSlot : ItemKind → Option CtxMap
  | .allocs => some .kAllocs
  | .modules => some .kModules
  | .streams => some .kStreams
  | .events => some .kEvents
  | .graphs => some .kGraphs
  | .graphExecs => some .kGraphExecs
  -- what a context's teardown leaves alone
  | .contexts | .libraries | .vmmHandles => none

/-- `ctx_map`: the table a slot points into. -/
def CtxMap.ctxMap : CtxMap → ItemKind
  | .kAllocs => .allocs
  | .kModules => .modules
  | .kStreams => .streams
  | .kEvents => .events
  | .kGraphs => .graphs
  | .kGraphExecs => .graphExecs

/-- A slot points into the table that has it. -/
theorem ItemKind.ctxSlot_eq_some_iff {k : ItemKind} {s : CtxMap} : k.ctxSlot = some s ↔ k = s.ctxMap := by
  cases k <;> cases s <;> simp [ItemKind.ctxSlot, CtxMap.ctxMap]

/-- A slot of the index, by the table it stands for. -/
@[simp] theorem CtxMap.ctxSlot_ctxMap (s : CtxMap) : s.ctxMap.ctxSlot = some s :=
  ItemKind.ctxSlot_eq_some_iff.mpr rfl

/-- `Inventory::LibHandle`: a maths-library handle. -/
structure LibHandle where
  /-- Where it was made. -/
  made : Stamp
  /-- Whether the library that minted it left a way to destroy it. -/
  destroy : Bool := true
  deriving DecidableEq, Repr

/-- `Inventory::OpenCapture`: a stream capture the session began and has not ended. -/
structure OpenCapture where
  /-- The stream; `0` for the default stream of the context the capture is in. -/
  stream : ℕ
  /-- Where the stream is. -/
  where' : Stamp
  deriving DecidableEq, Repr

/-- `Inventory::CtxEntries`: what one bucket of the reverse index lists. -/
structure CtxEntries where
  /-- The handles in each swept table that were made in the context. -/
  inn : CtxMap → Finset ℕ := fun _ => ∅
  /-- The library handles made in it. -/
  handles : Finset ℕ := ∅

namespace CtxEntries

/-- The set under a slot; `none` stands for the library handles. -/
def listed (e : CtxEntries) : Option CtxMap → Finset ℕ
  | some s => e.inn s
  | none => e.handles

/-- Change the set under a slot. -/
def adjust (e : CtxEntries) (slot : Option CtxMap) (f : Finset ℕ → Finset ℕ) : CtxEntries :=
  match slot with
  | some s => { e with inn := Function.update e.inn s (f (e.inn s)) }
  | none => { e with handles := f e.handles }

/-- Nothing is left in it. -/
def isEmpty (e : CtxEntries) : Bool := (e.handles = ∅) && decide (∀ s, e.inn s = ∅)

/-- Nothing is listed in an empty bucket. -/
@[simp] theorem listed_default (slot : Option CtxMap) : ({} : CtxEntries).listed slot = ∅ := by
  cases slot <;> rfl

/-- Changing one slot of a bucket leaves the others. -/
theorem listed_adjust (e : CtxEntries) (slot slot' : Option CtxMap) (f : Finset ℕ → Finset ℕ) :
    (e.adjust slot f).listed slot' = if slot' = slot then f (e.listed slot') else e.listed slot' := by
  cases slot <;> cases slot' <;> simp [adjust, listed, Function.update_apply]
  split <;> simp_all

/-- A bucket is empty if every slot is. -/
theorem isEmpty_iff {e : CtxEntries} : e.isEmpty = true ↔ ∀ slot, e.listed slot = ∅ := by
  rw [isEmpty, Bool.and_eq_true, decide_eq_true_iff, decide_eq_true_iff, Option.forall]
  rfl

end CtxEntries

/-- `Inventory`. -/
structure Inventory where
  /-- `allocs`, `contexts`, `modules`, `streams`, `events`, `graphs`, `graph_execs`, `libraries` and
  `vmm_handles`. -/
  items : ItemKind → Table ℕ Stamp := fun _ => .empty
  /-- Mappings, as start and length. -/
  vmmMaps : Table ℕ ℕ := .empty
  /-- Reserved address ranges, as start and length. -/
  vmmRanges : Table ℕ ℕ := .empty
  captures : List OpenCapture := []
  handles : Table ℕ LibHandle := .empty
  byCtx : Table CUcontext CtxEntries := .empty
  /-- Per device, how many retains the session holds. -/
  primaryRetains : Table Device ℕ := .empty

namespace Inventory

/-! ## The reverse index -/

/-- `index_drop_if_empty`, for the bucket of `ctx`. -/
def indexDropIfEmpty (inv : Inventory) (ctx : CUcontext) : Inventory :=
  match inv.byCtx.find ctx with
  | none => inv
  | some e => if e.isEmpty then { inv with byCtx := inv.byCtx.erase ctx } else inv

/-- `index_add`, and `index_add_handle` for the slot `none`: list `handle` under a slot of the bucket
of `ctx`, which is made if need be. Under a null context nothing is listed. -/
def indexAdd (inv : Inventory) (ctx : CUcontext) (slot : Option CtxMap) (handle : ℕ) : Inventory :=
  if ctx = 0 then inv
  else
    { inv with
      byCtx := inv.byCtx.insert ctx
        (((inv.byCtx.find ctx).getD {}).adjust slot (insert handle)) }

/-- `index_remove`, and `index_remove_handle` for the slot `none`: take `handle` out of a slot of the
bucket of `ctx`. -/
def indexRemove (inv : Inventory) (ctx : CUcontext) (slot : Option CtxMap) (handle : ℕ) : Inventory :=
  if ctx = 0 then inv
  else
    match inv.byCtx.find ctx with
    | none => inv
    | some e =>
        { inv with
          byCtx := inv.byCtx.insert ctx (e.adjust slot (Finset.erase · handle)) }.indexDropIfEmpty ctx

/-! ## Recording -/

/-- Replace one of the tables. -/
def setItems (inv : Inventory) (which : ItemKind) (t : Table ℕ Stamp) : Inventory :=
  { inv with items := Function.update inv.items which t }

/-- Replace the table of the library handles. -/
def setHandles (inv : Inventory) (t : Table ℕ LibHandle) : Inventory := { inv with handles := t }

/-- A re-note of a handle under another context must not leave it indexed under the old one. -/
def indexRenote (inv : Inventory) (old : Option Stamp) (ctx : CUcontext) (slot : Option CtxMap)
    (handle : ℕ) : Inventory :=
  match old with
  | none => inv
  | some old => if old.ctx ≠ ctx then inv.indexRemove old.ctx slot handle else inv

/-- `note`. A table without a slot is not indexed. -/
def note (inv : Inventory) (which : ItemKind) (handle : ℕ) (st : Stamp) : Inventory :=
  if handle = 0 then inv
  else
    let items := (inv.items which).insert handle st
    match which.ctxSlot with
    | none => inv.setItems which items
    | some s =>
        -- a handle that is handed out again leaves the bucket it was in
        let inv := inv.indexRenote ((inv.items which).find handle) st.ctx (some s) handle
        (inv.setItems which items).indexAdd st.ctx (some s) handle

/-- `forget`. -/
def forget (inv : Inventory) (which : ItemKind) (handle : ℕ) : Inventory :=
  let items := (inv.items which).erase handle
  match which.ctxSlot, (inv.items which).find handle with
  | some s, some old => (inv.indexRemove old.ctx (some s) handle).setItems which items
  | _, _ => inv.setItems which items

/-- `inventory_note_handle`. -/
def noteHandle (inv : Inventory) (handle : ℕ) (l : LibHandle) : Inventory :=
  if handle = 0 then inv
  else
    let handles := inv.handles.insert handle l
    let inv := inv.indexRenote ((inv.handles.find handle).map LibHandle.made) l.made.ctx none handle
    (inv.setHandles handles).indexAdd l.made.ctx none handle

/-- `inventory_forget_handle`. -/
def forgetHandle (inv : Inventory) (handle : ℕ) : Inventory :=
  let handles := inv.handles.erase handle
  match inv.handles.find handle with
  | some old => (inv.indexRemove old.made.ctx none handle).setHandles handles
  | none => inv.setHandles handles

/-- `note_primary_retain` with a delta of `1`. -/
def noteRetain (inv : Inventory) (dev : Device) : Inventory :=
  { inv with
    primaryRetains := inv.primaryRetains.insert dev ((inv.primaryRetains.find dev).getD 0 + 1) }

/-- `note_primary_retain` with a delta of `-1`: a release that was not owed does not count. -/
def noteRelease (inv : Inventory) (dev : Device) : Inventory :=
  { inv with
    primaryRetains := inv.primaryRetains.insert dev ((inv.primaryRetains.find dev).getD 0 - 1) }

/-- `note_sized`, on the mappings. -/
def noteMap (inv : Inventory) (start bytes : ℕ) : Inventory :=
  if start = 0 then inv else { inv with vmmMaps := inv.vmmMaps.insert start bytes }

/-- `forget_sized`, on the mappings. -/
def forgetMap (inv : Inventory) (start : ℕ) : Inventory :=
  { inv with vmmMaps := inv.vmmMaps.erase start }

/-- `note_sized`, on the address ranges. -/
def noteRange (inv : Inventory) (start bytes : ℕ) : Inventory :=
  if start = 0 then inv else { inv with vmmRanges := inv.vmmRanges.insert start bytes }

/-- `forget_sized`, on the address ranges. -/
def forgetRange (inv : Inventory) (start : ℕ) : Inventory :=
  { inv with vmmRanges := inv.vmmRanges.erase start }

/-- What `w_cuStreamBeginCapture_v2` records. -/
def beginCapture (inv : Inventory) (stream : ℕ) (st : Stamp) : Inventory :=
  { inv with captures := inv.captures ++ [⟨stream, st⟩] }

/-- `forget_capture`: the first open capture on the stream and, on the default stream, in `ctx`. -/
def forgetCapture (inv : Inventory) (stream : ℕ) (ctx : CUcontext) : Inventory :=
  { inv with
    captures := inv.captures.eraseP fun c => c.stream = stream ∧ (stream ≠ 0 ∨ c.where'.ctx = ctx) }

/-- `stamp_of`: where `source` was recorded; the current context for the null source; and a generation
that has ended for a source this session has no record of. -/
def stampOf (inv : Inventory) (g : Generations) (current : CUcontext) (which : ItemKind) (source : ℕ) :
    Stamp :=
  if source = 0 then g.stampContext current
  else
    match (inv.items which).find source with
    | some st => st
    -- made from an object of another session: where it lives is not known
    | none => { g.stampContext current with gen := kEndedGeneration }

/-! ## Forgetting in bulk -/

/-- Filter every swept table, each by a test of its own. -/
def filterItems (inv : Inventory) (keep : CtxMap → ℕ → Stamp → Bool) : Inventory :=
  { inv with
    items := fun k =>
      match k.ctxSlot with
      | none => inv.items k
      | some s => (inv.items k).filter (keep s) }

/-- Keep the captures whose place passes the test. -/
def filterCaptures (inv : Inventory) (keep : Stamp → Bool) : Inventory :=
  { inv with captures := inv.captures.filter fun c => keep c.where' }

/-- Take what the bucket of `ctx` lists out of the tables, and the bucket with it. -/
def eraseBucket (inv : Inventory) (ctx : CUcontext) : Inventory :=
  match inv.byCtx.find ctx with
  | none => inv
  | some b =>
      { inv.filterItems fun s h _ => h ∉ b.inn s with
        handles := inv.handles.filter fun h _ => h ∉ b.handles
        byCtx := inv.byCtx.erase ctx }

/-- `forget_under`. -/
def forgetUnder (inv : Inventory) (ctx : CUcontext) : Inventory :=
  (inv.eraseBucket ctx).filterCaptures fun st => st.ctx ≠ ctx

/-- `forget_context`. -/
def forgetContext (inv : Inventory) (ctx : CUcontext) : Inventory :=
  (inv.setItems .contexts ((inv.items .contexts).erase ctx)).forgetUnder ctx

/-- An entry made in the primary context of `dev`, in another generation than `now`. -/
def outdated (dev : Device) (now : ℕ) (st : Stamp) : Bool := (st.dev = some dev) && (st.gen ≠ now)

/-- One bucket of `forget_primary`: what it lists that is outdated goes from the tables and the bucket,
and what it lists that is in no table goes from the bucket. -/
def sweepBucket (inv : Inventory) (dev : Device) (now : ℕ) (ctx : CUcontext) : Inventory :=
  match inv.byCtx.find ctx with
  | none => inv
  | some b =>
      let stays : Option Stamp → Bool
        | none => false
        | some st => !outdated dev now st
      { inv.filterItems fun s h st => !(decide (h ∈ b.inn s) && outdated dev now st) with
        handles := inv.handles.filter fun h l => !(decide (h ∈ b.handles) && outdated dev now l.made)
        byCtx := inv.byCtx.insert ctx
          { inn := fun s => (b.inn s).filter fun h => stays ((inv.items s.ctxMap).find h)
            handles := b.handles.filter fun h => stays ((inv.handles.find h).map LibHandle.made) }
        : Inventory }.indexDropIfEmpty ctx

/-- `forget_primary`. -/
def forgetPrimary (inv : Inventory) (g : Generations) (dev : Device) : Inventory :=
  let now := g.generation dev
  ((g.primaryHandles dev).foldl (fun inv ctx => inv.sweepBucket dev now ctx) inv).filterCaptures
    fun st => !outdated dev now st

end Inventory

end Rgpu
