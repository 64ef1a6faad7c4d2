import Rgpu.Server.Inventory
import Rgpu.Server.ObservedState
import Mathlib.Data.Finset.Insert

/-! # Calls that create something (`server/inventory.cpp`)

A creating call is the driver's own call with a line of bookkeeping after it; the result of the request is settled
behind both, when an earlier failure of the thread may take its place.

* **`World`** — the inventory of a session, and what the driver has.
* **`World.create`** — the wrappers of the creating calls.
* **`Server.creation_atomic_iff`** — which errors are reported by calls that created nothing. -/

namespace Rgpu

open Foundations

/-- A live object of the driver; its contexts are in `Driver`. -/
inductive Resource
  | item (which : ItemKind) (handle : ℕ)
  | range (start : ℕ)
  | mapping (start : ℕ)
  deriving DecidableEq

/-- The inventory of a session, and what the driver has. -/
structure World where
  inventory : Inventory := {}
  generations : Generations := {}
  live : Finset Resource := ∅
  /-- How often the primary context of a device is retained, by any session. -/
  retained : Device → ℕ := fun _ => 0

instance : Inhabited World := ⟨{}⟩

/-- The calls that create something that is listed by its handle. -/
inductive ItemCall
  | cuMemAlloc_v2
  | cuMemAllocPitch_v2
  | cuMemAllocAsync
  | cuMemAllocFromPoolAsync
  | cuModuleLoad
  | cuModuleLoadData
  | cuModuleLoadFatBinary
  | cuLibraryLoadData
  | cuMemCreate
  | cuStreamCreate
  | cuStreamCreateWithPriority
  | cuEventCreate
  | cuGraphCreate
  | cuGraphClone
  | cuGraphInstantiateWithFlags
  deriving DecidableEq

/-- The id a call travels under. -/
def ItemCall.api : ItemCall → ApiId
  | .cuMemAlloc_v2 => 254
  | .cuMemAllocPitch_v2 => 253
  | .cuMemAllocAsync => 249
  | .cuMemAllocFromPoolAsync => 250
  | .cuModuleLoad => 344
  | .cuModuleLoadData => 345
  | .cuModuleLoadFatBinary => 347
  | .cuLibraryLoadData => 237
  | .cuMemCreate => 256
  | .cuStreamCreate => 377
  | .cuStreamCreateWithPriority => 378
  | .cuEventCreate => 86
  | .cuGraphCreate => 134
  | .cuGraphClone => 132
  | .cuGraphInstantiateWithFlags => 166

/-- A creating call, with the arguments that are recorded; `source` is the graph a graph is made from. -/
inductive Creation
  | item (call : ItemCall) (source : ℕ)
  | addressReserve (size : ℕ)
  | memMap (ptr size : ℕ)
  | primaryCtxRetain (dev : Device)
  | ctxCreate (out : Bool)
  deriving DecidableEq

/-- What a creating call travels as. -/
def Creation.call : Creation → Call
  | .item c _ => .other c.api
  | .addressReserve _ => .other 246
  | .memMap _ _ => .other 273
  | .primaryCtxRetain _ => .other Api.cuDevicePrimaryCtxRetain
  | .ctxCreate out => .ctxCreate out

namespace World

/-! ### The wrappers -/

/-- The driver refuses, or hands out a handle that nothing live of the kind has; the handle is noted. -/
def noting (w : World) (which : ItemKind) (st : Stamp) (answer : Except CUerror ℕ) : World × CUresult :=
  match answer with
  | .error e => (w, e.1)
  | .ok h =>
      if h = 0 ∨ .item which h ∈ w.live then (w, .outOfMemory)
      else ({ w with live := insert (.item which h) w.live, inventory := w.inventory.note which h st }, .success)

section Members

variable (w : World) (current : CUcontext) (source : ℕ) (answer : Except CUerror ℕ)

/-- `stamp`. -/
def stamp : Stamp := w.generations.stampContext current

/-- `stamp_of`, for a graph. -/
def stampOfGraph : Stamp := w.inventory.stampOf w.generations current .graphs source

def wCuMemAlloc_v2 : World × CUresult := w.noting .allocs (w.stamp current) answer

def wCuMemAllocPitch_v2 : World × CUresult := w.noting .allocs (w.stamp current) answer

def wCuMemAllocAsync : World × CUresult := w.noting .allocs (w.stamp current) answer

def wCuMemAllocFromPoolAsync : World × CUresult := w.noting .allocs (w.stamp current) answer

def wCuModuleLoad : World × CUresult := w.noting .modules (w.stamp current) answer

def wCuModuleLoadData : World × CUresult := w.noting .modules (w.stamp current) answer

def wCuModuleLoadFatBinary : World × CUresult := w.noting .modules (w.stamp current) answer

/-- A library is of no context. -/
def wCuLibraryLoadData : World × CUresult := w.noting .libraries {} answer

def wCuMemCreate : World × CUresult := w.noting .vmmHandles {} answer

def wCuStreamCreate : World × CUresult := w.noting .streams (w.stamp current) answer

def wCuStreamCreateWithPriority : World × CUresult := w.noting .streams (w.stamp current) answer

def wCuEventCreate : World × CUresult := w.noting .events (w.stamp current) answer

def wCuGraphCreate : World × CUresult := w.noting .graphs (w.stamp current) answer

/-- What is made from a graph is where the graph is. -/
def wCuGraphClone : World × CUresult := w.noting .graphs (w.stampOfGraph current source) answer

def wCuGraphInstantiateWithFlags : World × CUresult := w.noting .graphExecs (w.stampOfGraph current source) answer

end Members

/-- `w_cuMemAddressReserve` -/
def wCuMemAddressReserve (w : World) (size : ℕ) (answer : Except CUerror ℕ) : World × CUresult :=
  match answer with
  | .error e => (w, e.1)
  | .ok start =>
      if start = 0 ∨ .range start ∈ w.live then (w, .outOfMemory)
      else ({ w with live := insert (.range start) w.live, inventory := w.inventory.noteRange start size }, .success)

/-- `w_cuMemMap`; where something is mapped, the driver maps nothing else. -/
def wCuMemMap (w : World) (ptr size : ℕ) (answer : Except CUerror ℕ) : World × CUresult :=
  match answer with
  | .error e => (w, e.1)
  | .ok _ =>
      if .mapping ptr ∈ w.live then (w, .invalidValue)
      else ({ w with live := insert (.mapping ptr) w.live, inventory := w.inventory.noteMap ptr size }, .success)

/-- `w_cuDevicePrimaryCtxRetain` -/
def wCuDevicePrimaryCtxRetain (w : World) (dev : Device) (answer : Except CUerror ℕ) : World × CUresult :=
  match answer with
  | .error e => (w, e.1)
  | .ok ctx =>
      ({ w with
          retained := Function.update w.retained dev (w.retained dev + 1)
          generations := w.generations.learnPrimary ctx dev
          inventory := w.inventory.noteRetain dev }, .success)

/-- The record of `w_cuCtxCreate_v2`, whose call is `Serving.wCuCtxCreate`. -/
def noteContext (w : World) (made : CUresult × CUcontext) : World × CUresult :=
  if made.1 = .success then
    ({ w with inventory := w.inventory.note .contexts made.2 (w.generations.stampContext made.2) }, made.1)
  else (w, made.1)

/-- The wrapper of a call on a handle. -/
def createItem (w : World) (current : CUcontext) (source : ℕ) (answer : Except CUerror ℕ) :
    ItemCall → World × CUresult
  | .cuMemAlloc_v2 => w.wCuMemAlloc_v2 current answer
  | .cuMemAllocPitch_v2 => w.wCuMemAllocPitch_v2 current answer
  | .cuMemAllocAsync => w.wCuMemAllocAsync current answer
  | .cuMemAllocFromPoolAsync => w.wCuMemAllocFromPoolAsync current answer
  | .cuModuleLoad => w.wCuModuleLoad current answer
  | .cuModuleLoadData => w.wCuModuleLoadData current answer
  | .cuModuleLoadFatBinary => w.wCuModuleLoadFatBinary current answer
  | .cuLibraryLoadData => w.wCuLibraryLoadData answer
  | .cuMemCreate => w.wCuMemCreate answer
  | .cuStreamCreate => w.wCuStreamCreate current answer
  | .cuStreamCreateWithPriority => w.wCuStreamCreateWithPriority current answer
  | .cuEventCreate => w.wCuEventCreate current answer
  | .cuGraphCreate => w.wCuGraphCreate current answer
  | .cuGraphClone => w.wCuGraphClone current source answer
  | .cuGraphInstantiateWithFlags => w.wCuGraphInstantiateWithFlags current source answer

/-- The wrapper of a creating call, on the state that shows its thread. -/
def create (limits : Limits) (w : World) (s : Serving) (id : ThreadId) (answer : Except CUerror ℕ) :
    Creation → World × CUresult
  | .item c source => w.createItem s.driver.current source answer c
  | .addressReserve size => w.wCuMemAddressReserve size answer
  | .memMap ptr size => w.wCuMemMap ptr size answer
  | .primaryCtxRetain dev => w.wCuDevicePrimaryCtxRetain dev answer
  | .ctxCreate out => if out then w.noteContext (s.wCuCtxCreate limits id answer).2 else (w, .invalidValue)

end World

/-- The kind of what a call creates. -/
def ItemCall.which : ItemCall → ItemKind
  | .cuMemAlloc_v2 | .cuMemAllocPitch_v2 | .cuMemAllocAsync | .cuMemAllocFromPoolAsync => .allocs
  | .cuModuleLoad | .cuModuleLoadData | .cuModuleLoadFatBinary => .modules
  | .cuLibraryLoadData => .libraries
  | .cuMemCreate => .vmmHandles
  | .cuStreamCreate | .cuStreamCreateWithPriority => .streams
  | .cuEventCreate => .events
  | .cuGraphCreate | .cuGraphClone => .graphs
  | .cuGraphInstantiateWithFlags => .graphExecs

/-- What the driver answers a creating call, and the serving loop around it. -/
structure Asked where
  /-- The call is refused, or this is the handle of what it makes. -/
  answer : Except CUerror ℕ
  /-- To the exchange that shows the thread's capture mode. -/
  showRefusal : Option CUerror := none
  /-- The payload had every field that was read. -/
  wellFormed : Bool := true
  payload : List UInt8 := []

/-- The state on which a request's call runs, if it does: its thread has its slot and its state shown, and the payload
is whole. -/
def Serving.reached (limits : Limits) (s : Serving) (f : Frame) (q : Asked) : Option Serving :=
  if f.threadId = 0 then none
  else
    (s.threads.threadSlot limits f.threadId).bind fun ts =>
      let shown := ({ s with threads := ts } : Serving).prepare f.threadId q.showRefusal
      if shown.2 = .success ∧ q.wellFormed then some shown.1 else none

namespace Session

/-- The answers to a creating call. -/
def creating (limits : Limits) (x : Session World) (f : Frame) (c : Creation) (q : Asked) : Answers World where
  showRefusal := q.showRefusal
  created := q.answer
  result :=
    match x.serving.reached limits f q with
    | none => .invalidValue
    | some s => (x.inventory.create limits s f.threadId q.answer c).2
  payload := q.payload
  wellFormed := q.wellFormed
  inventory := fun w =>
    match x.serving.reached limits f q with
    | none => w
    | some s => (w.create limits s f.threadId q.answer c).1

/-- The same is held as before: the session's inventory, and the driver's live objects and retains. -/
structure SameHoldings (x x' : Session World) : Prop where
  inventory : x'.inventory.inventory = x.inventory.inventory
  live : x'.inventory.live = x.inventory.live
  retained : x'.inventory.retained = x.inventory.retained
  contexts : x'.serving.driver.live = x.serving.driver.live

/-- If a creating call is answered with an error, nothing was created. -/
def Atomic (limits : Limits) (x : Session World) (f : Frame) (c : Creation) (q : Asked) : Prop :=
  (∃ reply, (x.execute limits f (x.creating limits f c q)).2.1 = some reply ∧ reply.result ≠ .success) →
    SameHoldings x (x.execute limits f (x.creating limits f c q)).1

/-- The driver does what a creating call asks. -/
def Succeeds (limits : Limits) (w : World) (s : Serving) (t : ClientThread) (answer : Except CUerror ℕ) :
    Creation → Prop
  | .item c _ => ∃ h, answer = .ok h ∧ h ≠ 0 ∧ .item c.which h ∉ w.live
  | .addressReserve _ => ∃ h, answer = .ok h ∧ h ≠ 0 ∧ .range h ∉ w.live
  | .memMap ptr _ => (∃ h, answer = .ok h) ∧ .mapping ptr ∉ w.live
  | .primaryCtxRetain _ => ∃ h, answer = .ok h
  | .ctxCreate out => out = true ∧ Serving.mayPush limits t = true ∧
      ∃ h, answer = .ok h ∧ h ≠ 0 ∧ s.driver.find h = none

/-- A creating call whose reply hides what it made: a failure is held for its thread, the thread is given its slot and
its state is shown, the payload is whole, and the driver does what is asked. -/
def Leaks (limits : Limits) (x : Session World) (f : Frame) (c : Creation) (q : Asked) : Prop :=
  let t := x.serving.threads.slotOf f.threadId
  t.pendingAsync ≠ .success ∧
    (f.threadId ≠ 0 ∧ (x.serving.threads.threadSlot limits f.threadId).isSome) ∧
    (t.captureMode = x.serving.threads.appliedMode ∨ q.showRefusal = none) ∧
    q.wellFormed = true ∧ Succeeds limits x.inventory x.serving t q.answer c

end Session

/-! ### What the wrappers do -/

namespace World

/-- What a wrapper comes to: it succeeds if the driver does what is asked, changes nothing else, and then what the
driver has is not what it was. -/
structure Made (w : World) (r : World × CUresult) (succeeds : Prop) : Prop where
  result : r.2 = .success ↔ succeeds
  refused : r.2 ≠ .success → r.1 = w
  changed : r.2 = .success → r.1.live ≠ w.live ∨ r.1.retained ≠ w.retained

variable {w : World} {answer : Except CUerror ℕ}

/-- A call that is refused makes nothing. -/
theorem Made.refusal {r : CUresult} {succeeds : Prop} (hr : r ≠ .success) (hnot : ¬ succeeds) :
    Made w (w, r) succeeds where
  result := iff_of_false hr hnot
  refused := fun _ => rfl
  changed := fun h => absurd h hr

/-- A resource that was not there makes a difference. -/
theorem insert_ne {live : Finset Resource} {o : Resource} (h : o ∉ live) : insert o live ≠ live :=
  fun heq => h (heq ▸ Finset.mem_insert_self o live)

/-- A wrapper that takes the handle that the driver made, if it is no null and not in use. -/
theorem made_handle (o : ℕ → Resource) {after : ℕ → World} (hafter : ∀ h, (after h).live = insert (o h) w.live) :
    Made w (match answer with
      | .error e => (w, e.1)
      | .ok h => if h = 0 ∨ o h ∈ w.live then (w, .outOfMemory) else (after h, .success))
      (∃ h, answer = .ok h ∧ h ≠ 0 ∧ o h ∉ w.live) := by
  cases answer with
  | error e => exact .refusal e.2 fun ⟨h, hok, _⟩ => nomatch hok
  | ok h =>
      dsimp only
      split
      · rename_i hused
        refine .refusal (by decide) ?_
        rintro ⟨h', hok, hne, hfresh⟩
        cases hok
        exact hused.elim hne hfresh
      · rename_i hfree
        rw [not_or] at hfree
        refine ⟨iff_of_true rfl ⟨h, rfl, hfree.1, hfree.2⟩, fun hne => absurd rfl hne, fun _ => .inl ?_⟩
        rw [hafter]
        exact insert_ne hfree.2

/-- A call that hands out a handle and notes it. -/
theorem made_noting (which : ItemKind) (st : Stamp) :
    Made w (w.noting which st answer) (∃ h, answer = .ok h ∧ h ≠ 0 ∧ .item which h ∉ w.live) :=
  made_handle (Resource.item which) fun _ => rfl

/-- Each of the fifteen calls notes what it hands out, with a stamp of its own kind. -/
theorem createItem_eq (w : World) (current : CUcontext) (source : ℕ) (answer : Except CUerror ℕ) (c : ItemCall) :
    ∃ st, w.createItem current source answer c = w.noting c.which st answer := by
  cases c <;> exact ⟨_, rfl⟩

/-- Reserving addresses makes a range and records it. -/
theorem made_addressReserve (size : ℕ) :
    Made w (w.wCuMemAddressReserve size answer) (∃ h, answer = .ok h ∧ h ≠ 0 ∧ .range h ∉ w.live) :=
  made_handle Resource.range fun _ => rfl

/-- Mapping makes a mapping and records it. -/
theorem made_memMap (ptr size : ℕ) :
    Made w (w.wCuMemMap ptr size answer) ((∃ h, answer = .ok h) ∧ .mapping ptr ∉ w.live) := by
  cases answer with
  | error e => exact .refusal e.2 fun ⟨⟨h, hok⟩, _⟩ => nomatch hok
  | ok h =>
      rw [wCuMemMap]
      split
      · rename_i hused
        exact .refusal (by decide) fun hs => hs.2 hused
      · rename_i hfree
        exact ⟨iff_of_true rfl ⟨⟨h, rfl⟩, hfree⟩, fun hne => absurd rfl hne, fun _ => .inl (insert_ne hfree)⟩

/-- A retain that is granted is one more. -/
theorem made_primaryCtxRetain (dev : Device) :
    Made w (w.wCuDevicePrimaryCtxRetain dev answer) (∃ h, answer = .ok h) := by
  cases answer with
  | error e => exact .refusal e.2 fun ⟨h, hok⟩ => nomatch hok
  | ok h =>
      refine ⟨iff_of_true rfl ⟨h, rfl⟩, fun hne => absurd rfl hne, fun _ => .inr fun heq => ?_⟩
      have hcount := congrFun heq dev
      rw [wCuDevicePrimaryCtxRetain] at hcount
      dsimp only at hcount
      rw [Function.update_self] at hcount
      omega

/-- Every creating call but that of a context. -/
theorem made_create {limits : Limits} {s : Serving} {id : ThreadId} {t : ClientThread} {c : Creation}
    (hc : ∀ out, c ≠ .ctxCreate out) :
    Made w (w.create limits s id answer c) (Session.Succeeds limits w s t answer c) := by
  cases c with
  | item call source =>
      obtain ⟨st, heq⟩ := w.createItem_eq s.driver.current source answer call
      rw [create, heq]
      exact made_noting _ st
  | addressReserve size => exact made_addressReserve size
  | memMap ptr size => exact made_memMap ptr size
  | primaryCtxRetain dev => exact made_primaryCtxRetain dev
  | ctxCreate out => exact absurd rfl (hc out)

end World

namespace Session

/-! ### A creating call, from its request to its reply -/

variable {limits : Limits} {x : Session World} {f : Frame} {c : Creation} {q : Asked}

/-- The state in which a call is reached, once its thread has a slot and its state is shown. -/
theorem reached_slotted {ts : ClientThreads} {s' : Serving} {r : CUresult} (hslot : x.serving.Slotted limits f ts)
    (hshown : ({ x.serving with threads := ts } : Serving).prepare f.threadId q.showRefusal = (s', r)) :
    x.serving.reached limits f q = if r = .success ∧ q.wellFormed then some s' else none := by
  rw [Serving.reached, if_neg hslot.named, hslot.slot, Option.bind_some]
  dsimp only
  rw [hshown]

/-- The inventory after a request is what the call has left. -/
theorem inventory_execute (x : Session World) (f : Frame) (a : Answers World) :
    (x.execute limits f a).1.inventory = a.inventory x.inventory := by
  unfold execute dispatch complete
  dsimp only
  split <;> rfl

/-- The driver after a request is what the call has left. -/
theorem driver_execute (x : Session World) (f : Frame) (a : Answers World) :
    (x.execute limits f a).1.serving.driver = (x.serving.execute limits f a).1.driver := by
  rw [serving_execute]

/-- A request whose call is not reached creates nothing. -/
theorem same_of_unreached (hreached : x.serving.reached limits f q = none)
    (hlive : (x.serving.execute limits f (x.creating limits f c q)).1.driver.live = x.serving.driver.live) :
    SameHoldings x (x.execute limits f (x.creating limits f c q)).1 := by
  have hinv : (x.execute limits f (x.creating limits f c q)).1.inventory = x.inventory := by
    rw [inventory_execute]
    simp only [creating, hreached]
  rw [← driver_execute] at hlive
  exact ⟨congrArg World.inventory hinv, congrArg World.live hinv, congrArg World.retained hinv, hlive⟩

/-- No creating call is a notice. -/
theorem Creation.call_ne_threadGone (c : Creation) (ids : List ThreadId) : c.call ≠ .threadGone ids := by
  cases c <;> nofun

/-- The reply of none of them carries observed state, so it takes a held failure. -/
theorem Creation.carries (c : Creation) : replyCarriesObservedState c.call.api = false := by
  cases c with
  | item call source => cases call <;> rfl
  | addressReserve size => rfl
  | memMap ptr size => rfl
  | primaryCtxRetain dev => rfl
  | ctxCreate out => rfl

/-- What the call itself comes to, and the readback behind it: the driver's contexts are those there were, unless it
creates one, and no other call creates one. -/
structure Came (w : World) (v : Serving) (t : ClientThread) (limits : Limits) (c : Creation) (q : Asked)
    (w' : World) (u : Serving) (r : CUresult) : Prop where
  result : r = .success ↔ Succeeds limits w v t q.answer c
  refused : r ≠ .success → w' = w ∧ u.driver.live = v.driver.live
  changed : r = .success → w'.live ≠ w.live ∨ w'.retained ≠ w.retained ∨ u.driver.live ≠ v.driver.live

/-- What comes of a creating call other than that of a context. -/
theorem came_other {v : Serving} {t : ClientThread} (hc : ∀ out, c ≠ .ctxCreate out)
    (hready : v.Ready f.threadId t) (hreached : x.serving.reached limits f q = some v) {u : Serving} {r : CUresult}
    {payload : Payload} (hcall : v.call limits f.threadId (x.creating limits f c q) c.call = (u, r, payload)) :
    Came x.inventory v t limits c q (x.inventory.create limits v f.threadId q.answer c).1
      (u.adoptCurrent f.threadId) r := by
  have heffect := hready.effect limits (x.creating limits f c q) c.call
  have hresult : (x.creating limits f c q).result = (x.inventory.create limits v f.threadId q.answer c).2 := by
    simp only [creating, hreached]
  obtain ⟨api, hapi⟩ : ∃ api, c.call = .other api := by
    cases c with
    | ctxCreate out => exact absurd rfl (hc out)
    | _ => exact ⟨_, rfl⟩
  rw [hcall, hapi] at heffect
  have hmade : World.Made x.inventory (x.inventory.create limits v f.threadId q.answer c)
      (Succeeds limits x.inventory v t q.answer c) := World.made_create hc
  generalize hu : u.adoptCurrent f.threadId = u' at heffect ⊢
  cases heffect with
  | refused hcall' => exact absurd rfl (hcall' api)
  | destroy hcall' => exact absurd hcall' (by rintro (h | h) <;> cases h)
  | other hshows hsame hr =>
      have hr' : r = (x.inventory.create limits v f.threadId q.answer c).2 := hr.trans hresult
      subst hr'
      exact ⟨hmade.result, fun hne => ⟨hmade.refused hne, rfl⟩,
        fun hok => (hmade.changed hok).imp_right Or.inl⟩
  | adopt hcurrent => cases hcurrent

/-- What comes of the creation of a context, which is also entered on the thread's stack. -/
theorem came_context {v : Serving} {t : ClientThread} {out : Bool} (hready : v.Ready f.threadId t)
    (hwhole : q.wellFormed = true) {u : Serving} {r : CUresult} {payload : Payload}
    (hcall : v.call limits f.threadId (x.creating limits f (.ctxCreate out) q) (.ctxCreate out) = (u, r, payload)) :
    Came x.inventory v t limits (.ctxCreate out) q
      (x.inventory.create limits v f.threadId q.answer (.ctxCreate out)).1 (u.adoptCurrent f.threadId) r := by
  have heffect := hready.effect limits (x.creating limits f (.ctxCreate out) q) (.ctxCreate out)
  rw [hcall] at heffect
  -- the record is made on the result of the call itself
  have hrecord : r ≠ .success → (x.inventory.create limits v f.threadId q.answer (.ctxCreate out)).1 = x.inventory := by
    intro hr
    cases out with
    | false => rfl
    | true =>
        rw [Serving.call, if_neg (by rw [show (x.creating limits f _ q).wellFormed = true from hwhole]; nofun)] at hcall
        dsimp only at hcall
        rw [if_pos rfl, Prod.mk.injEq, Prod.mk.injEq] at hcall
        have hrun : (v.wCuCtxCreate limits f.threadId q.answer).2.1 ≠ .success := by
          rw [show (v.wCuCtxCreate limits f.threadId q.answer).2.1 = r from hcall.2.1]
          exact hr
        rw [World.create, if_pos rfl, World.noteContext, if_neg hrun]
  generalize hu : u.adoptCurrent f.threadId = u' at heffect ⊢
  cases heffect with
  | refused hcall' hwhy hr =>
      refine ⟨iff_of_false hr fun hsucceeds => ?_, fun hne => ⟨hrecord hne, rfl⟩, fun hok => absurd hok hr⟩
      refine hwhy.elim (fun hshort => ?_) fun hno => hno hsucceeds
      rw [show (x.creating limits f _ q).wellFormed = true from hwhole] at hshort
      cases hshort
  | destroy hcall' => exact absurd hcall' (by rintro (h | h) <;> cases h)
  | @create ctx hroom hok hctx hfree =>
      refine ⟨iff_of_true rfl ⟨rfl, hroom, ctx, hok, hctx, hfree⟩, fun hne => absurd rfl hne, fun _ => ?_⟩
      exact .inr (.inr fun heq => List.cons_ne_self _ _ heq)

/-- What comes of a creating call. -/
theorem came {v : Serving} {t : ClientThread} (hready : v.Ready f.threadId t)
    (hreached : x.serving.reached limits f q = some v) (hwhole : q.wellFormed = true) {u : Serving} {r : CUresult}
    {payload : Payload} (hcall : v.call limits f.threadId (x.creating limits f c q) c.call = (u, r, payload)) :
    Came x.inventory v t limits c q (x.inventory.create limits v f.threadId q.answer c).1
      (u.adoptCurrent f.threadId) r := by
  by_cases hc : ∀ out, c ≠ .ctxCreate out
  · exact came_other hc hready hreached hcall
  · obtain ⟨out, rfl⟩ : ∃ out, c = .ctxCreate out := by
      by_contra hnone
      exact hc fun out heq => hnone ⟨out, heq⟩
    exact came_context hready hwhole hcall

/-- Where the payload is short, no context is made. -/
theorem live_of_short {v : Serving} {t : ClientThread} (hready : v.Ready f.threadId t) (hshort : q.wellFormed = false)
    {u : Serving} {r : CUresult} {payload : Payload}
    (hcall : v.call limits f.threadId (x.creating limits f c q) c.call = (u, r, payload)) :
    (u.adoptCurrent f.threadId).driver.live = v.driver.live := by
  have heffect := hready.effect limits (x.creating limits f c q) c.call
  have hr : c.call = .ctxCreate true → r ≠ .success := by
    intro hc
    rw [hc, Serving.call, if_pos (show (x.creating limits f c q).wellFormed = false from hshort), Prod.mk.injEq,
      Prod.mk.injEq] at hcall
    rw [← hcall.2.1]
    decide
  have hdestroys : ∀ ctx, ¬ Serving.Call.Destroys c.call ctx := by
    intro ctx hd
    rcases hd with hd | hd <;> cases c <;> cases hd
  rw [hcall] at heffect
  generalize u.adoptCurrent f.threadId = u' at heffect ⊢
  generalize hk : c.call = k at heffect
  cases heffect with
  | create => exact absurd rfl (hr hk)
  | destroy hcall' => exact absurd (hk ▸ hcall') (hdestroys _)
  | _ => rfl

/-- Whether a call succeeds depends on the live contexts and not on what the driver shows. -/
theorem succeeds_congr {w : World} {v s : Serving} {t : ClientThread} {answer : Except CUerror ℕ}
    (h : v.driver.live = s.driver.live) : Succeeds limits w v t answer c ↔ Succeeds limits w s t answer c := by
  cases c with
  | ctxCreate out => simp only [Succeeds, Driver.find, h]
  | _ => exact Iff.rfl

/-- The condition, of what a call that was made came to. -/
theorem leaks_iff_of_came {ts : ClientThreads} {v u : Serving} {w : World} {r : CUresult}
    (hslot : x.serving.Slotted limits f ts)
    (hmode : (x.serving.threads.slotOf f.threadId).captureMode = ts.appliedMode ∨ q.showRefusal = none)
    (hwf : q.wellFormed = true) (hlive : v.driver.live = x.serving.driver.live)
    (hcame : Came x.inventory v (x.serving.threads.slotOf f.threadId) limits c q w u r) :
    Leaks limits x f c q ↔ (x.serving.threads.slotOf f.threadId).pendingAsync ≠ .success ∧ r = .success := by
  have happlied := congrArg Prod.snd (ClientThreads.shown_threadSlot hslot.slot)
  have hmode' := hmode.imp_left fun hm => hm.trans happlied
  have hsome : (x.serving.threads.threadSlot limits f.threadId).isSome = true := by
    rw [hslot.slot]
    rfl
  constructor
  · rintro ⟨hp, -, -, -, hsucceeds⟩
    exact ⟨hp, hcame.result.mpr ((succeeds_congr hlive).mpr hsucceeds)⟩
  · rintro ⟨hp, hr⟩
    exact ⟨hp, ⟨hslot.named, hsome⟩, hmode', hwf, (succeeds_congr hlive).mp (hcame.result.mp hr)⟩

/-- A creating call is answered with an error exactly by these requests after it has created something. -/
theorem atomic_iff (h : Fit limits x.serving) (hno : f.noReply = false) (hcall : f.call = c.call) :
    Atomic limits x f c q ↔ ¬ Leaks limits x f c q := by
  have hgone : ∀ ids, f.call ≠ .threadGone ids := fun ids => hcall ▸ Creation.call_ne_threadGone c ids
  have hex := Serving.executes limits x.serving f (x.creating limits f c q)
  generalize hs' : (x.serving.execute limits f (x.creating limits f c q)).1 = s' at hex
  generalize ho : (x.serving.execute limits f (x.creating limits f c q)).2 = o at hex
  cases hex with
  | refused hwhy =>
      have hwhy' : f.threadId = 0 ∨ x.serving.threads.threadSlot limits f.threadId = none :=
        hwhy.imp_right fun hor => hor.resolve_left fun ⟨ids, hids⟩ => hgone ids hids
      refine iff_of_true (fun _ => same_of_unreached ?_ (by rw [hs'])) fun hleaks => ?_
      · rw [Serving.reached]
        split
        · rfl
        · rename_i hid
          rw [hwhy'.resolve_left hid, Option.bind_none]
      · refine hwhy'.elim hleaks.2.1.1 fun hnone => ?_
        have hsome := hleaks.2.1.2
        rw [hnone] at hsome
        cases hsome
  | notice hid hnotice => exact absurd hnotice (hgone _)
  | unshown hslot hshown hr =>
      obtain ⟨st, -, hok | hrefused⟩ := (h.mirror.threadSlot hslot.slot).prepare_cases hslot.live hshown
      · exact absurd hok.1 hr
      refine iff_of_true (fun _ => same_of_unreached ?_ ?_) fun hleaks => ?_
      · rw [reached_slotted hslot hshown, if_neg fun hand => hr hand.1]
      · rw [hs', hrefused.2.2]
        rfl
      · have happlied := congrArg Prod.snd (ClientThreads.shown_threadSlot hslot.slot)
        rcases hleaks.2.2.1 with hmode | hnone
        · exact hrefused.2.1.1 (hmode.trans happlied.symm)
        · exact hrefused.2.1.2 hnone
  | @ranShort ts v u r payload hslot hshown hran hhandled hshort =>
      have hshort' : q.wellFormed = false := hshort
      obtain ⟨st, -, hok | hrefused⟩ := (h.mirror.threadSlot hslot.slot).prepare_cases hslot.live hshown
      swap
      · exact absurd rfl hrefused.1
      obtain ⟨-, -, hv, hready⟩ := hok
      rw [hcall] at hran
      refine iff_of_true (fun _ => same_of_unreached ?_ ?_) fun hleaks => ?_
      · rw [reached_slotted hslot hshown, if_neg fun hand => by rw [hand.2] at hshort'; cases hshort']
      · rw [hs', live_of_short hready hshort' hran, hv]
        rfl
      · rw [hleaks.2.2.2.1] at hshort'
        cases hshort'
  | @ran ts v u r payload hslot hshown hran hwhole =>
      -- the thread's slot, before the call and after it
      set t := (x.serving.threads.find f.threadId).getD {} with ht
      obtain ⟨st, -, hok | hrefused⟩ := (h.mirror.threadSlot hslot.slot).prepare_cases hslot.live hshown
      swap
      · exact absurd rfl hrefused.1
      obtain ⟨-, hmode, hv, hready⟩ := hok
      obtain ⟨t', ht', hpending⟩ := Serving.slot_of_ran hslot.live hshown hran
      have hhandled : f.call.handled (x.creating limits f c q).handled = true := by
        rw [hcall]
        cases c <;> rfl
      have hwf : q.wellFormed = true := hwhole hhandled
      have hreached : x.serving.reached limits f q = some v := by
        rw [reached_slotted hslot hshown, if_pos ⟨rfl, hwf⟩]
      rw [hcall] at hran
      have hcame := came hready hreached hwf hran
      have hlive : v.driver.live = x.serving.driver.live := by
        rw [hv]
        rfl
      have hsuccess := u.clientThreadAfter_success f.threadId f.call.api r
      have hleaks := leaks_iff_of_came hslot hmode hwf hlive hcame
      -- what completing the request makes of it
      have hreply : (x.execute limits f (x.creating limits f c q)).2.1 = _ := reply_execute x _ hno
      have hinv : (x.execute limits f (x.creating limits f c q)).1.inventory = _ := inventory_execute x f _
      have hdriver : (x.execute limits f (x.creating limits f c q)).1.serving.driver = _ := driver_execute x f _
      have hinv' : (x.creating limits f c q).inventory x.inventory =
          (x.inventory.create limits v f.threadId q.answer c).1 := by
        simp only [creating, hreached]
      have hsettle := settle_waiting hno (o := ⟨(u.clientThreadAfter f.threadId f.call.api r).2, payload,
        false, true⟩) rfl ht'
      rw [hs', ho, hsettle] at hreply
      rw [hs'] at hdriver
      rw [hinv'] at hinv
      have hcarries : replyCarriesObservedState f.call.api = false := hcall ▸ Creation.carries c
      rw [hleaks, Atomic, hreply]
      by_cases hfold : (u.clientThreadAfter f.threadId f.call.api r).2 = .success ∧ t'.pendingAsync ≠ .success
      · rw [if_pos ⟨hfold.1, hfold.2, hcarries⟩]
        refine iff_of_false (fun hatomic => ?_) fun hnot => hnot ⟨hpending ▸ hfold.2, hsuccess.mp hfold.1⟩
        have hsame := hatomic ⟨_, rfl, hfold.2⟩
        have hl := hsame.live
        have hre := hsame.retained
        have hctx := hsame.contexts
        rw [hinv] at hl hre
        rw [hdriver] at hctx
        rcases hcame.changed (hsuccess.mp hfold.1) with hne | hne | hne
        · exact hne hl
        · exact hne hre
        · exact hne (hctx.trans hlive.symm)
      · rw [if_neg fun hand => hfold ⟨hand.1, hand.2.1⟩]
        refine iff_of_true ?_ fun hand => hfold ⟨hsuccess.mpr hand.2, hpending ▸ hand.1⟩
        rintro ⟨reply, hsome, hresult⟩
        have hr : r ≠ .success := by
          rw [← Option.some.inj hsome] at hresult
          exact fun heq => hresult (hsuccess.mpr heq)
        obtain ⟨hworld, hctx⟩ := hcame.refused hr
        rw [hworld] at hinv
        refine ⟨congrArg World.inventory hinv, congrArg World.live hinv, congrArg World.retained hinv, ?_⟩
        rw [hdriver]
        exact hctx.trans hlive

end Session

namespace Server

/-- In every run of the server, whatever a session holds and whatever failure is held for its threads: an error that a
creating call is answered with means that nothing was created, unless it is one of the requests listed. -/
theorem creation_atomic_iff (limits : Limits) (as : List (ServerAction World)) {s : Server World}
    (hrun : run (Server.step limits) (Server.initial World) as = some s) {sid : SessionId} {conn : ConnId} {f : Frame}
    (hpc : s.serve sid = .running conn f) (hno : f.noReply = false) {c : Creation} (hcall : f.call = c.call)
    (q : Asked) : (s.session sid).Atomic limits f c q ↔ ¬ (s.session sid).Leaks limits f c q :=
  Session.atomic_iff (always_fit limits sid as s (along_true _ _ _) hrun (by rw [hpc]; nofun)) hno hcall

/-- The first client is served, and its thread asks for memory. -/
def memoryAsked : List (ServerAction World) :=
  [.accept 0, .readHello 0 (some { session := ⟨1, 2⟩, lastReq := .none, resuming := false }), .lookup 0,
    .snapshot 0, .writeReply 0 true, .putFirst 0, .launch 0, .take 0,
    .read 0 (some ⟨⟨1, 1⟩, false, 1, (Creation.item .cuMemAlloc_v2 0).call, 9⟩)]

/-- An error is then one of the allocation. -/
theorem creation_atomic_iff_asked : ∃ s, run (Server.step {}) (Server.initial World) memoryAsked = some s ∧
    (s.session 0).Atomic {} ⟨⟨1, 1⟩, false, 1, (Creation.item .cuMemAlloc_v2 0).call, 9⟩ (.item .cuMemAlloc_v2 0)
      { answer := .ok 64 } := by
  refine ⟨_, rfl, ?_⟩
  refine (creation_atomic_iff {} memoryAsked rfl rfl rfl rfl _).mpr fun hleaks => ?_
  exact hleaks.1 rfl

/-- The same after a call of the thread failed that had no reply. -/
def memoryAskedAfter : List (ServerAction World) :=
  [.accept 0, .readHello 0 (some { session := ⟨1, 2⟩, lastReq := .none, resuming := false }), .lookup 0,
    .snapshot 0, .writeReply 0 true, .putFirst 0, .launch 0, .take 0,
    .read 0 (some ⟨⟨1, 1⟩, true, 1, .other 200, 8⟩), .execute 0 { result := CUresult.unknown },
    .read 0 (some ⟨⟨2, 2⟩, false, 1, (Creation.item .cuMemAlloc_v2 0).call, 9⟩)]

/-- The memory is allocated, and the reply says that the earlier call failed. -/
theorem allocation_unreported : ∃ s, run (Server.step {}) (Server.initial World) memoryAskedAfter = some s ∧
    ¬ (s.session 0).Atomic {} ⟨⟨2, 2⟩, false, 1, (Creation.item .cuMemAlloc_v2 0).call, 9⟩ (.item .cuMemAlloc_v2 0)
      { answer := .ok 64 } := by
  refine ⟨_, rfl, fun hatomic => ?_⟩
  have hsame := hatomic ⟨_, rfl, by decide⟩
  exact absurd hsame.live (by decide)

end Server

end Rgpu
