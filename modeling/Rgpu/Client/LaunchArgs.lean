import Rgpu.Foundations.Blocks
import Rgpu.Foundations.StepSystem
import Mathlib.Logic.Function.Basic

/-! # The arguments of a kernel (`shim.cpp`, `main.cpp`)

`kernelParams` is an array of pointers without sizes. The server asks the driver for the layout of the function, the
client keeps it by the function's handle and packs what is pointed to, and the server hands the packed buffer on.

* **`handleParamLayout`** — the driver's parameters, found by asking for them in turn.
* **`packArgs`** — the packed arguments, with what is read for them.
* **`Process.step`** — module loads and unloads, lookups and launches; the driver may use the handle of a function of
an unloaded module again.
* **`launches_pass_arguments`** — what the launches of a run pass, where a handle that is used again has the same
layout. -/

namespace Rgpu.Launching

open Foundations

/-- `ParamSlot` -/
structure ParamSlot where
  offset : ℕ
  size : ℕ
  deriving DecidableEq

namespace ParamSlot

/-- Where the slot ends. -/
def stop (s : ParamSlot) : ℕ := s.offset + s.size

/-- The slots have no byte in common. -/
def Apart (s t : ParamSlot) : Prop := s.stop ≤ t.offset ∨ t.stop ≤ s.offset

instance (s t : ParamSlot) : Decidable (s.Apart t) := inferInstanceAs (Decidable (_ ∨ _))

/-- The length of a buffer for the slots. -/
def total (slots : List ParamSlot) : ℕ := slots.foldl (fun total s => max total s.stop) 0

end ParamSlot

/-- A parameter layout of the driver: no two parameters are in one place. -/
structure Layout where
  slots : List ParamSlot
  apart : slots.Pairwise ParamSlot.Apart
  deriving DecidableEq

/-- `cuFuncGetParamInfo` -/
inductive ParamInfo
  | slot (s : ParamSlot)
  /-- `CUDA_ERROR_INVALID_VALUE`: there is no such parameter. -/
  | invalidValue
  | failed
  deriving DecidableEq

/-- The driver's answer for a parameter of a function. -/
def Layout.info (l : Layout) (i : ℕ) : ParamInfo :=
  match l.slots[i]? with
  | some s => .slot s
  | none => .invalidValue

/-- The loop of `handle_param_layout` from the parameter `i`; `left` more parameters pass the runaway guard. -/
def probeFrom (cuFuncGetParamInfo : ℕ → ParamInfo) : (left i : ℕ) → List ParamSlot → Option (List ParamSlot)
  | 0, i, slots =>
      match cuFuncGetParamInfo i with
      | .invalidValue => some slots
      | .failed => none
      -- more parameters than a kernel can have
      | .slot _ => none
  | left + 1, i, slots =>
      match cuFuncGetParamInfo i with
      | .invalidValue => some slots
      | .failed => none
      | .slot s => probeFrom cuFuncGetParamInfo left (i + 1) (slots ++ [s])

/-- `handle_param_layout` -/
def handleParamLayout (cuFuncGetParamInfo : ℕ → ParamInfo) : Option (List ParamSlot) :=
  probeFrom cuFuncGetParamInfo 1025 0 []

/-- What a pointer points to. -/
abbrev Memory := ℕ → UInt8

/-- The first bytes that are pointed to. -/
def Memory.read (p : Memory) (n : ℕ) : List UInt8 := (List.range n).map p

/-- As many bytes are read as are asked for. -/
@[simp] theorem Memory.length_read (p : Memory) (n : ℕ) : (p.read n).length = n := by
  rw [Memory.read, List.length_map, List.length_range]

/-- The loop of `pack_args` from the parameter `i`, with how much is read from which of `kernelParams`. -/
def packFrom (kernelParams : ℕ → Option Memory) :
    ℕ → List ParamSlot → List UInt8 → Option (List UInt8 × List (ℕ × ℕ))
  | _, [], blob => some (blob, [])
  | i, s :: slots, blob =>
      match kernelParams i with
      | none => none
      | some p =>
          (packFrom kernelParams (i + 1) slots (overwrite blob s.offset (p.read s.size))).map fun packed =>
            (packed.1, (i, s.size) :: packed.2)

/-- `pack_args`, once the layout is known. -/
def packArgs (slots : List ParamSlot) (kernelParams : ℕ → Option Memory) : Option (List UInt8 × List (ℕ × ℕ)) :=
  packFrom kernelParams 0 slots (List.replicate (ParamSlot.total slots) 0)

/-- An entry of `extra`, up to `CU_LAUNCH_PARAM_END`. -/
inductive ExtraEntry
  | bufferPointer (buf : Option Memory)
  | bufferSize (size : Option ℕ)
  | unknown

/-- `extract_extra` -/
def extractExtra : List ExtraEntry → Option Memory → Option ℕ → Option (List UInt8)
  | [], some buf, some size => some (buf.read size)
  | [], _, _ => none
  | .bufferPointer buf :: rest, _, size => extractExtra rest buf size
  | .bufferSize size :: rest, buf, _ => extractExtra rest buf size
  | .unknown :: _, _, _ => none

/-- The scalars of a launch. -/
structure Config where
  gx : ℕ
  gy : ℕ
  gz : ℕ
  bx : ℕ
  by' : ℕ
  bz : ℕ
  shmem : ℕ
  stream : ℕ
  deriving DecidableEq

/-- The request of a launch. -/
structure Request where
  f : ℕ
  config : Config
  args : List UInt8
  deriving DecidableEq

/-- `cuLaunchKernel` as the server calls it; `kernelParams` is always null. -/
structure DriverLaunch where
  f : ℕ
  config : Config
  /-- The packed buffer of `extra`. -/
  extra : Option (List UInt8)
  deriving DecidableEq

/-- `handle_launch` -/
def handleLaunch (r : Request) : DriverLaunch :=
  if r.args.length = 0 then ⟨r.f, r.config, none⟩ else ⟨r.f, r.config, some r.args⟩

/-- A function of a loaded module. -/
structure DeviceFunction where
  module : ℕ
  name : String
  layout : Layout
  deriving DecidableEq

/-- How a launch gets its arguments. -/
inductive Arguments
  | extra (entries : List ExtraEntry)
  | kernelParams (ps : ℕ → Option Memory)
  | absent

/-- How the driver and the server answer a request for a layout. -/
structure Answer where
  /-- The driver fails for a parameter. -/
  fails : ℕ → Bool := fun _ => false
  /-- The driver's answer for a handle that is not of a function. -/
  stray : ℕ → ParamInfo := fun _ => .failed
  /-- The reply is another error, an earlier one or that of the connection. -/
  lost : Bool := false

/-- A launch that was sent. -/
structure Sent where
  /-- What the handle denoted. -/
  denoted : Option DeviceFunction
  args : Arguments
  request : Request
  /-- How much was read from which of `kernelParams`. -/
  reads : List (ℕ × ℕ)

/-- The driver's modules and functions, and the process. -/
structure Process where
  modules : List ℕ := []
  functions : ℕ → Option DeviceFunction := fun _ => none
  /-- `g_layouts` -/
  layouts : ℕ → Option (List ParamSlot) := fun _ => none
  sent : List Sent := []

/-- A call of the application. -/
inductive Action
  | load (m : ℕ)
  | unload (m : ℕ)
  | getFunction (f : ℕ) (fn : DeviceFunction)
  | launch (f : ℕ) (config : Config) (args : Arguments) (answer : Answer)

namespace Process

/-- `cuFuncGetParamInfo` -/
def cuFuncGetParamInfo (s : Process) (f : ℕ) (answer : Answer) (i : ℕ) : ParamInfo :=
  match s.functions f with
  | none => answer.stray i
  | some fn => if answer.fails i then .failed else fn.layout.info i

/-- `fetch_layout`: the layout, if there is one. -/
def fetchLayout (s : Process) (f : ℕ) (answer : Answer) : Option (List ParamSlot) :=
  match s.layouts f with
  | some slots => some slots
  | none => if answer.lost then none else handleParamLayout (s.cuFuncGetParamInfo f answer)

/-- The packed arguments of `launch_common`, with what is read for them. -/
def arguments (s : Process) (f : ℕ) (answer : Answer) : Arguments → Option (List UInt8 × List (ℕ × ℕ))
  | .extra entries => (extractExtra entries none none).map fun bytes => (bytes, [])
  | .kernelParams ps => (s.fetchLayout f answer).bind fun slots => packArgs slots ps
  | .absent => some ([], [])

/-- What `launch_common` sends. -/
def sends (s : Process) (f : ℕ) (config : Config) (args : Arguments) (answer : Answer) : Option Sent :=
  (s.arguments f answer args).map fun packed => ⟨s.functions f, args, ⟨f, config, packed.1⟩, packed.2⟩

/-- The layouts that are kept after `launch_common`. -/
def layoutsAfter (s : Process) (f : ℕ) (answer : Answer) : Arguments → ℕ → Option (List ParamSlot)
  | .kernelParams _ => Function.update s.layouts f (s.fetchLayout f answer)
  | _ => s.layouts

/-- `launch_common` -/
def launch (s : Process) (f : ℕ) (config : Config) (args : Arguments) (answer : Answer) : Process :=
  { s with layouts := s.layoutsAfter f answer args, sent := s.sent ++ (s.sends f config args answer).toList }

/-- A launch remembers the layout that it fetched. -/
@[simp] theorem launch_layouts (s : Process) (f : ℕ) (config : Config) (args : Arguments) (answer : Answer) :
    (s.launch f config args answer).layouts = s.layoutsAfter f answer args := rfl

def step (s : Process) : Action → Option Process
  | .load m => if m ∈ s.modules then none else some { s with modules := m :: s.modules }
  | .unload m =>
      some { s with
        modules := s.modules.filter (· ≠ m)
        -- `g_layouts` keeps what it has of them
        functions := fun f => (s.functions f).filter fun fn => fn.module ≠ m }
  | .getFunction f fn =>
      if fn.module ∈ s.modules ∧ (s.functions f = none ∨ s.functions f = some fn) then
        some { s with functions := Function.update s.functions f (some fn) }
      else none
  | .launch f config args answer => some (s.launch f config args answer)

end Process

/-- The driver gets the arguments of the application for a function: the blob is as long as the function's parameters
reach, has the caller's bytes for each parameter and zeros elsewhere, and just these bytes were read. -/
structure Passed (fn : DeviceFunction) (ps : ℕ → Option Memory) (x : Sent) : Prop where
  length : x.request.args.length = ParamSlot.total fn.layout.slots
  bytes : ∀ i s, fn.layout.slots[i]? = some s →
    ∃ p, ps i = some p ∧ (x.request.args.drop s.offset).take s.size = p.read s.size
  zeros : ∀ k < x.request.args.length, (∀ s ∈ fn.layout.slots, k < s.offset ∨ s.stop ≤ k) →
    x.request.args[k]? = some 0
  reads : x.reads = fn.layout.slots.mapIdx fun i s => (i, s.size)
  driver : (handleLaunch x.request).f = x.request.f ∧ (handleLaunch x.request).config = x.request.config ∧
    (handleLaunch x.request).extra.getD [] = x.request.args

/-- What was launched with `kernelParams` passes them to the function that the handle denoted. -/
def Sent.Right (x : Sent) : Prop :=
  ∀ fn ps, x.denoted = some fn → x.args = .kernelParams ps → Passed fn ps x

/-- A handle that the driver uses again is of a function with the layout that is kept for it, if one is. -/
def SameLayout (s : Process) : Action → Prop
  | .getFunction f fn => ∀ slots, s.layouts f = some slots → slots = fn.layout.slots
  | _ => True

/-! ### Finding the layout -/

section Probing

variable {q : ℕ → ParamInfo} {l : Layout}

/-- The driver refuses an index only past the last parameter. -/
theorem info_invalid (hq : ∀ i, q i = .failed ∨ q i = l.info i) {i : ℕ} (h : q i = .invalidValue) :
    l.slots.length ≤ i := by
  rcases hq i with hfail | hinfo
  · rw [hfail] at h
    cases h
  · rw [hinfo, Layout.info] at h
    cases hget : l.slots[i]? with
    | none => exact List.getElem?_eq_none_iff.mp hget
    | some s =>
        rw [hget] at h
        cases h

/-- A slot that the driver describes is the one of the layout. -/
theorem info_slot (hq : ∀ i, q i = .failed ∨ q i = l.info i) {i : ℕ} {s : ParamSlot} (h : q i = .slot s) :
    l.slots[i]? = some s := by
  rcases hq i with hfail | hinfo
  · rw [hfail] at h
    cases h
  · rw [hinfo, Layout.info] at h
    cases hget : l.slots[i]? with
    | none =>
        rw [hget] at h
        cases h
    | some t =>
        rw [hget] at h
        cases h
        rfl

/-- From the parameter `i`, with those before it found. -/
theorem probeFrom_sound (hq : ∀ i, q i = .failed ∨ q i = l.info i) {left i : ℕ} {slots : List ParamSlot}
    (h : probeFrom q left i (l.slots.take i) = some slots) : slots = l.slots := by
  induction left generalizing i with
  | zero =>
      rw [probeFrom] at h
      cases hqi : q i with
      | slot s =>
          rw [hqi] at h
          cases h
      | invalidValue =>
          rw [hqi] at h
          exact (Option.some.inj h).symm.trans (List.take_of_length_le (info_invalid hq hqi))
      | failed =>
          rw [hqi] at h
          cases h
  | succ left ih =>
      rw [probeFrom] at h
      cases hqi : q i with
      | slot s =>
          rw [hqi] at h
          have htake : l.slots.take i ++ [s] = l.slots.take (i + 1) := by
            rw [List.take_add_one, info_slot hq hqi, Option.toList_some]
          dsimp only at h
          rw [htake] at h
          exact ih h
      | invalidValue =>
          rw [hqi] at h
          exact (Option.some.inj h).symm.trans (List.take_of_length_le (info_invalid hq hqi))
      | failed =>
          rw [hqi] at h
          cases h

/-- The layout that the server collects is that of the function, whichever queries fail. -/
theorem handleParamLayout_sound (hq : ∀ i, q i = .failed ∨ q i = l.info i) {slots : List ParamSlot}
    (h : handleParamLayout q = some slots) : slots = l.slots :=
  probeFrom_sound hq h

/-- If the guard lets the rest through, all are found. -/
theorem probeFrom_complete (hq : ∀ i, q i = l.info i) {left i : ℕ} (hi : i ≤ l.slots.length)
    (hleft : l.slots.length ≤ i + left) : probeFrom q left i (l.slots.take i) = some l.slots := by
  induction left generalizing i with
  | zero =>
      have hlen : l.slots.length ≤ i := hleft
      have hinfo : q i = .invalidValue := by rw [hq, Layout.info, List.getElem?_eq_none hlen]
      rw [probeFrom, hinfo]
      exact congrArg some (List.take_of_length_le hlen)
  | succ left ih =>
      by_cases hlt : i < l.slots.length
      · have hget : l.slots[i]? = some l.slots[i] := List.getElem?_eq_getElem hlt
        have hinfo : q i = .slot l.slots[i] := by rw [hq, Layout.info, hget]
        have htake : l.slots.take i ++ [l.slots[i]] = l.slots.take (i + 1) := by
          rw [List.take_add_one, hget, Option.toList_some]
        rw [probeFrom, hinfo]
        dsimp only
        rw [htake]
        exact ih hlt (by omega)
      · have hlen : l.slots.length ≤ i := by omega
        have hinfo : q i = .invalidValue := by rw [hq, Layout.info, List.getElem?_eq_none hlen]
        rw [probeFrom, hinfo]
        exact congrArg some (List.take_of_length_le hlen)

/-- The layout is collected if no query fails and there are at most 1025 parameters. -/
theorem handleParamLayout_complete (hq : ∀ i, q i = l.info i) (hlen : l.slots.length ≤ 1025) :
    handleParamLayout q = some l.slots :=
  probeFrom_complete hq (Nat.zero_le _) (by omega)

end Probing

/-! ### Packing -/

/-- The running maximum is at least its start and every end that has gone into it. -/
theorem stop_le_foldl {slots : List ParamSlot} {n : ℕ} :
    n ≤ slots.foldl (fun total s => max total s.stop) n ∧
      ∀ s ∈ slots, s.stop ≤ slots.foldl (fun total s => max total s.stop) n := by
  induction slots generalizing n with
  | nil => exact ⟨le_rfl, nofun⟩
  | cons t slots ih =>
      obtain ⟨hmax, hrest⟩ := ih (n := max n t.stop)
      refine ⟨(le_max_left _ _).trans hmax, fun s hs => ?_⟩
      rcases List.mem_cons.mp hs with rfl | hs
      · exact (le_max_right _ _).trans hmax
      · exact hrest s hs

/-- Every slot lies within the total size. -/
theorem stop_le_total {slots : List ParamSlot} {s : ParamSlot} (hs : s ∈ slots) : s.stop ≤ ParamSlot.total slots :=
  stop_le_foldl.2 s hs

/-- What `pack_args` writes for a parameter. -/
def block (ps : ℕ → Option Memory) (i : ℕ) (s : ParamSlot) : ℕ × List UInt8 :=
  (s.offset, ((ps i).getD fun _ => 0).read s.size)

/-- The block of a parameter starts at its offset. -/
@[simp] theorem block_fst (ps : ℕ → Option Memory) (i : ℕ) (s : ParamSlot) : (block ps i s).1 = s.offset := rfl

/-- The block of a parameter is as long as its slot. -/
@[simp] theorem length_block (ps : ℕ → Option Memory) (i : ℕ) (s : ParamSlot) : (block ps i s).2.length = s.size :=
  Memory.length_read _ _

variable {ps : ℕ → Option Memory}

/-- What is packed is every parameter's bytes at its slot's offset, in order, with the indices and
sizes that were read. -/
theorem packFrom_sound {i : ℕ} {slots : List ParamSlot} {blob : List UInt8} {packed : List UInt8 × List (ℕ × ℕ)}
    (h : packFrom ps i slots blob = some packed) :
    (∀ k < slots.length, (ps (i + k)).isSome) ∧
      packed.1 = overwriteAll blob (slots.mapIdx fun k s => block ps (i + k) s) ∧
      packed.2 = slots.mapIdx fun k s => (i + k, s.size) := by
  induction slots generalizing i blob packed with
  | nil =>
      cases h
      exact ⟨nofun, rfl, rfl⟩
  | cons s slots ih =>
      rw [packFrom] at h
      cases hp : ps i with
      | none =>
          rw [hp] at h
          cases h
      | some p =>
          rw [hp] at h
          obtain ⟨rest, hrest, rfl⟩ := Option.map_eq_some_iff.mp h
          obtain ⟨hsome, hbytes, hreads⟩ := ih hrest
          have hshift : ∀ k, i + 1 + k = i + (k + 1) := fun k => by omega
          have hblock : block ps i s = (s.offset, p.read s.size) := by rw [block, hp, Option.getD_some]
          refine ⟨?_, ?_, ?_⟩
          · intro k hk
            cases k with
            | zero => rw [Nat.add_zero, hp, Option.isSome_some]
            | succ k => exact hshift k ▸ hsome k (Nat.lt_of_succ_lt_succ hk)
          · simp only [hshift] at hbytes
            rw [List.mapIdx_cons, overwriteAll, Nat.add_zero, hblock]
            exact hbytes
          · simp only [hshift] at hreads
            rw [List.mapIdx_cons, Nat.add_zero, hreads]

/-- Packing succeeds where no parameter is null. -/
theorem packFrom_complete {i : ℕ} {slots : List ParamSlot} {blob : List UInt8}
    (h : ∀ k < slots.length, (ps (i + k)).isSome) : (packFrom ps i slots blob).isSome := by
  induction slots generalizing i blob with
  | nil => rfl
  | cons s slots ih =>
      obtain ⟨p, hp⟩ := Option.isSome_iff_exists.mp (h 0 (Nat.succ_pos _))
      rw [Nat.add_zero] at hp
      rw [packFrom, hp, Option.isSome_map]
      refine ih fun k hk => ?_
      have hk' := h (k + 1) (Nat.succ_lt_succ hk)
      rwa [Nat.add_comm k 1, ← Nat.add_assoc] at hk'

/-- What is packed by the layout of a function passes its arguments. -/
theorem passed_of_packed {fn : DeviceFunction} {packed : List UInt8 × List (ℕ × ℕ)}
    (h : packArgs fn.layout.slots ps = some packed) {x : Sent} (hargs : x.request.args = packed.1)
    (hreads : x.reads = packed.2) : Passed fn ps x := by
  obtain ⟨hsome, hbytes, hread⟩ := packFrom_sound h
  simp only [Nat.zero_add] at hsome hbytes hread
  have hfit : ∀ b ∈ fn.layout.slots.mapIdx (block ps),
      b.1 + b.2.length ≤ (List.replicate (ParamSlot.total fn.layout.slots) (0 : UInt8)).length := by
    intro b hb
    obtain ⟨i, hi, rfl⟩ := List.mem_mapIdx.mp hb
    rw [List.length_replicate, block_fst, length_block]
    exact stop_le_total (List.getElem_mem hi)
  -- the driver's slots are in disjoint places, so no block is overwritten by a later one
  have hapart : (fn.layout.slots.mapIdx (block ps)).Pairwise Apart := by
    rw [List.pairwise_iff_getElem]
    intro i j hi hj hij
    rw [List.getElem_mapIdx, List.getElem_mapIdx, Apart, block_fst, block_fst, length_block, length_block]
    exact List.pairwise_iff_getElem.mp fn.layout.apart i j _ _ hij
  have hlength : x.request.args.length = ParamSlot.total fn.layout.slots := by
    rw [hargs, hbytes, length_overwriteAll hfit, List.length_replicate]
  refine ⟨hlength, ?_, ?_, hreads.trans hread, ?_⟩
  · intro i s hget
    obtain ⟨hi, rfl⟩ := List.getElem?_eq_some_iff.mp hget
    obtain ⟨p, hp⟩ := Option.isSome_iff_exists.mp (hsome i hi)
    have hmem : block ps i fn.layout.slots[i] ∈ fn.layout.slots.mapIdx (block ps) :=
      List.mem_mapIdx.mpr ⟨i, hi, rfl⟩
    have hslice := slice_overwriteAll hfit hapart hmem
    rw [block_fst, length_block, ← hbytes, ← hargs, block, hp, Option.getD_some] at hslice
    exact ⟨p, hp, hslice⟩
  · intro k hk hfree
    have hclear : ∀ b ∈ fn.layout.slots.mapIdx (block ps), k < b.1 ∨ b.1 + b.2.length ≤ k := by
      intro b hb
      obtain ⟨i, hi, rfl⟩ := List.mem_mapIdx.mp hb
      rw [block_fst, length_block]
      exact hfree _ (List.getElem_mem hi)
    rw [hargs, hbytes, getElem?_overwriteAll_outside hfit hclear, List.getElem?_replicate, if_pos (hlength ▸ hk)]
  · rw [handleLaunch]
    split
    -- without arguments the driver is given no buffer
    · rename_i hempty
      exact ⟨rfl, rfl, (List.length_eq_zero_iff.mp hempty).symm⟩
    · exact ⟨rfl, rfl, rfl⟩

namespace Process

/-! ### The layouts that are kept -/

/-- The layout that is kept for a function is its own, and what was launched is right. -/
structure Kept (s : Process) : Prop where
  own : ∀ f fn slots, s.functions f = some fn → s.layouts f = some slots → slots = fn.layout.slots
  right : ∀ x ∈ s.sent, x.Right

/-- No layout is remembered in a process that has just begun. -/
theorem kept_init : Kept {} where
  own := nofun
  right := nofun

/-- A query on a live function fails or is right. -/
theorem cuFuncGetParamInfo_live {s : Process} {f : ℕ} {fn : DeviceFunction} (hfn : s.functions f = some fn)
    (answer : Answer) (i : ℕ) :
    s.cuFuncGetParamInfo f answer i = .failed ∨ s.cuFuncGetParamInfo f answer i = fn.layout.info i := by
  simp only [cuFuncGetParamInfo, hfn]
  cases answer.fails i with
  | true => exact .inl rfl
  | false => exact .inr rfl

/-- The layout that is fetched for a function is its own. -/
theorem fetchLayout_own {s : Process} (h : Kept s) {f : ℕ} {fn : DeviceFunction} (hfn : s.functions f = some fn)
    {answer : Answer} {slots : List ParamSlot} (hfetch : s.fetchLayout f answer = some slots) :
    slots = fn.layout.slots := by
  rw [fetchLayout] at hfetch
  cases hcached : s.layouts f with
  | some own =>
      rw [hcached] at hfetch
      exact (Option.some.inj hfetch) ▸ h.own f fn own hfn hcached
  | none =>
      rw [hcached] at hfetch
      dsimp only at hfetch
      split at hfetch
      · cases hfetch
      · exact handleParamLayout_sound (cuFuncGetParamInfo_live hfn answer) hfetch

/-- It is fetched, unless the driver or the connection fails. -/
theorem fetchLayout_live {s : Process} (h : Kept s) {f : ℕ} {fn : DeviceFunction} (hfn : s.functions f = some fn)
    (hlen : fn.layout.slots.length ≤ 1025) {answer : Answer} (hfails : ∀ i, answer.fails i = false)
    (hlost : answer.lost = false) : s.fetchLayout f answer = some fn.layout.slots := by
  rw [fetchLayout]
  cases hcached : s.layouts f with
  | some own => exact congrArg some (h.own f fn own hfn hcached)
  | none =>
      have hinfo : ∀ i, s.cuFuncGetParamInfo f answer i = fn.layout.info i := by
        intro i
        simp only [cuFuncGetParamInfo, hfn, hfails i]
        rfl
      simp only [hlost, Bool.false_eq_true, if_false]
      exact handleParamLayout_complete hinfo hlen

/-- What a launch sends is right if the layout remembered for its function is the function's own. -/
theorem sends_right {s : Process} (h : Kept s) {f : ℕ} {config : Config} {args : Arguments} {answer : Answer}
    {x : Sent} (hx : s.sends f config args answer = some x) : x.Right := by
  obtain ⟨packed, hpacked, rfl⟩ := Option.map_eq_some_iff.mp hx
  rintro fn ps hfn rfl
  obtain ⟨slots, hfetch, hpack⟩ := Option.bind_eq_some_iff.mp hpacked
  rw [fetchLayout_own h hfn hfetch] at hpack
  exact passed_of_packed hpack rfl rfl

/-- A layout that a launch fetches is the layout of its function. -/
theorem kept_launch {s : Process} (h : Kept s) (f : ℕ) (config : Config) (args : Arguments) (answer : Answer) :
    Kept (s.launch f config args answer) where
  own := by
    intro f' fn slots hfn hlayout
    cases args with
    | kernelParams ps =>
        by_cases hf : f' = f
        · subst hf
          rw [launch_layouts, layoutsAfter, Function.update_self] at hlayout
          exact fetchLayout_own h hfn hlayout
        · rw [launch_layouts, layoutsAfter, Function.update_of_ne hf] at hlayout
          exact h.own f' fn slots hfn hlayout
    | extra entries => exact h.own f' fn slots hfn hlayout
    | absent => exact h.own f' fn slots hfn hlayout
  right := by
    intro x hx
    rcases List.mem_append.mp hx with hx | hx
    · exact h.right x hx
    · exact sends_right h (Option.mem_toList.mp hx)

/-- **Every step that gives a handle back only to a function of the same layout keeps the
invariant.** -/
theorem kept_step {s : Process} {a : Action} {t : Process} (h : Kept s) (hsame : SameLayout s a)
    (hstep : s.step a = some t) : Kept t := by
  cases a with
  | load m =>
      rw [step] at hstep
      split at hstep
      · cases hstep
      · cases hstep
        exact ⟨h.own, h.right⟩
  | unload m =>
      cases hstep
      refine ⟨?_, h.right⟩
      intro f fn slots hfn hlayout
      exact h.own f fn slots (Option.filter_eq_some_iff.mp hfn).1 hlayout
  | getFunction f fn =>
      rw [step] at hstep
      split at hstep
      · cases hstep
        refine ⟨?_, h.right⟩
        intro f' fn' slots hfn hlayout
        by_cases hf : f' = f
        · subst hf
          dsimp only at hfn
          rw [Function.update_self] at hfn
          cases hfn
          exact hsame slots hlayout
        · dsimp only at hfn
          rw [Function.update_of_ne hf] at hfn
          exact h.own f' fn' slots hfn hlayout
      · cases hstep
  | launch f config args answer =>
      cases hstep
      exact kept_launch h f config args answer

/-- Where a handle that is used again has the layout that is kept for it, the driver gets what the application passed,
at every launch; and a launch is sent unless its layout cannot be had or a pointer is null. -/
theorem launches_pass_arguments (as : List Action) (s : Process) (hsame : Along step SameLayout {} as)
    (hrun : run step {} as = some s) :
    (∀ x ∈ s.sent, x.Right) ∧
      ∀ f fn config ps answer, s.functions f = some fn → fn.layout.slots.length ≤ 1025 →
        (∀ i, answer.fails i = false) → answer.lost = false → (∀ i < fn.layout.slots.length, (ps i).isSome) →
        ∃ x, s.sends f config (.kernelParams ps) answer = some x ∧ Passed fn ps x := by
  have hkept : Kept s := Always.of_step kept_init (fun _ _ _ h hsame hstep => kept_step h hsame hstep) as s hsame hrun
  refine ⟨hkept.right, ?_⟩
  intro f fn config ps answer hfn hlen hfails hlost hps
  have hfetch := fetchLayout_live hkept hfn hlen hfails hlost
  obtain ⟨packed, hpack⟩ : ∃ packed, packArgs fn.layout.slots ps = some packed :=
    Option.isSome_iff_exists.mp (packFrom_complete fun k hk => by rw [Nat.zero_add]; exact hps k hk)
  refine ⟨⟨s.functions f, .kernelParams ps, ⟨f, config, packed.1⟩, packed.2⟩, ?_, passed_of_packed hpack rfl rfl⟩
  rw [sends, arguments, hfetch, Option.bind_some, hpack]
  rfl

/-- A function with one parameter. -/
def unary (m size : ℕ) : DeviceFunction := ⟨m, "k", ⟨[⟨0, size⟩], List.pairwise_singleton _ _⟩⟩

/-- The function at the handle 7 is looked up and launched with a pointer to sevens. -/
def launching (m size : ℕ) : List Action :=
  [.load m, .getFunction 7 (unary m size),
    .launch 7 ⟨1, 1, 1, 1, 1, 1, 0, 0⟩ (.kernelParams fun i => if i = 0 then some fun _ => 7 else none) {}]

/-- A kernel with one parameter of four bytes is launched, and its bytes arrive. -/
theorem launches_pass_arguments_unary : ∃ s, run step {} (launching 1 4) = some s ∧
    (∀ x ∈ s.sent, x.Right) ∧ s.sent.map (fun x => x.request.args) = [[7, 7, 7, 7]] := by
  obtain ⟨s, hs, hargs⟩ : ∃ s, run step {} (launching 1 4) = some s ∧
      s.sent.map (fun x => x.request.args) = [[7, 7, 7, 7]] := ⟨_, rfl, rfl⟩
  have hsame : Along step SameLayout {} (launching 1 4) := ⟨trivial, nofun, trivial, trivial⟩
  exact ⟨s, hs, (launches_pass_arguments _ s hsame hs).1, hargs⟩

/-- The handle is used again for a function whose parameter is longer: what is sent for it is too short. -/
theorem handle_used_again : ∃ s x, run step {} (launching 1 4 ++ [.unload 1] ++ launching 2 8) = some s ∧
    x ∈ s.sent ∧ x.denoted = some (unary 2 8) ∧ x.request.args = [7, 7, 7, 7] ∧ ¬ x.Right := by
  obtain ⟨s, x, hs, hx, hdenoted, hargs, ps, hps⟩ : ∃ s x,
      run step {} (launching 1 4 ++ [.unload 1] ++ launching 2 8) = some s ∧ x ∈ s.sent ∧
        x.denoted = some (unary 2 8) ∧ x.request.args = [7, 7, 7, 7] ∧ ∃ ps, x.args = .kernelParams ps :=
    ⟨_, _, rfl, .tail _ (.head _), rfl, rfl, _, rfl⟩
  refine ⟨s, x, hs, hx, hdenoted, hargs, fun hright => ?_⟩
  have hlength := (hright _ ps hdenoted hps).length
  rw [hargs] at hlength
  cases hlength

end Process

end Rgpu.Launching
