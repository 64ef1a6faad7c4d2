import Rgpu.Foundations.StepSystem
import Mathlib.Logic.Function.Basic

/-! # Kernels of the runtime (`cudart_impl.cpp`)

A host function stands for a kernel of a fat binary, whose module is loaded at the first launch and kept for the
process. Contexts belong to devices: a thread selects a device, and `cudaDeviceReset` releases what was retained.

* **`Runtime`** — the process's tables and its threads, with the server's contexts and modules; a context is told
  from the one that a device has later by its lifetime.
* **`Runtime.step`** — the entry points, a launch with the points at which another thread can come between.
* **`kernels_sound`** — what is launched, where modules are used as they were loaded. -/

namespace Rgpu.Cudart

open Foundations

/-- A primary context, in one of its lifetimes. -/
structure PrimaryContext where
  device : ℕ
  lifetime : ℕ
  deriving DecidableEq

/-- `Module`, with what its load was like. -/
structure Module where
  image : ℕ
  loaded : Option ℕ := none
  tried : Bool := false
  /-- The device of the thread that loaded it. -/
  loadDevice : ℕ := 0
  /-- `g_ctx_gen` when it was loaded. -/
  loadGen : ℕ := 0
  /-- If the load failed, it was for a reason of the image. -/
  blamed : Bool := true
  deriving DecidableEq

/-- `CUfunction`: a function of a module. -/
structure CUfunction where
  module : ℕ
  name : String
  deriving DecidableEq

/-- `Kernel` -/
structure Kernel where
  module : ℕ
  deviceName : String
  fn : Option CUfunction := none
  deriving DecidableEq

/-- A module that the server has loaded. -/
structure Loaded where
  id : ℕ
  context : PrimaryContext
  deriving DecidableEq

/-- Where a thread is. -/
inductive Doing
  | idle
  /-- In `ensure_context`, before `cuCtxSetCurrent`; for a launch of a host function, or for nothing more. -/
  | selecting (f : Option ℕ) (ctx : PrimaryContext) (gen : ℕ)
  /-- In `cudaLaunchKernel`, before `resolve_kernel`. -/
  | ready (f : ℕ)
  /-- In `cudaLaunchKernel`, before `cuLaunchKernel`. -/
  | resolved (fn : CUfunction)
  deriving DecidableEq

/-- What comes of `cuModuleLoadData`. -/
inductive LoadOutcome
  | loaded
  | failed (ofImage : Bool)
  deriving DecidableEq

/-- The process and its part of the server. -/
structure Runtime where
  /-- `g_primary` -/
  primary : ℕ → Option PrimaryContext := fun _ => none
  /-- `g_ctx_gen` -/
  ctxGen : ℕ := 1
  /-- What `g_modules` points to. -/
  modules : ℕ → Option Module := fun _ => none
  /-- `g_kernels` -/
  kernels : ℕ → Option Kernel := fun _ => none
  /-- `t_device` -/
  device : ℕ → ℕ := fun _ => 0
  /-- `t_ctx_gen` -/
  gen : ℕ → ℕ := fun _ => 0
  doing : ℕ → Doing := fun _ => .idle
  /-- The server's current context of each thread. -/
  current : ℕ → Option PrimaryContext := fun _ => none
  lifetime : ℕ → ℕ := fun _ => 0
  /-- How often the primary context of a device is retained. -/
  retained : ℕ → ℕ := fun _ => 0
  loaded : List Loaded := []
  /-- How many modules have been loaded. -/
  made : ℕ := 0

/-- What can happen. -/
inductive Action
  /-- `__cudaRegisterFatBinary` -/
  | register (m image : ℕ)
  /-- `__cudaRegisterFunction` -/
  | function (m f : ℕ) (deviceName : String)
  /-- `__cudaUnregisterFatBinary` -/
  | unregister (m : ℕ) (unloaded : Bool)
  /-- `cudaSetDevice`, up to `ensure_context`. -/
  | setDevice (t d : ℕ)
  /-- `ensure_context`, up to `cuCtxSetCurrent`. -/
  | enter (t : ℕ) (f : Option ℕ) (retained : Bool)
  /-- `cuCtxSetCurrent` -/
  | select (t : ℕ) (ok : Bool)
  /-- `resolve_kernel` -/
  | resolve (t : ℕ) (load : LoadOutcome) (found : Bool)
  /-- `cuLaunchKernel` -/
  | launch (t : ℕ)
  /-- `cudaDeviceReset` -/
  | reset (released : ℕ → Bool)

namespace Module

/-- `ensure_module`: the module after it, loaded if it is. -/
def ensure (m : Module) (id device gen : ℕ) (load : LoadOutcome) : Module :=
  if m.loaded.isSome then m
  else if m.tried then m
  else
    match load with
    | .loaded => { m with loaded := some id, tried := true, loadDevice := device, loadGen := gen }
    | .failed ofImage => { m with tried := true, blamed := ofImage }

/-- `ensure_module` loads the module. -/
def loads (m : Module) (load : LoadOutcome) : Bool := m.loaded.isNone && !m.tried && load = .loaded

end Module

namespace Runtime

/-- The context of a thread's device, in its lifetime. -/
def ownContext (s : Runtime) (t : ℕ) : PrimaryContext := ⟨s.device t, s.lifetime (s.device t)⟩

/-- A context that there is. -/
def Live (s : Runtime) (ctx : PrimaryContext) : Prop :=
  ctx.lifetime = s.lifetime ctx.device ∧ 0 < s.retained ctx.device

instance (s : Runtime) (ctx : PrimaryContext) : Decidable (s.Live ctx) :=
  inferInstanceAs (Decidable (_ ∧ _))

/-- Past `ensure_context`. -/
def entered : Option ℕ → Doing
  | none => .idle
  | some f => .ready f

def at' (s : Runtime) (t : ℕ) (d : Doing) : Runtime := { s with doing := Function.update s.doing t d }

/-- Putting a thread somewhere changes what that thread does, and nothing else. -/
@[simp] theorem at_doing (s : Runtime) (t : ℕ) (d : Doing) : (s.at' t d).doing = Function.update s.doing t d := rfl

/-- `ensure_context`, up to `cuCtxSetCurrent`. -/
def enter (s : Runtime) (t : ℕ) (f : Option ℕ) (retained : Bool) : Runtime :=
  if s.gen t = s.ctxGen then s.at' t (entered f)
  else
    match s.primary (s.device t) with
    | some ctx => s.at' t (.selecting f ctx s.ctxGen)
    | none =>
        if retained then
          { s with
            retained := Function.update s.retained (s.device t) (s.retained (s.device t) + 1)
            primary := Function.update s.primary (s.device t) (some (s.ownContext t))
            doing := Function.update s.doing t (.selecting f (s.ownContext t) s.ctxGen) }
        else s

/-- The server's modules after `cuModuleLoadData`; only a context that there is can load one. -/
def loading (s : Runtime) (t : ℕ) (md : Module) (load : LoadOutcome) : Option (List Loaded) :=
  if md.loads load then
    match s.current t with
    | some ctx => if s.Live ctx then some (⟨s.made, ctx⟩ :: s.loaded) else none
    | none => none
  else some s.loaded

/-- `ensure_module` -/
def ensureModule (s : Runtime) (t m : ℕ) (md : Module) (load : LoadOutcome) : Option Runtime :=
  (s.loading t md load).map fun loaded =>
    { s with
      modules := Function.update s.modules m (some (md.ensure s.made (s.device t) s.ctxGen load))
      loaded := loaded
      made := s.made + 1 }

/-- `resolve_kernel` keeps the function. -/
def keep (s : Runtime) (f : ℕ) (k : Kernel) (fn : CUfunction) : Runtime :=
  { s with kernels := Function.update s.kernels f (some { k with fn := some fn }) }

/-- Keeping a function writes the entry of the one kernel it was resolved for. -/
@[simp] theorem keep_kernels (s : Runtime) (f : ℕ) (k : Kernel) (fn : CUfunction) :
    (s.keep f k fn).kernels = Function.update s.kernels f (some { k with fn := some fn }) := rfl

/-- `resolve_kernel` -/
def resolve (s : Runtime) (t f : ℕ) (load : LoadOutcome) (found : Bool) : Option Runtime :=
  match s.kernels f with
  | none => some (s.at' t .idle)
  | some k =>
      match k.fn with
      | some fn => some (s.at' t (.resolved fn))
      | none => do
          let md ← s.modules k.module
          let s' ← s.ensureModule t k.module md load
          match (md.ensure s.made (s.device t) s.ctxGen load).loaded with
          | none => some (s'.at' t .idle)
          | some id =>
              if found then some ((s'.keep f k ⟨id, k.deviceName⟩).at' t (.resolved ⟨id, k.deviceName⟩))
              else some (s'.at' t .idle)

/-- `cudaDeviceReset` releases a context, and nothing else retains it. -/
def destroys (s : Runtime) (released : ℕ → Bool) (d : ℕ) : Bool :=
  (s.primary d).isSome && released d && s.retained d = 1

def reset (s : Runtime) (released : ℕ → Bool) : Runtime :=
  { s with
    primary := fun _ => none
    ctxGen := s.ctxGen + 1
    retained := fun d => if (s.primary d).isSome && released d then s.retained d - 1 else s.retained d
    lifetime := fun d => if s.destroys released d then s.lifetime d + 1 else s.lifetime d
    loaded := s.loaded.filter fun l => !s.destroys released l.context.device }

/-- `__cudaUnregisterFatBinary`: the kernels go with their module. -/
def unregister (s : Runtime) (m : ℕ) (md : Module) (unloaded : Bool) : Runtime :=
  { s with
    modules := Function.update s.modules m none
    kernels := fun f => (s.kernels f).filter fun k => k.module ≠ m
    loaded := if unloaded then s.loaded.filter fun l => md.loaded ≠ some l.id else s.loaded }

/-- Unregistering a module takes out its entry, whether or not the server unloads it. -/
@[simp] theorem unregister_modules (s : Runtime) (m : ℕ) (md : Module) (unloaded : Bool) :
    (s.unregister m md unloaded).modules = Function.update s.modules m none := rfl

def step (s : Runtime) : Action → Option Runtime
  | .register m image =>
      match s.modules m with
      | none => some { s with modules := Function.update s.modules m (some { image := image }) }
      | some _ => none
  | .function m f deviceName =>
      if (s.modules m).isSome then
        some { s with kernels := Function.update s.kernels f (some { module := m, deviceName := deviceName }) }
      else none
  | .unregister m unloaded => (s.modules m).map fun md => s.unregister m md unloaded
  | .setDevice t d =>
      if s.doing t = .idle then
        if d = s.device t then some s
        else some { s with device := Function.update s.device t d, gen := Function.update s.gen t 0 }
      else none
  | .enter t f retained => if s.doing t = .idle then some (s.enter t f retained) else none
  | .select t ok =>
      match s.doing t with
      | .selecting f ctx gen =>
          if ok then
            some { s.at' t (entered f) with
              current := Function.update s.current t (some ctx)
              gen := Function.update s.gen t gen }
          else some (s.at' t .idle)
      | _ => none
  | .resolve t load found =>
      match s.doing t with
      | .ready f => s.resolve t f load found
      | _ => none
  | .launch t =>
      match s.doing t with
      | .resolved _ => some (s.at' t .idle)
      | _ => none
  | .reset released => some (s.reset released)

/-- The server has a module loaded in a context. -/
def Holds (s : Runtime) (id : ℕ) (ctx : PrimaryContext) : Prop := ⟨id, ctx⟩ ∈ s.loaded

/-- No reset comes between the points of another thread's call, and no unregistration between the last two of a
launch from it; a module that is loaded is used by threads whose device is the one that it was loaded for, and not
after a reset; and no load fails for a reason that is not of the image. -/
def Steady (s : Runtime) : Action → Prop
  | .reset _ => ∀ t, s.doing t = .idle
  | .unregister m _ => ∀ t fn md, s.doing t = .resolved fn → s.modules m = some md → md.loaded ≠ some fn.module
  | .resolve t load _ => load ≠ .failed false ∧
      ∀ f k m, s.doing t = .ready f → s.kernels f = some k → s.modules k.module = some m → m.loaded.isSome →
        m.loadDevice = s.device t ∧ m.loadGen = s.ctxGen
  | _ => True

/-- What is about to be launched is of a module that is loaded in the context of the thread's device, in its
lifetime, which is the thread's current one; and a load that failed for another reason than the image will be tried
again. -/
structure Sound (s : Runtime) : Prop where
  launches : ∀ t fn, s.doing t = .resolved fn →
    s.current t = some (s.ownContext t) ∧ s.Live (s.ownContext t) ∧ s.Holds fn.module (s.ownContext t)
  retried : ∀ m md, s.modules m = some md → md.loaded = none → md.blamed = false → md.tried = false

/-! ### The invariant -/

/-- The thread's current context is that of its device. -/
def InContext (s : Runtime) (t : ℕ) : Prop := s.current t = some (s.ownContext t) ∧ s.Live (s.ownContext t)

/-- What is retained is live; a selection of the current generation, and one on the way, is right; a module loaded
since the last reset is in the context that it was loaded for; kernels have functions of their loaded modules. -/
structure Kept (s : Runtime) : Prop where
  primary : ∀ d ctx, s.primary d = some ctx → ctx = ⟨d, s.lifetime d⟩ ∧ 0 < s.retained d
  positive : 0 < s.ctxGen
  selected : ∀ t, s.gen t = s.ctxGen → s.InContext t
  selecting : ∀ t f ctx gen, s.doing t = .selecting f ctx gen → ctx = s.ownContext t ∧ s.Live ctx
  ready : ∀ t f, s.doing t = .ready f → s.InContext t
  resolved : ∀ t fn, s.doing t = .resolved fn → s.InContext t ∧ s.Holds fn.module (s.ownContext t)
  loaded : ∀ m md id, s.modules m = some md → md.loaded = some id → md.loadGen ≤ s.ctxGen ∧ id < s.made ∧
    (md.loadGen = s.ctxGen → s.Holds id ⟨md.loadDevice, s.lifetime md.loadDevice⟩)
  distinct : ∀ m m' md md' id, s.modules m = some md → s.modules m' = some md' → md.loaded = some id →
    md'.loaded = some id → m = m'
  kernels : ∀ f k fn, s.kernels f = some k → k.fn = some fn →
    ∃ md, s.modules k.module = some md ∧ md.loaded = some fn.module
  blamed : ∀ m md, s.modules m = some md → md.blamed = true

/-- The invariant gives what is asked of the runtime. -/
theorem Kept.sound {s : Runtime} (h : Kept s) : Sound s where
  launches := fun t fn hdoing =>
    let ⟨⟨hcurrent, hlive⟩, hholds⟩ := h.resolved t fn hdoing
    ⟨hcurrent, hlive, hholds⟩
  retried := by
    intro m md hm _ hblamed
    rw [h.blamed m md hm] at hblamed
    cases hblamed

/-- Nothing is retained, selected or loaded in a process that has just begun. -/
theorem kept_init : Kept {} where
  primary := nofun
  positive := Nat.one_pos
  selected := nofun
  selecting := nofun
  ready := nofun
  resolved := nofun
  loaded := nofun
  distinct := nofun
  kernels := nofun
  blamed := nofun

/-- A thread goes on to where what is asked of it holds. -/
theorem kept_at {s : Runtime} (h : Kept s) {t : ℕ} {d : Doing}
    (hselecting : ∀ f ctx gen, d = .selecting f ctx gen → ctx = s.ownContext t ∧ s.Live ctx)
    (hready : ∀ f, d = .ready f → s.InContext t)
    (hresolved : ∀ fn, d = .resolved fn → s.InContext t ∧ s.Holds fn.module (s.ownContext t)) : Kept (s.at' t d) := by
  have hother : ∀ t' d', (s.at' t d).doing t' = d' → (t' = t ∧ d' = d) ∨ s.doing t' = d' := by
    intro t' d' hd
    rw [at_doing] at hd
    exact (of_update_eq hd).imp_right And.right
  refine ⟨h.primary, h.positive, h.selected, ?_, ?_, ?_, h.loaded, h.distinct, h.kernels, h.blamed⟩
  · intro t' f ctx gen hd
    rcases hother t' _ hd with ⟨rfl, heq⟩ | hd
    · exact hselecting f ctx gen heq.symm
    · exact h.selecting t' f ctx gen hd
  · intro t' f hd
    rcases hother t' _ hd with ⟨rfl, heq⟩ | hd
    · exact hready f heq.symm
    · exact h.ready t' f hd
  · intro t' fn hd
    rcases hother t' _ hd with ⟨rfl, heq⟩ | hd
    · exact hresolved fn heq.symm
    · exact h.resolved t' fn hd

/-- A thread that returns to the application says nothing about contexts any more. -/
theorem kept_idle {s : Runtime} (h : Kept s) (t : ℕ) : Kept (s.at' t .idle) :=
  kept_at h nofun nofun nofun

/-- A thread whose context is current may go on to resolve the kernel it came for. -/
theorem kept_entered {s : Runtime} (h : Kept s) {t : ℕ} (hin : s.InContext t) (f : Option ℕ) :
    Kept (s.at' t (entered f)) := by
  cases f with
  | none => exact kept_idle h t
  | some f => exact kept_at h nofun (fun _ _ => hin) nofun

/-- Registering an image adds a module that is not loaded. -/
theorem kept_register {s : Runtime} (h : Kept s) {m image : ℕ} {t : Runtime}
    (hstep : s.step (.register m image) = some t) : Kept t := by
  rw [step] at hstep
  split at hstep
  · rename_i hnone
    cases hstep
    have hsplit : ∀ m' md, Function.update s.modules m (some { image := image }) m' = some md →
        md = { image := image } ∨ s.modules m' = some md :=
      fun m' md hm => (of_update_eq_some hm).imp And.right And.right
    refine ⟨h.primary, h.positive, h.selected, h.selecting, h.ready, h.resolved, ?_, ?_, ?_, ?_⟩
    · intro m' md id hm hid
      rcases hsplit m' md hm with rfl | hm
      · cases hid
      · exact h.loaded m' md id hm hid
    · intro m₁ m₂ md₁ md₂ id hm₁ hm₂ hid₁ hid₂
      rcases hsplit m₁ md₁ hm₁ with rfl | hm₁
      · cases hid₁
      · rcases hsplit m₂ md₂ hm₂ with rfl | hm₂
        · cases hid₂
        · exact h.distinct m₁ m₂ md₁ md₂ id hm₁ hm₂ hid₁ hid₂
    · intro f k fn hk hfn
      obtain ⟨md, hm, hid⟩ := h.kernels f k fn hk hfn
      -- a kernel that is resolved is of a module registered before
      have hne : k.module ≠ m := by
        rintro rfl
        rw [hnone] at hm
        cases hm
      exact ⟨md, (Function.update_of_ne hne _ _).trans hm, hid⟩
    · intro m' md hm
      rcases hsplit m' md hm with rfl | hm
      · rfl
      · exact h.blamed m' md hm
  · cases hstep

/-- Registering a function adds a kernel that is not resolved, of a module that may be loaded or
not. -/
theorem kept_function {s : Runtime} (h : Kept s) {m f : ℕ} {deviceName : String} {t : Runtime}
    (hstep : s.step (.function m f deviceName) = some t) : Kept t := by
  rw [step] at hstep
  split at hstep
  · cases hstep
    refine ⟨h.primary, h.positive, h.selected, h.selecting, h.ready, h.resolved, h.loaded, h.distinct, ?_, h.blamed⟩
    intro f' k fn hk hfn
    dsimp only at hk
    by_cases hne : f' = f
    · subst hne
      rw [Function.update_self] at hk
      cases hk
      cases hfn
    · rw [Function.update_of_ne hne] at hk
      exact h.kernels f' k fn hk hfn
  · cases hstep

/-- Unregistering a module takes out the entry that names what the server unloads; no other entry
names it. -/
theorem kept_unregister {s : Runtime} (h : Kept s) {m : ℕ} {unloaded : Bool}
    (hsteady : s.Steady (.unregister m unloaded)) {t : Runtime} (hstep : s.step (.unregister m unloaded) = some t) :
    Kept t := by
  obtain ⟨md, hm, rfl⟩ := Option.map_eq_some_iff.mp hstep
  have hkeeps : ∀ id ctx, md.loaded ≠ some id → s.Holds id ctx → (s.unregister m md unloaded).Holds id ctx := by
    intro id ctx hne hholds
    rw [Holds, unregister]
    dsimp only
    split
    · exact List.mem_filter.mpr ⟨hholds, decide_eq_true hne⟩
    · exact hholds
  have hmodules : ∀ m' md', (s.unregister m md unloaded).modules m' = some md' → m' ≠ m ∧ s.modules m' = some md' := by
    intro m' md' hm'
    rw [unregister_modules] at hm'
    exact (of_update_eq hm').resolve_left nofun
  refine ⟨h.primary, h.positive, h.selected, h.selecting, h.ready, ?_, ?_, ?_, ?_, ?_⟩
  · intro t fn hd
    obtain ⟨hin, hholds⟩ := h.resolved t fn hd
    exact ⟨hin, hkeeps _ _ (hsteady t fn md hd hm) hholds⟩
  · intro m' md' id hm' hid
    obtain ⟨hne, hm'⟩ := hmodules m' md' hm'
    obtain ⟨hgen, hmade, hholds⟩ := h.loaded m' md' id hm' hid
    refine ⟨hgen, hmade, fun hlast => hkeeps _ _ ?_ (hholds hlast)⟩
    exact fun heq => hne (h.distinct m' m md' md id hm' hm hid heq)
  · intro m₁ m₂ md₁ md₂ id hm₁ hm₂
    exact h.distinct m₁ m₂ md₁ md₂ id (hmodules m₁ md₁ hm₁).2 (hmodules m₂ md₂ hm₂).2
  · intro f k fn hk hfn
    obtain ⟨hk, hne⟩ := Option.filter_eq_some_iff.mp hk
    obtain ⟨md', hm', hid⟩ := h.kernels f k fn hk hfn
    exact ⟨md', (Function.update_of_ne (of_decide_eq_true hne) _ _).trans hm', hid⟩
  · intro m' md' hm'
    exact h.blamed m' md' (hmodules m' md' hm').2

/-- Another device is chosen: the thread's selection is of an older generation from then on. -/
theorem kept_setDevice {s : Runtime} (h : Kept s) {t d : ℕ} {u : Runtime} (hstep : s.step (.setDevice t d) = some u) :
    Kept u := by
  rw [step] at hstep
  split at hstep
  · rename_i hidle
    split at hstep
    · cases hstep
      exact h
    · cases hstep
      have hother : ∀ t', t' ≠ t → Function.update s.device t d t' = s.device t' :=
        fun t' ht => Function.update_of_ne ht _ _
      -- a thread that is in the middle of a call is another one
      have hbusy : ∀ t', s.doing t' ≠ .idle → t' ≠ t := by
        rintro t' hd rfl
        exact hd hidle
      refine ⟨h.primary, h.positive, ?_, ?_, ?_, ?_, h.loaded, h.distinct, h.kernels, h.blamed⟩
      · intro t' hgen
        dsimp only at hgen
        have ht : t' ≠ t := by
          rintro rfl
          rw [Function.update_self] at hgen
          exact h.positive.ne hgen
        rw [Function.update_of_ne ht] at hgen
        have hin := h.selected t' hgen
        rwa [InContext, ownContext, ← hother t' ht] at hin
      · intro t' f ctx gen hd
        have hsel := h.selecting t' f ctx gen hd
        rwa [ownContext, ← hother t' (hbusy t' (by rw [hd]; nofun))] at hsel
      · intro t' f hd
        have hin := h.ready t' f hd
        rwa [InContext, ownContext, ← hother t' (hbusy t' (by rw [hd]; nofun))] at hin
      · intro t' fn hd
        have hres := h.resolved t' fn hd
        rwa [InContext, ownContext, ← hother t' (hbusy t' (by rw [hd]; nofun))] at hres
  · cases hstep

/-- What `ensure_context` finds or retains is the context of the thread's device. -/
theorem kept_enter {s : Runtime} (h : Kept s) (t : ℕ) (f : Option ℕ) (retained : Bool) :
    Kept (s.enter t f retained) := by
  unfold enter
  split
  · rename_i hgen
    -- the thread has selected its context since the last reset
    exact kept_entered h (h.selected t hgen) f
  · split
    · rename_i ctx hctx
      -- the context of the device is retained already, and is only to be made current
      refine kept_at h ?_ nofun nofun
      intro f' ctx' gen heq
      cases heq
      obtain ⟨rfl, hretained⟩ := h.primary _ _ hctx
      exact ⟨rfl, rfl, hretained⟩
    · split
      · -- one more holds the context of the thread's device
        set r := Function.update s.retained (s.device t) (s.retained (s.device t) + 1) with hr
        have hmore : ∀ d, s.retained d ≤ r d := by
          intro d
          by_cases hd : d = s.device t
          · subst hd
            rw [hr, Function.update_self]
            exact Nat.le_succ _
          · rw [hr, Function.update_of_ne hd]
        have hown : 0 < r (s.device t) := by
          rw [hr, Function.update_self]
          exact Nat.succ_pos _
        have hin : ∀ t', s.InContext t' → s.current t' = some (s.ownContext t') ∧
            (s.ownContext t').lifetime = s.lifetime (s.ownContext t').device ∧ 0 < r (s.ownContext t').device :=
          fun t' ⟨hcurrent, hlife, hpos⟩ => ⟨hcurrent, hlife, hpos.trans_le (hmore _)⟩
        have hother : ∀ t' d, Function.update s.doing t (.selecting f (s.ownContext t) s.ctxGen) t' = d →
            (t' = t ∧ d = .selecting f (s.ownContext t) s.ctxGen) ∨ s.doing t' = d :=
          fun t' d hd => (of_update_eq hd).imp_right And.right
        refine ⟨?_, h.positive, fun t' hgen => hin t' (h.selected t' hgen), ?_, ?_, ?_, h.loaded, h.distinct,
          h.kernels, h.blamed⟩
        · intro d ctx hctx
          dsimp only at hctx
          by_cases hd : d = s.device t
          · subst hd
            rw [Function.update_self] at hctx
            cases hctx
            exact ⟨rfl, hown⟩
          · rw [Function.update_of_ne hd] at hctx
            obtain ⟨hctx, hpos⟩ := h.primary d ctx hctx
            exact ⟨hctx, hpos.trans_le (hmore d)⟩
        · intro t' f' ctx gen hd
          rcases hother t' _ hd with ⟨rfl, heq⟩ | hd
          · cases heq
            exact ⟨rfl, rfl, hown⟩
          · obtain ⟨hctx, hlife, hpos⟩ := h.selecting t' f' ctx gen hd
            exact ⟨hctx, hlife, hpos.trans_le (hmore _)⟩
        · intro t' f' hd
          rcases hother t' _ hd with ⟨rfl, heq⟩ | hd
          · cases heq
          · exact hin t' (h.ready t' f' hd)
        · intro t' fn hd
          rcases hother t' _ hd with ⟨rfl, heq⟩ | hd
          · cases heq
          · obtain ⟨hctx, hholds⟩ := h.resolved t' fn hd
            exact ⟨hin t' hctx, hholds⟩
      · exact h

/-- Making the retained context current, or failing to. -/
theorem kept_select {s : Runtime} (h : Kept s) {t : ℕ} {ok : Bool} {u : Runtime} (hstep : s.step (.select t ok) = some u) :
    Kept u := by
  rw [step] at hstep
  split at hstep
  · rename_i f ctx gen hdoing
    split at hstep
    · cases hstep
      obtain ⟨rfl, hlive⟩ := h.selecting t f ctx gen hdoing
      -- the server's record of the thread, and the generation with it
      have hin : ∀ t', s.InContext t' → Function.update s.current t (some (s.ownContext t)) t' = some (s.ownContext t') ∧
          s.Live (s.ownContext t') := by
        rintro t' ⟨hcurrent, hlive'⟩
        by_cases ht : t' = t
        · subst ht
          rw [Function.update_self]
          exact ⟨rfl, hlive'⟩
        · rw [Function.update_of_ne ht]
          exact ⟨hcurrent, hlive'⟩
      have hkept : Kept { s with
          current := Function.update s.current t (some (s.ownContext t)), gen := Function.update s.gen t gen } := by
        refine ⟨h.primary, h.positive, ?_, h.selecting, fun t' f hd => hin t' (h.ready t' f hd), ?_, h.loaded,
          h.distinct, h.kernels, h.blamed⟩
        · intro t' hgen
          dsimp only at hgen
          by_cases ht : t' = t
          · subst ht
            exact ⟨Function.update_self .., hlive⟩
          · rw [Function.update_of_ne ht] at hgen
            exact hin t' (h.selected t' hgen)
        · intro t' fn hd
          obtain ⟨hctx, hholds⟩ := h.resolved t' fn hd
          exact ⟨hin t' hctx, hholds⟩
      exact kept_entered hkept (t := t) ⟨Function.update_self .., hlive⟩ f
    · cases hstep
      exact kept_idle h t
  · cases hstep

/-- A reset begins a new generation, so that nothing selected or loaded before it is taken for
current. -/
theorem kept_reset {s : Runtime} (h : Kept s) (released : ℕ → Bool) (hsteady : ∀ t, s.doing t = .idle)
    (hgens : ∀ t, s.gen t ≤ s.ctxGen) : Kept (s.reset released) := by
  have hbusy : ∀ {t d}, s.doing t = d → d = .idle := fun {t} _ hd => hd.symm.trans (hsteady t)
  refine ⟨nofun, Nat.succ_pos _, ?_, ?_, ?_, ?_, ?_, h.distinct, h.kernels, h.blamed⟩
  · intro t hgen
    exact absurd hgen (Nat.lt_succ_of_le (hgens t)).ne
  · intro t f ctx gen hd
    cases hbusy hd
  · intro t f hd
    cases hbusy hd
  · intro t fn hd
    cases hbusy hd
  · intro m md id hm hid
    obtain ⟨hgen, hmade, -⟩ := h.loaded m md id hm hid
    exact ⟨hgen.trans (Nat.le_succ _), hmade, fun hlast => absurd hlast (Nat.lt_succ_of_le hgen).ne⟩

/-- A module that is not loaded is, or its load fails for a reason of the image. -/
theorem ensureModule_cases {s u : Runtime} {t m : ℕ} {md : Module} {load : LoadOutcome}
    (hu : s.ensureModule t m md load = some u) : ∃ md' loaded, md' = md.ensure s.made (s.device t) s.ctxGen load ∧
      u = { s with modules := Function.update s.modules m (some md'), loaded := loaded, made := s.made + 1 } ∧
      ((md'.loaded = md.loaded ∧ loaded = s.loaded ∧ md'.loadDevice = md.loadDevice ∧ md'.loadGen = md.loadGen ∧
          (md'.blamed = md.blamed ∨ load = .failed md'.blamed)) ∨
        (md.loaded = none ∧ md'.loaded = some s.made ∧ md'.loadDevice = s.device t ∧ md'.loadGen = s.ctxGen ∧
          md'.blamed = md.blamed ∧ ∃ ctx, s.current t = some ctx ∧ loaded = ⟨s.made, ctx⟩ :: s.loaded)) := by
  obtain ⟨loaded, hloaded, rfl⟩ := Option.map_eq_some_iff.mp hu
  refine ⟨_, loaded, rfl, rfl, ?_⟩
  unfold loading Module.loads at hloaded
  unfold Module.ensure
  cases hid : md.loaded with
  | some id =>
      rw [hid] at hloaded
      cases hloaded
      exact .inl ⟨hid, rfl, rfl, rfl, .inl rfl⟩
  | none =>
      rw [hid] at hloaded
      cases htried : md.tried with
      -- a load is tried once
      | true =>
          rw [htried] at hloaded
          cases hloaded
          exact .inl ⟨hid, rfl, rfl, rfl, .inl rfl⟩
      | false =>
          rw [htried] at hloaded
          cases load with
          | failed ofImage =>
              cases hloaded
              exact .inl ⟨rfl, rfl, rfl, rfl, .inr rfl⟩
          | loaded =>
              simp only [Option.isNone_none, Bool.not_false, Bool.and_self, decide_true, if_true] at hloaded
              split at hloaded
              · rename_i ctx hctx
                split at hloaded
                · cases hloaded
                  exact .inr ⟨rfl, rfl, rfl, rfl, rfl, ctx, hctx, rfl⟩
                · cases hloaded
              · cases hloaded

/-- A module that is loaded already was loaded in this generation and on this device; one that is
not is loaded now, in the thread's context. -/
theorem kept_ensureModule {s u : Runtime} (h : Kept s) {t m : ℕ} {md : Module} {load : LoadOutcome}
    (hmd : s.modules m = some md) (hin : s.InContext t) (hload : load ≠ .failed false)
    (hsame : md.loaded.isSome → md.loadDevice = s.device t ∧ md.loadGen = s.ctxGen)
    (hu : s.ensureModule t m md load = some u) :
    Kept u ∧ u.InContext t ∧ u.kernels = s.kernels ∧ ∃ md', u.modules m = some md' ∧
      md' = md.ensure s.made (s.device t) s.ctxGen load ∧
      ∀ id, md'.loaded = some id → u.Holds id (u.ownContext t) := by
  obtain ⟨md', loaded, hmd', rfl, hcases⟩ := ensureModule_cases hu
  have hsub : ∀ l ∈ s.loaded, l ∈ loaded := by
    intro l hl
    rcases hcases with ⟨-, rfl, -⟩ | ⟨-, -, -, -, -, ctx, -, rfl⟩
    · exact hl
    · exact List.mem_cons_of_mem _ hl
  -- what the module has loaded is in the thread's context
  have hholds : ∀ id, md'.loaded = some id → (⟨id, s.ownContext t⟩ : Loaded) ∈ loaded ∧ id < s.made + 1 ∧
      md'.loadDevice = s.device t ∧ md'.loadGen = s.ctxGen := by
    intro id hid
    rcases hcases with ⟨hloaded, -, hdevice, hgen, -⟩ | ⟨-, hloaded, hdevice, hgen, -, ctx, hctx, rfl⟩
    · rw [hid] at hloaded
      obtain ⟨hdevice', hgen'⟩ := hsame (by rw [← hloaded]; rfl)
      obtain ⟨-, hmade, hlast⟩ := h.loaded m md id hmd hloaded.symm
      have hthere := hlast hgen'
      rw [hdevice'] at hthere
      exact ⟨hsub _ hthere, hmade.trans (Nat.lt_succ_self _), hdevice.trans hdevice', hgen.trans hgen'⟩
    · rw [hid] at hloaded
      cases hloaded
      rw [hin.1] at hctx
      cases hctx
      exact ⟨List.mem_cons_self, Nat.lt_succ_self _, hdevice, hgen⟩
  -- what is loaded now has an id that no module had
  have hnew : ∀ id m₁ md₁, md'.loaded = some id → s.modules m₁ = some md₁ → md₁.loaded = some id → m₁ = m := by
    intro id m₁ md₁ hid hm₁ hid₁
    rcases hcases with ⟨hloaded, -⟩ | ⟨-, hloaded, -⟩
    · exact h.distinct m₁ m md₁ md id hm₁ hmd hid₁ (hloaded.symm.trans hid)
    · rw [hid] at hloaded
      cases hloaded
      exact absurd (h.loaded m₁ md₁ _ hm₁ hid₁).2.1 (lt_irrefl _)
  refine ⟨⟨h.primary, h.positive, h.selected, h.selecting, h.ready, ?_, ?_, ?_, ?_, ?_⟩, hin, rfl, md',
    Function.update_self .., hmd', fun id hid => (hholds id hid).1⟩
  · intro t' fn hd
    obtain ⟨hctx, hthere⟩ := h.resolved t' fn hd
    exact ⟨hctx, hsub _ hthere⟩
  · intro m' md₁ id hm' hid
    rcases of_update_eq_some hm' with ⟨rfl, rfl⟩ | ⟨-, hm'⟩
    · obtain ⟨hthere, hmade, hdevice, hgen⟩ := hholds id hid
      refine ⟨hgen.le, hmade, fun _ => ?_⟩
      rw [hdevice]
      exact hthere
    · obtain ⟨hgen, hmade, hlast⟩ := h.loaded m' md₁ id hm' hid
      exact ⟨hgen, hmade.trans (Nat.lt_succ_self _), fun heq => hsub _ (hlast heq)⟩
  · intro m₁ m₂ md₁ md₂ id hm₁ hm₂ hid₁ hid₂
    rcases of_update_eq_some hm₁ with ⟨rfl, rfl⟩ | ⟨hne₁, hold₁⟩ <;>
      rcases of_update_eq_some hm₂ with ⟨rfl, rfl⟩ | ⟨hne₂, hold₂⟩
    · rfl
    · exact absurd (hnew id m₂ md₂ hid₁ hold₂ hid₂) hne₂
    · exact absurd (hnew id m₁ md₁ hid₂ hold₁ hid₁) hne₁
    · exact h.distinct m₁ m₂ md₁ md₂ id hold₁ hold₂ hid₁ hid₂
  · intro f k fn hk hfn
    obtain ⟨md₁, hm₁, hid⟩ := h.kernels f k fn hk hfn
    by_cases hne : k.module = m
    · refine ⟨md', (congrArg _ hne).trans (Function.update_self ..), ?_⟩
      rw [hne, hmd] at hm₁
      cases hm₁
      rcases hcases with ⟨hloaded, -⟩ | ⟨hnone, -⟩
      · exact hloaded.trans hid
      · rw [hnone] at hid
        cases hid
    · exact ⟨md₁, (Function.update_of_ne hne _ _).trans hm₁, hid⟩
  · intro m' md₁ hm'
    rcases of_update_eq_some hm' with ⟨rfl, rfl⟩ | ⟨-, hm'⟩
    · rcases hcases with ⟨-, -, -, -, hblamed | hblamed⟩ | ⟨-, -, -, -, hblamed, -⟩
      · exact hblamed.trans (h.blamed _ _ hmd)
      · by_contra hfalse
        rw [Bool.not_eq_true] at hfalse
        rw [hfalse] at hblamed
        exact hload hblamed
      · exact hblamed.trans (h.blamed _ _ hmd)
    · exact h.blamed m' md₁ hm'

/-- A kernel resolved before belongs to a module of this generation and device; one resolved now to
the module that `ensure_module` has loaded. -/
theorem kept_resolve {s : Runtime} (h : Kept s) {t f : ℕ} {load : LoadOutcome} {found : Bool} {u : Runtime}
    (hdoing : s.doing t = .ready f) (hload : load ≠ .failed false)
    (hsame : ∀ k md, s.kernels f = some k → s.modules k.module = some md → md.loaded.isSome →
      md.loadDevice = s.device t ∧ md.loadGen = s.ctxGen)
    (hu : s.resolve t f load found = some u) : Kept u := by
  have hin := h.ready t f hdoing
  unfold resolve at hu
  split at hu
  · cases hu
    exact kept_idle h t
  · rename_i k hk
    split at hu
    · rename_i fn hfn
      cases hu
      refine kept_at h nofun nofun ?_
      intro fn' heq
      cases heq
      obtain ⟨md, hm, hid⟩ := h.kernels f k fn hk hfn
      -- the function kept for the kernel is of the context that its module was loaded in
      obtain ⟨hdevice, hgen⟩ := hsame k md hk hm (by rw [hid]; rfl)
      have hthere := (h.loaded k.module md fn.module hm hid).2.2 hgen
      rw [hdevice] at hthere
      exact ⟨hin, hthere⟩
    · obtain ⟨md, hm, hu⟩ := Option.bind_eq_some_iff.mp hu
      obtain ⟨s', hs', hu⟩ := Option.bind_eq_some_iff.mp hu
      obtain ⟨hkept, hin', hkernels, md', hm', hmd', hholds⟩ :=
        kept_ensureModule h hm hin hload (hsame k md hk hm) hs'
      rw [← hmd'] at hu
      split at hu
      · cases hu
        exact kept_idle hkept t
      · rename_i id hid
        split at hu
        · cases hu
          have hkeep : Kept (s'.keep f k ⟨id, k.deviceName⟩) := by
            refine ⟨hkept.primary, hkept.positive, hkept.selected, hkept.selecting, hkept.ready, hkept.resolved,
              hkept.loaded, hkept.distinct, ?_, hkept.blamed⟩
            intro f' k' fn hk' hfn
            by_cases hne : f' = f
            · subst hne
              rw [keep_kernels, Function.update_self] at hk'
              cases hk'
              cases hfn
              exact ⟨md', hm', hid⟩
            · rw [keep_kernels, Function.update_of_ne hne] at hk'
              exact hkept.kernels f' k' fn hk' hfn
          refine kept_at hkeep nofun nofun ?_
          intro fn heq
          cases heq
          exact ⟨hin', hholds id hid⟩
        · cases hu
          exact kept_idle hkept t

/-! ### Generations -/

/-- No thread's selection is of a generation to come. -/
structure Gens (s : Runtime) : Prop where
  gens : ∀ t, s.gen t ≤ s.ctxGen
  selecting : ∀ t f ctx gen, s.doing t = .selecting f ctx gen → gen ≤ s.ctxGen

/-- The bound on generations reads only the generations and what the threads do. -/
theorem gens_congr {s s' : Runtime} (h : Gens s) (hgen : s'.gen = s.gen) (hctxGen : s'.ctxGen = s.ctxGen)
    (hdoing : s'.doing = s.doing) : Gens s' := by
  refine ⟨fun t => ?_, fun t f ctx gen hd => ?_⟩
  · rw [hgen, hctxGen]
    exact h.gens t
  · rw [hdoing] at hd
    rw [hctxGen]
    exact h.selecting t f ctx gen hd

/-- A thread may be put anywhere but at a selection of a generation still to come. -/
theorem gens_at {s : Runtime} (h : Gens s) {t : ℕ} {d : Doing}
    (hselecting : ∀ f ctx gen, d = .selecting f ctx gen → gen ≤ s.ctxGen) : Gens (s.at' t d) := by
  refine ⟨h.gens, fun t' f ctx gen hd => ?_⟩
  rw [at_doing] at hd
  by_cases ht : t' = t
  · subst ht
    rw [Function.update_self] at hd
    exact hselecting f ctx gen hd
  · rw [Function.update_of_ne ht] at hd
    exact h.selecting t' f ctx gen hd

/-- A thread that is in its context is not selecting one. -/
theorem entered_ne (f : Option ℕ) (f' : Option ℕ) (ctx : PrimaryContext) (gen : ℕ) :
    entered f ≠ .selecting f' ctx gen := by
  cases f <;> nofun

/-- A selection that is begun is of the generation there is. -/
theorem gens_enter {s : Runtime} (h : Gens s) (t : ℕ) (f : Option ℕ) (retained : Bool) : Gens (s.enter t f retained) := by
  have hselecting : ∀ f' ctx ctx' gen, Doing.selecting f ctx s.ctxGen = .selecting f' ctx' gen → gen ≤ s.ctxGen := by
    intro f' ctx ctx' gen heq
    cases heq
    exact le_rfl
  unfold enter
  split
  · exact gens_at h fun f' ctx gen heq => absurd heq (entered_ne _ _ _ _)
  · split
    · exact gens_at h fun f' ctx' gen heq => hselecting f' _ ctx' gen heq
    · split
      · have hs : Gens { s with
            retained := Function.update s.retained (s.device t) (s.retained (s.device t) + 1)
            primary := Function.update s.primary (s.device t) (some (s.ownContext t)) } := gens_congr h rfl rfl rfl
        exact gens_at hs fun f' ctx' gen heq => hselecting f' _ ctx' gen heq
      · exact h

/-- Resolving a kernel changes no generation. -/
theorem gens_resolve {s u : Runtime} (h : Gens s) {t f : ℕ} {load : LoadOutcome} {found : Bool}
    (hu : s.resolve t f load found = some u) : Gens u := by
  unfold resolve at hu
  split at hu
  · cases hu
    exact gens_at h nofun
  · split at hu
    · cases hu
      exact gens_at h nofun
    · obtain ⟨md, -, hu⟩ := Option.bind_eq_some_iff.mp hu
      obtain ⟨s', hs', hu⟩ := Option.bind_eq_some_iff.mp hu
      obtain ⟨md', loaded, -, rfl, -⟩ := ensureModule_cases hs'
      split at hu
      · cases hu
        apply gens_at
        · exact gens_congr h rfl rfl rfl
        · nofun
      · split at hu <;> cases hu
        · apply gens_at
          · exact gens_congr h rfl rfl rfl
          · nofun
        · apply gens_at
          · exact gens_congr h rfl rfl rfl
          · nofun

/-- No step lets a thread's generation overtake the runtime's. -/
theorem gens_step {s : Runtime} (h : Gens s) {a : Action} {u : Runtime} (hstep : s.step a = some u) : Gens u := by
  cases a <;> rw [step] at hstep
  case register m image =>
    split at hstep
    · cases hstep
      exact ⟨h.gens, h.selecting⟩
    · cases hstep
  case function m f deviceName =>
    split at hstep
    · cases hstep
      exact ⟨h.gens, h.selecting⟩
    · cases hstep
  case unregister m unloaded =>
    obtain ⟨md, -, rfl⟩ := Option.map_eq_some_iff.mp hstep
    exact ⟨h.gens, h.selecting⟩
  case setDevice t d =>
    split at hstep
    · split at hstep
      · cases hstep
        exact h
      · cases hstep
        refine ⟨fun t' => ?_, h.selecting⟩
        dsimp only
        by_cases ht : t' = t
        · subst ht
          rw [Function.update_self]
          exact Nat.zero_le _
        · rw [Function.update_of_ne ht]
          exact h.gens t'
    · cases hstep
  case enter t f retained =>
    split at hstep
    · cases hstep
      exact gens_enter h t f retained
    · cases hstep
  case select t ok =>
    split at hstep
    · rename_i f ctx gen hdoing
      split at hstep
      · cases hstep
        have hat := gens_at (t := t) h (d := entered f) fun f' ctx gen heq => absurd heq (entered_ne _ _ _ _)
        refine ⟨fun t' => ?_, hat.selecting⟩
        dsimp only
        by_cases ht : t' = t
        · subst ht
          rw [Function.update_self]
          exact h.selecting _ f ctx gen hdoing
        · rw [Function.update_of_ne ht]
          exact h.gens t'
      · cases hstep
        exact gens_at h nofun
    · cases hstep
  case resolve t load found =>
    split at hstep
    · exact gens_resolve h hstep
    · cases hstep
  case launch t =>
    split at hstep
    · cases hstep
      exact gens_at h nofun
    · cases hstep
  case reset released =>
    cases hstep
    exact ⟨fun t => (h.gens t).trans (Nat.le_succ _), fun t f ctx gen hd => (h.selecting t f ctx gen hd).trans (Nat.le_succ _)⟩

/-- **Every step along `Steady` keeps the invariant.** -/
theorem kept_step {s : Runtime} (hgens : Gens s) (h : Kept s) {a : Action} (hsteady : s.Steady a) {u : Runtime}
    (hstep : s.step a = some u) : Kept u := by
  cases a with
  | register m image => exact kept_register h hstep
  | function m f deviceName => exact kept_function h hstep
  | unregister m unloaded => exact kept_unregister h hsteady hstep
  | setDevice t d => exact kept_setDevice h hstep
  | enter t f retained =>
      rw [step] at hstep
      split at hstep
      · cases hstep
        exact kept_enter h t f retained
      · cases hstep
  | select t ok => exact kept_select h hstep
  | resolve t load found =>
      rw [step] at hstep
      split at hstep
      · rename_i f hdoing
        exact kept_resolve h hdoing hsteady.1 (fun k md hk hm => hsteady.2 f k md hdoing hk hm) hstep
      · cases hstep
  | launch t =>
      rw [step] at hstep
      split at hstep
      · cases hstep
        exact kept_idle h t
      · cases hstep
  | reset released =>
      cases hstep
      exact kept_reset h released hsteady hgens.gens

/-- The bound on generations holds in every state reached, whatever the guard. -/
theorem always_gens (G : Runtime → Action → Prop) : Always step G {} Gens :=
  Always.of_step ⟨fun _ => Nat.zero_le _, nofun⟩ fun _ _ _ h _ hstep => gens_step h hstep

/-- **What `cudaLaunchKernel` launches** is of a module loaded in the thread's own context, and a failed load is tried
again unless the image was to blame, in every state of a run of any threads that is steady. -/
theorem kernels_sound (as : List Action) (s : Runtime) (hsteady : Along step Steady {} as)
    (hrun : run step {} as = some s) : Sound s :=
  Always.imp (Always.of_step_under (always_gens Steady) kept_init
    fun _ _ _ hgens _ hkept hsteady hstep => kept_step hgens hkept hsteady hstep) (fun _ => Kept.sound) as s hsteady hrun

/-- A kernel is registered. -/
def registered : List Action := [.register 1 100, .function 1 7 "k"]

/-- A thread launches it for the first time. -/
def launched (t : ℕ) : List Action := [.enter t (some 7) true, .select t true, .resolve t .loaded true]

/-- A kernel of a registered module is launched on the first device, and its function is one of a
module that is in the context of the thread. -/
theorem kernels_sound_launched : ∃ s, run step {} (registered ++ launched 0) = some s ∧
    s.doing 0 = .resolved ⟨0, "k"⟩ ∧ s.Holds 0 (s.ownContext 0) := by
  obtain ⟨s, hs, hdoing⟩ : ∃ s, run step {} (registered ++ launched 0) = some s ∧ s.doing 0 = .resolved ⟨0, "k"⟩ :=
    ⟨_, rfl, rfl⟩
  have hsteady : Along step Steady {} (registered ++ launched 0) := by
    refine ⟨trivial, trivial, trivial, trivial, ⟨nofun, ?_⟩, trivial⟩
    intro f k m hd hk hm hloaded
    cases hd
    cases hk
    cases hm
    cases hloaded
  exact ⟨s, hs, hdoing, ((kernels_sound _ s hsteady hs).launches 0 _ hdoing).2.2⟩

/-- On the second device the function of the first is launched. -/
theorem other_device : ∃ s, run step {} (registered ++ launched 0 ++
      [.launch 0, .setDevice 0 1, .enter 0 (some 7) true, .select 0 true, .resolve 0 .loaded true]) = some s ∧
    s.doing 0 = .resolved ⟨0, "k"⟩ ∧ s.current 0 = some ⟨1, 0⟩ ∧ s.loaded = [⟨0, ⟨0, 0⟩⟩] :=
  ⟨_, rfl, rfl, rfl, rfl⟩

end Runtime

end Rgpu.Cudart
