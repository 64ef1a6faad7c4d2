import Rgpu.Foundations.StepSystem
import Rgpu.Foundations.Table
import Mathlib.Data.List.MinMax
import Mathlib.Logic.Function.Basic

/-! # The allocations of the runtime layer (`client/cudart_impl.cpp`)

`cudaMemcpyDefault` is to infer from a pointer whether it is the server's or the client's, so the client
remembers what it handed out. An entry is made after the server has allocated, and taken out after the server
has freed: between the two another thread may be given the address.

* **`isDevicePtr`**, **`resolveKind`** — what is read off the table.
* **`Allocating.step`** — threads that allocate, free and reset, and the server.
* **`Allocating.table_exact`** — for every run in which no entry outlives its allocation unnoticed: the table
  has every allocation of the application, and nothing else while no call is in progress.
* **`Allocating.newer_entry_forgotten`** — a run in which a free takes out the entry of a newer allocation. -/

namespace Rgpu

open Foundations

/-! ### The table -/

/-- `--upper_bound(v)`: the last entry that starts at `v` or before. -/
def entryBefore (table : Table ℕ ℕ) (v : ℕ) : Option (ℕ × ℕ) :=
  (table.entries.filter fun e => e.1 ≤ v).argmax Prod.fst

/-- `is_device_ptr`. -/
def isDevicePtr (table : Table ℕ ℕ) (v : ℕ) : Bool :=
  if v = 0 then false
  else
    match entryBefore table v with
    | none => false
    | some e => e.1 ≤ v && v < e.1 + e.2

/-- `cudaMemcpyKind`. -/
inductive CudaMemcpyKind
  | hostToHost | hostToDevice | deviceToHost | deviceToDevice | default
  deriving DecidableEq, Repr

/-- `resolve_kind`. -/
def resolveKind (table : Table ℕ ℕ) (dst src : ℕ) (kind : CudaMemcpyKind) : CudaMemcpyKind :=
  if kind ≠ .default then kind
  else if isDevicePtr table dst && isDevicePtr table src then .deviceToDevice
  else if isDevicePtr table dst then .hostToDevice
  else if isDevicePtr table src then .deviceToHost
  else .hostToHost

/-- The direction of a copy between two pointers that are on the device or not. -/
def direction (dst src : Bool) : CudaMemcpyKind :=
  match dst, src with
  | true, true => .deviceToDevice
  | true, false => .hostToDevice
  | false, true => .deviceToHost
  | false, false => .hostToHost

section Pointers

variable {table : Table ℕ ℕ} {p n v : ℕ}

/-- `cudaMemcpyDefault` is resolved by which of the two addresses are known as device memory. -/
theorem resolveKind_default (table : Table ℕ ℕ) (dst src : ℕ) :
    resolveKind table dst src .default = direction (isDevicePtr table dst) (isDevicePtr table src) := by
  rw [resolveKind, if_neg (fun h => h rfl)]
  cases isDevicePtr table dst <;> cases isDevicePtr table src <;> rfl

/-- A pointer into an entry, where no other entry starts further on in it. -/
theorem isDevicePtr_of_inside (hfind : table.find p = some n) (hpositive : 0 < p)
    (hclear : ∀ q m, table.find q = some m → ¬(p < q ∧ q < p + n)) (hle : p ≤ v) (hlt : v < p + n) :
    isDevicePtr table v = true := by
  have hmem : (p, n) ∈ table.entries.filter fun e => e.1 ≤ v :=
    List.mem_filter.mpr ⟨Table.find_eq_some_iff.mp hfind, decide_eq_true hle⟩
  have hentry : entryBefore table v = some (p, n) := by
    cases hlast : entryBefore table v with
    | none =>
        rw [entryBefore, List.argmax_eq_none] at hlast
        rw [hlast] at hmem
        cases hmem
    | some e =>
        obtain ⟨q, m⟩ := e
        have hq := List.mem_filter.mp (List.argmax_mem hlast)
        have hbefore : q ≤ v := of_decide_eq_true hq.2
        have hfirst : p ≤ q := List.le_of_mem_argmax hmem hlast
        have hfind' : table.find q = some m := Table.find_eq_some_iff.mpr hq.1
        have hsame : q = p := by
          have hnot := hclear q m hfind'
          omega
        subst hsame
        rw [hfind] at hfind'
        rw [Option.some.inj hfind']
  rw [isDevicePtr, if_neg (by omega), hentry]
  simp [hle, hlt]

/-- What is taken for a pointer of the device is in an entry. -/
theorem inside_of_isDevicePtr (h : isDevicePtr table v = true) :
    ∃ p n, table.find p = some n ∧ p ≤ v ∧ v < p + n := by
  unfold isDevicePtr at h
  split at h
  · cases h
  · split at h
    · cases h
    · rename_i e hlast
      have hmem := (List.mem_filter.mp (List.argmax_mem hlast)).1
      obtain ⟨hle, hlt⟩ := (Bool.and_eq_true _ _).mp h
      exact ⟨e.1, e.2, Table.find_eq_some_iff.mpr hmem, of_decide_eq_true hle, of_decide_eq_true hlt⟩

end Pointers

/-! ### Threads and the server -/

/-- Where a thread is in a call. -/
inductive AllocPc
  | idle
  /-- `cudaMalloc` or `cudaMallocAsync`, of so many bytes. -/
  | mallocing (n : ℕ)
  /-- The server has given an address. -/
  | given (p n : ℕ)
  | noted (p n : ℕ)
  /-- `cudaFree` or `cudaFreeAsync`, of an allocation of that size if the application has it. -/
  | freeing (p : ℕ) (own : Option ℕ)
  /-- The server has freed the address. -/
  | freed (p : ℕ)
  /-- `cudaDeviceReset`. -/
  | resetting
  deriving DecidableEq, Repr

/-- What has become of the allocation that is at an address. -/
inductive AllocStage
  | none
  /-- A thread has it from the server. -/
  | given (t n : ℕ)
  | noted (t n : ℕ)
  /-- It has been returned to the application, which has passed it to no free since. -/
  | owned (n : ℕ)
  /-- A thread has passed it to a free. -/
  | freeing (t n : ℕ)
  deriving DecidableEq, Repr

namespace AllocStage

/-- How large it is. -/
def size : AllocStage → Option ℕ
  | none => Option.none
  | given _ n | noted _ n | owned n | freeing _ n => some n

/-- How large it is, if it should be in the table. -/
def listed : AllocStage → Option ℕ
  | none | given _ _ => Option.none
  | noted _ n | owned n | freeing _ n => some n

/-- The thread that is to do something about it. -/
def thread : AllocStage → Option ℕ
  | none | owned _ => Option.none
  | given t _ | noted t _ | freeing t _ => some t

end AllocStage

/-- The allocation that a thread is to do something about: where it is, and what has become of it. -/
def AllocPc.holds (t : ℕ) : AllocPc → Option (ℕ × AllocStage)
  | .given p n => some (p, .given t n)
  | .noted p n => some (p, .noted t n)
  | .freeing p (some n) => some (p, .freeing t n)
  | .idle | .mallocing _ | .freeing _ none | .freed _ | .resetting => none

/-- A block that a thread holds is at a stage of that thread. -/
theorem AllocPc.thread_of_holds {t p : ℕ} {pc : AllocPc} {stage : AllocStage} (h : pc.holds t = some (p, stage)) :
    stage.thread = some t := by
  unfold holds at h
  split at h <;> first
    | (obtain ⟨-, rfl⟩ := Prod.mk.inj (Option.some.inj h); rfl)
    | cases h

/-- The client and the server. `stage` and `stale` are not in the code: what is said of the table is said in
their terms. -/
structure Allocating where
  /-- `g_device_allocs`. -/
  table : Table ℕ ℕ := .empty
  /-- What is allocated on the server. -/
  server : Table ℕ ℕ := .empty
  pc : ℕ → AllocPc := fun _ => .idle
  stage : ℕ → AllocStage := fun _ => .none
  /-- The thread that is still to take the entry of an address out. -/
  stale : ℕ → Option ℕ := fun _ => none

/-- What a thread does, and what the server does for it. `reported` says whether the client is told
`CUDA_SUCCESS`. -/
inductive AllocAction
  | malloc (t n : ℕ)
  /-- The server allocates at `p`. -/
  | allocate (t p : ℕ) (reported : Bool)
  | refuse (t : ℕ)
  | note (t : ℕ)
  | giveBack (t : ℕ)
  | free (t p : ℕ)
  /-- The server is asked to free, and does or does not. -/
  | release (t : ℕ) (done reported : Bool)
  | forget (t : ℕ)
  | reset (t : ℕ)
  /-- A context is destroyed, and what was allocated in it. -/
  | destroy (t : ℕ) (gone : List ℕ)
  | endReset (t : ℕ)
  deriving DecidableEq, Repr

namespace Allocating

/-- The server can hand out these bytes: some, of its own, and of no other allocation. -/
def Vacant (host : ℕ → Bool) (server : Table ℕ ℕ) (p n : ℕ) : Prop :=
  0 < p ∧ 0 < n ∧ (∀ i < n, host (p + i) = false) ∧
    ∀ e ∈ server.entries, p + n ≤ e.1 ∨ e.1 + e.2 ≤ p

instance (host : ℕ → Bool) (server : Table ℕ ℕ) (p n : ℕ) : Decidable (Vacant host server p n) :=
  inferInstanceAs (Decidable (_ ∧ _))

/-- A thread goes on. -/
def setPc (s : Allocating) (t : ℕ) (pc : AllocPc) : Allocating := { s with pc := Function.update s.pc t pc }

/-- Something becomes of the allocation at an address. -/
def setStage (s : Allocating) (p : ℕ) (stage : AllocStage) : Allocating :=
  { s with stage := Function.update s.stage p stage }

/-- One step. `host` are the addresses of the client. -/
def step (host : ℕ → Bool) (s : Allocating) : AllocAction → Option Allocating
  | .malloc t size =>
      match s.pc t with
      | .idle => some (s.setPc t (.mallocing (if size = 0 then 1 else size)))
      | _ => none
  | .allocate t p reported =>
      match s.pc t with
      | .mallocing n =>
          if Vacant host s.server p n then
            let s := { s with server := s.server.insert p n }
            if reported then some ((s.setStage p (.given t n)).setPc t (.given p n)) else some (s.setPc t .idle)
          else none
      | _ => none
  | .refuse t =>
      match s.pc t with
      | .mallocing _ => some (s.setPc t .idle)
      | _ => none
  | .note t =>
      match s.pc t with
      | .given p n =>
          some (({ s with table := s.table.insert p n }.setStage p (.noted t n)).setPc t (.noted p n))
      | _ => none
  | .giveBack t =>
      match s.pc t with
      | .noted p n => some ((s.setStage p (.owned n)).setPc t .idle)
      | _ => none
  | .free t p =>
      match s.pc t with
      | .idle =>
          -- freeing null is legal
          if p = 0 then some s
          else
            match s.stage p with
            | .owned n => some ((s.setStage p (.freeing t n)).setPc t (.freeing p (some n)))
            | _ => some (s.setPc t (.freeing p none))
      | _ => none
  | .release t done reported =>
      match s.pc t with
      | .freeing p own =>
          if done then
            if (s.server.find p).isSome then
              let s := { s.setStage p .none with server := s.server.erase p }
              if reported then some ({ s with stale := Function.update s.stale p (some t) }.setPc t (.freed p))
              else some (s.setPc t .idle)
            else none
          -- nothing is freed that is not reported, so a failure is
          else if reported then none
          else
            match own with
            | some n => some ((s.setStage p (.owned n)).setPc t .idle)
            | none => some (s.setPc t .idle)
      | _ => none
  | .forget t =>
      match s.pc t with
      | .freed p =>
          some ({ s with table := s.table.erase p, stale := Function.update s.stale p none }.setPc t .idle)
      | _ => none
  | .reset t =>
      match s.pc t with
      | .idle => some (s.setPc t .resetting)
      | _ => none
  | .destroy t gone =>
      match s.pc t with
      | .resetting => some { s with server := s.server.filter fun p _ => p ∉ gone }
      | _ => none
  | .endReset t =>
      match s.pc t with
      | .resetting => some (s.setPc t .idle)
      | _ => none

/-- No entry outlives its allocation unnoticed. An allocation is noted when no entry starts in it, of one
that was there before; a reset destroys nothing that is in the table or about to be; a free is told what the
server has done, and frees what the application has. -/
def Careful (s : Allocating) : AllocAction → Prop
  | .note t => ∀ p n, s.pc t = .given p n → ∀ e ∈ s.table.entries, ¬(p ≤ e.1 ∧ e.1 < p + n)
  | .release t done reported => ∀ p own, s.pc t = .freeing p own → done = reported ∧ (done → own ≠ none)
  | .destroy _ gone => ∀ p ∈ gone, s.table.find p = none ∧ s.stage p = .none
  | _ => True

end Allocating

/-! ### What the table has -/

namespace Allocating

/-- Moving a thread moves no other. -/
@[simp] theorem pc_setPc (s : Allocating) (t : ℕ) (pc : AllocPc) (u : ℕ) :
    (s.setPc t pc).pc u = if u = t then pc else s.pc u := Function.update_apply _ _ _ _

/-- Moving a thread leaves the stages, the table and the server as they are. -/
@[simp] theorem stage_setPc (s : Allocating) (t : ℕ) (pc : AllocPc) : (s.setPc t pc).stage = s.stage := rfl
@[simp] theorem stale_setPc (s : Allocating) (t : ℕ) (pc : AllocPc) : (s.setPc t pc).stale = s.stale := rfl
@[simp] theorem table_setPc (s : Allocating) (t : ℕ) (pc : AllocPc) : (s.setPc t pc).table = s.table := rfl
@[simp] theorem server_setPc (s : Allocating) (t : ℕ) (pc : AllocPc) : (s.setPc t pc).server = s.server := rfl

/-- Moving a block moves no other. -/
@[simp] theorem stage_setStage (s : Allocating) (p : ℕ) (stage : AllocStage) (q : ℕ) :
    (s.setStage p stage).stage q = if q = p then stage else s.stage q := Function.update_apply _ _ _ _

/-- Moving a block leaves the threads, the table and the server as they are. -/
@[simp] theorem pc_setStage (s : Allocating) (p : ℕ) (stage : AllocStage) : (s.setStage p stage).pc = s.pc := rfl
@[simp] theorem stale_setStage (s : Allocating) (p : ℕ) (stage : AllocStage) :
    (s.setStage p stage).stale = s.stale := rfl
@[simp] theorem table_setStage (s : Allocating) (p : ℕ) (stage : AllocStage) :
    (s.setStage p stage).table = s.table := rfl
@[simp] theorem server_setStage (s : Allocating) (p : ℕ) (stage : AllocStage) :
    (s.setStage p stage).server = s.server := rfl

/-- The threads and the addresses agree on who is to do something about which. -/
structure Linked (s : Allocating) : Prop where
  stage : ∀ t p stage, (s.pc t).holds t = some (p, stage) → s.stage p = stage
  holds : ∀ p t, (s.stage p).thread = some t → (s.pc t).holds t = some (p, s.stage p)
  stale : ∀ p t, s.stale p = some t ↔ s.pc t = .freed p

/-- What is allocated where, and what the table has. -/
structure Kept (host : ℕ → Bool) (s : Allocating) : Prop where
  linked : s.Linked
  live : ∀ p n, (s.stage p).size = some n → s.server.find p = some n
  listed : ∀ p n, (s.stage p).listed = some n → s.table.find p = some n
  /-- No other entry starts further on in it. -/
  clear : ∀ p n, (s.stage p).listed = some n → ∀ q m, s.table.find q = some m → ¬(p < q ∧ q < p + n)
  known : ∀ q m, s.table.find q = some m → (s.stage q).listed = some m ∨ (s.stale q).isSome
  pending : ∀ p t, s.stale p = some t → (s.table.find p).isSome ∧ (s.stage p).listed = none
  laid : ∀ p n, s.server.find p = some n → 0 < p ∧ 0 < n ∧ ∀ i < n, host (p + i) = false
  apart : ∀ p n q m, s.server.find p = some n → s.server.find q = some m → p ≠ q → p + n ≤ q ∨ q + m ≤ p
  away : ∀ p n, s.table.find p = some n → 0 < p ∧ ∀ i < n, host (p + i) = false

/-- Nothing is allocated in a process that has just begun. -/
theorem kept_init (host : ℕ → Bool) : Kept host {} where
  linked := ⟨fun _ _ _ h => (by cases h), fun _ _ h => (by cases h),
    fun _ _ => ⟨fun h => (by cases h), fun h => (by cases h)⟩⟩
  live := fun _ _ h => nomatch h
  listed := fun _ _ h => nomatch h
  clear := fun _ _ h => nomatch h
  known := fun _ _ h => nomatch h
  pending := fun _ _ h => nomatch h
  laid := fun _ _ h => nomatch h
  apart := fun _ _ _ _ h => nomatch h
  away := fun _ _ h => nomatch h

section Steps

variable {host : ℕ → Bool} {s : Allocating} {t p n : ℕ}

/-- An allocation passes from or to a thread. No other thread was to do something about it, nor that thread
about another one. -/
theorem Linked.move (h : s.Linked) {stage : AllocStage} {pc : AllocPc}
    (hothers : ∀ u, (s.stage p).thread = some u → u = t)
    (hbefore : ∀ q stage, (s.pc t).holds t = some (q, stage) → q = p)
    (hafter : pc.holds t = some (p, stage) ∨ pc.holds t = none ∧ stage.thread = none)
    (hfreed : ∀ q, pc ≠ .freed q ∧ s.pc t ≠ .freed q) : ((s.setStage p stage).setPc t pc).Linked := by
  refine ⟨fun u q stage' hu => ?_, fun q u hq => ?_, fun q u => ?_⟩
  · simp only [pc_setPc, stage_setPc, stage_setStage, pc_setStage] at hu ⊢
    by_cases hut : u = t
    · subst hut
      rw [if_pos rfl] at hu
      rcases hafter with hafter | ⟨hnone, -⟩
      · rw [hafter] at hu
        obtain ⟨rfl, rfl⟩ := Prod.mk.inj (Option.some.inj hu)
        exact if_pos rfl
      · rw [hnone] at hu
        cases hu
    · rw [if_neg hut] at hu
      have hstage := h.stage u q stage' hu
      -- what another thread has to do with is another allocation
      have hne : q ≠ p := by
        rintro rfl
        apply hut
        apply hothers
        rw [hstage]
        exact AllocPc.thread_of_holds hu
      rw [if_neg hne]
      exact hstage
  · simp only [pc_setPc, stage_setPc, stage_setStage, pc_setStage] at hq ⊢
    by_cases hqp : q = p
    · subst hqp
      rw [if_pos rfl] at hq ⊢
      rcases hafter with hafter | ⟨-, hnone⟩
      · have hthread := AllocPc.thread_of_holds hafter
        rw [hthread] at hq
        obtain rfl := Option.some.inj hq
        rw [if_pos rfl]
        exact hafter
      · rw [hnone] at hq
        cases hq
    · rw [if_neg hqp] at hq ⊢
      have hholds := h.holds q u hq
      have hne : u ≠ t := by
        rintro rfl
        exact hqp (hbefore q _ hholds)
      rw [if_neg hne]
      exact hholds
  · simp only [pc_setPc, stale_setPc, stale_setStage, pc_setStage]
    rw [h.stale]
    split
    · rename_i heq
      subst heq
      exact iff_of_false (hfreed q).2 (hfreed q).1
    · exact Iff.rfl

/-- A thread that has to do with no allocation goes on to what has to do with none. -/
theorem Kept.setPc (h : s.Kept host) {pc : AllocPc} (hbefore : (s.pc t).holds t = none) (hafter : pc.holds t = none)
    (hfreed : ∀ q, pc ≠ .freed q ∧ s.pc t ≠ .freed q) : (s.setPc t pc).Kept host := by
  refine ⟨⟨fun u q stage hu => ?_, fun q u hq => ?_, fun q u => ?_⟩, h.live, h.listed, h.clear, h.known,
    h.pending, h.laid, h.apart, h.away⟩
  · rw [pc_setPc] at hu
    split at hu
    · rename_i heq
      subst heq
      rw [hafter] at hu
      cases hu
    · exact h.linked.stage u q stage hu
  · have hholds := h.linked.holds q u hq
    rw [pc_setPc, if_neg]
    · exact hholds
    · rintro rfl
      rw [hbefore] at hholds
      cases hholds
  · rw [pc_setPc, stale_setPc, h.linked.stale]
    split
    · rename_i heq
      subst heq
      exact iff_of_false (hfreed q).2 (hfreed q).1
    · exact Iff.rfl

/-- The server allocates where there was nothing. -/
theorem Kept.allocate (h : s.Kept host) (hvacant : Vacant host s.server p n) :
    ({ s with server := s.server.insert p n } : Allocating).Kept host := by
  obtain ⟨hp, hn, hhost, hfree⟩ := hvacant
  -- what were there would not be free
  have hnone : s.server.find p = none := by
    rw [Table.find_eq_none_iff]
    intro m hm
    have hlaid := (h.laid p m (Table.find_eq_some_iff.mpr hm)).2.1
    have hsides := hfree _ hm
    dsimp only at hsides
    omega
  have hfind : ∀ q m, s.server.find q = some m → (s.server.insert p n).find q = some m := by
    intro q m hq
    have hne : q ≠ p := by
      rintro rfl
      rw [hnone] at hq
      cases hq
    rw [Table.find_insert_of_ne hne]
    exact hq
  refine ⟨⟨h.linked.stage, h.linked.holds, h.linked.stale⟩,
    fun q m hq => hfind q m (h.live q m hq), h.listed, h.clear, h.known, h.pending, ?_, ?_, h.away⟩
  · intro q m hq
    rw [Table.find_insert] at hq
    split at hq
    · rename_i heq
      obtain rfl := Option.some.inj hq
      subst heq
      exact ⟨hp, hn, hhost⟩
    · exact h.laid q m hq
  · intro q m q' m' hq hq' hne
    rw [Table.find_insert] at hq hq'
    split at hq
    · obtain rfl := Option.some.inj hq
      rw [if_neg (by omega)] at hq'
      have hsides := hfree _ (Table.find_eq_some_iff.mp hq')
      dsimp only at hsides
      omega
    · split at hq'
      · obtain rfl := Option.some.inj hq'
        have hsides := hfree _ (Table.find_eq_some_iff.mp hq)
        dsimp only at hsides
        omega
      · exact h.apart q m q' m' hq hq' hne

/-- The server has nothing more of what no one has. -/
theorem Kept.destroy (h : s.Kept host) {keep : ℕ → ℕ → Bool}
    (hkeep : ∀ p n, (s.stage p).size = some n → keep p n = true) :
    ({ s with server := s.server.filter keep } : Allocating).Kept host := by
  have hfind : ∀ q m, (s.server.filter keep).find q = some m → s.server.find q = some m :=
    fun q m hq => (Table.find_filter_eq_some.mp hq).1
  exact ⟨⟨h.linked.stage, h.linked.holds, h.linked.stale⟩,
    fun q m hq => Table.find_filter_eq_some.mpr ⟨h.live q m hq, hkeep q m hq⟩, h.listed, h.clear, h.known,
    h.pending, fun q m hq => h.laid q m (hfind q m hq),
    fun q m q' m' hq hq' hne => h.apart q m q' m' (hfind q m hq) (hfind q' m' hq') hne, h.away⟩

/-- An allocation passes between a thread and the application: the table and the server do not see it. -/
theorem Kept.move (h : s.Kept host) {stage : AllocStage} {pc : AllocPc}
    (hlinked : ((s.setStage p stage).setPc t pc).Linked)
    (hsize : ∀ n, stage.size = some n → s.server.find p = some n)
    (hlisted : stage.listed = (s.stage p).listed) : ((s.setStage p stage).setPc t pc).Kept host := by
  have hsame : ∀ q, (((s.setStage p stage).setPc t pc).stage q).listed = (s.stage q).listed := by
    intro q
    simp only [stage_setPc, stage_setStage]
    split
    · rename_i heq
      rw [hlisted, heq]
    · rfl
  refine ⟨hlinked, fun q m hq => ?_, fun q m hq => ?_, fun q m hq => ?_, fun q m hq => ?_, fun q u hq => ?_,
    h.laid, h.apart, h.away⟩
  · simp only [stage_setPc, stage_setStage] at hq
    split at hq
    · rename_i heq
      exact heq ▸ hsize m hq
    · exact h.live q m hq
  · exact h.listed q m ((hsame q).symm.trans hq)
  · exact h.clear q m ((hsame q).symm.trans hq)
  · rw [hsame]
    exact h.known q m hq
  · rw [hsame]
    exact h.pending q u hq

/-- What is at an address that the server does not have. -/
theorem Kept.stage_none (h : s.Kept host) (hnone : s.server.find p = none) : s.stage p = .none := by
  cases hstage : s.stage p with
  | none => rfl
  | _ =>
      have hlive := h.live p _ (by rw [hstage]; rfl)
      rw [hnone] at hlive
      cases hlive

/-- The entry is made. -/
theorem Kept.note (h : s.Kept host) (hpc : s.pc t = .given p n)
    (hclear : ∀ e ∈ s.table.entries, ¬(p ≤ e.1 ∧ e.1 < p + n)) :
    (({ s with table := s.table.insert p n }.setStage p (.noted t n)).setPc t (.noted p n)).Kept host := by
  have hstage : s.stage p = .given t n := h.linked.stage t p _ (by rw [hpc]; rfl)
  have hserver : s.server.find p = some n := h.live p n (by rw [hstage]; rfl)
  obtain ⟨hp, hn, hhost⟩ := h.laid p n hserver
  have habsent : s.table.find p = none := by
    rw [Table.find_eq_none_iff]
    intro m hm
    exact hclear _ hm ⟨Nat.le_refl _, by dsimp only; omega⟩
  have hlinked : ((s.setStage p (.noted t n)).setPc t (.noted p n)).Linked := by
    refine h.linked.move (fun u hu => ?_) (fun q stage hq => ?_) (Or.inl rfl) fun q => ?_
    · rw [hstage] at hu
      exact (Option.some.inj hu).symm
    · rw [hpc] at hq
      exact (Prod.mk.inj (Option.some.inj hq)).1.symm
    · rw [hpc]
      exact ⟨fun h => (by cases h), fun h => (by cases h)⟩
  refine ⟨⟨hlinked.stage, hlinked.holds, hlinked.stale⟩, fun q m hq => ?_, fun q m hq => ?_,
    fun q m hq k l hk => ?_, fun q m hq => ?_, fun q u hq => ?_, h.laid, h.apart, fun q m hq => ?_⟩
  · simp only [stage_setPc, stage_setStage] at hq
    split at hq
    · rename_i heq
      obtain rfl := Option.some.inj hq
      exact heq ▸ hserver
    · exact h.live q m hq
  · simp only [stage_setPc, stage_setStage, table_setPc, table_setStage] at hq ⊢
    rw [Table.find_insert]
    split at hq
    · rename_i heq
      rw [if_pos heq]
      exact hq
    · rename_i hne
      rw [if_neg hne]
      exact h.listed q m hq
  · simp only [stage_setPc, stage_setStage, table_setPc, table_setStage, Table.find_insert] at hq hk
    split at hq
    · rename_i heq
      obtain rfl := Option.some.inj hq
      subst heq
      split at hk
      · omega
      · have hnot := hclear _ (Table.find_eq_some_iff.mp hk)
        dsimp only at hnot
        omega
    · rename_i hne
      split at hk
      · rename_i heq
        -- the new entry is no part of another allocation
        have hlive := h.live q m (by
          cases hother : s.stage q <;> rw [hother] at hq <;> first | exact hq | cases hq)
        have hsides := h.apart q m p n hlive hserver hne
        omega
      · exact h.clear q m hq k l hk
  · simp only [stage_setPc, stage_setStage, table_setPc, table_setStage, Table.find_insert, stale_setPc,
      stale_setStage] at hq ⊢
    split at hq
    · rename_i heq
      rw [if_pos heq]
      exact Or.inl hq
    · rename_i hne
      rw [if_neg hne]
      exact h.known q m hq
  · simp only [stage_setPc, stage_setStage, table_setPc, table_setStage, Table.find_insert, stale_setPc,
      stale_setStage] at hq ⊢
    obtain ⟨hfound, hunlisted⟩ := h.pending q u hq
    have hne : q ≠ p := by
      rintro rfl
      rw [habsent] at hfound
      cases hfound
    rw [if_neg hne, if_neg hne]
    exact ⟨hfound, hunlisted⟩
  · simp only [table_setPc, table_setStage, Table.find_insert] at hq
    split at hq
    · rename_i heq
      obtain rfl := Option.some.inj hq
      exact heq ▸ ⟨hp, hhost⟩
    · exact h.away q m hq

/-- The server has freed: the entry is stale from now on. -/
theorem Kept.release (h : s.Kept host) (hpc : s.pc t = .freeing p (some n)) :
    ({ { s.setStage p .none with server := s.server.erase p } with
      stale := Function.update s.stale p (some t) }.setPc t (.freed p) : Allocating).Kept host := by
  have hstage : s.stage p = .freeing t n := h.linked.stage t p _ (by rw [hpc]; rfl)
  have hlisted : (s.stage p).listed = some n := by rw [hstage]; rfl
  have hnostale : ∀ u, s.stale p ≠ some u := by
    intro u hu
    have hunlisted := (h.pending p u hu).2
    rw [hlisted] at hunlisted
    cases hunlisted
  have hfind : ∀ q m, (s.server.erase p).find q = some m → s.server.find q = some m := by
    intro q m hq
    rw [Table.find_erase] at hq
    split at hq
    · cases hq
    · exact hq
  -- the allocation is gone, though the thread is still to take its entry out
  have hlinked : ((s.setStage p .none).setPc t .idle).Linked := by
    refine h.linked.move (fun u hu => ?_) (fun q stage hq => ?_) (Or.inr ⟨rfl, rfl⟩) fun q => ?_
    · rw [hstage] at hu
      exact (Option.some.inj hu).symm
    · rw [hpc] at hq
      exact (Prod.mk.inj (Option.some.inj hq)).1.symm
    · rw [hpc]
      exact ⟨fun h => (by cases h), fun h => (by cases h)⟩
  refine ⟨⟨fun u q stage hu => ?_, fun q u hq => ?_, fun q u => ?_⟩, fun q m hq => ?_, fun q m hq => ?_,
    fun q m hq => ?_, fun q m hq => ?_, fun q u hq => ?_, fun q m hq => h.laid q m (hfind q m hq),
    fun q m q' m' hq hq' hne => h.apart q m q' m' (hfind q m hq) (hfind q' m' hq') hne, h.away⟩
  · refine hlinked.stage u q stage ?_
    simp only [pc_setPc] at hu ⊢
    split at hu
    · cases hu
    · rename_i hne
      rw [if_neg hne]
      exact hu
  · have hholds := hlinked.holds q u hq
    simp only [pc_setPc] at hholds ⊢
    split at hholds
    · cases hholds
    · rename_i hne
      rw [if_neg hne]
      exact hholds
  · simp only [pc_setPc, stale_setPc, Function.update_apply, pc_setStage]
    by_cases hqp : q = p
    · subst hqp
      rw [if_pos rfl]
      by_cases hut : u = t
      · subst hut
        simp
      · have hnot : s.pc u ≠ .freed q := fun hfreed => hnostale u ((h.linked.stale q u).mpr hfreed)
        rw [if_neg hut]
        exact iff_of_false (fun heq => hut (Option.some.inj heq).symm) hnot
    · rw [if_neg hqp, h.linked.stale]
      by_cases hut : u = t
      · subst hut
        rw [if_pos rfl, hpc]
        exact iff_of_false (fun heq => (by cases heq)) fun heq => hqp (AllocPc.freed.inj heq).symm
      · rw [if_neg hut]
  · simp only [stage_setPc, stage_setStage] at hq
    split at hq
    · cases hq
    · rename_i hne
      simp only [server_setPc]
      rw [Table.find_erase_of_ne hne]
      exact h.live q m hq
  · simp only [stage_setPc, stage_setStage] at hq
    split at hq
    · cases hq
    · exact h.listed q m hq
  · simp only [stage_setPc, stage_setStage] at hq
    split at hq
    · cases hq
    · exact h.clear q m hq
  · simp only [stage_setPc, stage_setStage, stale_setPc, Function.update_apply]
    by_cases hqp : q = p
    · rw [if_pos hqp, if_pos hqp]
      exact Or.inr rfl
    · rw [if_neg hqp, if_neg hqp]
      exact h.known q m hq
  · simp only [stage_setPc, stage_setStage, stale_setPc, Function.update_apply] at hq ⊢
    by_cases hqp : q = p
    · subst hqp
      rw [if_pos rfl]
      refine ⟨?_, rfl⟩
      -- the entry is in the table until then
      have htable := h.listed q n hlisted
      exact Option.isSome_of_mem htable
    · rw [if_neg hqp] at hq ⊢
      exact h.pending q u hq

/-- The entry is taken out. -/
theorem Kept.forget (h : s.Kept host) (hpc : s.pc t = .freed p) :
    ({ s with table := s.table.erase p, stale := Function.update s.stale p none }.setPc t .idle :
      Allocating).Kept host := by
  have hstale : s.stale p = some t := (h.linked.stale p t).mpr hpc
  have hunlisted := (h.pending p t hstale).2
  have hfind : ∀ q m, (s.table.erase p).find q = some m → q ≠ p ∧ s.table.find q = some m := by
    intro q m hq
    rw [Table.find_erase] at hq
    split at hq
    · cases hq
    · rename_i hne
      exact ⟨hne, hq⟩
  refine ⟨⟨fun u q stage hu => ?_, fun q u hq => ?_, fun q u => ?_⟩, h.live, fun q m hq => ?_,
    fun q m hq k l hk => h.clear q m hq k l (hfind k l hk).2, fun q m hq => ?_, fun q u hq => ?_, h.laid, h.apart,
    fun q m hq => h.away q m (hfind q m hq).2⟩
  · simp only [pc_setPc] at hu
    split at hu
    · cases hu
    · exact h.linked.stage u q stage hu
  · have hholds := h.linked.holds q u hq
    simp only [pc_setPc]
    rw [if_neg]
    · exact hholds
    · rintro rfl
      rw [hpc] at hholds
      cases hholds
  · simp only [pc_setPc, stale_setPc, Function.update_apply]
    -- only the thread that freed the block was to take its entry out
    by_cases hqp : q = p
    · subst hqp
      rw [if_pos rfl]
      refine iff_of_false (fun heq => (by cases heq)) ?_
      split
      · exact fun heq => (by cases heq)
      · rename_i hut
        intro hfreed
        rw [← h.linked.stale, hstale] at hfreed
        exact hut (Option.some.inj hfreed).symm
    · rw [if_neg hqp, h.linked.stale]
      by_cases hut : u = t
      · subst hut
        rw [if_pos rfl, hpc]
        exact iff_of_false (fun heq => hqp (AllocPc.freed.inj heq).symm) fun heq => (by cases heq)
      · rw [if_neg hut]
  · have hne : q ≠ p := by
      rintro rfl
      rw [stage_setPc, hunlisted] at hq
      cases hq
    -- a block that is listed is another one, and its entry stays
    simp only [table_setPc]
    rw [Table.find_erase_of_ne hne]
    exact h.listed q m hq
  · obtain ⟨hne, hq⟩ := hfind q m hq
    simp only [stage_setPc, stale_setPc, Function.update_apply]
    rw [if_neg hne]
    exact h.known q m hq
  · simp only [stage_setPc, stale_setPc, table_setPc, Function.update_apply] at hq ⊢
    split at hq
    · cases hq
    · rename_i hne
      rw [Table.find_erase_of_ne hne]
      exact h.pending q u hq

/-- The server gives an address, and the client is told or not. -/
theorem Kept.step_allocate (h : s.Kept host) {reported : Bool} {s' : Allocating}
    (hstep : s.step host (.allocate t p reported) = some s') : s'.Kept host := by
  unfold Allocating.step at hstep
  dsimp only at hstep
  split at hstep
  · rename_i n hpc
    split at hstep
    · rename_i hvacant
      have hnone : s.server.find p = none := by
        rw [Table.find_eq_none_iff]
        intro m hm
        have hlaid := (h.laid p m (Table.find_eq_some_iff.mpr hm)).2.1
        have hsides := hvacant.2.2.2 _ hm
        have hn := hvacant.2.1
        dsimp only at hsides
        omega
      have hstage := h.stage_none hnone
      have hallocated := h.allocate hvacant
      split at hstep
      · rw [← Option.some.inj hstep]
        refine hallocated.move ?_ (fun m hm => ?_) ?_
        · refine hallocated.linked.move (fun u hu => ?_) (fun q stage hq => ?_) (Or.inl rfl) fun q => ?_
          · rw [hstage] at hu
            cases hu
          · rw [hpc] at hq
            cases hq
          · rw [hpc]
            simp
        · obtain rfl := Option.some.inj hm
          exact Table.find_insert_self p _ s.server
        · rw [hstage]
          rfl
      · rw [← Option.some.inj hstep]
        refine hallocated.setPc ?_ rfl fun q => ?_
        · rw [hpc]
          rfl
        · rw [hpc]
          simp
    · cases hstep
  · cases hstep

/-- An allocation that is in the table passes to the application. -/
theorem Kept.step_giveBack (h : s.Kept host) {s' : Allocating}
    (hstep : s.step host (.giveBack t) = some s') : s'.Kept host := by
  unfold Allocating.step at hstep
  dsimp only at hstep
  split at hstep
  · rename_i p n hpc
    rw [← Option.some.inj hstep]
    have hstage : s.stage p = .noted t n := h.linked.stage t p _ (by rw [hpc]; rfl)
    refine h.move ?_ (fun m hm => h.live p m (by rw [hstage]; exact hm)) (by rw [hstage]; rfl)
    refine h.linked.move (fun u hu => ?_) (fun q stage hq => ?_) (Or.inr ⟨rfl, rfl⟩) fun q => ?_
    · rw [hstage] at hu
      exact (Option.some.inj hu).symm
    · rw [hpc] at hq
      exact (Prod.mk.inj (Option.some.inj hq)).1.symm
    · rw [hpc]
      simp
  · cases hstep

/-- The application passes an allocation to a free, or a pointer that is none. -/
theorem Kept.step_free (h : s.Kept host) {s' : Allocating}
    (hstep : s.step host (.free t p) = some s') : s'.Kept host := by
  unfold Allocating.step at hstep
  dsimp only at hstep
  split at hstep
  · rename_i hpc
    split at hstep
    · rw [← Option.some.inj hstep]
      exact h
    · split at hstep
      · rename_i n hstage
        rw [← Option.some.inj hstep]
        refine h.move ?_ (fun m hm => h.live p m (by rw [hstage]; exact hm)) (by rw [hstage]; rfl)
        refine h.linked.move (fun u hu => ?_) (fun q stage hq => ?_) (Or.inl rfl) fun q => ?_
        · rw [hstage] at hu
          cases hu
        · rw [hpc] at hq
          cases hq
        · rw [hpc]
          simp
      · rw [← Option.some.inj hstep]
        exact h.setPc (by rw [hpc]; rfl) rfl fun q => by rw [hpc]; simp
  · cases hstep

/-- The server frees what the application has, or refuses, and says which. -/
theorem Kept.step_release (h : s.Kept host) {done reported : Bool} {s' : Allocating}
    (hcareful : s.Careful (.release t done reported))
    (hstep : s.step host (.release t done reported) = some s') : s'.Kept host := by
  unfold Allocating.step at hstep
  dsimp only at hstep
  split at hstep
  · rename_i p own hpc
    obtain ⟨hreported, hown⟩ := hcareful p own hpc
    cases own with
    | none =>
        -- what the application does not have is not freed
        have hnot : done = false := by
          cases done with
          | false => rfl
          | true => exact absurd rfl (hown rfl)
        subst hnot hreported
        rw [← Option.some.inj hstep]
        exact h.setPc (by rw [hpc]; rfl) rfl fun q => by rw [hpc]; simp
    | some n =>
        subst hreported
        have hstage : s.stage p = .freeing t n := h.linked.stage t p _ (by rw [hpc]; rfl)
        cases done with
        | true =>
            simp only [if_true] at hstep
            split at hstep
            · rw [← Option.some.inj hstep]
              exact h.release hpc
            · cases hstep
        | false =>
            rw [← Option.some.inj hstep]
            refine h.move ?_ (fun m hm => h.live p m (by rw [hstage]; exact hm)) (by rw [hstage]; rfl)
            refine h.linked.move (fun u hu => ?_) (fun q stage hq => ?_) (Or.inr ⟨rfl, rfl⟩) fun q => ?_
            · rw [hstage] at hu
              exact (Option.some.inj hu).symm
            · rw [hpc] at hq
              exact (Prod.mk.inj (Option.some.inj hq)).1.symm
            · rw [hpc]
              simp
  · cases hstep

/-- **The step lemma.** -/
theorem Kept.step (h : s.Kept host) {a : AllocAction} {s' : Allocating} (hcareful : s.Careful a)
    (hstep : s.step host a = some s') : s'.Kept host := by
  cases a with
  | malloc t size =>
      unfold Allocating.step at hstep
      dsimp only at hstep
      split at hstep
      · rename_i hpc
        rw [← Option.some.inj hstep]
        exact h.setPc (by rw [hpc]; rfl) rfl fun q => by rw [hpc]; simp
      · cases hstep
  | allocate t p reported => exact h.step_allocate hstep
  | refuse t =>
      unfold Allocating.step at hstep
      dsimp only at hstep
      split at hstep
      · rename_i hpc
        rw [← Option.some.inj hstep]
        exact h.setPc (by rw [hpc]; rfl) rfl fun q => by rw [hpc]; simp
      · cases hstep
  | note t =>
      unfold Allocating.step at hstep
      dsimp only at hstep
      split at hstep
      · rename_i p n hpc
        rw [← Option.some.inj hstep]
        exact h.note hpc (hcareful p n hpc)
      · cases hstep
  | giveBack t => exact h.step_giveBack hstep
  | free t p => exact h.step_free hstep
  | release t done reported => exact h.step_release hcareful hstep
  | forget t =>
      unfold Allocating.step at hstep
      dsimp only at hstep
      split at hstep
      · rename_i p hpc
        rw [← Option.some.inj hstep]
        exact h.forget hpc
      · cases hstep
  | reset t =>
      unfold Allocating.step at hstep
      dsimp only at hstep
      split at hstep
      · rename_i hpc
        rw [← Option.some.inj hstep]
        exact h.setPc (by rw [hpc]; rfl) rfl fun q => by rw [hpc]; simp
      · cases hstep
  | destroy t gone =>
      unfold Allocating.step at hstep
      dsimp only at hstep
      split at hstep
      · rw [← Option.some.inj hstep]
        refine h.destroy fun p n hsize => decide_eq_true fun hgone => ?_
        rw [(hcareful p hgone).2] at hsize
        cases hsize
      · cases hstep
  | endReset t =>
      unfold Allocating.step at hstep
      dsimp only at hstep
      split at hstep
      · rename_i hpc
        rw [← Option.some.inj hstep]
        exact h.setPc (by rw [hpc]; rfl) rfl fun q => by rw [hpc]; simp
      · cases hstep

end Steps

end Allocating

namespace Allocating

/-- The pointer is into an allocation of the application. -/
def OnDevice (s : Allocating) (v : ℕ) : Prop := ∃ p n, s.stage p = .owned n ∧ p ≤ v ∧ v < p + n

/-- The pointer is into an allocation of the application, or into the client's own memory. -/
def Is (host : ℕ → Bool) (s : Allocating) (v : ℕ) : Bool → Prop
  | true => s.OnDevice v
  | false => host v = true

/-- No call is in progress. -/
def Quiet (s : Allocating) : Prop := ∀ t, s.pc t = .idle

/-- What the table is for. -/
structure Exact (host : ℕ → Bool) (s : Allocating) : Prop where
  every : ∀ p n, s.stage p = .owned n → s.table.find p = some n ∧ s.server.find p = some n
  others : s.Quiet → ∀ p n, s.table.find p = some n → s.stage p = .owned n
  device : ∀ v, s.OnDevice v → isDevicePtr s.table v = true
  exactly : s.Quiet → ∀ v, isDevicePtr s.table v = true ↔ s.OnDevice v
  resolved : ∀ dst src d e, s.Is host dst d → s.Is host src e →
    resolveKind s.table dst src .default = direction d e

section Runs

variable {host : ℕ → Bool} {s : Allocating}

/-- While no call is in progress, only the application has allocations. -/
theorem Kept.owned_of_quiet (h : s.Kept host) (hquiet : s.Quiet) {p n : ℕ} (hfind : s.table.find p = some n) :
    s.stage p = .owned n := by
  rcases h.known p n hfind with hlisted | hstale
  · have hnothread : (s.stage p).thread = none := by
      cases hthread : (s.stage p).thread with
      | none => rfl
      | some t =>
          have hholds := h.linked.holds p t hthread
          rw [hquiet t] at hholds
          cases hholds
    cases hstage : s.stage p with
    | owned m =>
        rw [hstage] at hlisted
        rw [Option.some.inj hlisted]
    | none =>
        rw [hstage] at hlisted
        cases hlisted
    | _ =>
        rw [hstage] at hnothread
        cases hnothread
  · obtain ⟨t, ht⟩ := Option.isSome_iff_exists.mp hstale
    have hfreed := (h.linked.stale p t).mp ht
    rw [hquiet t] at hfreed
    cases hfreed

/-- An address inside an allocation the application has is known as device memory. -/
theorem Kept.device (h : s.Kept host) {v : ℕ} (hv : s.OnDevice v) : isDevicePtr s.table v = true := by
  obtain ⟨p, n, hstage, hle, hlt⟩ := hv
  have hlisted : (s.stage p).listed = some n := by rw [hstage]; rfl
  have hfind := h.listed p n hlisted
  exact isDevicePtr_of_inside hfind (h.away p n hfind).1 (h.clear p n hlisted) hle hlt

/-- An address of the client is in no entry, not even in a stale one. -/
theorem Kept.not_device (h : s.Kept host) {v : ℕ} (hv : host v = true) : isDevicePtr s.table v = false := by
  cases hdevice : isDevicePtr s.table v with
  | false => rfl
  | true =>
      obtain ⟨p, n, hfind, hle, hlt⟩ := inside_of_isDevicePtr hdevice
      have haway := (h.away p n hfind).2 (v - p) (by omega)
      rw [Nat.add_sub_cancel' hle, hv] at haway
      cases haway

/-- The invariant gives what is asked of the table. -/
theorem Kept.exact (h : s.Kept host) : s.Exact host where
  every p n hstage := ⟨h.listed p n (by rw [hstage]; rfl), h.live p n (by rw [hstage]; rfl)⟩
  others hquiet p n hfind := h.owned_of_quiet hquiet hfind
  device v hv := h.device hv
  exactly hquiet v := by
    refine ⟨fun hdevice => ?_, fun hv => h.device hv⟩
    obtain ⟨p, n, hfind, hle, hlt⟩ := inside_of_isDevicePtr hdevice
    exact ⟨p, n, h.owned_of_quiet hquiet hfind, hle, hlt⟩
  resolved dst src d e hdst hsrc := by
    have hanswer : ∀ v b, s.Is host v b → isDevicePtr s.table v = b := by
      intro v b hb
      cases b with
      | true => exact h.device hb
      | false => exact h.not_device hb
    rw [resolveKind_default, hanswer dst d hdst, hanswer src e hsrc]

end Runs

/-- **The table is exact**, in every run in which no entry outlives its allocation unnoticed: at every moment
it has each allocation of the application, with its size, and while no call is in progress nothing else. A
pointer into one is one of the device, a pointer into the client's memory is not, and a copy between any two
goes the right way. -/
theorem table_exact (host : ℕ → Bool) (as : List AllocAction) (s : Allocating)
    (hcareful : Along (step host) Careful {} as) (hrun : run (step host) {} as = some s) : s.Exact host := by
  have hkept : Always (step host) Careful {} (Kept host) :=
    Always.of_step (kept_init host) fun _ _ _ h hcareful hstep => h.step hcareful hstep
  exact (hkept as s hcareful hrun).exact

/-- Sixteen bytes are allocated. -/
def allocated : List AllocAction := [.malloc 1 16, .allocate 1 4096 true, .note 1, .giveBack 1]

/-- They are freed, and another thread is given their address. -/
def reused : List AllocAction :=
  [.free 1 4096, .release 1 true true, .forget 1, .malloc 2 32, .allocate 2 4096 true, .note 2, .giveBack 2]

/-- The addresses of a small client. -/
def lowAddresses (v : ℕ) : Bool := v < 4096

/-- Such a run: the entry of the first allocation is out before that of the second goes in. -/
theorem table_exact_allocated : ∃ s, run (step lowAddresses) {} (allocated ++ reused) = some s ∧
    s.Exact lowAddresses ∧ s.stage 4096 = .owned 32 := by
  have hcareful : Along (step lowAddresses) Careful {} (allocated ++ reused) := by
    refine ⟨trivial, trivial, fun p n _ e he => ?_, trivial, trivial, fun p own hpc => ?_, trivial, trivial, trivial,
      fun p n _ e he => ?_, trivial, trivial⟩
    · cases he
    · cases hpc
      exact ⟨rfl, nofun⟩
    · cases he
  exact ⟨_, rfl, table_exact lowAddresses (allocated ++ reused) _ hcareful rfl, rfl⟩

/-- **A free takes out the entry of a newer allocation.** The server frees an address for one thread, and gives
it to another thread, whose entry the first takes out: the pointer is then taken for one of the client. -/
theorem newer_entry_forgotten : ∃ s,
    run (step lowAddresses) {} (allocated ++ [.free 1 4096, .release 1 true true, .malloc 2 16,
      .allocate 2 4096 true, .note 2, .giveBack 2, .forget 1]) = some s ∧
      s.Quiet ∧ s.stage 4096 = .owned 16 ∧ s.server.find 4096 = some 16 ∧ s.table.find 4096 = none ∧
      resolveKind s.table 4096 64 .default = .hostToHost := by
  refine ⟨_, rfl, fun t => ?_, rfl, rfl, rfl, rfl⟩
  by_cases hone : t = 1
  · subst hone
    rfl
  · by_cases htwo : t = 2
    · subst htwo
      rfl
    · simp [hone, htwo]

end Allocating

end Rgpu
