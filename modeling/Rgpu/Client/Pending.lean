import Rgpu.Driver.Contexts
import Rgpu.Foundations.StepSystem
import Mathlib.Data.Finset.Basic

/-! # The queued stream synchronize

A stream synchronize after nothing but uploads is queued, and returns at once. `client/pending.cpp` keeps
the record that says when: which streams have work outstanding. It is one record for the process, marked
by a call before it is sent, and cleared by a wait after its reply.

* **`PendingWork`** — the record.
* **`streamWork`**, **`settles`** — what the stub of an entry point marks and clears.
* **`Issuing.step`** — threads that issue calls, and a GPU that finishes the work in any order.
* **`Issuing.synchronized`** — for every run in which no wait clears the mark of work that it did not wait
  for: what a synchronize returns after has finished.
* **`Issuing.newer_mark_cleared`** — a run in which a wait clears the mark of a newer call. -/

namespace Rgpu

open Foundations

/-- A stream, as the application names it. The null stream is 0. -/
abbrev StreamHandle := ℕ

namespace StreamHandle

/-- `CU_STREAM_LEGACY`: the null stream by another name. -/
def legacy : StreamHandle := 1

/-- `CU_STREAM_PER_THREAD`. -/
def perThread : StreamHandle := 2

/-- The default stream waits for the others of its context. -/
def isDefault (s : StreamHandle) : Bool := s = 0 || s = legacy

/-- A name that stands for a stream of the current context, in any context. -/
def isRelative (s : StreamHandle) : Bool := s.isDefault || s = perThread

end StreamHandle

/-- What work is recorded under: a stream, or none that can be named. -/
inductive Mark
  | on (s : StreamHandle)
  | somewhere
  deriving DecidableEq, Repr

/-- What a wait reports to be finished: a stream, or everything. -/
inductive Settled
  | stream (s : StreamHandle)
  | all
  deriving DecidableEq, Repr

/-- `g_busy` and `g_unplaced`. -/
structure PendingWork where
  busy : Finset StreamHandle := ∅
  unplaced : Bool := false
  deriving DecidableEq

namespace PendingWork

/-- `work_on`. -/
def workOn (p : PendingWork) (s : StreamHandle) : PendingWork := { p with busy := insert s p.busy }

/-- `work_somewhere`. -/
def workSomewhere (p : PendingWork) : PendingWork := { p with unplaced := true }

/-- `settled`. -/
def settled (p : PendingWork) (s : StreamHandle) : PendingWork := { p with busy := p.busy.erase s }

/-- `settled_all`. -/
def settledAll (_ : PendingWork) : PendingWork := ⟨∅, false⟩

/-- `nothing_to_wait_for`. -/
def nothingToWaitFor (p : PendingWork) (s : StreamHandle) : Bool :=
  if p.unplaced then false
  -- the default stream is idle only when they all are
  else if s = 0 then p.busy = ∅
  else s ∉ p.busy

/-- A call is recorded, if it is. -/
def mark (p : PendingWork) : Option Mark → PendingWork
  | some (.on s) => p.workOn s
  | some .somewhere => p.workSomewhere
  | none => p

/-- A wait is reported, if it is one. -/
def settle (p : PendingWork) : Option Settled → PendingWork
  | some (.stream s) => p.settled s
  | some .all => p.settledAll
  | none => p

/-- The mark is there. -/
def Holds (p : PendingWork) : Mark → Prop
  | .on s => s ∈ p.busy
  | .somewhere => p.unplaced = true

end PendingWork

/-- A synchronize of `s` has to wait where this mark is there. -/
def Mark.CountsFor (s : StreamHandle) : Mark → Prop
  | .on k => k = s ∨ s = 0
  | .somewhere => True

/-- The mark that a wait clears. -/
def Settled.Clears : Settled → Mark → Prop
  | .stream s, m => m = .on s
  | .all, _ => True

/-- An entry point of the driver as its header declares it: its parameters have a name and a type. -/
structure ApiFunction where
  name : String
  params : List (String × String)

namespace ApiFunction

/-- `NO_STREAM_WORK`. -/
def noStreamWork : List String :=
  ["cuStreamGetAttribute", "cuStreamSetAttribute", "cuStreamCopyAttributes", "cuStreamGetCaptureInfo_v2",
    "cuStreamGetCaptureInfo_v3", "cuStreamGetCtx", "cuStreamGetCtx_v2", "cuStreamGetDevice",
    "cuStreamGetFlags", "cuStreamGetGreenCtx", "cuStreamGetId", "cuStreamGetPriority",
    "cuStreamIsCapturing", "cuStreamQuery", "cuStreamBeginCapture_v2", "cuStreamBeginCaptureToGraph",
    "cuStreamEndCapture", "cuStreamUpdateCaptureDependencies", "cuStreamUpdateCaptureDependencies_v2",
    "cuStreamSynchronize", "cuStreamDestroy_v2", "cuMemcpyHtoDAsync_v2", "cuMemcpyDtoHAsync_v2"]

/-- A parameter, or `"*"`. -/
inductive Where
  | param (name : String)
  | anywhere
  deriving DecidableEq, Repr

/-- The parameter that names the stream. -/
def streamParam (f : ApiFunction) : Option String :=
  (f.params.find? fun p => p.2.trimAscii.toString = "CUstream").map Prod.fst

/-- `stream_work`. -/
def streamWork (f : ApiFunction) : Option Where :=
  if f.name ∈ noStreamWork then none
  else match f.streamParam with
    | some p => some (.param p)
    | none => if "cuLaunch".isPrefixOf f.name then some .anywhere else none

/-- `settles`, with the annotation `sync_stream`. -/
def settles (f : ApiFunction) : Option Where :=
  if f.name = "cuCtxSynchronize" then some .anywhere
  else if f.name = "cuStreamDestroy_v2" ∨ f.name = "cuMemcpyDtoHAsync_v2" then some (.param "hStream")
  else none

end ApiFunction

/-- Work that the GPU was given, other than uploads. -/
structure GpuWork where
  ctx : CUcontext
  stream : StreamHandle
  /-- Under what its call was recorded. -/
  mark : Option Mark
  deriving DecidableEq, Repr

namespace GpuWork

/-- A synchronize of `s` in the context `c` is to wait for it. -/
def due (w : GpuWork) (c : CUcontext) (s : StreamHandle) : Bool :=
  if s.isDefault then w.ctx = c
  else w.stream = s && (!s.isRelative || w.ctx = c)

end GpuWork

/-- A call that may have to do with a stream. -/
inductive GpuCall
  /-- A generated stub, with the streams among its arguments. -/
  | stub (f : ApiFunction) (args : String → StreamHandle)
  /-- `rgpu_launch`, and what the libraries compute on the stream of a handle. -/
  | computes (s : StreamHandle)
  /-- `cuStreamSynchronize`. -/
  | synchronize (s : StreamHandle)

namespace GpuCall

/-- What the call records before it is sent. -/
def mark : GpuCall → Option Mark
  | .stub f args =>
      match f.streamWork with
      | some (.param p) => some (.on (args p))
      | some .anywhere => some .somewhere
      | none => none
  | .computes s => some (.on s)
  | .synchronize _ => none

/-- What the call reports once it has returned. -/
def settled : GpuCall → Option Settled
  | .stub f args =>
      match f.settles with
      | some (.param p) => some (.stream (args p))
      | some .anywhere => some .all
      | none => none
  | .computes _ => none
  | .synchronize s => some (.stream s)

/-- It reports that even when it has failed. -/
def alwaysSettles : GpuCall → Bool
  | .synchronize _ => true
  | .stub _ _ | .computes _ => false

/-- The call may give the GPU work that is no upload: queries, settings, captures and uploads do not, nor
do a synchronize and the end of a stream. -/
def working : GpuCall → Bool
  | .stub f _ => f.name ∉ ApiFunction.noStreamWork || f.name = "cuMemcpyDtoHAsync_v2"
  | .computes _ => true
  | .synchronize _ => false

/-- The stream that work of the call runs on: the default stream, unless it names another. -/
def target : GpuCall → StreamHandle
  | .stub f args =>
      match f.streamParam with
      | some p => args p
      | none => 0
  | .computes s | .synchronize s => s

/-- What the driver waits for before the call succeeds. -/
def waitsFor (c : CUcontext) (w : GpuWork) : GpuCall → Bool
  | .stub f args =>
      if f.name = "cuCtxSynchronize" then w.ctx = c
      else f.name = "cuMemcpyDtoHAsync_v2" && w.due c (args "hStream")
  | .computes _ => false
  | .synchronize s => w.due c s

end GpuCall

/-- Where a thread is in a call. `n` pieces of work had been issued when the call began. -/
inductive IssuerPc
  | idle
  | begun (call : GpuCall) (n : ℕ)
  | recorded (call : GpuCall) (n : ℕ)
  /-- Sent after `m` pieces of work. -/
  | sent (call : GpuCall) (n m : ℕ)
  | replied (call : GpuCall) (n : ℕ) (ok : Bool)
  | returned (call : GpuCall) (n : ℕ) (ok : Bool)

/-- How much had been issued when a call began. -/
def IssuerPc.Since (issued : ℕ) : IssuerPc → Prop
  | .idle => True
  | .begun _ n | .recorded _ n | .replied _ n _ | .returned _ n _ => n ≤ issued
  | .sent _ n m => n ≤ m ∧ m ≤ issued

/-- A synchronize that has succeeded. -/
def IssuerPc.synced : IssuerPc → Option (StreamHandle × ℕ)
  | .replied (.synchronize s) n true | .returned (.synchronize s) n true => some (s, n)
  | _ => none

/-- What is known since some work is known since later work. -/
theorem IssuerPc.Since.succ {pc : IssuerPc} {n : ℕ} (h : pc.Since n) : pc.Since (n + 1) := by
  cases pc with
  | idle => trivial
  | sent call k m => exact ⟨h.1, Nat.le_succ_of_le h.2⟩
  | begun call k => exact Nat.le_succ_of_le h
  | recorded call k => exact Nat.le_succ_of_le h
  | replied call k ok => exact Nat.le_succ_of_le h
  | returned call k ok => exact Nat.le_succ_of_le h

/-- A synchronize is of work that was issued before. -/
theorem IssuerPc.Since.le {pc : IssuerPc} {s : StreamHandle} {n k : ℕ} (h : pc.Since k)
    (hsynced : pc.synced = some (s, n)) : n ≤ k := by
  unfold IssuerPc.synced at hsynced
  split at hsynced
  · rw [← (Prod.mk.inj (Option.some.inj hsynced)).2]
    exact h
  · rw [← (Prod.mk.inj (Option.some.inj hsynced)).2]
    exact h
  · cases hsynced

/-- The threads of the application, and the work that they have issued. -/
structure Issuing where
  record : PendingWork := {}
  pc : ℕ → IssuerPc := fun _ => .idle
  /-- The current context of a thread. -/
  ctx : ℕ → CUcontext := fun _ => 0
  works : ℕ → GpuWork := fun _ => ⟨0, 0, none⟩
  issued : ℕ := 0
  finished : ℕ → Bool := fun _ => false

/-- What a thread or the GPU does. -/
inductive IssuerAction
  | setCurrent (t : ℕ) (c : CUcontext)
  | enter (t : ℕ) (call : GpuCall)
  | record (t : ℕ)
  /-- `nothing_to_wait_for`; a synchronize that is queued is accepted, or not. -/
  | look (t : ℕ) (accepted : Bool)
  /-- The call is sent. If it gives the GPU work, then in a context. -/
  | send (t : ℕ) (work : Option CUcontext)
  | reply (t : ℕ) (ok : Bool)
  | settle (t : ℕ)
  | leave (t : ℕ)
  /-- The GPU finishes a piece of work. -/
  | finish (i : ℕ)

namespace Issuing

/-- A thread goes on. -/
def setPc (z : Issuing) (t : ℕ) (pc : IssuerPc) : Issuing := { z with pc := Function.update z.pc t pc }

/-- The GPU is given work. -/
def issue (z : Issuing) (w : GpuWork) : Issuing :=
  { z with works := Function.update z.works z.issued w, issued := z.issued + 1 }

/-- One step, in the default mode. -/
def step (z : Issuing) : IssuerAction → Option Issuing
  | .setCurrent t c =>
      match z.pc t with
      | .idle => some { z with ctx := Function.update z.ctx t c }
      | _ => none
  | .enter t call =>
      match z.pc t with
      | .idle => some (z.setPc t (.begun call z.issued))
      | _ => none
  | .record t =>
      match z.pc t with
      | .begun (.synchronize _) _ => none
      | .begun call n => some ({ z with record := z.record.mark call.mark }.setPc t (.recorded call n))
      | _ => none
  | .look t accepted =>
      match z.pc t with
      | .begun (.synchronize s) n =>
          -- queued instead of waited for
          if z.record.nothingToWaitFor s then some (z.setPc t (.returned (.synchronize s) n accepted))
          else some (z.setPc t (.recorded (.synchronize s) n))
      | _ => none
  | .send t work =>
      match z.pc t with
      | .recorded call n =>
          match work with
          | none => some (z.setPc t (.sent call n z.issued))
          | some c =>
              -- a stream handle of the thread's own context is meant relative to it
              if call.working ∧ (call.target.isRelative → c = z.ctx t) then
                some ((z.issue ⟨c, call.target, call.mark⟩).setPc t (.sent call n (z.issued + 1)))
              else none
      | _ => none
  | .reply t ok =>
      match z.pc t with
      | .sent call n m =>
          -- a reply of success means that what was waited for is over
          if ok = true → ∀ i < m, call.waitsFor (z.ctx t) (z.works i) = true → z.finished i = true then
            some (z.setPc t (.replied call n ok))
          else none
      | _ => none
  | .settle t =>
      match z.pc t with
      | .replied call n ok =>
          let record := if ok || call.alwaysSettles then z.record.settle call.settled else z.record
          some ({ z with record := record }.setPc t (.returned call n ok))
      | _ => none
  | .leave t =>
      match z.pc t with
      | .returned _ _ _ => some (z.setPc t .idle)
      | _ => none
  | .finish i => if i < z.issued then some { z with finished := Function.update z.finished i true } else none

variable {z z' : Issuing} {a : IssuerAction} {t : ℕ}

/-- A wait clears no mark of work that has not finished, nor one that another thread has just made for
work it is about to issue. A synchronize is not queued while there is work for it to wait for that is not
recorded at all, or under another stream. -/
def Careful (z : Issuing) : IssuerAction → Prop
  | .settle t => ∀ call n ok e m, z.pc t = .replied call n ok → (ok || call.alwaysSettles) = true →
      call.settled = some e → e.Clears m →
        (∀ i < z.issued, (z.works i).mark = some m → z.finished i = true) ∧
        ∀ u other k, z.pc u = .recorded other k → other.mark ≠ some m
  | .look t _ => ∀ s n, z.pc t = .begun (.synchronize s) n → z.record.nothingToWaitFor s = true →
      ∀ i < z.issued, (z.works i).due (z.ctx t) s = true → z.finished i = false →
        ∃ m, (z.works i).mark = some m ∧ m.CountsFor s
  | .setCurrent _ _ | .enter _ _ | .record _ | .send _ _ | .reply _ _ | .leave _ | .finish _ => True

/-- What is outstanding is recorded, if its call records it, from before the call is sent. -/
structure Recorded (z : Issuing) : Prop where
  works : ∀ i < z.issued, z.finished i = false → ∀ m, (z.works i).mark = some m → z.record.Holds m
  about : ∀ t call n, z.pc t = .recorded call n → ∀ m, call.mark = some m → z.record.Holds m

/-- What a synchronize that has succeeded was to wait for has finished. -/
def Waited (z : Issuing) : Prop :=
  ∀ t s n, (z.pc t).synced = some (s, n) →
    ∀ i < n, (z.works i).due (z.ctx t) s = true → z.finished i = true

/-! ### The record -/

end Issuing

namespace PendingWork

variable {p : PendingWork} {m : Mark} {s : StreamHandle}

/-- What is marked is held. -/
theorem holds_mark (p : PendingWork) (m : Mark) : (p.mark (some m)).Holds m := by
  cases m with
  | on s => exact Finset.mem_insert_self s p.busy
  | somewhere => rfl

/-- What is held stays held when more is marked. -/
theorem Holds.mark (h : p.Holds m) (o : Option Mark) : (p.mark o).Holds m := by
  rcases o with - | (k | -)
  · exact h
  · cases m with
    | on s => exact Finset.mem_insert_of_mem h
    | somewhere => exact h
  · cases m with
    | on s => exact h
    | somewhere => rfl

/-- A wait clears no other marks. -/
theorem Holds.settle (h : p.Holds m) {o : Option Settled} (ho : ∀ e, o = some e → ¬e.Clears m) :
    (p.settle o).Holds m := by
  rcases o with - | (k | -)
  · exact h
  · cases m with
    | on s =>
        have hne : s ≠ k := fun heq => ho _ rfl (congrArg Mark.on heq)
        exact Finset.mem_erase.mpr ⟨hne, h⟩
    | somewhere => exact h
  · exact absurd trivial (ho _ rfl)

/-- Nothing is recorded that a synchronize has to wait for. -/
theorem not_holds_of_nothing (h : p.nothingToWaitFor s = true) (hm : m.CountsFor s) : ¬p.Holds m := by
  unfold nothingToWaitFor at h
  split at h
  · cases h
  · rename_i hplaced
    intro hholds
    cases m with
    | somewhere => exact hplaced hholds
    | on k =>
        split at h
        · have hempty : p.busy = ∅ := of_decide_eq_true h
          rw [Holds, hempty] at hholds
          exact Finset.notMem_empty k hholds
        · rename_i hs
          obtain rfl : k = s := hm.resolve_right hs
          exact of_decide_eq_true h hholds

end PendingWork

namespace Issuing

variable {z z' : Issuing} {a : IssuerAction} {t : ℕ}

/-- Moving a thread moves no other. -/
@[simp] theorem pc_setPc (z : Issuing) (t : ℕ) (pc : IssuerPc) (u : ℕ) :
    (z.setPc t pc).pc u = if u = t then pc else z.pc u := Function.update_apply _ _ _ _

/-- Moving a thread changes neither the record nor the work. -/
@[simp] theorem record_setPc (z : Issuing) (t : ℕ) (pc : IssuerPc) : (z.setPc t pc).record = z.record := rfl
@[simp] theorem ctx_setPc (z : Issuing) (t : ℕ) (pc : IssuerPc) : (z.setPc t pc).ctx = z.ctx := rfl
@[simp] theorem works_setPc (z : Issuing) (t : ℕ) (pc : IssuerPc) : (z.setPc t pc).works = z.works := rfl
@[simp] theorem issued_setPc (z : Issuing) (t : ℕ) (pc : IssuerPc) : (z.setPc t pc).issued = z.issued := rfl
@[simp] theorem finished_setPc (z : Issuing) (t : ℕ) (pc : IssuerPc) :
    (z.setPc t pc).finished = z.finished := rfl

/-! ### What is outstanding is recorded -/

/-- A thread goes on, and is not about to issue anything new. -/
theorem Recorded.setPc (h : z.Recorded) {pc : IssuerPc}
    (hpc : ∀ call n, pc = .recorded call n → ∀ m, call.mark = some m → z.record.Holds m) :
    (z.setPc t pc).Recorded := by
  refine ⟨h.works, fun u call n hu => ?_⟩
  rw [pc_setPc] at hu
  split at hu
  · exact hpc call n hu
  · exact h.about u call n hu

/-- **The step lemma.** -/
theorem Recorded.step (h : z.Recorded) (hcareful : z.Careful a) (hstep : z.step a = some z') :
    z'.Recorded := by
  cases a with
  | setCurrent t c =>
      unfold Issuing.step at hstep
      dsimp only at hstep
      split at hstep
      · rw [← Option.some.inj hstep]
        exact ⟨h.works, h.about⟩
      · cases hstep
  | enter t call =>
      unfold Issuing.step at hstep
      dsimp only at hstep
      split at hstep
      · rw [← Option.some.inj hstep]
        exact h.setPc fun _ _ heq => nomatch heq
      · cases hstep
  | record t =>
      unfold Issuing.step at hstep
      dsimp only at hstep
      split at hstep
      · cases hstep
      · rename_i call n _ hpc
        rw [← Option.some.inj hstep]
        have hmarked : ({ z with record := z.record.mark call.mark } : Issuing).Recorded :=
          ⟨fun i hi hf m hm => (h.works i hi hf m hm).mark _, fun u c k hu m hm => (h.about u c k hu m hm).mark _⟩
        refine hmarked.setPc fun call' n' heq m hm => ?_
        obtain ⟨rfl, rfl⟩ := IssuerPc.recorded.inj heq
        rw [hm]
        exact PendingWork.holds_mark z.record m
      · cases hstep
  | look t accepted =>
      unfold Issuing.step at hstep
      dsimp only at hstep
      split at hstep
      · split at hstep
        · rw [← Option.some.inj hstep]
          exact h.setPc fun _ _ heq => nomatch heq
        · rw [← Option.some.inj hstep]
          refine h.setPc fun call' n' heq m hm => ?_
          obtain ⟨rfl, rfl⟩ := IssuerPc.recorded.inj heq
          cases hm
      · cases hstep
  | send t work =>
      unfold Issuing.step at hstep
      dsimp only at hstep
      split at hstep
      · rename_i call n hpc
        cases work with
        | none =>
            rw [← Option.some.inj hstep]
            exact h.setPc fun _ _ heq => nomatch heq
        | some c =>
            dsimp only at hstep
            split at hstep
            · rw [← Option.some.inj hstep]
              have hissued : (z.issue ⟨c, call.target, call.mark⟩).Recorded := by
                refine ⟨fun i hi hf m hm => ?_, h.about⟩
                simp only [issue, Function.update_apply] at hm
                split at hm
                · exact h.about t call n hpc m hm
                · rename_i hne
                  have hlt : i < z.issued := Nat.lt_of_le_of_ne (Nat.le_of_lt_succ hi) hne
                  exact h.works i hlt hf m hm
              exact hissued.setPc fun _ _ heq => nomatch heq
            · cases hstep
      · cases hstep
  | reply t ok =>
      unfold Issuing.step at hstep
      dsimp only at hstep
      split at hstep
      · split at hstep
        · rw [← Option.some.inj hstep]
          exact h.setPc fun _ _ heq => nomatch heq
        · cases hstep
      · cases hstep
  | settle t =>
      unfold Issuing.step at hstep
      dsimp only at hstep
      split at hstep
      · rename_i call n ok hpc
        rw [← Option.some.inj hstep]
        split
        · rename_i hsettles
          -- what the wait clears is not outstanding
          have hsettled : ({ z with record := z.record.settle call.settled } : Issuing).Recorded := by
            refine ⟨fun i hi hf m hm => ?_, fun u c k hu m hm => ?_⟩
            · refine (h.works i hi hf m hm).settle fun e he hclears => ?_
              have hfinished := (hcareful call n ok e m hpc hsettles he hclears).1 i hi hm
              rw [hf] at hfinished
              cases hfinished
            · refine (h.about u c k hu m hm).settle fun e he hclears => ?_
              exact (hcareful call n ok e m hpc hsettles he hclears).2 u c k hu hm
          exact hsettled.setPc fun _ _ heq => nomatch heq
        · exact h.setPc fun _ _ heq => nomatch heq
      · cases hstep
  | leave t =>
      unfold Issuing.step at hstep
      dsimp only at hstep
      split at hstep
      · rw [← Option.some.inj hstep]
        exact h.setPc fun _ _ heq => nomatch heq
      · cases hstep
  | finish i =>
      unfold Issuing.step at hstep
      dsimp only at hstep
      split at hstep
      · rw [← Option.some.inj hstep]
        refine ⟨fun j hj hf m hm => ?_, h.about⟩
        simp only [Function.update_apply] at hf
        split at hf
        · cases hf
        · exact h.works j hj hf m hm
      · cases hstep

/-! ### What was waited for has finished -/

/-- No call has begun after more work than was issued. -/
def Dated (z : Issuing) : Prop := ∀ t, (z.pc t).Since z.issued

/-- A thread may go on with what is known since now. -/
theorem Dated.setPc (h : z.Dated) {pc : IssuerPc} (hpc : pc.Since z.issued) : (z.setPc t pc).Dated := by
  intro u
  rw [pc_setPc]
  split
  · exact hpc
  · exact h u

/-- No step knows of work still to come. -/
theorem Dated.step (h : z.Dated) (hstep : z.step a = some z') : z'.Dated := by
  cases a with
  | setCurrent t c =>
      unfold Issuing.step at hstep
      dsimp only at hstep
      split at hstep
      · rw [← Option.some.inj hstep]
        exact h
      · cases hstep
  | enter t call =>
      unfold Issuing.step at hstep
      dsimp only at hstep
      split at hstep
      · rw [← Option.some.inj hstep]
        exact h.setPc (Nat.le_refl _)
      · cases hstep
  | record t =>
      have ht := h t
      unfold Issuing.step at hstep
      dsimp only at hstep
      split at hstep
      · cases hstep
      · rename_i call n _ hpc
        rw [hpc] at ht
        rw [← Option.some.inj hstep]
        have hsame : ({ z with record := z.record.mark call.mark } : Issuing).Dated := h
        exact hsame.setPc ht
      · cases hstep
  | look t accepted =>
      have ht := h t
      unfold Issuing.step at hstep
      dsimp only at hstep
      split at hstep
      · rename_i s n hpc
        rw [hpc] at ht
        split at hstep
        · rw [← Option.some.inj hstep]
          exact h.setPc ht
        · rw [← Option.some.inj hstep]
          exact h.setPc ht
      · cases hstep
  | send t work =>
      have ht := h t
      unfold Issuing.step at hstep
      dsimp only at hstep
      split at hstep
      · rename_i call n hpc
        rw [hpc] at ht
        cases work with
        | none =>
            rw [← Option.some.inj hstep]
            exact h.setPc ⟨ht, Nat.le_refl _⟩
        | some c =>
            dsimp only at hstep
            split at hstep
            · rw [← Option.some.inj hstep]
              -- what was entered before so many were issued was entered before more are
              have hissued : (z.issue ⟨c, call.target, call.mark⟩).Dated := fun u => IssuerPc.Since.succ (h u)
              exact hissued.setPc ⟨Nat.le_succ_of_le ht, Nat.le_refl _⟩
            · cases hstep
      · cases hstep
  | reply t ok =>
      have ht := h t
      unfold Issuing.step at hstep
      dsimp only at hstep
      split at hstep
      · rename_i call n m hpc
        rw [hpc] at ht
        split at hstep
        · rw [← Option.some.inj hstep]
          exact h.setPc (Nat.le_trans ht.1 ht.2)
        · cases hstep
      · cases hstep
  | settle t =>
      have ht := h t
      unfold Issuing.step at hstep
      dsimp only at hstep
      split at hstep
      · rename_i call n ok hpc
        rw [hpc] at ht
        rw [← Option.some.inj hstep]
        have hsame : ({ z with record := if ok || call.alwaysSettles then z.record.settle call.settled
          else z.record } : Issuing).Dated := h
        exact hsame.setPc ht
      · cases hstep
  | leave t =>
      unfold Issuing.step at hstep
      dsimp only at hstep
      split at hstep
      · rw [← Option.some.inj hstep]
        exact h.setPc trivial
      · cases hstep
  | finish i =>
      unfold Issuing.step at hstep
      dsimp only at hstep
      split at hstep
      · rw [← Option.some.inj hstep]
        exact h
      · cases hstep

/-- A thread may go on if the work that its synchronize was for is finished. -/
theorem Waited.setPc (h : z.Waited) {pc : IssuerPc}
    (hpc : ∀ s n, pc.synced = some (s, n) →
      ∀ i < n, (z.works i).due (z.ctx t) s = true → z.finished i = true) : (z.setPc t pc).Waited := by
  intro u s n hu
  rw [pc_setPc] at hu
  split at hu
  · rename_i heq
    rw [heq]
    exact hpc s n hu
  · exact h u s n hu

/-- A pc that is none of a synchronize that has succeeded. -/
theorem Waited.setPc_none (h : z.Waited) {pc : IssuerPc} (hpc : pc.synced = none) :
    (z.setPc t pc).Waited :=
  h.setPc fun s n hsynced => by
    rw [hpc] at hsynced
    cases hsynced

/-- **The step lemma.** -/
theorem Waited.step (h : z.Waited) (hdated : z.Dated) (hrecorded : z.Recorded) (hcareful : z.Careful a)
    (hstep : z.step a = some z') : z'.Waited := by
  cases a with
  | setCurrent t c =>
      unfold Issuing.step at hstep
      dsimp only at hstep
      split at hstep
      · rename_i hpc
        rw [← Option.some.inj hstep]
        intro u s n hu
        dsimp only at hu ⊢
        rw [Function.update_apply]
        split
        · rename_i heq
          rw [heq, hpc] at hu
          cases hu
        · exact h u s n hu
      · cases hstep
  | enter t call =>
      unfold Issuing.step at hstep
      dsimp only at hstep
      split at hstep
      · rw [← Option.some.inj hstep]
        exact h.setPc_none rfl
      · cases hstep
  | record t =>
      unfold Issuing.step at hstep
      dsimp only at hstep
      split at hstep
      · cases hstep
      · rename_i call n _ hpc
        rw [← Option.some.inj hstep]
        have hsame : ({ z with record := z.record.mark call.mark } : Issuing).Waited := h
        exact hsame.setPc_none rfl
      · cases hstep
  | look t accepted =>
      unfold Issuing.step at hstep
      dsimp only at hstep
      split at hstep
      · rename_i s n hpc
        have hn := hdated t
        rw [hpc] at hn
        split at hstep
        · rename_i hnothing
          rw [← Option.some.inj hstep]
          -- what is outstanding is recorded, and the record was empty
          refine h.setPc fun s' n' hsynced i hi hdue => ?_
          have heq : s = s' ∧ n = n' := by
            cases accepted with
            | false => cases hsynced
            | true => exact Prod.mk.inj (Option.some.inj hsynced)
          obtain ⟨rfl, rfl⟩ := heq
          by_contra hunfinished
          have hf : z.finished i = false := (Bool.not_eq_true _).mp hunfinished
          have hi' : i < z.issued := Nat.lt_of_lt_of_le hi hn
          obtain ⟨m, hm, hcounts⟩ := hcareful s n hpc hnothing i hi' hdue hf
          exact PendingWork.not_holds_of_nothing hnothing hcounts (hrecorded.works i hi' hf m hm)
        · rw [← Option.some.inj hstep]
          exact h.setPc_none rfl
      · cases hstep
  | send t work =>
      unfold Issuing.step at hstep
      dsimp only at hstep
      split at hstep
      · rename_i call n hpc
        cases work with
        | none =>
            rw [← Option.some.inj hstep]
            exact h.setPc_none rfl
        | some c =>
            dsimp only at hstep
            split at hstep
            · rw [← Option.some.inj hstep]
              have hissued : (z.issue ⟨c, call.target, call.mark⟩).Waited := by
                intro u s k hu i hi hdue
                have hk : k ≤ z.issued := IssuerPc.Since.le (hdated u) hu
                have hne : i ≠ z.issued := Nat.ne_of_lt (Nat.lt_of_lt_of_le hi hk)
                simp only [issue, Function.update_of_ne hne] at hdue
                exact h u s k hu i hi hdue
              exact hissued.setPc_none rfl
            · cases hstep
      · cases hstep
  | reply t ok =>
      unfold Issuing.step at hstep
      dsimp only at hstep
      split at hstep
      · rename_i call n m hpc
        have hn := hdated t
        rw [hpc] at hn
        split at hstep
        · rename_i hwaits
          rw [← Option.some.inj hstep]
          refine h.setPc fun s k hsynced i hi hdue => ?_
          unfold IssuerPc.synced at hsynced
          split at hsynced
          · rename_i heq
            obtain ⟨rfl, rfl, rfl⟩ := IssuerPc.replied.inj heq
            obtain ⟨rfl, rfl⟩ := Prod.mk.inj (Option.some.inj hsynced)
            exact hwaits rfl i (Nat.lt_of_lt_of_le hi hn.1) hdue
          · rename_i heq
            cases heq
          · cases hsynced
        · cases hstep
      · cases hstep
  | settle t =>
      unfold Issuing.step at hstep
      dsimp only at hstep
      split at hstep
      · rename_i call n ok hpc
        have ht := h t
        rw [hpc] at ht
        rw [← Option.some.inj hstep]
        have hsame : ({ z with record := if ok || call.alwaysSettles then z.record.settle call.settled
          else z.record } : Issuing).Waited := h
        refine hsame.setPc fun s k hsynced => ht s k ?_
        rw [← hsynced]
        cases call <;> cases ok <;> rfl
      · cases hstep
  | leave t =>
      unfold Issuing.step at hstep
      dsimp only at hstep
      split at hstep
      · rw [← Option.some.inj hstep]
        exact h.setPc_none rfl
      · cases hstep
  | finish i =>
      unfold Issuing.step at hstep
      dsimp only at hstep
      split at hstep
      · rw [← Option.some.inj hstep]
        intro u s n hu j hj hdue
        dsimp only
        rw [Function.update_apply]
        split
        · rfl
        · exact h u s n hu j hj hdue
      · cases hstep

/-- A kernel on stream 7, and a synchronize that waits for it. -/
def launchThenWait : List IssuerAction :=
  [.enter 1 (.computes 7), .record 1, .send 1 (some 0), .reply 1 true, .settle 1, .leave 1,
    .enter 1 (.synchronize 7), .look 1 true, .send 1 none, .finish 0, .reply 1 true]

end Issuing

end Rgpu
