import Rgpu.Foundations.StepSystem
import Rgpu.Foundations.Copies

/-! # What the client knows of library handles (`client/cublas_impl.cpp`, `client/cudnn_impl.cpp`)

The pointer mode of a handle decides how alpha and beta travel, and its stream what a matrix multiply counts as
work on. Both are set through the client, which keeps a record of its own under the handle's value. For cuBLAS
the record follows the server, once it has answered; for cuDNN the server follows the record.

* **`CublasHandles.step`**, **`CudnnHandles.step`** — threads that create, set and destroy handles, and the
  server.
* **`handles_recorded`** — for every run in which no update overtakes a later one: what is recorded of a handle
  that no call is at is what the server's has.
* **`mode_not_recorded`** — a run in which the reply to a call that was applied reports an earlier failure. -/

namespace Rgpu

open Foundations

/-- What is recorded of a handle: `g_streams` and `g_modes`. Each value is a number; 0 is the default stream,
and `CUBLAS_POINTER_MODE_HOST`. -/
inductive HandleAttr
  | stream | mode
  deriving DecidableEq, Repr

/-! ### cuBLAS -/

/-- Where a thread is in a call. -/
inductive CublasPc
  | idle
  | creating
  | setting (a : HandleAttr) (h v : ℕ)
  /-- The server has applied it, as the update of number `k`, and reported success. -/
  | noting (a : HandleAttr) (h v k : ℕ)
  | destroying (h : ℕ)
  /-- The server has answered: the entries of the handle are to be erased, that of its stream first. -/
  | erasing (h k k' : ℕ)
  | erasingMode (h k : ℕ)
  deriving DecidableEq, Repr

namespace CublasPc

/-- What the thread is still to do to an entry: the number of the update, and what is then read off it. -/
def due : CublasPc → HandleAttr × ℕ → Option (ℕ × ℕ)
  | noting a h v k, key => if key = (a, h) then some (k, v) else none
  | erasing h k k', key => if key = (.stream, h) then some (k, 0) else if key = (.mode, h) then some (k', 0) else none
  | erasingMode h k, key => if key = (.mode, h) then some (k, 0) else none
  | idle, _ | creating, _ | setting _ _ _, _ | destroying _, _ => none

/-- The thread is in a call on the handle. A destroy that the server has answered is on none. -/
def On (h : ℕ) : CublasPc → Prop
  | setting _ h' _ | noting _ h' _ _ | destroying h' => h' = h
  | idle | creating | erasing _ _ _ | erasingMode _ _ => False

/-- What is to be written is what a call has set, or an entry is to be erased. -/
theorem due_cases {pc : CublasPc} {a : HandleAttr} {h k v : ℕ} (hdue : pc.due (a, h) = some (k, v)) :
    pc = .noting a h v k ∨ v = 0 := by
  unfold due at hdue
  split at hdue
  · split at hdue
    · rename_i hkey
      obtain ⟨rfl, rfl⟩ := Prod.mk.inj hkey
      obtain ⟨rfl, rfl⟩ := Prod.mk.inj (Option.some.inj hdue)
      exact Or.inl rfl
    · cases hdue
  · split at hdue
    · exact Or.inr (Prod.mk.inj (Option.some.inj hdue)).2.symm
    · split at hdue
      · exact Or.inr (Prod.mk.inj (Option.some.inj hdue)).2.symm
      · cases hdue
  · split at hdue
    · exact Or.inr (Prod.mk.inj (Option.some.inj hdue)).2.symm
    · cases hdue
  all_goals cases hdue

end CublasPc

/-- The client and the server. An entry that is not there is read as 0, and so is a handle that is not live. The
numbers of the updates of a handle are not in the code. -/
structure CublasHandles where
  record : HandleAttr × ℕ → Option ℕ := fun _ => none
  server : HandleAttr × ℕ → ℕ := fun _ => 0
  live : ℕ → Bool := fun _ => false
  pc : ℕ → CublasPc := fun _ => .idle
  /-- How often the server's has been updated, and the number of the update that was last recorded. -/
  issued : HandleAttr × ℕ → ℕ := fun _ => 0
  reached : HandleAttr × ℕ → ℕ := fun _ => 0

/-- What a thread does, and what the server does for it: whether it applies a call, and whether it reports
`CUBLAS_STATUS_SUCCESS`. -/
inductive CublasAction
  | create (t : ℕ)
  /-- A handle is made, under a value that no other has; or none is. -/
  | serveCreate (t : ℕ) (made : Option ℕ)
  | set (t : ℕ) (a : HandleAttr) (h v : ℕ)
  | serveSet (t : ℕ) (applied reported : Bool)
  | note (t : ℕ)
  | destroy (t h : ℕ)
  | serveDestroy (t : ℕ) (applied : Bool)
  | erase (t : ℕ)
  | eraseMode (t : ℕ)
  deriving DecidableEq, Repr

namespace CublasHandles

/-- What the client reads: `pointer_mode`, and the stream of `computes`. -/
def recorded (s : CublasHandles) (key : HandleAttr × ℕ) : ℕ := (s.record key).getD 0

/-- A thread goes on. -/
def setPc (s : CublasHandles) (t : ℕ) (pc : CublasPc) : CublasHandles := { s with pc := Function.update s.pc t pc }

/-- The server's is updated. -/
def update (s : CublasHandles) (key : HandleAttr × ℕ) (v : ℕ) : CublasHandles :=
  { s with server := Function.update s.server key v, issued := Function.update s.issued key (s.issued key + 1) }

/-- An entry is written or erased. -/
def write (s : CublasHandles) (key : HandleAttr × ℕ) (entry : Option ℕ) (k : ℕ) : CublasHandles :=
  { s with record := Function.update s.record key entry, reached := Function.update s.reached key k }

/-- The handle is gone from the server, where it was: there is nothing of it any more. -/
def gone (s : CublasHandles) (h : ℕ) (applied : Bool) : CublasHandles :=
  { s with
    server := fun key => if key.2 = h ∧ applied = true then 0 else s.server key
    live := fun h' => if h' = h ∧ applied = true then false else s.live h'
    issued := fun key => if key.2 = h then s.issued key + 1 else s.issued key }

/-- One step. -/
def step (s : CublasHandles) : CublasAction → Option CublasHandles
  | .create t =>
      match s.pc t with
      | .idle => some (s.setPc t .creating)
      | _ => none
  | .serveCreate t made =>
      match s.pc t, made with
      | .creating, none => some (s.setPc t .idle)
      | .creating, some h =>
          if s.live h = true then none
          else some ({ s with live := Function.update s.live h true }.setPc t .idle)
      | _, _ => none
  | .set t a h v =>
      match s.pc t with
      | .idle => some (s.setPc t (.setting a h v))
      | _ => none
  | .serveSet t applied reported =>
      match s.pc t with
      | .setting a h v =>
          if applied then
            if s.live h = true then
              let s := s.update (a, h) v
              if reported then some (s.setPc t (.noting a h v (s.issued (a, h)))) else some (s.setPc t .idle)
            else none
          -- a failure is reported
          else if reported then none
          else some (s.setPc t .idle)
      | _ => none
  | .note t =>
      match s.pc t with
      | .noting a h v k => some ((s.write (a, h) (some v) k).setPc t .idle)
      | _ => none
  | .destroy t h =>
      match s.pc t with
      | .idle => some (s.setPc t (.destroying h))
      | _ => none
  | .serveDestroy t applied =>
      match s.pc t with
      | .destroying h =>
          if applied = true ∧ s.live h = false then none
          else
            let s := s.gone h applied
            -- whatever the status
            some (s.setPc t (.erasing h (s.issued (.stream, h)) (s.issued (.mode, h))))
      | _ => none
  | .erase t =>
      match s.pc t with
      | .erasing h k k' => some ((s.write (.stream, h) none k).setPc t (.erasingMode h k'))
      | _ => none
  | .eraseMode t =>
      match s.pc t with
      | .erasingMode h k => some ((s.write (.mode, h) none k).setPc t .idle)
      | _ => none

/-- No update overtakes a later one. A call reports success if it was applied, a handle that is there can be
destroyed, and a value is given to a new handle when nothing is recorded under it any more. What a call
records is not older than what is recorded; and on a handle that is there it is the last of what the server has
applied, or another call is still to record that. -/
def Careful (s : CublasHandles) : CublasAction → Prop
  | .serveCreate _ made => ∀ h ∈ made, ∀ a, s.recorded (a, h) = 0
  | .serveSet _ applied reported => applied = reported
  | .serveDestroy t applied => ∀ h, s.pc t = .destroying h → s.live h = true → applied = true
  | .note t => ∀ a h v k, s.pc t = .noting a h v k → s.reached (a, h) ≤ k ∧
      (s.live h = true → k = s.issued (a, h) ∨ ∃ u w, s.pc u = .noting a h w (s.issued (a, h)))
  | .erase t => ∀ h k k', s.pc t = .erasing h k k' → s.reached (.stream, h) ≤ k
  | .eraseMode t => ∀ h k, s.pc t = .erasingMode h k → s.reached (.mode, h) ≤ k
  | .create _ | .set _ _ _ _ | .destroy _ _ => True

end CublasHandles

namespace CublasHandles

variable {s : CublasHandles} {t h k : ℕ} {a : HandleAttr}

/-- What is recorded is what the server has, or is about to be. -/
structure Kept (s : CublasHandles) : Prop where
  copies : ∀ key, Copies (s.server key) (s.recorded key) (s.issued key) (s.reached key)
    (OnTheWay fun t => (s.pc t).due key)
  dead : ∀ a h, s.live h = false → s.server (a, h) = 0
  fresh : ∀ a h, s.live h = true →
    s.recorded (a, h) = s.server (a, h) ∨ ∃ t v, s.pc t = .noting a h v (s.issued (a, h))

/-- Nothing is recorded in a process that has just begun. -/
theorem kept_init : Kept {} :=
  ⟨fun _ => Copies.init 0 fun _ _ ⟨_, h⟩ => (by cases h), fun _ _ _ => rfl, fun _ _ h => (by cases h)⟩

/-- What the threads are about to record, after one of them has moved. -/
theorem due_setPc (s : CublasHandles) (t : ℕ) (pc : CublasPc) (key : HandleAttr × ℕ) :
    (fun u => ((s.setPc t pc).pc u).due key) = Function.update (fun u => (s.pc u).due key) t (pc.due key) := by
  funext u
  simp only [setPc, Function.update_apply]
  split <;> rfl

/-- Moving a thread moves no other. -/
@[simp] theorem pc_setPc (s : CublasHandles) (t : ℕ) (pc : CublasPc) (u : ℕ) :
    (s.setPc t pc).pc u = if u = t then pc else s.pc u := Function.update_apply _ _ _ _

/-- Moving a thread changes nothing that is recorded. -/
@[simp] theorem recorded_setPc (s : CublasHandles) (t : ℕ) (pc : CublasPc) (key : HandleAttr × ℕ) :
    (s.setPc t pc).recorded key = s.recorded key := rfl

/-- Writing an entry changes what is recorded of that attribute of that handle, and `0` stands for
none. -/
@[simp] theorem recorded_write (s : CublasHandles) (key : HandleAttr × ℕ) (entry : Option ℕ) (k : ℕ)
    (key' : HandleAttr × ℕ) :
    (s.write key entry k).recorded key' = if key' = key then entry.getD 0 else s.recorded key' := by
  simp only [recorded, write, Function.update_apply]
  split <;> rfl

/-- A thread that is to write no entry goes on to what writes none. -/
theorem Kept.setPc (hs : s.Kept) {pc : CublasPc} (hbefore : ∀ key, (s.pc t).due key = none)
    (hafter : ∀ key, pc.due key = none) : (s.setPc t pc).Kept := by
  refine ⟨fun key => ?_, hs.dead, fun a h hlive => ?_⟩
  · rw [due_setPc]
    exact (hs.copies key).keep (by rw [hafter, hbefore])
  · refine (hs.fresh a h hlive).imp id fun ⟨u, v, hu⟩ => ⟨u, v, ?_⟩
    have hne : u ≠ t := by
      rintro rfl
      have hnone := hbefore (a, h)
      rw [hu, CublasPc.due, if_pos rfl] at hnone
      cases hnone
    rw [pc_setPc, if_neg hne]
    exact hu

/-- A handle is made under a value of which nothing is recorded. -/
theorem Kept.create (hs : s.Kept) (hnew : s.live h ≠ true) (hrecorded : ∀ a, s.recorded (a, h) = 0) :
    ({ s with live := Function.update s.live h true } : CublasHandles).Kept := by
  refine ⟨hs.copies, fun b g hg => ?_, fun b g hg => ?_⟩
  · dsimp only at hg
    rw [Function.update_apply] at hg
    split at hg
    · cases hg
    · exact hs.dead b g hg
  · dsimp only at hg
    rw [Function.update_apply] at hg
    split at hg
    · rename_i heq
      subst heq
      refine Or.inl ((hrecorded b).trans (hs.dead b g ?_).symm)
      exact eq_false_of_ne_true hnew
    · exact hs.fresh b g hg

/-- The server applies a call, and reports it. -/
theorem Kept.apply (hs : s.Kept) {v : ℕ} (hpc : s.pc t = .setting a h v) (hlive : s.live h = true) :
    ((s.update (a, h) v).setPc t (.noting a h v (s.issued (a, h) + 1))).Kept := by
  have hnone : ∀ key, (s.pc t).due key = none := by
    intro key
    rw [hpc]
    rfl
  refine ⟨fun key => ?_, fun b g hg => ?_, fun b g hg => ?_⟩
  · rw [due_setPc]
    simp only [CublasHandles.setPc, update, Function.update_apply, CublasPc.due]
    by_cases hkey : key = (a, h)
    · subst hkey
      rw [if_pos rfl, if_pos rfl, if_pos rfl]
      exact (hs.copies (a, h)).begin v (hnone _)
    · rw [if_neg hkey, if_neg hkey, if_neg hkey]
      exact (hs.copies key).keep (hnone key).symm
  · have hne : (b, g) ≠ (a, h) := by
      rintro heq
      obtain ⟨rfl, rfl⟩ := Prod.mk.inj heq
      rw [show s.live g = false from hg] at hlive
      cases hlive
    simp only [CublasHandles.setPc, update]
    rw [Function.update_of_ne hne]
    exact hs.dead b g hg
  · simp only [pc_setPc]
    simp only [CublasHandles.setPc, update, Function.update_apply, recorded]
    by_cases hkey : (b, g) = (a, h)
    · obtain ⟨rfl, rfl⟩ := Prod.mk.inj hkey
      rw [if_pos rfl]
      exact Or.inr ⟨t, v, by rw [if_pos rfl, if_pos rfl]⟩
    · rw [if_neg hkey, if_neg hkey]
      refine (hs.fresh b g hg).imp id fun ⟨u, w, hu⟩ => ⟨u, w, ?_⟩
      have hut : u ≠ t := by
        rintro rfl
        rw [hpc] at hu
        cases hu
      rw [if_neg hut]
      exact hu

/-- The server has answered a destroy: there is no such handle. -/
theorem Kept.gone (hs : s.Kept) {applied : Bool} (hpc : s.pc t = .destroying h)
    (happlied : s.live h = true → applied = true) :
    ((s.gone h applied).setPc t (.erasing h (s.issued (.stream, h) + 1) (s.issued (.mode, h) + 1))).Kept := by
  have hnone : ∀ key, (s.pc t).due key = none := by
    intro key
    rw [hpc]
    rfl
  have hzero : ∀ b, (s.gone h applied).server (b, h) = 0 := by
    intro b
    simp only [CublasHandles.gone]
    split
    · rfl
    · rename_i hnot
      refine hs.dead b h (eq_false_of_ne_true fun hlive => hnot ⟨trivial, happlied hlive⟩)
  have hother : ∀ key, key.2 ≠ h → (s.gone h applied).server key = s.server key :=
    fun key hne => if_neg fun hand => hne hand.1
  have hlive : ∀ g, (s.gone h applied).live g = true → g ≠ h ∧ s.live g = true := by
    intro g hg
    simp only [CublasHandles.gone] at hg
    split at hg
    · cases hg
    · rename_i hnot
      refine ⟨?_, hg⟩
      rintro rfl
      exact hnot ⟨rfl, happlied hg⟩
  refine ⟨fun key => ?_, fun b g hg => ?_, fun b g hg => ?_⟩
  -- both copies of the handle are now to be erased, under the numbers that the destroy was given
  · rw [due_setPc]
    obtain ⟨b, g⟩ := key
    by_cases hgh : g = h
    · subst hgh
      have hdue : (CublasPc.erasing g (s.issued (.stream, g) + 1) (s.issued (.mode, g) + 1)).due (b, g) =
          some (s.issued (b, g) + 1, 0) := by
        cases b <;> simp [CublasPc.due]
      have hissued : (s.gone g applied).issued (b, g) = s.issued (b, g) + 1 := if_pos rfl
      have hbegun := (hs.copies (b, g)).begin 0 (t := t) (hnone (b, g))
      rw [hdue]
      simp only [CublasHandles.setPc]
      rw [hzero, hissued]
      exact hbegun
    · have hdue : (CublasPc.erasing h (s.issued (.stream, h) + 1) (s.issued (.mode, h) + 1)).due (b, g) = none := by
        simp [CublasPc.due, hgh]
      have hissued : (s.gone h applied).issued (b, g) = s.issued (b, g) := if_neg hgh
      rw [hdue]
      simp only [CublasHandles.setPc]
      rw [hother (b, g) hgh, hissued]
      exact (hs.copies (b, g)).keep (hnone (b, g)).symm
  · by_cases hgh : g = h
    · subst hgh
      exact hzero b
    · have hdead : s.live g = false := by
        have hsame : (s.gone h applied).live g = s.live g := if_neg fun hand => hgh hand.1
        rw [← hsame]
        exact hg
      exact (hother (b, g) hgh).trans (hs.dead b g hdead)
  · obtain ⟨hgh, hg⟩ := hlive g hg
    have hissued : (s.gone h applied).issued (b, g) = s.issued (b, g) := if_neg hgh
    simp only [pc_setPc, recorded_setPc]
    simp only [CublasHandles.setPc]
    rw [hother (b, g) hgh, hissued]
    refine (hs.fresh b g hg).imp id fun ⟨u, w, hu⟩ => ⟨u, w, ?_⟩
    have hut : u ≠ t := by
      rintro rfl
      rw [hpc] at hu
      cases hu
    rw [if_neg hut]
    exact hu

/-- An entry is written, by a call that has no other entry to write than it goes on to. -/
theorem Kept.write (hs : s.Kept) {pc : CublasPc} {entry : Option ℕ} {v : ℕ}
    (hdue : (s.pc t).due (a, h) = some (k, v)) (hentry : entry.getD 0 = v) (hdone : pc.due (a, h) = none)
    (hothers : ∀ key, key ≠ (a, h) → pc.due key = (s.pc t).due key) (hlate : s.reached (a, h) ≤ k)
    (hnoting : ∀ b g w j, s.pc t = .noting b g w j → b = a ∧ g = h ∧ j = k)
    (hlast : s.live h = true → k = s.issued (a, h) ∨
      (∃ u w, u ≠ t ∧ s.pc u = .noting a h w (s.issued (a, h))) ∨ v = s.server (a, h)) :
    ((s.write (a, h) entry k).setPc t pc).Kept := by
  refine ⟨fun key => ?_, hs.dead, fun b g hg => ?_⟩
  · rw [due_setPc]
    simp only [recorded_setPc, recorded_write]
    by_cases hkey : key = (a, h)
    · subst hkey
      rw [hdone, if_pos rfl, hentry]
      simp only [CublasHandles.setPc, CublasHandles.write, Function.update_self]
      exact (hs.copies (a, h)).finish hdue hlate
    · rw [hothers key hkey, if_neg hkey]
      simp only [CublasHandles.setPc, CublasHandles.write, Function.update_of_ne hkey]
      exact (hs.copies key).keep rfl
  · simp only [pc_setPc, recorded_setPc, recorded_write]
    by_cases hkey : (b, g) = (a, h)
    · obtain ⟨rfl, rfl⟩ := Prod.mk.inj hkey
      rw [if_pos rfl, hentry]
      rcases hlast hg with rfl | ⟨u, w, hut, hu⟩ | heq
      · exact Or.inl ((hs.copies (b, g)).same v ⟨t, hdue⟩)
      · exact Or.inr ⟨u, w, by rw [if_neg hut]; exact hu⟩
      · exact Or.inl heq
    · rw [if_neg hkey]
      refine (hs.fresh b g hg).imp id fun ⟨u, w, hu⟩ => ⟨u, w, ?_⟩
      have hut : u ≠ t := by
        rintro rfl
        obtain ⟨rfl, rfl, -⟩ := hnoting b g w _ hu
        exact hkey rfl
      rw [if_neg hut]
      exact hu

/-- What an entry is erased for is the last update, or that is still to be recorded, or there is nothing to
record. -/
theorem Kept.erasable (hs : s.Kept) (hdue : (s.pc t).due (a, h) = some (k, 0)) (hlate : s.reached (a, h) ≤ k)
    (hnot : ∀ v j, s.pc t ≠ .noting a h v j) (hlive : s.live h = true) :
    k = s.issued (a, h) ∨ (∃ u w, u ≠ t ∧ s.pc u = .noting a h w (s.issued (a, h))) ∨ 0 = s.server (a, h) := by
  have hcopies := hs.copies (a, h)
  have hbound := hcopies.bound k 0 ⟨t, hdue⟩
  rcases hs.fresh a h hlive with heq | ⟨u, w, hu⟩
  · rcases hcopies.last with ⟨hreached, -⟩ | ⟨u, hu⟩
    · exact Or.inl (by omega)
    · -- the last update is on its way: with a call that sets, or with a destroy
      rcases CublasPc.due_cases hu with hpc | hzero
      · refine Or.inr (Or.inl ⟨u, _, ?_, hpc⟩)
        rintro rfl
        exact hnot _ _ hpc
      · exact Or.inr (Or.inr hzero.symm)
  · refine Or.inr (Or.inl ⟨u, w, ?_, hu⟩)
    rintro rfl
    exact hnot _ _ hu

/-- **The step lemma.** -/
theorem Kept.step (hs : s.Kept) {c : CublasAction} {s' : CublasHandles} (hcareful : s.Careful c)
    (hstep : s.step c = some s') : s'.Kept := by
  cases c with
  | create t =>
      unfold CublasHandles.step at hstep
      dsimp only at hstep
      split at hstep
      · rename_i hpc
        rw [← Option.some.inj hstep]
        exact hs.setPc (fun key => by rw [hpc]; rfl) fun _ => rfl
      · cases hstep
  | serveCreate t made =>
      unfold CublasHandles.step at hstep
      dsimp only at hstep
      split at hstep
      · rename_i hpc
        rw [← Option.some.inj hstep]
        exact hs.setPc (fun key => by rw [hpc]; rfl) fun _ => rfl
      · rename_i h hpc
        split at hstep
        · cases hstep
        · rename_i hnew
          rw [← Option.some.inj hstep]
          refine (hs.create hnew (hcareful h rfl)).setPc (fun key => ?_) fun _ => rfl
          dsimp only
          rw [hpc]
          rfl
      · cases hstep
  | set t a h v =>
      unfold CublasHandles.step at hstep
      dsimp only at hstep
      split at hstep
      · rename_i hpc
        rw [← Option.some.inj hstep]
        exact hs.setPc (fun key => by rw [hpc]; rfl) fun _ => rfl
      · cases hstep
  | serveSet t applied reported =>
      unfold CublasHandles.step at hstep
      dsimp only at hstep
      split at hstep
      · rename_i a h v hpc
        obtain rfl : applied = reported := hcareful
        -- what the server reports is what it did, so that the client notes a set only if it was applied
        cases applied with
        | true =>
            simp only [if_true] at hstep
            split at hstep
            · rename_i hlive
              rw [← Option.some.inj hstep]
              have happlied := hs.apply hpc hlive
              have hnumber : (s.update (a, h) v).issued (a, h) = s.issued (a, h) + 1 := Function.update_self _ _ _
              rw [hnumber]
              exact happlied
            · cases hstep
        | false =>
            rw [← Option.some.inj hstep]
            exact hs.setPc (fun key => by rw [hpc]; rfl) fun _ => rfl
      · cases hstep
  | note t =>
      unfold CublasHandles.step at hstep
      dsimp only at hstep
      split at hstep
      · rename_i a h v k hpc
        rw [← Option.some.inj hstep]
        obtain ⟨hlate, hlast⟩ := hcareful a h v k hpc
        -- the write is of the last number there is, or another thread is to note that one
        refine hs.write (v := v) (by rw [hpc, CublasPc.due, if_pos rfl]) rfl rfl (fun key hkey => ?_) hlate
          (fun b g w j hother => ?_) fun hlive => ?_
        · rw [hpc, CublasPc.due, CublasPc.due, if_neg hkey]
        · rw [hpc] at hother
          obtain ⟨rfl, rfl, -, rfl⟩ := CublasPc.noting.inj hother
          exact ⟨rfl, rfl, rfl⟩
        · rcases hlast hlive with heq | ⟨u, w, hu⟩
          · exact Or.inl heq
          · by_cases hut : u = t
            · subst hut
              rw [hpc] at hu
              obtain ⟨-, -, -, heq⟩ := CublasPc.noting.inj hu
              exact Or.inl heq
            · exact Or.inr (Or.inl ⟨u, w, hut, hu⟩)
      · cases hstep
  | destroy t h =>
      unfold CublasHandles.step at hstep
      dsimp only at hstep
      split at hstep
      · rename_i hpc
        rw [← Option.some.inj hstep]
        exact hs.setPc (fun key => by rw [hpc]; rfl) fun _ => rfl
      · cases hstep
  | serveDestroy t applied =>
      unfold CublasHandles.step at hstep
      dsimp only at hstep
      split at hstep
      · rename_i h hpc
        split at hstep
        · cases hstep
        · rw [← Option.some.inj hstep]
          have hgone := hs.gone hpc (hcareful h hpc)
          have hnumber : ∀ a, (s.gone h applied).issued (a, h) = s.issued (a, h) + 1 := fun a => if_pos rfl
          rw [hnumber, hnumber]
          exact hgone
      · cases hstep
  | erase t =>
      unfold CublasHandles.step at hstep
      dsimp only at hstep
      split at hstep
      · rename_i h k k' hpc
        rw [← Option.some.inj hstep]
        have hdue : (s.pc t).due (.stream, h) = some (k, 0) := by rw [hpc, CublasPc.due, if_pos rfl]
        have hlate := hcareful h k k' hpc
        -- there may be a handle of that name again: its value is zero, or a later call is to record it
        refine hs.write hdue rfl (by simp [CublasPc.due]) (fun key hkey => ?_) hlate (fun b g w j hother => ?_)
          fun hlive => hs.erasable hdue hlate (fun v j hother => ?_) hlive
        · rw [hpc, CublasPc.due, CublasPc.due, if_neg hkey]
        · rw [hpc] at hother
          cases hother
        · rw [hpc] at hother
          cases hother
      · cases hstep
  | eraseMode t =>
      unfold CublasHandles.step at hstep
      dsimp only at hstep
      split at hstep
      · rename_i h k hpc
        rw [← Option.some.inj hstep]
        have hdue : (s.pc t).due (.mode, h) = some (k, 0) := by rw [hpc, CublasPc.due, if_pos rfl]
        have hlate := hcareful h k hpc
        refine hs.write hdue rfl rfl (fun key hkey => ?_) hlate (fun b g w j hother => ?_)
          fun hlive => hs.erasable hdue hlate (fun v j hother => ?_) hlive
        · rw [hpc, CublasPc.due, CublasPc.due, if_neg hkey]
        · rw [hpc] at hother
          cases hother
        · rw [hpc] at hother
          cases hother
      · cases hstep

/-- What is recorded of a handle that is there, and that no call is at, is what the server's has. -/
def Recorded (s : CublasHandles) : Prop :=
  ∀ h, s.live h = true → (∀ t, ¬(s.pc t).On h) → ∀ a, s.recorded (a, h) = s.server (a, h)

/-- The invariant gives what is asked of the record. -/
theorem Kept.recorded (hs : s.Kept) : s.Recorded := by
  intro h hlive hnone a
  rcases hs.fresh a h hlive with heq | ⟨t, v, ht⟩
  · exact heq
  · refine absurd ?_ (hnone t)
    rw [ht]
    exact rfl

/-- It holds in every run along `Careful`. -/
theorem always_recorded : Always step Careful {} Recorded :=
  (Always.of_step kept_init fun _ _ _ hs hcareful hstep => hs.step hcareful hstep).imp fun _ hs => hs.recorded

end CublasHandles

/-! ### cuDNN -/

/-- Where a thread is in a call. -/
inductive CudnnPc
  | idle
  | creating
  | setting (h v : ℕ)
  /-- Recorded, as the update of number `k`. -/
  | noted (h v k : ℕ)
  | destroying (h : ℕ)
  | erased (h k : ℕ)
  /-- The destroy has been sent. -/
  | waiting (h : ℕ)
  deriving DecidableEq, Repr

/-- What has been sent: a set goes one way, and the thread that destroys waits for the reply. -/
inductive CudnnRequest
  | setStream (h v k : ℕ)
  | destroy (t h k : ℕ)
  deriving DecidableEq, Repr

/-- The update that the thread is still to send. -/
def CudnnPc.due : CudnnPc → ℕ → Option (ℕ × ℕ)
  | noted h v k, g => if g = h then some (k, v) else none
  | erased h k, g => if g = h then some (k, 0) else none
  | idle, _ | creating, _ | setting _ _, _ | destroying _, _ | waiting _, _ => none

/-- The update that has been sent. -/
def CudnnRequest.due : CudnnRequest → ℕ → Option (ℕ × ℕ)
  | setStream h v k, g => if g = h then some (k, v) else none
  | destroy _ h k, g => if g = h then some (k, 0) else none

/-- The thread is in a call on the handle. -/
def CudnnPc.On (h : ℕ) : CudnnPc → Prop
  | setting h' _ | noted h' _ _ | destroying h' | erased h' _ | waiting h' => h' = h
  | idle | creating => False

/-- The request is for the handle. -/
def CudnnRequest.On (h : ℕ) : CudnnRequest → Prop
  | setStream h' _ _ | destroy _ h' _ => h' = h

/-- A thread that is about to set something of a handle is on that handle. -/
theorem CudnnPc.on_of_due {pc : CudnnPc} {h : ℕ} {x : ℕ × ℕ} (hdue : pc.due h = some x) : pc.On h := by
  unfold due at hdue
  split at hdue
  · split at hdue
    · rename_i heq
      exact heq.symm
    · cases hdue
  · split at hdue
    · rename_i heq
      exact heq.symm
    · cases hdue
  all_goals cases hdue

/-- A request that is to set something of a handle is on that handle. -/
theorem CudnnRequest.on_of_due {r : CudnnRequest} {h : ℕ} {x : ℕ × ℕ} (hdue : r.due h = some x) : r.On h := by
  cases r <;>
  · rw [due] at hdue
    split at hdue
    · rename_i heq
      exact heq.symm
    · cases hdue

/-- The client and the server, as for cuBLAS. -/
structure CudnnHandles where
  /-- `g_streams`. -/
  record : ℕ → Option ℕ := fun _ => none
  server : ℕ → ℕ := fun _ => 0
  live : ℕ → Bool := fun _ => false
  /-- What the server has still to do, in order. -/
  queue : List CudnnRequest := []
  pc : ℕ → CudnnPc := fun _ => .idle
  /-- How often an entry has been updated, and the number of the update that the server had last. -/
  issued : ℕ → ℕ := fun _ => 0
  reached : ℕ → ℕ := fun _ => 0

/-- What a thread or the server does. -/
inductive CudnnAction
  | create (t : ℕ)
  | serveCreate (t : ℕ) (made : Option ℕ)
  | set (t h v : ℕ)
  | destroy (t h : ℕ)
  /-- The entry is written, or erased. -/
  | note (t : ℕ)
  | send (t : ℕ)
  /-- The server does what is first in the queue, or fails to. -/
  | serve (applied : Bool)
  deriving DecidableEq, Repr

namespace CudnnHandles

variable {s : CudnnHandles} {t h k v : ℕ}

/-- What `computes` reads. -/
def recorded (s : CudnnHandles) (h : ℕ) : ℕ := (s.record h).getD 0

/-- A thread goes on. -/
def setPc (s : CudnnHandles) (t : ℕ) (pc : CudnnPc) : CudnnHandles := { s with pc := Function.update s.pc t pc }

/-- An entry is updated. -/
def write (s : CudnnHandles) (h : ℕ) (entry : Option ℕ) : CudnnHandles :=
  { s with record := Function.update s.record h entry, issued := Function.update s.issued h (s.issued h + 1) }

/-- The server has had the update that was first in the queue. -/
def deliver (s : CudnnHandles) (rest : List CudnnRequest) (h v k : ℕ) : CudnnHandles :=
  { s with queue := rest, server := Function.update s.server h v, reached := Function.update s.reached h k }

/-- One step. -/
def step (s : CudnnHandles) : CudnnAction → Option CudnnHandles
  | .create t =>
      match s.pc t with
      | .idle => some (s.setPc t .creating)
      | _ => none
  | .serveCreate t made =>
      match s.pc t, made with
      | .creating, none => some (s.setPc t .idle)
      | .creating, some h =>
          if s.live h = true then none
          else some ({ s with live := Function.update s.live h true }.setPc t .idle)
      | _, _ => none
  | .set t h v =>
      match s.pc t with
      | .idle => some (s.setPc t (.setting h v))
      | _ => none
  | .destroy t h =>
      match s.pc t with
      | .idle => some (s.setPc t (.destroying h))
      | _ => none
  | .note t =>
      match s.pc t with
      | .setting h v => some ((s.write h (some v)).setPc t (.noted h v (s.issued h + 1)))
      | .destroying h => some ((s.write h none).setPc t (.erased h (s.issued h + 1)))
      | _ => none
  | .send t =>
      match s.pc t with
      | .noted h v k => some ({ s with queue := s.queue ++ [CudnnRequest.setStream h v k] }.setPc t .idle)
      | .erased h k => some ({ s with queue := s.queue ++ [CudnnRequest.destroy t h k] }.setPc t (.waiting h))
      | _ => none
  | .serve applied =>
      match s.queue with
      | [] => none
      | .setStream h v k :: rest =>
          if applied then if s.live h = true then some (s.deliver rest h v k) else none
          -- the failure is kept for the reply to a later call
          else some { s with queue := rest }
      | .destroy t h k :: rest =>
          match s.pc t with
          | .waiting _ =>
              if applied then
                if s.live h = true then
                  some (({ s with live := Function.update s.live h false }.deliver rest h 0 k).setPc t .idle)
                else none
              else some ((s.deliver rest h (s.server h) k).setPc t .idle)
          | _ => none

/-- No update overtakes a later one: the server applies every call, or there is nothing to destroy, and on
each handle in the order in which they were recorded. -/
def Careful (s : CudnnHandles) : CudnnAction → Prop
  | .serve applied =>
      match s.queue with
      | [] => True
      | .setStream h _ k :: _ => applied = true ∧ s.reached h ≤ k
      | .destroy _ h k :: _ => applied = s.live h ∧ s.reached h ≤ k
  | _ => True

/-- The update is with a thread, or has been sent. -/
def Pending (s : CudnnHandles) (h k v : ℕ) : Prop :=
  (∃ t, (s.pc t).due h = some (k, v)) ∨ ∃ r ∈ s.queue, r.due h = some (k, v)

/-- What the server has is what is recorded, or is about to be. -/
structure Kept (s : CudnnHandles) : Prop where
  copies : ∀ h, Copies (s.recorded h) (s.server h) (s.issued h) (s.reached h) (s.Pending h)
  dead : ∀ h, s.live h = false → s.server h = 0

/-- Nothing is recorded in a process that has just begun. -/
theorem kept_init : Kept {} := by
  refine ⟨fun h => Copies.init 0 fun k w hpending => ?_, fun _ _ => rfl⟩
  rcases hpending with ⟨t, ht⟩ | ⟨r, hr, -⟩
  · cases ht
  · cases hr

/-- Moving a thread moves no other. -/
@[simp] theorem pc_setPc (s : CudnnHandles) (t : ℕ) (pc : CudnnPc) (u : ℕ) :
    (s.setPc t pc).pc u = if u = t then pc else s.pc u := Function.update_apply _ _ _ _

/-- What is on its way when a thread goes on. -/
theorem pending_setPc (s : CudnnHandles) (t : ℕ) (pc : CudnnPc) (h k v : ℕ) :
    (s.setPc t pc).Pending h k v ↔ pc.due h = some (k, v) ∨
      (∃ u, u ≠ t ∧ (s.pc u).due h = some (k, v)) ∨ ∃ r ∈ s.queue, r.due h = some (k, v) := by
  constructor
  · rintro (⟨u, hu⟩ | hr)
    · rw [pc_setPc] at hu
      split at hu
      · exact Or.inl hu
      · rename_i hut
        exact Or.inr (Or.inl ⟨u, hut, hu⟩)
    · exact Or.inr (Or.inr hr)
  · rintro (hpc | ⟨u, hut, hu⟩ | hr)
    · exact Or.inl ⟨t, by rw [pc_setPc, if_pos rfl]; exact hpc⟩
    · exact Or.inl ⟨u, by rw [pc_setPc, if_neg hut]; exact hu⟩
    · exact Or.inr hr

/-- What is pending beside a thread that has nothing of the handle to set. -/
theorem pending_of_none {g : ℕ} (hnone : (s.pc t).due g = none) (k v : ℕ) :
    s.Pending g k v ↔ (∃ u, u ≠ t ∧ (s.pc u).due g = some (k, v)) ∨ ∃ r ∈ s.queue, r.due g = some (k, v) := by
  refine or_congr ⟨fun ⟨u, hu⟩ => ⟨u, ?_, hu⟩, fun ⟨u, _, hu⟩ => ⟨u, hu⟩⟩ Iff.rfl
  rintro rfl
  rw [hnone] at hu
  cases hu

/-- A thread that has no update goes on to where it has none. -/
theorem Kept.setPc (hs : s.Kept) {pc : CudnnPc} (hbefore : ∀ g, (s.pc t).due g = none)
    (hafter : ∀ g, pc.due g = none) : (s.setPc t pc).Kept := by
  refine ⟨fun g => (hs.copies g).congr fun k v => ?_, hs.dead⟩
  rw [pending_setPc, pending_of_none (hbefore g), hafter g]
  simp

/-- A thread updates an entry. -/
theorem Kept.note (hs : s.Kept) {pc : CudnnPc} {entry : Option ℕ} (hbefore : ∀ g, (s.pc t).due g = none)
    (hdue : pc.due h = some (s.issued h + 1, entry.getD 0)) (hothers : ∀ g, g ≠ h → pc.due g = none) :
    ((s.write h entry).setPc t pc).Kept := by
  refine ⟨fun g => ?_, hs.dead⟩
  by_cases hgh : g = h
  · subst hgh
    have hupdated : Copies (entry.getD 0) (s.server g) (s.issued g + 1) (s.reached g)
        (((s.write g entry).setPc t pc).Pending g) :=
      (hs.copies g).update (entry.getD 0) fun k v => by
        rw [pending_setPc, pending_of_none (hbefore g), hdue]
        simp only [write, Option.some.injEq, Prod.mk.injEq]
        rw [or_comm]
        exact or_congr Iff.rfl ⟨fun h => ⟨h.1.symm, h.2.symm⟩, fun h => ⟨h.1.symm, h.2.symm⟩⟩
    simpa only [recorded, CudnnHandles.setPc, write, Function.update_self] using hupdated
  · have hsame : Copies (s.recorded g) (s.server g) (s.issued g) (s.reached g)
        (((s.write h entry).setPc t pc).Pending g) := (hs.copies g).congr fun k v => by
      rw [pending_setPc, pending_of_none (hbefore g), hothers g hgh]
      simp [write]
    simpa only [recorded, CudnnHandles.setPc, write, Function.update_of_ne hgh] using hsame

/-- An update is sent. -/
theorem Kept.send (hs : s.Kept) {pc : CudnnPc} {r : CudnnRequest} (hsent : ∀ g, r.due g = (s.pc t).due g)
    (hafter : ∀ g, pc.due g = none) : ({ s with queue := s.queue ++ [r] }.setPc t pc : CudnnHandles).Kept := by
  refine ⟨fun g => (hs.copies g).congr fun k v => ?_, hs.dead⟩
  rw [pending_setPc, hafter g]
  constructor
  · rintro (hnone | ⟨u, -, hu⟩ | ⟨r', hr', hdue⟩)
    · cases hnone
    · exact Or.inl ⟨u, hu⟩
    · rcases List.mem_append.mp hr' with hr' | hr'
      · exact Or.inr ⟨r', hr', hdue⟩
      · rw [List.mem_singleton.mp hr', hsent] at hdue
        exact Or.inl ⟨t, hdue⟩
  · rintro (⟨u, hu⟩ | ⟨r', hr', hdue⟩)
    · by_cases hut : u = t
      · subst hut
        refine Or.inr (Or.inr ⟨r, List.mem_append_right _ (List.mem_singleton_self r), ?_⟩)
        rw [hsent]
        exact hu
      · exact Or.inr (Or.inl ⟨u, hut, hu⟩)
    · exact Or.inr (Or.inr ⟨r', List.mem_append_left _ hr', hdue⟩)

/-- What is first in the queue reaches the server. -/
theorem Kept.deliver (hs : s.Kept) {r : CudnnRequest} {rest : List CudnnRequest} (hqueue : s.queue = r :: rest)
    (hdue : r.due h = some (k, v)) (hothers : ∀ g, g ≠ h → r.due g = none) (hlate : s.reached h ≤ k)
    {live : ℕ → Bool} (hdead : live h = false → v = 0) (hlive : ∀ g, g ≠ h → live g = s.live g) :
    ({ s with live := live }.deliver rest h v k : CudnnHandles).Kept := by
  have hfewer : ∀ g j w, ({ s with live := live }.deliver rest h v k : CudnnHandles).Pending g j w →
      s.Pending g j w := by
    intro g j w hpending
    refine hpending.imp id fun ⟨r', hr', hdue'⟩ => ⟨r', ?_, hdue'⟩
    rw [hqueue]
    exact List.mem_cons_of_mem _ hr'
  refine ⟨fun g => ?_, fun g hg => ?_⟩
  · by_cases hgh : g = h
    · subst hgh
      have hmem : r ∈ s.queue := by
        rw [hqueue]
        exact List.mem_cons_self
      have hdelivered : Copies (s.recorded g) v (s.issued g) k
          (({ s with live := live }.deliver rest g v k : CudnnHandles).Pending g) :=
        (hs.copies g).deliver (Or.inr ⟨r, hmem, hdue⟩) hlate (hfewer g) fun j w hjk hpending => by
          refine hpending.imp id fun ⟨r', hr', hdue'⟩ => ⟨r', ?_, hdue'⟩
          rw [hqueue] at hr'
          rcases List.mem_cons.mp hr' with rfl | hr'
          · rw [hdue] at hdue'
            exact absurd (Prod.mk.inj (Option.some.inj hdue')).1.symm hjk
          · exact hr'
      simpa only [recorded, CudnnHandles.deliver, Function.update_self] using hdelivered
    · have hsame : Copies (s.recorded g) (s.server g) (s.issued g) (s.reached g)
          (({ s with live := live }.deliver rest h v k : CudnnHandles).Pending g) := (hs.copies g).congr fun j w => by
        refine ⟨hfewer g j w, fun hpending => hpending.imp id fun ⟨r', hr', hdue'⟩ => ⟨r', ?_, hdue'⟩⟩
        rw [hqueue] at hr'
        rcases List.mem_cons.mp hr' with rfl | hr'
        · rw [hothers g hgh] at hdue'
          cases hdue'
        · exact hr'
      simpa only [recorded, CudnnHandles.deliver, Function.update_of_ne hgh] using hsame
  · simp only [CudnnHandles.deliver, Function.update_apply]
    split
    · rename_i heq
      exact hdead (heq ▸ hg)
    · rename_i hne
      exact hs.dead g ((hlive g hne).symm.trans hg)

/-- **The step lemma.** -/
theorem Kept.step (hs : s.Kept) {c : CudnnAction} {s' : CudnnHandles} (hcareful : s.Careful c)
    (hstep : s.step c = some s') : s'.Kept := by
  cases c with
  | create t =>
      unfold CudnnHandles.step at hstep
      dsimp only at hstep
      split at hstep
      · rename_i hpc
        rw [← Option.some.inj hstep]
        exact hs.setPc (fun g => by rw [hpc]; rfl) fun _ => rfl
      · cases hstep
  | serveCreate t made =>
      unfold CudnnHandles.step at hstep
      dsimp only at hstep
      split at hstep
      · rename_i hpc
        rw [← Option.some.inj hstep]
        exact hs.setPc (fun g => by rw [hpc]; rfl) fun _ => rfl
      · rename_i h hpc
        split at hstep
        · cases hstep
        · rw [← Option.some.inj hstep]
          have hcreated : ({ s with live := Function.update s.live h true } : CudnnHandles).Kept := by
            refine ⟨hs.copies, fun g hg => ?_⟩
            dsimp only at hg
            rw [Function.update_apply] at hg
            split at hg
            · cases hg
            · exact hs.dead g hg
          refine hcreated.setPc (fun g => ?_) fun _ => rfl
          dsimp only
          rw [hpc]
          rfl
      · cases hstep
  | set t h v =>
      unfold CudnnHandles.step at hstep
      dsimp only at hstep
      split at hstep
      · rename_i hpc
        rw [← Option.some.inj hstep]
        exact hs.setPc (fun g => by rw [hpc]; rfl) fun _ => rfl
      · cases hstep
  | destroy t h =>
      unfold CudnnHandles.step at hstep
      dsimp only at hstep
      split at hstep
      · rename_i hpc
        rw [← Option.some.inj hstep]
        exact hs.setPc (fun g => by rw [hpc]; rfl) fun _ => rfl
      · cases hstep
  | note t =>
      unfold CudnnHandles.step at hstep
      dsimp only at hstep
      split at hstep
      · rename_i hpc
        rw [← Option.some.inj hstep]
        exact hs.note (fun g => by rw [hpc]; rfl) (if_pos rfl) fun g hgh => if_neg hgh
      · rename_i hpc
        rw [← Option.some.inj hstep]
        exact hs.note (fun g => by rw [hpc]; rfl) (if_pos rfl) fun g hgh => if_neg hgh
      · cases hstep
  | send t =>
      unfold CudnnHandles.step at hstep
      dsimp only at hstep
      split at hstep
      · rename_i hpc
        rw [← Option.some.inj hstep]
        exact hs.send (fun g => by rw [hpc]; rfl) fun _ => rfl
      · rename_i hpc
        rw [← Option.some.inj hstep]
        exact hs.send (fun g => by rw [hpc]; rfl) fun _ => rfl
      · cases hstep
  | serve applied =>
      unfold CudnnHandles.step at hstep
      dsimp only at hstep
      simp only [Careful] at hcareful
      split at hstep
      · cases hstep
      · rename_i h v k rest hqueue
        rw [hqueue] at hcareful
        obtain ⟨rfl, hlate⟩ := hcareful
        simp only [if_true] at hstep
        split at hstep
        · rename_i hlive
          rw [← Option.some.inj hstep]
          refine hs.deliver hqueue (if_pos rfl) (fun g hgh => if_neg hgh) hlate (fun hdead => ?_) fun _ _ => rfl
          rw [hlive] at hdead
          cases hdead
        · cases hstep
      · rename_i t h k rest hqueue
        rw [hqueue] at hcareful
        -- a destroy is applied if the handle is there; else the server holds zero for it already
        obtain ⟨happlied, hlate⟩ := hcareful
        split at hstep
        · rename_i hpc
          have hnone : ∀ g, (s.pc t).due g = none := by
            intro g
            rw [hpc]
            rfl
          split at hstep
          · split at hstep
            · rw [← Option.some.inj hstep]
              have hdelivered :
                  ({ s with live := Function.update s.live h false }.deliver rest h 0 k : CudnnHandles).Kept :=
                hs.deliver hqueue (if_pos rfl) (fun g hgh => if_neg hgh) hlate (fun _ => rfl)
                  fun g hgh => Function.update_of_ne hgh _ _
              exact hdelivered.setPc hnone fun _ => rfl
            · cases hstep
          · rename_i hnot
            rw [← Option.some.inj hstep]
            have hdead : s.live h = false := happlied.symm.trans (eq_false_of_ne_true hnot)
            have hzero := hs.dead h hdead
            have hdelivered : (s.deliver rest h (s.server h) k).Kept :=
              hs.deliver hqueue (hzero ▸ if_pos rfl) (fun g hgh => if_neg hgh) hlate (fun _ => hzero)
                fun _ _ => rfl
            exact hdelivered.setPc hnone fun _ => rfl
        · cases hstep

/-- What is recorded of a handle that is there, and that no call or request is at, is what the server's has. -/
def Recorded (s : CudnnHandles) : Prop :=
  ∀ h, s.live h = true → (∀ t, ¬(s.pc t).On h) → (∀ r ∈ s.queue, ¬r.On h) → s.recorded h = s.server h

/-- The invariant gives what is asked of the record. -/
theorem Kept.recorded (hs : s.Kept) : s.Recorded := by
  intro h _ hpc hqueue
  refine ((hs.copies h).settled fun v hpending => ?_).symm
  rcases hpending with ⟨t, ht⟩ | ⟨r, hr, hdue⟩
  · exact hpc t (CudnnPc.on_of_due ht)
  · exact hqueue r hr (CudnnRequest.on_of_due hdue)

/-- It holds in every run along `Careful`. -/
theorem always_recorded : Always step Careful {} Recorded :=
  (Always.of_step kept_init fun _ _ _ hs hcareful hstep => hs.step hcareful hstep).imp fun _ hs => hs.recorded

end CudnnHandles

/-- A handle is made, and set to device pointers. -/
def deviceMode (reported : Bool) : List CublasAction :=
  [.create 1, .serveCreate 1 (some 7), .set 1 .mode 7 1, .serveSet 1 true reported]

/-- A handle is made, and set to a stream. -/
def ownStream : List CudnnAction :=
  [.create 1, .serveCreate 1 (some 7), .set 1 7 5, .note 1, .send 1, .serve true]

end Rgpu
