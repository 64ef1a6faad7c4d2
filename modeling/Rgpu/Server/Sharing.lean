import Rgpu.Foundations.StepSystem
import Rgpu.Server.ReverseIndex
import Mathlib.Data.List.Basic

/-! # Sessions that share a primary context

Any number of sessions on one server, interleaved at the granularity of the driver calls and of `g_primary_mu` in
`server/inventory.cpp`. A primary context is shared by all of them: it ends with everything in it when its last retain
is released or when it is reset, a later retain brings it back under the same handle, and what is made in it then may
get the address of what was lost.

* **`Sharing.step`** — what the sessions do, with a driver that has retain counts, lifetimes and addresses.
* **`Backed`** — an entry of the current generation stands for an object of its session's own.
The last three are about runs along `Plain`: a session that releases a retain it does not have, which the wrapper
forwards all the same, ends a context under the others.

* **`expiry_frees_own`** — what an expiry gives back is its session's own, of the current lifetime.
* **`made_is_listed`** — nothing a session has made is missing from its list.
* **`context_kept`** — no session ends a primary context that another one retains. -/

namespace Rgpu

open Foundations

/-- A session, by when it was opened. -/
abbrev Tenant := ℕ

/-- What the driver has in a primary context. -/
structure Object where
  owner : Tenant
  dev : Device
  /-- How often the primary context of the device had ended when it was made. -/
  life : ℕ
  deriving DecidableEq, Repr

/-- How far the serving thread of a session is in a wrapper. -/
inductive Doing
  | idle
  /-- The stamp is taken, with the primary context of `dev` current; the driver call comes next. -/
  | stamped (slot : Option CtxMap) (dev : Device) (st : Stamp)
  /-- The driver has made `h`; it is to be noted. -/
  | made (slot : Option CtxMap) (h : ℕ) (st : Stamp)
  /-- The driver has freed `h`; it is to be forgotten. -/
  | freed (slot : Option CtxMap) (h : ℕ)
  /-- In `release_inventory`. -/
  | expiring
  deriving DecidableEq, Repr

/-- A session that is bound. -/
structure Party where
  inv : Inventory := {}
  doing : Doing := .idle

/-- The server, the driver and the sessions. -/
structure Sharing where
  gens : Generations := {}
  /-- The retains of each primary context, by who took them. -/
  holders : Device → List Tenant := fun _ => []
  /-- Whether each primary context has ever been there. -/
  known : Device → Bool := fun _ => false
  /-- How often each primary context has ended. -/
  ends : Device → ℕ := fun _ => 0
  /-- What there is, by kind (`none` for what a library made) and address. -/
  objects : Option CtxMap → ℕ → Option Object := fun _ _ => none
  parties : Tenant → Option Party := fun _ => none
  /-- `g_live_sessions` -/
  live : ℕ := 0
  /-- How many sessions there have been. -/
  opened : ℕ := 0

/-- One step. What the driver answers is part of it; a call that fails and changes nothing is none, except where the
server goes on from it. -/
inductive SharingAction
  /-- `inventory_bind` -/
  | bind (who : Tenant)
  /-- `w_cuDevicePrimaryCtxRetain`, under `g_primary_mu` -/
  | retain (who : Tenant) (dev : Device)
  /-- `w_cuDevicePrimaryCtxRelease_v2`, under `g_primary_mu`; `answered` if the state could be read afterwards. -/
  | release (who : Tenant) (dev : Device) (answered : Bool)
  /-- `w_cuDevicePrimaryCtxReset_v2`, under `g_live_mu` and `g_primary_mu` -/
  | reset (who : Tenant) (dev : Device)
  /-- The stamp of a creating call. -/
  | stamp (who : Tenant) (slot : Option CtxMap) (dev : Device)
  /-- The driver makes something. -/
  | create (who : Tenant) (h : ℕ)
  /-- The driver refuses to. -/
  | refuse (who : Tenant)
  /-- `note` -/
  | note (who : Tenant)
  /-- The driver frees something. -/
  | free (who : Tenant) (slot : Option CtxMap) (h : ℕ)
  /-- `forget` -/
  | forget (who : Tenant)
  /-- `release_inventory` starts. -/
  | expire (who : Tenant)
  /-- One entry under `unless_destroyed`; `ok` if the driver gives it back. -/
  | giveBack (who : Tenant) (slot : Option CtxMap) (h : ℕ) (ok : Bool)
  /-- One release of `release_inventory`, under `g_primary_mu` -/
  | returnRetain (who : Tenant) (dev : Device) (ok answered : Bool)
  /-- The session is unbound. -/
  | leave (who : Tenant)
  deriving DecidableEq, Repr

/-- Whose step it is. -/
def SharingAction.who : SharingAction → Tenant
  | .bind who | .retain who _ | .release who _ _ | .reset who _ | .stamp who _ _ | .create who _ | .refuse who
  | .note who | .free who _ _ | .forget who | .expire who | .giveBack who _ _ _ | .returnRetain who _ _ _
  | .leave who => who

namespace Inventory

/-- `note`, or `inventory_note_handle` for what a library made. -/
def noteAt (inv : Inventory) (slot : Option CtxMap) (h : ℕ) (st : Stamp) : Inventory :=
  match slot with
  | some s => inv.note s.ctxMap h st
  | none => inv.noteHandle h { made := st }

/-- `forget`, or `inventory_forget_handle`. -/
def forgetAt (inv : Inventory) (slot : Option CtxMap) (h : ℕ) : Inventory :=
  match slot with
  | some s => inv.forget s.ctxMap h
  | none => inv.forgetHandle h

/-- How many retains of a primary context the session holds. -/
def retains (inv : Inventory) (dev : Device) : ℕ := (inv.primaryRetains.find dev).getD 0

end Inventory

namespace Sharing

/-- A retain of `who` goes, or another if `who` has none. -/
def dropHolder (who : Tenant) (l : List Tenant) : List Tenant := if who ∈ l then l.erase who else l.tail

/-- Change what one session has. -/
def setParty (s : Sharing) (who : Tenant) (pt : Option Party) : Sharing :=
  { s with parties := Function.update s.parties who pt }

/-- Put an object at an address, or take it away. -/
def setObject (s : Sharing) (slot : Option CtxMap) (h : ℕ) (o : Option Object) : Sharing :=
  { s with objects := Function.update s.objects slot (Function.update (s.objects slot) h o) }

/-- The primary context of a device ends, and everything in it. -/
def endLife (s : Sharing) (dev : Device) : Sharing :=
  { s with
    ends := Function.update s.ends dev (s.ends dev + 1)
    objects := fun slot h => (s.objects slot h).filter fun o => o.dev ≠ dev }

/-- `cuDevicePrimaryCtxRelease_v2`: the last retain ends the context. -/
def driverRelease (s : Sharing) (who : Tenant) (dev : Device) : Sharing :=
  let left := dropHolder who (s.holders dev)
  let t := { s with holders := Function.update s.holders dev left }
  if left = [] then t.endLife dev else t

/-- `primary_inactive`, if the state can be read. -/
def primaryInactive (s : Sharing) (dev : Device) (answered : Bool) : Bool := answered && (s.holders dev = [])

/-- `bump_generation` -/
def bump (s : Sharing) (dev : Device) : Sharing := { s with gens := s.gens.bumpGeneration dev }

/-- One step. The primary contexts have the handles `p`. -/
def step (p : PrimaryHandles) (s : Sharing) : SharingAction → Option Sharing
  | .bind who =>
      match s.parties who with
      | none =>
          if who = s.opened then some { s.setParty who (some {}) with live := s.live + 1, opened := s.opened + 1 }
          else none
      | some _ => none
  | .retain who dev =>
      match s.parties who with
      | some ⟨inv, .idle⟩ =>
          -- the driver hands out no null context
          if p.handle dev = 0 then none
          else some ({ s with
            gens := s.gens.learnPrimary (p.handle dev) dev
            holders := Function.update s.holders dev (who :: s.holders dev)
            known := Function.update s.known dev true }.setParty who
              (some ⟨inv.noteRetain dev, .idle⟩))
      | _ => none
  | .release who dev answered =>
      match s.parties who with
      | some ⟨inv, .idle⟩ =>
          -- the driver refuses to release what nobody has retained
          if s.holders dev = [] then none
          else
            let t := s.driverRelease who dev
            let inv := inv.noteRelease dev
            if t.primaryInactive dev answered then
              let t := t.bump dev
              some (t.setParty who (some ⟨inv.forgetPrimary t.gens dev, .idle⟩))
            else some (t.setParty who (some ⟨inv, .idle⟩))
      | _ => none
  | .reset who dev =>
      match s.parties who with
      | some ⟨inv, .idle⟩ =>
          -- refused while anybody else is connected
          if 1 < s.live then none
          else
            let t := (s.endLife dev).bump dev
            some (t.setParty who (some ⟨inv.forgetPrimary t.gens dev, .idle⟩))
      | _ => none
  | .stamp who slot dev =>
      match s.parties who with
      | some ⟨inv, .idle⟩ =>
          -- current can be what has been there
          if s.known dev then
            some (s.setParty who (some ⟨inv, .stamped slot dev (s.gens.stampContext (p.handle dev))⟩))
          else none
      | _ => none
  | .create who h =>
      match s.parties who with
      | some ⟨inv, .stamped slot dev st⟩ =>
          -- in a context that there is, at an address that is not in use
          if s.holders dev ≠ [] ∧ h ≠ 0 ∧ s.objects slot h = none then
            some ((s.setObject slot h (some ⟨who, dev, s.ends dev⟩)).setParty who (some ⟨inv, .made slot h st⟩))
          else none
      | _ => none
  | .refuse who =>
      match s.parties who with
      | some ⟨inv, .stamped _ _ _⟩ => some (s.setParty who (some ⟨inv, .idle⟩))
      | _ => none
  | .note who =>
      match s.parties who with
      | some ⟨inv, .made slot h st⟩ => some (s.setParty who (some ⟨inv.noteAt slot h st, .idle⟩))
      | _ => none
  | .free who slot h =>
      match s.parties who with
      | some ⟨inv, .idle⟩ =>
          if (s.objects slot h).isSome then
            some ((s.setObject slot h none).setParty who (some ⟨inv, .freed slot h⟩))
          else none
      | _ => none
  | .forget who =>
      match s.parties who with
      | some ⟨inv, .freed slot h⟩ => some (s.setParty who (some ⟨inv.forgetAt slot h, .idle⟩))
      | _ => none
  | .expire who =>
      match s.parties who with
      | some ⟨inv, .idle⟩ => some (s.setParty who (some ⟨inv, .expiring⟩))
      | _ => none
  | .giveBack who slot h ok =>
      match s.parties who with
      | some ⟨inv, .expiring⟩ =>
          match inv.made slot h with
          | none => none
          | some st =>
              let t := s.setParty who (some ⟨inv.forgetAt slot h, .expiring⟩)
              if s.gens.stillCurrent st.dev st.gen ∧ ok then some (t.setObject slot h none) else some t
      | _ => none
  | .returnRetain who dev ok answered =>
      match s.parties who with
      | some ⟨inv, .expiring⟩ =>
          if inv.retains dev = 0 ∨ s.holders dev = [] then none
          else
            let inv := inv.noteRelease dev
            if ok then
              let t := (s.driverRelease who dev).setParty who (some ⟨inv, .expiring⟩)
              some (if t.primaryInactive dev answered then t.bump dev else t)
            else some (s.setParty who (some ⟨inv, .expiring⟩))
      | _ => none
  | .leave who =>
      match s.parties who with
      | some ⟨_, .expiring⟩ => some { s.setParty who none with live := s.live - 1 }
      | _ => none

/-- Where the session of an action is when it happens. -/
def Ready (s : Sharing) : SharingAction → Prop
  | .bind who => s.parties who = none
  | .retain who _ | .release who _ _ | .reset who _ | .stamp who _ _ | .free who _ _ | .expire who =>
      ∃ inv, s.parties who = some ⟨inv, .idle⟩
  | .create who _ | .refuse who => ∃ inv slot dev st, s.parties who = some ⟨inv, .stamped slot dev st⟩
  | .note who => ∃ inv slot h st, s.parties who = some ⟨inv, .made slot h st⟩
  | .forget who => ∃ inv slot h, s.parties who = some ⟨inv, .freed slot h⟩
  | .giveBack who _ _ _ | .returnRetain who _ _ _ | .leave who => ∃ inv, s.parties who = some ⟨inv, .expiring⟩

/-- A step is taken by a session that is in the state it begins in. -/
theorem ready_of_step {p : PrimaryHandles} {s t : Sharing} {a : SharingAction} (hstep : s.step p a = some t) :
    s.Ready a := by
  cases a <;> rw [step] at hstep <;> split at hstep <;> try cases hstep
  all_goals
    rename_i hpt
    first | exact hpt | exact ⟨_, hpt⟩ | exact ⟨_, _, _, _, hpt⟩ | exact ⟨_, _, _, hpt⟩

/-! ## What holds of an entry -/

/-- The entry is of a generation there has been; and if that is the current one, it stands for an object that `who` made
in the current lifetime of the context. -/
def Backed (s : Sharing) (who : Tenant) (slot : Option CtxMap) (h : ℕ) (st : Stamp) : Prop :=
  ∃ dev, st.dev = some dev ∧ st.gen ≤ s.ends dev ∧
    (st.gen = s.ends dev → s.objects slot h = some ⟨who, dev, s.ends dev⟩)

/-- What holds of a session that is bound. -/
structure Fits (s : Sharing) (who : Tenant) (pt : Party) : Prop where
  indexed : pt.inv.Indexed
  placed : pt.inv.Stamped (Recording.Placed s.gens)
  entry : ∀ slot h st, pt.inv.made slot h = some st → pt.doing ≠ .freed slot h → s.Backed who slot h st
  taken : ∀ slot dev st, pt.doing = .stamped slot dev st →
    st.dev = some dev ∧ st.gen ≤ s.ends dev ∧ Recording.Placed s.gens st
  pending : ∀ slot h st, pt.doing = .made slot h st →
    h ≠ 0 ∧ s.Backed who slot h st ∧ Recording.Placed s.gens st
  mine : ∀ slot h st, pt.doing = .made slot h st → ∀ o, s.objects slot h = some o → o.owner = who →
    st.dev = some o.dev ∧ st.gen ≤ o.life
  gone : ∀ slot h, pt.doing = .freed slot h → ∀ o, s.objects slot h = some o → o.owner ≠ who
  listed : pt.doing ≠ .expiring → ∀ slot h o, s.objects slot h = some o → o.owner = who →
    ∃ st, (pt.inv.made slot h = some st ∨ pt.doing = .made slot h st) ∧ st.dev = some o.dev ∧ st.gen ≤ o.life

variable {p : PrimaryHandles} {s t : Sharing} {who : Tenant} {pt : Party}

/-- What stands behind an entry still does where the session's own live objects are kept. -/
theorem Backed.frame {slot : Option CtxMap} {h : ℕ} {st : Stamp} (hst : s.Backed who slot h st)
    (hends : ∀ d, s.ends d ≤ t.ends d)
    (hkeep : ∀ slot h d, s.objects slot h = some ⟨who, d, s.ends d⟩ → t.ends d = s.ends d →
      t.objects slot h = some ⟨who, d, s.ends d⟩) : t.Backed who slot h st := by
  obtain ⟨dev, hdev, hle, hback⟩ := hst
  have hdevEnds := hends dev
  refine ⟨dev, hdev, hle.trans hdevEnds, fun hgen => ?_⟩
  have hsame : t.ends dev = s.ends dev := by omega
  rw [hsame]
  exact hkeep slot h dev (hback (hgen.trans hsame)) hsame

/-- What the others do to the tables and to the driver leaves a session as it was, if lifetimes only go up, what the
session has in a context that has not ended stays, and it gets nothing new. -/
theorem Fits.frame (hfits : s.Fits who pt) (hplaced : ∀ st, Recording.Placed s.gens st → Recording.Placed t.gens st)
    (hends : ∀ d, s.ends d ≤ t.ends d)
    (hkeep : ∀ slot h d, s.objects slot h = some ⟨who, d, s.ends d⟩ → t.ends d = s.ends d →
      t.objects slot h = some ⟨who, d, s.ends d⟩)
    (hnew : ∀ slot h o, t.objects slot h = some o → o.owner = who → s.objects slot h = some o) : t.Fits who pt where
  indexed := hfits.indexed
  placed := hfits.placed.mono hplaced
  entry slot h st hst hdoing := (hfits.entry slot h st hst hdoing).frame hends hkeep
  taken slot dev st hdoing := by
    obtain ⟨hdev, hle, hst⟩ := hfits.taken slot dev st hdoing
    exact ⟨hdev, hle.trans (hends dev), hplaced st hst⟩
  pending slot h st hdoing := by
    obtain ⟨hh, hback, hst⟩ := hfits.pending slot h st hdoing
    exact ⟨hh, hback.frame hends hkeep, hplaced st hst⟩
  mine slot h st hdoing o ho hown := hfits.mine slot h st hdoing o (hnew slot h o ho hown) hown
  gone slot h hdoing o ho hown := hfits.gone slot h hdoing o (hnew slot h o ho hown) hown
  listed hdoing slot h o ho hown := hfits.listed hdoing slot h o (hnew slot h o ho hown) hown

/-! ## The record of one session -/

end Sharing

namespace Inventory

variable {inv : Inventory} {slot slot' : Option CtxMap} {h h' : ℕ} {st : Stamp} {P : Stamp → Prop}

/-- The stamp that is noted is that of the handle, and no other changes. -/
theorem made_noteAt (hh : h ≠ 0) :
    (inv.noteAt slot h st).made slot' h' = if slot' = slot ∧ h' = h then some st else inv.made slot' h' := by
  cases slot with
  | none =>
      rw [noteAt, noteHandle, if_neg hh]
      rw [made_indexAdd, made_setHandles_insert items_indexRenote]
  | some s =>
      rw [noteAt, note, if_neg hh]
      simp only [CtxMap.ctxSlot_ctxMap]
      rw [made_indexAdd, made_setItems_insert items_indexRenote handles_indexRenote]

/-- The handle that is forgotten has none, and no other changes. -/
theorem made_forgetAt :
    (inv.forgetAt slot h).made slot' h' = if slot' = slot ∧ h' = h then none else inv.made slot' h' := by
  cases slot with
  | none =>
      rw [forgetAt, forgetHandle]
      split
      · exact made_setHandles_erase items_indexRemove
      · exact made_setHandles_erase rfl
  | some s =>
      rw [forgetAt, forget]
      split
      · exact made_setItems_erase items_indexRemove handles_indexRemove
      · exact made_setItems_erase rfl rfl

/-- Listing a handle leaves the retains. -/
theorem primaryRetains_indexAdd (c : CUcontext) :
    (inv.indexAdd c slot h).primaryRetains = inv.primaryRetains := by
  rw [indexAdd]
  split <;> rfl

/-- Dropping an empty bucket leaves the retains. -/
theorem primaryRetains_indexDropIfEmpty (c : CUcontext) :
    (inv.indexDropIfEmpty c).primaryRetains = inv.primaryRetains := by
  rw [indexDropIfEmpty]
  split
  · rfl
  · split <;> rfl

/-- Unlisting a handle leaves the retains. -/
theorem primaryRetains_indexRemove (c : CUcontext) :
    (inv.indexRemove c slot h).primaryRetains = inv.primaryRetains := by
  rw [indexRemove]
  split
  · rfl
  · split
    · rfl
    · exact primaryRetains_indexDropIfEmpty c

/-- Listing a handle elsewhere leaves the retains. -/
theorem primaryRetains_indexRenote (old : Option Stamp) (c : CUcontext) :
    (inv.indexRenote old c slot h).primaryRetains = inv.primaryRetains := by
  rw [indexRenote.eq_def]
  split
  · rfl
  · split
    · exact primaryRetains_indexRemove _
    · rfl

/-- Noting an object retains nothing. -/
theorem retains_noteAt (dev : Device) : (inv.noteAt slot h st).retains dev = inv.retains dev := by
  have hsame : (inv.noteAt slot h st).primaryRetains = inv.primaryRetains := by
    cases slot with
    | none =>
        rw [noteAt, noteHandle]
        split
        · rfl
        · exact (primaryRetains_indexAdd _).trans (primaryRetains_indexRenote _ _)
    | some s =>
        rw [noteAt, note]
        split
        · rfl
        · split
          · rfl
          · exact (primaryRetains_indexAdd _).trans (primaryRetains_indexRenote _ _)
  rw [retains, hsame, retains]

/-- Forgetting one releases nothing. -/
theorem retains_forgetAt (dev : Device) : (inv.forgetAt slot h).retains dev = inv.retains dev := by
  have hsame : (inv.forgetAt slot h).primaryRetains = inv.primaryRetains := by
    cases slot with
    | none =>
        rw [forgetAt, forgetHandle]
        split
        · exact primaryRetains_indexRemove _
        · rfl
    | some s =>
        rw [forgetAt, forget]
        split
        · exact primaryRetains_indexRemove _
        · rfl
  rw [retains, hsame, retains]

/-- Forgetting what was in a primary context releases nothing. -/
theorem retains_forgetPrimary (g : Generations) (dev dev' : Device) :
    (inv.forgetPrimary g dev).retains dev' = inv.retains dev' := by
  have hsweep : ∀ (inv : Inventory) (c : CUcontext),
      (inv.sweepBucket dev (g.generation dev) c).primaryRetains = inv.primaryRetains := by
    intro inv c
    rw [sweepBucket]
    split
    · rfl
    · exact primaryRetains_indexDropIfEmpty c
  have hfold : ∀ (cs : List CUcontext) (inv : Inventory),
      (cs.foldl (fun inv c => inv.sweepBucket dev (g.generation dev) c) inv).primaryRetains = inv.primaryRetains := by
    intro cs
    induction cs with
    | nil => exact fun _ => rfl
    | cons c cs ih => exact fun inv => (ih _).trans (hsweep inv c)
  rw [retains, forgetPrimary, retains]
  exact congrArg (fun t : Table Device ℕ => (t.find dev').getD 0) (hfold _ inv)

/-- A retain is one more of its device. -/
theorem retains_noteRetain (dev dev' : Device) :
    (inv.noteRetain dev).retains dev' = inv.retains dev' + if dev' = dev then 1 else 0 := by
  rw [retains, noteRetain, Table.find_insert, retains]
  split
  · rename_i h
    subst h
    rfl
  · rfl

/-- A release is one less. -/
theorem retains_noteRelease (dev dev' : Device) :
    (inv.noteRelease dev).retains dev' = inv.retains dev' - if dev' = dev then 1 else 0 := by
  rw [retains, noteRelease, Table.find_insert, retains]
  split
  · rename_i h
    subst h
    rfl
  · rfl

/-- Noting an object keeps the index right. -/
theorem Indexed.noteAt (hinv : inv.Indexed) : (inv.noteAt slot h st).Indexed := by
  cases slot with
  | none => exact hinv.noteHandle h _
  | some s => exact hinv.note _ h st

/-- Forgetting an object keeps the index right. -/
theorem Indexed.forgetAt (hinv : inv.Indexed) : (inv.forgetAt slot h).Indexed := by
  cases slot with
  | none => exact hinv.forgetHandle h
  | some s => exact hinv.forget _ h

/-- The stamps have a property if the new one has. -/
theorem Stamped.noteAt (hinv : inv.Stamped P) (hst : P st) : (inv.noteAt slot h st).Stamped P := by
  cases slot with
  | none => exact hinv.noteHandle h hst
  | some s => exact hinv.note _ h hst

/-- The stamps have a property if they had it with one more. -/
theorem Stamped.forgetAt (hinv : inv.Stamped P) : (inv.forgetAt slot h).Stamped P := by
  cases slot with
  | none => exact hinv.forgetHandle h
  | some s => exact hinv.forget _ h

end Inventory

namespace Sharing

variable {p : PrimaryHandles} {s t : Sharing} {who : Tenant} {pt : Party} {inv : Inventory} {dev : Device}

/-! ## What holds in every run -/

/-- What holds of the tables and of the driver. -/
structure Sound (p : PrimaryHandles) (s : Sharing) : Prop where
  learned : ∀ c d, s.gens.primaryDev.find c = some d → c = p.handle d ∧ c ≠ 0
  known : ∀ d, s.known d = true → s.gens.primaryDev.find (p.handle d) = some d
  counted : ∀ d, s.gens.generation d = s.ends d
  below : ∀ d, s.ends d < kEndedGeneration
  alive : ∀ slot h o, s.objects slot h = some o → o.life = s.ends o.dev ∧ o.owner < s.opened

/-- What holds of the whole. -/
structure Kept (p : PrimaryHandles) (s : Sharing) : Prop extends Sound p s where
  fits : ∀ who pt, s.parties who = some pt → s.Fits who pt
  retained : ∀ who pt dev, s.parties who = some pt → pt.inv.retains dev ≤ (s.holders dev).count who
  early : ∀ who pt, s.parties who = some pt → who < s.opened
  bound : ∃ l : List Tenant, l.Nodup ∧ (∀ w, w ∈ l ↔ (s.parties w).isSome) ∧ l.length = s.live

/-- How many retains of a primary context a session holds by its own count. -/
def retains (s : Sharing) (who : Tenant) (dev : Device) : ℕ :=
  match s.parties who with
  | none => 0
  | some pt => pt.inv.retains dev

/-- Sessions release what they retain and free what they made; the driver says whether a context is there when it is
asked right after a release; and the generations do not run out. -/
def Plain (s : Sharing) : SharingAction → Prop
  | .release who dev answered => s.retains who dev ≠ 0 ∧ answered = true ∧ s.ends dev + 1 < kEndedGeneration
  | .returnRetain _ dev _ answered => answered = true ∧ s.ends dev + 1 < kEndedGeneration
  | .reset _ dev => s.ends dev + 1 < kEndedGeneration
  | .free who slot h => ∀ o, s.objects slot h = some o → o.owner = who
  | _ => True

/-- There are no sessions at first. -/
theorem kept_init (p : PrimaryHandles) : Kept p {} where
  learned _ _ h := by cases h
  known _ h := by cases h
  counted _ := rfl
  below _ := show 0 < kEndedGeneration by decide
  alive _ _ _ h := by cases h
  fits _ _ h := by cases h
  retained _ _ _ h := by cases h
  early _ _ h := by cases h
  bound := ⟨[], List.nodup_nil, fun w => by simp, rfl⟩

/-- One session changes, beside changes to the driver and the tables that leave the others as they are. -/
theorem Kept.replace (hs : Kept p s) (hsound : Sound p t) (hparties : t.parties = s.parties) (hlive : t.live = s.live)
    (hopened : t.opened = s.opened) (hwho : (s.parties who).isSome)
    (hothers : ∀ w pt, w ≠ who → s.parties w = some pt → t.Fits w pt)
    (hcount : ∀ w, w ≠ who → ∀ dev, (s.holders dev).count w ≤ (t.holders dev).count w)
    (hpt : t.Fits who pt) (hretains : ∀ dev, pt.inv.retains dev ≤ (t.holders dev).count who) :
    Kept p (t.setParty who (some pt)) where
  learned := hsound.learned
  known := hsound.known
  counted := hsound.counted
  below := hsound.below
  alive := hsound.alive
  fits w pt' hw := by
    have hw' : Function.update t.parties who (some pt) w = some pt' := hw
    by_cases h : w = who
    · subst h
      rw [Function.update_self, Option.some.injEq] at hw'
      exact hw' ▸ hpt.frame (fun _ h => h) (fun _ => le_rfl) (fun _ _ _ h _ => h) fun _ _ _ h _ => h
    · rw [Function.update_of_ne h, hparties] at hw'
      -- any other, which is where it was
      exact (hothers w pt' h hw').frame (fun _ h => h) (fun _ => le_rfl) (fun _ _ _ h _ => h) fun _ _ _ h _ => h
  retained w pt' dev hw := by
    have hw' : Function.update t.parties who (some pt) w = some pt' := hw
    by_cases h : w = who
    · subst h
      rw [Function.update_self, Option.some.injEq] at hw'
      exact hw' ▸ hretains dev
    · rw [Function.update_of_ne h, hparties] at hw'
      exact (hs.retained w pt' dev hw').trans (hcount w h dev)
  early w pt' hw := by
    have hw' : Function.update t.parties who (some pt) w = some pt' := hw
    show w < t.opened
    rw [hopened]
    by_cases h : w = who
    · subst h
      obtain ⟨pt₀, hpt₀⟩ := Option.isSome_iff_exists.mp hwho
      exact hs.early w pt₀ hpt₀
    · rw [Function.update_of_ne h, hparties] at hw'
      exact hs.early w pt' hw'
  bound := by
    obtain ⟨l, hnodup, hmem, hlength⟩ := hs.bound
    refine ⟨l, hnodup, fun w => ?_, hlength.trans hlive.symm⟩
    rw [hmem]
    show _ ↔ (Function.update t.parties who (some pt) w).isSome
    by_cases h : w = who
    · subst h
      simp [hwho]
    · rw [Function.update_of_ne h, hparties]

/-- One session changes on its own. -/
theorem Kept.own (hs : Kept p s) {pt₀ : Party} (hpt₀ : s.parties who = some pt₀) (hpt : s.Fits who pt)
    (hretains : ∀ dev, pt.inv.retains dev ≤ pt₀.inv.retains dev) : Kept p (s.setParty who (some pt)) :=
  hs.replace hs.toSound rfl rfl rfl (by rw [hpt₀]; rfl) (fun w pt' _ hw => hs.fits w pt' hw) (fun _ _ _ => le_rfl) hpt
    fun dev => (hretains dev).trans (hs.retained who pt₀ dev hpt₀)

/-- The retains may be counted differently. -/
theorem Fits.withRetains {inv' : Inventory} {d : Doing} (hfits : s.Fits who ⟨inv, d⟩)
    (hitems : inv'.items = inv.items) (hhandles : inv'.handles = inv.handles)
    (hcaptures : inv'.captures = inv.captures)
    (hbyCtx : inv'.byCtx = inv.byCtx) : s.Fits who ⟨inv', d⟩ := by
  have hmade : ∀ slot h, inv'.made slot h = inv.made slot h := fun slot h => Inventory.made_congr hitems hhandles
  refine ⟨hfits.indexed.congr hbyCtx hmade, ⟨?_, ?_, ?_⟩, ?_, hfits.taken, hfits.pending, hfits.mine, hfits.gone, ?_⟩
  · exact fun k h st hst => hfits.placed.items k h st (hitems ▸ hst)
  · exact fun h l hl => hfits.placed.handles h l (hhandles ▸ hl)
  · exact fun o ho => hfits.placed.captures o (hcaptures ▸ ho)
  · exact fun slot h st hst => hfits.entry slot h st (hmade slot h ▸ hst)
  · intro hdoing slot h o ho hown
    obtain ⟨st, hst, hrest⟩ := hfits.listed hdoing slot h o ho hown
    exact ⟨st, by rwa [hmade], hrest⟩

/-- What holds of the driver reads nothing of who retains what. -/
theorem Sound.withHolders (hs : Sound p s) (holders : Device → List Tenant) :
    Sound p { s with holders := holders } := ⟨hs.learned, hs.known, hs.counted, hs.below, hs.alive⟩

/-- What holds of a session reads nothing of who retains what. -/
theorem Fits.withHolders (hfits : s.Fits who pt) (holders : Device → List Tenant) :
    ({ s with holders := holders } : Sharing).Fits who pt :=
  hfits.frame (fun _ h => h) (fun _ => le_rfl) (fun _ _ _ h _ => h) fun _ _ _ h _ => h

/-! ### The end of a lifetime -/

/-- A device's generation goes up by one, modulo 2^64, and no other's. -/
theorem generation_bumpGeneration (g : Generations) (dev d : Device) : (g.bumpGeneration dev).generation d =
    if d = dev then (g.generation dev + 1) % 2 ^ 64 else g.generation d := by
  rw [Generations.bumpGeneration, Generations.generation, Table.find_insert]
  split
  · rfl
  · rfl

/-- The end of a lifetime and the next generation go together. -/
theorem Sound.ended (hs : Sound p s) (hbelow : s.ends dev + 1 < kEndedGeneration) :
    Sound p ((s.endLife dev).bump dev) where
  learned := hs.learned
  known := hs.known
  counted d := by
    show (s.gens.bumpGeneration dev).generation d = Function.update s.ends dev (s.ends dev + 1) d
    rw [generation_bumpGeneration, Function.update_apply]
    split
    · rw [hs.counted, Nat.mod_eq_of_lt]
      exact hbelow.trans (by decide)
    · exact hs.counted d
  below d := by
    show Function.update s.ends dev (s.ends dev + 1) d < _
    rw [Function.update_apply]
    split
    · exact hbelow
    · exact hs.below d
  alive slot h o ho := by
    obtain ⟨ho, hdev⟩ := Option.filter_eq_some_iff.mp ho
    show o.life = Function.update s.ends dev (s.ends dev + 1) o.dev ∧ _
    rw [Function.update_of_ne (by simpa using hdev)]
    exact hs.alive slot h o ho

/-- A session's entries of the lifetime that ended are of an older generation from then on. -/
theorem Fits.ended (hfits : s.Fits who pt) : ((s.endLife dev).bump dev).Fits who pt := by
  refine hfits.frame (fun _ h => h) (fun d => ?_) (fun slot h d ho hsame => ?_) fun slot h o ho _ => ?_
  · show s.ends d ≤ Function.update s.ends dev (s.ends dev + 1) d
    rw [Function.update_apply]
    split
    · rename_i hd
      rw [hd]
      exact Nat.le_succ _
    · exact le_rfl
  · have hne : d ≠ dev := by
      rintro rfl
      have hup : Function.update s.ends d (s.ends d + 1) d = s.ends d := hsame
      rw [Function.update_self] at hup
      omega
    exact Option.filter_eq_some_iff.mpr ⟨ho, by simpa using hne⟩
  · exact (Option.filter_eq_some_iff.mp ho).1

/-- Once a context has ended, what its session lists in it is forgotten. -/
theorem Fits.forgetPrimary (hs : Sound p s) (hfits : s.Fits who ⟨inv, .idle⟩)
    (hnone : ∀ slot h o, s.objects slot h = some o → o.dev ≠ dev) :
    s.Fits who ⟨inv.forgetPrimary s.gens dev, .idle⟩ := by
  have hzero : 0 ∉ s.gens.primaryHandles dev := fun h =>
    (hs.learned 0 dev (Generations.mem_primaryHandles.mp h)).2 rfl
  have hmade : ∀ slot h, (inv.forgetPrimary s.gens dev).made slot h =
      (inv.made slot h).filter fun st => !Inventory.outdated dev (s.gens.generation dev) st := fun slot h =>
    hfits.indexed.made_forgetPrimary s.gens dev hzero (fun slot h st hst hdev =>
      Generations.mem_primaryHandles.mpr (hfits.placed.made hst dev hdev)) slot h
  refine ⟨hfits.indexed.forgetPrimary s.gens dev hzero, hfits.placed.forgetPrimary s.gens dev, ?_, nofun, nofun, nofun,
    nofun, ?_⟩
  · intro slot h st hst hdoing
    rw [hmade] at hst
    exact hfits.entry slot h st (Option.filter_eq_some_iff.mp hst).1 nofun
  · intro _ slot h o ho hown
    obtain ⟨st, hst | hst, hdev, hle⟩ := hfits.listed nofun slot h o ho hown
    · refine ⟨st, .inl ?_, hdev, hle⟩
      rw [hmade, Option.filter_eq_some_iff]
      refine ⟨hst, ?_⟩
      have hne := hnone slot h o ho
      simp [Inventory.outdated, hdev, hne]
    · cases hst

/-- What the end of a lifetime leaves of the driver's objects. -/
theorem dev_ne_of_ended {slot : Option CtxMap} {h : ℕ} {o : Object}
    (ho : ((s.endLife dev).bump dev).objects slot h = some o) : o.dev ≠ dev := by
  simpa using (Option.filter_eq_some_iff.mp ho).2

/-- A retain of one session is not given back by another. -/
theorem count_dropHolder_of_ne {w : Tenant} (hne : w ≠ who) {l : List Tenant} (hmem : who ∈ l) :
    (dropHolder who l).count w = l.count w := by
  rw [dropHolder, if_pos hmem, List.count_erase_of_ne hne]

/-- A session that gives a retain back has one less. -/
theorem count_dropHolder_self {l : List Tenant} (hmem : who ∈ l) :
    (dropHolder who l).count who = l.count who - 1 := by
  rw [dropHolder, if_pos hmem, List.count_erase_self]

/-- The retains that are left, by their holders. -/
theorem count_holders_of_ne {w : Tenant} (hne : w ≠ who) (hmem : who ∈ s.holders dev) (d : Device) :
    (s.holders d).count w ≤ (Function.update s.holders dev (dropHolder who (s.holders dev)) d).count w := by
  rw [Function.update_apply]
  split
  · rename_i hd
    rw [hd, count_dropHolder_of_ne hne hmem]
  · exact le_rfl

/-- After a release the session counts no more retains than it has. -/
theorem retains_le_count_holders (hs : Kept p s) {doing : Doing} (hpt : s.parties who = some ⟨inv, doing⟩)
    (hmem : who ∈ s.holders dev) (d : Device) : (inv.noteRelease dev).retains d ≤
      (Function.update s.holders dev (dropHolder who (s.holders dev)) d).count who := by
  have hcount := hs.retained who _ d hpt
  rw [Inventory.retains_noteRelease, Function.update_apply]
  by_cases hd : d = dev
  · subst hd
    rw [if_pos rfl, if_pos rfl, count_dropHolder_self hmem]
    exact Nat.sub_le_sub_right hcount 1
  · rw [if_neg hd, if_neg hd]
    exact hcount

/-- The driver takes a retain back, and the session with it. -/
theorem driverRelease_cases (s : Sharing) (who : Tenant) (dev : Device) (answered : Bool) (hanswered : answered = true) :
    (dropHolder who (s.holders dev) ≠ [] ∧ (s.driverRelease who dev).primaryInactive dev answered = false ∧
      s.driverRelease who dev =
        { s with holders := Function.update s.holders dev (dropHolder who (s.holders dev)) }) ∨
    (dropHolder who (s.holders dev) = [] ∧ (s.driverRelease who dev).primaryInactive dev answered = true ∧
      s.driverRelease who dev =
        { s with holders := Function.update s.holders dev (dropHolder who (s.holders dev)) }.endLife dev) := by
  by_cases hleft : dropHolder who (s.holders dev) = []
  · exact .inr ⟨hleft, by simp [driverRelease, hleft, primaryInactive, endLife, hanswered],
      by simp [driverRelease, hleft]⟩
  · exact .inl ⟨hleft, by simp [driverRelease, hleft, primaryInactive], by simp [driverRelease, hleft]⟩

/-- Only who holds a retain has it to release. -/
theorem Kept.mem_holders (hs : Kept p s) (hpt : s.parties who = some pt) (hretains : pt.inv.retains dev ≠ 0) :
    who ∈ s.holders dev := by
  have hcount := hs.retained who pt dev hpt
  exact List.count_pos_iff.mp (by omega)

/-! ### The steps -/

/-- Where a session is when it takes a step, and where the step leads. -/
theorem Kept.release (hs : Kept p s) {answered : Bool} (hpt : s.parties who = some ⟨inv, .idle⟩)
    (hplain : s.Plain (.release who dev answered)) (hstep : s.step p (.release who dev answered) = some t) :
    Kept p t := by
  obtain ⟨hretains, hanswered, hbelow⟩ := hplain
  rw [retains, hpt] at hretains
  have hmem := hs.mem_holders hpt hretains
  have hidle : s.Fits who ⟨inv.noteRelease dev, .idle⟩ := (hs.fits who _ hpt).withRetains rfl rfl rfl rfl
  have hcount : ∀ w, w ≠ who → ∀ d, (s.holders d).count w ≤
      (Function.update s.holders dev (dropHolder who (s.holders dev)) d).count w :=
    fun w hw d => count_holders_of_ne hw hmem d
  have hown := retains_le_count_holders hs hpt hmem
  rw [step, hpt] at hstep
  simp only [List.ne_nil_of_mem hmem, if_false] at hstep
  rcases driverRelease_cases s who dev answered hanswered with ⟨-, hinactive, hdriver⟩ | ⟨-, hinactive, hdriver⟩
  · rw [if_neg (by rw [hinactive]; decide)] at hstep
    obtain rfl := Option.some.inj hstep
    rw [hdriver]
    exact hs.replace (hs.toSound.withHolders _) rfl rfl rfl (by rw [hpt]; rfl)
      (fun w pt _ hw => (hs.fits w pt hw).withHolders _) hcount (hidle.withHolders _) hown
  · rw [if_pos hinactive] at hstep
    obtain rfl := Option.some.inj hstep
    rw [hdriver]
    have hsound := (hs.toSound.withHolders (Function.update s.holders dev (dropHolder who (s.holders dev)))).ended
      hbelow
    refine hs.replace hsound rfl rfl rfl (by rw [hpt]; rfl) (fun w pt _ hw => ((hs.fits w pt hw).withHolders _).ended)
      hcount ?_ fun d => ?_
    · exact (hidle.withHolders _).ended.forgetPrimary hsound fun _ _ _ ho => dev_ne_of_ended ho
    · rw [Inventory.retains_forgetPrimary]
      exact hown d

/-- An expiring session gives back a retain that it has. -/
theorem Kept.returnRetain (hs : Kept p s) {ok answered : Bool} (hpt : s.parties who = some ⟨inv, .expiring⟩)
    (hplain : s.Plain (.returnRetain who dev ok answered))
    (hstep : s.step p (.returnRetain who dev ok answered) = some t) : Kept p t := by
  obtain ⟨hanswered, hbelow⟩ := hplain
  have hidle : s.Fits who ⟨inv.noteRelease dev, .expiring⟩ := (hs.fits who _ hpt).withRetains rfl rfl rfl rfl
  rw [step, hpt] at hstep
  simp only at hstep
  split at hstep
  · cases hstep
  · rename_i hguard
    rw [not_or] at hguard
    have hmem := hs.mem_holders hpt hguard.1
    have hcount : ∀ w, w ≠ who → ∀ d, (s.holders d).count w ≤
        (Function.update s.holders dev (dropHolder who (s.holders dev)) d).count w :=
      fun w hw d => count_holders_of_ne hw hmem d
    have hown := retains_le_count_holders hs hpt hmem
    split at hstep
    · rcases driverRelease_cases s who dev answered hanswered with ⟨-, hinactive, hdriver⟩ | ⟨-, hinactive, hdriver⟩
      · rw [if_neg (by rw [show ((s.driverRelease who dev).setParty who _).primaryInactive dev answered = false
          from hinactive]; decide)] at hstep
        obtain rfl := Option.some.inj hstep
        rw [hdriver]
        exact hs.replace (hs.toSound.withHolders _) rfl rfl rfl (by rw [hpt]; rfl)
          (fun w pt _ hw => (hs.fits w pt hw).withHolders _) hcount (hidle.withHolders _) hown
      · rw [if_pos (show ((s.driverRelease who dev).setParty who _).primaryInactive dev answered = true
          from hinactive)] at hstep
        obtain rfl := Option.some.inj hstep
        rw [hdriver]
        have hsound := (hs.toSound.withHolders
          (Function.update s.holders dev (dropHolder who (s.holders dev)))).ended hbelow
        exact hs.replace hsound rfl rfl rfl (by rw [hpt]; rfl)
          (fun w pt _ hw => ((hs.fits w pt hw).withHolders _).ended) hcount (hidle.withHolders _).ended hown
    · obtain rfl := Option.some.inj hstep
      -- the driver refused, and only the session's own count has changed
      refine hs.own hpt hidle fun d => ?_
      rw [Inventory.retains_noteRelease]
      exact Nat.sub_le _ _

/-- Learning a handle of a primary context changes what is known of that handle only. -/
theorem find_learnPrimary {g : Generations} {h : CUcontext} (hh : h ≠ 0) (d : Device) (c : CUcontext) :
    (g.learnPrimary h d).primaryDev.find c = if c = h then some d else g.primaryDev.find c := by
  rw [Generations.learnPrimary, if_neg hh, Table.find_insert]

/-- A handle that is learned again is learned for the same device. -/
theorem Sound.placed_learnPrimary (hs : Sound p s) (dev : Device) {st : Stamp} (hst : Recording.Placed s.gens st) :
    Recording.Placed (s.gens.learnPrimary (p.handle dev) dev) st := by
  intro d hd
  by_cases hnull : p.handle dev = 0
  · rw [Generations.learnPrimary, if_pos hnull]
    exact hst d hd
  · rw [find_learnPrimary hnull]
    split
    · rename_i hctx
      have hhandle := (hs.learned _ d (hst d hd)).1
      rw [p.injective (hctx.symm.trans hhandle)]
    · exact hst d hd

/-- A retain makes the context, or finds it, and its handle is learned. -/
theorem Kept.retain (hs : Kept p s) (hpt : s.parties who = some ⟨inv, .idle⟩)
    (hstep : s.step p (.retain who dev) = some t) : Kept p t := by
  rw [step, hpt] at hstep
  simp only at hstep
  split at hstep
  · cases hstep
  · rename_i hnull
    obtain rfl := Option.some.inj hstep
    have hframe : ∀ w pt, s.Fits w pt → Fits { s with
        gens := s.gens.learnPrimary (p.handle dev) dev
        holders := Function.update s.holders dev (who :: s.holders dev)
        known := Function.update s.known dev true } w pt := fun w pt hw =>
      hw.frame (fun _ hst => hs.placed_learnPrimary dev hst) (fun _ => le_rfl) (fun _ _ _ h _ => h) fun _ _ _ h _ => h
    refine hs.replace ⟨?_, ?_, ?_, hs.below, hs.alive⟩ rfl rfl rfl (by rw [hpt]; rfl) (fun w pt _ hw => hframe w pt
      (hs.fits w pt hw)) ?_ (hframe _ _ ((hs.fits who _ hpt).withRetains rfl rfl rfl rfl)) ?_
    · -- the handle that is learned is this device's, as the others are theirs
      intro c d hc
      rw [find_learnPrimary hnull] at hc
      split at hc
      · rename_i hctx
        cases hc
        exact ⟨hctx, hctx ▸ hnull⟩
      · exact hs.learned c d hc
    · intro d hd
      have hd' : Function.update s.known dev true d = true := hd
      rw [find_learnPrimary hnull]
      split
      · rename_i hctx
        rw [p.injective hctx]
      · rename_i hctx
        rw [Function.update_of_ne (fun h => hctx (congrArg p.handle h))] at hd'
        exact hs.known d hd'
    · intro d
      show (s.gens.learnPrimary (p.handle dev) dev).generation d = s.ends d
      rw [← hs.counted d, Generations.learnPrimary, if_neg hnull]
      rfl
    · -- one holder more takes nothing from the others
      intro w _ d
      show _ ≤ (Function.update s.holders dev (who :: s.holders dev) d).count w
      rw [Function.update_apply]
      split
      · rename_i hd
        rw [hd]
        exact List.count_le_count_cons
      · exact le_rfl
    · intro d
      have hcount := hs.retained who _ d hpt
      show (inv.noteRetain dev).retains d ≤ (Function.update s.holders dev (who :: s.holders dev) d).count who
      rw [Inventory.retains_noteRetain, Function.update_apply]
      by_cases hd : d = dev
      · subst hd
        rw [if_pos rfl, if_pos rfl, List.count_cons_self]
        exact Nat.succ_le_succ hcount
      · rw [if_neg hd, if_neg hd]
        exact hcount

/-- A reset ends the lifetime for all who retain the context. -/
theorem Kept.reset (hs : Kept p s) (hpt : s.parties who = some ⟨inv, .idle⟩) (hplain : s.Plain (.reset who dev))
    (hstep : s.step p (.reset who dev) = some t) : Kept p t := by
  rw [step, hpt] at hstep
  simp only at hstep
  split at hstep
  · cases hstep
  · obtain rfl := Option.some.inj hstep
    have hsound := hs.toSound.ended hplain
    refine hs.replace hsound rfl rfl rfl (by rw [hpt]; rfl) (fun w pt _ hw => (hs.fits w pt hw).ended)
      (fun _ _ _ => le_rfl) ?_ fun d => ?_
    · exact (hs.fits who _ hpt).ended.forgetPrimary hsound fun _ _ _ ho => dev_ne_of_ended ho
    · rw [Inventory.retains_forgetPrimary]
      exact hs.retained who _ d hpt

/-- A session that has done nothing yet. -/
theorem fits_empty (hnone : ∀ slot h o, s.objects slot h = some o → o.owner ≠ who) : s.Fits who {} where
  indexed := Inventory.indexed_empty
  placed := Inventory.stamped_empty
  entry slot h st hst := by cases slot <;> cases hst
  taken := nofun
  pending := nofun
  mine := nofun
  gone := nofun
  listed _ slot h o ho hown := absurd hown (hnone slot h o ho)

/-- A session begins with nothing. -/
theorem Kept.bind (hs : Kept p s) (hstep : s.step p (.bind who) = some t) : Kept p t := by
  rw [step] at hstep
  split at hstep
  · rename_i hnone
    split at hstep
    · rename_i hwho
      obtain rfl := Option.some.inj hstep
      -- no object was made in its name: those that are there have earlier owners
      have hfits : s.Fits who {} :=
        fits_empty fun slot h o ho hown => (hs.alive slot h o ho).2.ne (hown.trans hwho)
      have hframe : ∀ w pt, s.Fits w pt →
          Fits { s.setParty who (some {}) with live := s.live + 1, opened := s.opened + 1 } w pt := fun w pt hw =>
        hw.frame (fun _ h => h) (fun _ => le_rfl) (fun _ _ _ h _ => h) fun _ _ _ h _ => h
      refine ⟨⟨hs.learned, hs.known, hs.counted, hs.below, fun slot h o ho => ?_⟩, fun w pt hw => ?_,
        fun w pt dev hw => ?_,
        fun w pt hw => ?_, ?_⟩
      · exact ⟨(hs.alive slot h o ho).1, Nat.lt_succ_of_lt (hs.alive slot h o ho).2⟩
      · have hw' : Function.update s.parties who (some {}) w = some pt := hw
        by_cases h : w = who
        · subst h
          rw [Function.update_self, Option.some.injEq] at hw'
          exact hframe w pt (hw' ▸ hfits)
        · rw [Function.update_of_ne h] at hw'
          exact hframe w pt (hs.fits w pt hw')
      · have hw' : Function.update s.parties who (some {}) w = some pt := hw
        by_cases h : w = who
        · subst h
          rw [Function.update_self, Option.some.injEq] at hw'
          rw [← hw']
          exact Nat.zero_le _
        · rw [Function.update_of_ne h] at hw'
          exact hs.retained w pt dev hw'
      · have hw' : Function.update s.parties who (some {}) w = some pt := hw
        by_cases h : w = who
        · exact Nat.lt_succ_of_le (h.trans hwho).le
        · rw [Function.update_of_ne h] at hw'
          exact Nat.lt_succ_of_lt (hs.early w pt hw')
      · -- the list of the sessions there are, with the new one
        obtain ⟨l, hnodup, hmem, hlength⟩ := hs.bound
        refine ⟨who :: l, List.nodup_cons.mpr ⟨?_, hnodup⟩, fun w => ?_, by rw [List.length_cons, hlength]⟩
        · rw [hmem, hnone]
          decide
        · show _ ↔ (Function.update s.parties who (some {}) w).isSome
          rw [List.mem_cons, hmem]
          by_cases h : w = who
          · subst h
            simp
          · rw [Function.update_of_ne h]
            simp [h]
    · cases hstep
  · cases hstep

/-- A session that is done leaves. -/
theorem Kept.leave (hs : Kept p s) (hpt : s.parties who = some ⟨inv, .expiring⟩)
    (hstep : s.step p (.leave who) = some t) : Kept p t := by
  rw [step, hpt] at hstep
  obtain rfl := Option.some.inj hstep
  have hold : ∀ w pt, Function.update s.parties who none w = some pt → s.parties w = some pt := by
    intro w pt hw
    by_cases h : w = who
    · subst h
      rw [Function.update_self] at hw
      cases hw
    · rwa [Function.update_of_ne h] at hw
  refine ⟨⟨hs.learned, hs.known, hs.counted, hs.below, hs.alive⟩, fun w pt hw => ?_, fun w pt dev hw =>
    hs.retained w pt dev (hold w pt hw), fun w pt hw => hs.early w pt (hold w pt hw), ?_⟩
  · exact (hs.fits w pt (hold w pt hw)).frame (fun _ h => h) (fun _ => le_rfl) (fun _ _ _ h _ => h)
      fun _ _ _ h _ => h
  · obtain ⟨l, hnodup, hmem, hlength⟩ := hs.bound
    have hwho : who ∈ l := (hmem who).mpr (by rw [hpt]; rfl)
    refine ⟨l.erase who, hnodup.erase who, fun w => ?_, ?_⟩
    · show _ ↔ (Function.update s.parties who none w).isSome
      rw [hnodup.mem_erase_iff, hmem]
      by_cases h : w = who
      · subst h
        simp
      · rw [Function.update_of_ne h]
        simp [h]
    · rw [List.length_erase_of_mem hwho, hlength]

/-! ### Creating and freeing -/

/-- A creating call takes its stamp before it calls. -/
theorem Kept.stamp (hs : Kept p s) {slot : Option CtxMap} (hpt : s.parties who = some ⟨inv, .idle⟩)
    (hstep : s.step p (.stamp who slot dev) = some t) : Kept p t := by
  rw [step, hpt] at hstep
  simp only at hstep
  split at hstep
  · rename_i hknown
    obtain rfl := Option.some.inj hstep
    have hfits := hs.fits who _ hpt
    have hst : s.gens.stampContext (p.handle dev) = ⟨p.handle dev, some dev, s.gens.generation dev⟩ := by
      rw [Generations.stampContext, hs.known dev hknown]
    have hidle : ∀ slot h, Doing.idle ≠ .freed slot h := by
      intro slot h heq
      cases heq
    refine hs.own hpt ⟨hfits.indexed, hfits.placed, fun slot h st hst _ => hfits.entry slot h st hst (hidle slot h),
      ?_, ?_, ?_, ?_, ?_⟩ fun _ => le_rfl
    · intro slot' dev' st heq
      cases heq
      rw [hst]
      exact ⟨rfl, (hs.counted dev).le, hst ▸ Recording.placed_stampContext _ _⟩
    · intro _ _ _ heq
      cases heq
    · intro _ _ _ heq
      cases heq
    · intro _ _ heq
      cases heq
    · intro _ slot h o ho hown
      have hidle : Doing.idle ≠ .expiring := by
        intro heq
        cases heq
      obtain ⟨st, hst | hst, hrest⟩ := hfits.listed hidle slot h o ho hown
      · exact ⟨st, .inl hst, hrest⟩
      · cases hst
  · cases hstep

/-- The driver refuses, and nothing is made. -/
theorem Kept.refuse (hs : Kept p s) {slot : Option CtxMap} {st : Stamp}
    (hpt : s.parties who = some ⟨inv, .stamped slot dev st⟩) (hstep : s.step p (.refuse who) = some t) : Kept p t := by
  rw [step, hpt] at hstep
  obtain rfl := Option.some.inj hstep
  have hfits := hs.fits who _ hpt
  refine hs.own hpt ⟨hfits.indexed, hfits.placed, fun slot h st hst _ => hfits.entry slot h st hst nofun, nofun, nofun,
    nofun, nofun, fun _ slot h o ho hown => ?_⟩ fun _ => le_rfl
  obtain ⟨st, hst | hst, hrest⟩ := hfits.listed nofun slot h o ho hown
  · exact ⟨st, .inl hst, hrest⟩
  · cases hst

/-- One address gets another object, or none. -/
theorem objects_setObject (s : Sharing) (slot slot' : Option CtxMap) (h h' : ℕ) (o : Option Object) :
    (s.setObject slot h o).objects slot' h' = if slot' = slot ∧ h' = h then o else s.objects slot' h' := by
  show Function.update s.objects slot (Function.update (s.objects slot) h o) slot' h' = _
  by_cases hslot : slot' = slot
  · subst hslot
    rw [Function.update_self, Function.update_apply]
    simp
  · rw [Function.update_of_ne hslot]
    simp [hslot]

/-- The driver makes an object at an address that is free, perhaps one that was used before. -/
theorem Kept.create (hs : Kept p s) {slot : Option CtxMap} {st : Stamp} {h : ℕ}
    (hpt : s.parties who = some ⟨inv, .stamped slot dev st⟩) (hstep : s.step p (.create who h) = some t) :
    Kept p t := by
  rw [step, hpt] at hstep
  simp only at hstep
  split at hstep
  · rename_i hguard
    obtain ⟨-, hh, hfree⟩ := hguard
    obtain rfl := Option.some.inj hstep
    have hfits := hs.fits who _ hpt
    obtain ⟨hdev, hle, hst⟩ := hfits.taken slot dev st rfl
    -- the address was not in use, so what the others have is elsewhere
    have hkeep : ∀ w slot' h' d, s.objects slot' h' = some ⟨w, d, s.ends d⟩ →
        (s.setObject slot h (some ⟨who, dev, s.ends dev⟩)).objects slot' h' = some ⟨w, d, s.ends d⟩ := by
      intro w slot' h' d ho
      rw [objects_setObject, if_neg]
      · exact ho
      · rintro ⟨rfl, rfl⟩
        rw [hfree] at ho
        cases ho
    have hback : ∀ w slot' h' st', s.Backed w slot' h' st' →
        (s.setObject slot h (some ⟨who, dev, s.ends dev⟩)).Backed w slot' h' st' := fun w slot' h' st' hback =>
      hback.frame (fun _ => le_rfl) fun slot'' h'' d ho _ => hkeep w slot'' h'' d ho
    refine hs.replace ⟨hs.learned, hs.known, hs.counted, hs.below, fun slot' h' o ho => ?_⟩ rfl rfl rfl
      (by rw [hpt]; rfl) (fun w pt hw hpt' => ?_) (fun _ _ _ => le_rfl) ?_
      (fun d => hs.retained who ⟨inv, .stamped slot dev st⟩ d hpt)
    · rw [objects_setObject] at ho
      split at ho
      · obtain rfl := Option.some.inj ho
        exact ⟨rfl, hs.early who _ hpt⟩
      · exact hs.alive slot' h' o ho
    · refine (hs.fits w pt hpt').frame (fun _ h => h) (fun _ => le_rfl) (fun slot' h' d ho _ => hkeep w slot' h' d ho)
        fun slot' h' o ho hown => ?_
      rw [objects_setObject] at ho
      split at ho
      · obtain rfl := Option.some.inj ho
        exact absurd hown.symm hw
      · exact ho
    · refine ⟨hfits.indexed, hfits.placed, fun slot' h' st' hst' _ =>
        hback who slot' h' st' (hfits.entry slot' h' st' hst' nofun), nofun, ?_, ?_, nofun, ?_⟩
      · intro slot' h' st' heq
        cases heq
        refine ⟨hh, ⟨dev, hdev, hle, fun _ => ?_⟩, hst⟩
        rw [objects_setObject, if_pos ⟨rfl, rfl⟩]
        rfl
      · intro slot' h' st' heq o ho _
        cases heq
        rw [objects_setObject, if_pos ⟨rfl, rfl⟩, Option.some.injEq] at ho
        exact ho ▸ ⟨hdev, hle⟩
      · intro _ slot' h' o ho hown
        rw [objects_setObject] at ho
        split at ho
        · rename_i heq
          obtain ⟨rfl, rfl⟩ := heq
          obtain rfl := Option.some.inj ho
          exact ⟨st, .inr rfl, hdev, hle⟩
        · obtain ⟨st', hst' | hst', hrest⟩ := hfits.listed nofun slot' h' o ho hown
          · exact ⟨st', .inl hst', hrest⟩
          · cases hst'
  · cases hstep

/-- What was made is noted with the stamp taken before. -/
theorem Kept.note (hs : Kept p s) {slot : Option CtxMap} {st : Stamp} {h : ℕ}
    (hpt : s.parties who = some ⟨inv, .made slot h st⟩) (hstep : s.step p (.note who) = some t) : Kept p t := by
  rw [step, hpt] at hstep
  obtain rfl := Option.some.inj hstep
  have hfits := hs.fits who _ hpt
  obtain ⟨hh, hback, hst⟩ := hfits.pending slot h st rfl
  refine hs.own hpt ⟨hfits.indexed.noteAt, hfits.placed.noteAt hst, ?_, nofun, nofun, nofun, nofun, ?_⟩ fun d =>
    (Inventory.retains_noteAt d).le
  · intro slot' h' st' hst' _
    rw [Inventory.made_noteAt hh] at hst'
    split at hst'
    · rename_i heq
      obtain ⟨rfl, rfl⟩ := heq
      exact Option.some.inj hst' ▸ hback
    · exact hfits.entry slot' h' st' hst' nofun
  · intro _ slot' h' o ho hown
    obtain ⟨st', hst', hdev, hle⟩ := hfits.listed nofun slot' h' o ho hown
    rw [Inventory.made_noteAt hh]
    by_cases heq : slot' = slot ∧ h' = h
    · obtain ⟨rfl, rfl⟩ := heq
      exact ⟨st, .inl (if_pos ⟨rfl, rfl⟩), hfits.mine _ _ st rfl o ho hown⟩
    · rw [if_neg heq]
      rcases hst' with hst' | hst'
      · exact ⟨st', .inl hst', hdev, hle⟩
      · cases hst'
        exact absurd ⟨rfl, rfl⟩ heq

/-- Once an object of `who` is gone, what the others have is still there, and what `who` has elsewhere. -/
theorem keep_of_setObject {slot : Option CtxMap} {h : ℕ} (hown : ∀ o, s.objects slot h = some o → o.owner = who)
    (w : Tenant) (slot' : Option CtxMap) (h' : ℕ) (d : Device) (hw : w = who → ¬(slot' = slot ∧ h' = h))
    (ho : s.objects slot' h' = some ⟨w, d, s.ends d⟩) :
    (s.setObject slot h none).objects slot' h' = some ⟨w, d, s.ends d⟩ := by
  rw [objects_setObject, if_neg]
  · exact ho
  · rintro ⟨rfl, rfl⟩
    exact hw (hown _ ho) ⟨rfl, rfl⟩

/-- Taking an object away leaves the others. -/
theorem of_setObject_none {slot : Option CtxMap} {h : ℕ} (slot' : Option CtxMap) (h' : ℕ) (o : Object)
    (ho : (s.setObject slot h none).objects slot' h' = some o) : s.objects slot' h' = some o := by
  rw [objects_setObject] at ho
  split at ho
  · cases ho
  · exact ho

/-- An object of `who` goes, and `who` changes with it. -/
theorem Kept.replaceFreed (hs : Kept p s) {slot : Option CtxMap} {h : ℕ} {pt₀ : Party}
    (hpt₀ : s.parties who = some pt₀) (hown : ∀ o, s.objects slot h = some o → o.owner = who)
    (hpt : (s.setObject slot h none).Fits who pt) (hretains : ∀ d, pt.inv.retains d ≤ pt₀.inv.retains d) :
    Kept p ((s.setObject slot h none).setParty who (some pt)) := by
  refine hs.replace ⟨hs.learned, hs.known, hs.counted, hs.below, fun slot' h' o ho =>
    hs.alive slot' h' o (of_setObject_none slot' h' o ho)⟩ rfl rfl rfl (by rw [hpt₀]; rfl) (fun w pt hw hpt' => ?_)
    (fun _ _ _ => le_rfl) hpt (fun d => (hretains d).trans (hs.retained who pt₀ d hpt₀))
  exact (hs.fits w pt hpt').frame (fun _ h => h) (fun _ => le_rfl)
    (fun slot' h' d ho _ => keep_of_setObject hown w slot' h' d (fun h => absurd h hw) ho)
    fun slot' h' o ho _ => of_setObject_none slot' h' o ho

/-- A session frees an object of its own. -/
theorem Kept.free (hs : Kept p s) {slot : Option CtxMap} {h : ℕ} (hpt : s.parties who = some ⟨inv, .idle⟩)
    (hplain : s.Plain (.free who slot h)) (hstep : s.step p (.free who slot h) = some t) : Kept p t := by
  rw [step, hpt] at hstep
  simp only at hstep
  split at hstep
  · obtain rfl := Option.some.inj hstep
    have hfits := hs.fits who _ hpt
    refine hs.replaceFreed hpt hplain ⟨hfits.indexed, hfits.placed, ?_, nofun, nofun, nofun, ?_, ?_⟩ fun _ => le_rfl
    · intro slot' h' st' hst' hdoing
      obtain ⟨d, hdev, hle, hback⟩ := hfits.entry slot' h' st' hst' nofun
      refine ⟨d, hdev, hle, fun hgen => keep_of_setObject hplain who slot' h' d (fun _ heq => hdoing ?_) (hback hgen)⟩
      rw [heq.1, heq.2]
    · intro slot' h' heq o ho
      cases heq
      rw [objects_setObject, if_pos ⟨rfl, rfl⟩] at ho
      cases ho
    · intro _ slot' h' o ho hown
      obtain ⟨st', hst' | hst', hrest⟩ := hfits.listed nofun slot' h' o (of_setObject_none slot' h' o ho) hown
      · exact ⟨st', .inl hst', hrest⟩
      · cases hst'
  · cases hstep

/-- What was freed is forgotten. -/
theorem Kept.forget (hs : Kept p s) {slot : Option CtxMap} {h : ℕ} (hpt : s.parties who = some ⟨inv, .freed slot h⟩)
    (hstep : s.step p (.forget who) = some t) : Kept p t := by
  rw [step, hpt] at hstep
  obtain rfl := Option.some.inj hstep
  have hfits := hs.fits who _ hpt
  refine hs.own hpt ⟨hfits.indexed.forgetAt, hfits.placed.forgetAt, ?_, nofun, nofun, nofun, nofun, ?_⟩ fun d =>
    (Inventory.retains_forgetAt d).le
  · intro slot' h' st' hst' _
    rw [Inventory.made_forgetAt] at hst'
    split at hst'
    · cases hst'
    · rename_i hne
      refine hfits.entry slot' h' st' hst' fun heq => hne ?_
      cases heq
      exact ⟨rfl, rfl⟩
  · intro _ slot' h' o ho hown
    obtain ⟨st', hst' | hst', hrest⟩ := hfits.listed nofun slot' h' o ho hown
    · refine ⟨st', .inl ?_, hrest⟩
      rw [Inventory.made_forgetAt, if_neg]
      · exact hst'
      · rintro ⟨rfl, rfl⟩
        exact hfits.gone _ _ rfl o ho hown
    · cases hst'

/-- An expiry begins between two calls. -/
theorem Kept.expire (hs : Kept p s) (hpt : s.parties who = some ⟨inv, .idle⟩)
    (hstep : s.step p (.expire who) = some t) : Kept p t := by
  rw [step, hpt] at hstep
  obtain rfl := Option.some.inj hstep
  have hfits := hs.fits who _ hpt
  exact hs.own hpt ⟨hfits.indexed, hfits.placed, fun slot h st hst _ => hfits.entry slot h st hst nofun, nofun, nofun,
    nofun, nofun, fun h => absurd rfl h⟩ fun _ => le_rfl

/-- An entry that passes the check of an expiry stands for an object of the session's own. -/
theorem Kept.own_object (hs : Kept p s) (hpt : s.parties who = some ⟨inv, .expiring⟩) {slot : Option CtxMap} {h : ℕ}
    {st : Stamp} (hst : inv.made slot h = some st) (hstill : s.gens.stillCurrent st.dev st.gen = true) :
    ∃ d, st.dev = some d ∧ s.objects slot h = some ⟨who, d, s.ends d⟩ := by
  obtain ⟨d, hdev, hle, hback⟩ := (hs.fits who _ hpt).entry slot h st hst nofun
  refine ⟨d, hdev, hback ?_⟩
  unfold Generations.stillCurrent at hstill
  rw [hdev] at hstill
  split at hstill
  · cases hstill
  · rw [← hs.counted d]
    exact (of_decide_eq_true hstill).symm

/-- An entry that passes the check is given back, and it is the session's own. -/
theorem Kept.giveBack (hs : Kept p s) {slot : Option CtxMap} {h : ℕ} {ok : Bool}
    (hpt : s.parties who = some ⟨inv, .expiring⟩) (hstep : s.step p (.giveBack who slot h ok) = some t) :
    Kept p t := by
  rw [step, hpt] at hstep
  simp only at hstep
  have hfits := hs.fits who _ hpt
  split at hstep
  · cases hstep
  · rename_i st hst
    split at hstep
    · rename_i hcheck
      obtain rfl := Option.some.inj hstep
      obtain ⟨d, -, ho⟩ := hs.own_object hpt hst hcheck.1
      have hown : ∀ o, s.objects slot h = some o → o.owner = who := by
        intro o ho'
        rw [ho, Option.some.injEq] at ho'
        exact ho' ▸ rfl
      -- what is there is gone, and no other entry stands for it
      refine hs.replaceFreed hpt hown ⟨hfits.indexed.forgetAt, hfits.placed.forgetAt, ?_, nofun, nofun, nofun, nofun,
        fun h => absurd rfl h⟩ fun d => (Inventory.retains_forgetAt d).le
      intro slot' h' st' hst' _
      rw [Inventory.made_forgetAt] at hst'
      split at hst'
      · cases hst'
      · rename_i hne
        obtain ⟨d, hdev, hle, hback⟩ := hfits.entry slot' h' st' hst' nofun
        exact ⟨d, hdev, hle, fun hgen => keep_of_setObject hown who slot' h' d (fun _ => hne) (hback hgen)⟩
    · obtain rfl := Option.some.inj hstep
      -- an entry that fails the check is dropped, and the driver is not called
      refine hs.own hpt ⟨hfits.indexed.forgetAt, hfits.placed.forgetAt, ?_, nofun, nofun, nofun, nofun,
        fun h => absurd rfl h⟩ fun d => (Inventory.retains_forgetAt d).le
      intro slot' h' st' hst' _
      rw [Inventory.made_forgetAt] at hst'
      split at hst'
      · cases hst'
      · exact hfits.entry slot' h' st' hst' nofun

/-- **Each step keeps the invariant.** -/
theorem Kept.step (hs : Kept p s) {a : SharingAction} (hplain : s.Plain a) (hstep : s.step p a = some t) :
    Kept p t := by
  have hready := ready_of_step hstep
  cases a with
  | bind who => exact hs.bind hstep
  | retain who dev =>
      obtain ⟨inv, hpt⟩ := hready
      exact hs.retain hpt hstep
  | release who dev answered =>
      obtain ⟨inv, hpt⟩ := hready
      exact hs.release hpt hplain hstep
  | reset who dev =>
      obtain ⟨inv, hpt⟩ := hready
      exact hs.reset hpt hplain hstep
  | stamp who slot dev =>
      obtain ⟨inv, hpt⟩ := hready
      exact hs.stamp hpt hstep
  | create who h =>
      obtain ⟨inv, slot, dev, st, hpt⟩ := hready
      exact hs.create hpt hstep
  | refuse who =>
      obtain ⟨inv, slot, dev, st, hpt⟩ := hready
      exact hs.refuse hpt hstep
  | note who =>
      obtain ⟨inv, slot, h, st, hpt⟩ := hready
      exact hs.note hpt hstep
  | free who slot h =>
      obtain ⟨inv, hpt⟩ := hready
      exact hs.free hpt hplain hstep
  | forget who =>
      obtain ⟨inv, slot, h, hpt⟩ := hready
      exact hs.forget hpt hstep
  | expire who =>
      obtain ⟨inv, hpt⟩ := hready
      exact hs.expire hpt hstep
  | giveBack who slot h ok =>
      obtain ⟨inv, hpt⟩ := hready
      exact hs.giveBack hpt hstep
  | returnRetain who dev ok answered =>
      obtain ⟨inv, hpt⟩ := hready
      exact hs.returnRetain hpt hplain hstep
  | leave who =>
      obtain ⟨inv, hpt⟩ := hready
      exact hs.leave hpt hstep

/-- The invariant holds in every run along `Plain`. -/
theorem always_kept (p : PrimaryHandles) : Always (step p) Plain {} (Kept p) :=
  .of_step (kept_init p) fun _ _ _ hs hplain hstep => hs.step hplain hstep

/-! ## Whole runs -/

/-- **An expiry frees its own.** In every run along `Plain`, whatever the driver reuses: an entry that passes the check
stands for an object that the expiring session made in the current lifetime of the context. Where an entry is left
alone and the session has an object at that address all the same, in a context of the same device, that object is of a
later lifetime than the stamp. -/
theorem expiry_frees_own (p : PrimaryHandles) (as : List SharingAction) (s : Sharing)
    (hplain : Along (step p) Plain {} as) (hrun : run (step p) {} as = some s) {who : Tenant} {inv : Inventory}
    (hpt : s.parties who = some ⟨inv, .expiring⟩) {slot : Option CtxMap} {h : ℕ} {st : Stamp}
    (hst : inv.made slot h = some st) :
    (s.gens.stillCurrent st.dev st.gen = true → ∃ d, st.dev = some d ∧ s.objects slot h = some ⟨who, d, s.ends d⟩) ∧
      (s.gens.stillCurrent st.dev st.gen = false →
        ∀ o, s.objects slot h = some o → o.owner = who → st.dev = some o.dev → st.gen < o.life) := by
  have hs := always_kept p as s hplain hrun
  refine ⟨hs.own_object hpt hst, fun hgone o ho _ hdev => ?_⟩
  obtain ⟨d, hd, hle, -⟩ := (hs.fits who _ hpt).entry slot h st hst nofun
  obtain rfl := Option.some.inj (hd.symm.trans hdev)
  have hbelow := hs.below o.dev
  rw [(hs.alive slot h o ho).1]
  unfold Generations.stillCurrent at hgone
  rw [hdev] at hgone
  split at hgone
  · omega
  · have hne : s.ends o.dev ≠ st.gen := by
      rw [← hs.counted]
      exact of_decide_eq_false hgone
    omega

/-- Two sessions make a stream each in the primary context of the first device, and the first one expires. -/
def shared : List SharingAction :=
  [.bind 0, .bind 1, .retain 0 0, .retain 1 0, .stamp 0 (some .kStreams) 0, .create 0 64, .note 0,
    .stamp 1 (some .kStreams) 0, .create 1 72, .note 1, .expire 0]

/-- The run below is along `Plain`. -/
theorem plain_shared : Along (step Recording.someHandles) Plain {} shared :=
  ⟨trivial, trivial, trivial, trivial, trivial, trivial, trivial, trivial, trivial, trivial, trivial, trivial⟩

/-- The entry of the first session passes the check, and stands for the stream it made. -/
theorem expiry_frees_own_shared : ∃ s inv, run (step Recording.someHandles) {} shared = some s ∧
    s.parties 0 = some ⟨inv, .expiring⟩ ∧ s.objects (some .kStreams) 64 = some ⟨0, 0, 0⟩ := by
  have hsome : (run (step Recording.someHandles) {} shared).bind (fun s => (s.parties 0).map fun pt => (pt.doing,
      pt.inv.made (some .kStreams) 64)) = some (.expiring, some ⟨2, some 0, 0⟩) := by decide
  have hlive : (run (step Recording.someHandles) {} shared).map (fun s => s.gens.stillCurrent (some 0) 0) =
      some true := by decide
  have hends : (run (step Recording.someHandles) {} shared).map (fun s => s.ends 0) = some 0 := by decide
  obtain ⟨s, hs, hparty⟩ := Option.bind_eq_some_iff.mp hsome
  obtain ⟨⟨inv, doing⟩, hpt, heq⟩ := Option.map_eq_some_iff.mp hparty
  obtain ⟨rfl, hst⟩ := Prod.mk.inj heq
  rw [hs] at hlive hends
  obtain ⟨d, hd, ho⟩ := (expiry_frees_own Recording.someHandles shared s plain_shared hs hpt hst).1 (Option.some.inj hlive)
  obtain rfl := Option.some.inj hd
  rw [show s.ends 0 = 0 from Option.some.inj hends] at ho
  exact ⟨s, inv, hs, hpt, ho⟩

/-- **Nothing is missing.** In every run along `Plain`, whatever a session has made and neither freed nor lost is on its
list, once the call that made it is over. -/
theorem made_is_listed (p : PrimaryHandles) (as : List SharingAction) (s : Sharing)
    (hplain : Along (step p) Plain {} as) (hrun : run (step p) {} as = some s) {who : Tenant} {inv : Inventory}
    (hpt : s.parties who = some ⟨inv, .idle⟩) {slot : Option CtxMap} {h : ℕ} {o : Object}
    (ho : s.objects slot h = some o) (hown : o.owner = who) :
    ∃ st, inv.made slot h = some st ∧ st.dev = some o.dev ∧ st.gen ≤ o.life := by
  obtain ⟨st, hst | hst, hrest⟩ := ((always_kept p as s hplain hrun).fits who _ hpt).listed nofun slot h o ho hown
  · exact ⟨st, hst, hrest⟩
  · cases hst

/-- The stream of the second session is on its list. -/
theorem made_is_listed_shared : ∃ s inv st, run (step Recording.someHandles) {} shared = some s ∧
    s.parties 1 = some ⟨inv, .idle⟩ ∧ inv.made (some .kStreams) 72 = some st ∧ st.dev = some 0 := by
  have hsome : (run (step Recording.someHandles) {} shared).bind (fun s => (s.parties 1).map Party.doing) =
      some .idle := by decide
  have hthere : (run (step Recording.someHandles) {} shared).map (fun s => s.objects (some .kStreams) 72) =
      some (some ⟨1, 0, 0⟩) := by decide
  obtain ⟨s, hs, hparty⟩ := Option.bind_eq_some_iff.mp hsome
  obtain ⟨⟨inv, doing⟩, hpt, rfl⟩ := Option.map_eq_some_iff.mp hparty
  rw [hs] at hthere
  obtain ⟨st, hst, hdev, -⟩ := made_is_listed Recording.someHandles shared s plain_shared hs hpt (Option.some.inj hthere) rfl
  exact ⟨s, inv, st, hs, hpt, hst, hdev⟩

/-! ### What the others can do -/

/-- The lifetimes go on, and the objects of `w` stay. -/
def Spares (w : Tenant) (dev : Device) (s t : Sharing) : Prop :=
  t.ends dev = s.ends dev ∧ ∀ slot h o, s.objects slot h = some o → o.owner = w → o.dev = dev → t.objects slot h = some o

/-- The end of another device's context spares this one. -/
theorem spares_endLife {w : Tenant} {dev' : Device} (hne : dev ≠ dev') : Spares w dev s (s.endLife dev') := by
  refine ⟨Function.update_of_ne hne _ _, fun slot h o ho _ hdev => ?_⟩
  rw [← hdev] at hne
  exact Option.filter_eq_some_iff.mpr ⟨ho, by simpa using hne⟩

/-- A retain of `w` is still there when another session has released one. -/
theorem Kept.dropHolder_ne_nil (hs : Kept p s) {w : Tenant} (hne : w ≠ who) (hretains : s.retains w dev ≠ 0)
    (hmem : who ∈ s.holders dev) : dropHolder who (s.holders dev) ≠ [] := by
  cases hw : s.parties w with
  | none => simp [retains, hw] at hretains
  | some pt =>
      rw [retains, hw] at hretains
      have hcount := List.count_pos_iff.mpr (hs.mem_holders hw hretains)
      rw [← count_dropHolder_of_ne hne hmem] at hcount
      exact List.ne_nil_of_mem (List.count_pos_iff.mp hcount)

/-- A release by another session that has the retain spares a context which is retained besides. -/
theorem Kept.spares_driverRelease (hs : Kept p s) {w : Tenant} (hne : w ≠ who) (hretains : s.retains w dev ≠ 0)
    {dev' : Device} (hmem : who ∈ s.holders dev') : Spares w dev s (s.driverRelease who dev') := by
  by_cases hdev : dev = dev'
  · subst hdev
    have hleft := hs.dropHolder_ne_nil hne hretains hmem
    simp only [driverRelease, hleft, if_false]
    exact ⟨rfl, fun _ _ _ ho _ _ => ho⟩
  · rw [driverRelease]
    split
    · exact spares_endLife (s := { s with holders := _ }) hdev
    · exact ⟨rfl, fun _ _ _ ho _ _ => ho⟩

/-- Two sessions are two. -/
theorem Kept.two_le_live (hs : Kept p s) {w : Tenant} (hne : w ≠ who) (hwho : (s.parties who).isSome)
    (hw : (s.parties w).isSome) : 1 < s.live := by
  obtain ⟨l, hnodup, hmem, hlength⟩ := hs.bound
  have hsub : [w, who].Subperm l := by
    refine List.subperm_of_subset (by simpa using hne) fun x hx => ?_
    rcases List.mem_cons.mp hx with rfl | hx
    · exact (hmem _).mpr hw
    · rw [List.mem_singleton.mp hx]
      exact (hmem _).mpr hwho
  rw [← hlength]
  exact hsub.length_le

/-- A change at an address where the session has nothing spares it. -/
theorem spares_setObject {w : Tenant} {slot : Option CtxMap} {h : ℕ} {o : Option Object}
    (hown : ∀ o', s.objects slot h = some o' → o'.owner ≠ w) : Spares w dev s (s.setObject slot h o) := by
  refine ⟨rfl, fun slot' h' o' ho' hw _ => ?_⟩
  rw [objects_setObject, if_neg]
  · exact ho'
  · rintro ⟨rfl, rfl⟩
    exact hown o' ho' hw

/-- **Contexts are kept.** In every run along `Plain`, as long as a session retains a primary context by its own count,
no step of another session, whether a release, a reset or an expiry, ends that context or takes away what the session
made in it. The step is along `Plain` too: a release of a retain that the other session does not have would. -/
theorem context_kept (p : PrimaryHandles) (as : List SharingAction) (s : Sharing)
    (hplain : Along (step p) Plain {} as) (hrun : run (step p) {} as = some s) {a : SharingAction} (ha : s.Plain a)
    (hstep : s.step p a = some t) {w : Tenant} (hne : w ≠ a.who) (hretains : s.retains w dev ≠ 0) :
    Spares w dev s t := by
  have hs := always_kept p as s hplain hrun
  -- most actions touch neither the contexts nor the objects of others
  have hquiet : Spares w dev s s := ⟨rfl, fun _ _ _ ho _ _ => ho⟩
  have hready := ready_of_step hstep
  cases a with
  | bind who =>
      rw [step] at hstep
      split at hstep
      · split at hstep <;> cases hstep
        exact hquiet
      · cases hstep
  | retain who dev' =>
      obtain ⟨inv, hpt⟩ := hready
      rw [step, hpt] at hstep
      simp only at hstep
      split at hstep <;> cases hstep
      exact hquiet
  | release who dev' answered =>
      obtain ⟨inv, hpt⟩ := hready
      rw [step, hpt] at hstep
      have hheld := ha.1
      rw [retains, hpt] at hheld
      -- the retain that is given back is this session's, and the other one's is still there
      have hspares := hs.spares_driverRelease hne hretains (hs.mem_holders hpt hheld)
      simp only at hstep
      split at hstep
      · cases hstep
      · split at hstep <;> cases hstep <;> exact hspares
  | reset who dev' =>
      obtain ⟨inv, hpt⟩ := hready
      rw [step, hpt] at hstep
      have hw : (s.parties w).isSome := by
        cases hw : s.parties w with
        | none => simp [retains, hw] at hretains
        | some pt => rfl
      -- a reset is refused while there is another session
      have hlive := hs.two_le_live hne (by rw [SharingAction.who, hpt]; rfl) hw
      simp only [hlive, if_true] at hstep
      cases hstep
  | stamp who slot dev' =>
      obtain ⟨inv, hpt⟩ := hready
      rw [step, hpt] at hstep
      simp only at hstep
      split at hstep <;> cases hstep
      exact hquiet
  | create who h =>
      obtain ⟨inv, slot, dev', st, hpt⟩ := hready
      rw [step, hpt] at hstep
      simp only at hstep
      split at hstep
      · rename_i hguard
        cases hstep
        have hempty : ∀ o, s.objects slot h = some o → o.owner ≠ w := by
          intro o ho
          rw [hguard.2.2] at ho
          cases ho
        have hspares : Spares w dev s (s.setObject slot h (some ⟨who, dev', s.ends dev'⟩)) := spares_setObject hempty
        exact ⟨hspares.1, hspares.2⟩
      · cases hstep
  | free who slot h =>
      obtain ⟨inv, hpt⟩ := hready
      rw [step, hpt] at hstep
      simp only at hstep
      split at hstep <;> cases hstep
      -- what it frees is its own
      exact spares_setObject fun o ho hw => hne (hw.symm.trans (ha o ho))
  | giveBack who slot h ok =>
      obtain ⟨inv, hpt⟩ := hready
      rw [step, hpt] at hstep
      simp only at hstep
      split at hstep
      · cases hstep
      · rename_i st hst
        split at hstep <;> cases hstep
        · rename_i hcheck
          -- an entry that passes the check stands for an object of its own
          obtain ⟨d, -, ho⟩ := hs.own_object hpt hst hcheck.1
          refine spares_setObject fun o ho' hw => hne ?_
          obtain rfl := Option.some.inj (ho.symm.trans ho')
          exact hw.symm
        · exact hquiet
  | returnRetain who dev' ok answered =>
      obtain ⟨inv, hpt⟩ := hready
      rw [step, hpt] at hstep
      simp only at hstep
      split at hstep
      · cases hstep
      · rename_i hguard
        have hspares := hs.spares_driverRelease hne hretains (hs.mem_holders hpt (not_or.mp hguard).1)
        split at hstep <;> cases hstep
        · split <;> exact hspares
        · exact hquiet
  | refuse who =>
      obtain ⟨inv, slot, dev', st, hpt⟩ := hready
      rw [step, hpt] at hstep
      cases hstep
      exact hquiet
  | note who =>
      obtain ⟨inv, slot, h, st, hpt⟩ := hready
      rw [step, hpt] at hstep
      cases hstep
      exact hquiet
  | forget who =>
      obtain ⟨inv, slot, h, hpt⟩ := hready
      rw [step, hpt] at hstep
      cases hstep
      exact hquiet
  | expire who =>
      obtain ⟨inv, hpt⟩ := hready
      rw [step, hpt] at hstep
      cases hstep
      exact hquiet
  | leave who =>
      obtain ⟨inv, hpt⟩ := hready
      rw [step, hpt] at hstep
      cases hstep
      exact hquiet

/-- The first session gives back its retain as it expires, and the stream of the second is still there. -/
theorem context_kept_shared : ∃ s t, run (step Recording.someHandles) {} shared = some s ∧
    s.step Recording.someHandles (.returnRetain 0 0 true true) = some t ∧
      t.objects (some .kStreams) 72 = some ⟨1, 0, 0⟩ := by
  have hsome : (run (step Recording.someHandles) {} shared).map (fun s => (s.retains 1 0,
      (s.step Recording.someHandles (.returnRetain 0 0 true true)).isSome, s.objects (some .kStreams) 72, s.ends 0)) =
      some (1, true, some ⟨1, 0, 0⟩, 0) := by decide
  obtain ⟨s, hs, heq⟩ := Option.map_eq_some_iff.mp hsome
  obtain ⟨hretains, hstep, hthere, hends⟩ := by simpa only [Prod.mk.injEq] using heq
  obtain ⟨t, ht⟩ := Option.isSome_iff_exists.mp hstep
  have hlast : s.Plain (.returnRetain 0 0 true true) := ⟨rfl, by rw [hends]; decide⟩
  have hspares : Spares 1 0 s t :=
    context_kept Recording.someHandles shared s plain_shared hs hlast ht (by decide) (by omega)
  exact ⟨s, t, hs, ht, hspares.2 _ _ _ hthere rfl rfl⟩

end Sharing

end Rgpu
