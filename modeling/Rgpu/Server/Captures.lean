import Rgpu.Server.ReverseIndex

/-! # The record of open captures (`server/inventory.cpp`)

A session lists the stream captures that it began and has not ended, so that expiry can end them. Beside the record
stands the driver, with the streams that there are and the captures that the session has open.

* **`Capturing.step`** — what a session does with streams, captures and contexts, and another session with streams
whose handles are used again.
* **`Capturing.captures_exact`** — the record lists the open captures and expiry ends them, where a capture is ended by
the calls that say so, and captured are the session's own streams. -/

namespace Rgpu

open Foundations

/-- Which device's primary context a handle is: the driver hands out one stable handle for each. -/
structure PrimaryDevices where
  device : CUcontext → Option Device
  unique : ∀ c c' d, device c = some d → device c' = some d → c = c'

/-- A stream of the driver. -/
structure DriverStream where
  ctx : CUcontext
  /-- The session made it. -/
  own : Bool
  deriving DecidableEq

/-- Which capture an entry is about. -/
def OpenCapture.key (c : OpenCapture) : ℕ × CUcontext := (c.stream, c.where'.ctx)

/-- A session's record, the tables of the process, and the driver. -/
structure Capturing where
  inv : Inventory := {}
  gens : Generations := {}
  /-- The streams that have been made. -/
  streams : ℕ → Option DriverStream := fun _ => none
  /-- The captures that the session has open, in the order begun: on which stream, in which context. -/
  opened : List (ℕ × CUcontext) := []

/-- A call, with the calling thread's current context where it matters; `ok` if the driver reports success. -/
inductive CaptureAction
  /-- `cuDevicePrimaryCtxRetain` -/
  | retain (c : CUcontext) (dev : Device)
  /-- `cuStreamCreate` -/
  | streamCreate (h : ℕ) (current : CUcontext)
  /-- `cuStreamDestroy_v2` -/
  | streamDestroy (h : ℕ) (ok : Bool)
  /-- `cuStreamBeginCapture_v2` -/
  | beginCapture (h : ℕ) (current : CUcontext) (ok : Bool)
  /-- `cuStreamEndCapture`, which may end a capture without success. -/
  | endCapture (h : ℕ) (current : CUcontext) (ok ended : Bool) (graph : ℕ)
  /-- `cuCtxDestroy_v2` and `cuCtxDetach` -/
  | ctxDestroy (c : CUcontext) (ok : Bool)
  /-- `cuDevicePrimaryCtxReset_v2`, or the last `cuDevicePrimaryCtxRelease_v2` in the process. -/
  | primaryEnd (dev : Device) (ok : Bool)
  /-- Another session makes a stream. -/
  | otherCreate (h : ℕ) (c : CUcontext)
  /-- Another session destroys a stream of its own. -/
  | otherDestroy (h : ℕ)

namespace Capturing

/-- The handles below are the null stream's and those of the default streams by name. -/
def kFirstStream : ℕ := 3

/-- The context of a stream; of a default stream, the current one. -/
def place (s : Capturing) (h : ℕ) (current : CUcontext) : CUcontext :=
  match s.streams h with
  | some st => st.ctx
  | none => current

/-- A primary context is retained before it is used. -/
def Usable (p : PrimaryDevices) (s : Capturing) (c : CUcontext) : Prop :=
  c ≠ 0 ∧ ∀ d, p.device c = some d → s.gens.primaryDev.find c = some d

instance (p : PrimaryDevices) (s : Capturing) (c : CUcontext) : Decidable (s.Usable p c) :=
  match h : p.device c with
  | none => decidable_of_iff (c ≠ 0) ⟨fun hc => ⟨hc, fun d hd => by rw [h] at hd; cases hd⟩, And.left⟩
  | some d => decidable_of_iff (c ≠ 0 ∧ s.gens.primaryDev.find c = some d)
      ⟨fun hc => ⟨hc.1, fun d' hd => by rw [h] at hd; cases hd; exact hc.2⟩, fun hc => ⟨hc.1, hc.2 d h⟩⟩

/-- `w_cuStreamCreate` -/
def created (s : Capturing) (h : ℕ) (current : CUcontext) : Capturing :=
  { s with
    inv := s.inv.note .streams h (s.gens.stampContext current)
    streams := Function.update s.streams h (some ⟨current, true⟩) }

/-- `w_cuStreamDestroy_v2`, when the driver has destroyed the stream and its capture with it. -/
def destroyed (s : Capturing) (h : ℕ) : Capturing :=
  { s with
    inv := if h = 0 then s.inv.forget .streams h else (s.inv.forget .streams h).forgetCapture h 0
    streams := Function.update s.streams h none
    opened := s.opened.filter fun k => k.1 ≠ h }

/-- `w_cuStreamBeginCapture_v2`, when the driver has begun the capture. -/
def begun (s : Capturing) (h : ℕ) (current : CUcontext) : Capturing :=
  { s with
    inv := s.inv.beginCapture h (s.inv.stampOf s.gens current .streams h)
    opened := s.opened ++ [(h, s.place h current)] }

/-- The record after `w_cuStreamEndCapture`. -/
def endedRecord (s : Capturing) (h : ℕ) (current : CUcontext) (ok : Bool) (graph : ℕ) : Inventory :=
  let st := s.inv.stampOf s.gens current .streams h
  if ok then (s.inv.forgetCapture h st.ctx).note .graphs graph st else s.inv

/-- `w_cuStreamEndCapture` -/
def ended (s : Capturing) (h : ℕ) (current : CUcontext) (ok ended : Bool) (graph : ℕ) : Capturing :=
  { s with
    inv := s.endedRecord h current ok graph
    opened := if ended then s.opened.filter fun k => k ≠ (h, s.place h current) else s.opened }

/-- `w_cuCtxDestroy_v2`, when the driver has destroyed the context and what is in it. -/
def contextGone (s : Capturing) (c : CUcontext) : Capturing :=
  { s with
    inv := s.inv.forgetContext c
    streams := fun h => (s.streams h).filter fun st => st.ctx ≠ c
    opened := s.opened.filter fun k => k.2 ≠ c }

/-- `w_cuDevicePrimaryCtxReset_v2` and `w_cuDevicePrimaryCtxRelease_v2`, when the driver has destroyed what is in the
device's primary context. -/
def primaryGone (p : PrimaryDevices) (s : Capturing) (dev : Device) : Capturing :=
  { s with
    gens := s.gens.bumpGeneration dev
    inv := s.inv.forgetPrimary (s.gens.bumpGeneration dev) dev
    streams := fun h => (s.streams h).filter fun st => p.device st.ctx ≠ some dev
    opened := s.opened.filter fun k => p.device k.2 ≠ some dev }

def step (p : PrimaryDevices) (s : Capturing) : CaptureAction → Option Capturing
  | .retain c dev =>
      if c ≠ 0 ∧ p.device c = some dev then some { s with gens := s.gens.learnPrimary c dev } else none
  | .streamCreate h current =>
      if kFirstStream ≤ h ∧ s.streams h = none ∧ s.Usable p current then some (s.created h current) else none
  | .streamDestroy h ok =>
      if ok then if (s.streams h).isSome then some (s.destroyed h) else none else some s
  | .beginCapture h current ok =>
      if ok then
        if (h < kFirstStream ∧ s.Usable p current ∨ (s.streams h).isSome) ∧ (h, s.place h current) ∉ s.opened then
          some (s.begun h current)
        else none
      else some s
  | .endCapture h current ok ended graph =>
      -- success is to have ended the capture
      if ok → ended then some (s.ended h current ok ended graph) else none
  | .ctxDestroy c ok =>
      -- the driver destroys no primary context and not the null one
      if ok then if c ≠ 0 ∧ p.device c = none then some (s.contextGone c) else none else some s
  | .primaryEnd dev ok => if ok then some (s.primaryGone p dev) else some s
  | .otherCreate h c =>
      if kFirstStream ≤ h ∧ s.streams h = none then
        some { s with streams := Function.update s.streams h (some ⟨c, false⟩) }
      else none
  | .otherDestroy h =>
      match s.streams h with
      | some ⟨_, false⟩ => some { s with streams := Function.update s.streams h none }
      | _ => none

/-- The captures that `release_inventory` ends: on which stream, with which context current. -/
def releaseCaptures (s : Capturing) : List (ℕ × CUcontext) :=
  (s.inv.captures.filter fun c => s.gens.stillCurrent c.where'.dev c.where'.gen).map OpenCapture.key

/-- Captured are the null stream and streams that the session made; a call that ends a capture reports success; and
the generation of a primary context stays below the one that none reaches. -/
def Plain (s : Capturing) : CaptureAction → Prop
  | .beginCapture h _ ok => ok = true → h = 0 ∨ ∃ c, s.streams h = some ⟨c, true⟩
  | .endCapture _ _ ok ended _ => ended = true → ok = true
  | .primaryEnd dev _ => s.gens.generation dev + 1 < kEndedGeneration
  | _ => True

/-- The record has one entry for each capture that the session has open and no other; expiry ends just these; and what
it ends is on the null stream or on a stream that the session made. -/
structure Exact (s : Capturing) : Prop where
  listed : s.inv.captures.map OpenCapture.key = s.opened
  once : s.opened.Nodup
  released : s.releaseCaptures = s.opened
  own : ∀ k ∈ s.releaseCaptures, k.1 = 0 ∨ s.streams k.1 = some ⟨k.2, true⟩

/-! ### The invariant -/

/-- What is recorded of a stream. -/
def recordOf (g : Generations) : Option DriverStream → Option Stamp
  | some ⟨c, true⟩ => some (g.stampContext c)
  | _ => none

/-- The session's streams are recorded where they are, in contexts that are in use and in generations that last; the
entries for captures are of the captures, in order, and on the null stream or on the session's own. -/
structure Kept (p : PrimaryDevices) (s : Capturing) : Prop where
  learned : ∀ c d, s.gens.primaryDev.find c = some d → p.device c = some d ∧ c ≠ 0
  indexed : s.inv.Indexed
  stamped : s.inv.Stamped (Recording.Placed s.gens)
  recorded : ∀ h, (s.inv.items .streams).find h = recordOf s.gens (s.streams h)
  usable : ∀ h c, s.streams h = some ⟨c, true⟩ → s.Usable p c
  first : ∀ h < kFirstStream, s.streams h = none
  captures : ∀ o ∈ s.inv.captures, o.where' = s.gens.stampContext o.where'.ctx ∧ s.Usable p o.where'.ctx
  listed : s.inv.captures.map OpenCapture.key = s.opened
  once : s.opened.Nodup
  placed : ∀ k ∈ s.opened, k.1 = 0 ∨ s.streams k.1 = some ⟨k.2, true⟩
  below : ∀ d, s.gens.generation d < kEndedGeneration

variable {p : PrimaryDevices} {s t : Capturing}

/-- The stamp has the context it was taken in. -/
@[simp] theorem stampContext_ctx (g : Generations) (c : CUcontext) : (g.stampContext c).ctx = c := by
  rw [Generations.stampContext]
  split <;> rfl

/-- A stamp that was taken in a generation that lasts is current. -/
theorem stillCurrent_stampContext {g : Generations} (hbelow : ∀ d, g.generation d < kEndedGeneration) (c : CUcontext) :
    g.stillCurrent (g.stampContext c).dev (g.stampContext c).gen = true := by
  rw [Generations.stampContext]
  split
  · rfl
  · rename_i d _
    unfold Generations.stillCurrent
    dsimp only
    rw [if_neg (hbelow d).ne]
    exact decide_eq_true rfl

/-- The invariant gives what is asked of the record. -/
theorem Kept.exact (h : Kept p s) : Exact s := by
  have hall : s.releaseCaptures = s.opened := by
    rw [releaseCaptures, List.filter_eq_self.mpr, h.listed]
    intro o ho
    rw [(h.captures o ho).1]
    exact stillCurrent_stampContext h.below _
  exact ⟨h.listed, h.once, hall, fun k hk => h.placed k (hall ▸ hk)⟩

/-- There are no streams and no captures at first. -/
theorem kept_init (p : PrimaryDevices) : Kept p {} where
  learned := fun c d hc => by simp at hc
  indexed := Inventory.indexed_empty
  stamped := Inventory.stamped_empty
  recorded := fun _ => rfl
  usable := nofun
  first := fun _ _ => rfl
  captures := nofun
  listed := rfl
  once := List.nodup_nil
  placed := nofun
  below := fun d => by
    show (0 : ℕ) < kEndedGeneration
    decide

/-! ### Removing an entry -/

/-- Where at most one element passes the test, removing the first that does is removing all. -/
theorem eraseP_eq_filter {α : Type*} {l : List α} {q : α → Bool} {k : α} (hl : l.Nodup)
    (hq : ∀ a ∈ l, q a = true → a = k) : l.eraseP q = l.filter fun a => !q a := by
  induction l with
  | nil => rfl
  | cons a l ih =>
      obtain ⟨ha, hl⟩ := List.nodup_cons.mp hl
      have hrest := ih hl fun b hb => hq b (List.mem_cons_of_mem _ hb)
      cases hqa : q a with
      | true =>
          have hnone : ∀ b ∈ l, (!q b) = true := by
            intro b hb
            cases hqb : q b with
            | false => rfl
            | true =>
                have heq : a = b := (hq a List.mem_cons_self hqa).trans (hq b (List.mem_cons_of_mem _ hb) hqb).symm
                exact absurd (heq ▸ hb) ha
          rw [List.eraseP_cons_of_pos hqa, List.filter_cons_of_neg (by simp [hqa]), List.filter_eq_self.mpr hnone]
      | false => rw [List.eraseP_cons_of_neg (by simp [hqa]), List.filter_cons_of_pos (by simp [hqa]), hrest]

/-- `forget_capture` takes the entry of a capture away. -/
theorem listed_forgetCapture (h : Kept p s) {x : ℕ} {ctx : CUcontext} {inv : Inventory}
    (hinv : inv.captures = s.inv.captures) {k : ℕ × CUcontext}
    (hk : ∀ a ∈ s.opened, (a.1 = x ∧ (x ≠ 0 ∨ a.2 = ctx)) ↔ a = k) :
    (inv.forgetCapture x ctx).captures.map OpenCapture.key = s.opened.filter fun a => a ≠ k := by
  have hmap : (inv.forgetCapture x ctx).captures.map OpenCapture.key =
      s.opened.eraseP fun a => a.1 = x ∧ (x ≠ 0 ∨ a.2 = ctx) := by
    rw [← h.listed, List.eraseP_map, Inventory.forgetCapture, hinv]
    rfl
  rw [hmap, eraseP_eq_filter h.once (k := k)]
  · apply List.filter_congr
    intro a ha
    rw [Bool.eq_iff_iff]
    simp [hk a ha]
  · intro a ha hq
    exact (hk a ha).mp (of_decide_eq_true hq)

/-! ### The steps -/

/-- The stamp of a stream of the session is of its place, and of the null stream's too. -/
theorem stampOf_ctx (h : Kept p s) {x : ℕ} (current : CUcontext)
    (hx : x = 0 ∨ ∃ c, s.streams x = some ⟨c, true⟩) :
    s.inv.stampOf s.gens current .streams x = s.gens.stampContext (s.place x current) := by
  rcases hx with rfl | ⟨c, hc⟩
  · rw [Inventory.stampOf, if_pos rfl, place, h.first 0 (by decide)]
  · have hne : x ≠ 0 := by
      rintro rfl
      rw [h.first 0 (by decide)] at hc
      cases hc
    rw [Inventory.stampOf, if_neg hne, h.recorded, hc, place, hc]
    rfl

/-- A retain learns the handle of a primary context. -/
theorem kept_retain (h : Kept p s) {c : CUcontext} {dev : Device} (hc : c ≠ 0) (hdev : p.device c = some dev) :
    Kept p { s with gens := s.gens.learnPrimary c dev } := by
  have hfind : ∀ c', (s.gens.learnPrimary c dev).primaryDev.find c' =
      if c' = c then some dev else s.gens.primaryDev.find c' := by
    intro c'
    rw [Generations.learnPrimary, if_neg hc, Table.find_insert]
  have hgen : ∀ d, (s.gens.learnPrimary c dev).generation d = s.gens.generation d := by
    intro d
    rw [Generations.learnPrimary, if_neg hc]
    rfl
  -- what was usable before was known already, or is no primary context
  have hsame : ∀ c', s.Usable p c' → (s.gens.learnPrimary c dev).primaryDev.find c' = s.gens.primaryDev.find c' := by
    intro c' hu
    rw [hfind]
    split
    · rename_i heq
      exact (hu.2 dev (heq ▸ hdev)).symm
    · rfl
  have hstamp : ∀ c', s.Usable p c' → (s.gens.learnPrimary c dev).stampContext c' = s.gens.stampContext c' := by
    intro c' hu
    rw [Generations.stampContext, Generations.stampContext, hsame c' hu]
    cases s.gens.primaryDev.find c' with
    | none => rfl
    | some d => simp only [hgen]
  have husable : ∀ c', s.Usable p c' → Usable p { s with gens := s.gens.learnPrimary c dev } c' :=
    fun c' hu => ⟨hu.1, fun d hd => (hsame c' hu).trans (hu.2 d hd)⟩
  have hplaced : ∀ st, Recording.Placed s.gens st → Recording.Placed (s.gens.learnPrimary c dev) st := by
    intro st hst d hd
    rw [hfind]
    split
    · rename_i heq
      rw [← (h.learned c d (heq ▸ hst d hd)).1, hdev]
    · exact hst d hd
  refine ⟨?_, h.indexed, h.stamped.mono hplaced, ?_, fun x c' hx => husable c' (h.usable x c' hx), h.first, ?_,
    h.listed, h.once, h.placed, fun d => (hgen d).symm ▸ h.below d⟩
  · intro c' d hc'
    dsimp only at hc'
    rw [hfind] at hc'
    split at hc'
    · rename_i heq
      cases hc'
      exact heq ▸ ⟨hdev, hc⟩
    · exact h.learned c' d hc'
  · intro x
    rw [h.recorded x]
    dsimp only
    cases hst : s.streams x with
    | none => rfl
    | some st =>
        obtain ⟨c', own⟩ := st
        cases own with
        | false => rfl
        | true => exact congrArg some (hstamp c' (h.usable x c' hst)).symm
  · intro o ho
    obtain ⟨heq, hu⟩ := h.captures o ho
    exact ⟨heq.trans (hstamp _ hu).symm, husable _ hu⟩

/-- A stream that is not the session's changes nothing of it. -/
theorem kept_other (h : Kept p s) {x : ℕ} {st : Option DriverStream} (hfirst : kFirstStream ≤ x)
    (hold : recordOf s.gens (s.streams x) = none) (hnew : ∀ c, st ≠ some ⟨c, true⟩) :
    Kept p { s with streams := Function.update s.streams x st } := by
  -- the session's own streams are others
  have hown : ∀ {y c}, s.streams y = some ⟨c, true⟩ → y ≠ x := by
    rintro y c hy rfl
    rw [hy] at hold
    cases hold
  refine ⟨h.learned, h.indexed, h.stamped, ?_, ?_, ?_, h.captures, h.listed, h.once, ?_, h.below⟩
  · intro y
    rw [h.recorded y]
    dsimp only
    by_cases hy : y = x
    · subst hy
      rw [Function.update_self, hold]
      match st, hnew with
      | none, _ => rfl
      | some ⟨c, false⟩, _ => rfl
      | some ⟨c, true⟩, hnew => exact absurd rfl (hnew c)
    · rw [Function.update_of_ne hy]
  · intro y c hy
    dsimp only at hy
    by_cases hyx : y = x
    · subst hyx
      rw [Function.update_self] at hy
      exact absurd hy (hnew c)
    · rw [Function.update_of_ne hyx] at hy
      exact h.usable y c hy
  · intro y hy
    dsimp only
    rw [Function.update_of_ne (by omega)]
    exact h.first y hy
  · intro k hk
    refine (h.placed k hk).imp_right fun hst => ?_
    dsimp only
    rw [Function.update_of_ne (hown hst)]
    exact hst

/-- A stream is made in a context that can be used. -/
theorem kept_created (h : Kept p s) {x : ℕ} {current : CUcontext} (hfirst : kFirstStream ≤ x)
    (hnone : s.streams x = none) (hu : s.Usable p current) : Kept p (s.created x current) := by
  have hne : x ≠ 0 := by
    rintro rfl
    exact absurd hfirst (by decide)
  refine ⟨h.learned, h.indexed.note .streams x (s.gens.stampContext current),
    h.stamped.note .streams x (Recording.placed_stampContext s.gens current), ?_, ?_, ?_, ?_, ?_, h.once, ?_, h.below⟩
  · intro y
    rw [created]
    dsimp only
    rw [Inventory.items_note, if_neg hne, Function.update_self, Table.find_insert]
    by_cases hy : y = x
    · subst hy
      rw [if_pos rfl, Function.update_self]
      rfl
    · rw [if_neg hy, Function.update_of_ne hy]
      exact h.recorded y
  · intro y c hy
    rw [created] at hy
    dsimp only at hy
    by_cases hyx : y = x
    · subst hyx
      rw [Function.update_self] at hy
      cases hy
      exact hu
    · rw [Function.update_of_ne hyx] at hy
      exact h.usable y c hy
  · intro y hy
    rw [created]
    dsimp only
    rw [Function.update_of_ne (by omega)]
    exact h.first y hy
  · rw [created]
    dsimp only
    rw [Inventory.captures_note]
    exact h.captures
  · rw [created]
    dsimp only
    rw [Inventory.captures_note]
    exact h.listed
  · intro k hk
    refine (h.placed k hk).imp_right fun hst => ?_
    -- a capture is on a stream that is there, and this one is new
    have hkx : k.1 ≠ x := by
      intro heq
      rw [heq, hnone] at hst
      cases hst
    rw [created]
    dsimp only
    rw [Function.update_of_ne hkx]
    exact hst

/-- A capture begins on a stream of the session's own, or the default one. -/
theorem kept_begun (h : Kept p s) {x : ℕ} {current : CUcontext} (hown : x = 0 ∨ ∃ c, s.streams x = some ⟨c, true⟩)
    (hu : s.Usable p (s.place x current)) (hfresh : (x, s.place x current) ∉ s.opened) : Kept p (s.begun x current) := by
  have hst := stampOf_ctx h current hown
  refine ⟨h.learned, h.indexed.beginCapture _ _, h.stamped.beginCapture _ (Recording.placed_stampOf h.stamped _ _ _),
    h.recorded, h.usable, h.first, ?_, ?_, ?_, ?_, h.below⟩
  · intro o ho
    rcases List.mem_append.mp ho with ho | ho
    · exact h.captures o ho
    · rw [List.mem_singleton.mp ho]
      dsimp only
      rw [hst, stampContext_ctx]
      exact ⟨rfl, hu⟩
  · rw [begun, Inventory.beginCapture, hst, List.map_append, h.listed, List.map_singleton, OpenCapture.key,
      stampContext_ctx]
  · exact List.nodup_append.mpr ⟨h.once, List.nodup_singleton _, fun a ha b hb heq =>
      hfresh (List.mem_singleton.mp hb ▸ heq ▸ ha)⟩
  · intro k hk
    rcases List.mem_append.mp hk with hk | hk
    · exact h.placed k hk
    · rw [List.mem_singleton.mp hk]
      refine hown.imp_right fun ⟨c, hc⟩ => ?_
      have hplace : s.place x current = c := by rw [place, hc]
      rw [hplace]
      exact hc

/-- On a stream that is not the null one there is at most one capture, where the stream is. -/
theorem opened_iff (h : Kept p s) {x : ℕ} (hx : x ≠ 0) (current : CUcontext) {a : ℕ × CUcontext} (ha : a ∈ s.opened) :
    a.1 = x ↔ a = (x, s.place x current) := by
  constructor
  · intro heq
    rcases h.placed a ha with hzero | hstream
    · exact absurd (heq.symm.trans hzero) hx
    · have hplace : s.place x current = a.2 := by rw [place, ← heq, hstream]
      rw [hplace, ← heq]
  · rintro rfl
    rfl

/-- A stream that is destroyed takes its captures with it. -/
theorem kept_destroyed (h : Kept p s) {x : ℕ} (hsome : (s.streams x).isSome) : Kept p (s.destroyed x) := by
  -- a stream that there is has the number of one, which those of the null stream are not
  have hfirst : kFirstStream ≤ x := by
    by_contra hlt
    rw [h.first x (by omega)] at hsome
    cases hsome
  have hne : x ≠ 0 := by
    rintro rfl
    exact absurd hfirst (by decide)
  have hinv : (s.destroyed x).inv = (s.inv.forget .streams x).forgetCapture x 0 := by
    rw [destroyed]
    dsimp only
    rw [if_neg hne]
  have hstreams : (s.destroyed x).streams = Function.update s.streams x none := rfl
  refine ⟨h.learned, ?_, ?_, ?_, ?_, ?_, ?_, ?_, h.once.filter _, ?_, h.below⟩
  · rw [hinv]
    exact (h.indexed.forget _ _).forgetCapture _ _
  · rw [hinv]
    exact (h.stamped.forget _ _).forgetCapture _ _
  · intro y
    have hitems : ((s.destroyed x).inv.items .streams) = (s.inv.items .streams).erase x := by
      rw [hinv]
      show (s.inv.forget .streams x).items .streams = _
      rw [Inventory.items_forget, Function.update_self]
    rw [hitems, hstreams, Table.find_erase]
    by_cases hy : y = x
    · subst hy
      rw [if_pos rfl, Function.update_self]
      rfl
    · rw [if_neg hy, Function.update_of_ne hy]
      exact h.recorded y
  · intro y c hy
    rw [hstreams] at hy
    by_cases hyx : y = x
    · subst hyx
      rw [Function.update_self] at hy
      cases hy
    · rw [Function.update_of_ne hyx] at hy
      exact h.usable y c hy
  · intro y hy
    rw [hstreams, Function.update_of_ne (by omega)]
    exact h.first y hy
  · intro o ho
    rw [hinv] at ho
    have hmem := List.mem_of_mem_eraseP ho
    rw [Inventory.captures_forget] at hmem
    exact h.captures o hmem
  · rw [hinv, listed_forgetCapture h (Inventory.captures_forget _ _) (k := (x, s.place x 0))]
    · apply List.filter_congr
      intro a ha
      rw [Bool.eq_iff_iff]
      simp [opened_iff h hne 0 ha]
    · intro a ha
      rw [← opened_iff h hne 0 ha]
      simp [hne]
  · intro k hk
    obtain ⟨hmem, hkx⟩ := List.mem_filter.mp hk
    rw [decide_eq_true_iff] at hkx
    refine (h.placed k hmem).imp_right fun hst => ?_
    rw [hstreams, Function.update_of_ne hkx]
    exact hst

/-- A capture that is ended is forgotten. -/
theorem kept_ended (h : Kept p s) (x : ℕ) (current : CUcontext) (graph : ℕ) :
    Kept p (s.ended x current true true graph) := by
  have hrecord : (s.ended x current true true graph).inv =
      (s.inv.forgetCapture x (s.inv.stampOf s.gens current .streams x).ctx).note .graphs graph
        (s.inv.stampOf s.gens current .streams x) := rfl
  refine ⟨h.learned, ?_, ?_, ?_, h.usable, h.first, ?_, ?_, h.once.filter _, ?_, h.below⟩
  · rw [hrecord]
    exact (h.indexed.forgetCapture _ _).note _ _ _
  · rw [hrecord]
    exact (h.stamped.forgetCapture _ _).note _ _ (Recording.placed_stampOf h.stamped _ _ _)
  · intro y
    have hitems : ((s.ended x current true true graph).inv.items .streams) = s.inv.items .streams := by
      rw [hrecord, Inventory.items_note]
      split
      · rfl
      · rw [Function.update_of_ne (by decide)]
        rfl
    rw [hitems]
    exact h.recorded y
  · intro o ho
    rw [hrecord, Inventory.captures_note] at ho
    exact h.captures o (List.mem_of_mem_eraseP ho)
  · rw [hrecord, Inventory.captures_note, listed_forgetCapture h rfl (k := (x, s.place x current))]
    · rfl
    · intro a ha
      by_cases hx : x = 0
      · -- on the null stream, the capture in the current context
        subst hx
        have hplace : s.place 0 current = current := by rw [place, h.first 0 (by decide)]
        rw [stampOf_ctx h current (.inl rfl), stampContext_ctx, hplace, Prod.ext_iff]
        simp
      · rw [← opened_iff h hx current ha]
        simp [hx]
  · intro k hk
    exact h.placed k (List.mem_filter.mp hk).1

/-- The entries whose capture passes a test are those of the captures that do. -/
theorem listed_filter (h : Kept p s) {keep : OpenCapture → Bool} {stays : ℕ × CUcontext → Bool}
    (hkeep : ∀ o ∈ s.inv.captures, keep o = stays o.key) :
    (s.inv.captures.filter keep).map OpenCapture.key = s.opened.filter stays := by
  rw [← h.listed, List.filter_map, List.filter_congr (q := stays ∘ OpenCapture.key) hkeep]

/-- A context that is destroyed takes its streams and captures with it. -/
theorem kept_contextGone (h : Kept p s) {c : CUcontext} (hc : c ≠ 0) : Kept p (s.contextGone c) := by
  -- what was being captured in the context goes with it
  have hcaptures : (s.contextGone c).inv.captures = s.inv.captures.filter fun o => o.where'.ctx ≠ c :=
    h.indexed.captures_forgetContext hc
  refine ⟨h.learned, h.indexed.forgetContext c, h.stamped.forgetContext c, ?_, ?_, ?_, ?_, ?_, h.once.filter _, ?_,
    h.below⟩
  · intro x
    have hmade : ((s.contextGone c).inv.items .streams).find x =
        ((s.inv.items .streams).find x).filter fun st => st.ctx ≠ c :=
      h.indexed.made_forgetContext hc (some .kStreams) x
    rw [hmade, h.recorded, contextGone]
    dsimp only
    match s.streams x with
    | none => rfl
    | some ⟨c', false⟩ =>
        rw [Option.filter_some]
        split <;> rfl
    | some ⟨c', true⟩ =>
        rw [recordOf, Option.filter_some, Option.filter_some, stampContext_ctx]
        split <;> rfl
  · intro x c' hx
    exact h.usable x c' (Option.filter_eq_some_iff.mp hx).1
  · intro x hx
    rw [contextGone]
    dsimp only
    rw [h.first x hx]
    rfl
  · intro o ho
    rw [hcaptures] at ho
    exact h.captures o (List.mem_filter.mp ho).1
  · rw [hcaptures]
    exact listed_filter h fun _ _ => rfl
  · intro k hk
    obtain ⟨hmem, hkc⟩ := List.mem_filter.mp hk
    refine (h.placed k hmem).imp_right fun hst => ?_
    rw [contextGone]
    dsimp only
    rw [hst, Option.filter_some, if_pos hkc]

/-- What was made in a context that is in use is outdated, once a primary context has gone, if it was that one. -/
theorem outdated_stampContext (h : Kept p s) {dev : Device} (hbelow : s.gens.generation dev + 1 < kEndedGeneration)
    {c : CUcontext} (hu : s.Usable p c) :
    (!Inventory.outdated dev ((s.gens.bumpGeneration dev).generation dev) (s.gens.stampContext c)) =
      decide (p.device c ≠ some dev) := by
  have hnow : (s.gens.bumpGeneration dev).generation dev = s.gens.generation dev + 1 := by
    rw [Generations.bumpGeneration, Generations.generation, Table.find_insert_self, Option.getD_some]
    exact Nat.mod_eq_of_lt (by rw [kEndedGeneration] at hbelow; omega)
  rw [hnow, Bool.eq_iff_iff, decide_eq_true_iff, Generations.stampContext]
  cases hfind : s.gens.primaryDev.find c with
  | none =>
      refine iff_of_true rfl fun hdev => ?_
      rw [hu.2 dev hdev] at hfind
      cases hfind
  | some d =>
      rw [(h.learned c d hfind).1]
      by_cases hd : d = dev
      · subst hd
        simp [Inventory.outdated]
      · simp [Inventory.outdated, hd]

/-- A primary context that ends takes its streams and captures with it, whose stamps are of an older
generation from then on. -/
theorem kept_primaryGone (h : Kept p s) {dev : Device} (hbelow : s.gens.generation dev + 1 < kEndedGeneration) :
    Kept p (s.primaryGone p dev) := by
  have hlast : (s.gens.generation dev + 1) % 2 ^ 64 = s.gens.generation dev + 1 :=
    Nat.mod_eq_of_lt (by rw [kEndedGeneration] at hbelow; omega)
  have hgen : ∀ d, (s.gens.bumpGeneration dev).generation d =
      if d = dev then s.gens.generation dev + 1 else s.gens.generation d := by
    intro d
    rw [Generations.bumpGeneration, Generations.generation, Table.find_insert, hlast]
    split <;> rfl
  -- what stays was made elsewhere, and its stamp is what it would be now
  have hstamp : ∀ c, s.Usable p c → p.device c ≠ some dev →
      (s.gens.bumpGeneration dev).stampContext c = s.gens.stampContext c := by
    intro c hu hne
    rw [Generations.stampContext, Generations.stampContext, Generations.bumpGeneration]
    dsimp only
    cases hfind : s.gens.primaryDev.find c with
    | none => rfl
    | some d =>
        have hd : d ≠ dev := by
          rintro rfl
          exact hne (h.learned c d hfind).1
        have hg := hgen d
        rw [if_neg hd] at hg
        exact congrArg (fun n => ({ ctx := c, dev := some d, gen := n } : Stamp)) hg
  -- the walk through the contexts of the device takes out what is of an earlier generation
  have hzero : 0 ∉ (s.gens.bumpGeneration dev).primaryHandles dev :=
    fun hmem => (h.learned 0 dev (Generations.mem_primaryHandles.mp hmem)).2 rfl
  have hplaced : ∀ slot x st, s.inv.made slot x = some st → st.dev = some dev →
      st.ctx ∈ (s.gens.bumpGeneration dev).primaryHandles dev :=
    fun slot x st hst hdev => Generations.mem_primaryHandles.mpr (h.stamped.made hst dev hdev)
  have hcaptures := h.indexed.captures_forgetPrimary _ dev hzero hplaced
  refine ⟨h.learned, h.indexed.forgetPrimary _ _ hzero, h.stamped.forgetPrimary _ _, ?_, ?_, ?_, ?_, ?_,
    h.once.filter _, ?_, ?_⟩
  · intro x
    have hmade : ((s.primaryGone p dev).inv.items .streams).find x = ((s.inv.items .streams).find x).filter fun st =>
        !Inventory.outdated dev ((s.gens.bumpGeneration dev).generation dev) st :=
      h.indexed.made_forgetPrimary _ dev hzero hplaced (some .kStreams) x
    rw [hmade, h.recorded, primaryGone]
    dsimp only
    cases hst : s.streams x with
    | none => rfl
    | some st =>
        obtain ⟨c, own⟩ := st
        cases own with
        | false =>
            rw [Option.filter_some]
            split <;> rfl
        | true =>
            have hu := h.usable x c hst
            rw [recordOf, Option.filter_some, Option.filter_some, outdated_stampContext h hbelow hu]
            by_cases hdev : p.device c = some dev
            · simp [hdev, recordOf]
            · simp [hdev, recordOf, hstamp c hu hdev]
  · intro x c hx
    have hu := h.usable x c (Option.filter_eq_some_iff.mp hx).1
    exact hu
  · intro x hx
    rw [primaryGone]
    dsimp only
    rw [h.first x hx]
    rfl
  · intro o ho
    rw [primaryGone] at ho
    dsimp only at ho
    rw [hcaptures] at ho
    obtain ⟨hmem, hkeep⟩ := List.mem_filter.mp ho
    obtain ⟨heq, hu⟩ := h.captures o hmem
    rw [heq, outdated_stampContext h hbelow hu, decide_eq_true_iff] at hkeep
    exact ⟨heq.trans (hstamp _ hu hkeep).symm, hu⟩
  · rw [primaryGone]
    dsimp only
    rw [hcaptures]
    refine listed_filter h fun o ho => ?_
    obtain ⟨heq, hu⟩ := h.captures o ho
    rw [heq, outdated_stampContext h hbelow hu]
    rfl
  · intro k hk
    obtain ⟨hmem, hdev⟩ := List.mem_filter.mp hk
    refine (h.placed k hmem).imp_right fun hst => ?_
    rw [primaryGone]
    dsimp only
    rw [hst, Option.filter_some, if_pos hdev]
  · intro d
    show (s.gens.bumpGeneration dev).generation d < kEndedGeneration
    rw [hgen]
    split
    · exact hbelow
    · exact h.below d

/-- **Each call keeps the invariant.** -/
theorem kept_step (h : Kept p s) {a : CaptureAction} (hplain : s.Plain a) (hstep : s.step p a = some t) :
    Kept p t := by
  cases a with
  | retain c dev =>
      simp only [step, Option.ite_none_right_eq_some, Option.some.injEq] at hstep
      obtain ⟨⟨hc, hdev⟩, rfl⟩ := hstep
      exact kept_retain h hc hdev
  | streamCreate x current =>
      simp only [step, Option.ite_none_right_eq_some, Option.some.injEq] at hstep
      obtain ⟨⟨hfirst, hnone, hu⟩, rfl⟩ := hstep
      exact kept_created h hfirst hnone hu
  | streamDestroy x ok =>
      cases ok with
      | false =>
          cases hstep
          exact h
      | true =>
          simp only [step, if_true, Option.ite_none_right_eq_some, Option.some.injEq] at hstep
          obtain ⟨hsome, rfl⟩ := hstep
          exact kept_destroyed h hsome
  | beginCapture x current ok =>
      cases ok with
      | false =>
          cases hstep
          exact h
      | true =>
          simp only [step, if_true, Option.ite_none_right_eq_some, Option.some.injEq] at hstep
          obtain ⟨⟨hwhere, hfresh⟩, rfl⟩ := hstep
          have hown := hplain rfl
          refine kept_begun h hown ?_ hfresh
          rcases hown with rfl | ⟨c, hc⟩
          · rw [place, h.first 0 (by decide)]
            rcases hwhere with hu | hsome
            · exact hu.2
            · rw [h.first 0 (by decide)] at hsome
              cases hsome
          · rw [place, hc]
            exact h.usable x c hc
  | endCapture x current ok ended graph =>
      simp only [step, Option.ite_none_right_eq_some, Option.some.injEq] at hstep
      obtain ⟨hends, rfl⟩ := hstep
      cases ok with
      | true =>
          rw [hends rfl]
          exact kept_ended h x current graph
      | false =>
          cases ended with
          -- an end that fails and ends the capture is what the condition excludes
          | true => exact absurd (hplain rfl) (by decide)
          | false => exact h
  | ctxDestroy c ok =>
      cases ok with
      | false =>
          cases hstep
          exact h
      | true =>
          simp only [step, if_true, Option.ite_none_right_eq_some, Option.some.injEq] at hstep
          obtain ⟨⟨hc, -⟩, rfl⟩ := hstep
          exact kept_contextGone h hc
  | primaryEnd dev ok =>
      cases ok with
      | false =>
          cases hstep
          exact h
      | true =>
          cases hstep
          exact kept_primaryGone h hplain
  | otherCreate x c =>
      simp only [step, Option.ite_none_right_eq_some, Option.some.injEq] at hstep
      obtain ⟨⟨hfirst, hnone⟩, rfl⟩ := hstep
      exact kept_other h hfirst (by rw [hnone]; rfl) nofun
  | otherDestroy x =>
      rw [step] at hstep
      split at hstep
      · rename_i c hst
        cases hstep
        have hfirst : kFirstStream ≤ x := by
          by_contra hlt
          rw [h.first x (by omega)] at hst
          cases hst
        exact kept_other h hfirst (by rw [hst]; rfl) nofun
      · cases hstep

/-- The contexts 8 and 9 are the primary contexts of the devices 0 and 1. -/
def somePrimaries : PrimaryDevices where
  device c := if c = 8 then some 0 else if c = 9 then some 1 else none
  unique := by
    intro c c' d hc hc'
    split at hc
    · split at hc'
      · rename_i h h'
        exact h.trans h'.symm
      · split at hc' <;> cases hc <;> cases hc'
    · split at hc
      · split at hc'
        · cases hc
          cases hc'
        · split at hc'
          · rename_i h _ h'
            exact h.trans h'.symm
          · cases hc'
      · cases hc

/-- A capture is begun on a stream and one on the null stream, and the first is ended. -/
def captured : List CaptureAction :=
  [.retain 8 0, .streamCreate 64 8, .beginCapture 64 8 true, .beginCapture 0 8 true, .endCapture 64 8 true true 512]

/-- Twice a capture on a stream is invalidated and ended by a call that fails. The stream is destroyed, and another
session gets its handle. -/
def invalidated : List CaptureAction :=
  [.retain 8 0, .streamCreate 64 8, .beginCapture 64 8 true, .endCapture 64 8 false true 0, .beginCapture 64 8 true,
    .endCapture 64 8 false true 0, .streamDestroy 64 true, .otherCreate 64 8]

/-- A thread's default stream by name (`CU_STREAM_PER_THREAD`) is taken for another session's: its capture is left. -/
example : (run (step somePrimaries) {} [.retain 8 0, .beginCapture 2 8 true]).map
    (fun s => (s.releaseCaptures, s.opened)) = some ([], [(2, 8)]) := by decide

end Capturing

end Rgpu
