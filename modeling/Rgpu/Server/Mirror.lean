import Rgpu.Server.Deferred

/-! # What the serving thread shows

Between requests the serving thread's driver stack holds at most one context, and `applied` is what the
driver says is current. From such a state each intercepted call has one simple effect, whatever the code
does on the way: it changes the slot of its thread, and leaves one stack of contexts on the driver.

* **`Serving.Mirror`** — that state.
* **`Serving.Shows`** — a stack of contexts that shows a handle.
* **`Serving.prepare_spec`** and the lemmas after it — what each operation comes to. -/

namespace Rgpu

open Foundations

namespace Driver

variable {d : Driver} {h : CUcontext} {c : Context}

/-- Some context has the handle, or had it. -/
def Known (d : Driver) (h : CUcontext) : Prop := ∃ c ∈ d.live ++ d.dead, c.handle = h

/-- A context that is found is live and has the handle. -/
theorem find_some (hfind : d.find h = some c) : c ∈ d.live ∧ c.handle = h := by
  unfold find at hfind
  exact ⟨List.mem_of_find?_eq_some hfind, by simpa using List.find?_some hfind⟩

/-- Where none is found, no live context has the handle. -/
theorem find_none (hfind : d.find h = none) : ∀ c ∈ d.live, c.handle ≠ h := by
  unfold find at hfind
  simpa using hfind

/-- A context that is selected is or was one of that handle. -/
theorem selects_some (hsel : d.selects h = some c) : c ∈ d.live ++ d.dead ∧ c.handle = h := by
  unfold selects at hsel
  cases hfind : d.find h with
  | some c' =>
      obtain rfl : c' = c := by simpa [hfind] using hsel
      exact ⟨List.mem_append_left _ (find_some hfind).1, (find_some hfind).2⟩
  | none =>
      rw [hfind, Option.none_or] at hsel
      exact ⟨List.mem_append_right _ (List.mem_of_find?_eq_some hsel), by simpa using List.find?_some hsel⟩

/-- A known handle selects a context. -/
theorem Known.selects (hknown : d.Known h) : ∃ c, d.selects h = some c := by
  obtain ⟨c, hc, rfl⟩ := hknown
  unfold Driver.selects
  cases hfind : d.find c.handle with
  | some c' => exact ⟨c', rfl⟩
  | none =>
      rcases List.mem_append.mp hc with hc | hc
      · exact absurd rfl (find_none hfind c hc)
      · rw [Option.none_or]
        exact Option.isSome_iff_exists.mp (List.find?_isSome.mpr ⟨c, hc, by simp⟩)

/-- A destroyed context's handle is still known. -/
theorem known_erase (hc : c ∈ d.live) {h : CUcontext} :
    ({ d with live := d.live.erase c, dead := c :: d.dead } : Driver).Known h ↔ d.Known h := by
  have hperm : (d.live.erase c ++ c :: d.dead).Perm (d.live ++ d.dead) :=
    List.perm_middle.trans ((List.perm_cons_erase hc).symm.append_right d.dead)
  constructor
  · rintro ⟨c', hc', rfl⟩
    exact ⟨c', hperm.subset hc', rfl⟩
  · rintro ⟨c', hc', rfl⟩
    exact ⟨c', hperm.symm.subset hc', rfl⟩

/-- A handle that selects a context is known. -/
theorem known_of_selects (hsel : d.selects h = some c) : d.Known h :=
  ⟨c, (selects_some hsel).1, (selects_some hsel).2⟩

end Driver

/-- The handle a thread's stack has current: none if it is empty or its top was destroyed. -/
def ClientThread.shownCtx (t : ClientThread) : CUcontext :=
  match t.stack with
  | [] => 0
  | top :: _ => if top.gone then 0 else top.ctx

/-- A slot names contexts the driver has or had, and knows which. -/
structure ClientThread.Fits (t : ClientThread) (d : Driver) : Prop where
  known : ∀ e ∈ t.stack, d.Known e.ctx
  named : t.stackCtxs = t.stack.map SavedContext.ctx

/-- A driver that forgets no context. -/
theorem ClientThread.Fits.mono {t : ClientThread} {d d' : Driver} (h : t.Fits d)
    (hd : ∀ h, d.Known h → d'.Known h) : t.Fits d' := ⟨fun e he => hd _ (h.known e he), h.named⟩

/-- A thread with no state of its own fits any driver. -/
theorem ClientThread.fits_empty (d : Driver) : ({} : ClientThread).Fits d := ⟨by simp, rfl⟩

namespace ClientThreads

variable {limits : Limits} {ts ts' : ClientThreads} {id : ThreadId} {t : ClientThread}

/-! ## The slots of a table, by thread -/

/-- A live slot is found. -/
theorem find_of_live (h : ts.live.lookup id = some t) : ts.find id = some t := by
  rw [find, h]
  rfl

/-- Changing a live slot changes no other. -/
theorem find_modifySlot (hlive : ts.live.lookup id = some t) (f : ClientThread → ClientThread)
    (id' : ThreadId) :
    (ts.modifySlot id f).find id' = if id' = id then some (f t) else ts.find id' := by
  unfold find modifySlot
  dsimp only
  rw [AssocList.lookup_adjust]
  split
  · rename_i hid
    rw [hid, hlive]
    rfl
  · rfl

/-- The slot of a thread that has one. -/
theorem slot_of_live (h : ts.live.lookup id = some t) : ts.slot id = t := by
  rw [slot, h, Option.getD_some]

/-- The slot that is changed has changed. -/
theorem lookup_modifySlot (hlive : ts.live.lookup id = some t) (f : ClientThread → ClientThread) :
    (ts.modifySlot id f).live.lookup id = some (f t) := by
  unfold modifySlot
  rw [AssocList.lookup_adjust, if_pos rfl, hlive, Option.map_some]

/-- Admitting a thread finds the slot it had, or makes an empty one. -/
theorem find_threadSlot (h : ts.threadSlot limits id = some ts') (id' : ThreadId) :
    ts'.find id' = if id' = id then some ((ts.find id).getD {}) else ts.find id' := by
  unfold threadSlot at h
  split at h
  · rename_i t hlive
    rw [← Option.some.inj h]
    split
    · rename_i hid
      rw [hid, find_of_live hlive, Option.getD_some]
    · rfl
  · rename_i hlive
    unfold admitThread at h
    split at h
    · cases h
    · rw [← Option.some.inj h]
      unfold find
      dsimp only
      rw [AssocList.lookup_remove, hlive, Option.none_or]
      split
      · rename_i hid
        rw [hid, List.lookup_cons_self, Option.some_or]
      · rename_i hid
        rw [List.lookup_cons, show (id' == id) = false by simpa using hid]

/-- Trimming takes slots away and changes none. -/
theorem find_trimLoop (n : ℕ) (hbooks : ts.Books) (h : (trimLoop n ts).find id = some t) :
    ts.find id = some t := by
  induction n generalizing ts with
  | zero => exact h
  | succ n ih =>
      unfold trimLoop at h
      split at h
      · exact h
      · rename_i id' t' rest hretired
        split at h
        · have hfind := ih (hbooks.dropOldest hretired) h
          unfold find at hfind ⊢
          rw [live_sayUnreported] at hfind
          cases hlive : ts.live.lookup id with
          | some u => simpa [hlive] using hfind
          | none =>
              simp only [hlive, Option.none_or] at hfind ⊢
              -- the thread that lost its slot has no other
              have hne : id ≠ id' := by
                rintro rfl
                have hnd := hbooks.nodup_retired
                rw [hretired, AssocList.keys_cons, List.nodup_cons] at hnd
                exact hnd.1 (AssocList.mem_keys_iff.mpr ⟨t, hfind⟩)
              rw [hretired, List.lookup_cons, show (id == id') = false by simpa using hne]
              exact hfind
        · exact h

/-- Retiring a thread makes no slot up. -/
theorem find_retireThread (hbooks : ts.Books) {id' : ThreadId}
    (h : (ts.retireThread id').find id = some t) : ts.find id = some t := by
  unfold retireThread at h
  split at h
  · exact h
  · rename_i u hlive
    have hfind := find_trimLoop _ (hbooks.move hlive) h
    unfold find at hfind ⊢
    dsimp only at hfind
    rw [AssocList.lookup_remove] at hfind
    by_cases hid : id = id'
    · rw [if_pos hid, Option.none_or, List.lookup_append] at hfind
      have hretired : ts.retired.lookup id = none := by
        rw [AssocList.lookup_eq_none_iff]
        intro hmem
        have hnd := hbooks.distinct
        rw [entries, AssocList.keys_append, keys_live, keys_retired] at hnd
        exact (List.nodup_append.mp hnd).2.2 id
          (AssocList.mem_keys_iff.mpr ⟨u, hid ▸ hlive⟩) id hmem rfl
      rw [hretired, Option.none_or, hid, List.lookup_cons_self] at hfind
      rw [hid, hlive, Option.some_or]
      exact hfind
    · rw [if_neg hid, List.lookup_append] at hfind
      have hlast : [(id', u)].lookup id = none := by
        rw [List.lookup_cons, show (id == id') = false by simpa using hid]
        rfl
      rw [hlast, Option.or_none] at hfind
      exact hfind

/-- Retiring several threads makes no slot up. -/
theorem find_retireThreads {limits : Limits} (hsound : ts.Sound limits) (ids : List ThreadId)
    (h : (ids.foldl retireThread ts).find id = some t) : ts.find id = some t := by
  induction ids generalizing ts with
  | nil => exact h
  | cons id' ids ih => exact find_retireThread hsound.books (ih (hsound.retireThread id') h)

/-- A slot seen to for a failure is new and empty; the others are as they were, or forgotten. -/
theorem find_deferredHome (hbooks : ts.Books) {id' : ThreadId} {make : Bool}
    (h : (ts.deferredHome id' make).find id = some t) :
    ts.find id = some t ∨ ts.find id = none ∧ t = {} := by
  unfold deferredHome at h
  split at h
  · exact Or.inl h
  · split at h
    · exact Or.inl h
    · rename_i hnone
      split at h
      · have hnone' := hnone
        unfold find at hnone'
        rw [Option.or_eq_none_iff] at hnone'
        have hfind := find_trimLoop _ (hbooks.add hnone) h
        unfold find at hfind ⊢
        dsimp only at hfind
        rw [List.lookup_append] at hfind
        by_cases hid : id = id'
        · subst hid
          rw [hnone'.1, hnone'.2, Option.none_or, Option.none_or, List.lookup_cons_self] at hfind
          exact Or.inr ⟨by rw [hnone'.1, hnone'.2]; rfl, (Option.some.inj hfind).symm⟩
        · have hlast : [(id', ({} : ClientThread))].lookup id = none := by
            rw [List.lookup_cons, show (id == id') = false by simpa using hid]
            rfl
          rw [hlast, Option.or_none] at hfind
          exact Or.inl hfind
      · exact Or.inl h

/-- Adjusting a slot, live or retired, changes no other. -/
theorem find_adjust (hfind : ts.find id = some t) (f : ClientThread → ClientThread) (id' : ThreadId) :
    (ts.adjust id f).find id' = if id' = id then some (f t) else ts.find id' := by
  unfold adjust
  cases hlive : ts.live.lookup id with
  | some u =>
      obtain rfl : u = t := by simpa [find, hlive] using hfind
      exact find_modifySlot hlive f id'
  | none =>
      have hretired : ts.retired.lookup id = some t := by simpa [find, hlive] using hfind
      unfold find
      dsimp only
      rw [AssocList.lookup_adjust]
      split
      · rename_i hid
        rw [hid, hlive, Option.none_or, hretired]
        rfl
      · rfl

/-! ## What the serving thread shows, under changes of the table -/

/-- The record of what the serving thread shows. -/
def shown (ts : ClientThreads) : SavedContext × CaptureMode := (ts.applied, ts.appliedMode)

/-- Counting a failure that is never reported changes nothing that is shown. -/
theorem shown_sayUnreported (ts : ClientThreads) (id : ThreadId) (t : ClientThread) :
    (ts.sayUnreported id t).shown = ts.shown := by
  unfold sayUnreported
  split <;> rfl

/-- Dropping the oldest retired slots changes nothing that is shown. -/
theorem shown_trimLoop (n : ℕ) (ts : ClientThreads) : (trimLoop n ts).shown = ts.shown := by
  induction n generalizing ts with
  | zero => rfl
  | succ n ih =>
      unfold trimLoop
      split
      · rfl
      · split
        · rw [ih]
          exact shown_sayUnreported ts _ _
        · rfl

/-- Admitting a thread changes nothing that is shown. -/
theorem shown_threadSlot (h : ts.threadSlot limits id = some ts') : ts'.shown = ts.shown := by
  unfold threadSlot at h
  split at h
  · rw [← Option.some.inj h]
  · unfold admitThread at h
    split at h
    · cases h
    · rw [← Option.some.inj h]
      rfl

/-- Retiring threads changes nothing that is shown. -/
theorem shown_retireThreads (ids : List ThreadId) (ts : ClientThreads) :
    (ids.foldl retireThread ts).shown = ts.shown := by
  induction ids generalizing ts with
  | nil => rfl
  | cons id ids ih =>
      rw [List.foldl_cons, ih]
      unfold retireThread
      split
      · rfl
      · exact shown_trimLoop _ _

/-- Adjusting a slot changes nothing that is shown. -/
theorem shown_adjust (ts : ClientThreads) (id : ThreadId) (f : ClientThread → ClientThread) :
    (ts.adjust id f).shown = ts.shown := by
  unfold adjust
  split <;> rfl

/-- Settling a call changes nothing that is shown. -/
theorem shown_settle (ts : ClientThreads) (f : Frame) (o : Outcome) :
    (ts.settle f o).1.shown = ts.shown := by
  have hhome : ∀ make, (if o.hasSlot then ts else ts.deferredHome f.threadId make).shown = ts.shown := by
    intro make
    split
    · rfl
    · unfold deferredHome
      split
      · rfl
      · split
        · rfl
        · split
          · exact shown_trimLoop _ _
          · rfl
  unfold settle
  split
  · split
    · rfl
    · dsimp only
      split
      · exact hhome true
      · split
        · exact (shown_adjust _ _ _).trans (hhome true)
        · exact hhome true
  · dsimp only
    split
    · exact hhome false
    · split
      · exact (shown_adjust _ _ _).trans (hhome false)
      · exact hhome false

/-- The part of a slot that a context call looks at. -/
def ContextState (t : ClientThread) : List SavedContext × List CUcontext × CaptureMode :=
  (t.stack, t.stackCtxs, t.captureMode)

/-- Completing a request leaves every slot's context state, makes empty slots, and forgets some. -/
theorem find_settle {f : Frame} {o : Outcome} (hbooks : ts.Books)
    (h : (ts.settle f o).1.find id = some t) :
    (∃ t', ts.find id = some t' ∧ ContextState t = ContextState t') ∨
      ts.find id = none ∧ ContextState t = ContextState {} := by
  have hhome : ∀ make t, (if o.hasSlot then ts else ts.deferredHome f.threadId make).find id = some t →
      (∃ t', ts.find id = some t' ∧ ContextState t = ContextState t') ∨
        ts.find id = none ∧ ContextState t = ContextState {} := by
    intro make t h
    split at h
    · exact Or.inl ⟨t, h, rfl⟩
    · rcases find_deferredHome hbooks h with hfind | ⟨hnone, rfl⟩
      · exact Or.inl ⟨t, hfind, rfl⟩
      · exact Or.inr ⟨hnone, rfl⟩
  have hchanged : ∀ (ts' : ClientThreads) (u : ClientThread) (g : ClientThread → ClientThread)
      (make : Bool), ts' = (if o.hasSlot then ts else ts.deferredHome f.threadId make) →
      ts'.find f.threadId = some u → (∀ t, ContextState (g t) = ContextState t) →
      (ts'.adjust f.threadId g).find id = some t →
      (∃ t', ts.find id = some t' ∧ ContextState t = ContextState t') ∨
        ts.find id = none ∧ ContextState t = ContextState {} := by
    intro ts' u g make hts' hu hg h
    rw [find_adjust hu g id] at h
    split at h
    · rename_i hid
      obtain rfl := Option.some.inj h
      rw [hg]
      exact hhome make u (by rw [← hts', hid, hu])
    · exact hhome make t (by rw [← hts', h])
  unfold settle at h
  split at h
  · split at h
    · exact Or.inl ⟨t, h, rfl⟩
    · dsimp only at h
      split at h
      · exact hhome true t h
      · rename_i u hu
        split at h
        · refine hchanged _ u (fun t => { t with pendingAsync := o.result, failure := _ }) true rfl
            (find_of_home hu) (fun _ => rfl) h
        · exact hhome true t h
  · dsimp only at h
    split at h
    · exact hhome false t h
    · rename_i u hu
      split at h
      · exact hchanged _ u (fun t => { t with pendingAsync := .success }) false rfl (find_of_home hu)
          (fun _ => rfl) h
      · exact hhome false t h

end ClientThreads

namespace Serving

variable {ι : Type} {limits : Limits} {s : Serving} {id : ThreadId} {t : ClientThread}
  {refusal : Option CUerror} {st : List Context}

/-- Between requests: at most one context is on the driver's stack, the serving thread's own record of it
and of the capture mode is right, and every slot names contexts that are or were there. -/
structure Mirror (s : Serving) : Prop where
  shallow : s.driver.stack.length ≤ 1
  applied : s.threads.applied = s.driverApplied
  mode : s.threads.appliedMode = s.driver.mode
  handles : ∀ h, s.driver.Known h → h ≠ 0
  stacked : ∀ c ∈ s.driver.stack, s.driver.Known c.handle
  fits : ∀ id t, s.threads.find id = some t → t.Fits s.driver

/-- With another stack of contexts on the driver, and the record of it right. -/
def withStack (s : Serving) (st : List Context) : Serving :=
  ({ s with driver := { s.driver with stack := st } } : Serving).setApplied
    (match st with
      | [] => {}
      | c :: _ => saved c.handle)

/-- With another capture mode on the driver, and the record of it right. -/
def withMode (s : Serving) (m : CaptureMode) : Serving where
  threads := { s.threads with appliedMode := m }
  driver := { s.driver with mode := m }

/-- A stack of contexts that shows a handle: at most one, with that handle, and either on the stack
already or the one the handle selects. -/
structure Shows (s : Serving) (h : CUcontext) (st : List Context) : Prop where
  short : st.length ≤ 1
  top : ({ s.driver with stack := st } : Driver).current = h
  known : ∀ c ∈ st, s.driver.Known c.handle
  chosen : ∀ c ∈ st, c ∈ s.driver.stack ∨ s.driver.selects c.handle = some c

/-- Where the saved context is that of the stack, setting the stack to itself changes nothing. -/
theorem withStack_eq (h : s.threads.applied = (match s.driver.stack with
      | [] => ({} : SavedContext)
      | c :: _ => saved c.handle)) : s.withStack s.driver.stack = s := by
  unfold withStack setApplied
  rw [← h]

/-- A stack of known contexts shown, with the record of it right. -/
theorem mirror_withStack (hmode : s.threads.appliedMode = s.driver.mode)
    (hhandles : ∀ h, s.driver.Known h → h ≠ 0)
    (hfits : ∀ id t, s.threads.find id = some t → t.Fits s.driver) (hshort : st.length ≤ 1)
    (hknown : ∀ c ∈ st, s.driver.Known c.handle) : (s.withStack st).Mirror where
  shallow := hshort
  applied := by
    show _ = Serving.driverApplied _
    unfold driverApplied Driver.current
    cases st with
    | nil => rfl
    | cons c cs => exact (if_neg (hhandles _ (hknown c List.mem_cons_self))).symm
  mode := hmode
  handles := hhandles
  stacked := hknown
  fits := fun id t hfind => (hfits id t hfind).mono fun _ hknown => hknown

namespace Mirror

/-- What `applied` says of the stack. -/
theorem applied_eq (h : s.Mirror) :
    s.threads.applied = (match s.driver.stack with
      | [] => ({} : SavedContext)
      | c :: _ => saved c.handle) := by
  rw [h.applied, driverApplied, Driver.current]
  cases hst : s.driver.stack with
  | nil => rfl
  | cons c cs =>
      have hc := h.handles _ (h.stacked c (by rw [hst]; exact List.mem_cons_self))
      exact if_neg hc

/-- What is saved as applied is the driver's current context. -/
theorem applied_ctx (h : s.Mirror) : s.threads.applied.ctx = s.driver.current := by
  rw [h.applied_eq, Driver.current]
  cases s.driver.stack <;> rfl

/-- The stack the driver has is the one the state is with. -/
theorem withStack_self (h : s.Mirror) : s.withStack s.driver.stack = s := withStack_eq h.applied_eq

/-- The readback finds nothing to correct. -/
theorem readBack_eq (h : s.Mirror) : s.readBack = s := by
  unfold readBack
  rw [if_pos h.applied_ctx.symm]

/-- There is nothing to adopt, since the driver's current context is the one applied. -/
theorem adoptCurrent_eq (h : s.Mirror) : s.adoptCurrent id = s := by
  unfold adoptCurrent
  rw [if_pos h.applied_ctx.symm]

/-- The driver's stack may be set to at most one context it knows. -/
theorem withStack (h : s.Mirror) (hshort : st.length ≤ 1)
    (hknown : ∀ c ∈ st, s.driver.Known c.handle) : (s.withStack st).Mirror :=
  mirror_withStack h.mode h.handles (fun id t hfind => h.fits id t hfind) hshort hknown

/-- The capture mode may be set. -/
theorem withMode (h : s.Mirror) (m : CaptureMode) : (s.withMode m).Mirror where
  shallow := h.shallow
  applied := h.applied
  mode := rfl
  handles := h.handles
  stacked := h.stacked
  fits := fun id t hfind => (h.fits id t hfind).mono fun _ hknown => hknown

/-- Changing a slot to one that fits. -/
theorem modifySlot (h : s.Mirror) (hlive : s.threads.live.lookup id = some t)
    {f : ClientThread → ClientThread} (hf : (f t).Fits s.driver) : (s.modifySlot id f).Mirror where
  shallow := h.shallow
  applied := h.applied
  mode := h.mode
  handles := h.handles
  stacked := h.stacked
  fits := by
    intro id' t' hfind
    rw [show (s.modifySlot id f).threads = s.threads.modifySlot id f from rfl,
      ClientThreads.find_modifySlot hlive] at hfind
    split at hfind
    · rw [← Option.some.inj hfind]
      exact hf
    · exact h.fits id' t' hfind

/-- `clear` leaves the serving thread with no context. -/
theorem clear_eq (h : s.Mirror) : s.clear = (s.withStack [], .success) := by
  have happlied := h.applied_eq
  have hshallow := h.shallow
  cases hst : s.driver.stack with
  | nil =>
      have hself := h.withStack_self
      rw [hst] at hself happlied
      rw [hself]
      unfold clear clearLoop
      simp [happlied]
  | cons c cs =>
      rw [hst] at happlied hshallow
      have hc : c.handle ≠ 0 := h.handles _ (h.stacked c (by rw [hst]; exact List.mem_cons_self))
      obtain rfl : cs = [] := List.length_eq_zero_iff.mp (by simpa using hshallow)
      -- one pop empties the stack, and the loop stops
      unfold clear clearLoop clearLoop
      simp [happlied, saved, hc, hst, Driver.setCurrent, driverApplied, Driver.current, setApplied,
        Serving.withStack]

/-- `show_context` shows the thread's current context, and never fails. -/
theorem showContext_spec (h : s.Mirror) (hlive : s.threads.live.lookup id = some t) :
    ∃ st, s.Shows t.shownCtx st ∧ s.showContext id = (s.withStack st, .success) := by
  have hslot : s.slot id = t := ClientThreads.slot_of_live hlive
  have hnone : ∀ h', h' = 0 → s.Shows h' [] := by
    rintro h' rfl
    exact ⟨Nat.zero_le _, rfl, by simp, by simp⟩
  unfold showContext
  rw [hslot]
  split
  · rename_i hst
    exact ⟨[], hnone _ (by unfold ClientThread.shownCtx; rw [hst]), h.clear_eq⟩
  · rename_i top rest hst
    split
    · rename_i hgone
      exact ⟨[], hnone _ (by unfold ClientThread.shownCtx; rw [hst]; simp [hgone]), h.clear_eq⟩
    · rename_i hgone
      have hshown : t.shownCtx = top.ctx := by
        unfold ClientThread.shownCtx
        rw [hst]
        simp [hgone]
      split
      · rename_i hsame
        refine ⟨s.driver.stack, ⟨h.shallow, ?_, h.stacked, fun c hc => Or.inl hc⟩, ?_⟩
        · rw [hshown, hsame]
          exact h.applied_ctx.symm
        · rw [h.withStack_self]
      · have hknown := (h.fits id t (ClientThreads.find_of_live hlive)).known top
          (by rw [hst]; exact List.mem_cons_self)
        obtain ⟨c, hc⟩ := hknown.selects
        have hhandle := (Driver.selects_some hc).2
        have hne := h.handles _ hknown
        have htail : s.driver.stack.tail = [] := by
          have := h.shallow
          cases hst' : s.driver.stack with
          | nil => rfl
          | cons c' cs => simpa [hst'] using this
        refine ⟨[c], ⟨le_rfl, by rw [hshown, ← hhandle]; rfl, ?_, ?_⟩, ?_⟩
        · intro c' hc'
          rw [List.mem_singleton.mp hc', hhandle]
          exact hknown
        · intro c' hc'
          rw [List.mem_singleton.mp hc', hhandle]
          exact Or.inr hc
        · have hset : s.driver.setCurrent top.ctx =
              ({ s.driver with stack := [c] }, .success) := by
            unfold Driver.setCurrent
            rw [if_neg hne, hc, htail]
          have htop : top = saved top.ctx := by
            cases top
            simpa [saved] using hgone
          rw [hset]
          dsimp only
          rw [if_pos rfl]
          show _ = (Serving.setApplied _ (saved c.handle), _)
          rw [hhandle, ← htop]

/-- Setting it to what it is changes nothing. -/
theorem withMode_self (h : s.Mirror) : s.withMode s.threads.appliedMode = s := by
  unfold Serving.withMode
  nth_rewrite 2 [h.mode]
  rfl

/-- Showing a thread's state leaves its context shown, and its mode unless the driver refuses that. -/
theorem clientThreadShow_spec (h : s.Mirror) (hlive : s.threads.live.lookup id = some t)
    (refusal : Option CUerror) :
    ∃ st, s.Shows t.shownCtx st ∧
      ((t.captureMode = s.threads.appliedMode ∨ refusal = none) →
        s.clientThreadShow id refusal = ((s.withStack st).withMode t.captureMode, .success)) ∧
      ∀ e, t.captureMode ≠ s.threads.appliedMode → refusal = some e →
        s.clientThreadShow id refusal = (s.withStack st, e.1) := by
  obtain ⟨st, hshows, hshow⟩ := h.showContext_spec hlive
  have hslot : (s.withStack st).slot id = t := ClientThreads.slot_of_live hlive
  have hmirror := h.withStack hshows.short hshows.known
  refine ⟨st, hshows, fun hmode => ?_, fun e hmode hrefusal => ?_⟩
  · unfold clientThreadShow
    rw [hshow]
    dsimp only
    rw [if_pos rfl]
    unfold showCaptureMode
    rw [hslot]
    dsimp only
    split
    · rename_i hsame
      rw [hsame, hmirror.withMode_self]
    · rename_i hother
      obtain rfl := hmode.resolve_left hother
      rfl
  · subst hrefusal
    unfold clientThreadShow
    rw [hshow]
    dsimp only
    rw [if_pos rfl]
    unfold showCaptureMode
    rw [hslot]
    dsimp only
    rw [if_neg (show ¬ t.captureMode = (s.withStack st).threads.appliedMode from hmode)]
    exact if_neg e.2

/-- A thread's state is shown exactly if its mode and its context are the ones applied. -/
theorem clientThreadShown_iff (h : s.Mirror) (hlive : s.threads.live.lookup id = some t) :
    s.clientThreadShown id = true ↔
      t.captureMode = s.threads.appliedMode ∧ s.driver.current = t.shownCtx := by
  have hslot : s.slot id = t := ClientThreads.slot_of_live hlive
  unfold clientThreadShown ClientThread.shownCtx
  rw [hslot, h.applied_ctx]
  dsimp only
  by_cases hmode : t.captureMode = s.threads.appliedMode
  · rw [if_neg (not_not.mpr hmode)]
    cases hst : t.stack with
    | nil => simp [hmode]
    | cons top rest =>
        cases hgone : top.gone with
        | true => simp [hmode, hgone]
        | false =>
            simp only [hgone, hmode, Bool.false_eq_true, if_false, decide_eq_true_eq, true_and]
            exact eq_comm
  · rw [if_pos hmode]
    simp [hmode]

end Mirror

/-- The serving thread shows the state of the thread whose request is to run. -/
structure Ready (s : Serving) (id : ThreadId) (t : ClientThread) : Prop where
  mirror : s.Mirror
  live : s.threads.live.lookup id = some t
  current : s.driver.current = t.shownCtx
  mode : s.threads.appliedMode = t.captureMode

/-- A thread with a slot has its state shown, unless the driver refuses its capture mode. -/
theorem Mirror.prepare_spec (h : s.Mirror) (hlive : s.threads.live.lookup id = some t)
    (refusal : Option CUerror) :
    ∃ st, s.Shows t.shownCtx st ∧
      ((t.captureMode = s.threads.appliedMode ∨ refusal = none) →
        s.prepare id refusal = ((s.withStack st).withMode t.captureMode, .success) ∧
          ((s.withStack st).withMode t.captureMode).Ready id t) ∧
      ∀ e, t.captureMode ≠ s.threads.appliedMode → refusal = some e →
        s.prepare id refusal = (s.withStack st, e.1) := by
  by_cases hshown : s.clientThreadShown id = true
  · obtain ⟨hmode, hcurrent⟩ := (h.clientThreadShown_iff hlive).mp hshown
    refine ⟨s.driver.stack, ⟨h.shallow, hcurrent, h.stacked, fun c hc => Or.inl hc⟩, fun _ => ?_,
      fun _ hne => absurd hmode hne⟩
    rw [h.withStack_self, hmode, h.withMode_self]
    exact ⟨if_pos hshown, h, hlive, hcurrent, hmode.symm⟩
  · obtain ⟨st, hshows, hok, hrefused⟩ := h.clientThreadShow_spec hlive refusal
    refine ⟨st, hshows, fun hmode => ⟨?_, ?_⟩, fun e hne hrefusal => ?_⟩
    · rw [← hok hmode]
      exact if_neg hshown
    · exact ⟨(h.withStack hshows.short hshows.known).withMode _, hlive, hshows.top, rfl⟩
    · rw [← hrefused e hne hrefusal]
      exact if_neg hshown

/-- The two ways showing a thread's state can end. -/
theorem Mirror.prepare_cases (h : s.Mirror) (hlive : s.threads.live.lookup id = some t) {s' : Serving}
    {r : CUresult} (hprepare : s.prepare id refusal = (s', r)) :
    ∃ st, s.Shows t.shownCtx st ∧
      (r = .success ∧ (t.captureMode = s.threads.appliedMode ∨ refusal = none) ∧
          s' = (s.withStack st).withMode t.captureMode ∧ s'.Ready id t ∨
        r ≠ .success ∧ (t.captureMode ≠ s.threads.appliedMode ∧ refusal ≠ none) ∧
          s' = s.withStack st) := by
  obtain ⟨st, hshows, hok, hrefused⟩ := h.prepare_spec hlive refusal
  refine ⟨st, hshows, ?_⟩
  by_cases hmode : t.captureMode = s.threads.appliedMode ∨ refusal = none
  · left
    obtain ⟨heq, hready⟩ := hok hmode
    obtain ⟨rfl, rfl⟩ := Prod.mk.injEq .. ▸ (hprepare.symm.trans heq)
    exact ⟨rfl, hmode, rfl, hready⟩
  · right
    rw [not_or] at hmode
    obtain ⟨e, he⟩ := Option.ne_none_iff_exists'.mp hmode.2
    have heq := hrefused e hmode.1 he
    obtain ⟨rfl, rfl⟩ := Prod.mk.injEq .. ▸ (hprepare.symm.trans heq)
    exact ⟨e.2, hmode, rfl⟩

namespace Ready

/-- A new stack on the thread's slot, and the driver showing it. -/
theorem setStack (h : s.Ready id t) {stack : List SavedContext}
    (hstack : ∀ e ∈ stack, s.driver.Known e.ctx) :
    (s.modifySlot id fun t => t.setStack stack).Mirror :=
  h.mirror.modifySlot h.live ⟨hstack, rfl⟩

/-- A slot whose top was popped is shown. -/
theorem popped (h : s.Ready id t) {top : SavedContext} {rest : List SavedContext}
    (hst : t.stack = top :: rest) (refusal : Option CUerror) :
    ∃ st, s.Shows (t.setStack rest).shownCtx st ∧
      (s.modifySlot id fun t => t.setStack rest).clientThreadShow id refusal =
        ((s.modifySlot id fun t => t.setStack rest).withStack st, .success) := by
  have hfits := (h.mirror.fits id t (ClientThreads.find_of_live h.live)).known
  rw [hst] at hfits
  have hmirror := h.setStack fun e he => hfits e (List.mem_cons_of_mem _ he)
  have hlive : (s.modifySlot id fun t => t.setStack rest).threads.live.lookup id =
      some (t.setStack rest) := ClientThreads.lookup_modifySlot h.live _
  obtain ⟨st, hshows, hok, -⟩ := hmirror.clientThreadShow_spec hlive refusal
  refine ⟨st, ⟨hshows.short, hshows.top, hshows.known, hshows.chosen⟩, ?_⟩
  have hmode : (t.setStack rest).captureMode = s.threads.appliedMode := h.mode.symm
  rw [hok (Or.inl hmode), hmode]
  have hself := (hmirror.withStack hshows.short hshows.known).withMode_self
  exact congrArg (·, CUresult.success) hself

/-- The driver's stack has at most one context. -/
theorem tail_eq_nil (h : s.Mirror) : s.driver.stack.tail = [] := by
  have hshallow := h.shallow
  cases hst : s.driver.stack with
  | nil => rfl
  | cons c cs => simpa [hst] using hshallow

/-- Selecting a handle on the driver. -/
theorem driver_setCurrent (h : s.Mirror) {ctx : CUcontext} (hctx : ctx ≠ 0) :
    s.driver.setCurrent ctx =
      match s.driver.selects ctx with
      | some c => ({ s.driver with stack := [c] }, .success)
      | none => (s.driver, .invalidContext) := by
  unfold Driver.setCurrent
  rw [if_neg hctx]
  cases s.driver.selects ctx with
  | none => rfl
  | some c =>
      have htail : c :: s.driver.stack.tail = [c] := congrArg (c :: ·) (tail_eq_nil h)
      exact congrArg (fun st => ({ s.driver with stack := st }, CUresult.success)) htail

/-- `cuCtxSetCurrent` of null pops. -/
theorem wCuCtxSetCurrent_null (h : s.Ready id t) (refusal : Option CUerror) :
    t.stack = [] ∧ s.wCuCtxSetCurrent id 0 refusal = (s, .success) ∨
      ∃ top rest st, t.stack = top :: rest ∧ s.Shows (t.setStack rest).shownCtx st ∧
        s.wCuCtxSetCurrent id 0 refusal =
          ((s.modifySlot id fun t => t.setStack rest).withStack st, .success) := by
  have hslot : s.slot id = t := ClientThreads.slot_of_live h.live
  unfold wCuCtxSetCurrent
  rw [hslot]
  dsimp only
  rw [if_pos rfl]
  cases hst : t.stack with
  | nil => exact Or.inl ⟨rfl, rfl⟩
  | cons top rest =>
      obtain ⟨st, hshows, hshow⟩ := h.popped hst refusal
      exact Or.inr ⟨top, rest, st, rfl, hshows, hshow⟩

/-- `cuCtxSetCurrent` of a handle replaces the top, if the driver knows the handle. -/
theorem wCuCtxSetCurrent_handle (h : s.Ready id t) {ctx : CUcontext} (hctx : ctx ≠ 0)
    (refusal : Option CUerror) :
    s.wCuCtxSetCurrent id ctx refusal =
      match s.driver.selects ctx with
      | some c => ((s.modifySlot id fun t => t.setStack (saved ctx :: t.stack.tail)).withStack [c], .success)
      | none => (s, .invalidContext) := by
  unfold wCuCtxSetCurrent
  dsimp only
  rw [if_neg hctx, driver_setCurrent h.mirror hctx]
  cases hsel : s.driver.selects ctx with
  | none =>
      dsimp only
      rw [if_neg (by decide)]
      exact congrArg (·, CUresult.invalidContext) h.mirror.readBack_eq
  | some c =>
      dsimp only
      rw [if_pos rfl]
      show (Serving.setApplied _ (saved ctx), _) = (Serving.setApplied _ (saved c.handle), _)
      rw [(Driver.selects_some hsel).2]
      rfl

/-- `cuCtxPushCurrent` of a handle pushes it, if there is room and the driver knows the handle. -/
theorem wCuCtxPushCurrent_eq (h : s.Ready id t) (limits : Limits) (ctx : CUcontext) :
    s.wCuCtxPushCurrent limits id ctx =
      if ctx = 0 then (s, .invalidContext)
      else if mayPush limits t then
        match s.driver.selects ctx with
        | some c => ((s.modifySlot id fun t => t.setStack (saved ctx :: t.stack)).withStack [c], .success)
        | none => (s, .invalidContext)
      else (s, .invalidValue) := by
  have hslot : s.slot id = t := ClientThreads.slot_of_live h.live
  unfold wCuCtxPushCurrent
  rw [hslot]
  by_cases hctx : ctx = 0
  · rw [if_pos hctx, if_pos hctx]
  · rw [if_neg hctx, if_neg hctx]
    by_cases hroom : mayPush limits t = true
    · rw [if_pos hroom, if_pos hroom, driver_setCurrent h.mirror hctx]
      cases hsel : s.driver.selects ctx with
      | none =>
          dsimp only
          rw [if_neg (by decide)]
          exact congrArg (·, CUresult.invalidContext) h.mirror.readBack_eq
      | some c =>
          dsimp only
          rw [if_pos rfl]
          show (Serving.setApplied _ (saved ctx), _) = (Serving.setApplied _ (saved c.handle), _)
          rw [(Driver.selects_some hsel).2]
          rfl
    · rw [if_neg hroom, if_neg hroom]

/-- `cuCtxPopCurrent` pops. -/
theorem wCuCtxPopCurrent_spec (h : s.Ready id t) (refusal : Option CUerror) :
    t.stack = [] ∧ s.wCuCtxPopCurrent id refusal = (s, .invalidContext, 0) ∨
      ∃ top rest st, t.stack = top :: rest ∧ s.Shows (t.setStack rest).shownCtx st ∧
        s.wCuCtxPopCurrent id refusal =
          ((s.modifySlot id fun t => t.setStack rest).withStack st, .success, top.ctx) := by
  have hslot : s.slot id = t := ClientThreads.slot_of_live h.live
  unfold wCuCtxPopCurrent
  rw [hslot]
  cases hst : t.stack with
  | nil =>
      refine Or.inl ⟨rfl, ?_⟩
      -- nothing is shown, so the driver's stack is empty too
      have hempty : s.driver.stack = [] := by
        have hcurrent := h.current
        unfold ClientThread.shownCtx Driver.current at hcurrent
        rw [hst] at hcurrent
        cases hdst : s.driver.stack with
        | nil => rfl
        | cons c cs =>
            rw [hdst] at hcurrent
            exact absurd hcurrent
              (h.mirror.handles _ (h.mirror.stacked c (by rw [hdst]; exact List.mem_cons_self)))
      have hpop : s.driver.popCurrent = (s.driver, .invalidContext, 0) := by
        unfold Driver.popCurrent
        rw [hempty]
      dsimp only
      rw [hpop]
      exact congrArg (·, CUresult.invalidContext, 0) h.mirror.readBack_eq
  | cons top rest =>
      obtain ⟨st, hshows, hshow⟩ := h.popped hst refusal
      refine Or.inr ⟨top, rest, st, rfl, hshows, ?_⟩
      dsimp only
      rw [hshow]

/-- The exchange of the capture mode changes the driver's and the thread's, if the driver does not
refuse. -/
theorem exchangeCaptureMode_eq (s : Serving) (id : ThreadId) (wanted : CaptureMode)
    (refusal : Option CUerror) :
    s.exchangeCaptureMode id wanted refusal =
      match refusal with
      | none => ((s.withMode wanted).modifySlot id fun t => { t with captureMode := wanted },
          .success, s.driver.mode)
      | some e => (s, e.1, wanted) := by
  unfold exchangeCaptureMode Driver.exchangeMode
  cases refusal with
  | none => rfl
  | some e => exact if_neg e.2

/-- The readback finds the new context alone on the driver's stack. -/
theorem readBack_created (s : Serving) (id : ThreadId) {c : Context} (hst : s.driver.stack = [c]) :
    ((s.modifySlot id fun t => t.setStack (saved c.handle :: t.stack)).setApplied
      (saved c.handle)).readBack =
      (s.modifySlot id fun t => t.setStack (saved c.handle :: t.stack)).withStack [c] := by
  have hself : ({ s.driver with stack := [c] } : Driver) = s.driver := by
    rw [← hst]
  have hcurrent : s.driver.current = c.handle := by
    unfold Driver.current
    rw [hst]
  unfold readBack
  refine (if_pos hcurrent).trans ?_
  unfold Serving.withStack
  rw [show ({ (s.modifySlot id fun t => t.setStack (saved c.handle :: t.stack)).driver with
    stack := [c] } : Driver) = s.driver from hself]
  rfl

/-- A create pushes the new context onto the thread's stack, and shows it. -/
theorem wCuCtxCreate_eq (h : s.Ready id t) (limits : Limits) (answer : Except CUerror CUcontext) :
    s.wCuCtxCreate limits id answer =
      if mayPush limits t then
        match answer with
        | .error e => (s, e.1, 0)
        | .ok ctx =>
            if ctx = 0 ∨ (s.driver.find ctx).isSome then (s, .outOfMemory, 0)
            else
              ((({ s with driver := { s.driver with
                    live := ⟨ctx, s.driver.made⟩ :: s.driver.live
                    made := s.driver.made + 1 } } : Serving).modifySlot id fun t =>
                  t.setStack (saved ctx :: t.stack)).withStack [⟨ctx, s.driver.made⟩], .success, ctx)
      else (s, .invalidValue, 0) := by
  have hslot : s.slot id = t := ClientThreads.slot_of_live h.live
  unfold wCuCtxCreate
  rw [hslot]
  by_cases hroom : mayPush limits t = true
  · rw [if_pos hroom, if_pos hroom]
    unfold Driver.create
    cases answer with
    | error e => exact if_neg e.2
    | ok ctx =>
        dsimp only
        by_cases hbad : ctx = 0 ∨ (s.driver.find ctx).isSome = true
        · rw [if_pos hbad, if_pos hbad]
          exact if_neg (show CUresult.outOfMemory ≠ CUresult.success by decide)
        · rw [if_neg hbad, if_neg hbad]
          rw [not_or] at hbad
          dsimp only
          rw [if_pos rfl]
          unfold clientThreadsCreated
          rw [if_neg hbad.1]
          dsimp only
          have happlied := h.mirror.applied_ctx
          have hshallow := h.mirror.shallow
          cases hst : s.driver.stack with
          | nil =>
              have hzero : s.threads.applied.ctx = 0 := by
                rw [happlied, Driver.current, hst]
              rw [if_pos hzero]
              exact Prod.ext ((readBack_created (c := ⟨ctx, s.driver.made⟩) _ id rfl).trans rfl) rfl
          | cons c cs =>
              rw [hst] at hshallow
              obtain rfl : cs = [] := List.length_eq_zero_iff.mp (by simpa using hshallow)
              have hnonzero : ¬ s.threads.applied.ctx = 0 := by
                rw [happlied, Driver.current, hst]
                exact h.mirror.handles _ (h.mirror.stacked c (by rw [hst]; exact List.mem_cons_self))
              rw [if_neg hnonzero]
              -- the old top is popped, and the new one, which the driver finds first, put in its place
              have hset : (({ s.driver with
                    live := ⟨ctx, s.driver.made⟩ :: s.driver.live
                    made := s.driver.made + 1
                    stack := [⟨ctx, s.driver.made⟩, c] } : Driver).setCurrent 0).1.setCurrent ctx =
                  ({ s.driver with
                    live := ⟨ctx, s.driver.made⟩ :: s.driver.live
                    made := s.driver.made + 1
                    stack := [⟨ctx, s.driver.made⟩] }, .success) := by
                simp [Driver.setCurrent, hbad.1, Driver.selects, Driver.find]
              rw [hset]
              exact Prod.ext ((readBack_created (c := ⟨ctx, s.driver.made⟩) _ id rfl).trans rfl) rfl
  · rw [if_neg hroom, if_neg hroom]

end Ready

/-! ## Destroying a context -/

/-- Every entry naming a handle marked. -/
def mark (ctx : CUcontext) (stack : List SavedContext) : List SavedContext :=
  stack.map fun e => if e.ctx = ctx then { e with gone := true } else e

/-- The sweep misses no entry, because a slot knows what its stack names. -/
theorem sweepOne_eq {d : Driver} (h : t.Fits d) (ctx : CUcontext) :
    sweepOne ctx t = { t with stack := mark ctx t.stack } := by
  unfold sweepOne
  split
  · rfl
  · rename_i hnot
    rw [h.named, List.mem_map, not_exists] at hnot
    have hsame : mark ctx t.stack = t.stack := by
      refine (List.map_congr_left fun e he => ?_).trans (List.map_id _)
      exact if_neg fun hctx => hnot e ⟨he, hctx⟩
    rw [hsame]

/-- Sweeping a destroyed context out of a slot leaves it fitting. -/
theorem fits_sweepOne {d : Driver} (h : t.Fits d) (ctx : CUcontext) : (sweepOne ctx t).Fits d := by
  have hctx : (mark ctx t.stack).map SavedContext.ctx = t.stack.map SavedContext.ctx := by
    unfold mark
    rw [List.map_map]
    refine List.map_congr_left fun e _ => ?_
    rw [Function.comp_apply]
    split <;> rfl
  rw [sweepOne_eq h]
  refine ⟨fun e he => ?_, h.named.trans hctx.symm⟩
  obtain ⟨e', he', heq⟩ := List.mem_map.mp (hctx ▸ List.mem_map_of_mem (f := SavedContext.ctx) he)
  rw [← heq]
  exact h.known e' he'

/-- Popping a destroyed context leaves a slot fitting. -/
theorem fits_popDestroyed {d : Driver} (h : t.Fits d) (ctx : CUcontext) : (popDestroyed ctx t).Fits d := by
  unfold popDestroyed
  split
  · exact h
  · rename_i top rest hst
    split
    · refine ⟨fun e he => h.known e ?_, rfl⟩
      rw [hst]
      exact List.mem_cons_of_mem _ he
    · exact h

/-- The sweep is of every slot. -/
theorem find_sweep (s : Serving) (ctx : CUcontext) (id : ThreadId) :
    (s.sweep ctx).threads.find id = (s.threads.find id).map (sweepOne ctx) := by
  unfold sweep ClientThreads.find
  dsimp only
  rw [AssocList.lookup_mapValues, AssocList.lookup_mapValues]
  cases s.threads.live.lookup id <;> rfl

/-- The slots behind the destruction of a context: it is popped from the thread's stack if it was on top,
and every other entry naming it is marked. -/
def swept (s : Serving) (id : ThreadId) (c : Context) (st : List Context) : Serving :=
  (({ s with driver := { s.driver with
      live := s.driver.live.erase c
      dead := c :: s.driver.dead
      stack := st } } : Serving).modifySlot id (popDestroyed c.handle)).sweep c.handle

/-- And with nothing left shown that names it. -/
def destroyed (s : Serving) (id : ThreadId) (c : Context) : Serving :=
  (s.swept id c s.driver.stack).withStack
    (if s.driver.current = c.handle then [] else s.driver.stack)

/-- After a context has been destroyed, the calling thread has popped it and every slot is swept. -/
theorem find_swept {c : Context} (hlive : s.threads.live.lookup id = some t) (st : List Context)
    (id' : ThreadId) :
    (s.swept id c st).threads.find id' =
      if id' = id then some (sweepOne c.handle (popDestroyed c.handle t))
      else (s.threads.find id').map (sweepOne c.handle) := by
  unfold swept
  rw [find_sweep]
  show Option.map _ ((s.threads.modifySlot id (popDestroyed c.handle)).find id') = _
  rw [ClientThreads.find_modifySlot hlive]
  split <;> rfl

/-- The calling thread's slot is live still. -/
theorem live_swept {c : Context} (hlive : s.threads.live.lookup id = some t) (st : List Context) :
    (s.swept id c st).threads.live.lookup id =
      some (sweepOne c.handle (popDestroyed c.handle t)) := by
  show (AssocList.mapValues (sweepOne c.handle) (AssocList.adjust id _ s.threads.live)).lookup id = _
  rw [AssocList.lookup_mapValues, AssocList.lookup_adjust, if_pos rfl, hlive]
  rfl

/-- Any stack of known contexts may be shown behind the destruction. -/
theorem Mirror.swept (h : s.Mirror) {c : Context} (hc : c ∈ s.driver.live)
    (hlive : s.threads.live.lookup id = some t) (st' : List Context) (hshort : st.length ≤ 1)
    (hknown : ∀ c ∈ st, s.driver.Known c.handle) : ((s.swept id c st').withStack st).Mirror := by
  have hmono : ∀ h', ({ s.driver with live := s.driver.live.erase c, dead := c :: s.driver.dead } :
      Driver).Known h' ↔ s.driver.Known h' := fun h' => Driver.known_erase hc
  refine mirror_withStack h.mode (fun h' hh' => h.handles h' ((hmono h').mp hh'))
    (fun id' t' hfind => ?_) hshort fun c' hc' => (hmono _).mpr (hknown c' hc')
  rw [find_swept hlive] at hfind
  split at hfind
  · obtain rfl := Option.some.inj hfind
    refine fits_sweepOne (fits_popDestroyed ?_ _) _
    exact (h.fits id t (ClientThreads.find_of_live hlive)).mono fun h' hh' => (hmono h').mpr hh'
  · obtain ⟨u, hu, rfl⟩ := Option.map_eq_some_iff.mp hfind
    refine fits_sweepOne (ClientThread.Fits.mono (h.fits id' u hu) ?_) _
    exact fun h' hh' => (hmono h').mpr hh'

/-- Destroying a live context keeps the mirror. -/
theorem Mirror.destroyed (h : s.Mirror) {c : Context} (hc : c ∈ s.driver.live)
    (hlive : s.threads.live.lookup id = some t) : (s.destroyed id c).Mirror := by
  refine h.swept hc hlive _ ?_ fun c' hc' => ?_
  · split
    · exact Nat.zero_le _
    · exact h.shallow
  · split at hc'
    · cases hc'
    · exact h.stacked c' hc'

/-- Whatever the destruction left current on the driver, the code leaves nothing shown that names the
context. -/
theorem Mirror.clean (h : s.Mirror) {c : Context} (hc : c ∈ s.driver.live)
    (hlive : s.threads.live.lookup id = some t) {u : Serving}
    (hu : u = s.swept id c (if s.driver.stack.head? = some c then s.driver.stack.tail
      else s.driver.stack)) :
    (if u.threads.applied.ctx = c.handle then
      if u.readBack.threads.applied.ctx = c.handle then u.readBack.clear.1 else u.readBack
    else u) = s.destroyed id c := by
  have hne : c.handle ≠ 0 := h.handles _ ⟨c, List.mem_append_left _ hc, rfl⟩
  have happlied : u.threads.applied = s.threads.applied := by rw [hu]; rfl
  have hctx := h.applied_ctx
  have hshallow := h.shallow
  unfold Serving.destroyed
  by_cases hcurrent : s.driver.current = c.handle
  -- the driver's stack is one deep at most, so that its top is all there is
  · rw [if_pos (by rw [happlied, hctx, hcurrent]), if_pos hcurrent]
    cases hst : s.driver.stack with
    | nil =>
        rw [Driver.current, hst] at hcurrent
        exact absurd hcurrent.symm hne
    | cons x xs =>
        have hx : x.handle = c.handle := by rwa [Driver.current, hst] at hcurrent
        rw [hst] at hshallow hu
        obtain rfl : xs = [] := List.length_eq_zero_iff.mp (by simpa using hshallow)
        by_cases hsame : x = c
        · -- the driver popped it, and the readback finds that
          rw [if_pos (by rw [hsame]; rfl)] at hu
          have hread : u.readBack = u.withStack [] := by
            unfold readBack
            rw [happlied, hctx, hcurrent, if_neg (by rw [hu]; exact hne.symm)]
            rw [hu]
            rfl
          have hother : ¬ (u.withStack []).threads.applied.ctx = c.handle := fun hzero => hne hzero.symm
          rw [hread, if_neg hother, hu]
          rfl
        · -- it is the handle of an older context that is on the driver's stack, and is cleared
          rw [if_neg (by simpa using hsame)] at hu
          have hmirror : u.Mirror := by
            have hshown : ((s.swept id c [x]).withStack [x]).Mirror := h.swept hc hlive [x] le_rfl
              (by simpa using hx ▸ ⟨c, List.mem_append_left _ hc, rfl⟩)
            have hself : (s.swept id c [x]).withStack [x] = s.swept id c [x] := by
              refine withStack_eq (s := s.swept id c [x]) ?_
              show s.threads.applied = saved x.handle
              rw [h.applied_eq, hst]
            rw [hu, ← hself]
            exact hshown
          rw [hmirror.readBack_eq, if_pos (by rw [happlied, hctx, hcurrent]), hmirror.clear_eq, hu]
  · rw [if_neg (by rw [happlied, hctx]; exact hcurrent), if_neg hcurrent, hu]
    -- a context that is not current is not on top, and the driver pops nothing
    have hhead : ¬ s.driver.stack.head? = some c := by
      intro hhead
      apply hcurrent
      unfold Driver.current
      cases hst : s.driver.stack with
      | nil => simp [hst] at hhead
      | cons x xs =>
          rw [hst, List.head?_cons, Option.some.injEq] at hhead
          rw [hhead]
    rw [if_neg hhead]
    unfold Serving.withStack setApplied
    rw [← h.applied_eq]
    rfl

/-- Destroying a context leaves the thread's state shown behind it. -/
theorem Ready.wCuCtxDestroy_spec (h : s.Ready id t) (ctx : CUcontext) (refusal inner : Option CUerror) :
    match refusal, s.driver.find ctx with
    | some e, _ => s.wCuCtxDestroy id ctx refusal inner = (s, e.1)
    | none, none => s.wCuCtxDestroy id ctx refusal inner = (s, .invalidContext)
    | none, some c => ∃ st, (s.destroyed id c).Shows
        (sweepOne c.handle (popDestroyed c.handle t)).shownCtx st ∧
        s.wCuCtxDestroy id ctx refusal inner = ((s.destroyed id c).withStack st, .success) := by
  unfold wCuCtxDestroy Driver.destroy
  cases refusal with
  | some e => exact if_neg e.2
  | none =>
      cases hfind : s.driver.find ctx with
      | none => exact if_neg (show CUresult.invalidContext ≠ CUresult.success by decide)
      | some c =>
          obtain ⟨hc, rfl⟩ := Driver.find_some hfind
          have hmirror := h.mirror.destroyed hc h.live
          have hne : c.handle ≠ 0 := h.mirror.handles _ ⟨c, List.mem_append_left _ hc, rfl⟩
          obtain ⟨st, hshows, hok, -⟩ := hmirror.clientThreadShow_spec (live_swept h.live _) inner
          -- the sweep takes contexts off the stacks and leaves the capture modes
          have hmode : (sweepOne c.handle (popDestroyed c.handle t)).captureMode =
              (s.destroyed id c).threads.appliedMode := by
            have hsweep : ∀ u, (sweepOne c.handle u).captureMode = u.captureMode := by
              intro u
              unfold sweepOne
              split <;> rfl
            have hpop : (popDestroyed c.handle t).captureMode = t.captureMode := by
              unfold popDestroyed
              split
              · rfl
              · split <;> rfl
            rw [hsweep, hpop]
            exact h.mode.symm
          have hshow := hok (Or.inl hmode)
          have hself : ((s.destroyed id c).withStack st).withMode (s.destroyed id c).threads.appliedMode =
              (s.destroyed id c).withStack st :=
            (hmirror.withStack hshows.short hshows.known).withMode_self
          rw [hmode, hself] at hshow
          refine ⟨st, hshows, ?_⟩
          dsimp only
          rw [if_pos rfl]
          unfold clientThreadsDestroyed
          rw [if_neg hne]
          have hclean := h.mirror.clean hc h.live rfl
          unfold Serving.swept at hclean
          dsimp only at hclean ⊢
          rw [hclean, hshow]

/-! ## The effect of a call -/

/-- The thread's own stack under a handle it did not select: the top replaced, or popped by null. -/
def adopted (ctx : CUcontext) (t : ClientThread) : ClientThread :=
  t.setStack (if ctx = 0 then t.stack.tail else saved ctx :: t.stack.tail)

/-- When a context call is accepted by the code and by the driver. -/
def Accepts (limits : Limits) (s : Serving) (t : ClientThread) (a : Answers ι) : Call → Prop
  | .ctxSetCurrent ctx => ctx = 0 ∨ s.driver.Known ctx
  | .ctxPushCurrent ctx => ctx ≠ 0 ∧ mayPush limits t = true ∧ s.driver.Known ctx
  | .ctxPopCurrent _ => t.stack ≠ []
  | .ctxGetCurrent out => out = true
  | .ctxCreate out => out = true ∧ mayPush limits t = true ∧
      ∃ ctx, a.created = .ok ctx ∧ ctx ≠ 0 ∧ s.driver.find ctx = none
  | .ctxDestroy ctx | .ctxDetach ctx => a.destroyRefusal = none ∧ ∃ c, s.driver.find ctx = some c
  | .captureMode _ => a.exchangeRefusal = none
  | .threadGone _ => False
  | .other _ => True

/-- A call that destroys the context under a handle. -/
def Call.Destroys (c : Call) (ctx : CUcontext) : Prop := c = .ctxDestroy ctx ∨ c = .ctxDetach ctx

/-- What a call comes to, from the state that shows its thread, up to the readback behind it. -/
inductive Effect (limits : Limits) (s : Serving) (id : ThreadId) (t : ClientThread) (a : Answers ι) :
    Call → Serving → CUresult → Payload → Prop
  /-- A context call is refused, and changes nothing. -/
  | refused {c r payload} (hcall : ∀ api, c ≠ .other api)
      (hwhy : a.wellFormed = false ∨ ¬ Accepts limits s t a c) (hr : r ≠ .success) :
      Effect limits s id t a c s r payload
  | setNothing (hst : t.stack = []) : Effect limits s id t a (.ctxSetCurrent 0) s .success .empty
  | setNull {top rest st} (hst : t.stack = top :: rest) (hshows : s.Shows (t.setStack rest).shownCtx st) :
      Effect limits s id t a (.ctxSetCurrent 0)
        ((s.modifySlot id fun t => t.setStack rest).withStack st) .success .empty
  | set {ctx c} (hctx : ctx ≠ 0) (hsel : s.driver.selects ctx = some c) :
      Effect limits s id t a (.ctxSetCurrent ctx)
        ((s.modifySlot id fun t => t.setStack (saved ctx :: t.stack.tail)).withStack [c]) .success .empty
  | push {ctx c} (hroom : mayPush limits t = true) (hctx : ctx ≠ 0)
      (hsel : s.driver.selects ctx = some c) :
      Effect limits s id t a (.ctxPushCurrent ctx)
        ((s.modifySlot id fun t => t.setStack (saved ctx :: t.stack)).withStack [c]) .success .empty
  | pop {out top rest st} (hst : t.stack = top :: rest)
      (hshows : s.Shows (t.setStack rest).shownCtx st) :
      Effect limits s id t a (.ctxPopCurrent out)
        ((s.modifySlot id fun t => t.setStack rest).withStack st) .success
        (if out then .context top.ctx else .empty)
  | get : Effect limits s id t a (.ctxGetCurrent true) s .success (.context (s.wCuCtxGetCurrent id))
  | create {ctx} (hroom : mayPush limits t = true) (hok : a.created = .ok ctx) (hctx : ctx ≠ 0)
      (hfree : s.driver.find ctx = none) :
      Effect limits s id t a (.ctxCreate true)
        ((({ s with driver := { s.driver with
              live := ⟨ctx, s.driver.made⟩ :: s.driver.live
              made := s.driver.made + 1 } } : Serving).modifySlot id fun t =>
            t.setStack (saved ctx :: t.stack)).withStack [⟨ctx, s.driver.made⟩]) .success (.context ctx)
  | destroy {call ctx c st} (hcall : Call.Destroys call ctx) (hok : a.destroyRefusal = none)
      (hfind : s.driver.find ctx = some c)
      (hshows : (s.destroyed id c).Shows (sweepOne c.handle (popDestroyed c.handle t)).shownCtx st) :
      Effect limits s id t a call ((s.destroyed id c).withStack st) .success .empty
  | exchange {mode} (hok : a.exchangeRefusal = none) :
      Effect limits s id t a (.captureMode mode)
        ((s.withMode mode).modifySlot id fun t => { t with captureMode := mode }) .success
        (.captureMode s.driver.mode)
  /-- Another call leaves the context that was current. -/
  | other {api st r payload} (hshows : s.Shows t.shownCtx st)
      (hsame : ∀ ctx, a.current = some ctx → (ctx = 0 ∨ s.driver.Known ctx) → ctx = t.shownCtx)
      (hr : r = if a.handled then a.result else .notSupported) :
      Effect limits s id t a (.other api) (s.withStack st) r payload
  /-- Another call leaves a context current that was not, and is taken at its word. -/
  | adopt {api ctx st r payload} (hcurrent : a.current = some ctx)
      (hknown : ctx = 0 ∨ s.driver.Known ctx) (hctx : ctx ≠ t.shownCtx) (hshows : s.Shows ctx st)
      (hr : r = if a.handled then a.result else .notSupported) :
      Effect limits s id t a (.other api) ((s.modifySlot id (adopted ctx)).withStack st) r payload

/-- The handle is shown by the context it selects. -/
theorem shows_selected (s : Serving) {ctx : CUcontext} {c : Context}
    (hsel : s.driver.selects ctx = some c) : s.Shows ctx [c] := by
  have hhandle := (Driver.selects_some hsel).2
  have hmem : ∀ c' ∈ [c], c' = c := fun c' hc' => List.mem_singleton.mp hc'
  refine ⟨le_rfl, hhandle, fun c' hc' => ?_, fun c' hc' => ?_⟩
  · rw [hmem c' hc', hhandle]
    exact Driver.known_of_selects hsel
  · rw [hmem c' hc', hhandle]
    exact Or.inr hsel

/-- A thread without a context of its own shows none. -/
theorem shows_nothing (s : Serving) : s.Shows 0 [] := ⟨Nat.zero_le _, rfl, by simp, by simp⟩

/-- A call of the kinds not told apart may leave another context current. -/
theorem call_other_state (limits : Limits) (s : Serving) (id : ThreadId) (a : Answers ι) (api : ApiId) :
    (s.call limits id a (.other api)).1 =
      match a.current with
      | none => s
      | some ctx => { s with driver := (s.driver.setCurrent ctx).1 } := by
  unfold call
  dsimp only
  split <;> rfl

/-- What a call of the kinds not told apart leaves current, and the readback behind it. -/
theorem Ready.other_effect (h : s.Ready id t) (limits : Limits) (a : Answers ι) (api : ApiId) :
    Effect limits s id t a (.other api) ((s.call limits id a (.other api)).1.adoptCurrent id)
      (s.call limits id a (.other api)).2.1 (s.call limits id a (.other api)).2.2 := by
  have hresult : (s.call limits id a (.other api)).2.1 =
      if a.handled then a.result else .notSupported := by
    unfold call
    dsimp only
    split <;> rfl
  have hkept : s.Shows t.shownCtx s.driver.stack :=
    ⟨h.mirror.shallow, h.current, h.mirror.stacked, fun c hc => Or.inl hc⟩
  have hself : ∀ payload, (∀ ctx, a.current = some ctx → (ctx = 0 ∨ s.driver.Known ctx) →
      ctx = t.shownCtx) → Effect limits s id t a (.other api) (s.adoptCurrent id)
        (s.call limits id a (.other api)).2.1 payload := by
    intro payload hsame
    have heffect : Effect limits s id t a (.other api) (s.withStack s.driver.stack)
        (s.call limits id a (.other api)).2.1 payload := .other hkept hsame hresult
    rw [h.mirror.withStack_self] at heffect
    rwa [h.mirror.adoptCurrent_eq]
  rw [call_other_state]
  cases hcurrent : a.current with
  | none => exact hself _ (by simp [hcurrent])
  | some ctx =>
      dsimp only
      by_cases hctx : ctx = 0
      · -- null was selected
        subst hctx
        have hset : (s.driver.setCurrent 0).1 = { s.driver with stack := [] } := by
          unfold Driver.setCurrent
          rw [if_pos rfl, tail_eq_nil h.mirror]
        rw [hset]
        unfold adoptCurrent
        dsimp only
        by_cases hzero : s.driver.current = 0
        · rw [if_pos (by rw [h.mirror.applied_ctx, hzero]; rfl)]
          have hempty : s.threads.applied = {} := by
            rw [h.mirror.applied, driverApplied, if_pos hzero]
          have hshown : t.shownCtx = 0 := h.current ▸ hzero
          have heffect : ∀ payload, Effect limits s id t a (.other api) (s.withStack [])
              (s.call limits id a (.other api)).2.1 payload := fun _ =>
            .other (hshown ▸ shows_nothing s) (by simp [hcurrent, hshown]) hresult
          unfold Serving.withStack setApplied at heffect
          dsimp only at heffect
          rw [← hempty] at heffect
          exact heffect _
        · have hnow : ({ s.driver with stack := [] } : Driver).current = 0 := rfl
          rw [hnow, if_neg (by rw [h.mirror.applied_ctx]; exact fun heq => hzero heq.symm), if_pos rfl]
          exact Effect.adopt hcurrent (Or.inl rfl) (fun heq => hzero (h.current.trans heq.symm))
            (shows_nothing s) hresult
      · rw [driver_setCurrent h.mirror hctx]
        cases hsel : s.driver.selects ctx with
        | none =>
            refine hself _ fun ctx' hctx' hknown => ?_
            obtain rfl : ctx = ctx' := Option.some.inj (hcurrent.symm.trans hctx')
            obtain ⟨c, hc⟩ := (hknown.resolve_left hctx).selects
            rw [hsel] at hc
            cases hc
        | some c =>
            have hhandle := (Driver.selects_some hsel).2
            dsimp only
            unfold adoptCurrent
            dsimp only
            by_cases hsame : ctx = s.driver.current
            · -- the handle that was current, be it another context's
              rw [if_pos (by rw [h.mirror.applied_ctx, ← hsame]; exact hhandle)]
              have hshown : ctx = t.shownCtx := hsame.trans h.current
              have happlied : s.threads.applied = saved c.handle := by
                rw [h.mirror.applied, driverApplied, ← hsame, if_neg hctx, hhandle]
              have heffect : ∀ payload, Effect limits s id t a (.other api) (s.withStack [c])
                  (s.call limits id a (.other api)).2.1 payload := fun _ =>
                .other (hshown ▸ shows_selected s hsel)
                  (fun ctx' hctx' _ => (Option.some.inj (hcurrent.symm.trans hctx')) ▸ hshown) hresult
              unfold Serving.withStack setApplied at heffect
              dsimp only at heffect
              rw [← happlied] at heffect
              exact heffect _
            · have hnow : ({ s.driver with stack := [c] } : Driver).current = ctx := hhandle
              rw [hnow, if_neg (by rw [h.mirror.applied_ctx]; exact hsame), if_neg hctx]
              have heffect : ∀ payload, Effect limits s id t a (.other api)
                  ((s.modifySlot id (adopted ctx)).withStack [c])
                  (s.call limits id a (.other api)).2.1 payload := fun _ =>
                .adopt hcurrent (Or.inr (Driver.known_of_selects hsel))
                  (fun heq => hsame (heq.trans h.current.symm)) (shows_selected s hsel) hresult
              unfold Serving.withStack adopted at heffect
              simp only [if_neg hctx] at heffect
              rw [hhandle] at heffect
              exact heffect _

/-- A context call has one of the effects listed, before any readback. -/
theorem Ready.context_effect (h : s.Ready id t) (limits : Limits) (a : Answers ι) {c : Call}
    (hc : ∀ api, c ≠ .other api) :
    Effect limits s id t a c (s.call limits id a c).1 (s.call limits id a c).2.1
      (s.call limits id a c).2.2 := by
  by_cases hwf : a.wellFormed = false
  · -- a short payload never reaches the driver
    have hcall : (s.call limits id a c).1 = s ∧ (s.call limits id a c).2.1 ≠ .success := by
      cases c with
      | other api => exact absurd rfl (hc api)
      | threadGone ids => exact ⟨rfl, show CUresult.notSupported ≠ .success by decide⟩
      | _ =>
          unfold call
          dsimp only
          rw [if_pos hwf]
          exact ⟨rfl, show CUresult.invalidValue ≠ .success by decide⟩
    rw [hcall.1]
    exact .refused hc (Or.inl hwf) hcall.2
  · have hunknown : ∀ {ctx}, s.driver.selects ctx = none → ¬ s.driver.Known ctx := by
      intro ctx hsel hknown
      obtain ⟨c', hc'⟩ := hknown.selects
      rw [hsel] at hc'
      cases hc'
    have hcontext : CUresult.invalidContext ≠ .success := by decide
    have hvalue : CUresult.invalidValue ≠ .success := by decide
    unfold call
    cases c with
    | other api => exact absurd rfl (hc api)
    | threadGone ids => exact .refused hc (Or.inr fun hno => hno) (show CUresult.notSupported ≠ .success by decide)
    | ctxSetCurrent ctx =>
        dsimp only
        rw [if_neg hwf]
        by_cases hctx : ctx = 0
        · subst hctx
          rcases h.wCuCtxSetCurrent_null a.exchangeRefusal with
            ⟨hst, heq⟩ | ⟨top, rest, st, hst, hshows, heq⟩
          · rw [heq]
            exact .setNothing hst
          · rw [heq]
            exact .setNull hst hshows
        · rw [h.wCuCtxSetCurrent_handle hctx]
          cases hsel : s.driver.selects ctx with
          | none =>
              refine .refused hc (Or.inr fun haccepts => ?_) hcontext
              exact hunknown hsel (haccepts.resolve_left hctx)
          | some c' => exact .set hctx hsel
    | ctxPushCurrent ctx =>
        dsimp only
        rw [if_neg hwf, h.wCuCtxPushCurrent_eq]
        by_cases hctx : ctx = 0
        · rw [if_pos hctx]
          exact .refused hc (Or.inr fun haccepts => haccepts.1 hctx) hcontext
        · rw [if_neg hctx]
          by_cases hroom : mayPush limits t = true
          · rw [if_pos hroom]
            cases hsel : s.driver.selects ctx with
            | none => exact .refused hc (Or.inr fun haccepts => hunknown hsel haccepts.2.2) hcontext
            | some c' => exact .push hroom hctx hsel
          · rw [if_neg hroom]
            exact .refused hc (Or.inr fun haccepts => hroom haccepts.2.1) hvalue
    | ctxPopCurrent out =>
        dsimp only
        rw [if_neg hwf]
        rcases h.wCuCtxPopCurrent_spec a.exchangeRefusal with
          ⟨hst, heq⟩ | ⟨top, rest, st, hst, hshows, heq⟩
        · rw [heq]
          exact .refused hc (Or.inr fun haccepts => haccepts hst) hcontext
        · rw [heq]
          exact .pop hst hshows
    | ctxGetCurrent out =>
        dsimp only
        rw [if_neg hwf]
        cases out with
        | true => exact .get
        | false => exact .refused hc (Or.inr fun haccepts => absurd haccepts (by simp [Accepts])) hvalue
    | ctxCreate out =>
        dsimp only
        rw [if_neg hwf]
        cases out with
        | false =>
            exact .refused hc (Or.inr fun haccepts => absurd haccepts.1 Bool.false_ne_true) hvalue
        | true =>
            rw [if_pos rfl, h.wCuCtxCreate_eq]
            by_cases hroom : mayPush limits t = true
            · rw [if_pos hroom]
              cases hanswer : a.created with
              | error e =>
                  refine .refused hc (Or.inr fun haccepts => ?_) e.2
                  obtain ⟨ctx, hok, -⟩ := haccepts.2.2
                  rw [hanswer] at hok
                  cases hok
              | ok ctx =>
                  dsimp only
                  by_cases hbad : ctx = 0 ∨ (s.driver.find ctx).isSome = true
                  · rw [if_pos hbad]
                    refine .refused hc (Or.inr fun haccepts => ?_)
                      (show CUresult.outOfMemory ≠ .success by decide)
                    obtain ⟨ctx', hok, hne, hfree⟩ := haccepts.2.2
                    obtain rfl : ctx = ctx' := by simpa [hanswer] using hok
                    rcases hbad with hzero | hfound
                    · exact hne hzero
                    · simp [hfree] at hfound
                  · rw [if_neg hbad]
                    rw [not_or, Option.not_isSome_iff_eq_none] at hbad
                    exact .create hroom hanswer hbad.1 hbad.2
            · rw [if_neg hroom]
              exact .refused hc (Or.inr fun haccepts => hroom haccepts.2.1) hvalue
    | ctxDestroy ctx | ctxDetach ctx =>
        dsimp only
        rw [if_neg hwf]
        -- to the driver a detach is a destruction
        have hspec := h.wCuCtxDestroy_spec ctx a.destroyRefusal a.exchangeRefusal
        cases hrefusal : a.destroyRefusal with
        | some e =>
            rw [hrefusal] at hspec
            rw [hspec]
            refine .refused hc (Or.inr fun haccepts => ?_) e.2
            have hnone := haccepts.1
            rw [hrefusal] at hnone
            cases hnone
        | none =>
            rw [hrefusal] at hspec
            cases hfind : s.driver.find ctx with
            | none =>
                rw [hfind] at hspec
                rw [hspec]
                refine .refused hc (Or.inr fun haccepts => ?_) hcontext
                obtain ⟨c', hc'⟩ := haccepts.2
                rw [hfind] at hc'
                cases hc'
            | some c' =>
                rw [hfind] at hspec
                obtain ⟨st, hshows, heq⟩ := hspec
                rw [heq]
                first
                  | exact .destroy (Or.inl rfl) hrefusal hfind hshows
                  | exact .destroy (Or.inr rfl) hrefusal hfind hshows
    | captureMode mode =>
        dsimp only
        rw [if_neg hwf, Ready.exchangeCaptureMode_eq]
        cases hrefusal : a.exchangeRefusal with
        | none =>
            dsimp only
            rw [if_pos rfl]
            exact .exchange hrefusal
        | some e =>
            refine .refused hc (Or.inr fun haccepts => ?_) e.2
            rw [show a.exchangeRefusal = none from haccepts] at hrefusal
            cases hrefusal

/-- Whatever a call does, it leaves a state the next request may start from. -/
theorem Effect.mirror (h : s.Ready id t) {limits : Limits} {a : Answers ι} {c : Call} {u : Serving}
    {r : CUresult} {payload : Payload} (heffect : Effect limits s id t a c u r payload) : u.Mirror := by
  have hfits := h.mirror.fits id t (ClientThreads.find_of_live h.live)
  have htail : ∀ e ∈ t.stack.tail, s.driver.Known e.ctx := fun e he =>
    hfits.known e (List.mem_of_mem_tail he)
  have hone : ∀ {c : Context} {ctx}, s.driver.selects ctx = some c →
      ∀ c' ∈ [c], s.driver.Known c'.handle := by
    intro c ctx hsel c' hc'
    exact (shows_selected s hsel).known c' hc'
  cases heffect with
  | refused | setNothing | get => exact h.mirror
  | setNull hst hshows | pop hst hshows =>
      rw [hst] at htail
      exact (h.setStack htail).withStack hshows.short hshows.known
  | set hctx hsel =>
      refine (h.mirror.modifySlot h.live ⟨fun e he => ?_, rfl⟩).withStack le_rfl (hone hsel)
      rcases List.mem_cons.mp he with rfl | he
      · exact Driver.known_of_selects hsel
      · exact htail e he
  | push hroom hctx hsel =>
      refine (h.mirror.modifySlot h.live ⟨fun e he => ?_, rfl⟩).withStack le_rfl (hone hsel)
      rcases List.mem_cons.mp he with rfl | he
      · exact Driver.known_of_selects hsel
      · exact hfits.known e he
  | @create ctx hroom hok hctx hfree =>
      -- a handle that was known is known still, and so is the new one
      have hgrown : ∀ h', s.driver.Known h' → ({ s.driver with
          live := ⟨ctx, s.driver.made⟩ :: s.driver.live
          made := s.driver.made + 1 } : Driver).Known h' := by
        rintro h' ⟨c', hc', rfl⟩
        exact ⟨c', List.mem_cons_of_mem _ hc', rfl⟩
      have hnew : ({ s.driver with
          live := ⟨ctx, s.driver.made⟩ :: s.driver.live
          made := s.driver.made + 1 } : Driver).Known ctx := ⟨_, List.mem_cons_self, rfl⟩
      refine mirror_withStack h.mirror.mode ?_ (fun id' t' hfind => ?_) le_rfl ?_
      · rintro h' ⟨c', hc', rfl⟩
        rcases List.mem_cons.mp hc' with rfl | hc'
        · exact hctx
        · exact h.mirror.handles _ ⟨c', hc', rfl⟩
      · change (s.threads.modifySlot id _).find id' = some t' at hfind
        rw [ClientThreads.find_modifySlot h.live] at hfind
        split at hfind
        · obtain rfl := Option.some.inj hfind
          refine ⟨fun e he => ?_, rfl⟩
          rcases List.mem_cons.mp he with rfl | he
          · exact hnew
          · exact hgrown _ (hfits.known e he)
        · refine ClientThread.Fits.mono (h.mirror.fits id' t' hfind) ?_
          exact hgrown
      · intro c' hc'
        rw [List.mem_singleton.mp hc']
        exact hnew
  | destroy hcall hok hfind hshows =>
      obtain ⟨hc, -⟩ := Driver.find_some hfind
      exact (h.mirror.destroyed hc h.live).withStack hshows.short hshows.known
  | @exchange mode hok =>
      exact Mirror.modifySlot (f := fun t => { t with captureMode := mode }) (h.mirror.withMode mode)
        h.live ⟨hfits.known, hfits.named⟩
  | other hshows hsame hr => exact h.mirror.withStack hshows.short hshows.known
  | @adopt api ctx st r payload hcurrent hknown hctx hshows hr =>
      refine (h.mirror.modifySlot h.live ⟨fun e he => ?_, rfl⟩).withStack hshows.short hshows.known
      unfold adopted at he
      change e ∈ (if ctx = 0 then t.stack.tail else saved ctx :: t.stack.tail) at he
      split at he
      · exact htail e he
      · rename_i hne
        rcases List.mem_cons.mp he with rfl | he
        · exact hknown.resolve_left hne
        · exact htail e he

/-- **The effect of every call**, from the state that shows its thread, with the readback behind it. -/
theorem Ready.effect (h : s.Ready id t) (limits : Limits) (a : Answers ι) (c : Call) :
    Effect limits s id t a c ((s.call limits id a c).1.adoptCurrent id) (s.call limits id a c).2.1
      (s.call limits id a c).2.2 := by
  by_cases hc : ∃ api, c = .other api
  · obtain ⟨api, rfl⟩ := hc
    exact h.other_effect limits a api
  · have heffect := h.context_effect limits a fun api heq => hc ⟨api, heq⟩
    rwa [(heffect.mirror h).adoptCurrent_eq]

/-! ## Requests -/

/-- A table whose slots are those there were, or empty. -/
theorem Mirror.table (h : s.Mirror) {ts : ClientThreads} (hshown : ts.shown = s.threads.shown)
    (hfind : ∀ id t, ts.find id = some t →
      (∃ t', s.threads.find id = some t' ∧ ClientThreads.ContextState t = ClientThreads.ContextState t') ∨
        ClientThreads.ContextState t = ClientThreads.ContextState {}) :
    ({ s with threads := ts } : Serving).Mirror where
  shallow := h.shallow
  applied := (congrArg Prod.fst hshown).trans h.applied
  mode := (congrArg Prod.snd hshown).trans h.mode
  handles := h.handles
  stacked := h.stacked
  fits := by
    intro id t ht
    have hsame : ∀ {t' : ClientThread}, t'.Fits s.driver →
        ClientThreads.ContextState t = ClientThreads.ContextState t' → t.Fits s.driver := by
      intro t' hfits heq
      simp only [ClientThreads.ContextState, Prod.mk.injEq] at heq
      exact ⟨fun e he => hfits.known e (heq.1 ▸ he), by rw [heq.1, heq.2.1, hfits.named]⟩
    rcases hfind id t ht with ⟨t', ht', heq⟩ | heq
    · exact hsame (h.fits id t' ht') heq
    · exact hsame (ClientThread.fits_empty _) heq

/-- A request's thread given its slot. -/
theorem Mirror.threadSlot (h : s.Mirror) {ts : ClientThreads}
    (hslot : s.threads.threadSlot limits id = some ts) :
    ({ s with threads := ts } : Serving).Mirror := by
  refine h.table (ClientThreads.shown_threadSlot hslot) fun id' t' ht' => ?_
  rw [ClientThreads.find_threadSlot hslot] at ht'
  split at ht'
  · rename_i hid
    obtain rfl := Option.some.inj ht'
    cases hfind : s.threads.find id with
    | some u => exact Or.inl ⟨u, hid ▸ hfind, rfl⟩
    | none => exact Or.inr rfl
  · exact Or.inl ⟨t', ht', rfl⟩

/-- Threads announced gone. -/
theorem Mirror.retireThreads (h : s.Mirror) (hsound : s.threads.Sound limits) (ids : List ThreadId) :
    ({ s with threads := ids.foldl ClientThreads.retireThread s.threads } : Serving).Mirror :=
  h.table (ClientThreads.shown_retireThreads ids _) fun _ t ht =>
    Or.inl ⟨t, ClientThreads.find_retireThreads hsound ids ht, rfl⟩

/-- A request recorded as completed. -/
theorem Mirror.settle (h : s.Mirror) (hsound : s.threads.Sound limits) (f : Frame) (o : Outcome) :
    ({ s with threads := (s.threads.settle f o).1 } : Serving).Mirror := by
  refine h.table (ClientThreads.shown_settle _ f o) fun id t ht => ?_
  rcases ClientThreads.find_settle hsound.books ht with hfound | ⟨-, hnew⟩
  · exact Or.inl hfound
  · exact Or.inr hnew

/-- The slot a request runs on: its thread's, or a new one. -/
theorem Slotted.live {f : Frame} {ts : ClientThreads} (hslot : s.Slotted limits f ts) :
    ts.live.lookup f.threadId = some ((s.threads.find f.threadId).getD {}) := by
  obtain ⟨t, ht⟩ := ClientThreads.lookup_threadSlot hslot.slot
  have hfind := ClientThreads.find_threadSlot hslot.slot f.threadId
  rw [if_pos rfl, ClientThreads.find_of_live ht] at hfind
  rw [ht, Option.some.inj hfind]

/-- Running a request leaves a state the next may start from. -/
theorem Executes.mirror {f : Frame} {a : Answers ι} {s' : Serving} {o : Outcome} (h : s.Mirror)
    (hsound : s.threads.Sound limits) (hex : Executes limits s f a s' o) : s'.Mirror := by
  -- a call that runs, runs with its thread's state shown
  have hran : ∀ {ts v u r payload}, s.Slotted limits f ts →
      ({ s with threads := ts } : Serving).prepare f.threadId a.showRefusal = (v, .success) →
      v.call limits f.threadId a f.call = (u, r, payload) → (u.adoptCurrent f.threadId).Mirror := by
    intro ts v u r payload hslot hshown hcall
    obtain ⟨st, -, hok | hrefused⟩ := (h.threadSlot hslot.slot).prepare_cases hslot.live hshown
    · have hready := hok.2.2.2
      have heffect := hready.effect limits a f.call
      rw [hcall] at heffect
      exact heffect.mirror hready
    · exact absurd rfl hrefused.1
  cases hex with
  | refused => exact h
  | notice => exact h.retireThreads hsound _
  | unshown hslot hshown hr =>
      obtain ⟨st, hshows, hok | hrefused⟩ :=
        (h.threadSlot hslot.slot).prepare_cases hslot.live hshown
      · exact absurd hok.1 hr
      · rw [hrefused.2.2]
        exact (h.threadSlot hslot.slot).withStack hshows.short hshows.known
  | ran hslot hshown hcall _ => exact hran hslot hshown hcall
  | ranShort hslot hshown hcall _ _ => exact hran hslot hshown hcall

end Serving

namespace Session

variable {ι : Type} {limits : Limits} {x : Session ι}

/-- What a request finds: a sound table, and what the serving thread shows recorded rightly. -/
structure Fit (limits : Limits) (s : Serving) : Prop where
  sound : s.threads.Sound limits
  mirror : s.Mirror

/-- A session that has just begun mirrors the driver. -/
theorem fit_initial (limits : Limits) : Fit limits {} where
  sound := ⟨Balanced.nil, Nat.zero_le _, Nat.zero_le _⟩
  mirror := by
    refine ⟨Nat.zero_le _, rfl, rfl, ?_, by simp, ?_⟩
    · rintro h ⟨c, hc, -⟩
      cases hc
    · intro id t ht
      cases ht

/-- Executing a frame in a session is serving its call, and then settling it. -/
theorem serving_execute (x : Session ι) (f : Frame) (a : Answers ι) :
    (x.execute limits f a).1.serving =
      { (x.serving.execute limits f a).1 with
        threads := ((x.serving.execute limits f a).1.threads.settle f
          (x.serving.execute limits f a).2).1 } := by
  unfold execute dispatch complete
  dsimp only
  split <;> rfl

/-- **Every request keeps the mirror.** -/
theorem Fit.execute (h : Fit limits x.serving) (f : Frame) (a : Answers ι) :
    Fit limits (x.execute limits f a).1.serving where
  sound := (sound_execute h.sound).1
  mirror := by
    have hex := Serving.executes limits x.serving f a
    have hsound : _ ∧ Extends (Recorded f _ .success) _ _ := hex.sound h.sound
    rw [serving_execute]
    exact (hex.mirror h.mirror h.sound).settle hsound.1 f _

end Session

end Rgpu
