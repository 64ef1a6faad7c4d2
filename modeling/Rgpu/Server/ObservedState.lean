import Rgpu.Server.Mirror

/-! # Replies that carry a change

A held failure is handed over in the reply to a call that succeeded, unless the call is one of a fixed
list whose success the client reads as a change of its thread's state. The list has the calls that
select, push and pop a context and the one that exchanges the capture mode. It misses the calls that
create and destroy one.

* **`Session.Unmasked`** — what a reply owes its thread.
* **`Session.Masks`** — the requests whose reply does not keep to it, from the state before them.
* **`Server.reply_unmasked_iff`** — these are all. -/

namespace Rgpu

open Foundations

/-- The slot of a thread, live or retired; an empty one if it has none. -/
def ClientThreads.slotOf (ts : ClientThreads) (id : ThreadId) : ClientThread := (ts.find id).getD {}

namespace Session

variable {ι : Type} {limits : Limits} {x : Session ι} {f : Frame} {a : Answers ι}

/-- A request sent to be answered, as the protocol has them: the announcement of threads gone is sent
without a reply. -/
def Waiting (f : Frame) : Prop := f.noReply = false ∧ ∀ ids, f.call ≠ .threadGone ids

/-- If a request succeeded and changed its thread's context stack or capture mode, its reply says so, and
the failure held for the thread stays held. -/
def Unmasked (limits : Limits) (x : Session ι) (f : Frame) (a : Answers ι) : Prop :=
  let before := x.serving.threads.slotOf f.threadId
  let after := (x.execute limits f a).1.serving.threads.slotOf f.threadId
  (x.dispatch limits f a).2.result = .success →
    after.stack ≠ before.stack ∨ after.captureMode ≠ before.captureMode →
      (∃ r, (x.execute limits f a).2.1 = some r ∧ r.result = .success) ∧
        after.pendingAsync = before.pendingAsync

/-- A request that changes its thread's stack, when its thread's state is shown: a create and a destroy
that the driver does not refuse, the latter of a context the stack names; and a call of the kinds not told
apart that succeeds and leaves another context current. -/
def Changes (limits : Limits) (s : Serving) (t : ClientThread) (a : Answers ι) : Call → Prop
  | .ctxCreate out => Serving.Accepts limits s t a (.ctxCreate out)
  | .ctxDestroy ctx | .ctxDetach ctx =>
      Serving.Accepts limits s t a (.ctxDestroy ctx) ∧ ∃ e ∈ t.stack, e.ctx = ctx ∧ e.gone = false
  | .other _ => a.handled = true ∧ a.result = .success ∧
      ∃ ctx, a.current = some ctx ∧ (ctx = 0 ∨ s.driver.Known ctx) ∧ ctx ≠ t.shownCtx
  | _ => False

/-- A request whose reply hides the change it made: a failure is held for its thread, the thread is given
its slot and its state is shown, the payload is whole, and the call changes the stack and is not one of
those whose reply a held failure is kept out of. -/
def Masks (limits : Limits) (x : Session ι) (f : Frame) (a : Answers ι) : Prop :=
  let t := x.serving.threads.slotOf f.threadId
  t.pendingAsync ≠ .success ∧
    (f.threadId ≠ 0 ∧ (x.serving.threads.threadSlot limits f.threadId).isSome) ∧
    (t.captureMode = x.serving.threads.appliedMode ∨ a.showRefusal = none) ∧
    a.wellFormed = true ∧ Changes limits x.serving t a f.call ∧
    replyCarriesObservedState f.call.api = false

end Session

namespace Serving

variable {ι : Type} {limits : Limits} {s u : Serving} {id : ThreadId} {t t' : ClientThread}
  {a : Answers ι} {c : Call} {r : CUresult} {payload : Payload}

/-- The destruction of a context changes the stacks that name it as a context still there. -/
theorem sweepOne_popDestroyed_ne {d : Driver} (h : t.Fits d) (ctx : CUcontext) :
    (sweepOne ctx (popDestroyed ctx t)).stack ≠ t.stack ↔ ∃ e ∈ t.stack, e.ctx = ctx ∧ e.gone = false := by
  rw [sweepOne_eq (fits_popDestroyed h ctx)]
  show mark ctx (popDestroyed ctx t).stack ≠ t.stack ↔ _
  have hlength : ∀ l, (mark ctx l).length = l.length := fun l => List.length_map _
  constructor
  · intro hne
    by_contra hnone
    apply hne
    have hgone : ∀ e ∈ t.stack, e.ctx = ctx → e.gone = true := by
      intro e he hctx
      by_contra hlive
      exact hnone ⟨e, he, hctx, by simpa using hlive⟩
    -- if every entry that names the context is marked already, nothing is popped and nothing is marked
    have hkept : (popDestroyed ctx t).stack = t.stack := by
      unfold popDestroyed
      cases hst : t.stack with
      | nil => exact hst
      | cons top rest =>
          dsimp only
          rw [if_neg]
          · exact hst
          · rintro ⟨hlive, hctx⟩
            rw [hgone top (by rw [hst]; exact List.mem_cons_self) hctx] at hlive
            cases hlive
    rw [hkept]
    refine (List.map_congr_left fun e he => ?_).trans (List.map_id _)
    split
    · rename_i hctx
      cases e
      simpa using (hgone _ he hctx).symm
    · rfl
  · rintro ⟨e, he, hctx, hlive⟩ heq
    unfold popDestroyed at heq
    cases hst : t.stack with
    | nil =>
        rw [hst] at he
        cases he
    | cons top rest =>
        rw [hst] at heq he
        dsimp only at heq
        by_cases htop : top.gone = false ∧ top.ctx = ctx
        · -- popped: the stack is shorter
          rw [if_pos htop] at heq
          have hlen := congrArg List.length heq
          rw [hlength] at hlen
          simp [ClientThread.setStack, ClientThread.noteStackCtxs] at hlen
        · -- kept: the entry is marked
          rw [if_neg htop, hst] at heq
          have hmarked : ({ e with gone := true } : SavedContext) ∈ mark ctx (top :: rest) := by
            refine List.mem_map.mpr ⟨e, he, ?_⟩
            rw [if_pos hctx]
          have hall : ∀ e' ∈ top :: rest, e'.ctx = ctx → e'.gone = true := by
            intro e' he' hctx'
            rw [← heq] at he'
            obtain ⟨e'', -, rfl⟩ := List.mem_map.mp he'
            split at hctx'
            · rename_i hmatch
              rw [if_pos hmatch]
            · rename_i hmatch
              exact absurd hctx' hmatch
          rw [hall e he hctx] at hlive
          cases hlive

/-- Which calls succeed and change their thread's stack or mode, among those whose reply may hand over a
held failure. -/
theorem Effect.changes_iff (h : s.Ready id t) (heffect : Effect limits s id t a c u r payload)
    (hcarries : replyCarriesObservedState c.api = false)
    (hwhole : c.handled a.handled = true → a.wellFormed = true)
    (hfind : u.threads.find id = some t') :
    (r = .success ∧ (t'.stack ≠ t.stack ∨ t'.captureMode ≠ t.captureMode)) ↔
      a.wellFormed = true ∧ Session.Changes limits s t a c := by
  have hbefore := ClientThreads.find_of_live h.live
  have hslot : ∀ {g : ClientThread → ClientThread},
      (s.threads.modifySlot id g).find id = some t' → t' = g t := by
    intro g hfind
    rw [ClientThreads.find_modifySlot h.live, if_pos rfl] at hfind
    exact (Option.some.inj hfind).symm
  cases heffect with
  | refused hcall hwhy hr =>
      constructor
      · exact fun hsuccess => absurd hsuccess.1 hr
      · rintro ⟨hwf, hchanges⟩
        have hno : ¬ Accepts limits s t a c := by
          refine hwhy.resolve_left fun hfalse => ?_
          rw [hwf] at hfalse
          cases hfalse
        cases c with
        | ctxCreate out => exact absurd hchanges hno
        | ctxDestroy ctx | ctxDetach ctx => exact absurd hchanges.1 hno
        | other api => exact absurd rfl (hcall api)
        | _ => exact hchanges.elim
  | setNothing | setNull | set | push | pop | exchange =>
      simp [replyCarriesObservedState, Call.api] at hcarries
  | get =>
      rw [hbefore] at hfind
      obtain rfl := Option.some.inj hfind
      simp [Session.Changes]
  | @create ctx hroom hok hctx hfree =>
      change (s.threads.modifySlot id fun t => t.setStack (saved ctx :: t.stack)).find id = some t' at hfind
      obtain rfl := hslot hfind
      refine iff_of_true ⟨rfl, Or.inl fun heq => ?_⟩ ⟨hwhole rfl, rfl, hroom, ctx, hok, hctx, hfree⟩
      have hlen := congrArg List.length heq
      simp [ClientThread.setStack, ClientThread.noteStackCtxs] at hlen
  | @destroy _ ctx x st hcall hok hfound hshows =>
      have hfits := h.mirror.fits id t hbefore
      change (s.swept id x _).threads.find id = some t' at hfind
      rw [find_swept h.live, if_pos rfl] at hfind
      obtain rfl := Option.some.inj hfind
      obtain ⟨-, rfl⟩ := Driver.find_some hfound
      have hmode : (sweepOne x.handle (popDestroyed x.handle t)).captureMode = t.captureMode := by
        rw [sweepOne_eq (fits_popDestroyed hfits _)]
        unfold popDestroyed
        split
        · rfl
        · split <;> rfl
      have hchanged := sweepOne_popDestroyed_ne hfits x.handle
      rcases hcall with rfl | rfl
      · exact ⟨fun hl => ⟨hwhole rfl, ⟨hok, x, hfound⟩,
          hchanged.mp (hl.2.resolve_right fun hne => hne hmode)⟩,
          fun hr => ⟨rfl, Or.inl (hchanged.mpr hr.2.2)⟩⟩
      · exact ⟨fun hl => ⟨hwhole rfl, ⟨hok, x, hfound⟩,
          hchanged.mp (hl.2.resolve_right fun hne => hne hmode)⟩,
          fun hr => ⟨rfl, Or.inl (hchanged.mpr hr.2.2)⟩⟩
  | other hshows hsame hr =>
      change s.threads.find id = some t' at hfind
      rw [hbefore] at hfind
      obtain rfl := Option.some.inj hfind
      refine iff_of_false (by simp) ?_
      rintro ⟨-, -, -, ctx, hcurrent, hknown, hne⟩
      exact hne (hsame ctx hcurrent hknown)
  | @adopt api ctx st r payload hcurrent hknown hctx hshows hr =>
      change (s.threads.modifySlot id _).find id = some t' at hfind
      obtain rfl := hslot hfind
      -- another context is shown on top, so the stack is another one
      have hchanged : (adopted ctx t).stack ≠ t.stack := by
        intro heq
        change (if ctx = 0 then t.stack.tail else saved ctx :: t.stack.tail) = t.stack at heq
        unfold ClientThread.shownCtx at hctx
        cases hst : t.stack with
        | nil =>
            rw [hst] at heq hctx
            rw [if_neg hctx] at heq
            cases heq
        | cons top rest =>
            rw [hst] at heq hctx
            by_cases hzero : ctx = 0
            · rw [if_pos hzero] at heq
              have hlen := congrArg List.length heq
              simp at hlen
            · rw [if_neg hzero, List.cons.injEq] at heq
              rw [← heq.1] at hctx
              exact hctx rfl
      have hsuccess : r = .success ↔ a.handled = true ∧ a.result = .success := by
        rw [hr]
        split
        · simp [*]
        · rename_i hnot
          refine iff_of_false (show ¬ CUresult.notSupported = .success by decide) ?_
          exact fun hand => hnot hand.1
      constructor
      · rintro ⟨hr', -⟩
        obtain ⟨hhandled, hresult⟩ := hsuccess.mp hr'
        exact ⟨hwhole hhandled, hhandled, hresult, ctx, hcurrent, hknown, hctx⟩
      · rintro ⟨-, hhandled, hresult, -⟩
        exact ⟨hsuccess.mpr ⟨hhandled, hresult⟩, Or.inl hchanged⟩

/-- A call succeeds for its thread if it succeeded. -/
theorem clientThreadAfter_success (u : Serving) (id : ThreadId) (api : ApiId) (r : CUresult) :
    (u.clientThreadAfter id api r).2 = .success ↔ r = .success := by
  unfold clientThreadAfter
  dsimp only
  split
  · rename_i hgone
    refine iff_of_false (show ¬ CUresult.contextIsDestroyed = .success by decide) ?_
    rw [hgone.1]
    decide
  · exact Iff.rfl

end Serving

namespace Session

variable {ι : Type} {limits : Limits} {x : Session ι} {f : Frame} {a : Answers ι}

/-- The reply of a request that is waited for, with its code as `settle` has it. -/
theorem reply_execute (x : Session ι) (a : Answers ι) (hno : f.noReply = false) :
    (x.execute limits f a).2.1 = some ⟨f.reqId,
      ((x.serving.execute limits f a).1.threads.settle f (x.serving.execute limits f a).2).2,
      (x.serving.execute limits f a).2.payload⟩ := by
  unfold execute dispatch complete
  dsimp only
  rw [if_neg (by simp [hno])]

/-- How a request that is answered is completed on the slot it ran on. -/
theorem settle_waiting {ts : ClientThreads} {o : Outcome} {t : ClientThread} (hno : f.noReply = false)
    (hslot : o.hasSlot = true) (hlive : ts.live.lookup f.threadId = some t) :
    ts.settle f o =
      if o.result = .success ∧ t.pendingAsync ≠ .success ∧ replyCarriesObservedState f.call.api = false
      then (ts.deliver f.threadId t f.reqId, t.pendingAsync)
      else (ts, o.result) := by
  unfold ClientThreads.settle ClientThreads.home
  rw [if_neg (by simp [hno]), hslot]
  dsimp only
  rw [if_pos rfl, if_pos rfl, hlive]

/-- A change is hidden exactly by the requests listed. -/
theorem unmasked_iff (h : Fit limits x.serving) (hwaiting : Waiting f) :
    Unmasked limits x f a ↔ ¬ Masks limits x f a := by
  have hno := hwaiting.1
  have hex := Serving.executes limits x.serving f a
  -- a request that is not run does not succeed, and is not one of those listed
  have hfailed : ∀ {s' : Serving} {o : Outcome}, (x.serving.execute limits f a).1 = s' →
      (x.serving.execute limits f a).2 = o → o.result ≠ .success → ¬ Masks limits x f a →
      (Unmasked limits x f a ↔ ¬ Masks limits x f a) := by
    intro s' o _ ho hresult hmasks
    refine iff_of_true (fun hsuccess => ?_) hmasks
    rw [← ho] at hresult
    exact absurd hsuccess hresult
  generalize hs' : (x.serving.execute limits f a).1 = s' at hex
  generalize ho : (x.serving.execute limits f a).2 = o at hex
  cases hex with
  | refused hwhy =>
      refine hfailed hs' ho (show CUresult.invalidValue ≠ .success by decide) fun hmasks => ?_
      rcases hwhy with hid | ⟨ids, hids⟩ | hnone
      · exact hmasks.2.1.1 hid
      · exact hwaiting.2 ids hids
      · have hsome := hmasks.2.1.2
        rw [hnone] at hsome
        cases hsome
  | notice hid hcall => exact absurd hcall (hwaiting.2 _)
  | unshown hslot hshown hr =>
      refine hfailed hs' ho hr fun hmasks => ?_
      obtain ⟨st, -, hok | hrefused⟩ :=
        (h.mirror.threadSlot hslot.slot).prepare_cases hslot.live hshown
      · exact hr hok.1
      · have happlied := congrArg Prod.snd (ClientThreads.shown_threadSlot hslot.slot)
        rcases hmasks.2.2.1 with hmode | hnone
        · exact hrefused.2.1.1 (hmode.trans happlied.symm)
        · exact hrefused.2.1.2 hnone
  | ranShort hslot hshown hcall hhandled hshort =>
      refine hfailed hs' ho (show CUresult.invalidValue ≠ .success by decide) fun hmasks => ?_
      rw [hmasks.2.2.2.1] at hshort
      cases hshort
  | @ran ts v u r payload hslot hshown hcall hwhole =>
      -- the thread's slot, before the call and after it
      set t := (x.serving.threads.find f.threadId).getD {} with ht
      obtain ⟨st, -, hok | hrefused⟩ :=
        (h.mirror.threadSlot hslot.slot).prepare_cases hslot.live hshown
      swap
      · exact absurd rfl hrefused.1
      obtain ⟨-, hmode, hv, hready⟩ := hok
      have heffect := hready.effect limits a f.call
      rw [hcall] at heffect
      obtain ⟨t', ht', hpending⟩ := Serving.slot_of_ran hslot.live hshown hcall
      have hfind' := ClientThreads.find_of_live ht'
      have hsuccess := u.clientThreadAfter_success f.threadId f.call.api r
      -- the condition, of what the call came to
      have hmasks : Masks limits x f a ↔ t.pendingAsync ≠ .success ∧
          replyCarriesObservedState f.call.api = false ∧
            (r = .success ∧ (t'.stack ≠ t.stack ∨ t'.captureMode ≠ t.captureMode)) := by
        have hsame : Changes limits v t a f.call ↔ Changes limits x.serving t a f.call := by
          rw [hv]
          cases f.call <;> exact Iff.rfl
        have happlied := congrArg Prod.snd (ClientThreads.shown_threadSlot hslot.slot)
        have hmode' : t.captureMode = x.serving.threads.appliedMode ∨ a.showRefusal = none :=
          hmode.imp_left fun hm => hm.trans happlied
        have hsome : (x.serving.threads.threadSlot limits f.threadId).isSome = true := by
          rw [hslot.slot]
          rfl
        constructor
        · rintro ⟨hp, -, -, hwf, hchanges, hcarries⟩
          exact ⟨hp, hcarries,
            (heffect.changes_iff hready hcarries hwhole hfind').mpr ⟨hwf, hsame.mpr hchanges⟩⟩
        · rintro ⟨hp, hcarries, hchanged⟩
          obtain ⟨hwf, hchanges⟩ := (heffect.changes_iff hready hcarries hwhole hfind').mp hchanged
          exact ⟨hp, ⟨hslot.named, hsome⟩, hmode', hwf, hsame.mp hchanges, hcarries⟩
      -- what completing the request makes of it
      have hreply : (x.execute limits f a).2.1 = _ := reply_execute x a hno
      have hserving : (x.execute limits f a).1.serving = _ := serving_execute x f a
      have hsettle := settle_waiting hno (o := ⟨(u.clientThreadAfter f.threadId f.call.api r).2, payload,
        false, true⟩) rfl ht'
      rw [hs', ho] at hreply hserving
      rw [hmasks]
      unfold Unmasked ClientThreads.slotOf
      rw [hreply, hserving, show (x.dispatch limits f a).2 = _ from ho, hsettle]
      dsimp only
      by_cases hcarries : (u.clientThreadAfter f.threadId f.call.api r).2 = .success ∧ t'.pendingAsync ≠ .success ∧
          replyCarriesObservedState f.call.api = false
      · rw [if_pos hcarries]
        have hafter : ((u.adoptCurrent f.threadId).threads.deliver f.threadId t' f.reqId).find
            f.threadId = some { t' with pendingAsync := .success } := by
          have hadjust := ClientThreads.find_adjust hfind'
            (fun t => { t with pendingAsync := CUresult.success }) f.threadId
          rw [if_pos rfl] at hadjust
          exact hadjust
        dsimp only
        rw [hafter, Option.getD_some]
        constructor
        · rintro hunmasked ⟨-, -, hchanged⟩
          obtain ⟨⟨reply, hr, hresult⟩, -⟩ := hunmasked (hsuccess.mpr hchanged.1) hchanged.2
          rw [← Option.some.inj hr] at hresult
          exact hcarries.2.1 hresult
        · intro hnot hr hchanged
          exact absurd ⟨hpending ▸ hcarries.2.1, hcarries.2.2, hsuccess.mp hr, hchanged⟩ hnot
      · rw [if_neg hcarries]
        dsimp only
        rw [hfind', Option.getD_some]
        refine iff_of_true (fun hr _ => ⟨⟨_, rfl, hr⟩, hpending⟩) ?_
        rintro ⟨hp, hobserved, hr, -⟩
        exact hcarries ⟨hsuccess.mpr hr, hpending ▸ hp, hobserved⟩

end Session

namespace Server

variable {ι : Type} [Inhabited ι] {s : Server ι}

/-- As long as a session is served, a request finds its table and its driver in order. -/
theorem always_fit (limits : Limits) (sid : SessionId) :
    Always (Server.step limits) (fun _ _ => True) (Server.initial ι) fun s =>
      s.serve sid ≠ .exited → Session.Fit limits (s.session sid).serving := by
  refine Always.of_step_under (always_inv limits) (fun _ => Session.fit_initial limits) ?_
  intro s a t inv _ h _ hstep hpc
  cases (Step.of_step hstep).serves inv.table sid with
  | same hserving hexited => exact hserving ▸ h fun hs => hpc (hexited.mpr hs)
  | executed hrunning _ hsession =>
      rw [hsession]
      exact (h (by rw [hrunning]; nofun)).execute _ _
  | left hexited _ => exact absurd hexited hpc

/-- **Which replies hide a change.** In every run of the server, whatever failure is held: the reply to a
request reports its success and leaves the failure held, if it succeeded and changed its thread's stack
or capture mode, exactly when it is not one of the requests listed. -/
theorem reply_unmasked_iff (limits : Limits) (as : List (ServerAction ι))
    (hrun : run (Server.step limits) (Server.initial ι) as = some s) {sid : SessionId} {c : ConnId}
    {f : Frame} (hpc : s.serve sid = .running c f) (hwaiting : Session.Waiting f) (a : Answers ι) :
    (s.session sid).Unmasked limits f a ↔ ¬ (s.session sid).Masks limits f a :=
  Session.unmasked_iff (always_fit limits sid as s (along_true _ _ _) hrun (by rw [hpc]; nofun)) hwaiting

/-- A one-way call of the first client's thread fails, and its next request creates a context. -/
def failedThenCreate : List (ServerAction Unit) :=
  firstService ++
    [.read 0 (some ⟨⟨1, 1⟩, true, 1, .other 200, 8⟩), .execute 0 { result := CUresult.unknown },
      .read 0 (some ⟨⟨2, 2⟩, false, 1, .ctxCreate true, 16⟩)]

/-- What `cuCtxCreate_v2` is answered with there: the driver makes the context, and the reply says that
the earlier call failed. -/
theorem create_masked :
    ¬ ∀ as s, run (Server.step {}) (Server.initial Unit) as = some s → ∀ sid c f,
      s.serve sid = .running c f → Session.Waiting f → ∀ a, (s.session sid).Unmasked {} f a := by
  intro h
  have hunmasked := h failedThenCreate _ rfl 0 0 _ rfl ⟨rfl, nofun⟩ { created := .ok 64 } rfl
    (Or.inl (by decide))
  obtain ⟨⟨r, hr, hresult⟩, -⟩ := hunmasked
  rw [← Option.some.inj hr] at hresult
  exact absurd hresult (by decide)

/-- The first client's thread asks which context is current. -/
def askCurrent : List (ServerAction Unit) :=
  firstService ++ [.read 0 (some ⟨⟨1, 1⟩, false, 1, .ctxGetCurrent true, 8⟩)]

/-- That is not one of the requests listed. -/
theorem reply_unmasked_iff_getCurrent :
    ∃ s, run (Server.step {}) (Server.initial Unit) askCurrent = some s ∧
      (s.session 0).Unmasked {} ⟨⟨1, 1⟩, false, 1, .ctxGetCurrent true, 8⟩ {} := by
  refine ⟨_, rfl, ?_⟩
  refine (reply_unmasked_iff {} askCurrent rfl rfl ⟨rfl, fun ids heq => ?_⟩ {}).mpr fun hmasks => ?_
  · cases heq
  · exact hmasks.1 rfl

end Server

end Rgpu
