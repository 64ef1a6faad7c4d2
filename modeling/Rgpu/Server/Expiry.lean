import Rgpu.Server.Releasing
import Mathlib.Data.List.Perm.Basic
import Mathlib.Tactic.IntervalCases

/-! # The expiry of a session

What comes of `release_inventory`, whatever the driver answers and whatever the other sessions do meanwhile.

* **`released_once`** — everything recorded, but for the retains, is tried once or left alone once, and which of the two.
* **`released_in_place`** — the order, and the context that was last asked to be current at each step.
* **`waited_before`** — nothing in the tables that a context teardown sweeps is given back before it was waited in the
  context it was made in.
* **`retains_released`** — how often each primary context is released.
* **`tally_releaseInventory`** — what is reported is what was done. -/

namespace Rgpu

open Foundations Foundations.Journal

/-- Everything an inventory lists, with these graphs, but for the retains. -/
def Inventory.holdings (inv : Inventory) (graphs : Table ℕ Stamp) : List Holding :=
  let items (kind : ItemKind) := (inv.items kind).entries.map fun e => Holding.item kind e.1 e.2
  inv.captures.map .capture ++ (inv.handles.entries.map fun e => .handle e.1 e.2) ++ items .libraries ++
    (inv.vmmMaps.entries.map fun e => .mapping e.1 e.2) ++ items .vmmHandles ++
    (inv.vmmRanges.entries.map fun e => .range e.1 e.2) ++ items .graphExecs ++
    (graphs.entries.map fun e => .item .graphs e.1 e.2) ++ items .events ++ items .streams ++ items .modules ++
    items .allocs ++ items .contexts

namespace Surroundings

variable {ω : Type} {S : Surroundings ω}

/-- What the parts that are about nothing log is about nothing. -/
theorem subjects_eq_nil {l : List ReleaseEvent} (h : ∀ e ∈ l, e.subject = []) :
    l.flatMap ReleaseEvent.subject = [] := List.flatMap_eq_nil_iff.mpr h

/-- Asking for a context is about no holding. -/
theorem subjects_use (ctx : CUcontext) (s : Releasing ω) :
    ((S.use ctx).log s).flatMap ReleaseEvent.subject = [] := by
  rw [log_use]
  split <;> rfl

/-- Waiting is about no holding. -/
theorem subjects_synchronize (entries : List (ℕ × Stamp)) (seen : List CUcontext) (s : Releasing ω) :
    ((S.synchronize entries seen).log s).flatMap ReleaseEvent.subject = [] := by
  refine subjects_eq_nil (keeps_synchronize (composes_forall fun e => ReleaseEvent.subject e = []) ?_ ?_ _ _ s)
  · exact fun s e he => absurd he List.not_mem_nil
  · intro ctx s
    obtain ⟨r, hlog⟩ := S.log_wait ctx s
    rw [hlog, ← List.flatMap_eq_nil_iff, List.flatMap_append, subjects_use]
    rfl

/-- The releases of primary contexts are about no holding. -/
theorem subjects_retains (retains : Table Device ℕ) (s : Releasing ω) :
    ((S.releaseRetains retains).log s).flatMap ReleaseEvent.subject = [] := by
  refine subjects_eq_nil ((composes_forall fun e => ReleaseEvent.subject e = []).total ?_ s)
  intro e _ s
  obtain ⟨rs, w, hlog, -⟩ := S.releaseRetainsOf_spec e.1 e.2 s
  rw [hlog]
  intro e' he'
  obtain ⟨r, -, rfl⟩ := List.mem_map.mp he'
  rfl

/-- What the loops over the tables of handles are about. -/
theorem subjects_items {kind : ItemKind} (hkind : kind ≠ .contexts) (items : Table ℕ Stamp) (s : Releasing ω) :
    ((S.releaseItems kind items).log s).flatMap ReleaseEvent.subject =
      (S.walk items).map fun e => .item kind e.1 e.2 := (S.rounds_items hkind).subjects s

/-- Ending the captures is about every capture, once and in order. -/
theorem subjects_endCaptures (captures : List OpenCapture) (s : Releasing ω) :
    ((S.endCaptures captures).log s).flatMap ReleaseEvent.subject = captures.map .capture :=
  (S.rounds_endCaptures).subjects s

/-- Releasing the handles is about every handle. -/
theorem subjects_handles (handles : Table ℕ LibHandle) (s : Releasing ω) :
    ((S.releaseHandles handles).log s).flatMap ReleaseEvent.subject =
      handles.entries.map fun e => .handle e.1 e.2 := (S.rounds_handles).subjects s

/-- Unmapping is about every mapping. -/
theorem subjects_mappings (maps : Table ℕ ℕ) (s : Releasing ω) :
    ((S.releaseMappings maps).log s).flatMap ReleaseEvent.subject =
      maps.entries.map fun e => .mapping e.1 e.2 := (S.rounds_mappings).subjects s

/-- Freeing the ranges is about every range. -/
theorem subjects_ranges (ranges : Table ℕ ℕ) (s : Releasing ω) :
    ((S.releaseRanges ranges).log s).flatMap ReleaseEvent.subject =
      ranges.entries.map fun e => .range e.1 e.2 := (S.rounds_ranges).subjects s

/-- Destroying the contexts is about every context the session made, in the order of the walk. -/
theorem subjects_detached (contexts : Table ℕ Stamp) (s : Releasing ω) :
    ((S.releaseDetached contexts).log s).flatMap ReleaseEvent.subject =
      (S.walk contexts).map fun e => .item .contexts e.1 e.2 := (S.rounds_detached).subjects s

/-- What is listed of one kind, in the order in which it is walked. -/
def walked (S : Surroundings ω) (kind : ItemKind) (items : Table ℕ Stamp) : List Holding :=
  (S.walk items).map fun e => .item kind e.1 e.2

/-- What comes between the captures and the contexts is about everything else. -/
theorem subjects_releaseContents (inv : Inventory) (all : Table ℕ Stamp) (s : Releasing ω) :
    ((S.releaseContents inv all).log s).flatMap ReleaseEvent.subject =
      (inv.handles.entries.map fun e => .handle e.1 e.2) ++ S.walked .libraries (inv.items .libraries) ++
        (inv.vmmMaps.entries.map fun e => .mapping e.1 e.2) ++ S.walked .vmmHandles (inv.items .vmmHandles) ++
        (inv.vmmRanges.entries.map fun e => .range e.1 e.2) ++ S.walked .graphExecs (inv.items .graphExecs) ++
        S.walked .graphs all ++ S.walked .events (inv.items .events) ++ S.walked .streams (inv.items .streams) ++
        S.walked .modules (inv.items .modules) ++ S.walked .allocs (inv.items .allocs) := by
  have hitems : ∀ kind ≠ .contexts, ∀ items (s : Releasing ω),
      ((S.releaseItems kind items).log s).flatMap ReleaseEvent.subject = S.walked kind items :=
    fun kind hkind items s => subjects_items hkind items s
  simp (disch := decide) only [releaseContents, log_bind, List.flatMap_append, log_pure, subjects_handles,
    subjects_mappings, subjects_ranges, hitems, List.append_nil, List.append_assoc]

/-! ## The order -/

/-- Captures are ended in the first phase. -/
theorem phased_endCaptures (captures : List OpenCapture) (s : Releasing ω) :
    Phased ReleaseEvent.phase 0 1 ((S.endCaptures captures).log s) := (S.rounds_endCaptures).phased (fun _ _ => rfl) s

/-- The entries of one table are given back in the phase of that table. -/
theorem phased_items {kind : ItemKind} (hkind : kind ≠ .contexts) (items : Table ℕ Stamp) {k : ℕ}
    (hk : ∀ h st, (Holding.item kind h st).phase = k) (s : Releasing ω) :
    Phased ReleaseEvent.phase k (k + 1) ((S.releaseItems kind items).log s) :=
  (S.rounds_items hkind).phased (fun e _ => hk e.1 e.2) s

/-- What comes between the waiting and the contexts is in the phases between, one after the other. -/
theorem phased_releaseContents (inv : Inventory) (all : Table ℕ Stamp) (s : Releasing ω) :
    Phased ReleaseEvent.phase 2 13 ((S.releaseContents inv all).log s) := by
  refine phased_bind ((S.rounds_handles).phased fun _ _ => rfl) (fun _ => ?_) (by decide) (by decide) s
  refine phased_bind (phased_items (by decide) _ fun _ _ => rfl) (fun _ => ?_) (by decide) (by decide)
  refine phased_bind ((S.rounds_mappings).phased fun _ _ => rfl) (fun _ => ?_) (by decide) (by decide)
  refine phased_bind (phased_items (by decide) _ fun _ _ => rfl) (fun _ => ?_) (by decide) (by decide)
  refine phased_bind ((S.rounds_ranges).phased fun _ _ => rfl) (fun _ => ?_) (by decide) (by decide)
  refine phased_bind (phased_items (by decide) _ fun _ _ => rfl) (fun _ => ?_) (by decide) (by decide)
  refine phased_bind (phased_items (by decide) _ fun _ _ => rfl) (fun _ => ?_) (by decide) (by decide)
  refine phased_bind (phased_items (by decide) _ fun _ _ => rfl) (fun _ => ?_) (by decide) (by decide)
  refine phased_bind (phased_items (by decide) _ fun _ _ => rfl) (fun _ => ?_) (by decide) (by decide)
  refine phased_bind (phased_items (by decide) _ fun _ _ => rfl) (fun _ => ?_) (by decide) (by decide)
  refine phased_bind (phased_items (by decide) _ fun _ _ => rfl) (fun _ => ?_) (by decide) (by decide)
  exact fun _ => phased_nil _ _ _

/-- Asking for a context is in no phase, so it may stand anywhere. -/
theorem phased_use (ctx : CUcontext) (a b : ℕ) (s : Releasing ω) :
    Phased ReleaseEvent.phase a b ((S.use ctx).log s) := by
  rw [log_use]
  split
  · exact phased_nil _ _ _
  · exact phased_nil ReleaseEvent.phase a b

/-- Waiting is the second phase. -/
theorem phased_synchronize (entries : List (ℕ × Stamp)) (seen : List CUcontext) (s : Releasing ω) :
    Phased ReleaseEvent.phase 1 2 ((S.synchronize entries seen).log s) := by
  refine phased_of_forall
    (keeps_synchronize (composes_forall fun e => ∀ k, ReleaseEvent.phase e = some k → k = 1) ?_ ?_ _ _ s)
  · exact fun s e he => absurd he List.not_mem_nil
  · intro ctx s e he k hk
    obtain ⟨r, hlog⟩ := S.log_wait ctx s
    rw [hlog, log_use] at he
    split at he
    · obtain rfl := List.mem_singleton.mp he
      exact (Option.some.inj hk).symm
    · rcases List.mem_cons.mp he with rfl | he
      · cases hk
      · obtain rfl := List.mem_singleton.mp he
        exact (Option.some.inj hk).symm

/-- The contexts are the last but one. -/
theorem phased_detached (contexts : Table ℕ Stamp) (s : Releasing ω) :
    Phased ReleaseEvent.phase 13 14 ((S.releaseDetached contexts).log s) :=
  (S.rounds_detached).phased (fun _ _ => rfl) s

/-- The releases of primary contexts are in one phase. -/
theorem phase_retains (retains : Table Device ℕ) (s : Releasing ω) :
    ∀ e ∈ (S.releaseRetains retains).log s, ∀ k, e.phase = some k → k = 14 := by
  refine (composes_forall fun e => ∀ k, ReleaseEvent.phase e = some k → k = 14).total (fun e _ s => ?_) s
  obtain ⟨rs, w, hlog, -⟩ := S.releaseRetainsOf_spec e.1 e.2 s
  rw [hlog]
  intro e' he' k hk
  obtain ⟨r, -, rfl⟩ := List.mem_map.mp he'
  exact (Option.some.inj hk).symm

/-- The releases of primary contexts are the last phase. -/
theorem phased_retains (retains : Table Device ℕ) (s : Releasing ω) :
    Phased ReleaseEvent.phase 14 15 ((S.releaseRetains retains).log s) := phased_of_forall (phase_retains retains s)

/-- What comes after the captures. -/
def releaseAfterCaptures (S : Surroundings ω) (inv : Inventory) (capturesEnded : ℕ) : Release ω Tally := do
  let all ← look Releasing.graphs
  S.synchronize (S.awaited inv all) []
  let contents ← S.releaseContents inv all
  -- a context must not be destroyed while it is current
  S.use 0
  let contexts ← S.releaseDetached (inv.items .contexts)
  let retains ← S.releaseRetains inv.primaryRetains
  let (failed, skipped) ← look fun s => (s.failed, s.skipped)
  pure { contents with capturesEnded := capturesEnded, contexts := contexts, retains := retains, failed := failed,
                       skipped := skipped }

/-- The expiry ends the captures, and then does the rest with their number. -/
theorem releaseInventory_eq (inv : Inventory) :
    S.releaseInventory inv = S.endCaptures inv.captures >>= S.releaseAfterCaptures inv := rfl

/-- The rest of an expiry goes through the phases in order. -/
theorem phased_releaseAfterCaptures (inv : Inventory) (n : ℕ) (s : Releasing ω) :
    Phased ReleaseEvent.phase 1 15 ((S.releaseAfterCaptures inv n).log s) := by
  refine phased_bind (b := 1) (fun s => phased_nil _ _ _) (fun all => ?_) (by decide) (by decide) s
  refine phased_bind (phased_synchronize _ _) (fun _ => ?_) (by decide) (by decide)
  refine phased_bind (phased_releaseContents inv all) (fun _ => ?_) (by decide) (by decide)
  refine phased_bind (phased_use 0 13 13) (fun _ => ?_) (by decide) (by decide)
  refine phased_bind (phased_detached _) (fun _ => ?_) (by decide) (by decide)
  refine phased_bind (phased_retains _) (fun _ => ?_) (by decide) (by decide)
  exact fun s => phased_nil _ _ _

/-- A whole expiry goes through the phases in order. -/
theorem phased_releaseInventory (inv : Inventory) (s : Releasing ω) :
    Phased ReleaseEvent.phase 0 15 ((S.releaseInventory inv).log s) := by
  rw [releaseInventory_eq]
  exact phased_bind (phased_endCaptures inv.captures)
    (fun n => phased_releaseAfterCaptures inv n) (by decide) (by decide) s

/-- Graphs come out of captures only. -/
theorem collect_of_phased {a b : ℕ} {l : List ReleaseEvent} (h : Phased ReleaseEvent.phase (a + 1) b l)
    (graphs : Table ℕ Stamp) : collect graphs l = graphs := by
  have hnone : ∀ e ∈ l, ∀ graph st, e ≠ .captured graph st := by
    rintro e he graph st rfl
    have hge := (h.2 0 (List.mem_filterMap.mpr ⟨_, he, rfl⟩)).1
    omega
  clear h
  induction l with
  | nil => rfl
  | cons e l ih =>
      have hrest := ih fun e' he' => hnone e' (List.mem_cons_of_mem e he')
      have hhead := hnone e List.mem_cons_self
      cases e <;> first | exact hrest | exact absurd rfl (hhead _ _)

/-- The graphs there are once the captures are ended. -/
theorem graphs_endCaptures (captures : List OpenCapture) (s : Releasing ω) :
    ((S.endCaptures captures).last s).graphs = collect s.graphs ((S.endCaptures captures).log s) := by
  have hR : Composes fun (s : Releasing ω) l t => t.graphs = collect s.graphs l :=
    ⟨fun _ => rfl, fun hl hl' => by rw [collect_append, ← hl, hl']⟩
  exact S.rounds_endCaptures.keeps hR (fun c _ s l t n h => h.graphs) s

/-- The graphs that come in during an expiry are those that the captures yield. -/
theorem collect_releaseInventory (inv : Inventory) (s : Releasing ω) :
    collect s.graphs ((S.releaseInventory inv).log s) = ((S.endCaptures inv.captures).last s).graphs := by
  rw [releaseInventory_eq, log_bind, collect_append, ← graphs_endCaptures]
  exact collect_of_phased (phased_releaseAfterCaptures inv _ _) _

/-- A whole expiry is about everything that is held, once. -/
theorem subjects_releaseInventory (inv : Inventory) (s : Releasing ω) :
    ((S.releaseInventory inv).log s).flatMap ReleaseEvent.subject =
      inv.captures.map .capture ++ ((inv.handles.entries.map fun e => .handle e.1 e.2) ++
        S.walked .libraries (inv.items .libraries) ++ (inv.vmmMaps.entries.map fun e => .mapping e.1 e.2) ++
        S.walked .vmmHandles (inv.items .vmmHandles) ++ (inv.vmmRanges.entries.map fun e => .range e.1 e.2) ++
        S.walked .graphExecs (inv.items .graphExecs) ++
        S.walked .graphs (collect s.graphs ((S.releaseInventory inv).log s)) ++
        S.walked .events (inv.items .events) ++ S.walked .streams (inv.items .streams) ++
        S.walked .modules (inv.items .modules) ++ S.walked .allocs (inv.items .allocs)) ++
        S.walked .contexts (inv.items .contexts) := by
  rw [collect_releaseInventory, releaseInventory_eq]
  simp only [releaseAfterCaptures, log_bind, List.flatMap_append, log_look, log_pure, subjects_endCaptures,
    subjects_synchronize, subjects_releaseContents, subjects_use, subjects_detached, subjects_retains, value_look,
    List.append_nil, List.nil_append, List.append_assoc]
  rfl

/-- The walk through a table meets every entry once, in the driver's order or another. -/
theorem walked_perm (kind : ItemKind) (items : Table ℕ Stamp) :
    (S.walked kind items).Perm (items.entries.map fun e => .item kind e.1 e.2) := (S.walk_perm items).map _

/-- Every entry is tried or left alone by the generations there are at its turn. -/
theorem decided_releaseInventory (inv : Inventory) (s : Releasing ω) :
    ∀ e ∈ (S.releaseInventory inv).log s, e.Decided := by
  refine keeps_releaseInventory (composes_forall ReleaseEvent.Decided) ?_ ?_ ?_ ?_ ?_ inv s
  · exact fun s e he => absurd he List.not_mem_nil
  · intro ctx s e he
    have hbefore := S.before_use (.mapping 0 0) ctx s e he
    cases e <;> trivial
  · intro ctx s e he
    obtain ⟨r, hlog⟩ := S.log_wait ctx s
    rw [hlog, List.mem_append, List.mem_singleton] at he
    rcases he with he | rfl
    · have hbefore := S.before_use (.mapping 0 0) ctx s e he
      cases e <;> trivial
    · trivial
  · exact fun x s l t n h => h.decided
  · intro dev n s
    obtain ⟨rs, w, hlog, -⟩ := S.releaseRetainsOf_spec dev n s
    rw [hlog]
    intro e he
    obtain ⟨r, -, rfl⟩ := List.mem_map.mp he
    trivial

/-! ## What an expiry does, whatever happens -/

/-- The journal of the expiry of a session that holds what `inv` lists. -/
def releaseLog (S : Surroundings ω) (inv : Inventory) (w : ω) : List ReleaseEvent :=
  (S.releaseInventory inv).log { world := w, graphs := inv.items .graphs }

/-- **Once.** Whatever the driver answers and the other sessions do, everything the session holds, the graphs of its
captures included, is tried or left alone once, and nothing else is; it is tried if the generation it was made in has
not ended by then, and left alone if it has. -/
theorem released_once (S : Surroundings ω) (inv : Inventory) (w : ω) :
    ((S.releaseLog inv w).flatMap ReleaseEvent.subject).Perm
        (inv.holdings (collect (inv.items .graphs) (S.releaseLog inv w))) ∧
      ∀ e ∈ S.releaseLog inv w, e.Decided := by
  refine ⟨?_, decided_releaseInventory inv _⟩
  rw [releaseLog, subjects_releaseInventory, Inventory.holdings]
  simp only [← List.append_assoc]
  have hitems := fun kind => S.walked_perm kind (inv.items kind)
  refine .append (.append (.append (.append (.append (.append (.append (.append (.append (.append (.append (.append
    .rfl .rfl) ?_) .rfl) ?_) .rfl) ?_) ?_) ?_) ?_) ?_) ?_) ?_ <;> first | exact hitems _ | exact S.walked_perm _ _

/-- **Order and context.** What is given back goes in the order of dependencies, captures and waiting first: nothing before what
lives in it. And before each call the context that was last asked to be current is the one that the entry asks for; a
refusal of `cuCtxSetCurrent` is logged and passed over, as the comment of `Current` says. -/
theorem released_in_place (S : Surroundings ω) (inv : Inventory) (w : ω) :
    ((S.releaseLog inv w).filterMap ReleaseEvent.phase).Pairwise (· ≤ ·) ∧
      ∀ l₁ e l₂, S.releaseLog inv w = l₁ ++ e :: l₂ → contextWatch.Passes (contextWatch.after none l₁) e := by
  refine ⟨(phased_releaseInventory inv _).1, fun l₁ e l₂ hl => ?_⟩
  have haccepts := (S.watched_releaseInventory inv { world := w, graphs := inv.items .graphs }).1
  rw [releaseLog] at hl
  rw [hl] at haccepts
  exact haccepts.passes

/-- The generation of a stamp is one that its device has had, or the one that marks an unknown place. -/
def Dated (g : Generations) (st : Stamp) : Prop :=
  ∀ dev, st.dev = some dev → st.gen ≤ g.generation dev ∨ st.gen = kEndedGeneration

/-- A generation that has been stays one that has been. -/
theorem Dated.later {g g' : Generations} {st : Stamp} (h : Dated g st) (hlater : Later g g') : Dated g' st :=
  fun dev hdev => (h dev hdev).imp_left fun hle => hle.trans (hlater dev)

/-- What is current at the end was so in between. -/
theorem stillCurrent_between {g g' now : Generations} {st : Stamp} (hdated : Dated g st) (hlater : Later g g')
    (hnow : Later g' now) (hstill : now.stillCurrent st.dev st.gen = true) :
    g'.stillCurrent st.dev st.gen = true := by
  unfold Generations.stillCurrent at hstill ⊢
  split at hstill
  · cases hstill
  · rename_i hended
    rw [if_neg hended]
    cases hdev : st.dev with
    | none => rfl
    | some dev =>
        rw [hdev] at hstill
        have hend : now.generation dev = st.gen := of_decide_eq_true hstill
        have hstart := (hdated dev hdev).resolve_right hended
        have h1 := hlater dev
        have h2 := hnow dev
        exact decide_eq_true (by omega)

/-- Reading the generations lets none go back. -/
theorem ages_generations (hgrow : ∀ w, Later (S.gens w) (S.gens (S.others w))) : Keeps S.Ages S.generations :=
  fun s => ⟨hgrow s.world, fun _ he => absurd he List.not_mem_nil⟩

/-- What is logged ahead of a try reads no generations. -/
theorem now_eq_none_of_before {x : Holding} {e : ReleaseEvent} (h : e.Before x) : e.now = none := by
  cases e <;> first | rfl | exact h.elim

/-- Waiting changes no generation. -/
theorem gens_wait (ctx : CUcontext) (s : Releasing ω) : S.gens ((S.wait ctx).last s).world = S.gens s.world := by
  have huse := (S.use_rest ctx s).1
  rw [← huse]
  exact S.gens_call ((S.use ctx).last s).world .syncContext

/-- Waiting lets no generation go back. -/
theorem ages_wait (ctx : CUcontext) : Keeps S.Ages (S.wait ctx) := by
  intro s
  refine ⟨fun dev => (congrArg (·.generation dev) (gens_wait ctx s)).ge, fun e he now hnow => ?_⟩
  obtain ⟨r, hlog⟩ := S.log_wait ctx s
  rw [hlog, List.mem_append, List.mem_singleton] at he
  rcases he with he | rfl
  · rw [now_eq_none_of_before (S.before_use (.mapping 0 0) ctx s e he)] at hnow
    cases hnow
  · cases hnow

/-- Ending captures lets no generation go back. -/
theorem ages_endCaptures (hgrow : ∀ w, Later (S.gens w) (S.gens (S.others w))) (captures : List OpenCapture) :
    Keeps S.Ages (S.endCaptures captures) :=
  S.rounds_endCaptures.keeps composes_ages fun _ _ _ _ _ _ h => h.ages hgrow

/-- The loop that waits lets no generation go back. -/
theorem ages_synchronize (hgrow : ∀ w, Later (S.gens w) (S.gens (S.others w))) (entries : List (ℕ × Stamp))
    (seen : List CUcontext) : Keeps S.Ages (S.synchronize entries seen) :=
  keeps_synchronize composes_ages (ages_generations hgrow) ages_wait entries seen

/-- Every context of an entry that is still current later has been waited for. -/
theorem waited_synchronize (hgrow : ∀ w, Later (S.gens w) (S.gens (S.others w))) {entries : List (ℕ × Stamp)}
    {seen : List CUcontext} {s : Releasing ω} {now : Generations} {e : ℕ × Stamp} (he : e ∈ entries)
    (hctx : e.2.ctx ≠ 0) (hdated : Dated (S.gens s.world) e.2)
    (hnow : Later (S.gens ((S.synchronize entries seen).last s).world) now)
    (hstill : now.stillCurrent e.2.dev e.2.gen = true) :
    e.2.ctx ∈ seen ∨ ∃ r, .waited e.2.ctx r ∈ (S.synchronize entries seen).log s := by
  induction entries generalizing seen s with
  | nil => exact absurd he List.not_mem_nil
  | cons e' entries ih =>
      obtain ⟨h', st'⟩ := e'
      rw [synchronize] at hnow ⊢
      by_cases hzero : st'.ctx = 0
      · rw [if_pos hzero] at hnow ⊢
        -- an entry without a context is passed over
        rcases List.mem_cons.mp he with rfl | he
        · exact absurd hzero hctx
        · exact ih he hdated hnow
      · rw [if_neg hzero] at hnow ⊢
        have hlater := hgrow s.world
        simp only [log_bind, last_bind, log_generations, List.nil_append] at hnow ⊢
        set s' := (S.generations).last s with hs'
        have hdated' : Dated (S.gens s'.world) e.2 := hdated.later hlater
        by_cases hcheck : (S.generations).value s |>.stillCurrent st'.dev st'.gen
        · rw [if_neg (not_not.mpr hcheck)] at hnow ⊢
          by_cases hseen : st'.ctx ∈ seen
          · rw [if_pos hseen] at hnow ⊢
            rcases List.mem_cons.mp he with rfl | he
            · -- another entry of the context came before it
              exact .inl hseen
            · exact ih he hdated' hnow
          · rw [if_neg hseen] at hnow ⊢
            simp only [log_bind, last_bind] at hnow ⊢
            obtain ⟨r, hlog⟩ := S.log_wait st'.ctx s'
            have hwaited : .waited st'.ctx r ∈ (S.wait st'.ctx).log s' := by
              rw [hlog]
              exact List.mem_append_right _ (List.mem_singleton_self _)
            rcases List.mem_cons.mp he with rfl | he
            · exact .inr ⟨r, List.mem_append_left _ hwaited⟩
            · have hdated'' : Dated (S.gens ((S.wait st'.ctx).last s').world) e.2 := by
                rw [gens_wait]
                exact hdated'
              -- the rest is waited for with this context among those seen
              rcases ih he hdated'' hnow with hmem | ⟨r', hr'⟩
              · rcases List.mem_append.mp hmem with hmem | hmem
                · exact .inl hmem
                · rw [List.mem_singleton.mp hmem]
                  exact .inr ⟨r, List.mem_append_left _ hwaited⟩
              · exact .inr ⟨r', List.mem_append_right _ hr'⟩
        · rw [if_pos hcheck] at hnow ⊢
          rcases List.mem_cons.mp he with rfl | he
          · -- the check of the entry itself comes between its stamp and `now`
            have hages := (ages_synchronize hgrow entries seen s').1
            exact absurd (stillCurrent_between hdated hlater (fun dev => (hages dev).trans (hnow dev)) hstill) hcheck
          · exact ih he hdated' hnow

/-- The journal in four parts. -/
theorem log_releaseInventory (inv : Inventory) (s t u : Releasing ω)
    (ht : t = (S.endCaptures inv.captures).last s)
    (hu : u = (S.synchronize (S.awaited inv t.graphs) []).last t) :
    ∃ rest, Phased ReleaseEvent.phase 13 15 rest ∧ (S.releaseInventory inv).log s =
      (S.endCaptures inv.captures).log s ++ ((S.synchronize (S.awaited inv t.graphs) []).log t ++
        ((S.releaseContents inv t.graphs).log u ++ rest)) := by
  subst ht hu
  rw [releaseInventory]
  simp only [log_bind, log_look, last_look, value_look, List.nil_append]
  refine ⟨_, ?_, rfl⟩
  refine (phased_use 0 13 13 _).append ?_ (by decide) (by decide)
  refine (phased_detached _ _).append ?_ (by decide) (by decide)
  exact (phased_retains _ _).append (phased_nil _ 15 15) (by decide) (by decide)

/-- What is of another phase is not in the log of these. -/
theorem not_mem_of_phased {a b k : ℕ} {l : List ReleaseEvent} {e : ReleaseEvent}
    (hl : Phased ReleaseEvent.phase a b l) (hk : e.phase = some k) (hout : k < a ∨ b ≤ k) : e ∉ l := by
  intro he
  have hbounds := hl.2 k (List.mem_filterMap.mpr ⟨e, he, hk⟩)
  omega

/-- The walk of a table is of the entries of that table. -/
theorem mem_walked {kind kind' : ItemKind} {items : Table ℕ Stamp} {handle : ℕ} {st : Stamp} :
    .item kind handle st ∈ S.walked kind' items ↔ kind' = kind ∧ (handle, st) ∈ S.walk items := by
  rw [walked, List.mem_map]
  constructor
  · rintro ⟨e, he, heq⟩
    obtain ⟨rfl, rfl, rfl⟩ := Holding.item.inj heq
    exact ⟨rfl, he⟩
  · rintro ⟨rfl, he⟩
    exact ⟨_, he, rfl⟩

/-- What is tried of the swept tables is waited for, and in one of the tables. -/
theorem mem_awaited {inv : Inventory} {all : Table ℕ Stamp} {u : Releasing ω} {kind : ItemKind} {handle : ℕ}
    {st : Stamp} {now : Generations} {r : CUresult} (hkind : kind.ctxSlot.isSome)
    (he : .tried (.item kind handle st) now r ∈ (S.releaseContents inv all).log u) :
    (handle, st) ∈ S.awaited inv all ∧
      ((handle, st) ∈ all.entries ∨ (handle, st) ∈ (inv.items kind).entries) := by
  have hsubject : Holding.item kind handle st ∈ ((S.releaseContents inv all).log u).flatMap ReleaseEvent.subject :=
    List.mem_flatMap.mpr ⟨_, he, List.mem_singleton_self _⟩
  rw [subjects_releaseContents] at hsubject
  have hperm := fun t => (S.walk_perm t).mem_iff (a := (handle, st))
  cases kind <;> simp [ItemKind.ctxSlot, mem_walked, awaited, ← hperm] at hkind hsubject ⊢ <;> tauto

/-- Among the graphs are those of the session and those of its captures, placed where the captures are. -/
theorem stamped_collect {P : Stamp → Prop} {graphs : Table ℕ Stamp} {l : List ReleaseEvent}
    (hgraphs : ∀ e ∈ graphs.entries, P e.2) (hl : ∀ e ∈ l, ∀ graph st, e = .captured graph st → P st) :
    ∀ e ∈ (collect graphs l).entries, P e.2 := by
  induction l generalizing graphs with
  | nil => exact hgraphs
  | cons e l ih =>
      have htail := fun e' he' => hl e' (List.mem_cons_of_mem e he')
      cases e with
      | captured graph st =>
          have hinsert : ∀ e ∈ (graphs.insert graph st).entries, P e.2 := by
            intro e he
            rcases Table.mem_insert.mp he with rfl | ⟨he, -⟩
            · exact hl _ List.mem_cons_self graph st rfl
            · exact hgraphs e he
          exact ih hinsert htail
      | _ => exact ih hgraphs htail

/-- The graphs that captures yield are stamped as the captures are. -/
theorem captured_endCaptures {P : Stamp → Prop} {captures : List OpenCapture} (h : ∀ c ∈ captures, P c.where')
    (s : Releasing ω) : ∀ e ∈ (S.endCaptures captures).log s, ∀ graph st, e = .captured graph st → P st := by
  refine S.rounds_endCaptures.keeps (composes_forall fun e => ∀ graph st, e = .captured graph st → P st) ?_ s
  rintro c hc s l t n (_ | ⟨hpre⟩) e he graph st rfl
  · cases List.mem_singleton.mp he
  · rcases List.mem_append.mp he with he | he
    · obtain ⟨c', hc', rfl⟩ := hpre _ he
      rw [← Holding.capture.inj hc']
      exact h c hc
    · cases List.mem_singleton.mp he

/-- **Waiting.** If generations only go up and the stamps are of generations there have been: no allocation, module,
stream, event, graph or graph exec that was made in a context is given back before the expiry has waited with that
context asked for, since an entry that passes the check when its turn comes has passed it in the loop that waits. The
other tables are not in that loop: captures are ended before it, and library handles, libraries and virtual memory are
not waited for. -/
theorem waited_before (S : Surroundings ω) (hgrow : ∀ w, Later (S.gens w) (S.gens (S.others w))) {inv : Inventory}
    {w : ω} (hdated : inv.Stamped (Dated (S.gens w))) {l₁ l₂ : List ReleaseEvent} {kind : ItemKind} {handle : ℕ}
    {st : Stamp} {now : Generations} {r : CUresult}
    (hl : S.releaseLog inv w = l₁ ++ .tried (.item kind handle st) now r :: l₂) (hkind : kind.ctxSlot.isSome)
    (hctx : st.ctx ≠ 0) : ∃ r', .waited st.ctx r' ∈ l₁ := by
  set s : Releasing ω := { world := w, graphs := inv.items .graphs } with hs
  set t := (S.endCaptures inv.captures).last s with ht
  set u := (S.synchronize (S.awaited inv t.graphs) []).last t with hu
  obtain ⟨rest, hrest, hlog⟩ := S.log_releaseInventory inv s t u ht hu
  have hmem : .tried (.item kind handle st) now r ∈ (S.releaseInventory inv).log s := by
    rw [show (S.releaseInventory inv).log s = _ from hl]
    exact List.mem_append_right _ List.mem_cons_self
  obtain ⟨k, hk, hlow, hhigh⟩ : ∃ k, ReleaseEvent.phase (.tried (.item kind handle st) now r) = some k ∧ 2 ≤ k ∧
      k < 13 := by
    refine ⟨_, rfl, ?_⟩
    cases kind <;> simp [ItemKind.ctxSlot, Holding.phase] at hkind ⊢
  -- it is tried in the middle
  have hcontents : .tried (.item kind handle st) now r ∈ (S.releaseContents inv t.graphs).log u := by
    rw [hlog] at hmem
    rcases List.mem_append.mp hmem with hin | hin
    · exact absurd hin (not_mem_of_phased (phased_endCaptures inv.captures s) hk (.inr (by omega)))
    rcases List.mem_append.mp hin with hin | hin
    · exact absurd hin (not_mem_of_phased (phased_synchronize (S.awaited inv t.graphs) [] t) hk (.inr hlow))
    rcases List.mem_append.mp hin with hin | hin
    · exact hin
    · exact absurd hin (not_mem_of_phased hrest hk (.inl hhigh))
  obtain ⟨hawaited, hentry⟩ := mem_awaited hkind hcontents
  have hstill : now.stillCurrent st.dev st.gen = true := by
    refine decided_releaseInventory inv s _ hmem st ?_
    cases kind <;> first | rfl | cases hkind
  -- its stamp is as old as the loop that waits
  have hold : Dated (S.gens t.world) st := by
    refine Dated.later ?_ (ages_endCaptures hgrow inv.captures s).1
    rcases hentry with hentry | hentry
    · rw [ht, graphs_endCaptures] at hentry
      refine stamped_collect (fun e he => ?_) (captured_endCaptures hdated.captures s) _ hentry
      exact hdated.items .graphs e.1 e.2 (Table.find_eq_some_iff.mpr he)
    · exact hdated.items kind handle st (Table.find_eq_some_iff.mpr hentry)
  have hnow : Later (S.gens u.world) now :=
    (keeps_releaseContents composes_ages (fun x _ s l t n h => h.ages hgrow) inv t.graphs u).2 _ hcontents now rfl
  obtain ⟨r', hr'⟩ := (waited_synchronize hgrow hawaited hctx hold hnow hstill).resolve_left List.not_mem_nil
  refine ⟨r', (phased_releaseInventory inv s).before hl ?_ hk (show _ = some 1 from rfl) (by omega)⟩
  rw [hlog]
  exact List.mem_append_right _ (List.mem_append_left _ hr')

/-- A driver that grants everything, with no session beside this one. -/
def granting : Surroundings Generations where
  gens g := g
  call g _ := ((.success, 0), g)
  others g := g
  bump g dev := g.bumpGeneration dev
  walk t := t.entries
  walk_perm _ := .rfl
  gens_call _ _ := rfl
  gens_bump _ _ := rfl

/-- An allocation in the primary context of a device is freed once that context has been waited for. -/
theorem waited_before_granting : ∃ l₁ l₂ now, granting.releaseLog (({} : Inventory).note .allocs 64 ⟨8, some 0, 0⟩) {} =
    l₁ ++ .tried (.item .allocs 64 ⟨8, some 0, 0⟩) now .success :: l₂ ∧ ∃ r, .waited 8 r ∈ l₁ := by
  have hlog : granting.releaseLog (({} : Inventory).note .allocs 64 ⟨8, some 0, 0⟩) {} =
      [.used 8 .success, .waited 8 .success] ++
        .tried (.item .allocs 64 ⟨8, some 0, 0⟩) {} .success :: [.used 0 .success] := rfl
  refine ⟨_, _, _, hlog, waited_before granting (fun g dev => le_rfl) ?_ hlog rfl (by decide)⟩
  exact Inventory.stamped_empty.note .allocs 64 fun dev _ => .inl (Nat.zero_le _)

/-! ### The retains -/

end Surroundings

/-- The result of a release of the primary context of `dev`. -/
def ReleaseEvent.releaseOf (dev : Device) : ReleaseEvent → Option CUresult
  | .releasedPrimary dev' r _ => if dev' = dev then some r else none
  | _ => none

namespace Surroundings

variable {ω : Type} {S : Surroundings ω}

/-- The releases of one device, as far as they go. -/
theorem releases_retainsOf (dev dev' : Device) (n : ℕ) (s : Releasing ω) :
    ∃ rs, Drained n rs ∧ ((S.releaseRetainsOf dev' n).log s).filterMap (ReleaseEvent.releaseOf dev) =
      if dev' = dev then rs else [] := by
  obtain ⟨rs, w, hlog, -, hdrained, -⟩ := S.releaseRetainsOf_spec dev' n s
  refine ⟨_, hdrained, ?_⟩
  rw [hlog]
  split
  · rename_i h
    subst h
    clear hlog hdrained
    induction rs with
    | nil => rfl
    | cons r rs ih => simp [ReleaseEvent.releaseOf, ih]
  · rename_i h
    clear hlog hdrained
    induction rs with
    | nil => rfl
    | cons r rs ih => simp [ReleaseEvent.releaseOf, h, ih]

/-- For a device that has no retains, or none any more, nothing is released. -/
theorem releases_eq_nil {dev : Device} {retains : List (Device × ℕ)} (h : ∀ e ∈ retains, e.1 ≠ dev) (s : Releasing ω) :
    ((total (fun e => S.releaseRetainsOf e.1 e.2) retains).log s).filterMap (ReleaseEvent.releaseOf dev) = [] := by
  induction retains generalizing s with
  | nil => rfl
  | cons e retains ih =>
      obtain ⟨rs, -, hrs⟩ := releases_retainsOf (S := S) dev e.1 e.2 s
      have hrest := ih (fun e' he' => h e' (List.mem_cons_of_mem e he')) ((S.releaseRetainsOf e.1 e.2).last s)
      simp [total, hrs, hrest, h e List.mem_cons_self]

/-- For every device as many releases as retains, or up to the first that fails. -/
theorem releases_drained (retains : List (Device × ℕ)) (hnodup : (AssocList.keys retains).Nodup) (dev : Device)
    (s : Releasing ω) : Drained ((retains.lookup dev).getD 0)
      (((total (fun e => S.releaseRetainsOf e.1 e.2) retains).log s).filterMap (ReleaseEvent.releaseOf dev)) := by
  induction retains generalizing s with
  | nil => exact drained_zero
  | cons e retains ih =>
      obtain ⟨dev', n⟩ := e
      rw [AssocList.keys_cons, List.nodup_cons] at hnodup
      obtain ⟨rs, hdrained, hrs⟩ := releases_retainsOf (S := S) dev dev' n s
      simp only [total, log_bind, List.filterMap_append, hrs, log_pure, List.append_nil]
      by_cases hdev : dev' = dev
      · subst hdev
        have hne : ∀ e ∈ retains, e.1 ≠ dev' := by
          intro e he heq
          have hkey : e.1 ∈ AssocList.keys retains := List.mem_map_of_mem he
          exact hnodup.1 (heq ▸ hkey)
        have hrest := releases_eq_nil (S := S) hne ((S.releaseRetainsOf dev' n).last s)
        simp [hrest, hdrained]
      · have hrest := ih hnodup.2 ((S.releaseRetainsOf dev' n).last s)
        rw [List.lookup_cons, beq_eq_false_iff_ne.mpr (Ne.symm hdev)]
        simpa [hdev] using hrest

/-- No part of the expiry but the last releases a primary context. -/
theorem releases_eq_nil_of_phased {a b : ℕ} {l : List ReleaseEvent} (h : Phased ReleaseEvent.phase a b l) (hb : b ≤ 14)
    (dev : Device) : l.filterMap (ReleaseEvent.releaseOf dev) = [] := by
  rw [List.filterMap_eq_nil_iff]
  intro e he
  cases e with
  | releasedPrimary dev' r ended => exact absurd he (not_mem_of_phased h rfl (.inr hb))
  | _ => rfl

/-- **Retains.** For each device as many releases are made as the session holds retains, unless one fails, after which
none is made. -/
theorem retains_released (S : Surroundings ω) (inv : Inventory) (w : ω) (dev : Device) :
    Drained ((inv.primaryRetains.find dev).getD 0)
      ((S.releaseLog inv w).filterMap (ReleaseEvent.releaseOf dev)) := by
  have hcaptures := fun s => releases_eq_nil_of_phased (phased_endCaptures (S := S) inv.captures s) (by omega) dev
  have hsync := fun all (s : Releasing ω) =>
    releases_eq_nil_of_phased (phased_synchronize (S := S) (S.awaited inv all) [] s) (by omega) dev
  have hcontents := fun all s => releases_eq_nil_of_phased (phased_releaseContents (S := S) inv all s) (by omega) dev
  have huse := fun s => releases_eq_nil_of_phased (phased_use (S := S) 0 0 0 s) (by omega) dev
  have hcontexts := fun s =>
    releases_eq_nil_of_phased (phased_detached (S := S) (inv.items .contexts) s) (by omega) dev
  simp only [releaseLog, releaseInventory, log_bind, List.filterMap_append, log_look, log_pure, List.nil_append,
    List.append_nil, hcaptures, hsync, hcontents, huse, hcontexts]
  exact releases_drained inv.primaryRetains.entries inv.primaryRetains.nodup dev _

end Surroundings

/-! ### The accounts -/

/-- How many things were given back in one phase. -/
def givenIn (k : ℕ) (l : List ReleaseEvent) : ℕ :=
  ((l.filter fun e => e.phase = some k).map ReleaseEvent.given).sum

/-- What `release_inventory` says it gave back in one phase. -/
def Tally.given (t : Tally) : ℕ → ℕ
  | 0 => t.capturesEnded
  | 2 => t.handles
  | 3 => t.libraries
  | 4 => t.vmmUnmapped
  | 5 => t.vmmHandles
  | 6 => t.vmmRanges
  | 7 => t.execs
  | 8 => t.graphs
  | 9 => t.events
  | 10 => t.streams
  | 11 => t.modules
  | 12 => t.allocs
  | 13 => t.contexts
  | 14 => t.retains
  | _ => 0

/-- What is given back in two logs, counted in each. -/
theorem givenIn_append (k : ℕ) (l l' : List ReleaseEvent) : givenIn k (l ++ l') = givenIn k l + givenIn k l' := by
  simp [givenIn]

/-- Nothing of another phase is given back in the log of these. -/
theorem givenIn_of_phased {a b k : ℕ} {l : List ReleaseEvent} (h : Phased ReleaseEvent.phase a b l)
    (hk : k < a ∨ b ≤ k) : givenIn k l = 0 := by
  have hnone : (l.filter fun e => e.phase = some k) = [] := by
    rw [List.filter_eq_nil_iff]
    intro e he hphase
    exact Surroundings.not_mem_of_phased h (of_decide_eq_true hphase) hk he
  rw [givenIn, hnone]
  rfl

/-- What is given back is given back in its phase. -/
theorem givenIn_of_forall {k : ℕ} {l : List ReleaseEvent} (h : ∀ e ∈ l, ∀ j, e.phase = some j → j = k) :
    givenIn k l = (l.map ReleaseEvent.given).sum := by
  induction l with
  | nil => rfl
  | cons e l ih =>
      have hrest := ih fun e' he' => h e' (List.mem_cons_of_mem e he')
      rw [List.map_cons, List.sum_cons, ← hrest]
      cases hphase : e.phase with
      | none =>
          have hzero : e.given = 0 := by cases e <;> first | rfl | cases hphase
          rw [hzero, zero_add]
          simp [givenIn, hphase]
      | some j =>
          obtain rfl := h e List.mem_cons_self j hphase
          simp [givenIn, hphase]

namespace Surroundings

variable {ω : Type} {S : Surroundings ω}

/-- A loop of rounds counts what it gives back in its phase. -/
theorem Rounds.givenIn {β : Type} {body : β → Release ω ℕ} {holding : β → Holding} (h : S.Rounds holding body)
    {bs : List β} {j : ℕ} (hj : ∀ b ∈ bs, (holding b).phase = j) (k : ℕ) (s : Releasing ω) :
    givenIn k ((total body bs).log s) = if k = j then (total body bs).value s else 0 := by
  split
  · rename_i hk
    subst hk
    rw [count_total (fun b s => (h b s).counts.1) bs s, givenIn_of_forall (h.phase hj s)]
  · exact givenIn_of_phased (h.phased hj s) (by omega)

/-- The count of a table is what was given back of it. -/
theorem givenIn_items {kind : ItemKind} (hkind : kind ≠ .contexts) (items : Table ℕ Stamp) (k : ℕ)
    (s : Releasing ω) : givenIn k ((S.releaseItems kind items).log s) =
      if k = (Holding.item kind 0 {}).phase then (S.releaseItems kind items).value s else 0 :=
  (S.rounds_items hkind).givenIn (fun e _ => by cases kind <;> rfl) k s

/-- The count of the captures is how many were ended. -/
theorem givenIn_endCaptures (captures : List OpenCapture) (k : ℕ) (s : Releasing ω) :
    givenIn k ((S.endCaptures captures).log s) = if k = 0 then (S.endCaptures captures).value s else 0 :=
  (S.rounds_endCaptures).givenIn (fun _ _ => rfl) k s

/-- The count of the handles is how many were destroyed. -/
theorem givenIn_handles (handles : Table ℕ LibHandle) (k : ℕ) (s : Releasing ω) :
    givenIn k ((S.releaseHandles handles).log s) = if k = 2 then (S.releaseHandles handles).value s else 0 :=
  (S.rounds_handles).givenIn (fun _ _ => rfl) k s

/-- The count of the mappings is how many were unmapped. -/
theorem givenIn_mappings (maps : Table ℕ ℕ) (k : ℕ) (s : Releasing ω) :
    givenIn k ((S.releaseMappings maps).log s) = if k = 4 then (S.releaseMappings maps).value s else 0 :=
  (S.rounds_mappings).givenIn (fun _ _ => rfl) k s

/-- The count of the ranges is how many were freed. -/
theorem givenIn_ranges (ranges : Table ℕ ℕ) (k : ℕ) (s : Releasing ω) :
    givenIn k ((S.releaseRanges ranges).log s) = if k = 6 then (S.releaseRanges ranges).value s else 0 :=
  (S.rounds_ranges).givenIn (fun _ _ => rfl) k s

/-- The count of the contexts is how many were destroyed. -/
theorem givenIn_detached (contexts : Table ℕ Stamp) (k : ℕ) (s : Releasing ω) :
    givenIn k ((S.releaseDetached contexts).log s) = if k = 13 then (S.releaseDetached contexts).value s else 0 :=
  (S.rounds_detached).givenIn (fun _ _ => rfl) k s

/-- A release that succeeds counts as one given back. -/
theorem sum_given_releasedPrimary (dev : Device) (rs : List (CUresult × Bool)) :
    ((rs.map fun r => ReleaseEvent.releasedPrimary dev r.1 r.2).map ReleaseEvent.given).sum =
      (rs.map Prod.fst).count .success := by
  induction rs with
  | nil => rfl
  | cons r rs ih =>
      rw [List.map_cons, List.map_cons, List.sum_cons, ih, List.map_cons, List.count_cons]
      by_cases hr : r.1 = .success <;> simp [ReleaseEvent.given, hr, add_comm]

/-- A release that fails counts as a failure. -/
theorem sum_failures_releasedPrimary (dev : Device) (rs : List (CUresult × Bool)) :
    ((rs.map fun r => ReleaseEvent.releasedPrimary dev r.1 r.2).map ReleaseEvent.failures).sum +
      (rs.map Prod.fst).count .success = rs.length := by
  induction rs with
  | nil => rfl
  | cons r rs ih =>
      rw [List.map_cons, List.map_cons, List.sum_cons, List.map_cons, List.count_cons, List.length_cons, ← ih]
      by_cases hr : r.1 = .success
      · simp [ReleaseEvent.failures, hr]
        omega
      · simp [ReleaseEvent.failures, hr]
        omega

/-- The count of the retains is how many were given back. -/
theorem givenIn_retains (retains : Table Device ℕ) (k : ℕ) (s : Releasing ω) :
    givenIn k ((S.releaseRetains retains).log s) = if k = 14 then (S.releaseRetains retains).value s else 0 := by
  split
  · rename_i hk
    subst hk
    rw [givenIn_of_forall (phase_retains retains s)]
    refine (count_total (fun e s => ?_) retains.entries s).symm
    obtain ⟨rs, w, hlog, -, -, hvalue, -⟩ := S.releaseRetainsOf_spec e.1 e.2 s
    rw [hvalue, hlog, sum_given_releasedPrimary]
  · exact givenIn_of_phased (phased_retains retains s) (by omega)

/-- The counts of the tables between are those of the log. -/
theorem given_releaseContents (inv : Inventory) (all : Table ℕ Stamp) (s : Releasing ω) (k : ℕ) :
    ((S.releaseContents inv all).value s).given k = givenIn k ((S.releaseContents inv all).log s) := by
  have hitems : ∀ kind ≠ ItemKind.contexts, ∀ items (s : Releasing ω), givenIn k ((S.releaseItems kind items).log s) =
      if k = (Holding.item kind 0 {}).phase then (S.releaseItems kind items).value s else 0 :=
    fun kind hkind items s => givenIn_items hkind items k s
  simp (disch := decide) only [releaseContents, log_bind, value_bind, log_pure, value_pure, givenIn_append,
    givenIn_handles, hitems, givenIn_mappings, givenIn_ranges, List.append_nil, Holding.phase]
  rcases Nat.lt_or_ge k 15 with hk | hk
  · interval_cases k <;> simp [Tally.given]
  · obtain ⟨m, rfl⟩ := Nat.exists_eq_add_of_le' hk
    simp [Tally.given]

/-- Waiting gives nothing back. -/
theorem givenIn_synchronize (entries : List (ℕ × Stamp)) (seen : List CUcontext) (k : ℕ) (s : Releasing ω) :
    givenIn k ((S.synchronize entries seen).log s) = 0 := by
  have hzero : ∀ e ∈ (S.synchronize entries seen).log s, e.given = 0 := by
    refine keeps_synchronize (composes_forall fun e => ReleaseEvent.given e = 0) ?_ ?_ entries seen s
    · exact fun s e he => absurd he List.not_mem_nil
    · intro ctx s e he
      obtain ⟨r, hlog⟩ := S.log_wait ctx s
      rw [hlog, List.mem_append, List.mem_singleton] at he
      rcases he with he | rfl
      · have hbefore := S.before_use (.mapping 0 0) ctx s e he
        cases e <;> first | rfl | exact hbefore.elim
      · rfl
  refine List.sum_eq_zero fun n hn => ?_
  obtain ⟨e, he, rfl⟩ := List.mem_map.mp hn
  exact hzero e (List.mem_filter.mp he).1

/-- Every count of a whole expiry is that of the log. -/
theorem given_releaseInventory (inv : Inventory) (s : Releasing ω) (k : ℕ) :
    ((S.releaseInventory inv).value s).given k = givenIn k ((S.releaseInventory inv).log s) := by
  have huse : ∀ s, givenIn k ((S.use 0).log s) = 0 := fun s =>
    givenIn_of_phased (phased_use 0 (k + 1) (k + 1) s) (.inl (Nat.lt_succ_self k))
  have hcontents : ∀ all s, givenIn k ((S.releaseContents inv all).log s) =
      if 2 ≤ k ∧ k < 13 then ((S.releaseContents inv all).value s).given k else 0 := by
    intro all s
    split
    · exact (given_releaseContents inv all s k).symm
    · exact givenIn_of_phased (phased_releaseContents inv all s) (by omega)
  simp only [releaseInventory, log_bind, value_bind, log_pure, value_pure, givenIn_append, log_look, value_look,
    givenIn_endCaptures, givenIn_synchronize, hcontents, givenIn_detached, givenIn_retains, huse]
  rcases Nat.lt_or_ge k 15 with hk | hk
  · interval_cases k <;> simp [Tally.given, givenIn]
  · obtain ⟨m, rfl⟩ := Nat.exists_eq_add_of_le' hk
    simp [Tally.given, givenIn]

/-- The failures and the skips that are counted are those in the journal. -/
def Counted (s : Releasing ω) (l : List ReleaseEvent) (t : Releasing ω) : Prop :=
  t.failed = s.failed + (l.map ReleaseEvent.failures).sum ∧ t.skipped = s.skipped + (l.map ReleaseEvent.skips).sum

/-- Failures and skips of two parts add up. -/
theorem composes_counted : Composes fun (s : Releasing ω) l t => Counted s l t where
  nil _ := ⟨rfl, rfl⟩
  append := by
    intro s t u l l' hl hl'
    simp only [Counted, List.map_append, List.sum_append] at hl hl' ⊢
    omega

/-- Asking for a context is no failure, even if the driver refuses it. -/
theorem counted_use (ctx : CUcontext) : Keeps Counted (S.use ctx) := by
  intro s
  obtain ⟨-, -, hfailed, hskipped⟩ := S.use_rest ctx s
  rw [Counted, hfailed, hskipped, log_use]
  split <;> exact ⟨rfl, rfl⟩

/-- The failures and skips of a whole expiry are those of the log. -/
theorem counted_releaseInventory (inv : Inventory) : Keeps Counted (S.releaseInventory inv) := by
  refine keeps_releaseInventory composes_counted (fun s => ⟨rfl, rfl⟩) counted_use ?_ (fun x s l t n h => h.counts.2)
    ?_ inv
  · intro ctx s
    obtain ⟨r, hlog⟩ := S.log_wait ctx s
    rw [hlog]
    exact composes_counted.append (counted_use ctx s) (t := (S.wait ctx).last s) ⟨rfl, rfl⟩
  · intro dev n s
    obtain ⟨rs, w, hlog, -, -, -, hlast⟩ := S.releaseRetainsOf_spec dev n s
    have hsum := sum_failures_releasedPrimary dev rs
    rw [hlog, hlast]
    refine ⟨?_, ?_⟩
    · show s.failed + _ = _
      omega
    · simp [ReleaseEvent.skips, Function.comp_def]

/-- **Accounts.** What is reported as given back of each kind, as failed and as left alone is what was. -/
theorem tally_releaseInventory (S : Surroundings ω) (inv : Inventory) (w : ω) :
    let t := (S.releaseInventory inv).value { world := w, graphs := inv.items .graphs }
    (∀ k, t.given k = givenIn k (S.releaseLog inv w)) ∧
      t.failed = ((S.releaseLog inv w).map ReleaseEvent.failures).sum ∧
      t.skipped = ((S.releaseLog inv w).map ReleaseEvent.skips).sum := by
  obtain ⟨hfailed, hskipped⟩ := S.counted_releaseInventory inv { world := w, graphs := inv.items .graphs }
  rw [zero_add] at hfailed hskipped
  exact ⟨given_releaseInventory inv _, hfailed, hskipped⟩

end Surroundings

end Rgpu
