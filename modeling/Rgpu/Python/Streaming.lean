import Rgpu.Python.Direct
import Rgpu.Python.Lifetimes

/-! # Streaming changes nothing

What an application is told when it streams, with ids for tensors and a session that is behind, is what it would be
told if every call were executed on the spot.

* **`TorchSession.settle`** — the session when it has executed what is queued.
* **`Paired.Mirrors`** — the session, then, is the machine, and what variables and arguments stand for is the same.
* **`Paired.told_as_direct`** — what the application is told. -/

namespace Rgpu

open Foundations

variable {ω γ κ η ρ : Type}

namespace TorchSession

variable {t : Torch ω γ κ η ρ} {x : TorchSession γ κ η ρ}

/-- The session, and the reply, when it has executed messages of which none fails. -/
def settle (t : Torch ω γ κ η ρ) (y : TorchSession γ κ η ρ × Option (Poison ⊕ OpAnswer η)) :
    List (ℕ × OpBody ω γ η) → TorchSession γ κ η ρ × Option (Poison ⊕ OpAnswer η)
  | [] => y
  | (n, b) :: q => settle t ((y.1.execute t n b .fine).1, y.2.or (y.1.execute t n b .fine).2) q

/-- Settling two queues, one after the other. -/
theorem settle_append (y : TorchSession γ κ η ρ × Option (Poison ⊕ OpAnswer η)) (q r : List (ℕ × OpBody ω γ η)) :
    settle t y (q ++ r) = settle t (settle t y q) r := by
  induction q generalizing y with
  | nil => rfl
  | cons e q ih => exact ih _

/-- After the queue has been settled, the next number is still to come. -/
theorem lastSeq_settle {y : TorchSession γ κ η ρ × Option (Poison ⊕ OpAnswer η)} {q : List (ℕ × OpBody ω γ η)} {n : ℕ}
    (h : (y.1.lastSeq :: (q.map Prod.fst ++ [n])).Pairwise (· < ·)) : (settle t y q).1.lastSeq < n := by
  induction q generalizing y with
  | nil => exact (List.pairwise_cons.mp h).1 n List.mem_cons_self
  | cons e q ih =>
      obtain ⟨hbefore, hrest⟩ := List.pairwise_cons.mp h
      have hseq : (y.1.execute t e.1 e.2 .fine).1.lastSeq = e.1 := execute_lastSeq (hbefore e.1 List.mem_cons_self)
      refine ih ?_
      rw [hseq]
      exact hrest

/-- The session's own ids only go up. -/
theorem next_le_execute (n : ℕ) (b : OpBody ω γ η) :
    x.nextServerId ≤ (x.execute t n b .fine).1.nextServerId := by
  by_cases hseen : n ≤ x.lastSeq
  · rw [execute, if_pos hseen]
  by_cases hwaits : b.waits = true
  · rw [execute_waited (Nat.lt_of_not_le hseen) hwaits]
    split
    · exact Nat.le_refl _
    · cases b with
      | runSync op refs =>
          show _ ≤ (runSync t _ n op refs .fine).1.nextServerId
          unfold runSync
          dsimp only
          split
          · exact Nat.le_refl _
          · exact Nat.le_refl _
          · -- only a description gives ids
            exact (TorchState.describe_spec _ _ _ _).1
      | download | sync | ack => exact Nat.le_refl _
      | run | upload | free | seed | compile | call | unknown => cases hwaits
  · unfold execute
    rw [if_neg hseen]
    cases b with
    | run op refs outs => exact (next_perform (x := { x with lastSeq := n })).ge
    | call gid refs outs =>
        dsimp only
        unfold call
        dsimp only
        split
        · exact Nat.le_refl _
        · exact Nat.le_refl _
        · exact (next_perform (x := { x with lastSeq := n })).ge
    | upload dst host =>
        dsimp only
        unfold upload
        dsimp only
        split <;> exact Nat.le_refl _
    | free | seed | compile | unknown => exact Nat.le_refl _
    | runSync | download | sync | ack => exact absurd rfl hwaits

/-- The server's ids only go up. -/
theorem next_le_settle (y : TorchSession γ κ η ρ × Option (Poison ⊕ OpAnswer η)) (q : List (ℕ × OpBody ω γ η)) :
    y.1.nextServerId ≤ (settle t y q).1.nextServerId := by
  induction q generalizing y with
  | nil => exact Nat.le_refl _
  | cons e q ih =>
      obtain ⟨n, b⟩ := e
      have hrest := ih ((y.1.execute t n b .fine).1, y.2.or (y.1.execute t n b .fine).2)
      exact (next_le_execute (t := t) n b).trans hrest

/-- A message that is not waited for has no reply. -/
theorem execute_quiet {n : ℕ} {b : OpBody ω γ η} {fate : Fate κ} (hwaits : b.waits = false) :
    (x.execute t n b fate).2 = none := by
  unfold execute
  split
  · rfl
  · cases b with
    | run | upload | free | seed | compile | call | unknown => rfl
    | runSync | download | sync | ack => cases hwaits

/-- A queue of messages that are not waited for leaves the reply as it is. -/
theorem settle_quiet {y : TorchSession γ κ η ρ × Option (Poison ⊕ OpAnswer η)} {q : List (ℕ × OpBody ω γ η)}
    (h : ∀ e ∈ q, e.2.waits = false) : (settle t y q).2 = y.2 := by
  induction q generalizing y with
  | nil => rfl
  | cons e q ih =>
      obtain ⟨n, b⟩ := e
      refine (ih fun e he => h e (List.mem_cons_of_mem _ he)).trans ?_
      show y.2.or (y.1.execute t n b .fine).2 = y.2
      rw [execute_quiet (h (n, b) List.mem_cons_self), Option.or_none]

/-- What is waited for is answered if there is no failure to report. -/
theorem execute_answered {n : ℕ} {b : OpBody ω γ η} {fate : Fate κ} (hn : x.lastSeq < n) (hwaits : b.waits = true)
    (herror : x.firstError = none) : x.execute t n b fate =
      ((waited t { x with lastSeq := n } n fate b).1, replyOf t (waited t { x with lastSeq := n } n fate b).2) := by
  rw [execute_waited hn hwaits]
  split
  · rename_i p hp
    rw [herror] at hp
    cases hp
  · rfl

/-- The arguments of an op can be had if they are tensors. -/
theorem args_of_tensors {st : TorchState κ η ρ} {refs : List TensorId} {hs : List Handle}
    (h : List.Forall₂ (fun id k => st.tensors id = some (.tensor k)) refs hs) :
    args st refs = .inr (hs.map fun k => .tensor k (st.heap k.cell)) := by
  induction h with
  | nil => rfl
  | cons hid _ ih =>
      unfold args
      rw [hid, ih]
      rfl

/-- The session has no failure to report, and its storage, random numbers and graphs are those of the machine. -/
structure Matches (x : TorchSession γ κ η ρ) (d : Direct ω γ κ η ρ) : Prop where
  heap : x.state.heap = d.heap
  rng : x.state.rng = d.rng
  error : x.firstError = none
  graphs : ∀ gid, x.graphs gid = (d.graphs gid).map Sum.inl

variable {d : Direct ω γ κ η ρ} {refs : List TensorId} {hs : List Handle} {n : ℕ}

/-- The arguments that a message names are those of the direct call. -/
theorem Matches.args (h : x.Matches d)
    (hargs : List.Forall₂ (fun id k => x.state.tensors id = some (.tensor k)) refs hs) :
    ∃ as, args x.state refs = .inr as ∧ as.map some = d.argsOf hs := by
  refine ⟨_, args_of_tensors hargs, ?_⟩
  rw [List.map_map, h.heap]
  rfl

/-- An op that does not fail does to the session what it does to the machine. -/
theorem Matches.perform (h : x.Matches d)
    (hargs : List.Forall₂ (fun id k => x.state.tensors id = some (.tensor k)) refs hs) {label : String}
    {effect : List (Option (Arg κ η)) → ρ → Effect κ η ρ} {outs : List (Option TensorId)} {e : Effect κ η ρ}
    (he : effect (d.argsOf hs) d.rng = e) (hlength : e.outs.length = outs.length) :
    x.perform t n label effect refs outs .fine = { x with
      state := TorchState.store ⟨x.state.tensors, (d.perform t n (d.argsOf hs) e).heap, e.rng⟩ outs
        (e.outs.map (TorchState.slotOf n (d.argsOf hs))) } := by
  obtain ⟨as, has, hmap⟩ := h.args hargs
  have hstate : x.state.perform t.blank n (d.argsOf hs) e =
      ⟨x.state.tensors, (d.perform t n (d.argsOf hs) e).heap, e.rng⟩ := by
    rw [TorchState.perform, h.heap]
    rfl
  unfold TorchSession.perform
  rw [has]
  dsimp only
  rw [hmap, h.rng, he, hstate]
  split
  · rename_i hnil
    subst hnil
    rfl
  · rw [if_neg (by rw [List.length_map, hlength]; exact fun hne => hne rfl)]

end TorchSession

namespace Dispatcher

variable {s c : Dispatcher ω γ κ η ρ} {metas metas' : MetaId → Option TensorId} {tensors : TensorId → Option (Slot η)}
  {ms : List MetaId} {hs : List Handle}

/-- The session when it has executed what is queued, and the reply. -/
def settled (t : Torch ω γ κ η ρ) (s : Dispatcher ω γ κ η ρ) : TorchSession γ κ η ρ × Option (Poison ⊕ OpAnswer η) :=
  TorchSession.settle t (s.server, s.reply) s.queue

/-- A meta tensor stands for a tensor of the session. -/
def Stands (metas : MetaId → Option TensorId) (tensors : TensorId → Option (Slot η)) (m : MetaId)
    (h : Handle) : Prop :=
  ∃ id, metas m = some id ∧ tensors id = some (.tensor h)

/-- What a variable has here, and what it has on the machine. -/
inductive Same (metas : MetaId → Option TensorId) (tensors : TensorId → Option (Slot η)) :
    Option (Val η) → Option (Slot η) → Prop
  | nothing : Same metas tensors none none
  | plain (a : η) : Same metas tensors (some (.plain a)) (some (.plain a))
  | tensor {m : MetaId} {h : Handle} :
      Stands metas tensors m h → Same metas tensors (some (.tensor m)) (some (.tensor h))

/-- What is made for the leaves of a result: ids for the new ones, and what the call returns. -/
inductive Aligned (metas : MetaId → Option TensorId) (ms : List MetaId) :
    List (Leaf η) → List (Option TensorId) → List (Option (Val η)) → Prop
  | nil : Aligned metas ms [] [] []
  | new {m : MetaId} {id : TensorId} {ls : List (Leaf η)} {ids : List (Option TensorId)}
      {xs : List (Option (Val η))} :
      metas m = some id → some id ∉ ids → Aligned metas ms ls ids xs →
        Aligned metas ms (.new :: ls) (some id :: ids) (some (.tensor m) :: xs)
  | input (i : ℕ) {ls : List (Leaf η)} {ids : List (Option TensorId)} {xs : List (Option (Val η))} :
      Aligned metas ms ls ids xs → Aligned metas ms (.input i :: ls) (none :: ids) (ms[i]?.map .tensor :: xs)
  | plain (a : η) {ls : List (Leaf η)} {ids : List (Option TensorId)} {xs : List (Option (Val η))} :
      Aligned metas ms ls ids xs → Aligned metas ms (.plain a :: ls) (none :: ids) (some (.plain a) :: xs)
  | nothing {ls : List (Leaf η)} {ids : List (Option TensorId)} {xs : List (Option (Val η))} :
      Aligned metas ms ls ids xs → Aligned metas ms (.none :: ls) (none :: ids) (none :: xs)

/-- There are as many ids as results. -/
theorem Aligned.length {ls : List (Leaf η)} {ids : List (Option TensorId)} {xs : List (Option (Val η))}
    (h : Aligned metas ms ls ids xs) : ids.length = ls.length := by
  induction h with
  | nil => rfl
  | new _ _ _ ih | input _ _ ih | plain _ _ ih | nothing _ ih => simp [ih]

/-- The results stay those of the ids, as long as their tensors keep them. -/
theorem Aligned.mono {ls : List (Leaf η)} {ids : List (Option TensorId)} {xs : List (Option (Val η))}
    (h : Aligned metas ms ls ids xs)
    (hkept : ∀ m id, some (.tensor m) ∈ xs → metas m = some id → metas' m = some id) :
    Aligned metas' ms ls ids xs := by
  induction h with
  | nil => exact .nil
  | new hm hid _ ih =>
      exact .new (hkept _ _ List.mem_cons_self hm) hid (ih fun m id hmem => hkept m id (List.mem_cons_of_mem _ hmem))
  | input i _ ih => exact .input i (ih fun m id hmem => hkept m id (List.mem_cons_of_mem _ hmem))
  | plain a _ ih => exact .plain a (ih fun m id hmem => hkept m id (List.mem_cons_of_mem _ hmem))
  | nothing _ ih => exact .nothing (ih fun m id hmem => hkept m id (List.mem_cons_of_mem _ hmem))

/-- Wrapping the results gives each the id of its leaf. -/
theorem aligned_wrapOutputs (args : List MetaId) (leaves : List (Leaf η)) (hs : s.Ids)
    (hroom : s.nextId + leaves.length ≤ serverIdBase) :
    Aligned (wrapOutputs args s leaves).1.metas args leaves (wrapOutputs args s leaves).2.1
      (wrapOutputs args s leaves).2.2 := by
  induction leaves generalizing s with
  | nil => exact .nil
  | cons leaf leaves ih =>
      rw [List.length_cons] at hroom
      cases leaf with
      | new =>
          have hroom' : s.registerNext.nextId + leaves.length ≤ serverIdBase := by
            change s.nextId + 1 + leaves.length ≤ serverIdBase
            omega
          have hids : s.registerNext.Ids := hs.register_next (by omega)
          obtain ⟨hw, -⟩ := wraps args leaves hids hroom'
          refine .new (hw.kept s.made s.nextId (Function.update_self _ _ _)) (fun hmem => ?_) (ih hids hroom')
          exact Nat.lt_irrefl s.nextId (hw.outs s.nextId hmem).1
      | input i => exact .input i (ih hs (by omega))
      | plain a => exact .plain a (ih hs (by omega))
      | none => exact .nothing (ih hs (by omega))

/-- Each id has the result that it was given for. -/
theorem Aligned.stored {ls : List (Leaf η)} {ids : List (Option TensorId)} {vals : List (Option (Val η))}
    (h : Aligned metas ms ls ids vals) (st : TorchState κ η ρ) (xs : List (Option (Slot η))) {id : TensorId}
    {x : Option (Slot η)} (hmem : (some id, x) ∈ ids.zip xs) : (st.store ids xs).tensors id = x := by
  induction h generalizing st xs with
  | nil => cases hmem
  | @new m i ls ids vals hm hid _ ih =>
      cases xs with
      | nil => cases hmem
      | cons y xs =>
          change (TorchState.store { st with tensors := TorchState.put st.tensors (some i) y } ids xs).tensors id = x
          rcases List.mem_cons.mp hmem with heq | hmem
          · obtain ⟨hid', rfl⟩ := Prod.mk.inj heq
            obtain rfl := Option.some.inj hid'
            rw [TorchState.tensors_store_of_not_mem hid]
            exact Function.update_self _ _ _
          · exact ih _ xs hmem
  | input _ _ ih | plain _ _ ih | nothing _ ih =>
      cases xs with
      | nil => cases hmem
      | cons y xs =>
          rcases List.mem_cons.mp hmem with heq | hmem
          · cases heq
          · exact ih st xs hmem

/-- Where an id was given for a result, there is one. -/
theorem Aligned.kept {ls : List (Leaf η)} {ids : List (Option TensorId)} {vals : List (Option (Val η))}
    (h : Aligned metas ms ls ids vals) {xs : List (Option (Slot η))} (hf : List.Forall₂ (Leaf.Foretells hs) ls xs) :
    ∀ p ∈ ids.zip xs, p.1 ≠ none → p.2 ≠ none := by
  induction h generalizing xs with
  | nil => exact nofun
  | new _ _ _ ih =>
      cases hf with
      | @cons _ y _ ys hy hys =>
          intro p hp hsome
          rcases List.mem_cons.mp hp with rfl | hp
          · rintro rfl
            cases hy
          · exact ih hys p hp hsome
  | input _ _ ih | plain _ _ ih | nothing _ ih =>
      cases hf with
      | @cons _ y _ ys hy hys =>
          intro p hp hsome
          rcases List.mem_cons.mp hp with rfl | hp
          · exact absurd rfl hsome
          · exact ih hys p hp hsome

/-- What is at a place of the one list goes with what is at that place of the other. -/
theorem forall₂_getElem {α β : Type} {R : α → β → Prop} {l : List α} {l' : List β} (h : List.Forall₂ R l l') {i : ℕ}
    {b : β} (hb : l'[i]? = some b) : ∃ a, l[i]? = some a ∧ R a b := by
  induction h generalizing i with
  | nil => cases hb
  | cons hab _ ih =>
      cases i with
      | zero =>
          obtain rfl := Option.some.inj hb
          exact ⟨_, rfl, hab⟩
      | succ i => exact ih hb

/-- What a call returns stands for what comes out of it. -/
theorem Aligned.same {ls : List (Leaf η)} {ids : List (Option TensorId)} {vals : List (Option (Val η))}
    (h : Aligned metas ms ls ids vals) {xs : List (Option (Slot η))} (hf : List.Forall₂ (Leaf.Foretells hs) ls xs)
    (hms : List.Forall₂ (Stands metas tensors) ms hs)
    (hstored : ∀ id y, (some id, y) ∈ ids.zip xs → tensors id = y) : List.Forall₂ (Same metas tensors) vals xs := by
  induction h generalizing xs with
  | nil =>
      cases hf
      exact .nil
  | @new m id ls ids vals hm _ _ ih =>
      cases hf with
      | @cons _ y _ ys hy hys =>
          refine .cons ?_ (ih hys fun id z hz => hstored id z (List.mem_cons_of_mem _ hz))
          rcases y with _ | k | _ | _ <;> try cases hy
          -- a new tensor is under the id that the client chose
          exact .tensor ⟨id, hm, hstored id _ List.mem_cons_self⟩
  | input i _ ih =>
      cases hf with
      | @cons _ y _ ys hy hys =>
          refine .cons ?_ (ih hys fun id z hz => hstored id z (List.mem_cons_of_mem _ hz))
          rcases y with _ | k | _ | _ <;> try cases hy
          -- an input is handed back as what it stands for
          obtain ⟨m, hm, hstands⟩ := forall₂_getElem hms hy
          rw [hm]
          exact .tensor hstands
  | plain a _ ih =>
      cases hf with
      | @cons _ y _ ys hy hys =>
          refine .cons ?_ (ih hys fun id z hz => hstored id z (List.mem_cons_of_mem _ hz))
          rcases y with _ | k | b | _ <;> try cases hy
          exact .plain a
  | nothing _ ih =>
      cases hf with
      | @cons _ y _ ys hy hys =>
          refine .cons ?_ (ih hys fun id z hz => hstored id z (List.mem_cons_of_mem _ hz))
          rcases y with _ | k | _ | _ <;> try cases hy
          exact .nothing

/-- The message for a call. -/
inductive Calls (metas : MetaId → Option TensorId) (ms : List MetaId) (leaves : List (Leaf η)) (gid : ℕ) :
    Job ω γ η → OpBody ω γ η → List (Option (Val η)) → Prop
  | run (op : ω) {outs : List (Option TensorId)} {xs : List (Option (Val η))} :
      Aligned metas ms leaves outs xs → Calls metas ms leaves gid (.run op) (.run op (ms.filterMap metas) outs) xs
  | call (g : ℕ) {outs : List (Option TensorId)} {xs : List (Option (Val η))} :
      Aligned metas ms leaves outs xs → Calls metas ms leaves gid (.call g) (.call g (ms.filterMap metas) outs) xs
  | upload (host : η) {m : MetaId} {id : TensorId} :
      ms = [m] → metas m = some id → Calls metas ms leaves gid (.upload host) (.upload id host) []
  | seed (n : ℕ) : Calls metas ms leaves gid (.seed n) (.seed n) []
  | compile (g : γ) : Calls metas ms leaves gid (.compile g) (.compile gid g) []
  | runSync (op : ω) : Calls metas ms leaves gid (.runSync op) (.runSync op (ms.filterMap metas)) []
  | download {m : MetaId} {id : TensorId} :
      ms = [m] → metas m = some id → Calls metas ms leaves gid .download (.download id) []
  | sync : Calls metas ms leaves gid .sync .sync []

/-- A call that has been prepared asks for what its message says. -/
theorem calls_prepare {job : Job ω γ η} {leaves : List (Leaf η)} {body : OpBody ω γ η} {xs : List (Option (Val η))}
    (hs : s.Ids) (hroom : s.nextId + leaves.length ≤ serverIdBase)
    (h : s.prepare job ms leaves = some (c, body, xs)) :
    Calls c.metas ms leaves s.nextGraph job body xs ∧ (∀ g, job = .call g → g ∈ s.compiled) ∧
      c.nextGraph = s.nextGraph + job.graphIds := by
  have haligned := aligned_wrapOutputs ms leaves hs hroom
  have hgraph : (wrapOutputs ms s leaves).1.nextGraph = s.nextGraph := by rw [(wraps ms leaves hs hroom).1.same]
  unfold prepare at h
  split at h
  · cases h
    exact ⟨.run _ haligned, nofun, hgraph⟩
  · split at h
    · rename_i hmem
      cases h
      refine ⟨.call _ haligned, fun g hg => ?_, hgraph⟩
      cases hg
      exact hmem
    · cases h
  · obtain ⟨id, hid, heq⟩ := Option.map_eq_some_iff.mp h
    cases heq
    exact ⟨.upload _ rfl hid, nofun, rfl⟩
  · cases h
    exact ⟨.seed _, nofun, rfl⟩
  · cases h
    exact ⟨.compile _, nofun, rfl⟩
  · cases h
    exact ⟨.runSync _, nofun, rfl⟩
  · obtain ⟨id, hid, heq⟩ := Option.map_eq_some_iff.mp h
    cases heq
    exact ⟨.download rfl hid, nofun, rfl⟩
  · cases h
    exact ⟨.sync, nofun, rfl⟩
  · cases h

/-- A call still asks for what its message says when other tensors have come. -/
theorem Calls.mono {leaves : List (Leaf η)} {gid : ℕ} {job : Job ω γ η} {body : OpBody ω γ η}
    {xs : List (Option (Val η))} (h : Calls metas ms leaves gid job body xs) (hms : ∀ m ∈ ms, metas' m = metas m)
    (hxs : ∀ m id, some (.tensor m) ∈ xs → metas m = some id → metas' m = some id) :
    Calls metas' ms leaves gid job body xs := by
  have hids : ms.filterMap metas' = ms.filterMap metas := List.filterMap_congr hms
  cases h with
  | run op ha => exact hids ▸ .run op (ha.mono hxs)
  | call g ha => exact hids ▸ .call g (ha.mono hxs)
  | upload host hone hid =>
      subst hone
      exact .upload host rfl ((hms _ List.mem_cons_self).trans hid)
  | seed n => exact .seed n
  | compile g => exact .compile g
  | runSync op => exact hids ▸ .runSync op
  | download hone hid =>
      subst hone
      exact .download rfl ((hms _ List.mem_cons_self).trans hid)
  | sync => exact .sync

/-- A tensor stands for the handle that the session has under its id. -/
theorem Stands.tensor {m : MetaId} {h : Handle} (hm : Stands metas tensors m h) {id : TensorId}
    (hid : metas m = some id) : tensors id = some (.tensor h) := by
  obtain ⟨id', hid', hslot⟩ := hm
  obtain rfl := Option.some.inj (hid.symm.trans hid')
  exact hslot

/-- The ids of arguments are those of the tensors. -/
theorem tensors_idsOf (h : List.Forall₂ (Stands metas tensors) ms hs) :
    List.Forall₂ (fun id k => tensors id = some (.tensor k)) (ms.filterMap metas) hs := by
  induction h with
  | nil => exact .nil
  | @cons m k ms ks hm _ ih =>
      obtain ⟨id, hid, hslot⟩ := hm
      rw [List.filterMap_cons_some hid]
      exact .cons hslot ih

end Dispatcher

namespace Paired

open Dispatcher (Stands Same Aligned Calls)

variable {t : Torch ω γ κ η ρ} {z : Paired ω γ κ η ρ} {c : Dispatcher ω γ κ η ρ} {x : TorchSession γ κ η ρ}
  {d : Direct ω γ κ η ρ} {metas metas' : MetaId → Option TensorId} {tensors tensors' : TensorId → Option (Slot η)}
  {graphs graphs' : ℕ → Option γ}

/-- A call in progress, and the same call on the machine. -/
structure SameCall (metas : MetaId → Option TensorId) (tensors : TensorId → Option (Slot η)) (graphs : ℕ → Option γ)
    (f : CallFrame ω γ η) (g : DirectFrame ω γ η) : Prop where
  targets : g.targets = f.targets
  args : List.Forall₂ (Stands metas tensors) f.args g.args
  calls : Calls metas f.args g.leaves g.gid g.job f.body f.results
  known : ∀ gid, g.job = .call gid → graphs gid ≠ none

/-- What a description stands for. -/
inductive Described (tensors : TensorId → Option (Slot η)) : Description η → Option (Slot η) → Prop
  | tensor {id : TensorId} {h : Handle} (layout : η) :
      tensors id = some (.tensor h) → Described tensors (.tensor id layout) (some (.tensor h))
  | plain (a : η) : Described tensors (.plain a) (some (.plain a))
  | nothing : Described tensors .none none

/-- What a thread is to be given with a reply. -/
def Returned (tensors : TensorId → Option (Slot η)) (targets : List Var) (r : Poison ⊕ OpAnswer η)
    (l : List (Var × Option (Slot η))) : Prop :=
  match r with
  | .inr (.described ds) => ∃ xs, l = targets.zip xs ∧ List.Forall₂ (Described tensors) ds xs
  | _ => l = []

/-- What every step keeps. -/
structure Mirrors (t : Torch ω γ κ η ρ) (z : Paired ω γ κ η ρ) : Prop where
  sound : z.client.Sound
  delivers : ∀ q n b rest, z.client.queue = q ++ (n, b) :: rest →
    (TorchSession.settle t (z.client.server, z.client.reply) q).1.Delivers t n b
  state : (z.client.settled t).1.Matches z.direct
  nextGraph : z.client.nextGraph = z.direct.nextGraph
  compiled : ∀ gid ∈ z.client.compiled, z.direct.graphs gid ≠ none
  vars : ∀ v, Same z.client.metas (z.client.settled t).1.state.tensors (z.client.vars.find v) (z.direct.vars v)
  frames : ∀ th f, z.client.waiting ≠ some th → z.client.frames.find th = some f →
    ∃ g, z.direct.frames th = some g ∧
      SameCall z.client.metas (z.client.settled t).1.state.tensors z.direct.graphs f g
  due : ∀ th, z.client.waiting = some th → ∃ f l told, z.client.frames.find th = some f ∧
    z.direct.due = some (th, l, told) ∧ ∀ r, (z.client.settled t).2 = some r →
      told = Dispatcher.toldOf r ∧ Returned (z.client.settled t).1.state.tensors f.targets r l
  told : z.client.told = z.direct.told

/-! ### One call -/

/-- What a call comes to, for the session that has executed it and for the machine: `d` before, `e` after. -/
structure Executed (t : Torch ω γ κ η ρ) (metas : MetaId → Option TensorId) (x : TorchSession γ κ η ρ) (n : ℕ)
    (th : ThreadNo) (f : CallFrame ω γ η) (d e : Direct ω γ κ η ρ) : Prop where
  state : (x.execute t n f.body .fine).1.Matches e
  delivers : x.Delivers t n f.body
  kept : ∀ (id : ℕ) k, some id ∉ f.body.outs → id < x.nextServerId → x.state.tensors id = some (.tensor k) →
    (x.execute t n f.body .fine).1.state.tensors id = some (.tensor k)
  quiet : f.body.waits = false → (x.execute t n f.body .fine).2 = none ∧ e.due = d.due ∧
    ∃ vals, e.vars = Direct.assignAll d.vars (f.targets.zip vals) ∧
      List.Forall₂ (Same metas (x.execute t n f.body .fine).1.state.tensors) f.results vals
  asked : f.body.waits = true → e.vars = d.vars ∧ ∃ l told, e.due = some (th, l, told) ∧
    ∀ r, (x.execute t n f.body .fine).2 = some r →
      told = Dispatcher.toldOf r ∧ Returned (x.execute t n f.body .fine).1.state.tensors f.targets r l
  graphs : ∀ gid, d.graphs gid ≠ none ∨ gid ∈ f.body.compiles → e.graphs gid ≠ none
  frames : e.frames = Function.update d.frames th none
  rest : e.nextGraph = d.nextGraph ∧ e.told = d.told

variable {n : ℕ} {th : ThreadNo} {f : CallFrame ω γ η} {g : DirectFrame ω γ η} {e : Direct ω γ κ η ρ}

/-- An op, or a graph, that is not waited for. -/
theorem Executed.of_op {a : Effect κ η ρ} {outs : List (Option TensorId)} {leaves : List (Leaf η)} {hs : List Handle}
    (hout : f.body.outs = outs) (hwaits : f.body.waits = false) (hcompiles : f.body.compiles = []) (hm : x.Matches d)
    (haligned : Aligned metas f.args leaves outs f.results)
    (hargs : List.Forall₂ (Stands metas x.state.tensors) f.args hs)
    (hlive : ∀ m ∈ f.args, ∀ id : ℕ, metas m = some id → some id ∉ f.body.outs)
    (hforetold : List.Forall₂ (Leaf.Foretells hs) leaves (a.outs.map (TorchState.slotOf n (d.argsOf hs))))
    (hdelivers : x.Delivers t n f.body)
    (hx : x.execute t n f.body .fine = ({ x with
      lastSeq := n
      state := TorchState.store ⟨x.state.tensors, (d.perform t n (d.argsOf hs) a).heap, a.rng⟩ outs
        (a.outs.map (TorchState.slotOf n (d.argsOf hs))) }, none))
    (he : e = { d.perform t n (d.argsOf hs) a with
      frames := Function.update d.frames th none
      vars := Direct.assignAll d.vars (f.targets.zip (a.outs.map (TorchState.slotOf n (d.argsOf hs)))) }) :
    Executed t metas x n th f d e := by
  subst he hout
  -- an id that is not among the results keeps its tensor
  have hkept : ∀ (id : ℕ) k, some id ∉ f.body.outs → x.state.tensors id = some (.tensor k) →
      (x.execute t n f.body .fine).1.state.tensors id = some (.tensor k) := by
    intro id k hid hslot
    rw [hx]
    exact (TorchState.tensors_store_of_not_mem hid).trans hslot
  refine ⟨?_, hdelivers, fun id k hid _ => hkept id k hid, fun _ => ⟨by rw [hx], rfl, _, rfl, ?_⟩, fun h => ?_,
    fun gid hgid => ?_, rfl, rfl, rfl⟩
  · rw [hx]
    exact ⟨rfl, rfl, hm.error, hm.graphs⟩
  · have hargs' := ((List.forall₂_and_left _ _).mpr ⟨hlive, hargs⟩).imp fun m k ⟨hm, id, hid, hslot⟩ =>
      (⟨id, hid, hkept id k (hm id hid) hslot⟩ : Stands metas (x.execute t n f.body .fine).1.state.tensors m k)
    refine haligned.same hforetold hargs' fun id y hmem => ?_
    rw [hx]
    exact haligned.stored _ _ hmem
  · rw [hwaits] at h
    cases h
  · rw [hcompiles] at hgid
    exact hgid.resolve_right List.not_mem_nil

/-- What is described to a client is what the machine would show. -/
theorem describe_same (st : TorchState κ η ρ) (next : TensorId) {xs : List (Option (Slot η))}
    (hpoison : ∀ p, some (.poison p) ∉ xs) (hheap : e.heap = st.heap) :
    (st.describe t.layout next xs).1.heap = st.heap ∧ (st.describe t.layout next xs).1.rng = st.rng ∧
      (∀ id : ℕ, id < next → (st.describe t.layout next xs).1.tensors id = st.tensors id) ∧
      List.Forall₂ (Described (st.describe t.layout next xs).1.tensors) (st.describe t.layout next xs).2.2 xs ∧
      (st.describe t.layout next xs).2.2.map Dispatcher.leafOf = xs.map (e.leafOf t) := by
  induction xs generalizing st next with
  | nil => exact ⟨rfl, rfl, fun _ _ => rfl, .nil, rfl⟩
  | cons y xs ih =>
      have hrest : ∀ p, some (.poison p) ∉ xs := fun p hp => hpoison p (List.mem_cons_of_mem _ hp)
      cases y with
      | none =>
          obtain ⟨h₁, h₂, h₃, h₄, h₅⟩ := ih st next hrest hheap
          exact ⟨h₁, h₂, h₃, .cons .nothing h₄, congrArg (_ :: ·) h₅⟩
      | some y =>
          cases y with
          | poison p => exact absurd List.mem_cons_self (hpoison p)
          | plain a =>
              obtain ⟨h₁, h₂, h₃, h₄, h₅⟩ := ih st next hrest hheap
              exact ⟨h₁, h₂, h₃, .cons (.plain a) h₄, congrArg (_ :: ·) h₅⟩
          | tensor k =>
              obtain ⟨h₁, h₂, h₃, h₄, h₅⟩ :=
                ih { st with tensors := Function.update st.tensors next (some (.tensor k)) } (next + 1) hrest hheap
              refine ⟨h₁, h₂, fun id hid => ?_, .cons (.tensor _ ?_) h₄, ?_⟩
              · exact (h₃ id (Nat.lt_succ_of_lt hid)).trans (Function.update_of_ne (Nat.ne_of_lt hid) _ _)
              · exact (h₃ next (Nat.lt_succ_self next)).trans (Function.update_self _ _ _)
              · refine List.cons_eq_cons.mpr ⟨?_, h₅⟩
                show (Leaf.new, some (t.layout k (st.heap k.cell))) = (Leaf.new, some (t.layout k (e.heap k.cell)))
                rw [hheap]

/-- What an op that succeeds leaves is no poison. -/
theorem slotOf_ne_poison (n : ℕ) (a : List (Out η)) (as : List (Option (Arg κ η))) (p : Poison) :
    some (.poison p) ∉ a.map (TorchState.slotOf n as) := by
  intro hmem
  obtain ⟨o, -, ho⟩ := List.mem_map.mp hmem
  rcases o with ⟨i | i, view⟩ | v | _
  · obtain ⟨c, -, hc⟩ := Option.map_eq_some_iff.mp ho
    cases hc
  all_goals cases ho

/-- An op that is waited for. -/
theorem runSync_fine (hm : x.Matches d) {refs : List TensorId} {hs : List Handle}
    (hargs : List.Forall₂ (fun id k => x.state.tensors id = some (.tensor k)) refs hs) (op : ω) {D : _}
    (hD : TorchState.describe t.layout ⟨x.state.tensors,
      (d.perform t n (d.argsOf hs) (t.run op (d.argsOf hs) d.rng)).heap, (t.run op (d.argsOf hs) d.rng).rng⟩
        x.nextServerId ((t.run op (d.argsOf hs) d.rng).outs.map (TorchState.slotOf n (d.argsOf hs))) = D) :
    x.runSync t n op refs .fine = ({ x with state := D.1, nextServerId := D.2.1 }, .inr (.described D.2.2)) := by
  obtain ⟨as, has, hmap⟩ := hm.args hargs
  subst hD
  unfold TorchSession.runSync
  dsimp only
  rw [has]
  dsimp only
  rw [hmap, hm.rng, TorchState.perform, hm.heap]
  rfl

/-- A message that changes no tensor and nothing that the application sees. -/
theorem Executed.of_quiet {y : TorchSession γ κ η ρ} (hx : x.execute t n f.body .fine = (y, none)) (hm : y.Matches e)
    (hdelivers : x.Delivers t n f.body) (hwaits : f.body.waits = false) (hresults : f.results = [])
    (htensors : y.state.tensors = x.state.tensors) (hvars : e.vars = d.vars) (hdue : e.due = d.due)
    (hgraphs : ∀ gid, d.graphs gid ≠ none ∨ gid ∈ f.body.compiles → e.graphs gid ≠ none)
    (hframes : e.frames = Function.update d.frames th none) (hrest : e.nextGraph = d.nextGraph ∧ e.told = d.told) :
    Executed t metas x n th f d e := by
  refine ⟨by rwa [hx], hdelivers, fun id k _ _ hslot => ?_, fun _ => ⟨by rw [hx], hdue, [], ?_, ?_⟩, fun h => ?_,
    hgraphs, hframes, hrest⟩
  · rw [hx]
    exact (congrFun htensors id).trans hslot
  · rw [List.zip_nil_right]
    exact hvars
  · rw [hresults]
    exact .nil
  · rw [hwaits] at h
    cases h

/-- A message that is waited for. -/
theorem Executed.of_reply {y : TorchSession γ κ η ρ} {a : OpAnswer η} {l : List (Var × Option (Slot η))}
    (hx : x.execute t n f.body .fine = (y, TorchSession.replyOf t (.inr a))) (hm : y.Matches e)
    (hdelivers : x.Delivers t n f.body) (hwaits : f.body.waits = true) (hcompiles : f.body.compiles = [])
    (htensors : ∀ id : ℕ, id < x.nextServerId → y.state.tensors id = x.state.tensors id) (hvars : e.vars = d.vars)
    (hdue : e.due = some (th, l, Dispatcher.toldOf (.inr a))) (hl : Returned y.state.tensors f.targets (.inr a) l)
    (hgraphs : e.graphs = d.graphs) (hframes : e.frames = Function.update d.frames th none)
    (hrest : e.nextGraph = d.nextGraph ∧ e.told = d.told) : Executed t metas x n th f d e := by
  refine ⟨by rwa [hx], hdelivers, fun id k _ hlt hslot => ?_, fun h => ?_, fun _ =>
    ⟨hvars, l, _, hdue, fun r hr => ?_⟩, fun gid hgid => ?_, hframes, hrest⟩
  · rw [hx]
    exact (htensors id hlt).trans hslot
  · rw [hwaits] at h
    cases h
  · rw [hx] at hr ⊢
    obtain rfl : r = .inr a := by
      unfold TorchSession.replyOf at hr
      dsimp only at hr
      split at hr
      · exact (Option.some.inj hr).symm
      · cases hr
    exact ⟨rfl, hl⟩
  · rw [hgraphs]
    rw [hcompiles] at hgid
    exact hgid.resolve_right List.not_mem_nil

/-- **One call.** The session does with a message what the machine does with the call. -/
theorem executed (hn : x.lastSeq < n) (hm : x.Matches d) (hcall : SameCall metas x.state.tensors d.graphs f g)
    (hlive : ∀ m ∈ f.args, ∀ id : ℕ, metas m = some id → some id ∉ f.body.outs)
    (hforetold : ((∃ op, g.job = .run op) ∨ ∃ gid, g.job = .call gid) →
      List.Forall₂ (Leaf.Foretells g.args) g.leaves (d.results t n g.args g.job)) :
    Executed t metas x n th f d (d.call t n th g) := by
  obtain ⟨body, args, results, targets⟩ := f
  obtain ⟨job, gid, hs, leaves, targets'⟩ := g
  obtain ⟨htargets, hargs, hcalls, hknown⟩ := hcall
  dsimp only at htargets hargs hcalls hknown hlive hforetold
  subst htargets
  have hids := Dispatcher.tensors_idsOf hargs
  have hm' : TorchSession.Matches { x with lastSeq := n } d := ⟨hm.heap, hm.rng, hm.error, hm.graphs⟩
  have hnot : ¬ n ≤ x.lastSeq := Nat.not_le.mpr hn
  -- the tensor that a message about one tensor is about
  have hone : ∀ {m : MetaId} {id : TensorId}, args = [m] → metas m = some id →
      ∃ k, hs = [k] ∧ x.state.tensors id = some (.tensor k) := by
    rintro m id rfl hid
    cases hargs with
    | cons hk hnil =>
        cases hnil
        exact ⟨_, rfl, hk.tensor hid⟩
  cases hcalls with
  | @run op outs xs ha =>
      have hfore := hforetold (.inl ⟨op, rfl⟩)
      have hlength : (t.run op (d.argsOf hs) d.rng).outs.length = outs.length := by
        rw [ha.length, hfore.length_eq]
        exact (List.length_map _).symm
      refine .of_op rfl rfl rfl hm ha hargs hlive hfore (fun as has => ?_) ?_ rfl
      · obtain ⟨as', has', hmap⟩ := hm.args hids
        obtain rfl := Sum.inr.inj (has.symm.trans has')
        rw [TorchSession.Kept, hmap, hm.rng]
        exact ha.kept hfore
      · unfold TorchSession.execute
        rw [if_neg hnot]
        exact congrArg (·, none) (hm'.perform hids rfl hlength)
  | @call g outs xs ha =>
      have hfore := hforetold (.inr ⟨g, rfl⟩)
      obtain ⟨graph, hgraph⟩ := Option.ne_none_iff_exists'.mp (hknown g rfl)
      have hx : x.graphs g = some (.inl graph) := by rw [hm.graphs, hgraph]; rfl
      have heffect : t.call (some graph) (d.argsOf hs) d.rng = d.effect t hs (.call g) := by
        rw [Direct.effect, hgraph]
      have hlength : (d.effect t hs (.call g)).outs.length = outs.length := by
        rw [ha.length, hfore.length_eq]
        exact (List.length_map _).symm
      refine .of_op rfl rfl rfl hm ha hargs hlive hfore (fun graph' as hg has => ?_) ?_ rfl
      · obtain ⟨as', has', hmap⟩ := hm.args hids
        obtain rfl := Sum.inr.inj (has.symm.trans has')
        obtain rfl := Sum.inl.inj (Option.some.inj (hx.symm.trans hg))
        rw [TorchSession.Kept, hmap, hm.rng, heffect]
        exact ha.kept hfore
      · unfold TorchSession.execute
        rw [if_neg hnot]
        unfold TorchSession.call
        dsimp only
        rw [hx]
        exact congrArg (·, none) (hm'.perform hids heffect hlength)
  | upload host hms hid =>
      obtain ⟨k, rfl, hslot⟩ := hone hms hid
      refine .of_quiet (y := { x with
        lastSeq := n
        state := { x.state with
          heap := Function.update x.state.heap k.cell (t.upload host k (x.state.heap k.cell)) } })
        ?_ ⟨?_, hm.rng, hm.error, hm.graphs⟩ trivial rfl rfl rfl rfl rfl
          (fun gid h => h.resolve_right List.not_mem_nil) rfl
        ⟨rfl, rfl⟩
      · unfold TorchSession.execute
        rw [if_neg hnot]
        unfold TorchSession.upload
        dsimp only
        rw [hslot]
      · show Function.update x.state.heap k.cell _ = Function.update d.heap k.cell _
        rw [hm.heap]
  | seed k =>
      refine .of_quiet (y := { x with lastSeq := n, state := { x.state with rng := t.seed k } }) ?_
        ⟨hm.heap, rfl, hm.error, hm.graphs⟩ trivial rfl rfl rfl rfl rfl
          (fun gid h => h.resolve_right List.not_mem_nil) rfl
        ⟨rfl, rfl⟩
      unfold TorchSession.execute
      rw [if_neg hnot]
  | compile gr =>
      refine .of_quiet (y := { x with lastSeq := n, graphs := Function.update x.graphs gid (some (.inl gr)) }) ?_
        ⟨hm.heap, hm.rng, hm.error, fun i => ?_⟩ trivial rfl rfl rfl rfl rfl (fun i h => ?_) rfl ⟨rfl, rfl⟩
      · unfold TorchSession.execute
        rw [if_neg hnot]
        rfl
      · show Function.update x.graphs gid (some (.inl gr)) i = (Function.update d.graphs gid (some gr) i).map Sum.inl
        by_cases hi : i = gid
        · subst hi
          simp
        · rw [Function.update_of_ne hi, Function.update_of_ne hi]
          exact hm.graphs i
      · show Function.update d.graphs gid (some gr) i ≠ none
        by_cases hi : i = gid
        · subst hi
          simp
        · rw [Function.update_of_ne hi]
          exact h.resolve_right fun hmem => hi (List.mem_singleton.mp hmem)
  | runSync op =>
      generalize hD : TorchState.describe t.layout ⟨x.state.tensors,
        (d.perform t n (d.argsOf hs) (t.run op (d.argsOf hs) d.rng)).heap, (t.run op (d.argsOf hs) d.rng).rng⟩
          x.nextServerId ((t.run op (d.argsOf hs) d.rng).outs.map (TorchState.slotOf n (d.argsOf hs))) = D
      have hrun := runSync_fine (x := { x with lastSeq := n }) hm' hids op hD
      obtain ⟨hheap, hrng, hold, hdescribed, hleaves⟩ := describe_same (t := t)
        (e := d.perform t n (d.argsOf hs) (t.run op (d.argsOf hs) d.rng))
        ⟨x.state.tensors, (d.perform t n (d.argsOf hs) (t.run op (d.argsOf hs) d.rng)).heap,
          (t.run op (d.argsOf hs) d.rng).rng⟩ x.nextServerId
        (slotOf_ne_poison n (t.run op (d.argsOf hs) d.rng).outs (d.argsOf hs)) rfl
      rw [hD] at hheap hrng hold hdescribed hleaves
      refine .of_reply (y := { x with lastSeq := n, state := D.1, nextServerId := D.2.1 }) (a := .described D.2.2) ?_
        ⟨hheap, hrng, hm.error, hm.graphs⟩ trivial rfl rfl hold rfl ?_ ⟨_, rfl, hdescribed⟩ rfl rfl ⟨rfl, rfl⟩
      · rw [TorchSession.execute_answered hn rfl hm.error]
        show ((TorchSession.runSync t _ n op (args.filterMap metas) .fine).1,
          TorchSession.replyOf t (TorchSession.runSync t _ n op (args.filterMap metas) .fine).2) = _
        rw [hrun]
      · show some (th, _, Told.leaves _) = some (th, _, Told.leaves _)
        rw [hleaves]
        rfl
  | @download m id hms hid =>
      obtain ⟨k, rfl, hslot⟩ := hone hms hid
      have hdown : TorchSession.download t { x with lastSeq := n } id .fine =
          .inr (.host (t.download k (x.state.heap k.cell))) := by
        unfold TorchSession.download
        dsimp only
        rw [hslot]
      refine .of_reply (y := { x with lastSeq := n }) (a := .host (t.download k (x.state.heap k.cell))) ?_
        ⟨hm.heap, hm.rng, hm.error, hm.graphs⟩ trivial rfl rfl (fun _ _ => rfl) rfl ?_ rfl rfl rfl ⟨rfl, rfl⟩
      · rw [TorchSession.execute_answered hn rfl hm.error]
        show (_, TorchSession.replyOf t (TorchSession.download t _ _ .fine)) = _
        rw [hdown]
        rfl
      · show some (th, [], Told.host _) = some (th, [], Told.host _)
        rw [hm.heap]
  | sync =>
      refine .of_reply (y := { x with lastSeq := n }) (a := .null) ?_
        ⟨hm.heap, hm.rng, hm.error, hm.graphs⟩ trivial rfl rfl (fun _ _ => rfl) rfl rfl rfl rfl rfl ⟨rfl, rfl⟩
      rw [TorchSession.execute_answered hn rfl hm.error]
      rfl

/-! ### Steps -/

/-- A value stays the same as the direct one, as long as its tensor keeps its id and the id its
handle. -/
theorem same_mono {v : Option (Val η)} {y : Option (Slot η)} (h : Same metas tensors v y)
    (hkept : ∀ m id, v = some (.tensor m) → metas m = some id → metas' m = some id)
    (htensors : ∀ m id k, v = some (.tensor m) → metas m = some id → tensors id = some (.tensor k) →
      tensors' id = some (.tensor k)) : Same metas' tensors' v y := by
  cases h with
  | nothing => exact .nothing
  | plain a => exact .plain a
  | tensor hm =>
      obtain ⟨id, hid, hslot⟩ := hm
      exact .tensor ⟨id, hkept _ id rfl hid, htensors _ id _ rfl hid hslot⟩

/-- A tensor that stands for something has an id. -/
theorem named_of_stands {ms : List MetaId} {hs : List Handle} (h : List.Forall₂ (Stands metas tensors) ms hs) :
    ∀ m ∈ ms, ∃ id, metas m = some id := by
  induction h with
  | nil => exact nofun
  | cons hm _ ih =>
      intro m hmem
      rcases List.mem_cons.mp hmem with rfl | hmem
      · exact hm.imp fun _ => And.left
      · exact ih m hmem

/-- A call stays the same as the direct one. -/
theorem SameCall.mono (h : SameCall metas tensors graphs f g)
    (hkept : ∀ m id, m ∈ f.args ∨ some (.tensor m) ∈ f.results → metas m = some id → metas' m = some id)
    (htensors : ∀ m id k, m ∈ f.args → metas m = some id → tensors id = some (.tensor k) →
      tensors' id = some (.tensor k))
    (hgraphs : ∀ gid, graphs gid ≠ none → graphs' gid ≠ none) : SameCall metas' tensors' graphs' f g := by
  refine ⟨h.targets, ?_, h.calls.mono (fun m hm => ?_) fun m id hm => hkept m id (.inr hm), fun gid hg =>
    hgraphs gid (h.known gid hg)⟩
  · refine ((List.forall₂_and_left _ _).mpr ⟨fun _ => id, h.args⟩).imp fun m k ⟨hm, id, hid, hslot⟩ => ?_
    exact ⟨id, hkept m id (.inl hm) hid, htensors m id k hm hid hslot⟩
  · obtain ⟨id, hid⟩ := named_of_stands h.args m hm
    rw [hid]
    exact hkept m id (.inl hm) hid

/-- An id that a tensor has is below what the server hands out next. -/
theorem lt_next (hs : c.Sound) {m : MetaId} {id : ℕ} (hm : c.metas m = some id) :
    id < (c.settled t).1.nextServerId := by
  have hnext : c.server.nextServerId ≤ (c.settled t).1.nextServerId :=
    TorchSession.next_le_settle (c.server, c.reply) c.queue
  rcases hs.given m id hm with h | h
  · exact ((h.trans_le hs.client).trans_le hs.server).trans_le hnext
  · exact h.2.trans_le hnext

/-- Settling a queue with one more message is settling it and then executing that one. -/
theorem settled_push (b : OpBody ω γ η) : (c.push b).settled t =
    (((c.settled t).1.execute t (c.seq + 1) b .fine).1,
      (c.settled t).2.or ((c.settled t).1.execute t (c.seq + 1) b .fine).2) := by
  show TorchSession.settle t (c.server, c.reply) (c.queue ++ [(c.seq + 1, b)]) = _
  rw [TorchSession.settle_append]
  rfl

/-- The number of the next message is above those that have been settled. -/
theorem lastSeq_settled (hs : c.Sound) : (c.settled t).1.lastSeq < c.seq + 1 :=
  TorchSession.lastSeq_settle (y := (c.server, c.reply)) hs.numbers

/-- The split of a queue that has one more. -/
theorem append_eq_append_cons {α : Type} {l q r : List α} {a b : α} (h : l ++ [a] = q ++ b :: r) :
    (q = l ∧ b = a ∧ r = []) ∨ ∃ r', l = q ++ b :: r' := by
  rcases List.eq_nil_or_concat r with rfl | ⟨r', a', rfl⟩
  · obtain ⟨rfl, hab⟩ := List.append_inj' h rfl
    exact .inl ⟨rfl, (List.cons.inj hab).1.symm, rfl⟩
  · rw [List.concat_eq_append, ← List.cons_append, ← List.append_assoc] at h
    obtain ⟨hl, -⟩ := List.append_inj' h rfl
    exact .inr ⟨r', hl⟩

/-- Ids that are freed are not those of anything that is there. -/
theorem Mirrors.queueFrees (hs : z.Mirrors t) (hwaiting : z.client.waiting = none) :
    Mirrors t ⟨z.client.queueFrees, z.direct⟩ := by
  have hsound := hs.sound.queueFrees hwaiting
  unfold Dispatcher.queueFrees at hsound ⊢
  split
  · exact hs
  · rename_i hsome
    rw [if_neg hsome] at hsound
    have hpush := settled_push (t := t) (c := z.client) (.free z.client.pendingFrees)
    have hexec : (z.client.settled t).1.execute t (z.client.seq + 1)
        (.free z.client.pendingFrees : OpBody ω γ η) .fine = ({ (z.client.settled t).1 with
          lastSeq := z.client.seq + 1
          state := (z.client.settled t).1.state.free z.client.pendingFrees }, none) := by
      unfold TorchSession.execute
      rw [if_neg (Nat.not_le.mpr (lastSeq_settled hs.sound))]
    rw [hexec, Option.or_none] at hpush
    -- an id that waits to be freed is no meta tensor's
    have htensors : ∀ m id k, z.client.metas m = some id →
        (z.client.settled t).1.state.tensors id = some (.tensor k) →
          ((z.client.settled t).1.state.free z.client.pendingFrees).tensors id = some (.tensor k) := by
      intro m id k hm hslot
      exact (if_neg (hs.sound.pending m id hm)).trans hslot
    refine ⟨hsound, fun q n b rest hq => ?_, ?_, hs.nextGraph, hs.compiled, fun v => ?_, fun th f hth hf => ?_,
      fun th hth => ?_, hs.told⟩
    · rcases append_eq_append_cons hq with ⟨rfl, heq, rfl⟩ | ⟨r, hr⟩
      · cases heq
        trivial
      · exact hs.delivers q n b r hr
    · show (((z.client.push _).settled t).1).Matches z.direct
      rw [hpush]
      exact ⟨hs.state.heap, hs.state.rng, hs.state.error, hs.state.graphs⟩
    · show Same _ ((z.client.push _).settled t).1.state.tensors _ _
      rw [hpush]
      exact same_mono (hs.vars v) (fun _ _ _ h => h) fun m id k _ => htensors m id k
    · obtain ⟨g, hg, hcall⟩ := hs.frames th f hth hf
      refine ⟨g, hg, ?_⟩
      show SameCall _ ((z.client.push _).settled t).1.state.tensors _ _ _
      rw [hpush]
      exact hcall.mono (fun _ _ _ h => h) (fun m id k _ => htensors m id k) fun _ h => h
    · rw [show z.client.waiting = some th from hth] at hwaiting
      cases hwaiting

/-- What a call returns is given to variables, here and on the machine. -/
theorem same_assignAll {vals : List (Option (Val η))} {ys : List (Option (Slot η))}
    (h : List.Forall₂ (Same metas tensors) vals ys)
    {vars : Table Var (Val η)} {dvars : Var → Option (Slot η)}
    (hvars : ∀ v, Same metas tensors (vars.find v) (dvars v))
    (targets : List Var) (v : Var) : Same metas tensors ((Dispatcher.assignAll vars (targets.zip vals)).find v)
      (Direct.assignAll dvars (targets.zip ys) v) := by
  induction h generalizing vars dvars targets with
  | nil =>
      rw [List.zip_nil_right, List.zip_nil_right]
      exact hvars v
  | @cons val y vals ys hval _ ih =>
      cases targets with
      | nil => exact hvars v
      | cons w targets =>
          rw [List.zip_cons_cons, List.zip_cons_cons]
          cases val with
          | none =>
              refine ih (fun u => ?_) targets
              rw [Table.find_erase, Function.update_apply]
              split
              · exact hval
              · exact hvars u
          | some a =>
              refine ih (fun u => ?_) targets
              rw [Table.find_insert, Function.update_apply]
              split
              · exact hval
              · exact hvars u

/-- A call that is not waited for may end on both sides. -/
theorem Mirrors.eraseFrame (hs : z.Mirrors t) {th : ThreadNo} (hth : z.client.waiting ≠ some th) :
    Mirrors t ⟨{ z.client with frames := z.client.frames.erase th },
      { z.direct with frames := Function.update z.direct.frames th none }⟩ := by
  refine ⟨hs.sound.eraseFrame th, hs.delivers, ⟨hs.state.heap, hs.state.rng, hs.state.error, hs.state.graphs⟩,
    hs.nextGraph, hs.compiled, hs.vars, fun th' f hth' hf => ?_, fun th' hth' => ?_, hs.told⟩
  · change (z.client.frames.erase th).find th' = some f at hf
    rw [Table.find_erase] at hf
    split at hf
    · cases hf
    · rename_i hne
      obtain ⟨g, hg, hcall⟩ := hs.frames th' f hth' hf
      exact ⟨g, (Function.update_of_ne hne _ _).trans hg, hcall⟩
  · obtain ⟨f, l, told, hf, hrest⟩ := hs.due th' hth'
    refine ⟨f, l, told, ?_, hrest⟩
    rw [Table.find_erase_of_ne]
    · exact hf
    · rintro rfl
      exact hth hth'

/-- What is there before a message stays as it is, unless it is a result of the message. -/
theorem Mirrors.keeps (hs : z.Mirrors t) (hf : z.client.frames.find th = some f)
    (hex : Executed t z.client.metas (z.client.settled t).1 (z.client.seq + 1) th f z.direct e) (m : MetaId)
    (id : TensorId) (k : Handle) (hm : z.client.Named m) (hid : z.client.metas m = some id)
    (hslot : (z.client.settled t).1.state.tensors id = some (.tensor k)) :
    ((z.client.push f.body).settled t).1.state.tensors id = some (.tensor k) := by
  obtain ⟨id', hid', hthere⟩ := hm
  obtain rfl := Option.some.inj (hid.symm.trans hid')
  rw [settled_push]
  exact hex.kept id k (fun hout => ((hs.sound.frames th f hf).outs id hout).2 hthere) (lt_next hs.sound hid) hslot

/-- A message that is pushed can be delivered, since the direct call could be executed. -/
theorem Mirrors.delivers_push (hs : z.Mirrors t)
    (hex : Executed t z.client.metas (z.client.settled t).1 (z.client.seq + 1) th f z.direct e)
    (q : List (ℕ × OpBody ω γ η)) (k : ℕ) (b : OpBody ω γ η) (rest : List (ℕ × OpBody ω γ η))
    (hq : (z.client.push f.body).queue = q ++ (k, b) :: rest) :
    (TorchSession.settle t (z.client.server, z.client.reply) q).1.Delivers t k b := by
  rcases append_eq_append_cons hq with ⟨rfl, heq, rfl⟩ | ⟨r, hr⟩
  · cases heq
    exact hex.delivers
  · exact hs.delivers q k b r hr

/-- A call that is not waited for returns before it is executed. -/
theorem Mirrors.post (hs : z.Mirrors t) (hwaiting : z.client.waiting = none) (hwaits : f.body.waits = false)
    (hf : z.client.frames.find th = some f)
    (hex : Executed t z.client.metas (z.client.settled t).1 (z.client.seq + 1) th f z.direct e)
    {c : Dispatcher ω γ κ η ρ}
    (hc : c = { z.client.push f.body with
      frames := z.client.frames.erase th
      vars := Dispatcher.assignAll z.client.vars (f.targets.zip f.results)
      compiled := f.body.compiles ++ z.client.compiled }) (hsound : c.Sound) : Mirrors t ⟨c, e⟩ := by
  subst hc
  obtain ⟨-, -, vals, hvals, hsame⟩ := hex.quiet hwaits
  have hkeep := hs.keeps hf hex
  have hsettled := settled_push (t := t) (c := z.client) f.body
  refine ⟨hsound, hs.delivers_push hex, ?_, hs.nextGraph.trans hex.rest.1.symm, fun gid hgid => ?_, fun v => ?_,
    fun th' f' hth' hf' => ?_, fun th' hth' => ?_, hs.told.trans hex.rest.2.symm⟩
  · show ((z.client.push f.body).settled t).1.Matches e
    rw [hsettled]
    exact hex.state
  · exact hex.graphs gid ((List.mem_append.mp hgid).symm.imp_left fun h => hs.compiled gid h)
  · show Same z.client.metas ((z.client.push f.body).settled t).1.state.tensors
      ((Dispatcher.assignAll z.client.vars (f.targets.zip f.results)).find v) (e.vars v)
    rw [hvals]
    -- the variables get what the direct call returns
    refine same_assignAll (by rw [hsettled]; exact hsame) (fun v => ?_) f.targets v
    exact same_mono (hs.vars v) (fun _ _ _ h => h) fun m id k hv => hkeep m id k (hs.sound.vars v m hv)
  · change (z.client.frames.erase th).find th' = some f' at hf'
    rw [Table.find_erase] at hf'
    split at hf'
    · cases hf'
    · rename_i hne
      obtain ⟨g, hg, hcall⟩ := hs.frames th' f' hth' hf'
      refine ⟨g, by rw [hex.frames]; exact (Function.update_of_ne hne _ _).trans hg, ?_⟩
      exact hcall.mono (fun _ _ _ h => h) (fun m id k hm => hkeep m id k ((hs.sound.frames th' f' hf').args m hm))
        fun gid hgid => hex.graphs gid (.inl hgid)
  · rw [show z.client.waiting = some th' from hth'] at hwaiting
    cases hwaiting

/-- A call that is waited for. -/
theorem Mirrors.ask (hs : z.Mirrors t) (hwaiting : z.client.waiting = none) (hwaits : f.body.waits = true)
    (hf : z.client.frames.find th = some f)
    (hex : Executed t z.client.metas (z.client.settled t).1 (z.client.seq + 1) th f z.direct e)
    {c : Dispatcher ω γ κ η ρ}
    (hc : c = { z.client.push f.body with waiting := some th }) (hsound : c.Sound) : Mirrors t ⟨c, e⟩ := by
  subst hc
  obtain ⟨hvars, l, told, hdue, hreturned⟩ := hex.asked hwaits
  have hkeep := hs.keeps hf hex
  have hsettled := settled_push (t := t) (c := z.client) f.body
  obtain ⟨hreply, hquiet⟩ := hs.sound.idle hwaiting
  -- no reply is due of what is queued ahead of it
  have hnone : (z.client.settled t).2 = none := (TorchSession.settle_quiet hquiet).trans hreply
  refine ⟨hsound, hs.delivers_push hex, ?_, hs.nextGraph.trans hex.rest.1.symm,
    fun gid hgid => hex.graphs gid (.inl (hs.compiled gid hgid)), fun v => ?_, fun th' f' hth' hf' => ?_,
    fun th' hth' => ?_, hs.told.trans hex.rest.2.symm⟩
  · show ((z.client.push f.body).settled t).1.Matches e
    rw [hsettled]
    exact hex.state
  · show Same z.client.metas ((z.client.push f.body).settled t).1.state.tensors (z.client.vars.find v) (e.vars v)
    rw [hvars]
    exact same_mono (hs.vars v) (fun _ _ _ h => h) fun m id k hv => hkeep m id k (hs.sound.vars v m hv)
  · have hne : th' ≠ th := by
      rintro rfl
      exact hth' rfl
    obtain ⟨g, hg, hcall⟩ := hs.frames th' f' (by rw [hwaiting]; exact (Option.some_ne_none _).symm) hf'
    refine ⟨g, by rw [hex.frames]; exact (Function.update_of_ne hne _ _).trans hg, ?_⟩
    exact hcall.mono (fun _ _ _ h => h) (fun m id k hm => hkeep m id k ((hs.sound.frames th' f' hf').args m hm))
      fun gid hgid => hex.graphs gid (.inl hgid)
  · obtain rfl := Option.some.inj (show some th = some th' from hth')
    refine ⟨f, l, told, hf, hdue, fun r hr => ?_⟩
    change ((z.client.push f.body).settled t).2 = some r at hr
    show told = _ ∧ Returned ((z.client.push f.body).settled t).1.state.tensors f.targets r l
    rw [hsettled] at hr ⊢
    rw [hnone, Option.none_or] at hr
    exact hreturned r hr

/-- The arguments of a call stand for those of the call on the machine. -/
theorem stands_resolve (hvars : ∀ v, Same c.metas tensors (c.vars.find v) (d.vars v)) {args : List Var}
    {ms : List MetaId}
    (h : c.resolve args = some ms) : List.Forall₂ (Stands c.metas tensors) ms (args.filterMap d.tensorOf) := by
  induction args generalizing ms with
  | nil =>
      cases h
      exact .nil
  | cons v args ih =>
      rw [Dispatcher.resolve] at h
      split at h
      · rename_i m ms' hv hrest
        cases h
        have hsame := hvars v
        rw [hv] at hsame
        generalize hy : d.vars v = y at hsame
        cases hsame with
        | @tensor _ k hm =>
            have htensor : d.tensorOf v = some k := by rw [Direct.tensorOf, hy]
            rw [List.filterMap_cons_some htensor]
            exact .cons hm (ih hrest)
      · cases h

/-- A call starts on both sides. -/
theorem Mirrors.start (hs : z.Mirrors t) {job : Job ω γ η} {args targets : List Var} {leaves : List (Leaf η)}
    {ms : List MetaId} {body : OpBody ω γ η} {xs : List (Option (Val η))} (hfree : z.client.frames.find th = none)
    (hms : z.client.resolve args = some ms) (hroom : z.client.nextId + leaves.length ≤ serverIdBase)
    (h : z.client.prepare job ms leaves = some (c, body, xs)) :
    Mirrors t ⟨{ c with frames := c.frames.insert th ⟨body, ms, xs, targets⟩ },
      { z.direct with
        nextGraph := z.direct.nextGraph + job.graphIds
        frames := Function.update z.direct.frames th
          (some ⟨job, z.direct.nextGraph, args.filterMap z.direct.tensorOf, leaves, targets⟩) }⟩ := by
  have hsound := hs.sound.start hms hroom h th targets
  have hp := Dispatcher.prepares hs.sound.toIds hroom h
  -- the message calls what the job does, with ids for the leaves
  obtain ⟨hcalls, hknown, hgraph⟩ := Dispatcher.calls_prepare hs.sound.toIds hroom h
  have hkept := hp.kept
  obtain ⟨metas, made, nextId, nextGraph, rfl⟩ : ∃ metas made nextId nextGraph,
      c = { z.client with metas := metas, made := made, nextId := nextId, nextGraph := nextGraph } :=
    ⟨_, _, _, _, hp.same⟩
  refine ⟨hsound, hs.delivers, ⟨hs.state.heap, hs.state.rng, hs.state.error, hs.state.graphs⟩,
    hgraph.trans (congrArg (· + job.graphIds) hs.nextGraph), hs.compiled,
    fun v => same_mono (hs.vars v) (fun m id _ => hkept m id) fun _ _ _ _ _ h => h, fun th' f' hth' hf' => ?_,
    fun th' hth' => ?_, hs.told⟩
  · change (z.client.frames.insert th _).find th' = some f' at hf'
    rw [Table.find_insert] at hf'
    split at hf'
    · rename_i heq
      subst heq
      obtain rfl := Option.some.inj hf'
      refine ⟨_, Function.update_self _ _ _, rfl, ?_, ?_, fun gid hgid => hs.compiled gid (hknown gid hgid)⟩
      · refine (stands_resolve hs.vars hms).imp ?_
        rintro m k ⟨id, hid, hslot⟩
        exact ⟨id, hkept m id hid, hslot⟩
      · rw [← hs.nextGraph]
        exact hcalls
    · rename_i hne
      obtain ⟨g, hg, hcall⟩ := hs.frames th' f' hth' hf'
      refine ⟨g, (Function.update_of_ne hne _ _).trans hg, ?_⟩
      exact hcall.mono (fun m id _ => hkept m id) (fun _ _ _ _ _ h => h) fun _ h => h
  · obtain ⟨f, l, told, hf, hrest⟩ := hs.due th' hth'
    refine ⟨f, l, told, ?_, hrest⟩
    refine (Table.find_insert_of_ne ?_ _ _).trans hf
    rintro rfl
    rw [hfree] at hf
    cases hf

/-- Meta tensors that there are keep their ids when a reply is received. -/
theorem metas_rebuild (ds : List (Description η)) {m : ℕ} (hm : m < c.made) :
    (Dispatcher.rebuild c ds).1.metas m = c.metas m := by
  induction ds generalizing c with
  | nil => rfl
  | cons des ds ih =>
      cases des with
      | tensor id layout =>
          exact (ih (c := c.register id) (Nat.lt_succ_of_lt hm)).trans (Function.update_of_ne (Nat.ne_of_lt hm) _ _)
      | plain a => exact ih hm
      | none => exact ih hm

/-- The tensors of a reply stand for those that are described. -/
theorem same_rebuild {ds : List (Description η)} {ys : List (Option (Slot η))}
    (h : List.Forall₂ (Described tensors) ds ys) :
    List.Forall₂ (Same (Dispatcher.rebuild c ds).1.metas tensors) (Dispatcher.rebuild c ds).2 ys := by
  induction h generalizing c with
  | nil => exact .nil
  | cons hd _ ih =>
      cases hd with
      | @tensor id k layout hslot =>
          refine .cons (.tensor ⟨id, ?_, hslot⟩) ih
          exact (metas_rebuild (c := c.register id) _ (Nat.lt_succ_self c.made)).trans (Function.update_self _ _ _)
      | plain a => exact .cons (.plain a) ih
      | nothing => exact .cons .nothing ih

/-- What a thread is given is the same on the machine. -/
theorem same_received {targets : List Var} {r : Poison ⊕ OpAnswer η} {l : List (Var × Option (Slot η))}
    (h : Returned tensors targets r l) :
    ∃ ys, l = targets.zip ys ∧ List.Forall₂ (Same (c.received r).1.metas tensors) (c.received r).2 ys := by
  have hquiet : l = [] → ∃ ys, l = targets.zip ys ∧ List.Forall₂ (Same c.metas tensors) [] ys := by
    rintro rfl
    exact ⟨[], List.zip_nil_right.symm, .nil⟩
  cases r with
  | inl p => exact hquiet h
  | inr a =>
      cases a with
      | host b => exact hquiet h
      | null => exact hquiet h
      | described ds =>
          obtain ⟨ys, hl, hys⟩ := h
          exact ⟨ys, hl, same_rebuild hys⟩

/-- A call takes its reply, and is told what the direct one was told. -/
theorem Mirrors.answer (hs : z.Mirrors t) {r : Poison ⊕ OpAnswer η} (hwaiting : z.client.waiting = some th)
    (hr : z.client.reply = some r) (hf : z.client.frames.find th = some f) :
    Mirrors t ⟨{ (z.client.received r).1 with
      frames := (z.client.received r).1.frames.erase th
      waiting := none
      reply := none
      vars := Dispatcher.assignAll (z.client.received r).1.vars (f.targets.zip (z.client.received r).2)
      told := (z.client.received r).1.told ++ [Dispatcher.toldOf r] },
      z.direct.step t n (.answer : DispatchAction ω γ κ η)⟩ := by
  -- the reply is the last thing that was queued, so that the session has caught up
  have hnil := hs.sound.queue_nil hr
  have hsettled : ∀ y : TorchSession γ κ η ρ × Option (Poison ⊕ OpAnswer η),
      TorchSession.settle t y z.client.queue = y := by
    intro y
    rw [hnil]
    rfl
  obtain ⟨f', l, told, hf', hdue, hreturned⟩ := hs.due th hwaiting
  obtain rfl := Option.some.inj (hf.symm.trans hf')
  obtain ⟨rfl, hl⟩ := hreturned r ((congrArg Prod.snd (hsettled _)).trans hr)
  obtain ⟨ys, rfl, hys⟩ := same_received (c := z.client) hl
  obtain ⟨new, hrec, -⟩ := hs.sound.received hr
  have hsound := hs.sound.answer hr th f ((z.client.received r).1.told ++ [Dispatcher.toldOf r])
  generalize z.client.received r = y at hrec hsound hys
  obtain ⟨u, xs⟩ := y
  have hkept := hrec.kept
  obtain ⟨metas, made, rfl⟩ : ∃ metas made, u = { z.client with metas := metas, made := made } := ⟨_, _, hrec.same⟩
  -- what was due on the direct side is told there
  have hstep : z.direct.step t n (.answer : DispatchAction ω γ κ η) = { z.direct with
      vars := Direct.assignAll z.direct.vars (f.targets.zip ys)
      due := none
      told := z.direct.told ++ [Dispatcher.toldOf r] } := by
    rw [Direct.step, hdue]
  rw [hstep]
  have hserver : (z.client.settled t).1 = z.client.server := congrArg Prod.fst (hsettled _)
  have hserver' : (TorchSession.settle t (z.client.server, none) z.client.queue).1 = z.client.server :=
    congrArg Prod.fst (hsettled _)
  refine ⟨hsound, fun q k b rest hq => ?_, ?_, hs.nextGraph, hs.compiled, fun v => ?_, fun th' f' _ hf' => ?_,
    fun th' hth' => ?_, congrArg (· ++ [Dispatcher.toldOf r]) hs.told⟩
  · change z.client.queue = _ at hq
    rw [hnil] at hq
    exact absurd hq.symm (by simp)
  · show (TorchSession.settle t (z.client.server, none) z.client.queue).1.Matches _
    rw [hserver', ← hserver]
    exact ⟨hs.state.heap, hs.state.rng, hs.state.error, hs.state.graphs⟩
  · show Same metas (TorchSession.settle t (z.client.server, none) z.client.queue).1.state.tensors _ _
    rw [hserver', ← hserver]
    refine same_assignAll hys (fun v => ?_) f.targets v
    exact same_mono (hs.vars v) (fun m id _ => hkept m id) fun _ _ _ _ _ h => h
  · change (z.client.frames.erase th).find th' = some f' at hf'
    rw [Table.find_erase] at hf'
    split at hf'
    · cases hf'
    · rename_i hne
      have hth' : z.client.waiting ≠ some th' := by
        rw [hwaiting]
        exact fun heq => hne (Option.some.inj heq).symm
      obtain ⟨g, hg, hcall⟩ := hs.frames th' f' hth' hf'
      refine ⟨g, hg, ?_⟩
      show SameCall metas (TorchSession.settle t (z.client.server, none) z.client.queue).1.state.tensors _ _ _
      rw [hserver', ← hserver]
      exact hcall.mono (fun m id _ => hkept m id) (fun _ _ _ _ _ h => h) fun _ h => h
  · cases hth'

/-- A tensor is collected, and nothing on the direct side knows of it. -/
theorem Mirrors.collect (hs : z.Mirrors t) {m : MetaId} {id : TensorId} (hm : z.client.metas m = some id)
    (hfree : ¬ z.client.refersTo m) : Mirrors t ⟨{ z.client with
      metas := Function.update z.client.metas m none
      pendingFrees := z.client.pendingFrees ++ [id] }, z.direct⟩ := by
  have hkept : ∀ m' i, z.client.refersTo m' → z.client.metas m' = some i →
      Function.update z.client.metas m none m' = some i := by
    intro m' i hrefers hi
    rw [Function.update_of_ne]
    · exact hi
    · rintro rfl
      exact hfree hrefers
  refine ⟨hs.sound.collect hm hfree, hs.delivers, hs.state, hs.nextGraph, hs.compiled, fun v => ?_,
    fun th f hth hf => ?_, hs.due, hs.told⟩
  · exact same_mono (hs.vars v) (fun m' i hv => hkept m' i (Dispatcher.refersTo_var hv)) fun _ _ _ _ _ h => h
  · obtain ⟨g, hg, hcall⟩ := hs.frames th f hth hf
    exact ⟨g, hg, hcall.mono (fun m' i hmem => hkept m' i (Dispatcher.refersTo_frame hf hmem)) (fun _ _ _ _ _ h => h)
      fun _ h => h⟩

/-- Variables are set on both sides. -/
theorem Mirrors.setVars (hs : z.Mirrors t) (vars : Table Var (Val η)) (dvars : Var → Option (Slot η))
    (h : ∀ v, Same z.client.metas (z.client.settled t).1.state.tensors (vars.find v) (dvars v))
    (hsound : Dispatcher.Sound { z.client with vars := vars }) :
    Mirrors t ⟨{ z.client with vars := vars }, { z.direct with vars := dvars }⟩ :=
  ⟨hsound, hs.delivers, ⟨hs.state.heap, hs.state.rng, hs.state.error, hs.state.graphs⟩, hs.nextGraph, hs.compiled, h,
    hs.frames, hs.due, hs.told⟩

/-- The session catches up: what it will be when it has executed everything stays the same. -/
theorem Mirrors.execute (hs : z.Mirrors t) {b : OpBody ω γ η} {rest : List (ℕ × OpBody ω γ η)}
    (hq : z.client.queue = (n, b) :: rest) {c : Dispatcher ω γ κ η ρ} (hc : c = { z.client with
      server := (z.client.server.execute t n b .fine).1
      queue := rest
      reply := z.client.reply.or (z.client.server.execute t n b .fine).2 }) (hsound : c.Sound) :
    Mirrors t ⟨c, z.direct⟩ := by
  have hsettled : c.settled t = z.client.settled t := by
    subst hc
    unfold Dispatcher.settled
    rw [hq]
    rfl
  subst hc
  refine ⟨hsound, fun q k b' rest' hrest => ?_, ?_, hs.nextGraph, hs.compiled, fun v => ?_, fun th f hth hf => ?_,
    fun th hth => ?_, hs.told⟩
  · exact hs.delivers ((n, b) :: q) k b' rest' (by rw [hq, show rest = _ from hrest]; rfl)
  · rw [hsettled]
    exact hs.state
  · rw [hsettled]
    exact hs.vars v
  · rw [hsettled]
    exact hs.frames th f hth hf
  · rw [hsettled]
    exact hs.due th hth

/-- What is called is executed by the session, in time, as the machine executes it. -/
theorem Mirrors.called (hs : z.Mirrors t) (hwaiting : z.client.waiting = none) (hf : z.client.frames.find th = some f)
    (hg : z.direct.frames th = some g)
    (hforetold : ((∃ op, g.job = .run op) ∨ ∃ gid, g.job = .call gid) → List.Forall₂ (Leaf.Foretells g.args) g.leaves
      (z.direct.results t (z.client.seq + 1) g.args g.job)) :
    Executed t z.client.metas (z.client.settled t).1 (z.client.seq + 1) th f z.direct
      (z.direct.call t (z.client.seq + 1) th g) := by
  obtain ⟨g', hg', hcall⟩ := hs.frames th f (by rw [hwaiting]; exact (Option.some_ne_none _).symm) hf
  obtain rfl := Option.some.inj (hg.symm.trans hg')
  have hfit := hs.sound.frames th f hf
  refine executed (lastSeq_settled hs.sound) hs.state hcall (fun m hm id hid hout => ?_) hforetold
  obtain ⟨id', hid', hthere⟩ := hfit.args m hm
  obtain rfl := Option.some.inj (hid.symm.trans hid')
  exact (hfit.outs id hout).2 hthere

variable [DecidableEq η]

/-- **Every step along `Foretold` keeps the two alike.** -/
theorem Mirrors.step (hs : z.Mirrors t) {a : DispatchAction ω γ κ η} (ha : z.Foretold t a) {z' : Paired ω γ κ η ρ}
    (hstep : z.step t a = some z') : z'.Mirrors t := by
  obtain ⟨c, hc, rfl⟩ := Option.map_eq_some_iff.mp hstep
  have hplain : z.client.Plain t a := by
    cases a with
    | start => exact ha
    | execute fate => exact fun n b rest hq => hs.delivers [] n b rest hq
    | abandon | send | answer | assign | forget | collect => trivial
  have hsound := hs.sound.step hplain hc
  -- what the session does by itself is no step of the direct side
  cases a with
  | start th job args leaves targets =>
      unfold Dispatcher.step at hc
      dsimp only at hc
      split at hc
      · rename_i ms hfree hms
        split at hc
        · rename_i u body xs hprep
          obtain rfl := Option.some.inj hc
          exact hs.start hfree hms ha hprep
        · cases hc
      · cases hc
  | abandon th freed =>
      unfold Dispatcher.step at hc
      dsimp only at hc
      split at hc
      · split at hc
        · rename_i hwaiting
          obtain rfl := Option.some.inj hc
          split
          · have hq := hs.queueFrees hwaiting
            have hth : z.client.queueFrees.waiting ≠ some th := by
              rw [Dispatcher.queueFrees_same, show z.client.waiting = none from hwaiting]
              exact (Option.some_ne_none _).symm
            have h := hq.eraseFrame hth
            rwa [show z.client.queueFrees.frames = z.client.frames by rw [Dispatcher.queueFrees_same]] at h
          · exact hs.eraseFrame (by rw [hwaiting]; exact (Option.some_ne_none _).symm)
        · split at hc
          · rename_i hne
            obtain rfl := Option.some.inj hc
            exact hs.eraseFrame hne.1
          · cases hc
      · cases hc
  | send th =>
      unfold Dispatcher.step at hc
      dsimp only at hc
      split at hc
      · rename_i f hf hwaiting
        have hq := hs.queueFrees hwaiting
        have hf' : z.client.queueFrees.frames.find th = some f := by rwa [Dispatcher.queueFrees_same]
        have hwaiting' : z.client.queueFrees.waiting = none := by rwa [Dispatcher.queueFrees_same]
        obtain ⟨g, hg, -⟩ := hq.frames th f (by rw [hwaiting']; exact (Option.some_ne_none _).symm) hf'
        have hex := hq.called hwaiting' hf' hg (ha g hg)
        have hcall : ∀ k, z.direct.step t k (.send th : DispatchAction ω γ κ η) = z.direct.call t k th g := by
          intro k
          rw [Direct.step, show z.direct.frames th = some g from hg]
        rw [hcall]
        split at hc
        · rename_i hwaits
          obtain rfl := Option.some.inj hc
          exact hq.ask hwaiting' hwaits hf' hex rfl hsound
        · rename_i hwaits
          obtain rfl := Option.some.inj hc
          exact hq.post hwaiting' (by simpa using hwaits) hf' hex rfl hsound
      · cases hc
  | execute fate =>
      unfold Dispatcher.step at hc
      dsimp only at hc
      split at hc
      · cases hc
      · rename_i n b rest hq
        obtain rfl : fate = .fine := ha
        obtain rfl := Option.some.inj hc
        exact hs.execute hq rfl hsound
  | answer =>
      unfold Dispatcher.step at hc
      dsimp only at hc
      split at hc
      · rename_i th r hwaiting hr
        split at hc
        · rename_i f hf
          obtain rfl := Option.some.inj hc
          exact hs.answer hwaiting hr hf
        · cases hc
      · cases hc
  | assign v w =>
      unfold Dispatcher.step at hc
      dsimp only at hc
      split at hc
      · rename_i val hval
        obtain rfl := Option.some.inj hc
        refine hs.setVars _ _ (fun u => ?_) hsound
        rw [Table.find_insert, Function.update_apply]
        split
        · rw [← hval]
          exact hs.vars w
        · exact hs.vars u
      · cases hc
  | forget v =>
      obtain rfl := Option.some.inj hc
      refine hs.setVars _ _ (fun u => ?_) hsound
      rw [Table.find_erase, Function.update_apply]
      split
      · exact .nothing
      · exact hs.vars u
  | collect m =>
      unfold Dispatcher.step at hc
      dsimp only at hc
      split at hc
      · rename_i id hm
        split at hc
        · cases hc
        · rename_i hfree
          obtain rfl := Option.some.inj hc
          exact hs.collect hm hfree
      · cases hc

omit [DecidableEq η] in
/-- The two sides are alike at the beginning. -/
theorem mirrors_begin (heap : Cell → κ) (rng : ρ) : (begin heap rng : Paired ω γ κ η ρ).Mirrors t := by
  refine ⟨Dispatcher.sound_begin heap rng, fun q n b rest hq => ?_, ⟨rfl, rfl, rfl, fun _ => rfl⟩, rfl, nofun,
    fun _ => .nothing, fun th f _ hf => ?_, fun th hth => ?_, rfl⟩
  · exact absurd hq (by simp [begin])
  · cases hf
  · cases hth

/-- **Streaming changes nothing.** Where no op fails and meta kernels are right: whatever threads call, keep and drop,
and however far the session is behind, the application is told what a machine tells it that executes every call on the
spot. The `ACK`s of `_append` are left out (`push`); they tell the application nothing. -/
theorem told_as_direct (t : Torch ω γ κ η ρ) (heap : Cell → κ) (rng : ρ) (as : List (DispatchAction ω γ κ η))
    (z : Paired ω γ κ η ρ) (hforetold : Along (step t) (Foretold t) (begin heap rng) as)
    (hrun : run (step t) (begin heap rng) as = some z) : z.client.told = z.direct.told := by
  have hmirrors : Always (step t) (Foretold t) (begin heap rng) (Mirrors t) :=
    .of_step (mirrors_begin heap rng) fun _ _ _ hs ha hstep => hs.step ha hstep
  exact (hmirrors as z hforetold hrun).told

/-- A tensor is made, filled, added to in place and dropped under its first name, and downloaded under the other; the
session begins when everything is queued. -/
def behind : List (DispatchAction PoisonedRun.NumberOp Unit ℕ ℕ) :=
  [.start 0 (.run .empty) [] [.new] [0], .send 0, .start 0 (.upload 5) [0] [] [], .send 0,
    .start 0 (.run .addOne) [0] [.input 0] [1], .send 0, .forget 0, .start 1 .download [1] [] [], .send 1,
    .execute .fine, .execute .fine, .execute .fine, .execute .fine, .answer]

/-- The run below is along `Foretold`. -/
theorem foretold_behind :
    Along (step PoisonedRun.numbers) (Foretold PoisonedRun.numbers) (begin (fun _ => 0) 0) behind := by
  have hroom : 2 + 0 ≤ serverIdBase := by decide
  refine ⟨show 1 + 1 ≤ serverIdBase by decide, fun f hf _ => ?_, hroom, fun f hf hjob => ?_,
    show 2 + 1 ≤ serverIdBase by decide, fun f hf _ => ?_, trivial, hroom, fun f hf hjob => ?_, rfl, rfl, rfl, rfl,
    trivial, trivial⟩
  · cases hf
    exact .cons trivial .nil
  · cases hf
    rcases hjob with ⟨_, h⟩ | ⟨_, h⟩ <;> cases h
  · cases hf
    exact .cons rfl .nil
  · cases hf
    rcases hjob with ⟨_, h⟩ | ⟨_, h⟩ <;> cases h

/-- The session is two messages behind, and the application is told what it would be told at once. -/
theorem told_as_direct_behind : ∃ z, run (step PoisonedRun.numbers) (begin (fun _ => 0) 0) behind = some z ∧
    z.direct.told = [.host 6] := by
  have htold : (run (step PoisonedRun.numbers) (begin (fun _ => 0) 0) behind).map (fun z => z.client.told) =
      some [.host 6] := rfl
  obtain ⟨z, hz, heq⟩ := Option.map_eq_some_iff.mp htold
  exact ⟨z, hz, (told_as_direct PoisonedRun.numbers (fun _ => 0) 0 behind z foretold_behind hz).symm.trans heq⟩

end Paired

end Rgpu
