import Rgpu.Foundations.StepSystem
import Rgpu.Python.TorchSession

/-! # Poison

A failed op poisons the ids its results were to have, and an op that is given poison is skipped. What an
op writes to its arguments has no id of its own, so that nothing is poisoned when it is not written.

* **`Agree`** — what is not poisoned is what it would be if every op succeeded.
* **`PoisonedRun`** — a session, and beside it the one in which every op succeeds.
* **`PoisonedRun.answers_are_unfailing`** — for every run in which what fails or is skipped leaves no
  unpoisoned tensor that it should have written.
* **`PoisonedRun.stale_after_failed_write`** — a run in which it does. -/

namespace Rgpu

open Foundations

variable {ω γ κ η ρ : Type}

/-! ## A session that is poisoned and one that is not -/

namespace TorchState

variable {st ti : TorchState κ η ρ} {n seq : ℕ}

/-- Every tensor and value that is not poisoned in `st` is the same in `ti`; `n` is the last message. -/
structure Agree (n : ℕ) (st ti : TorchState κ η ρ) : Prop where
  tensor : ∀ id h, st.tensors id = some (.tensor h) →
    ti.tensors id = some (.tensor h) ∧ ti.heap h.cell = st.heap h.cell ∧ h.cell.made ≤ n
  plain : ∀ id v, st.tensors id = some (.plain v) → ti.tensors id = some (.plain v)
  rng : ti.rng = st.rng

/-- What an op that is not performed leaves: its ids poisoned, and perhaps some storage written to. -/
structure Poisoned (st st' : TorchState κ η ρ) (ids : List (Option TensorId)) (cells : List Cell) : Prop where
  kept : ∀ id, some id ∉ ids → st'.tensors id = st.tensors id
  poison : ∀ id, some id ∈ ids → ∃ p, st'.tensors id = some (.poison p)
  heap : ∀ c ∉ cells, st'.heap c = st.heap c
  rng : st'.rng = st.rng

/-- A leaf about to be kept: its storage has the same contents in both. -/
def Known (n : ℕ) (st ti : TorchState κ η ρ) (x : Option (Slot η)) : Prop :=
  ∀ h, x = some (.tensor h) → ti.heap h.cell = st.heap h.cell ∧ h.cell.made ≤ n

/-- What agrees up to some message agrees up to a later one. -/
theorem Agree.mono (h : st.Agree n ti) {m : ℕ} (hle : n ≤ m) : st.Agree m ti :=
  ⟨fun id x hx => ⟨(h.tensor id x hx).1, (h.tensor id x hx).2.1, Nat.le_trans (h.tensor id x hx).2.2 hle⟩, h.plain, h.rng⟩

/-! ### Writing and storing keep them alike -/

section Writing

variable {heap heap' : Cell → κ} {args : List (Option (Arg κ η))} {ws : List (ℕ × κ)} {c : Cell}

/-- What is written does not depend on what was there. -/
theorem write_congr (h : heap c = heap' c) : write heap args ws c = write heap' args ws c := by
  unfold write
  induction ws generalizing heap heap' with
  | nil => exact h
  | cons w ws ih =>
      rw [List.foldl_cons, List.foldl_cons]
      refine ih ?_
      cases cellOf args w.1 with
      | none => exact h
      | some c' =>
          dsimp only
          rw [Function.update_apply, Function.update_apply, h]

/-- Nothing else is written to. -/
theorem write_of_not_mem (h : c ∉ ws.filterMap fun w => cellOf args w.1) : write heap args ws c = heap c := by
  unfold write
  induction ws generalizing heap with
  | nil => rfl
  | cons w ws ih =>
      rw [List.foldl_cons]
      rw [List.filterMap_cons] at h
      split at h
      · rename_i hnone
        rw [ih h]
        simp only [hnone]
      · rename_i c' hsome
        rw [List.mem_cons, not_or] at h
        rw [ih h.2]
        simp only [hsome]
        exact Function.update_of_ne h.1 _ _

end Writing

section Keeping

variable {ids : List (Option TensorId)} {xs : List (Option (Slot η))} {id : TensorId}

/-- Filling a slot fills no other. -/
theorem put_of_ne {tensors : TensorId → Option (Slot η)} {o : Option TensorId} (h : some id ≠ o)
    (x : Option (Slot η)) : put tensors o x id = tensors id := by
  cases o with
  | none => rfl
  | some i => exact Function.update_of_ne (fun heq => h (congrArg some heq)) _ _

/-- An id that is not given anything keeps what it has. -/
theorem tensors_store_of_not_mem (h : some id ∉ ids) : (st.store ids xs).tensors id = st.tensors id := by
  unfold store
  dsimp only
  generalize st.tensors = tensors
  induction ids generalizing xs tensors with
  | nil => rfl
  | cons o ids ih =>
      rw [List.mem_cons, not_or] at h
      cases xs with
      | nil => rfl
      | cons x xs =>
          rw [List.zip_cons_cons, List.foldl_cons, ih h.2]
          exact put_of_ne h.1 x

/-- Poisoning leaves the slots it does not name. -/
theorem tensors_poison_of_not_mem (h : some id ∉ ids) (p : Poison) :
    (st.poison ids p).tensors id = st.tensors id := by
  unfold poison
  dsimp only
  generalize st.tensors = tensors
  induction ids generalizing tensors with
  | nil => rfl
  | cons o ids ih =>
      rw [List.mem_cons, not_or] at h
      rw [List.foldl_cons, ih h.2]
      exact put_of_ne h.1 _

/-- An id that is poisoned is poison. -/
theorem tensors_poison_of_mem (h : some id ∈ ids) (p : Poison) :
    (st.poison ids p).tensors id = some (.poison p) := by
  unfold poison
  dsimp only
  generalize st.tensors = tensors
  induction ids generalizing tensors with
  | nil => cases h
  | cons o ids ih =>
      rw [List.foldl_cons]
      by_cases hrest : some id ∈ ids
      · exact ih hrest _
      · obtain rfl := (List.mem_cons.mp h).resolve_right hrest
        have hlast : (TorchState.poison ⟨put tensors (some id) (some (.poison p)), st.heap, st.rng⟩ ids p).tensors
            id = _ := tensors_poison_of_not_mem hrest p
        exact hlast.trans (Function.update_self _ _ _)

/-- What is freed is gone from both. -/
theorem Agree.free (h : st.Agree n ti) (ids : List TensorId) : (st.free ids).Agree n (ti.free ids) := by
  refine ⟨fun id k hk => ?_, fun id v hv => ?_, h.rng⟩
  · simp only [TorchState.free] at hk ⊢
    split at hk
    · cases hk
    · rename_i hid
      rw [if_neg hid]
      exact h.tensor id k hk
  · simp only [TorchState.free] at hv ⊢
    split at hv
    · cases hv
    · rename_i hid
      rw [if_neg hid]
      exact h.plain id v hv

/-- What an id is given, when ids are given the same in both. -/
theorem Agree.store (h : st.Agree n ti) (hxs : ∀ x ∈ xs, Known n st ti x) :
    (st.store ids xs).Agree n (ti.store ids xs) := by
  -- along the two lists, the tensors go on agreeing; the rest stays as it is
  have hfold : ∀ (ids : List (Option TensorId)) (xs : List (Option (Slot η)))
      (tensors tensors' : TensorId → Option (Slot η)), (∀ x ∈ xs, Known n st ti x) →
      Agree n { st with tensors := tensors } { ti with tensors := tensors' } →
      Agree n { st with tensors := (ids.zip xs).foldl (fun t p => put t p.1 p.2) tensors }
        { ti with tensors := (ids.zip xs).foldl (fun t p => put t p.1 p.2) tensors' } := by
    intro ids
    induction ids with
    | nil => exact fun xs tensors tensors' _ h => h
    | cons o ids ih =>
        intro xs tensors tensors' hxs h
        cases xs with
        | nil => exact h
        | cons x xs =>
            rw [List.zip_cons_cons, List.foldl_cons, List.foldl_cons]
            refine ih xs _ _ (fun x hx => hxs x (List.mem_cons_of_mem _ hx)) ?_
            cases o with
            | none => exact h
            | some i =>
                refine ⟨fun id k hk => ?_, fun id v hv => ?_, h.rng⟩
                · simp only [put, Function.update_apply] at hk ⊢
                  split at hk
                  · rename_i hid
                    obtain ⟨heq, hle⟩ := hxs x List.mem_cons_self k hk
                    exact ⟨by rw [if_pos hid, hk], heq, hle⟩
                  · rename_i hid
                    rw [if_neg hid]
                    exact h.tensor id k hk
                · simp only [put, Function.update_apply] at hv ⊢
                  split at hv
                  · rename_i hid
                    rw [if_pos hid, hv]
                  · rename_i hid
                    rw [if_neg hid]
                    exact h.plain id v hv
  exact hfold ids xs st.tensors ti.tensors hxs h

end Keeping

/-! ### An op both perform -/

section Performing

variable {ids : List TensorId} {as : List (Arg κ η)}

/-- Arguments that can be had are the same in both. -/
theorem Agree.arg (h : st.Agree n ti) {id : TensorId} {a : Arg κ η} (ha : st.arg id = some a) :
    ti.arg id = some a := by
  unfold TorchState.arg at ha ⊢
  cases hx : st.tensors id with
  | none =>
      rw [hx] at ha
      cases ha
  | some x =>
      rw [hx] at ha
      cases x with
      | tensor k =>
          obtain ⟨hti, hcell, -⟩ := h.tensor id k hx
          rw [hti]
          dsimp only at ha ⊢
          rw [hcell]
          exact ha
      | plain v =>
          rw [h.plain id v hx]
          exact ha
      | poison p => cases ha

/-- The arguments of an op, when all can be had. -/
theorem args_eq (h : TorchSession.args st ids = .inr as) : as.map some = ids.map st.arg := by
  induction ids generalizing as with
  | nil =>
      obtain rfl := Sum.inr.inj h
      rfl
  | cons id ids ih =>
      unfold TorchSession.args at h
      rw [List.map_cons]
      split at h
      · cases h
      · cases h
      · rename_i k hx
        have harg : st.arg id = some (.tensor k (st.heap k.cell)) := by
          unfold TorchState.arg
          rw [hx]
        split at h
        · cases h
        · rename_i bs hbs
          obtain rfl := Sum.inr.inj h
          rw [harg, List.map_cons, ih hbs]
      · rename_i v hx
        have harg : st.arg id = some (.plain v) := by
          unfold TorchState.arg
          rw [hx]
        split at h
        · cases h
        · rename_i bs hbs
          obtain rfl := Sum.inr.inj h
          rw [harg, List.map_cons, ih hbs]

/-- The arguments of an op that finds them all are the same in the other session. -/
theorem Agree.args (h : st.Agree n ti) (has : TorchSession.args st ids = .inr as) :
    ids.map ti.arg = as.map some := by
  have heq := args_eq has
  have hall : ∀ id ∈ ids, ∃ a, st.arg id = some a := by
    intro id hid
    have hmem : st.arg id ∈ as.map some := heq ▸ List.mem_map_of_mem hid
    obtain ⟨a, -, ha⟩ := List.mem_map.mp hmem
    exact ⟨a, ha.symm⟩
  rw [heq]
  refine List.map_congr_left fun id hid => ?_
  obtain ⟨a, ha⟩ := hall id hid
  rw [ha, h.arg ha]

/-- The storage of an argument is that of a tensor. -/
theorem cellOf_map_arg {i : ℕ} {c : Cell} (h : cellOf (ids.map st.arg) i = some c) :
    ∃ id k, st.tensors id = some (.tensor k) ∧ k.cell = c := by
  unfold cellOf at h
  split at h
  · rename_i k v hget
    rw [List.getElem?_map] at hget
    obtain ⟨id, -, ha⟩ := Option.map_eq_some_iff.mp hget
    refine ⟨id, k, ?_, Option.some.inj h⟩
    unfold TorchState.arg at ha
    split at ha
    · rename_i k' hk'
      rw [hk']
      simp only [Option.some.injEq, Arg.tensor.injEq] at ha
      rw [ha.1]
    · cases ha
    all_goals cases ha
  · cases h

variable {blank : κ} {f : Effect κ η ρ}

/-- **An op that succeeds** on the same arguments does the same in both. -/
theorem Agree.perform (h : st.Agree n ti) (blank : κ) (seq : ℕ) (f : Effect κ η ρ)
    (args : List (Option (Arg κ η))) :
    (st.perform blank seq args f).Agree n (ti.perform blank seq args f) := by
  refine ⟨fun id k hk => ⟨(h.tensor id k hk).1, ?_, (h.tensor id k hk).2.2⟩, h.plain, rfl⟩
  simp only [TorchState.perform]
  rw [write_congr (h.tensor id k hk).2.1]

/-- What it returns is on storage with the same contents. -/
theorem Agree.known_slotOf (h : st.Agree n ti) (hn : n ≤ seq) {ids : List TensorId} (o : Out η) :
    Known seq (st.perform blank seq (ids.map st.arg) f) (ti.perform blank seq (ids.map st.arg) f)
      (slotOf seq (ids.map st.arg) o) := by
  intro k hk
  simp only [TorchState.perform]
  unfold slotOf at hk
  split at hk
  · obtain ⟨c, hc, heq⟩ := Option.map_eq_some_iff.mp hk
    obtain ⟨id, k', hk', rfl⟩ := cellOf_map_arg hc
    obtain ⟨-, hcell, hmade⟩ := h.tensor id k' hk'
    obtain rfl := Slot.tensor.inj heq
    exact ⟨by rw [write_congr hcell], Nat.le_trans hmade hn⟩
  · obtain rfl := Slot.tensor.inj (Option.some.inj hk)
    exact ⟨by simp, Nat.le_refl _⟩
  · cases hk
  · cases hk

/-- **An op that is not performed** in `st`: what it should have written, or did write, belongs to no
tensor that is still unpoisoned. -/
theorem Agree.miss (h : st.Agree n ti) {st' ti' : TorchState κ η ρ} {outs : List (Option TensorId)}
    {cells : List Cell} (hp : st.Poisoned st' outs cells)
    (htensors : ∀ id, some id ∉ outs → ti'.tensors id = ti.tensors id)
    (hheap : ∀ id k, some id ∉ outs → st.tensors id = some (.tensor k) →
      k.cell ∉ cells ∧ ti'.heap k.cell = ti.heap k.cell)
    (hrng : ti'.rng = ti.rng) : st'.Agree n ti' := by
  refine ⟨fun id k hk => ?_, fun id v hv => ?_, by rw [hp.rng, hrng, h.rng]⟩
  · by_cases hid : some id ∈ outs
    · obtain ⟨p, hpoison⟩ := hp.poison id hid
      rw [hpoison] at hk
      cases hk
    · rw [hp.kept id hid] at hk
      obtain ⟨hti, hcell, hmade⟩ := h.tensor id k hk
      obtain ⟨hnot, hti'⟩ := hheap id k hid hk
      rw [htensors id hid, hp.heap _ hnot, hti']
      exact ⟨hti, hcell, hmade⟩
  · by_cases hid : some id ∈ outs
    · obtain ⟨p, hpoison⟩ := hp.poison id hid
      rw [hpoison] at hv
      cases hv
    · rw [hp.kept id hid] at hv
      rw [htensors id hid]
      exact h.plain id v hv

/-- Poisoning poisons what it names. -/
theorem poisoned_poison (outs : List (Option TensorId)) (p : Poison) (cells : List Cell) :
    st.Poisoned (st.poison outs p) outs cells :=
  ⟨fun _ hid => tensors_poison_of_not_mem hid p, fun _ hid => ⟨p, tensors_poison_of_mem hid p⟩,
    fun _ _ => rfl, rfl⟩

/-- Poisoning after something has been written poisons what it names. -/
theorem poisoned_write (outs : List (Option TensorId)) (p : Poison) (args : List (Option (Arg κ η)))
    (ws : List (ℕ × κ)) :
    st.Poisoned (TorchState.poison { st with heap := write st.heap args ws } outs p) outs
      (ws.filterMap fun w => cellOf args w.1) :=
  ⟨fun _ hid => tensors_poison_of_not_mem hid p, fun _ hid => ⟨p, tensors_poison_of_mem hid p⟩,
    fun _ hc => write_of_not_mem hc, rfl⟩

/-- Results that are given ids by the server are given the same ones, and described the same way. -/
theorem Agree.describe (layout : Handle → κ → η) (h : st.Agree n ti) (next : TensorId)
    {xs : List (Option (Slot η))} (hxs : ∀ x ∈ xs, Known n st ti x) :
    (st.describe layout next xs).1.Agree n (ti.describe layout next xs).1 ∧
      (st.describe layout next xs).2 = (ti.describe layout next xs).2 := by
  induction xs generalizing st ti next with
  | nil => exact ⟨h, rfl⟩
  | cons x xs ih =>
      have hrest : ∀ x ∈ xs, Known n st ti x := fun x hx => hxs x (List.mem_cons_of_mem _ hx)
      cases x with
      | none =>
          obtain ⟨hagree, heq⟩ := ih h next hrest
          simp only [TorchState.describe]
          exact ⟨hagree, congrArg (fun p => (p.1, Description.none :: p.2)) heq⟩
      | some x =>
          cases x with
          | poison p =>
              obtain ⟨hagree, heq⟩ := ih h next hrest
              simp only [TorchState.describe]
              exact ⟨hagree, congrArg (fun p => (p.1, Description.none :: p.2)) heq⟩
          | plain v =>
              obtain ⟨hagree, heq⟩ := ih h next hrest
              simp only [TorchState.describe]
              exact ⟨hagree, congrArg (fun p => (p.1, Description.plain v :: p.2)) heq⟩
          | tensor k =>
              obtain ⟨hcell, hmade⟩ := hxs _ List.mem_cons_self k rfl
              have hput : Agree n { st with tensors := Function.update st.tensors next (some (.tensor k)) }
                  { ti with tensors := Function.update ti.tensors next (some (.tensor k)) } := by
                refine ⟨fun id k' hk' => ?_, fun id v hv => ?_, h.rng⟩
                · simp only [Function.update_apply] at hk' ⊢
                  split at hk'
                  · rename_i hid
                    obtain rfl := Slot.tensor.inj (Option.some.inj hk')
                    exact ⟨by rw [if_pos hid], hcell, hmade⟩
                  · rename_i hid
                    rw [if_neg hid]
                    exact h.tensor id k' hk'
                · simp only [Function.update_apply] at hv ⊢
                  split at hv
                  · cases hv
                  · rename_i hid
                    rw [if_neg hid]
                    exact h.plain id v hv
              obtain ⟨hagree, heq⟩ := ih hput (next + 1) hrest
              simp only [TorchState.describe]
              refine ⟨hagree, ?_⟩
              rw [hcell]
              exact congrArg (fun p => (p.1, Description.tensor next (layout k (st.heap k.cell)) :: p.2)) heq

end Performing

end TorchState

/-! ## A message the session misses -/

/-- The ids that stand for poison once the op of a message has failed. -/
def OpBody.poisons : OpBody ω γ η → List (Option TensorId)
  | .run _ _ outs | .call _ _ outs => outs
  | .upload dst _ => [some dst]
  | .free _ | .seed _ | .compile _ _ | .runSync _ _ | .download _ | .sync | .ack | .unknown _ => []

/-- The tensors an op is given. -/
def OpBody.refs : OpBody ω γ η → List TensorId
  | .run _ refs _ | .call _ refs _ | .runSync _ refs => refs
  | .upload dst _ => [dst]
  | .free _ | .seed _ | .compile _ _ | .download _ | .sync | .ack | .unknown _ => []

namespace TorchSession

/-- An argument cannot be had. -/
def lacks (x : TorchSession γ κ η ρ) (refs : List TensorId) : Bool := (args x.state refs).isLeft

/-- The op of a message is not performed: it is skipped, or it fails. -/
def misses (x : TorchSession γ κ η ρ) : OpBody ω γ η → Fate κ → Bool
  | .run _ refs _, .fine => x.lacks refs
  | .call gid refs _, .fine | .call gid refs _, .refused _ =>
      match x.graphs gid with
      | some (.inl _) => x.lacks refs
      | some (.inr _) | none => true
  | .runSync _ refs, .fine => x.firstError.isSome || x.lacks refs
  | .upload dst _, .fine =>
      match x.state.tensors dst with
      | some (.tensor _) => false
      | some (.plain _) | some (.poison _) | none => true
  | .run _ _ _, _ | .call _ _ _, _ | .runSync _ _, _ | .upload _ _, _ => true
  | .free _, _ | .seed _, _ | .compile _ _, _ | .download _, _ | .sync, _ | .ack, _ | .unknown _, _ => false

/-- The storage that an op which fails may have written to. -/
def partlyWritten (x : TorchSession γ κ η ρ) (m : OpBody ω γ η) : Fate κ → List Cell
  | .raises _ partially =>
      if x.misses m .fine then []
      else partially.filterMap fun w => TorchState.cellOf (m.refs.map x.state.arg) w.1
  | .fine | .refused _ => []

/-- The ids under which the client gets to know the results of a `RUN_SYNC`: from the first on, if its
op is performed. -/
def named (x : TorchSession γ κ η ρ) (m : OpBody ω γ η) (fate : Fate κ) : Option TensorId :=
  if x.misses m fate then none else some x.nextServerId

section Missing

variable {t : Torch ω γ κ η ρ} {x : TorchSession γ κ η ρ} {seq : ℕ} {label : String}
  {effect : List (Option (Arg κ η)) → ρ → Effect κ η ρ} {refs : List TensorId}
  {outs : List (Option TensorId)} {fate : Fate κ}

/-- A message lacks an argument if the arguments cannot be found. -/
theorem lacks_iff : x.lacks refs = true ↔ ∃ e, args x.state refs = .inl e := by
  unfold lacks
  cases args x.state refs with
  | inl e => exact ⟨fun _ => ⟨e, rfl⟩, fun _ => rfl⟩
  | inr as => exact ⟨(fun h => nomatch h), (fun ⟨_, h⟩ => nomatch h)⟩

/-- A message lacks no argument if the arguments can be found. -/
theorem not_lacks_iff : x.lacks refs = false ↔ ∃ as, args x.state refs = .inr as := by
  unfold lacks
  cases args x.state refs with
  | inl e => exact ⟨(fun h => nomatch h), (fun ⟨_, h⟩ => nomatch h)⟩
  | inr as => exact ⟨fun _ => ⟨as, rfl⟩, fun _ => rfl⟩

/-- **An op that lacks an argument** does nothing but poison. -/
theorem perform_lacks (h : x.lacks refs = true) (cells : List Cell) :
    x.state.Poisoned (x.perform t seq label effect refs outs fate).state outs cells := by
  obtain ⟨e, he⟩ := lacks_iff.mp h
  unfold perform
  rw [he]
  cases e with
  | inl id => exact TorchState.poisoned_poison outs _ cells
  | inr p => exact TorchState.poisoned_poison outs p cells

/-- **An op that raises** may have written to its arguments. -/
theorem perform_raises (error : String) (partially : List (ℕ × κ)) :
    x.state.Poisoned (x.perform t seq label effect refs outs (.raises error partially)).state outs
      (if x.lacks refs then []
        else partially.filterMap fun w => TorchState.cellOf (refs.map x.state.arg) w.1) := by
  split
  · rename_i h
    exact perform_lacks h []
  · rename_i h
    obtain ⟨as, has⟩ := not_lacks_iff.mp ((Bool.not_eq_true _).mp h)
    unfold perform
    rw [has, ← TorchState.args_eq has]
    exact TorchState.poisoned_write outs _ _ _

/-- **An op that is performed** has the results it has where every op succeeds. -/
theorem perform_agrees {y : Unfailing γ κ η ρ} {n : ℕ} (hagree : x.state.Agree n y.state) (hn : n ≤ seq)
    (h : x.lacks refs = false) (hfate : ∀ error partially, fate ≠ .raises error partially) :
    (x.perform t seq label effect refs outs fate).state.Agree seq (y.perform t seq effect refs outs).state := by
  obtain ⟨as, has⟩ := not_lacks_iff.mp h
  have hargs := TorchState.args_eq has
  have hargs' := hagree.args has
  have hrng := hagree.rng
  have hdone := (hagree.mono hn).perform t.blank seq (effect (as.map some) x.state.rng) (as.map some)
  have hknown : ∀ o, TorchState.Known seq
      (x.state.perform t.blank seq (as.map some) (effect (as.map some) x.state.rng))
      (y.state.perform t.blank seq (as.map some) (effect (as.map some) x.state.rng))
      (TorchState.slotOf seq (as.map some) o) := by
    intro o
    rw [hargs]
    exact (hagree.mono hn).known_slotOf (Nat.le_refl _) o
  have hperformed : (x.perform t seq label effect refs outs .fine).state.Agree seq
      (y.perform t seq effect refs outs).state := by
    unfold perform Unfailing.perform
    rw [has, hargs', hrng]
    dsimp only
    split
    · rename_i hnil
      rw [hnil]
      exact hdone
    · split
      · refine hdone.miss (TorchState.poisoned_poison outs _ []) (fun id hid => ?_)
          (fun id k _ _ => ⟨List.not_mem_nil, rfl⟩) rfl
        exact TorchState.tensors_store_of_not_mem hid
      · refine hdone.store fun o ho => ?_
        obtain ⟨o', -, rfl⟩ := List.mem_map.mp ho
        exact hknown o'
  cases fate with
  | fine => exact hperformed
  | refused error =>
      have heq : x.perform t seq label effect refs outs (.refused error) =
          x.perform t seq label effect refs outs .fine := by
        unfold perform
        rw [has]
      rw [heq]
      exact hperformed
  | raises error partially => exact absurd rfl (hfate error partially)

/-- A `RUN` that is missed poisons its results. -/
theorem run_missed {op : ω} (h : x.misses (.run op refs outs) fate = true) :
    x.state.Poisoned (x.run t seq op refs outs fate).state outs (x.partlyWritten (.run op refs outs) fate) := by
  cases fate with
  | fine => exact perform_lacks h []
  | refused error => exact TorchState.poisoned_poison outs _ []
  | raises error partially =>
      show x.state.Poisoned (x.perform t seq (t.label op) (t.run op) refs outs (.raises error partially)).state
        outs _
      exact perform_raises error partially

/-- A `CALL` that is missed poisons its results. -/
theorem call_missed {gid : ℕ} (h : x.misses (ω := ω) (.call gid refs outs) fate = true) :
    x.state.Poisoned (x.call t seq gid refs outs fate).state outs
      (x.partlyWritten (ω := ω) (.call gid refs outs) fate) := by
  unfold call
  split
  · exact TorchState.poisoned_poison outs _ _
  · exact TorchState.poisoned_poison outs _ _
  · rename_i g hg
    cases fate with
    | fine =>
        simp only [misses, hg] at h
        exact perform_lacks h []
    | refused error =>
        simp only [misses, hg] at h
        exact perform_lacks h []
    | raises error partially =>
        simp only [partlyWritten, misses, hg, OpBody.refs]
        exact perform_raises error partially

/-- An `UPLOAD` that is missed poisons its tensor. -/
theorem upload_missed {dst : TensorId} {host : η} (h : x.misses (ω := ω) (γ := γ) (.upload dst host) fate = true) :
    x.state.Poisoned (x.upload t dst host fate).state [some dst]
      (x.partlyWritten (ω := ω) (.upload dst host) fate) := by
  unfold upload
  split
  · exact TorchState.poisoned_poison [some dst] _ _
  · rename_i p hp
    refine ⟨fun _ _ => rfl, fun id hid => ⟨p, ?_⟩, fun _ _ => rfl, rfl⟩
    rw [← hp, Option.some.inj (List.mem_singleton.mp hid)]
  · exact TorchState.poisoned_poison [some dst] _ _
  · rename_i k hk
    cases fate with
    | fine =>
        simp only [misses, hk] at h
        cases h
    | refused error => exact TorchState.poisoned_poison [some dst] _ _
    | raises error partially =>
        have harg : x.state.arg dst = some (.tensor k (x.state.heap k.cell)) := by
          unfold TorchState.arg
          rw [hk]
        simp only [partlyWritten, misses, hk, OpBody.refs, List.map_cons, List.map_nil, harg]
        exact TorchState.poisoned_write [some dst] _ _ _

/-- A `RUN_SYNC` that is missed has no results to poison. -/
theorem runSync_missed {op : ω} (hnone : x.firstError = none) (h : x.misses (.runSync op refs) fate = true) :
    x.state.Poisoned (x.runSync t seq op refs fate).1.state [] (x.partlyWritten (.runSync op refs) fate) := by
  have hsame : ∀ cells, x.state.Poisoned x.state [] cells := fun cells =>
    ⟨fun _ _ => rfl, fun _ hid => (List.not_mem_nil hid).elim, fun _ _ => rfl, rfl⟩
  cases fate with
  | fine =>
      have hlacks : x.lacks refs = true := by
        simpa only [misses, hnone, Option.isSome_none, Bool.false_or] using h
      obtain ⟨e, he⟩ := lacks_iff.mp hlacks
      unfold runSync
      cases e with
      | inl id =>
          rw [he]
          exact hsame _
      | inr p =>
          rw [he]
          exact hsame _
  | refused error => exact hsame _
  | raises error partially =>
      simp only [partlyWritten, misses, hnone, Option.isSome_none, Bool.false_or, OpBody.refs, runSync]
      split
      · exact hsame _
      · exact hsame _
      · rename_i as has
        have hlacks : x.lacks refs = false := not_lacks_iff.mpr ⟨as, has⟩
        rw [hlacks, ← TorchState.args_eq has]
        exact ⟨fun _ _ => rfl, fun _ hid => (List.not_mem_nil hid).elim,
          fun _ hc => TorchState.write_of_not_mem hc, rfl⟩

/-- A message whose op is not performed. -/
theorem execute_missed {m : OpBody ω γ η} (hseq : x.lastSeq < seq) (h : x.misses m fate = true) :
    x.state.Poisoned (x.execute t seq m fate).1.state m.poisons (x.partlyWritten m fate) := by
  have hnew : ¬seq ≤ x.lastSeq := Nat.not_le.mpr hseq
  cases m with
  | run op refs outs =>
      simp only [execute, if_neg hnew]
      exact run_missed (x := { x with lastSeq := seq }) h
  | upload dst host =>
      simp only [execute, if_neg hnew]
      exact upload_missed (x := { x with lastSeq := seq }) h
  | call gid refs outs =>
      simp only [execute, if_neg hnew]
      exact call_missed (x := { x with lastSeq := seq }) h
  | runSync op refs =>
      -- it has no results to poison, and is not run while there is an error to report
      have hsame : ∀ cells, x.state.Poisoned x.state [] cells := fun cells =>
        ⟨fun _ _ => rfl, fun _ hid => (List.not_mem_nil hid).elim, fun _ _ => rfl, rfl⟩
      cases herror : x.firstError with
      | some p =>
          simp only [execute, if_neg hnew, herror]
          exact hsame _
      | none =>
          obtain ⟨st, firstError, last, graphs, next⟩ := x
          obtain rfl : firstError = none := herror
          have hmissed : st.Poisoned (runSync t ⟨st, none, seq, graphs, next⟩ seq op refs fate).1.state [] _ :=
            runSync_missed (x := ⟨st, none, seq, graphs, next⟩) rfl h
          simp only [execute, if_neg hnew, waited]
          split
          · rename_i heq
            rw [heq] at hmissed
            exact hmissed
          · rename_i heq
            rw [heq] at hmissed
            exact hmissed
  | free ids => cases h
  | seed n => cases h
  | compile gid g => cases h
  | download id => cases h
  | sync => cases h
  | ack => cases h
  | unknown kind => cases h

end Missing

/-! ## What a message leaves as it is -/

section Frame

variable {t : Torch ω γ κ η ρ} {x : TorchSession γ κ η ρ} {seq : ℕ} {refs : List TensorId}
  {outs : List (Option TensorId)} {fate : Fate κ}

/-- Neither the graphs nor the number of the last message are touched. -/
structure Steady (x x' : TorchSession γ κ η ρ) : Prop where
  graphs : x'.graphs = x.graphs
  lastSeq : x'.lastSeq = x.lastSeq

/-- Nothing changes. -/
theorem Steady.rfl : Steady x x := ⟨Eq.refl _, Eq.refl _⟩

/-- Performing an op changes neither graphs nor the last number. -/
theorem steady_perform (label : String) (effect : List (Option (Arg κ η)) → ρ → Effect κ η ρ) :
    Steady x (x.perform t seq label effect refs outs fate) := by
  unfold perform
  split
  · exact ⟨Eq.refl _, Eq.refl _⟩
  · exact ⟨Eq.refl _, Eq.refl _⟩
  · dsimp only
    repeat' split
    all_goals exact ⟨Eq.refl _, Eq.refl _⟩

/-- A `RUN` changes neither graphs nor the last number. -/
theorem steady_run (op : ω) : Steady x (x.run t seq op refs outs fate) := by
  unfold run
  split
  · exact ⟨Eq.refl _, Eq.refl _⟩
  · exact steady_perform _ _
  · exact steady_perform _ _

/-- A `CALL` changes neither graphs nor the last number. -/
theorem steady_call (gid : ℕ) : Steady x (x.call t seq gid refs outs fate) := by
  unfold call
  dsimp only
  split
  · exact ⟨Eq.refl _, Eq.refl _⟩
  · exact ⟨Eq.refl _, Eq.refl _⟩
  · exact steady_perform _ _

/-- An `UPLOAD` changes neither graphs nor the last number. -/
theorem steady_upload (dst : TensorId) (host : η) : Steady x (x.upload t dst host fate) := by
  unfold upload
  dsimp only
  repeat' split
  all_goals exact ⟨Eq.refl _, Eq.refl _⟩

/-- A message that is waited for changes neither graphs nor the last number. -/
theorem steady_waited (m : OpBody ω γ η) : Steady x (x.waited t seq fate m).1 := by
  unfold waited
  split
  · unfold runSync
    repeat' split
    all_goals exact ⟨Eq.refl _, Eq.refl _⟩
  · exact Steady.rfl
  · split
    all_goals exact Steady.rfl
  · exact Steady.rfl

/-- The answer to a message the client waits for. -/
def answered (t : Torch ω γ κ η ρ) (x : TorchSession γ κ η ρ) (seq : ℕ) (m : OpBody ω γ η) (fate : Fate κ) :
    TorchSession γ κ η ρ × Option (Poison ⊕ OpAnswer η) :=
  match x.firstError with
  | some p => ({ x with firstError := none }, some (.inl p))
  | none =>
      match x.waited t seq fate m with
      | (x, .inl p) => (x, some (.inl p))
      | (x, .inr a) => (x, if t.encodes a then some (.inr a) else none)

/-- What only asks leaves the tensors as they are. -/
theorem state_answered {m : OpBody ω γ η} (hm : ∀ op refs, m ≠ .runSync op refs) :
    (x.answered t seq m fate).1.state = x.state := by
  have hwaited : (x.waited t seq fate m).1 = x := by
    cases m with
    | runSync op refs => exact absurd rfl (hm op refs)
    | sync => cases fate <;> rfl
    | _ => rfl
  unfold answered
  split
  · rfl
  · split
    · rename_i heq
      rw [heq] at hwaited
      exact congrArg TorchSession.state hwaited
    · rename_i heq
      rw [heq] at hwaited
      exact congrArg TorchSession.state hwaited

/-- What a message does changes neither graphs nor the last number. -/
theorem steady_answered (m : OpBody ω γ η) : Steady x (x.answered t seq m fate).1 := by
  have hwaited : Steady x (x.waited t seq fate m).1 := steady_waited m
  unfold answered
  split
  · exact ⟨Eq.refl _, Eq.refl _⟩
  · split
    · rename_i heq
      rw [heq] at hwaited
      exact hwaited
    · rename_i heq
      rw [heq] at hwaited
      exact hwaited

/-- **A message that is new.** -/
theorem execute_new {m : OpBody ω γ η} (hseq : x.lastSeq < seq) :
    x.execute t seq m fate =
      let x := { x with lastSeq := seq }
      match m with
      | .run op refs outs => (x.run t seq op refs outs fate, none)
      | .upload dst host => (x.upload t dst host fate, none)
      | .free ids => ({ x with state := x.state.free ids }, none)
      | .seed n => ({ x with state := { x.state with rng := t.seed n } }, none)
      | .compile gid g => (x.compile gid g fate, none)
      | .call gid refs outs => (x.call t seq gid refs outs fate, none)
      | .unknown kind => (x.fail s!"message kind {kind}" "ValueError: unknown message" [], none)
      | .runSync _ _ | .download _ | .sync | .ack => x.answered t seq m fate := by
  unfold execute
  rw [if_neg (Nat.not_le.mpr hseq)]
  cases m <;> rfl

/-- Only a `COMPILE` makes a graph. -/
theorem execute_steady {m : OpBody ω γ η} (hseq : x.lastSeq < seq) (hm : ∀ gid g, m ≠ .compile gid g) :
    Steady { x with lastSeq := seq } (x.execute t seq m fate).1 := by
  rw [execute_new hseq]
  cases m with
  | run op refs outs => exact steady_run op
  | upload dst host => exact steady_upload dst host
  | call gid refs outs => exact steady_call gid
  | compile gid g => exact absurd rfl (hm gid g)
  | runSync op refs => exact steady_answered _
  | download id => exact steady_answered _
  | sync => exact steady_answered _
  | ack => exact steady_answered _
  | free ids => exact ⟨rfl, rfl⟩
  | seed n => exact ⟨rfl, rfl⟩
  | unknown kind => exact ⟨rfl, rfl⟩

/-- A message that is new is the last. -/
theorem execute_lastSeq {m : OpBody ω γ η} (hseq : x.lastSeq < seq) :
    (x.execute t seq m fate).1.lastSeq = seq := by
  rcases Classical.em (∃ gid g, m = .compile gid g) with ⟨gid, g, rfl⟩ | hm
  · rw [execute_new hseq]
    cases fate <;> rfl
  · exact (execute_steady hseq fun gid g heq => hm ⟨gid, g, heq⟩).lastSeq

end Frame

end TorchSession

/-! ## A run beside the run in which nothing fails -/

/-- What the op of a message does where every op succeeds. -/
def Unfailing.effect (t : Torch ω γ κ η ρ) (y : Unfailing γ κ η ρ) (m : OpBody ω γ η) :
    Option (Effect κ η ρ) :=
  let as := m.refs.map y.state.arg
  match m with
  | .run op _ _ | .runSync op _ => some (t.run op as y.state.rng)
  | .call gid _ _ => some (t.call (y.graphs gid) as y.state.rng)
  | .upload dst host =>
      match y.state.tensors dst with
      | some (.tensor h) => some ⟨[], [(0, t.upload host h (y.state.heap h.cell))], [], y.state.rng⟩
      | some (.plain _) | some (.poison _) | none => none
  | .free _ | .seed _ | .compile _ _ | .download _ | .sync | .ack | .unknown _ => none

/-- The storage it writes to. -/
def Unfailing.written (t : Torch ω γ κ η ρ) (y : Unfailing γ κ η ρ) (m : OpBody ω γ η) : List Cell :=
  match y.effect t m with
  | some f => f.writes.filterMap fun w => TorchState.cellOf (m.refs.map y.state.arg) w.1
  | none => []

/-- A session, and beside it the one in which every op succeeds. -/
structure PoisonedRun (γ κ η ρ : Type) where
  real : TorchSession γ κ η ρ
  ideal : Unfailing γ κ η ρ

/-- A message that comes in, and what becomes of its op. -/
structure Fated (ω γ κ η : Type) where
  seq : ℕ
  body : OpBody ω γ η
  fate : Fate κ

namespace PoisonedRun

/-- Both are given the message. -/
def step (t : Torch ω γ κ η ρ) (z : PoisonedRun γ κ η ρ) (d : Fated ω γ κ η) : Option (PoisonedRun γ κ η ρ) :=
  some ⟨(z.real.execute t d.seq d.body d.fate).1,
    (z.ideal.execute t d.seq d.body (z.real.named d.body d.fate)).1⟩

/-- No tensors, with any storage and any random numbers to come. -/
def initial (heap : Cell → κ) (rng : ρ) : PoisonedRun γ κ η ρ :=
  ⟨{ state := ⟨fun _ => none, heap, rng⟩ }, { state := ⟨fun _ => none, heap, rng⟩ }⟩

/-- If the op of a message is not performed, then it is one that draws no random numbers, and no tensor
that is left unpoisoned is on storage that it should have written, or has partly written. -/
def Harmless (t : Torch ω γ κ η ρ) (z : PoisonedRun γ κ η ρ) (d : Fated ω γ κ η) : Prop :=
  z.real.lastSeq < d.seq → z.real.misses d.body d.fate = true →
    (∀ f, z.ideal.effect t d.body = some f → f.rng = z.ideal.state.rng) ∧
    ∀ id h, some id ∉ d.body.poisons → z.real.state.tensors id = some (.tensor h) →
      h.cell ∉ z.ideal.written t d.body ∧ h.cell ∉ z.real.partlyWritten d.body d.fate

/-- The session is the one in which every op succeeds, but for what is poisoned. -/
structure Tracks (z : PoisonedRun γ κ η ρ) : Prop where
  state : z.real.state.Agree z.real.lastSeq z.ideal.state
  graphs : ∀ gid g, z.real.graphs gid = some (.inl g) → z.ideal.graphs gid = some g
  lastSeq : z.ideal.lastSeq = z.real.lastSeq

/-! ### The invariant of the two runs -/

namespace Tracks

variable {t : Torch ω γ κ η ρ} {z : PoisonedRun γ κ η ρ} {seq : ℕ} {m : OpBody ω γ η} {fate : Fate κ}

/-- What an op does where every op succeeds, when it is not performed in the session. -/
theorem ideal_missed (hseq : z.ideal.lastSeq < seq) (hmiss : z.real.misses m fate = true) :
    (∀ id, some id ∉ m.poisons →
      (z.ideal.execute t seq m none).1.state.tensors id = z.ideal.state.tensors id) ∧
    (∀ c, c.made ≠ seq → c ∉ z.ideal.written t m →
      (z.ideal.execute t seq m none).1.state.heap c = z.ideal.state.heap c) ∧
    ((∀ f, z.ideal.effect t m = some f → f.rng = z.ideal.state.rng) →
      (z.ideal.execute t seq m none).1.state.rng = z.ideal.state.rng) := by
  have hnew : ¬seq ≤ z.ideal.lastSeq := Nat.not_le.mpr hseq
  have hperform : ∀ (f : Effect κ η ρ) (args : List (Option (Arg κ η))) (c : Cell), c.made ≠ seq →
      c ∉ (f.writes.filterMap fun w => TorchState.cellOf args w.1) →
      (z.ideal.state.perform t.blank seq args f).heap c = z.ideal.state.heap c := by
    intro f args c hmade hc
    simp only [TorchState.perform, if_neg hmade]
    exact TorchState.write_of_not_mem hc
  cases m with
  | run op refs outs =>
      simp only [Unfailing.execute, if_neg hnew]
      exact ⟨fun id hid => TorchState.tensors_store_of_not_mem hid, hperform _ _, fun h => h _ rfl⟩
  | call gid refs outs =>
      simp only [Unfailing.execute, if_neg hnew]
      exact ⟨fun id hid => TorchState.tensors_store_of_not_mem hid, hperform _ _, fun h => h _ rfl⟩
  | runSync op refs =>
      simp only [Unfailing.execute, if_neg hnew]
      exact ⟨fun id _ => rfl, hperform _ _, fun h => h _ rfl⟩
  | upload dst host =>
      simp only [Unfailing.execute, if_neg hnew]
      split
      -- nothing is written but the cell of the tensor
      · rename_i k hk
        refine ⟨fun _ _ => rfl, fun c _ hc => Function.update_of_ne (fun heq => hc ?_) _ _, fun _ => rfl⟩
        have harg : z.ideal.state.arg dst = some (.tensor k (z.ideal.state.heap k.cell)) := by
          unfold TorchState.arg
          rw [hk]
        simp only [Unfailing.written, Unfailing.effect, hk, OpBody.refs, List.map_cons, List.map_nil, harg]
        exact List.mem_filterMap.mpr ⟨_, List.mem_cons_self, congrArg some heq.symm⟩
      · exact ⟨fun _ _ => rfl, fun _ _ _ => rfl, fun _ => rfl⟩
  | free ids => cases hmiss
  | seed n => cases hmiss
  | compile gid g => cases hmiss
  | download id => cases hmiss
  | sync => cases hmiss
  | ack => cases hmiss
  | unknown kind => cases hmiss

/-- **An op that is not performed.** -/
theorem missed (h : z.Tracks) (hseq : z.real.lastSeq < seq) (hmiss : z.real.misses m fate = true)
    (hharmless : z.Harmless t ⟨seq, m, fate⟩) :
    (z.real.execute t seq m fate).1.state.Agree seq (z.ideal.execute t seq m none).1.state := by
  obtain ⟨htensors, hheap, hrng⟩ := ideal_missed (t := t) (h.lastSeq ▸ hseq) hmiss
  obtain ⟨hdraws, hcells⟩ := hharmless hseq hmiss
  refine (h.state.mono (Nat.le_of_lt hseq)).miss (TorchSession.execute_missed hseq hmiss) htensors (fun id k hid hk => ?_)
    (hrng hdraws)
  obtain ⟨hwritten, hpartly⟩ := hcells id k hid hk
  have hmade : k.cell.made ≠ seq := Nat.ne_of_lt (Nat.lt_of_le_of_lt (h.state.tensor id k hk).2.2 hseq)
  exact ⟨hpartly, hheap _ hmade hwritten⟩

/-- Neither session has seen the message. -/
theorem seen (h : z.Tracks) (hseq : seq ≤ z.real.lastSeq) (named : Option TensorId) :
    z.real.execute t seq m fate = (z.real, none) ∧ z.ideal.execute t seq m named = (z.ideal, none) := by
  unfold TorchSession.execute Unfailing.execute
  rw [if_pos hseq, if_pos (h.lastSeq ▸ hseq)]
  exact ⟨rfl, rfl⟩

/-- A new message is the last in the run without failures too. -/
theorem ideal_lastSeq (hseq : z.ideal.lastSeq < seq) (named : Option TensorId) :
    (z.ideal.execute t seq m named).1.lastSeq = seq := by
  unfold Unfailing.execute
  rw [if_neg (Nat.not_le.mpr hseq)]
  cases m with
  | upload dst host =>
      dsimp only
      split
      all_goals rfl
  | runSync op refs =>
      cases named with
      | none => rfl
      | some next => rfl
  | download id =>
      dsimp only
      split
      all_goals rfl
  | _ => rfl

/-- Only a `COMPILE` changes the graphs in the run without failures. -/
theorem ideal_graphs (hm : ∀ gid g, m ≠ .compile gid g) (named : Option TensorId) :
    (z.ideal.execute t seq m named).1.graphs = z.ideal.graphs := by
  unfold Unfailing.execute
  split
  · rfl
  · cases m with
    | upload dst host =>
        dsimp only
        split
        all_goals rfl
    | compile gid g => exact absurd rfl (hm gid g)
    | runSync op refs =>
        cases named with
        | none => rfl
        | some next => rfl
    | download id =>
        dsimp only
        split
        all_goals rfl
    | _ => rfl

/-- What a `RUN_SYNC` that is performed does, and what it answers. -/
theorem runSync_agrees (h : z.Tracks) (hseq : z.real.lastSeq < seq) {op : ω} {refs : List TensorId}
    (hmiss : z.real.misses (.runSync op refs) fate = false) :
    ∃ ds, (z.real.execute t seq (.runSync op refs) fate).1.state.Agree seq
        (z.ideal.execute t seq (.runSync op refs) (some z.real.nextServerId)).1.state ∧
      ((z.real.execute t seq (.runSync op refs) fate).2 = none ∨
        (z.real.execute t seq (.runSync op refs) fate).2 = some (.inr (.described ds))) ∧
      (z.ideal.execute t seq (.runSync op refs) (some z.real.nextServerId)).2 = some (.described ds) := by
  have hnew : ¬seq ≤ z.ideal.lastSeq := Nat.not_le.mpr (h.lastSeq ▸ hseq)
  have hagree := h.state.mono (Nat.le_of_lt hseq)
  cases fate with
  | refused error => cases hmiss
  | raises error partially => cases hmiss
  | fine =>
      obtain ⟨hnone, hlacks⟩ := Bool.or_eq_false_iff.mp hmiss
      obtain ⟨as, has⟩ := TorchSession.not_lacks_iff.mp hlacks
      have hargs := TorchState.args_eq has
      have hargs' := hagree.args has
      have hdone := hagree.perform t.blank seq (t.run op (as.map some) z.real.state.rng) (as.map some)
      have hknown : ∀ x ∈ (t.run op (as.map some) z.real.state.rng).outs.map
          (TorchState.slotOf seq (as.map some)), TorchState.Known seq
            (z.real.state.perform t.blank seq (as.map some) (t.run op (as.map some) z.real.state.rng))
            (z.ideal.state.perform t.blank seq (as.map some) (t.run op (as.map some) z.real.state.rng)) x := by
        intro x hx
        obtain ⟨o, -, rfl⟩ := List.mem_map.mp hx
        rw [hargs]
        exact hagree.known_slotOf (Nat.le_refl _) o
      obtain ⟨hstate, hrest⟩ := hdone.describe t.layout z.real.nextServerId hknown
      have hfirst : z.real.firstError = none := Option.not_isSome_iff_eq_none.mp (by rw [hnone]; exact Bool.false_ne_true)
      rw [TorchSession.execute_new hseq]
      simp only [TorchSession.answered, TorchSession.waited, TorchSession.runSync, hfirst, has,
        Unfailing.execute, if_neg hnew, hargs', hagree.rng]
      refine ⟨_, hstate, ?_, rfl⟩
      split
      · exact Or.inr (congrArg (fun p => some (Sum.inr (OpAnswer.described p.2))) hrest)
      · exact Or.inl rfl

/-- **An op that is performed**, and a message that has none. -/
theorem performed (h : z.Tracks) (hseq : z.real.lastSeq < seq) (hmiss : z.real.misses m fate = false) :
    (z.real.execute t seq m fate).1.state.Agree seq
      (z.ideal.execute t seq m (some z.real.nextServerId)).1.state := by
  have hnew : ¬seq ≤ z.ideal.lastSeq := Nat.not_le.mpr (h.lastSeq ▸ hseq)
  have hagree := h.state.mono (Nat.le_of_lt hseq)
  cases m with
  | run op refs outs =>
      rw [TorchSession.execute_new hseq]
      simp only [Unfailing.execute, if_neg hnew]
      cases fate with
      | fine =>
          exact TorchSession.perform_agrees (x := { z.real with lastSeq := seq })
            (y := { z.ideal with lastSeq := seq }) hagree (Nat.le_refl _) hmiss (fun _ _ h => nomatch h)
      | refused error => cases hmiss
      | raises error partially => cases hmiss
  | upload dst host =>
      cases fate with
      | refused error => cases hmiss
      | raises error partially => cases hmiss
      | fine =>
          cases hslot : z.real.state.tensors dst with
          -- there is a tensor under the id, or it would not be performed
          | none =>
              simp only [TorchSession.misses, hslot] at hmiss
              cases hmiss
          | some x =>
              cases x with
              | plain v =>
                  simp only [TorchSession.misses, hslot] at hmiss
                  cases hmiss
              | poison p =>
                  simp only [TorchSession.misses, hslot] at hmiss
                  cases hmiss
              | tensor k =>
                  obtain ⟨hideal, hcell, -⟩ := hagree.tensor dst k hslot
                  rw [TorchSession.execute_new hseq]
                  simp only [TorchSession.upload, Unfailing.execute, if_neg hnew, hslot, hideal, hcell]
                  refine ⟨fun id k' hk' => ?_, hagree.plain, hagree.rng⟩
                  obtain ⟨hid, hheap, hmade⟩ := hagree.tensor id k' hk'
                  refine ⟨hid, ?_, hmade⟩
                  dsimp only
                  rw [Function.update_apply, Function.update_apply, hheap]
  | call gid refs outs =>
      have hgraph : ∃ g, z.real.graphs gid = some (.inl g) ∧ z.real.lacks refs = false := by
        cases hg : z.real.graphs gid with
        | none => cases fate <;> simp only [TorchSession.misses, hg] at hmiss <;> cases hmiss
        | some g =>
            cases g with
            | inr p => cases fate <;> simp only [TorchSession.misses, hg] at hmiss <;> cases hmiss
            | inl g =>
                refine ⟨g, rfl, ?_⟩
                cases fate with
                | raises error partially => cases hmiss
                | fine => simpa only [TorchSession.misses, hg] using hmiss
                | refused error => simpa only [TorchSession.misses, hg] using hmiss
      obtain ⟨g, hg, hlacks⟩ := hgraph
      rw [TorchSession.execute_new hseq]
      simp only [TorchSession.call, Unfailing.execute, if_neg hnew, hg, h.graphs gid g hg]
      refine TorchSession.perform_agrees (x := { z.real with lastSeq := seq })
        (y := { z.ideal with lastSeq := seq }) hagree (Nat.le_refl _) hlacks (fun e ws hfate => ?_)
      rw [hfate] at hmiss
      cases hmiss
  | runSync op refs =>
      obtain ⟨ds, hds, -, -⟩ := h.runSync_agrees (t := t) hseq hmiss
      exact hds
  | free ids =>
      rw [TorchSession.execute_new hseq]
      simp only [Unfailing.execute, if_neg hnew]
      exact hagree.free ids
  | seed n =>
      rw [TorchSession.execute_new hseq]
      simp only [Unfailing.execute, if_neg hnew]
      exact ⟨hagree.tensor, hagree.plain, rfl⟩
  | compile gid g =>
      rw [TorchSession.execute_new hseq]
      simp only [Unfailing.execute, if_neg hnew]
      cases fate <;> exact hagree
  | download id =>
      rw [TorchSession.execute_new hseq]
      dsimp only
      rw [TorchSession.state_answered (m := .download id) fun _ _ h => nomatch h]
      simp only [Unfailing.execute, if_neg hnew]
      split
      all_goals exact hagree
  | sync =>
      rw [TorchSession.execute_new hseq]
      dsimp only
      rw [TorchSession.state_answered (m := .sync) fun _ _ h => nomatch h]
      simp only [Unfailing.execute, if_neg hnew]
      exact hagree
  | ack =>
      rw [TorchSession.execute_new hseq]
      dsimp only
      rw [TorchSession.state_answered (m := .ack) fun _ _ h => nomatch h]
      simp only [Unfailing.execute, if_neg hnew]
      exact hagree
  | unknown kind =>
      rw [TorchSession.execute_new hseq]
      simp only [Unfailing.execute, if_neg hnew]
      exact hagree

/-- **The step lemma.** -/
theorem step (h : z.Tracks) {d : Fated ω γ κ η} (hharmless : z.Harmless t d) {z' : PoisonedRun γ κ η ρ}
    (hstep : z.step t d = some z') : z'.Tracks := by
  obtain rfl := Option.some.inj hstep
  obtain ⟨seq, m, fate⟩ := d
  dsimp only
  by_cases hseen : seq ≤ z.real.lastSeq
  · have hsame : z.real.execute t seq m fate = _ ∧ z.ideal.execute t seq m (z.real.named m fate) = _ :=
      h.seen hseen _
    rw [hsame.1, hsame.2]
    exact h
  · have hseq : z.real.lastSeq < seq := Nat.not_le.mp hseen
    have hlast : (z.real.execute t seq m fate).1.lastSeq = seq := TorchSession.execute_lastSeq hseq
    refine ⟨?_, fun gid g hg => ?_, ?_⟩
    · rw [hlast]
      unfold TorchSession.named
      cases hmiss : z.real.misses m fate with
      | true => exact h.missed hseq hmiss hharmless
      | false => exact h.performed hseq hmiss
    -- only a `COMPILE` changes the graphs, and one that fails leaves none to agree on
    · rcases Classical.em (∃ gid g, m = .compile gid g) with ⟨gid', g', rfl⟩ | hm
      · rw [TorchSession.execute_new hseq] at hg
        simp only [Unfailing.execute, if_neg (Nat.not_le.mpr (h.lastSeq ▸ hseq))]
        have hg' : Function.update z.real.graphs gid' (some (.inl g')) gid = some (.inl g) ∨
            ∃ p, Function.update z.real.graphs gid' (some (.inr p)) gid = some (.inl g) := by
          cases fate with
          | fine => exact Or.inl hg
          | refused error => exact Or.inr ⟨_, hg⟩
          | raises error partially => exact Or.inr ⟨_, hg⟩
        rcases hg' with hg' | ⟨p, hg'⟩
        · rw [Function.update_apply] at hg' ⊢
          split at hg'
          · rename_i heq
            rw [if_pos heq, Sum.inl.inj (Option.some.inj hg')]
          · rename_i hne
            rw [if_neg hne]
            exact h.graphs gid g hg'
        · rw [Function.update_apply] at hg' ⊢
          split at hg'
          · cases hg'
          · rename_i hne
            rw [if_neg hne]
            exact h.graphs gid g hg'
      · have hm' : ∀ gid g, m ≠ .compile gid g := fun gid g heq => hm ⟨gid, g, heq⟩
        rw [(TorchSession.execute_steady hseq hm').graphs] at hg
        rw [ideal_graphs hm']
        exact h.graphs gid g hg
    · rw [hlast, ideal_lastSeq (h.lastSeq ▸ hseq)]

/-! ### What is answered -/

/-- A value is answered only where nothing is to be reported, and is what was waited for. -/
theorem answered_value {x : TorchSession γ κ η ρ} {v : OpAnswer η}
    (h : (x.answered t seq m fate).2 = some (.inr v)) :
    x.firstError = none ∧ (x.waited t seq fate m).2 = .inr v := by
  unfold TorchSession.answered at h
  split at h
  · cases h
  · rename_i hnone
    split at h
    · cases h
    · rename_i heq
      dsimp only at h
      split at h
      · rw [heq]
        exact ⟨hnone, congrArg Sum.inr (Sum.inr.inj (Option.some.inj h))⟩
      · cases h

/-- A `RUN_SYNC` whose op is not performed is answered with an error. -/
theorem not_answered {x : TorchSession γ κ η ρ} {op : ω} {refs : List TensorId} {v : OpAnswer η}
    (hmiss : x.misses (.runSync op refs) fate = true) :
    (x.answered t seq (.runSync op refs) fate).2 ≠ some (.inr v) := by
  intro h
  obtain ⟨hfirst, hvalue⟩ := answered_value h
  cases fate with
  | refused error => cases hvalue
  | raises error partially =>
      simp only [TorchSession.waited, TorchSession.runSync] at hvalue
      split at hvalue
      all_goals cases hvalue
  | fine =>
      obtain ⟨e, he⟩ := TorchSession.lacks_iff.mp (by
        simpa only [TorchSession.misses, hfirst, Option.isSome_none, Bool.false_or] using hmiss)
      simp only [TorchSession.waited, TorchSession.runSync, he] at hvalue
      cases e <;> cases hvalue

/-- **Answers.** A value that is answered is the value where every op succeeds. -/
theorem answer (h : z.Tracks) {v : OpAnswer η}
    (hreply : (z.real.execute t seq m fate).2 = some (.inr v)) :
    (z.ideal.execute t seq m (z.real.named m fate)).2 = some v := by
  by_cases hseen : seq ≤ z.real.lastSeq
  · have hsame : z.real.execute t seq m fate = _ ∧ z.ideal.execute t seq m none = _ := h.seen hseen _
    rw [hsame.1] at hreply
    cases hreply
  have hseq : z.real.lastSeq < seq := Nat.not_le.mp hseen
  have hnew : ¬seq ≤ z.ideal.lastSeq := Nat.not_le.mpr (h.lastSeq ▸ hseq)
  cases m with
  | runSync op refs =>
      unfold TorchSession.named
      cases hmiss : z.real.misses (.runSync op refs) fate with
      | true =>
          -- an op that fails, or is skipped, has no value to answer with
          rw [TorchSession.execute_new hseq] at hreply
          exact absurd hreply (not_answered (x := { z.real with lastSeq := seq }) hmiss)
      | false =>
          obtain ⟨ds, -, hreal, hideal⟩ := h.runSync_agrees (t := t) hseq hmiss
          rcases hreal with hreal | hreal
          · rw [hreal] at hreply
            cases hreply
          · rw [hreal] at hreply
            obtain rfl := Sum.inr.inj (Option.some.inj hreply)
            exact hideal
  | download id =>
      rw [TorchSession.execute_new hseq] at hreply
      simp only [Unfailing.execute, if_neg hnew]
      have hvalue := (answered_value hreply).2
      simp only [TorchSession.waited, TorchSession.download] at hvalue
      split at hvalue
      · cases hvalue
      · cases hvalue
      · cases hvalue
      · rename_i k hk
        obtain ⟨hideal, hcell, -⟩ := h.state.tensor id k hk
        -- the tensor is known and not poisoned, so that it holds what it would hold without a failure
        cases fate with
        | refused error => cases hvalue
        | raises error partially => cases hvalue
        | fine =>
            obtain rfl := Sum.inr.inj hvalue
            rw [hideal]
            dsimp only
            rw [hcell]
  | sync =>
      rw [TorchSession.execute_new hseq] at hreply
      simp only [Unfailing.execute, if_neg hnew]
      have hvalue := (answered_value hreply).2
      cases fate with
      | refused error => cases hvalue
      | raises error partially => cases hvalue
      | fine => exact congrArg some (Sum.inr.inj hvalue)
  | ack =>
      rw [TorchSession.execute_new hseq] at hreply
      simp only [Unfailing.execute, if_neg hnew]
      exact congrArg some (Sum.inr.inj (answered_value hreply).2)
  | _ =>
      rw [TorchSession.execute_new hseq] at hreply
      cases hreply

/-- The two runs begin alike. -/
theorem initial (heap : Cell → κ) (rng : ρ) : (PoisonedRun.initial heap rng : PoisonedRun γ κ η ρ).Tracks :=
  ⟨⟨(fun _ _ h => nomatch h), (fun _ _ h => nomatch h), rfl⟩, (fun _ _ h => nomatch h), rfl⟩

end Tracks

/-- **What a session answers.** In every run in which an op that fails or is skipped is harmless, a value
that the session answers with is the one it would answer with if every op succeeded. -/
theorem answers_are_unfailing (t : Torch ω γ κ η ρ) (heap : Cell → κ) (rng : ρ) {ds : List (Fated ω γ κ η)}
    {z : PoisonedRun γ κ η ρ} (halong : Along (step t) (Harmless t) (initial heap rng) ds)
    (hrun : run (step t) (initial heap rng) ds = some z) (d : Fated ω γ κ η) {v : OpAnswer η}
    (hreply : (z.real.execute t d.seq d.body d.fate).2 = some (.inr v)) :
    (z.ideal.execute t d.seq d.body (z.real.named d.body d.fate)).2 = some v := by
  have hall : Always (step t) (Harmless t) (initial heap rng) Tracks :=
    Always.of_step (Tracks.initial heap rng) fun _ _ _ htracks hharmless hstep => htracks.step hharmless hstep
  exact (hall ds z halong hrun).answer hreply

/-- Some ops on numbers. -/
inductive NumberOp
  | empty
  | neg
  /-- `add_`, with one. -/
  | addOne

/-- Tensors of one number. -/
def numbers : Torch NumberOp Unit ℕ ℕ ℕ where
  label
    | .empty => "aten::empty.memory_format"
    | .neg => "aten::neg.default"
    | .addOne => "aten::add_.Scalar"
  run
    | .empty, _, rng => ⟨[.tensor (.fresh 0) 0], [], [0], rng⟩
    | .neg, [some (.tensor _ x)], rng => ⟨[.tensor (.fresh 0) 0], [], [0 - x], rng⟩
    | .addOne, [some (.tensor h x)], rng => ⟨[.tensor (.arg 0) h.view], [(0, x + 1)], [], rng⟩
    | _, _, rng => ⟨[], [], [], rng⟩
  call _ _ rng := ⟨[], [], [], rng⟩
  upload host _ _ := host
  download _ x := x
  layout _ _ := 0
  seed n := n
  blank := 0
  attributeError _ := ""
  encodes _ := true

/-- An op whose result is a tensor of its own fails: its result is poisoned, and the rest of the session
is as if it had succeeded. -/
theorem answers_after_failed_neg :
    ∃ z, run (step numbers) (initial (fun _ => 0) 0)
        [⟨1, .run .empty [] [some 1], .fine⟩, ⟨2, .upload 1 5, .fine⟩,
          ⟨3, .run .neg [1] [some 2], .raises "RuntimeError: out of memory" []⟩, ⟨4, .sync, .fine⟩] = some z ∧
      (z.ideal.execute numbers 5 (.download 1) none).2 = some (.host 5) := by
  have halong : Along (step numbers) (Harmless numbers) (initial (fun _ => 0) 0)
      [⟨1, .run .empty [] [some 1], .fine⟩, ⟨2, .upload 1 5, .fine⟩,
        ⟨3, .run .neg [1] [some 2], .raises "RuntimeError: out of memory" []⟩, ⟨4, .sync, .fine⟩] := by
    refine ⟨(fun _ h => nomatch h), (fun _ h => nomatch h), fun _ _ => ⟨fun f hf => ?_, fun _ _ _ _ => ?_⟩,
      (fun _ h => nomatch h), trivial⟩
    · obtain rfl := Option.some.inj hf
      rfl
    · exact ⟨List.not_mem_nil, List.not_mem_nil⟩
  exact ⟨_, rfl, answers_are_unfailing numbers (fun _ => 0) 0 halong rfl ⟨5, .download 1, .fine⟩ rfl⟩

/-- **An op that writes to its argument** fails, and is reported. Its argument is then downloaded, as it
was before: no id was given to what was written. -/
theorem stale_after_failed_write :
    ∃ z, run (step numbers) (initial (fun _ => 0) 0)
        [⟨1, .run .empty [] [some 1], .fine⟩, ⟨2, .upload 1 5, .fine⟩,
          ⟨3, .run .addOne [1] [none], .raises "RuntimeError: out of memory" []⟩, ⟨4, .sync, .fine⟩] = some z ∧
      (z.real.execute numbers 5 (.download 1) .fine).2 = some (.inr (.host 5)) ∧
      (z.ideal.execute numbers 5 (.download 1) (z.real.named (.download 1 : OpBody NumberOp Unit ℕ) .fine)).2 =
        some (.host 6) :=
  ⟨_, rfl, rfl, rfl⟩

end PoisonedRun

end Rgpu
