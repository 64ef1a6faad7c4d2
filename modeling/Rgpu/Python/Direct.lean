import Rgpu.Python.Dispatch

/-! # One machine

What `dispatch.py` is to be like: the calls of an application where there is nothing between it and the tensors.

* **`Direct.step`** — every call is executed on the spot; variables stand for tensors themselves.
* **`Leaf.Foretells`** — what a meta kernel says of a result.
* **`Paired`** — an application that streams, and beside it the machine on which the same calls are executed. -/

namespace Rgpu

open Foundations

/-- A call in progress: what is called, on which tensors. -/
structure DirectFrame (ω γ η : Type) where
  job : Job ω γ η
  /-- The id for a graph that is compiled. -/
  gid : ℕ
  args : List Handle
  /-- What the meta kernel says that comes out. The machine does not read it. -/
  leaves : List (Leaf η)
  targets : List Var

/-- How many ids for graphs a call takes. -/
def Job.graphIds {ω γ η : Type} : Job ω γ η → ℕ
  | .compile _ => 1
  | _ => 0

/-- A machine that executes every call on the spot. -/
structure Direct (ω γ κ η ρ : Type) where
  vars : Var → Option (Slot η) := fun _ => none
  heap : Cell → κ
  rng : ρ
  /-- `_graph_ids` -/
  nextGraph : ℕ := 1
  graphs : ℕ → Option γ := fun _ => none
  frames : ThreadNo → Option (DirectFrame ω γ η) := fun _ => none
  /-- What the thread that waits is to be told and given. -/
  due : Option (ThreadNo × List (Var × Option (Slot η)) × Told η) := none
  told : List (Told η) := []

namespace Direct

variable {ω γ κ η ρ : Type}

/-- Give variables what a call returned. -/
def assignAll (vars : Var → Option (Slot η)) : List (Var × Option (Slot η)) → Var → Option (Slot η)
  | [] => vars
  | (v, x) :: l => assignAll (Function.update vars v x) l

/-- The tensor that a variable stands for. -/
def tensorOf (d : Direct ω γ κ η ρ) (v : Var) : Option Handle :=
  match d.vars v with
  | some (.tensor h) => some h
  | _ => none

/-- Arguments as an op sees them. -/
def argsOf (d : Direct ω γ κ η ρ) (hs : List Handle) : List (Option (Arg κ η)) :=
  hs.map fun h => some (.tensor h (d.heap h.cell))

/-- The contents of storage after an op; new storage gets its names from `stamp`. -/
def perform (t : Torch ω γ κ η ρ) (d : Direct ω γ κ η ρ) (stamp : ℕ) (as : List (Option (Arg κ η)))
    (f : Effect κ η ρ) : Direct ω γ κ η ρ :=
  { d with
    heap := fun c =>
      if c.made = stamp then f.fresh.getD c.index t.blank else TorchState.write d.heap as f.writes c
    rng := f.rng }

/-- What the application can see of a result: values, and the layouts of tensors. -/
def leafOf (t : Torch ω γ κ η ρ) (d : Direct ω γ κ η ρ) : Option (Slot η) → Leaf η × Option η
  | some (.tensor h) => (.new, some (t.layout h (d.heap h.cell)))
  | some (.plain x) => (.plain x, none)
  | some (.poison _) | none => (.none, none)

/-- What an op is to do. -/
def effect (t : Torch ω γ κ η ρ) (d : Direct ω γ κ η ρ) (hs : List Handle) : Job ω γ η → Effect κ η ρ
  | .run op | .runSync op => t.run op (d.argsOf hs) d.rng
  | .call gid => t.call (d.graphs gid) (d.argsOf hs) d.rng
  | _ => ⟨[], [], [], d.rng⟩

/-- What comes out of an op. -/
def results (t : Torch ω γ κ η ρ) (d : Direct ω γ κ η ρ) (stamp : ℕ) (hs : List Handle) (job : Job ω γ η) :
    List (Option (Slot η)) :=
  (d.effect t hs job).outs.map (TorchState.slotOf stamp (d.argsOf hs))

/-- A call is executed. -/
def call (t : Torch ω γ κ η ρ) (stamp : ℕ) (d : Direct ω γ κ η ρ) (th : ThreadNo) (f : DirectFrame ω γ η) :
    Direct ω γ κ η ρ :=
  let d := { d with frames := Function.update d.frames th none }
  match f.job, f.args with
  | .run op, hs =>
      { d.perform t stamp (d.argsOf hs) (d.effect t hs (.run op)) with
        vars := assignAll d.vars (f.targets.zip (d.results t stamp hs (.run op))) }
  | .call gid, hs =>
      { d.perform t stamp (d.argsOf hs) (d.effect t hs (.call gid)) with
        vars := assignAll d.vars (f.targets.zip (d.results t stamp hs (.call gid))) }
  | .upload host, [h] => { d with heap := Function.update d.heap h.cell (t.upload host h (d.heap h.cell)) }
  | .seed n, _ => { d with rng := t.seed n }
  | .compile g, _ => { d with graphs := Function.update d.graphs f.gid (some g) }
  | .runSync op, hs =>
      let e := d.perform t stamp (d.argsOf hs) (d.effect t hs (.runSync op))
      let xs := d.results t stamp hs (.runSync op)
      { e with due := some (th, f.targets.zip xs, .leaves (xs.map (e.leafOf t))) }
  | .download, [h] => { d with due := some (th, [], .host (t.download h (d.heap h.cell))) }
  | .sync, _ => { d with due := some (th, [], .null) }
  | _, _ => d

/-- One step; those of the session and of the collector are none. -/
def step (t : Torch ω γ κ η ρ) (stamp : ℕ) (d : Direct ω γ κ η ρ) : DispatchAction ω γ κ η → Direct ω γ κ η ρ
  | .start th job args leaves targets =>
      { d with
        nextGraph := d.nextGraph + job.graphIds
        frames := Function.update d.frames th
          (some ⟨job, d.nextGraph, args.filterMap d.tensorOf, leaves, targets⟩) }
  | .abandon th _ => { d with frames := Function.update d.frames th none }
  | .send th =>
      match d.frames th with
      | some f => d.call t stamp th f
      | none => d
  | .answer =>
      match d.due with
      | some (_, l, told) => { d with vars := assignAll d.vars l, due := none, told := d.told ++ [told] }
      | none => d
  | .assign v w => { d with vars := Function.update d.vars v (d.vars w) }
  | .forget v => { d with vars := Function.update d.vars v none }
  -- what is queued was done when it was sent, and nothing is kept by id
  | .execute _ | .collect _ => d

end Direct

/-- A meta kernel is right about a result of an op on these tensors. -/
def Leaf.Foretells {η : Type} (hs : List Handle) : Leaf η → Option (Slot η) → Prop
  | .new, some (.tensor _) => True
  | .input i, some (.tensor h) => hs[i]? = some h
  | .plain x, some (.plain y) => x = y
  | .none, .none => True
  | _, _ => False

/-- An application that streams, and the machine. -/
structure Paired (ω γ κ η ρ : Type) where
  client : Dispatcher ω γ κ η ρ
  direct : Direct ω γ κ η ρ

namespace Paired

variable {ω γ κ η ρ : Type}

/-- One step of both. Storage is named by the message that allocates it. -/
def step [DecidableEq η] (t : Torch ω γ κ η ρ) (z : Paired ω γ κ η ρ) (a : DispatchAction ω γ κ η) :
    Option (Paired ω γ κ η ρ) :=
  (z.client.step t a).map fun c => ⟨c, z.direct.step t c.seq a⟩

/-- What is asked of a step: ids have not run out, no op fails, and the meta kernels are right about what is
called. -/
def Foretold (t : Torch ω γ κ η ρ) (z : Paired ω γ κ η ρ) : DispatchAction ω γ κ η → Prop
  | .start _ _ _ leaves _ => z.client.nextId + leaves.length ≤ serverIdBase
  | .execute fate => fate = .fine
  | .send th => ∀ f, z.direct.frames th = some f → ((∃ op, f.job = .run op) ∨ ∃ gid, f.job = .call gid) →
      List.Forall₂ (Leaf.Foretells f.args) f.leaves
        (z.direct.results t (z.client.queueFrees.seq + 1) f.args f.job)
  | _ => True

/-- Nothing has been called. -/
def begin (heap : Cell → κ) (rng : ρ) : Paired ω γ κ η ρ where
  client := { server := { state := ⟨fun _ => none, heap, rng⟩ } }
  direct := { heap := heap, rng := rng }

end Paired

end Rgpu
