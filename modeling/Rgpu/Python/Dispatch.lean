import Rgpu.Foundations.StepSystem
import Rgpu.Foundations.Table
import Rgpu.Python.TorchSession

/-! # Ops that are streamed

The client's side of an op (`python/rgpu/dispatch.py`, `tensor.py`, `compile.py` and the queue of `session.py`),
with a session that executes what is queued. A tensor of the application is a meta tensor with an id; its finalizer
puts the id on `pending_frees`, and the ids go out ahead of the next message.

* **`Dispatcher.prepare`** — the message for a call, and the ids of what comes out of it.
* **`Dispatcher.step`** — any number of threads that make calls, variables that come and go, meta tensors that are
  collected once nothing refers to them, and the session. -/

namespace Rgpu

open Foundations

/-- A meta tensor, by how many there were before. -/
abbrev MetaId := ℕ

/-- A variable of the application. -/
abbrev Var := ℕ

/-- A thread of the application. -/
abbrev ThreadNo := ℕ

/-- `wire.SERVER_ID_BASE` -/
def serverIdBase : ℕ := 2 ^ 62

/-- A leaf of what the meta kernel of an op returns. -/
inductive Leaf (η : Type)
  /-- A meta tensor without an id. -/
  | new
  /-- An input: the op writes to it and returns it, or hands it back. -/
  | input (i : ℕ)
  | plain (x : η)
  | none
  deriving DecidableEq, Repr

/-- What a variable has. -/
inductive Val (η : Type)
  | tensor (m : MetaId)
  | plain (x : η)
  deriving DecidableEq, Repr

/-- What a thread calls. -/
inductive Job (ω γ η : Type)
  | run (op : ω)
  /-- A compiled graph, by the id that `compile.py` gave it. -/
  | call (gid : ℕ)
  | upload (host : η)
  | seed (n : ℕ)
  | compile (g : γ)
  | runSync (op : ω)
  | download
  | sync
  deriving DecidableEq, Repr

/-- What the application is told by a call that waits: the ids of tensors are not for it. -/
inductive Told (η : Type)
  | host (x : η)
  | leaves (xs : List (Leaf η × Option η))
  | null
  | error (p : Poison)
  deriving DecidableEq, Repr

/-- A call in progress: the message that is to be sent or answered, and the objects it keeps alive. -/
structure CallFrame (ω γ η : Type) where
  body : OpBody ω γ η
  args : List MetaId
  results : List (Option (Val η))
  targets : List Var

/-- The process of the application, and the session. -/
structure Dispatcher (ω γ κ η ρ : Type) where
  vars : Table Var (Val η) := .empty
  /-- `_rgpu_id` of each meta tensor that there is. -/
  metas : MetaId → Option TensorId := fun _ => none
  made : ℕ := 0
  /-- `_next_id` -/
  nextId : ℕ := 1
  /-- `pending_frees` -/
  pendingFrees : List TensorId := []
  /-- `_graph_ids` -/
  nextGraph : ℕ := 1
  /-- The graphs that can be called. -/
  compiled : List ℕ := []
  frames : Table ThreadNo (CallFrame ω γ η) := .empty
  /-- The thread that waits for a reply and has the lock. -/
  waiting : Option ThreadNo := none
  seq : ℕ := 0
  /-- What is queued, or written and not yet executed. -/
  queue : List (ℕ × OpBody ω γ η) := []
  server : TorchSession γ κ η ρ
  reply : Option (Poison ⊕ OpAnswer η) := none
  /-- What the application has been told. -/
  told : List (Told η) := []

/-- One step. -/
inductive DispatchAction (ω γ κ η : Type)
  /-- A call, as far as the message: the meta kernel has said what comes out. -/
  | start (th : ThreadNo) (job : Job ω γ η) (args : List Var) (leaves : List (Leaf η)) (targets : List Var)
  /-- An exception ends it, in `_queue` behind the `FREE` or before. -/
  | abandon (th : ThreadNo) (freed : Bool)
  /-- The message is queued. -/
  | send (th : ThreadNo)
  /-- The session executes the next message. -/
  | execute (fate : Fate κ)
  /-- The thread that waits has its reply. -/
  | answer
  /-- One variable is given what another has. -/
  | assign (v w : Var)
  | forget (v : Var)
  /-- A meta tensor is collected, and its finalizer runs. -/
  | collect (m : MetaId)
  deriving DecidableEq, Repr

/-- A message that is waited for. -/
def OpBody.waits {ω γ η : Type} : OpBody ω γ η → Bool
  | .runSync _ _ | .download _ | .sync | .ack => true
  | _ => false

/-- The graph that a message compiles. -/
def OpBody.compiles {ω γ η : Type} : OpBody ω γ η → List ℕ
  | .compile gid _ => [gid]
  | _ => []

namespace Dispatcher

variable {ω γ κ η ρ : Type}

/-- Give variables what a call returned. -/
def assignAll (vars : Table Var (Val η)) : List (Var × Option (Val η)) → Table Var (Val η)
  | [] => vars
  | (v, some x) :: l => assignAll (vars.insert v x) l
  | (v, none) :: l => assignAll (vars.erase v) l

/-- `register`, with an id -/
def register (s : Dispatcher ω γ κ η ρ) (id : TensorId) : Dispatcher ω γ κ η ρ :=
  { s with metas := Function.update s.metas s.made (some id), made := s.made + 1 }

/-- `register`, without an id -/
def registerNext (s : Dispatcher ω γ κ η ρ) : Dispatcher ω γ κ η ρ :=
  { s.register s.nextId with nextId := s.nextId + 1 }

/-- `_wrap_outputs`, and what `run` of `compile.py` does: the ids for the leaves, and what is returned. -/
def wrapOutputs (args : List MetaId) : Dispatcher ω γ κ η ρ → List (Leaf η) →
    Dispatcher ω γ κ η ρ × List (Option TensorId) × List (Option (Val η))
  | s, [] => (s, [], [])
  | s, .new :: ls =>
      let (t, ids, xs) := wrapOutputs args s.registerNext ls
      (t, some s.nextId :: ids, some (.tensor s.made) :: xs)
  -- the op handed back one of its inputs, which has an id
  | s, .input i :: ls =>
      let (t, ids, xs) := wrapOutputs args s ls
      (t, none :: ids, args[i]?.map .tensor :: xs)
  | s, .plain x :: ls =>
      let (t, ids, xs) := wrapOutputs args s ls
      (t, none :: ids, some (.plain x) :: xs)
  | s, .none :: ls =>
      let (t, ids, xs) := wrapOutputs args s ls
      (t, none :: ids, none :: xs)

/-- `rebuild`: the tensors that the server describes have its ids. -/
def rebuild : Dispatcher ω γ κ η ρ → List (Description η) → Dispatcher ω γ κ η ρ × List (Option (Val η))
  | s, [] => (s, [])
  | s, .tensor id _ :: ds =>
      let (t, xs) := rebuild (s.register id) ds
      (t, some (.tensor s.made) :: xs)
  | s, .plain x :: ds =>
      let (t, xs) := rebuild s ds
      (t, some (.plain x) :: xs)
  | s, .none :: ds =>
      let (t, xs) := rebuild s ds
      (t, none :: xs)

/-- The meta tensors that arguments are. -/
def resolve (s : Dispatcher ω γ κ η ρ) : List Var → Option (List MetaId)
  | [] => some []
  | v :: vs =>
      match s.vars.find v, s.resolve vs with
      | some (.tensor m), some ms => some (m :: ms)
      | _, _ => none

/-- `id_of`, of each argument. -/
def idsOf (s : Dispatcher ω γ κ η ρ) (ms : List MetaId) : List TensorId := ms.filterMap s.metas

/-- A variable or a call in progress refers to a meta tensor. -/
def refersTo (s : Dispatcher ω γ κ η ρ) (m : MetaId) : Prop :=
  (∃ e ∈ s.vars.entries, e.2 = .tensor m) ∨
    ∃ e ∈ s.frames.entries, m ∈ e.2.args ∨ some (.tensor m) ∈ e.2.results

instance [DecidableEq η] (s : Dispatcher ω γ κ η ρ) (m : MetaId) : Decidable (s.refersTo m) :=
  inferInstanceAs (Decidable (_ ∨ _))

/-- The end of `_append`. What `_append` does first, above `REPLAY_ACK_AT`, is left out: it sends an `ACK` of its own and
waits for it, and when that fails the ids just taken off `pending_frees` are lost (`Freeing` has both). -/
def push (s : Dispatcher ω γ κ η ρ) (b : OpBody ω γ η) : Dispatcher ω γ κ η ρ :=
  { s with seq := s.seq + 1, queue := s.queue ++ [(s.seq + 1, b)] }

/-- What `_queue` does ahead of a message. -/
def queueFrees (s : Dispatcher ω γ κ η ρ) : Dispatcher ω γ κ η ρ :=
  if s.pendingFrees = [] then s else { s.push (.free s.pendingFrees) with pendingFrees := [] }

/-- The message for a call. The ids for what comes out are chosen before the arguments are looked at. -/
def prepare (s : Dispatcher ω γ κ η ρ) (job : Job ω γ η) (ms : List MetaId) (leaves : List (Leaf η)) :
    Option (Dispatcher ω γ κ η ρ × OpBody ω γ η × List (Option (Val η))) :=
  match job, ms, leaves with
  | .run op, ms, leaves =>
      let (t, ids, xs) := wrapOutputs ms s leaves
      some (t, .run op (t.idsOf ms) ids, xs)
  | .call gid, ms, leaves =>
      -- a graph is called once its `COMPILE` has been queued
      if gid ∈ s.compiled then
        let (t, ids, xs) := wrapOutputs ms s leaves
        some (t, .call gid (t.idsOf ms) ids, xs)
      else none
  | .upload host, [m], [] => (s.metas m).map fun id => (s, .upload id host, [])
  | .seed n, [], [] => some (s, .seed n, [])
  | .compile g, [], [] => some ({ s with nextGraph := s.nextGraph + 1 }, .compile s.nextGraph g, [])
  | .runSync op, ms, [] => some (s, .runSync op (s.idsOf ms), [])
  | .download, [m], [] => (s.metas m).map fun id => (s, .download id, [])
  | .sync, [], [] => some (s, .sync, [])
  | _, _, _ => none

/-- A leaf of a description, without the id. -/
def leafOf : Description η → Leaf η × Option η
  | .tensor _ layout => (.new, some layout)
  | .plain x => (.plain x, none)
  | .none => (.none, none)

/-- What the application is told of an answer. -/
def toldOf : Poison ⊕ OpAnswer η → Told η
  | .inl p => .error p
  | .inr (.host x) => .host x
  | .inr (.described ds) => .leaves (ds.map leafOf)
  | .inr .null => .null

/-- What comes back with a reply: the tensors of a `RUN_SYNC`. -/
def received (s : Dispatcher ω γ κ η ρ) : Poison ⊕ OpAnswer η → Dispatcher ω γ κ η ρ × List (Option (Val η))
  | .inr (.described ds) => rebuild s ds
  | _ => (s, [])

/-- One step. -/
def step [DecidableEq η] (t : Torch ω γ κ η ρ) (s : Dispatcher ω γ κ η ρ) :
    DispatchAction ω γ κ η → Option (Dispatcher ω γ κ η ρ)
  | .start th job args leaves targets =>
      match s.frames.find th, s.resolve args with
      | none, some ms =>
          match s.prepare job ms leaves with
          | some (s, body, xs) => some { s with frames := s.frames.insert th ⟨body, ms, xs, targets⟩ }
          | none => none
      | _, _ => none
  | .abandon th freed =>
      match s.frames.find th with
      | some _ =>
          -- nobody has the lock, so that `_queue` may have begun
          if s.waiting = none then
            some { (if freed then s.queueFrees else s) with frames := s.frames.erase th }
          -- another thread has it: the exception comes before `_queue`
          else if s.waiting ≠ some th ∧ freed = false then some { s with frames := s.frames.erase th }
          else none
      | none => none
  | .send th =>
      match s.frames.find th, s.waiting with
      | some f, none =>
          -- under the lock, what is to be freed goes ahead of the message
          let s := s.queueFrees.push f.body
          -- the lock is kept until the reply is there
          if f.body.waits then some { s with waiting := some th }
          else
            some { s with
              frames := s.frames.erase th
              vars := assignAll s.vars (f.targets.zip f.results)
              compiled := f.body.compiles ++ s.compiled }
      | _, _ => none
  | .execute fate =>
      match s.queue with
      | [] => none
      | (n, b) :: rest =>
          let (x, r) := s.server.execute t n b fate
          some { s with server := x, queue := rest, reply := s.reply.or r }
  | .answer =>
      match s.waiting, s.reply with
      | some th, some r =>
          match s.frames.find th with
          | some f =>
              let (s, xs) := s.received r
              some { s with
                frames := s.frames.erase th
                waiting := none
                reply := none
                vars := assignAll s.vars (f.targets.zip xs)
                told := s.told ++ [toldOf r] }
          | none => none
      | _, _ => none
  | .assign v w =>
      match s.vars.find w with
      | some x => some { s with vars := s.vars.insert v x }
      | none => none
  | .forget v => some { s with vars := s.vars.erase v }
  | .collect m =>
      match s.metas m with
      | some id =>
          -- the finalizer runs when nothing refers to the tensor any more
          if s.refersTo m then none
          else some { s with metas := Function.update s.metas m none, pendingFrees := s.pendingFrees ++ [id] }
      | none => none

end Dispatcher

end Rgpu
