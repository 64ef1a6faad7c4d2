import Mathlib.Algebra.Group.Nat.Defs
import Mathlib.Data.List.Basic
import Mathlib.Logic.Function.Basic

/-! # What a Python session computes

`Session` of `python/rgpu/server/session.py`: the tensors by id, poison in the place of what could not be
computed, and each kind of message. What PyTorch does is a parameter.

* **`Torch`** — what ops, graphs, copies and seeds do to the contents of their tensors.
* **`TorchState`** — the tensors, the contents of their storage, and the generator of random numbers.
* **`TorchSession.execute`** — one message, which the world may let fail.
* **`Unfailing.execute`** — the same message where every op succeeds. -/

namespace Rgpu

/-- The id of a tensor. -/
abbrev TensorId := ℕ

/-- A storage, named by the message that allocated it and its place among what that allocated. -/
structure Cell where
  made : ℕ
  index : ℕ
  deriving DecidableEq, Repr

/-- A tensor: a storage, and which view of it. -/
structure Handle where
  cell : Cell
  view : ℕ
  deriving DecidableEq, Repr

/-- `Poison`: what failed, and how. -/
structure Poison where
  op : String
  message : String
  deriving DecidableEq, Repr

/-- What an id stands for. -/
inductive Slot (η : Type)
  | tensor (h : Handle)
  /-- A value that is no tensor. -/
  | plain (x : η)
  | poison (p : Poison)
  deriving DecidableEq, Repr

/-- An argument as an op sees it: a tensor with the contents of its storage, or another value. -/
inductive Arg (κ η : Type)
  | tensor (h : Handle) (contents : κ)
  | plain (x : η)
  deriving DecidableEq, Repr

/-- A storage an op returns a tensor on: an argument's, or a new one. -/
inductive Place
  | arg (i : ℕ)
  | fresh (i : ℕ)
  deriving DecidableEq, Repr

/-- A leaf of what an op returns. -/
inductive Out (η : Type)
  | tensor (place : Place) (view : ℕ)
  | plain (x : η)
  | none
  deriving DecidableEq, Repr

/-- What an op does when it succeeds. -/
structure Effect (κ η ρ : Type) where
  outs : List (Out η)
  /-- The arguments written to, with the new contents of their storage. -/
  writes : List (ℕ × κ)
  /-- The contents of the new storage. -/
  fresh : List κ
  rng : ρ

/-- A leaf of the answer to `RUN_SYNC`: a tensor's id, dtype, shape, strides and offset, or a value. -/
inductive Description (η : Type)
  | tensor (id : TensorId) (layout : η)
  | plain (x : η)
  | none
  deriving DecidableEq, Repr

/-- The value of an answer. -/
inductive OpAnswer (η : Type)
  | host (x : η)
  | described (ds : List (Description η))
  /-- To `SYNC` and `ACK`. -/
  | null
  deriving DecidableEq, Repr

/-- PyTorch: ops (with all their arguments but tensors sent before), compiled graphs (or what is called
where none was compiled), and what surrounds them. An argument is missing where its id names nothing. -/
structure Torch (ω γ κ η ρ : Type) where
  /-- `name.overload`. -/
  label : ω → String
  run : ω → List (Option (Arg κ η)) → ρ → Effect κ η ρ
  call : Option γ → List (Option (Arg κ η)) → ρ → Effect κ η ρ
  /-- `copy_` of a host tensor: the contents of the storage afterwards. -/
  upload : η → Handle → κ → κ
  download : Handle → κ → η
  layout : Handle → κ → η
  seed : ℕ → ρ
  /-- The contents of a storage nothing was put into. -/
  blank : κ
  /-- What Python says of a value that is used as a tensor and is none. -/
  attributeError : η → String
  /-- Whether the wire can carry an answer. -/
  encodes : OpAnswer η → Bool

/-- Tensors, storage, random numbers. -/
structure TorchState (κ η ρ : Type) where
  tensors : TensorId → Option (Slot η)
  heap : Cell → κ
  rng : ρ

namespace TorchState

variable {κ η ρ : Type}

/-- What an id stands for as an argument, if it is no poison. -/
def arg (st : TorchState κ η ρ) (id : TensorId) : Option (Arg κ η) :=
  match st.tensors id with
  | some (.tensor h) => some (.tensor h (st.heap h.cell))
  | some (.plain x) => some (.plain x)
  | some (.poison _) | none => none

/-- The storage of an argument. -/
def cellOf (args : List (Option (Arg κ η))) (i : ℕ) : Option Cell :=
  match args[i]? with
  | some (some (.tensor h _)) => some h.cell
  | _ => none

/-- Write to the storage of arguments, in order. -/
def write (heap : Cell → κ) (args : List (Option (Arg κ η))) (writes : List (ℕ × κ)) : Cell → κ :=
  writes.foldl (fun heap w =>
    match cellOf args w.1 with
    | some c => Function.update heap c w.2
    | none => heap) heap

/-- A leaf as the session keeps it: an id that is given nothing stands for nothing. -/
def slotOf (seq : ℕ) (args : List (Option (Arg κ η))) : Out η → Option (Slot η)
  | .tensor (.arg i) view => (cellOf args i).map fun c => .tensor ⟨c, view⟩
  | .tensor (.fresh i) view => some (.tensor ⟨⟨seq, i⟩, view⟩)
  | .plain x => some (.plain x)
  | .none => none

/-- The contents of storage after an op has succeeded. -/
def perform (blank : κ) (st : TorchState κ η ρ) (seq : ℕ) (args : List (Option (Arg κ η)))
    (f : Effect κ η ρ) : TorchState κ η ρ :=
  { st with
    heap := fun c =>
      if c.made = seq then f.fresh.getD c.index blank else write st.heap args f.writes c
    rng := f.rng }

/-- An id is given what a leaf is. -/
def put (tensors : TensorId → Option (Slot η)) (id : Option TensorId) (x : Option (Slot η)) :
    TensorId → Option (Slot η) :=
  match id with
  | some id => Function.update tensors id x
  | none => tensors

/-- `_store`, where there are as many leaves as ids. -/
def store (st : TorchState κ η ρ) (ids : List (Option TensorId)) (xs : List (Option (Slot η))) :
    TorchState κ η ρ :=
  { st with tensors := (ids.zip xs).foldl (fun tensors p => put tensors p.1 p.2) st.tensors }

/-- `_poison`. -/
def poison (st : TorchState κ η ρ) (ids : List (Option TensorId)) (p : Poison) : TorchState κ η ρ :=
  { st with tensors := ids.foldl (fun tensors id => put tensors id (some (.poison p))) st.tensors }

/-- The result of `RUN_SYNC` is given ids by the server, from a first one on. -/
def describe (layout : Handle → κ → η) (st : TorchState κ η ρ) (next : TensorId) :
    List (Option (Slot η)) → TorchState κ η ρ × TensorId × List (Description η)
  | [] => (st, next, [])
  | x :: xs =>
      match x with
      | some (.tensor h) =>
          let (st', last, ds) := describe layout
            { st with tensors := Function.update st.tensors next (some (.tensor h)) } (next + 1) xs
          (st', last, .tensor next (layout h (st.heap h.cell)) :: ds)
      | some (.plain v) =>
          let (st', last, ds) := describe layout st next xs
          (st', last, .plain v :: ds)
      | some (.poison _) | none =>
          let (st', last, ds) := describe layout st next xs
          (st', last, .none :: ds)

/-- `_free`. -/
def free (st : TorchState κ η ρ) (ids : List TensorId) : TorchState κ η ρ :=
  { st with tensors := fun id => if id ∈ ids then none else st.tensors id }

end TorchState

/-- A message. -/
inductive OpBody (ω γ η : Type)
  | run (op : ω) (refs : List TensorId) (outs : List (Option TensorId))
  | upload (dst : TensorId) (host : η)
  | free (ids : List TensorId)
  | seed (n : ℕ)
  | compile (gid : ℕ) (g : γ)
  | call (gid : ℕ) (refs : List TensorId) (outs : List (Option TensorId))
  | runSync (op : ω) (refs : List TensorId)
  | download (id : TensorId)
  | sync
  | ack
  /-- A kind the server does not know. -/
  | unknown (kind : ℕ)
  deriving DecidableEq, Repr

/-- What becomes of the op of a message. -/
inductive Fate (κ : Type)
  /-- It succeeds. -/
  | fine
  /-- It is refused before its arguments are looked at. -/
  | refused (error : String)
  /-- It raises, having written to some of its arguments. -/
  | raises (error : String) (partially : List (ℕ × κ))
  deriving DecidableEq, Repr

/-- `Session`. -/
structure TorchSession (γ κ η ρ : Type) where
  state : TorchState κ η ρ
  /-- The first failure that has not been reported. -/
  firstError : Option Poison := none
  lastSeq : ℕ := 0
  graphs : ℕ → Option (γ ⊕ Poison) := fun _ => none
  nextServerId : TensorId := 2 ^ 62

namespace TorchSession

variable {ω γ κ η ρ : Type}

/-- `_fail`. -/
def fail (x : TorchSession γ κ η ρ) (op error : String) (ids : List (Option TensorId)) :
    TorchSession γ κ η ρ :=
  { x with
    state := x.state.poison ids ⟨op, error⟩
    firstError := x.firstError.or (some ⟨op, error⟩) }

/-- `_args`: the arguments, or what the first one that cannot be had is: missing (`KeyError`) or poison. -/
def args (st : TorchState κ η ρ) : List TensorId → (TensorId ⊕ Poison) ⊕ List (Arg κ η)
  | [] => .inr []
  | id :: ids =>
      match st.tensors id with
      | none => .inl (.inl id)
      | some (.poison p) => .inl (.inr p)
      | some (.tensor h) =>
          match args st ids with
          | .inl e => .inl e
          | .inr as => .inr (.tensor h (st.heap h.cell) :: as)
      | some (.plain v) =>
          match args st ids with
          | .inl e => .inl e
          | .inr as => .inr (.plain v :: as)

/-- What Python says of an id that names nothing. -/
def keyError (id : TensorId) : String := s!"KeyError: 'no tensor with id {id}'"

/-- The rest of `_run` and of `_call`, from the arguments on. -/
def perform (t : Torch ω γ κ η ρ) (x : TorchSession γ κ η ρ) (seq : ℕ) (label : String)
    (effect : List (Option (Arg κ η)) → ρ → Effect κ η ρ) (refs : List TensorId)
    (outs : List (Option TensorId)) (fate : Fate κ) : TorchSession γ κ η ρ :=
  match args x.state refs with
  -- an argument that is not there is a failure of this op
  | .inl (.inl id) => x.fail label (keyError id) outs
  -- `_Skip`: what made the poison is noted already, and only spreads
  | .inl (.inr p) => { x with state := x.state.poison outs p }
  | .inr as =>
      let as := as.map some
      match fate with
      | .raises error partially =>
          fail { x with state := { x.state with heap := TorchState.write x.state.heap as partially } }
            label error outs
      | .fine | .refused _ =>
          let f := effect as x.state.rng
          let st := x.state.perform t.blank seq as f
          let xs := f.outs.map (TorchState.slotOf seq as)
          -- `_store` has no ids to give
          if outs = [] then { x with state := st }
          -- the op has run by then, and only its results are refused
          else if xs.length ≠ outs.length then
            fail { x with state := st } label
              s!"RuntimeError: op produced {xs.length} outputs, client expected {outs.length}" outs
          else { x with state := st.store outs xs }

/-- `_run`. -/
def run (t : Torch ω γ κ η ρ) (x : TorchSession γ κ η ρ) (seq : ℕ) (op : ω) (refs : List TensorId)
    (outs : List (Option TensorId)) (fate : Fate κ) : TorchSession γ κ η ρ :=
  match fate with
  | .refused error => x.fail (t.label op) error outs
  | .fine | .raises _ _ => x.perform t seq (t.label op) (t.run op) refs outs fate

/-- `_upload`. -/
def upload (t : Torch ω γ κ η ρ) (x : TorchSession γ κ η ρ) (dst : TensorId) (host : η)
    (fate : Fate κ) : TorchSession γ κ η ρ :=
  let label := s!"upload to tensor {dst}"
  match x.state.tensors dst with
  | none => x.fail label (keyError dst) [some dst]
  -- skipped: what failed before is noted
  | some (.poison _) => x
  | some (.plain v) => x.fail label (t.attributeError v) [some dst]
  | some (.tensor h) =>
      match fate with
      | .refused error => x.fail label error [some dst]
      | .raises error partially =>
          fail { x with state := { x.state with
            heap := TorchState.write x.state.heap [(some (.tensor h (x.state.heap h.cell)) : Option (Arg κ η))]
              partially } }
            label error [some dst]
      | .fine =>
          { x with state := { x.state with
            heap := Function.update x.state.heap h.cell (t.upload host h (x.state.heap h.cell)) } }

/-- `_compile`. -/
def compile (x : TorchSession γ κ η ρ) (gid : ℕ) (g : γ) (fate : Fate κ) : TorchSession γ κ η ρ :=
  match fate with
  | .fine => { x with graphs := Function.update x.graphs gid (some (.inl g)) }
  | .refused error | .raises error _ =>
      let p : Poison := ⟨s!"compile of graph {gid}", error⟩
      { x with graphs := Function.update x.graphs gid (some (.inr p)), firstError := x.firstError.or (some p) }

/-- `_call`. -/
def call (t : Torch ω γ κ η ρ) (x : TorchSession γ κ η ρ) (seq gid : ℕ) (refs : List TensorId)
    (outs : List (Option TensorId)) (fate : Fate κ) : TorchSession γ κ η ρ :=
  let label := s!"graph {gid}"
  match x.graphs gid with
  -- already reported when the compile failed
  | some (.inr p) => { x with state := x.state.poison outs p }
  -- a failure of its own, not the echo of an earlier one
  | none => x.fail label "LookupError: was never compiled" outs
  | some (.inl g) => x.perform t seq label (t.call (some g)) refs outs fate

/-- `_run_sync`: the session, and the answer or the error. -/
def runSync (t : Torch ω γ κ η ρ) (x : TorchSession γ κ η ρ) (seq : ℕ) (op : ω) (refs : List TensorId)
    (fate : Fate κ) : TorchSession γ κ η ρ × (Poison ⊕ OpAnswer η) :=
  match fate with
  | .refused error => (x, .inl ⟨t.label op, error⟩)
  | .fine | .raises _ _ =>
      match args x.state refs with
      -- an exception of a call that is waited for is the reply, and poisons nothing
      | .inl (.inl id) => (x, .inl ⟨t.label op, keyError id⟩)
      | .inl (.inr p) => (x, .inl p)
      | .inr as =>
          let as := as.map some
          match fate with
          | .raises error partially =>
              ({ x with state := { x.state with heap := TorchState.write x.state.heap as partially } },
                .inl ⟨t.label op, error⟩)
          | .fine | .refused _ =>
              let f := t.run op as x.state.rng
              let (st, next, ds) := (x.state.perform t.blank seq as f).describe t.layout x.nextServerId
                (f.outs.map (TorchState.slotOf seq as))
              ({ x with state := st, nextServerId := next }, .inr (.described ds))

/-- `_download`: the answer or the error. -/
def download (t : Torch ω γ κ η ρ) (x : TorchSession γ κ η ρ) (id : TensorId) (fate : Fate κ) :
    Poison ⊕ OpAnswer η :=
  let label := s!"download of tensor {id}"
  match x.state.tensors id with
  | none => .inl ⟨label, keyError id⟩
  | some (.poison p) => .inl p
  | some (.plain v) => .inl ⟨label, t.attributeError v⟩
  | some (.tensor h) =>
      match fate with
      | .fine => .inr (.host (t.download h (x.state.heap h.cell)))
      | .refused error | .raises error _ => .inl ⟨label, error⟩

/-- A message the client waits for: what is waited for, unless a failure is to be reported first. -/
def waited (t : Torch ω γ κ η ρ) (x : TorchSession γ κ η ρ) (seq : ℕ) (fate : Fate κ) :
    OpBody ω γ η → TorchSession γ κ η ρ × (Poison ⊕ OpAnswer η)
  | .runSync op refs => x.runSync t seq op refs fate
  | .download id => (x, x.download t id fate)
  | .sync =>
      match fate with
      | .fine => (x, .inr .null)
      | .refused error | .raises error _ => (x, .inl ⟨"sync", error⟩)
  | _ => (x, .inr .null)

/-- `execute`: the session, and the reply, if there is one. An answer the wire cannot carry is an
exception, and no reply. -/
def execute (t : Torch ω γ κ η ρ) (x : TorchSession γ κ η ρ) (seq : ℕ) (m : OpBody ω γ η) (fate : Fate κ) :
    TorchSession γ κ η ρ × Option (Poison ⊕ OpAnswer η) :=
  -- applied before a reconnect
  if seq ≤ x.lastSeq then (x, none)
  else
    let x := { x with lastSeq := seq }
    match m with
    | .run op refs outs => (x.run t seq op refs outs fate, none)
    | .upload dst host => (x.upload t dst host fate, none)
    | .free ids => ({ x with state := x.state.free ids }, none)
    -- the generator is the process's: what other sessions draw from it is not in this state
    | .seed n => ({ x with state := { x.state with rng := t.seed n } }, none)
    | .compile gid g => (x.compile gid g fate, none)
    | .call gid refs outs => (x.call t seq gid refs outs fate, none)
    | .unknown kind => (x.fail s!"message kind {kind}" "ValueError: unknown message" [], none)
    | .runSync _ _ | .download _ | .sync | .ack =>
        match x.firstError with
        -- the failure is reported in the place of what is waited for, which is not done
        | some p => ({ x with firstError := none }, some (.inl p))
        | none =>
            match x.waited t seq fate m with
            | (x, .inl p) => (x, some (.inl p))
            | (x, .inr a) => (x, if t.encodes a then some (.inr a) else none)

end TorchSession

/-- A session in which every op succeeds. -/
structure Unfailing (γ κ η ρ : Type) where
  state : TorchState κ η ρ
  lastSeq : ℕ := 0
  graphs : ℕ → Option γ := fun _ => none

namespace Unfailing

variable {ω γ κ η ρ : Type}

/-- An op is run, and its results are given the ids the client chose. -/
def perform (t : Torch ω γ κ η ρ) (y : Unfailing γ κ η ρ) (seq : ℕ)
    (effect : List (Option (Arg κ η)) → ρ → Effect κ η ρ) (refs : List TensorId)
    (outs : List (Option TensorId)) : Unfailing γ κ η ρ :=
  let as := refs.map y.state.arg
  let f := effect as y.state.rng
  { y with state := (y.state.perform t.blank seq as f).store outs (f.outs.map (TorchState.slotOf seq as)) }

/-- One message. The results of `RUN_SYNC` get the ids the client was told of, from `named` on, if it
was told of any: messages that follow name what the client knows. -/
def execute (t : Torch ω γ κ η ρ) (y : Unfailing γ κ η ρ) (seq : ℕ) (m : OpBody ω γ η)
    (named : Option TensorId) : Unfailing γ κ η ρ × Option (OpAnswer η) :=
  if seq ≤ y.lastSeq then (y, none)
  else
    let y := { y with lastSeq := seq }
    match m with
    | .run op refs outs => (y.perform t seq (t.run op) refs outs, none)
    | .upload dst host =>
        match y.state.tensors dst with
        | some (.tensor h) =>
            ({ y with state := { y.state with
              heap := Function.update y.state.heap h.cell (t.upload host h (y.state.heap h.cell)) } }, none)
        | _ => (y, none)
    | .free ids => ({ y with state := y.state.free ids }, none)
    | .seed n => ({ y with state := { y.state with rng := t.seed n } }, none)
    | .compile gid g => ({ y with graphs := Function.update y.graphs gid (some g) }, none)
    | .call gid refs outs => (y.perform t seq (t.call (y.graphs gid)) refs outs, none)
    | .unknown _ => (y, none)
    | .runSync op refs =>
        let as := refs.map y.state.arg
        let f := t.run op as y.state.rng
        let st := y.state.perform t.blank seq as f
        match named with
        | none => ({ y with state := st }, none)
        | some next =>
            let (st, _, ds) := st.describe t.layout next (f.outs.map (TorchState.slotOf seq as))
            ({ y with state := st }, some (.described ds))
    | .download id =>
        match y.state.tensors id with
        | some (.tensor h) => (y, some (.host (t.download h (y.state.heap h.cell))))
        | _ => (y, none)
    | .sync | .ack => (y, some .null)

end Unfailing

end Rgpu
