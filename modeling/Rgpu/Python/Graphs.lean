import Rgpu.Python.WireRoundTrip

/-! # Graphs that are shipped to the server (`compile.py`, `server/graphs.py`)

A graph goes to the server as a list of nodes that refer to each other by position.

* **`FxNode`**, **`Graph`** — an fx graph: its nodes are objects, whose names do not matter.
* **`serialize`** — the list of nodes that is sent; a leaf of an argument is tried on the encoder by itself.
* **`build`** — the graph that the server makes of the list. -/

namespace Rgpu.PyWire

/-- `torch.device`; the name of a type has no colon. -/
structure Device where
  type : PyStr
  index : Option ℕ
  noColon : CodePoint.char ':' ∉ type
  deriving DecidableEq

namespace Device

/-- `str(device)` -/
def str (a : Device) : PyStr :=
  match a.index with
  | none => a.type
  | some i => a.type ++ .char ':' :: PyStr.ofString (toString i)

/-- `torch.device("cpu")` -/
def cpu : Device := ⟨.ofString "cpu", none, by decide⟩

end Device

/-- A leaf of an argument that is sent as it is, if the encoder takes it. -/
inductive Scalar
  | none
  | bool (b : Bool)
  | int (i : ℤ)
  | float (bits : UInt64)
  | str (s : PyStr)
  | bytes (content : Bytes)
  | dtype (name : PyStr)
  | layout (name : PyStr)
  | memoryFormat (name : PyStr)
  | other (typeName : String)

/-- As a value of the wire. -/
def Scalar.value : Scalar → Value
  | none => .none
  | bool b => .bool b
  | int i => .int i
  | float bits => .float bits
  | str s => .str s
  | bytes content => .bytesLike (some content.length) content
  | dtype name => .dtype name
  | layout name => .layout name
  | memoryFormat name => .memoryFormat name
  | other typeName => .other typeName

/-- An argument in a graph, as `tree_map` walks it; a node is an object. -/
inductive Arg (ν : Type)
  | scalar (s : Scalar)
  | node (n : ν)
  | device (a : Device)
  | tensor
  /-- `SymInt`, `SymFloat` -/
  | symbolic
  | list (xs : List (Arg ν))
  | tuple (xs : List (Arg ν))
  | dict (es : List (DictKey × Arg ν))

/-- An overload of an op. -/
structure OpOverload where
  opNamespace : PyStr
  /-- `_schema.name`, which has the namespace in it. -/
  name : PyStr
  overload : PyStr
  deriving DecidableEq

/-- What a node calls. -/
inductive Target
  | getitem
  | op (t : OpOverload)
  | callable
  deriving DecidableEq

/-- `n.op` with the target and the arguments. -/
inductive FxOp (ν : Type)
  | placeholder (default : Option (Arg ν))
  | callFunction (target : Target) (args : List (Arg ν)) (kwargs : List (DictKey × Arg ν))
  | output (value : Arg ν)
  | other (op : String)

/-- A node of a graph. -/
structure FxNode (ν : Type) where
  id : ν
  op : FxOp ν

variable {ν : Type}

namespace Arg

mutual

/-- The keys of a `dict` are distinct, in every part of an argument. -/
def KeysDistinct : Arg ν → Prop
  | list xs => AllKeysDistinct xs
  | tuple xs => AllKeysDistinct xs
  | dict es => (es.map Prod.fst).Nodup ∧ EntryKeysDistinct es
  | scalar _ | node _ | device _ | tensor | symbolic => True

def AllKeysDistinct : List (Arg ν) → Prop
  | [] => True
  | x :: xs => x.KeysDistinct ∧ AllKeysDistinct xs

def EntryKeysDistinct : List (DictKey × Arg ν) → Prop
  | [] => True
  | (_, x) :: es => x.KeysDistinct ∧ EntryKeysDistinct es

end

/-- The outputs that an `output` node returns: those of a list or tuple, or the one that it has. -/
def outs : Arg ν → List (Arg ν)
  | list xs => xs
  | tuple xs => xs
  | a => [a]

end Arg

/-- A `dict` has each of its keys once. -/
def FxOp.KeysDistinct : FxOp ν → Prop
  | placeholder default => ∀ a, default = some a → a.KeysDistinct
  | callFunction _ args kwargs =>
      Arg.AllKeysDistinct args ∧ (kwargs.map Prod.fst).Nodup ∧ Arg.EntryKeysDistinct kwargs
  | output value => value.KeysDistinct
  | other _ => True

/-- An fx graph. -/
structure Graph (ν : Type) where
  nodes : List (FxNode ν)
  distinct : (nodes.map FxNode.id).Nodup
  keysDistinct : ∀ n ∈ nodes, n.op.KeysDistinct

/-! ### `serialize` -/

/-- What `serialize` raises. -/
inductive SerializeFailure
  | unshippable (why : String)
  | unsupportedOp (t : OpOverload)
  /-- A node that is not numbered. -/
  | keyError
  /-- `getitem` without two arguments. -/
  | valueError
  /-- What the encoder raises other than `EncodeError`. -/
  | raised (e : EncodeFailure)

namespace Arg

variable [DecidableEq ν]

/-- `wire.NodeRef(index[n])`: each node has been numbered by its place. -/
def nodeRef (index : List ν) (n : ν) : Except SerializeFailure Value :=
  if n ∈ index then .ok (.nodeRef (index.idxOf n)) else .error .keyError

/-- `wire.Dev`: what is on `meta` here is on the device there. -/
def dev (a : Device) : Value :=
  .dev (if a.type = .ofString "rgpu" ∨ a.type = .ofString "meta" then .ofString "rgpu" else a.str)

/-- A leaf is tried on the encoder by itself, and sent as it is. -/
def tried (s : Scalar) : Except SerializeFailure Value :=
  match encode s.value with
  | .ok _ => .ok s.value
  | .error (.encodeError message) => .error (.unshippable message)
  | .error e => .error (.raised e)

mutual

/-- `tree_map(ref, a)` -/
def ref (index : List ν) : Arg ν → Except SerializeFailure Value
  | scalar s => tried s
  | node n => nodeRef index n
  | device a => .ok (dev a)
  | tensor => .error (.unshippable "a constant tensor inside the graph")
  | symbolic => .error (.unshippable "dynamic shapes; compile with dynamic=False")
  | list xs => do
      let vs ← refs index xs
      pure (.list vs)
  | tuple xs => do
      let vs ← refs index xs
      pure (.tuple vs)
  | dict es => do
      let vs ← refEntries index es
      pure (.dict vs)

def refs (index : List ν) : List (Arg ν) → Except SerializeFailure (List Value)
  | [] => .ok []
  | x :: xs => do
      let v ← ref index x
      let vs ← refs index xs
      pure (v :: vs)

def refEntries (index : List ν) : List (DictKey × Arg ν) → Except SerializeFailure (List (DictKey × Value))
  | [] => .ok []
  | (k, x) :: es => do
      let v ← ref index x
      let vs ← refEntries index es
      pure ((k, v) :: vs)

end

end Arg

section Serialize

variable [DecidableEq ν]

/-- A node as it is sent: its kind and its fields. -/
def sent (kind : String) (fields : List Value) : Value := .list (.str (.ofString kind) :: fields)

/-- A `getitem`; `isinstance(i, int)` holds of `True` and `False` too, and the index is not tried on the encoder. -/
def serializeGetitem (index : List ν) : List (Arg ν) → Except SerializeFailure Value
  | [.node src, .scalar (.int i)] => do
      let r ← Arg.nodeRef index src
      pure (sent "getitem" [r, .int i])
  -- `isinstance(True, int)`
  | [.node src, .scalar (.bool b)] => do
      let r ← Arg.nodeRef index src
      pure (sent "getitem" [r, .bool b])
  | [_, _] => .error (.unshippable "getitem with an index that is not an int")
  | _ => .error .valueError

/-- What `serialize` appends for a node. -/
def serializeNode (index : List ν) : FxOp ν → Except SerializeFailure Value
  | .placeholder _ => .ok (sent "placeholder" [])
  | .callFunction .getitem args _ => serializeGetitem index args
  | .callFunction .callable _ _ => .error (.unshippable "a callable that is not an aten op")
  | .callFunction (.op t) args kwargs =>
      -- the server runs aten ops only, so that a custom op has nowhere to run
      if t.opNamespace = .ofString "aten" then do
        let as ← Arg.refs index args
        let ks ← Arg.refEntries index kwargs
        pure (sent "call" [.str t.name, .str t.overload, .list as, .dict ks])
      else .error (.unsupportedOp t)
  | .output value => do
      let os ← Arg.refs index value.outs
      pure (sent "output" [.list os])
  | .other op => .error (.unshippable s!"a {op} node")

/-- The loop of `serialize`, where `index` has the nodes that are numbered, in the order of their numbers. -/
def serializeFrom (index : List ν) : List (FxNode ν) → Except SerializeFailure (List Value)
  | [] => .ok []
  | n :: ns => do
      let v ← serializeNode index n.op
      let vs ← serializeFrom (index ++ [n.id]) ns
      pure (v :: vs)

/-- `serialize` -/
def serialize (g : Graph ν) : Except SerializeFailure (List Value) := serializeFrom [] g.nodes

end Serialize

/-! ### `build` -/

/-- What `build` raises. -/
inductive BuildFailure
  | notAValue (index : ℤ)
  | noDevice (name : PyStr)
  | tensors
  | refused (name overload : PyStr)
  | getitemIndex
  | unknownKind (kind : PyStr)
  /-- A node of another shape. -/
  | malformed

/-- `session._device` -/
def sessionDevice (session : Device) (name : PyStr) : Except BuildFailure Device :=
  if name.takeWhile (· ≠ .char ':') = PyStr.ofString "rgpu" then .ok session
  else if name = .ofString "cpu" then .ok .cpu
  else .error (.noDevice name)

/-- `env[i]`, of a graph whose nodes are numbered as they are made; an `output` is no value. -/
def envValue (env : List (Option ℕ)) (i : ℤ) : Except BuildFailure (Arg ℕ) :=
  match if 0 ≤ i then (env[i.toNat]?).join else none with
  | some n => .ok (.node n)
  | none => .error (.notAValue i)

namespace Value

mutual

/-- `tree_map(arg, a)` -/
def arg (session : Device) (env : List (Option ℕ)) : Value → Except BuildFailure (Arg ℕ)
  | nodeRef i => envValue env i
  | dev name => do
      let a ← sessionDevice session name
      pure (.device a)
  -- a graph cannot carry tensors
  | ref _ => .error .tensors
  | host _ _ _ => .error .tensors
  | list xs => do
      let as ← args session env xs
      pure (.list as)
  | tuple xs => do
      let as ← args session env xs
      pure (.tuple as)
  | dict es => do
      let as ← argEntries session env es
      pure (.dict as)
  | none => .ok (.scalar .none)
  | bool b => .ok (.scalar (.bool b))
  | int i => .ok (.scalar (.int i))
  | float bits => .ok (.scalar (.float bits))
  | str s => .ok (.scalar (.str s))
  | bytesLike _ content => .ok (.scalar (.bytes content))
  | dtype name => .ok (.scalar (.dtype name))
  | layout name => .ok (.scalar (.layout name))
  | memoryFormat name => .ok (.scalar (.memoryFormat name))
  | other typeName => .ok (.scalar (.other typeName))

def args (session : Device) (env : List (Option ℕ)) : List Value → Except BuildFailure (List (Arg ℕ))
  | [] => .ok []
  | v :: vs => do
      let a ← arg session env v
      let as ← args session env vs
      pure (a :: as)

def argEntries (session : Device) (env : List (Option ℕ)) :
    List (DictKey × Value) → Except BuildFailure (List (DictKey × Arg ℕ))
  | [] => .ok []
  | (k, v) :: es => do
      let a ← arg session env v
      let as ← argEntries session env es
      pure ((k, a) :: as)

end

end Value

/-- `build` of one node, of the shapes that `serialize` gives. -/
def buildNode (session : Device) (resolve : PyStr → PyStr → Option OpOverload) (env : List (Option ℕ)) :
    Value → Except BuildFailure (FxOp ℕ)
  | .list (.str kind :: fields) =>
      if kind = .ofString "placeholder" then .ok (.placeholder none)
      else if kind = .ofString "call" then
        match fields with
        | [.str name, .str overload, .list args, .dict kwargs] =>
            match resolve name overload with
            | none => .error (.refused name overload)
            | some t => do
                let as ← Value.args session env args
                let ks ← Value.argEntries session env kwargs
                pure (.callFunction (.op t) as ks)
        | _ => .error .malformed
      else if kind = .ofString "getitem" then
        match fields with
        | [src, .int i] => do
            let a ← Value.arg session env src
            pure (.callFunction .getitem [a, .scalar (.int i)] [])
        | [_, _] => .error .getitemIndex
        | _ => .error .malformed
      else if kind = .ofString "output" then
        match fields with
        | .list outs :: _ => do
            let os ← Value.args session env outs
            pure (.output (.tuple os))
        | _ => .error .malformed
      else .error (.unknownKind kind)
  | _ => .error .malformed

/-- What a node leaves in `env`. -/
def FxOp.result {μ : Type} (id : ℕ) : FxOp μ → Option ℕ
  | output _ => none
  | placeholder _ | callFunction _ _ _ | other _ => some id

/-- The loop of `build`; every node that is sent makes one node and one entry of `env`. -/
def buildFrom (session : Device) (resolve : PyStr → PyStr → Option OpOverload) (env : List (Option ℕ)) :
    List Value → Except BuildFailure (List (FxNode ℕ))
  | [] => .ok []
  | v :: vs => do
      let op ← buildNode session resolve env v
      let ns ← buildFrom session resolve (env ++ [op.result env.length]) vs
      pure (⟨env.length, op⟩ :: ns)

/-- `build`, up to the compiler. -/
def build (session : Device) (resolve : PyStr → PyStr → Option OpOverload) (nodes : List Value) :
    Except BuildFailure (List (FxNode ℕ)) :=
  buildFrom session resolve [] nodes

end Rgpu.PyWire
