import Rgpu.Python.Graphs
import Mathlib.Data.List.TakeWhile

/-! # A graph that is shipped arrives

* **`Graph.shipped`** — the graph as the server is to have it: nodes by number, tuples as lists, devices mapped.
* **`Graph.Carried`** — what the wire and the server take: `serialize` looks at the leaves of the arguments alone,
  and takes some of them that `build` refuses.
* **`arrives_iff`** — a graph that `serialize` accepts arrives exactly if all of it is taken. -/

namespace Rgpu.PyWire

variable {ν : Type}

/-! ### The graph that is meant -/

/-- The server's device for a device of the client. -/
def serverDevice (session a : Device) : Device :=
  if a.type = .ofString "rgpu" ∨ a.type = .ofString "meta" then session else a

namespace Arg

variable (number : ν → ℕ) (device : Device → Device)

mutual

/-- An argument, with the nodes by number, tuples as lists and the devices mapped. -/
def shipped : Arg ν → Arg ℕ
  | scalar s => scalar s
  | node n => node (number n)
  | Arg.device a => Arg.device (device a)
  | tensor => tensor
  | symbolic => symbolic
  | list xs => list (shippedAll xs)
  | tuple xs => list (shippedAll xs)
  | dict es => dict (shippedEntries es)

def shippedAll : List (Arg ν) → List (Arg ℕ)
  | [] => []
  | x :: xs => x.shipped :: shippedAll xs

def shippedEntries : List (DictKey × Arg ν) → List (DictKey × Arg ℕ)
  | [] => []
  | (k, x) :: es => (k, x.shipped) :: shippedEntries es

end

end Arg

/-- A node, likewise; what is returned is a tuple of the same outputs. -/
def FxOp.shipped (number : ν → ℕ) (device : Device → Device) : FxOp ν → FxOp ℕ
  | placeholder default => placeholder (default.map (Arg.shipped number device))
  | callFunction t args kwargs =>
      callFunction t (Arg.shippedAll number device args) (Arg.shippedEntries number device kwargs)
  | output value => output (.tuple (Arg.shippedAll number device value.outs))
  | other op => other op

/-- The place of a node in its graph. -/
def Graph.number [DecidableEq ν] (g : Graph ν) (n : ν) : ℕ := (g.nodes.map FxNode.id).idxOf n

/-- The same graph, as the server is to have it. -/
def Graph.shipped [DecidableEq ν] (g : Graph ν) (session : Device) : List (FxNode ℕ) :=
  g.nodes.map fun n => ⟨g.number n.id, n.op.shipped g.number (serverDevice session)⟩

/-! ### What is taken -/

/-- A device that the server has. -/
def Device.Available (a : Device) : Prop :=
  a.type = .ofString "rgpu" ∨ a.type = .ofString "meta" ∨ a = cpu

/-- A text of a name: the decoder's limit is on its length. -/
def DictKey.Carried (k : DictKey) : Prop := ∃ s, k = .str s ∧ shortStr s = true

namespace Arg

variable (torch : Torch) (outputs : List ν)

mutual

/-- An argument at depth `d` of the message is taken: not too deep, lists and `dict`s within the limit, keys texts,
leaves that the decoder knows, devices that the server has, and no reference to an `output` node. -/
def Carried (d : ℕ) : Arg ν → Prop
  | scalar s => d ≤ maxDepth ∧ (Part.value d s.value).taken torch = true
  | node n => d ≤ maxDepth ∧ n ∉ outputs
  | device a => d ≤ maxDepth ∧ a.Available
  | tensor | symbolic => True
  | list xs => d ≤ maxDepth ∧ xs.length ≤ maxItems ∧ AllCarried (d + 1) xs
  | tuple xs => d ≤ maxDepth ∧ xs.length ≤ maxItems ∧ AllCarried (d + 1) xs
  | dict es => d ≤ maxDepth ∧ es.length ≤ maxItems ∧ EntriesCarried (d + 1) es

def AllCarried (d : ℕ) : List (Arg ν) → Prop
  | [] => True
  | x :: xs => x.Carried d ∧ AllCarried d xs

def EntriesCarried (d : ℕ) : List (DictKey × Arg ν) → Prop
  | [] => True
  | (k, x) :: es => k.Carried ∧ x.Carried d ∧ EntriesCarried d es

end

end Arg

/-- A node is taken: a placeholder without default, a `getitem` by an integer of 64 bits and without keyword
arguments, a call whose names and arguments are taken, outputs that are taken. -/
def FxOp.Carried (torch : Torch) (outputs : List ν) : FxOp ν → Prop
  | placeholder default => default = none
  | callFunction .getitem args kwargs =>
      (∃ src i, args = [.node src, .scalar (.int i)] ∧ src ∉ outputs ∧ -2 ^ 63 ≤ i ∧ i < 2 ^ 63) ∧ kwargs = []
  | callFunction (.op t) args kwargs =>
      shortStr t.name = true ∧ shortStr t.overload = true ∧
        (args.length ≤ maxItems ∧ Arg.AllCarried torch outputs 3 args) ∧
          kwargs.length ≤ maxItems ∧ Arg.EntriesCarried torch outputs 3 kwargs
  | output value => value.outs.length ≤ maxItems ∧ Arg.AllCarried torch outputs 3 value.outs
  | callFunction .callable _ _ => True
  | other _ => True

/-- `output` nodes. -/
def FxOp.isOutput : FxOp ν → Bool
  | output _ => true
  | placeholder _ | callFunction _ _ _ | other _ => false

def Graph.outputs (g : Graph ν) : List ν := (g.nodes.filter fun n => n.op.isOutput).map FxNode.id

/-- A graph is taken: within the limit of a list, and every node. -/
def Graph.Carried (torch : Torch) (g : Graph ν) : Prop :=
  g.nodes.length ≤ maxItems ∧ ∀ n ∈ g.nodes, n.op.Carried torch g.outputs

/-- The ops that a graph calls. -/
def Graph.Calls (g : Graph ν) (t : OpOverload) : Prop :=
  ∃ n ∈ g.nodes, ∃ args kwargs, n.op = .callFunction (.op t) args kwargs

/-- The nodes that are sent are encoded, decoded as they are meant, and built to the same graph. -/
def Arrives [DecidableEq ν] (torch : Torch) (session : Device) (resolve : PyStr → PyStr → Option OpOverload)
    (g : Graph ν) (nodes : List Value) : Prop :=
  ∃ b, encode (.list nodes) = .ok b ∧ decode torch b = .ok (.list (Value.canonicals nodes)) ∧
    build session resolve (Value.canonicals nodes) = .ok (g.shipped session)

/-! ### Arguments -/

/-- Two steps succeed if each does. -/
theorem bind_ok_iff {ε α β : Type} {x : Except ε α} {f : α → Except ε β} {b : β} :
    (x >>= f) = .ok b ↔ ∃ a, x = .ok a ∧ f a = .ok b := by
  cases x with
  | error e => exact ⟨nofun, nofun⟩
  | ok a =>
      constructor
      · exact fun h => ⟨a, rfl, h⟩
      · rintro ⟨a', ha', h⟩
        cases ha'
        exact h

/-- What is read under a constructor. -/
theorem map_ok_iff {ε α β : Type} {x : Except ε α} {f : α → β} {a : α} (hf : ∀ a a', f a = f a' → a = a') :
    (do let a ← x; pure (f a) : Except ε β) = .ok (f a) ↔ x = .ok a := by
  rw [bind_ok_iff]
  constructor
  · rintro ⟨a', ha', h⟩
    rwa [hf a' a (Except.ok.inj h)] at ha'
  · exact fun h => ⟨a, h, rfl⟩

/-- Two of them, one after the other. -/
theorem map₂_ok_iff {ε α β γ : Type} {x : Except ε α} {y : Except ε β} {f : α → β → γ} {a : α} {b : β}
    (hf : ∀ a a' b b', f a b = f a' b' → a = a' ∧ b = b') :
    (do let a ← x; let b ← y; pure (f a b) : Except ε γ) = .ok (f a b) ↔ x = .ok a ∧ y = .ok b := by
  rw [bind_ok_iff]
  constructor
  · rintro ⟨a', ha', h⟩
    obtain ⟨b', hb', h⟩ := bind_ok_iff.mp h
    obtain ⟨rfl, rfl⟩ := hf _ _ _ _ (Except.ok.inj h)
    exact ⟨ha', hb'⟩
  · rintro ⟨ha, hb⟩
    exact ⟨a, ha, bind_ok_iff.mpr ⟨b, hb, rfl⟩⟩

/-- A part is encoded, and decoded as it is meant. -/
def Part.Passes (torch : Torch) (p : Part) : Prop := p.stop = none ∧ p.taken torch = true

/-- All parts of a value do. -/
def Value.Passes (torch : Torch) (d : ℕ) (v : Value) : Prop := ∀ p ∈ v.parts d, p.Passes torch

section Leaves

variable {torch : Torch} {d : ℕ} {session : Device} {env : List (Option ℕ)}

/-- A value passes if it is not too deep, is encoded and is taken. -/
theorem passes_value {v : Value} : (Part.value d v).Passes torch ↔
    d ≤ maxDepth ∧ stopValue v = none ∧ (Part.value d v).taken torch = true := by
  rw [Part.Passes, Part.stop]
  split
  · rename_i hdeep
    exact ⟨by rintro ⟨⟨⟩, _⟩, fun h => absurd h.1 (not_le.mpr hdeep)⟩
  · rename_i hdeep
    exact ⟨fun h => ⟨not_lt.mp hdeep, h⟩, fun h => h.2⟩

/-- A scalar is one part. -/
theorem parts_scalar (s : Scalar) : s.value.parts d = [.value d s.value] := by
  cases s <;> simp only [Scalar.value, Value.parts]

/-- A leaf that the encoder takes by itself is stopped in a message only for its depth. -/
theorem of_tried {s : Scalar} {v : Value} (h : Arg.tried s = .ok v) : v = s.value ∧ stopValue s.value = none := by
  unfold Arg.tried at h
  split at h
  · rename_i b hb
    cases h
    have hstop := stop_of_encode hb
    rw [parts_scalar, List.findSome?_singleton, Part.stop, if_neg (by decide)] at hstop
    exact ⟨rfl, hstop⟩
  · cases h
  · cases h

/-- A scalar is read back as the argument it was. -/
theorem arg_scalar (s : Scalar) : s.value.canonical.arg session env = .ok (.scalar s) := by
  cases s <;> simp only [Scalar.value, Value.canonical, Value.arg]

/-- The names of devices pass. -/
theorem of_namePasses {name : PyStr} (h : name = .ofString "rgpu" ∨ name = .ofString "cpu") :
    stopValue (.dev name) = none ∧ (Part.value d (.dev name)).taken torch = true := by
  rcases h with rfl | rfl <;> exact ⟨by decide, by rw [Part.taken]; decide⟩

/-- Before its colon a device's text is the name of its type. -/
theorem takeWhile_str (a : Device) : a.str.takeWhile (· ≠ .char ':') = a.type := by
  have htype : ∀ c ∈ a.type, decide (c ≠ .char ':') = true := by
    intro c hc
    rw [decide_eq_true_iff]
    rintro rfl
    exact a.noColon hc
  unfold Device.str
  split
  · exact List.takeWhile_eq_self_iff.mpr htype
  · rw [List.takeWhile_append_of_pos htype, List.takeWhile_cons, if_neg (by simp), List.append_nil]

/-- Only the CPU without an index is called so. -/
theorem str_eq_cpu {a : Device} : a.str = .ofString "cpu" ↔ a = .cpu := by
  constructor
  · intro h
    have htype : a.type = .ofString "cpu" := by
      rw [← takeWhile_str a, h]
      rfl
    obtain ⟨type, index, noColon⟩ := a
    cases htype
    cases index with
    | none => rfl
    | some i =>
        rw [Device.str] at h
        exact absurd (List.append_right_eq_self.mp h) (List.cons_ne_nil _ _)
  · rintro rfl
    rfl

/-- The server has a device exactly if it is available. -/
theorem sessionDevice_iff {a : Device} {name : PyStr} (h : Arg.dev a = .dev name) :
    sessionDevice session name = .ok (serverDevice session a) ↔ a.Available := by
  unfold Arg.dev at h
  unfold serverDevice Device.Available
  split at h
  · rename_i hhere
    cases h
    rw [if_pos hhere]
    exact ⟨fun _ => hhere.imp_right .inl, fun _ => rfl⟩
  · rename_i hhere
    cases h
    have hrgpu : a.type ≠ .ofString "rgpu" := fun h => hhere (.inl h)
    rw [if_neg hhere, sessionDevice, takeWhile_str, if_neg hrgpu, ← str_eq_cpu]
    constructor
    · intro hok
      split at hok
      · rename_i hcpu
        exact .inr (.inr hcpu)
      · cases hok
    · rintro (h | h | h)
      · exact absurd (.inl h) hhere
      · exact absurd (.inr h) hhere
      · rw [if_pos h, ← str_eq_cpu.mp h]

/-- **A device arrives** exactly if it is one that is available on both sides. -/
theorem device_iff {a : Device} :
    (Arg.dev a).Passes torch d ∧ (Arg.dev a).canonical.arg session env = .ok (.device (serverDevice session a)) ↔
      d ≤ maxDepth ∧ a.Available := by
  obtain ⟨name, hname⟩ : ∃ name, Arg.dev a = .dev name := ⟨_, rfl⟩
  rw [hname, Value.Passes, Value.parts, List.forall_mem_singleton, passes_value, Value.canonical, Value.arg,
    map_ok_iff (fun _ _ heq => Arg.device.inj heq), sessionDevice_iff hname]
  refine ⟨fun h => ⟨h.1.1, h.2⟩, fun h => ⟨⟨h.1, of_namePasses ?_⟩, h.2⟩⟩
  unfold Arg.dev at hname
  split at hname
  · cases hname
    exact .inl rfl
  · rename_i hhere
    cases hname
    rcases h.2 with h | h | h
    · exact absurd (.inl h) hhere
    · exact absurd (.inr h) hhere
    · exact .inr (str_eq_cpu.mpr h)

end Leaves

section Nodes

variable [DecidableEq ν] {torch : Torch} {d : ℕ} {session : Device} {outputs index : List ν}

/-- `env` after the nodes that are numbered. -/
def envOf (outputs index : List ν) : List (Option ℕ) :=
  index.mapIdx fun i n => if n ∈ outputs then none else some i

/-- **A reference arrives** exactly if it is not too deep and not one to an output node. -/
theorem node_iff {n : ν} {v : Value} (hsize : index.length ≤ maxItems) (h : Arg.nodeRef index n = .ok v) :
    v.Passes torch d ∧ v.canonical.arg session (envOf outputs index) = .ok (.node (index.idxOf n)) ↔
      d ≤ maxDepth ∧ n ∉ outputs := by
  unfold Arg.nodeRef at h
  split at h
  · rename_i hmem
    cases h
    have hlt := List.idxOf_lt_length_of_mem hmem
    have hstop : stopValue (.nodeRef (index.idxOf n)) = none := by
      rw [maxItems] at hsize
      rw [stopValue, stopUnsigned, if_pos ⟨by omega, by omega⟩]
    have henv : envValue (envOf outputs index) (index.idxOf n) = .ok (.node (index.idxOf n)) ↔ n ∉ outputs := by
      rw [envValue, if_pos (by omega), Int.toNat_natCast, envOf, List.getElem?_mapIdx,
        List.getElem?_eq_getElem hlt, List.getElem_idxOf hlt, Option.map_some, Option.join_some]
      by_cases hout : n ∈ outputs
      · rw [if_pos hout]
        exact ⟨by rintro ⟨⟩, fun h => absurd hout h⟩
      · rw [if_neg hout]
        exact ⟨fun _ => hout, fun _ => rfl⟩
    rw [Value.Passes, Value.parts, List.forall_mem_singleton, passes_value, Value.canonical, Value.arg, henv, hstop]
    exact ⟨fun h => ⟨h.1.1, h.2⟩, fun h => ⟨⟨h.1, rfl, rfl⟩, h.2⟩⟩
  · cases h

end Nodes

/-- What is like a list, at a depth of its own. -/
theorem passes_list {torch : Torch} {d : ℕ} {vs : List Value} {v : Value} (hv : v = .list vs ∨ v = .tuple vs) :
    v.Passes torch d ↔
      d ≤ maxDepth ∧ vs.length ≤ maxItems ∧ ∀ p ∈ Value.partsOf (d + 1) vs, p.Passes torch := by
  have hstop : vs.length ≤ maxItems → stopUnsigned 4 vs.length = none := by
    intro h
    rw [maxItems] at h
    rw [stopUnsigned, if_pos ⟨by omega, by omega⟩]
  rcases hv with rfl | rfl
  all_goals
    rw [Value.Passes, Value.parts, List.forall_mem_cons, passes_value, stopValue, Part.taken, decide_eq_true_iff]
    exact ⟨fun h => ⟨h.1.1, h.1.2.2, h.2⟩, fun h => ⟨⟨h.1, hstop h.2.1, h.2.1⟩, h.2.2⟩⟩

/-- A key passes if it can be carried. -/
theorem passes_key {torch : Torch} {k : DictKey} : (Part.key k).Passes torch ↔ k.Carried := by
  cases k with
  | other _ =>
      constructor
      · rintro ⟨hstop, -⟩
        cases hstop
      · rintro ⟨s, hk, -⟩
        cases hk
  | str s =>
      have hstop : shortStr s = true → stopStr s = none := by
        intro h
        unfold shortStr at h
        unfold stopStr
        split at h
        · cases h
        · rename_i b _
          rw [decide_eq_true_iff, maxStr] at h
          simp only [stopUnsigned]
          rw [if_pos ⟨by omega, by omega⟩]
      rw [Part.Passes, Part.stop, Part.taken]
      refine ⟨fun h => ⟨s, rfl, h.2⟩, ?_⟩
      rintro ⟨_, hk, h⟩
      cases hk
      exact ⟨hstop h, h⟩

/-- Entries that pass have texts for keys. -/
theorem all_isStr {torch : Torch} {d : ℕ} {es : List (DictKey × Value)}
    (h : ∀ p ∈ Value.partsOfEntries d es, p.Passes torch) : (es.all fun e => e.1.isStr) = true := by
  induction es with
  | nil => rfl
  | cons e es ih =>
      obtain ⟨k, v⟩ := e
      rw [Value.partsOfEntries, List.forall_mem_cons, List.forall_mem_append] at h
      obtain ⟨s, rfl, -⟩ := passes_key.mp h.1
      rw [List.all_cons, ih h.2.2]
      rfl

/-- A dict passes if it is not too deep or long and its entries pass. -/
theorem passes_dict {torch : Torch} {d : ℕ} {es : List (DictKey × Value)} :
    (Value.dict es).Passes torch d ↔
      d ≤ maxDepth ∧ es.length ≤ maxItems ∧ ∀ p ∈ Value.partsOfEntries (d + 1) es, p.Passes torch := by
  rw [Value.Passes, Value.parts, List.forall_mem_cons, passes_value, stopValue, Part.taken, decide_eq_true_iff]
  constructor
  · exact fun h => ⟨h.1.1, h.1.2.2, h.2⟩
  · rintro ⟨hdepth, hsize, hentries⟩
    have hsize' := hsize
    rw [maxItems] at hsize'
    rw [if_pos (all_isStr hentries), stopUnsigned, if_pos ⟨by omega, by omega⟩]
    exact ⟨⟨hdepth, rfl, hsize⟩, hentries⟩

section Arguments

variable [DecidableEq ν] {torch : Torch} {session : Device} {outputs index : List ν} {number : ν → ℕ}

/-- There are as many references as arguments. -/
theorem length_refs {xs : List (Arg ν)} {vs : List Value} (h : Arg.refs index xs = .ok vs) :
    vs.length = xs.length := by
  induction xs generalizing vs with
  | nil =>
      cases h
      rfl
  | cons x xs ih =>
      obtain ⟨v, -, h⟩ := bind_ok_iff.mp h
      obtain ⟨vs', hvs, h⟩ := bind_ok_iff.mp h
      cases h
      rw [List.length_cons, List.length_cons, ih hvs]

/-- The keys of keyword arguments stay. -/
theorem keys_refEntries {es : List (DictKey × Arg ν)} {vs : List (DictKey × Value)}
    (h : Arg.refEntries index es = .ok vs) : vs.map Prod.fst = es.map Prod.fst := by
  induction es generalizing vs with
  | nil =>
      cases h
      rfl
  | cons e es ih =>
      obtain ⟨k, x⟩ := e
      obtain ⟨v, -, h⟩ := bind_ok_iff.mp h
      obtain ⟨vs', hvs, h⟩ := bind_ok_iff.mp h
      cases h
      rw [List.map_cons, List.map_cons, ih hvs]

variable (torch session outputs)

mutual

/-- An argument that `serialize` accepts passes, and is built as it is meant, exactly if it is taken. -/
theorem arg_iff (hsize : index.length ≤ maxItems) (hnumber : ∀ n ∈ index, index.idxOf n = number n) (d : ℕ) :
    ∀ (a : Arg ν) (v : Value), a.ref index = .ok v →
      (v.Passes torch d ∧ v.canonical.arg session (envOf outputs index) =
          .ok (a.shipped number (serverDevice session)) ↔ a.Carried torch outputs d)
  | .scalar s, v, h => by
      obtain ⟨rfl, hstop⟩ := of_tried h
      rw [Value.Passes, parts_scalar, List.forall_mem_singleton, passes_value, arg_scalar, Arg.shipped, Arg.Carried]
      exact ⟨fun h => ⟨h.1.1, h.1.2.2⟩, fun h => ⟨⟨h.1, hstop, h.2⟩, rfl⟩⟩
  | .node n, v, h => by
      -- what `serialize` refers to, it has numbered
      have hmem : n ∈ index := by
        by_contra hnot
        rw [Arg.ref, Arg.nodeRef, if_neg hnot] at h
        cases h
      rw [Arg.shipped, Arg.Carried, ← hnumber n hmem]
      exact node_iff hsize h
  | .device a, v, h => by
      cases h
      rw [Arg.shipped, Arg.Carried]
      exact device_iff
  | .tensor, _, h => nomatch h
  | .symbolic, _, h => nomatch h
  | .list xs, v, h => by
      obtain ⟨vs, hvs, h⟩ := bind_ok_iff.mp h
      cases h
      rw [passes_list (.inl rfl), Value.canonical, Value.arg, Arg.shipped, map_ok_iff fun _ _ heq => Arg.list.inj heq,
        Arg.Carried, ← args_iff hsize hnumber (d + 1) xs vs hvs, length_refs hvs]
      tauto
  | .tuple xs, v, h => by
      obtain ⟨vs, hvs, h⟩ := bind_ok_iff.mp h
      cases h
      rw [passes_list (.inr rfl), Value.canonical, Value.arg, Arg.shipped, map_ok_iff fun _ _ heq => Arg.list.inj heq,
        Arg.Carried, ← args_iff hsize hnumber (d + 1) xs vs hvs, length_refs hvs]
      tauto
  | .dict es, v, h => by
      obtain ⟨vs, hvs, h⟩ := bind_ok_iff.mp h
      cases h
      have hlength : vs.length = es.length := by
        rw [← List.length_map Prod.fst, keys_refEntries hvs, List.length_map]
      rw [passes_dict, Value.canonical, Value.arg, Arg.shipped, map_ok_iff fun _ _ heq => Arg.dict.inj heq,
        Arg.Carried, ← argEntries_iff hsize hnumber (d + 1) es vs hvs, hlength]
      tauto

/-- Arguments arrive exactly if each does. -/
theorem args_iff (hsize : index.length ≤ maxItems) (hnumber : ∀ n ∈ index, index.idxOf n = number n) (d : ℕ) :
    ∀ (xs : List (Arg ν)) (vs : List Value), Arg.refs index xs = .ok vs →
      ((∀ p ∈ Value.partsOf d vs, p.Passes torch) ∧ Value.args session (envOf outputs index) (Value.canonicals vs) =
          .ok (Arg.shippedAll number (serverDevice session) xs) ↔ Arg.AllCarried torch outputs d xs)
  | [], vs, h => by
      cases h
      rw [Value.partsOf, Value.canonicals, Value.args, Arg.shippedAll, Arg.AllCarried]
      simp
  | x :: xs, vs, h => by
      obtain ⟨v, hv, h⟩ := bind_ok_iff.mp h
      obtain ⟨vs', hvs, h⟩ := bind_ok_iff.mp h
      cases h
      rw [Value.partsOf, List.forall_mem_append, Value.canonicals, Value.args, Arg.shippedAll,
        map₂_ok_iff fun _ _ _ _ heq => List.cons.inj heq, Arg.AllCarried,
        ← arg_iff hsize hnumber d x v hv, ← args_iff hsize hnumber d xs vs' hvs, Value.Passes]
      tauto

/-- Keyword arguments arrive exactly if each does. -/
theorem argEntries_iff (hsize : index.length ≤ maxItems) (hnumber : ∀ n ∈ index, index.idxOf n = number n) (d : ℕ) :
    ∀ (es : List (DictKey × Arg ν)) (vs : List (DictKey × Value)), Arg.refEntries index es = .ok vs →
      ((∀ p ∈ Value.partsOfEntries d vs, p.Passes torch) ∧
          Value.argEntries session (envOf outputs index) (Value.canonicalEntries vs) =
            .ok (Arg.shippedEntries number (serverDevice session) es) ↔ Arg.EntriesCarried torch outputs d es)
  | [], vs, h => by
      cases h
      rw [Value.partsOfEntries, Value.canonicalEntries, Value.argEntries, Arg.shippedEntries, Arg.EntriesCarried]
      simp
  | (k, x) :: es, vs, h => by
      obtain ⟨v, hv, h⟩ := bind_ok_iff.mp h
      obtain ⟨vs', hvs, h⟩ := bind_ok_iff.mp h
      cases h
      rw [Value.partsOfEntries, List.forall_mem_cons, List.forall_mem_append, Value.canonicalEntries,
        Value.argEntries, Arg.shippedEntries,
        map₂_ok_iff (f := fun a as => (k, a) :: as)
          fun _ _ _ _ heq => ⟨(Prod.mk.inj (List.cons.inj heq).1).2, (List.cons.inj heq).2⟩,
        Arg.EntriesCarried, ← arg_iff hsize hnumber d x v hv, ← argEntries_iff hsize hnumber d es vs' hvs,
        Value.Passes, passes_key]
      tauto

end

end Arguments

/-! ### Nodes -/

/-- A node that is read back has the fields that are. -/
theorem canonical_sent (kind : String) (fields : List Value) :
    (sent kind fields).canonical = sent kind (Value.canonicals fields) := by
  rw [sent, Value.canonical, Value.canonicals, Value.canonical]
  rfl

/-- A node passes if its fields do. -/
theorem passes_sent {torch : Torch} {kind : String} {fields : List Value} (hfields : fields.length < maxItems)
    (hkind : shortStr (.ofString kind) = true) :
    (sent kind fields).Passes torch 1 ↔ ∀ p ∈ Value.partsOf 2 fields, p.Passes torch := by
  have hstr : (Value.str (.ofString kind)).Passes torch 2 := by
    rw [Value.Passes, Value.parts, List.forall_mem_singleton]
    have hkey : (Part.key (.str (.ofString kind))).Passes torch := passes_key.mpr ⟨_, rfl, hkind⟩
    exact passes_value.mpr ⟨by decide, hkey.1, hkind⟩
  rw [sent, passes_list (.inl rfl), Value.partsOf, List.forall_mem_append, List.length_cons]
  exact ⟨fun h => h.2.2.2, fun h => ⟨by decide, hfields, hstr, h⟩⟩

/-- A text passes if it is short enough. -/
theorem passes_text {torch : Torch} {d : ℕ} {s : PyStr} (hd : d ≤ maxDepth) :
    (Value.str s).Passes torch d ↔ shortStr s = true := by
  rw [Value.Passes, Value.parts, List.forall_mem_singleton]
  constructor
  · exact fun h => h.2
  · intro h
    have hkey : (Part.key (.str s)).Passes torch := passes_key.mpr ⟨s, rfl, h⟩
    exact passes_value.mpr ⟨hd, hkey.1, h⟩

section Building

variable {torch : Torch} {session : Device} {resolve : PyStr → PyStr → Option OpOverload} {env : List (Option ℕ)}

/-- A placeholder is built as one. -/
theorem buildNode_placeholder : buildNode session resolve env (sent "placeholder" []) = .ok (.placeholder none) := by
  simp only [sent, buildNode, if_true]

/-- A call is built of the op it names and its arguments. -/
theorem buildNode_call {name overload : PyStr} {t : OpOverload} (ht : resolve name overload = some t)
    (args : List Value) (kwargs : List (DictKey × Value)) :
    buildNode session resolve env (sent "call" [.str name, .str overload, .list args, .dict kwargs]) = (do
      let as ← Value.args session env args
      let ks ← Value.argEntries session env kwargs
      pure (.callFunction (.op t) as ks)) := by
  have hkind : PyStr.ofString "call" ≠ .ofString "placeholder" := by decide
  simp only [sent, buildNode, if_neg hkind, if_true, ht]

/-- A `getitem` is built of what it takes from, and the index. -/
theorem buildNode_getitem (src : Value) (i : ℤ) :
    buildNode session resolve env (sent "getitem" [src, .int i]) = (do
      let a ← Value.arg session env src
      pure (.callFunction .getitem [a, .scalar (.int i)] [])) := by
  have hplaceholder : PyStr.ofString "getitem" ≠ .ofString "placeholder" := by decide
  have hcall : PyStr.ofString "getitem" ≠ .ofString "call" := by decide
  simp only [sent, buildNode, if_neg hplaceholder, if_neg hcall, if_true]

/-- An index that is a truth value is refused. -/
theorem buildNode_getitem_bool (src : Value) (b : Bool) :
    buildNode session resolve env (sent "getitem" [src, .bool b]) = .error .getitemIndex := by
  have hplaceholder : PyStr.ofString "getitem" ≠ .ofString "placeholder" := by decide
  have hcall : PyStr.ofString "getitem" ≠ .ofString "call" := by decide
  simp only [sent, buildNode, if_neg hplaceholder, if_neg hcall, if_true]

/-- The output is built of its values. -/
theorem buildNode_output (outs : List Value) :
    buildNode session resolve env (sent "output" [.list outs]) = (do
      let os ← Value.args session env outs
      pure (.output (.tuple os))) := by
  have hplaceholder : PyStr.ofString "output" ≠ .ofString "placeholder" := by decide
  have hcall : PyStr.ofString "output" ≠ .ofString "call" := by decide
  have hgetitem : PyStr.ofString "output" ≠ .ofString "getitem" := by decide
  simp only [sent, buildNode, if_neg hplaceholder, if_neg hcall, if_neg hgetitem, if_true]

variable [DecidableEq ν] {outputs index : List ν} {number : ν → ℕ}

/-- A `getitem` arrives exactly if its parts can be carried. -/
theorem getitem_iff (hsize : index.length ≤ maxItems) (hnumber : ∀ n ∈ index, index.idxOf n = number n)
    {args : List (Arg ν)} {kwargs : List (DictKey × Arg ν)} {v : Value} (h : serializeGetitem index args = .ok v) :
    v.Passes torch 1 ∧ buildNode session resolve (envOf outputs index) v.canonical =
        .ok ((FxOp.callFunction .getitem args kwargs).shipped number (serverDevice session)) ↔
      (FxOp.callFunction .getitem args kwargs).Carried torch outputs := by
  have hkind : shortStr (.ofString "getitem") = true := by decide
  unfold serializeGetitem at h
  split at h
  · rename_i src i
    obtain ⟨r, hr, h⟩ := bind_ok_iff.mp h
    cases h
    have hnode := arg_iff torch session outputs hsize hnumber 2 (.node src) r hr
    -- a Python number has any size, one of the wire 64 bits
    have hint : (Value.int i).Passes torch 2 ↔ -2 ^ 63 ≤ i ∧ i < 2 ^ 63 := by
      rw [Value.Passes, Value.parts, List.forall_mem_singleton, passes_value, stopValue]
      split
      · rename_i hi
        exact ⟨fun _ => hi, fun _ => ⟨by decide, rfl, rfl⟩⟩
      · rename_i hi
        exact ⟨fun h => (nomatch h.2.1), fun h => absurd h hi⟩
    rw [passes_sent (Nat.lt_of_lt_of_le (show 2 < 3 from by decide) (by decide)) hkind, canonical_sent]
    simp only [Value.canonicals, Value.canonical, buildNode_getitem, Value.partsOf, List.append_nil,
      List.forall_mem_append]
    rw [← Value.Passes, ← Value.Passes, hint]
    simp only [FxOp.shipped, FxOp.Carried, Arg.shippedAll, Arg.shipped]
    constructor
    · rintro ⟨⟨hpasses, hi⟩, hbuild⟩
      obtain ⟨a, ha, hbuild⟩ := bind_ok_iff.mp hbuild
      obtain ⟨-, hargs, hkwargs⟩ := FxOp.callFunction.inj (Except.ok.inj hbuild)
      rw [(List.cons.inj hargs).1] at ha
      refine ⟨⟨src, i, rfl, (hnode.mp ⟨hpasses, ha⟩).2, hi⟩, ?_⟩
      cases kwargs with
      | nil => rfl
      | cons e es => cases hkwargs
    · rintro ⟨⟨src', i', hargs, hout, hi⟩, rfl⟩
      cases hargs
      obtain ⟨hpasses, ha⟩ := hnode.mpr ⟨by decide, hout⟩
      exact ⟨⟨hpasses, hi⟩, bind_ok_iff.mpr ⟨_, ha, rfl⟩⟩
  -- `isinstance(True, int)`: `serialize` takes the index, and `build` does not
  · rename_i src b
    obtain ⟨r, hr, h⟩ := bind_ok_iff.mp h
    cases h
    rw [canonical_sent]
    simp only [Value.canonicals, Value.canonical, buildNode_getitem_bool]
    constructor
    · rintro ⟨-, hbuild⟩
      cases hbuild
    · rintro ⟨⟨src', i', hargs, -⟩, -⟩
      cases hargs
  · cases h
  · cases h

variable (torch session resolve outputs) in
/-- **A node arrives** exactly if its parts can be carried, where the server finds the op it names. -/
theorem op_iff (hsize : index.length ≤ maxItems) (hnumber : ∀ n ∈ index, index.idxOf n = number n)
    {op : FxOp ν} {v : Value} (hresolve : ∀ t args kwargs, op = .callFunction (.op t) args kwargs →
      resolve t.name t.overload = some t) (h : serializeNode index op = .ok v) :
    v.Passes torch 1 ∧ buildNode session resolve (envOf outputs index) v.canonical =
        .ok (op.shipped number (serverDevice session)) ↔ op.Carried torch outputs := by
  have hdepth : 2 ≤ maxDepth := by decide
  unfold serializeNode at h
  split at h
  · rename_i default
    cases h
    rw [passes_sent (by decide) (by decide), canonical_sent, Value.canonicals, buildNode_placeholder,
      Value.partsOf, FxOp.shipped, FxOp.Carried]
    -- a default is not shipped
    cases default with
    | none => exact ⟨fun _ => rfl, fun _ => ⟨nofun, rfl⟩⟩
    | some a => exact ⟨nofun, nofun⟩
  · exact getitem_iff hsize hnumber h
  · cases h
  · rename_i t args kwargs
    split at h
    · obtain ⟨as, has, h⟩ := bind_ok_iff.mp h
      obtain ⟨ks, hks, h⟩ := bind_ok_iff.mp h
      cases h
      have hlength : ks.length = kwargs.length := by
        rw [← List.length_map Prod.fst, keys_refEntries hks, List.length_map]
      rw [passes_sent (Nat.lt_of_lt_of_le (show 4 < 5 from by decide) (by decide)) (by decide), canonical_sent]
      simp only [Value.canonicals, Value.canonical, buildNode_call (hresolve t args kwargs rfl), Value.partsOf,
        List.append_nil, List.forall_mem_append]
      rw [← Value.Passes, ← Value.Passes, ← Value.Passes, ← Value.Passes, passes_text (by decide),
        passes_text (by decide), passes_list (.inl rfl), passes_dict, FxOp.shipped, FxOp.Carried,
        map₂_ok_iff fun _ _ _ _ heq => ⟨(FxOp.callFunction.inj heq).2.1, (FxOp.callFunction.inj heq).2.2⟩,
        ← args_iff torch session outputs hsize hnumber 3 args as has,
        ← argEntries_iff torch session outputs hsize hnumber 3 kwargs ks hks, length_refs has, hlength]
      simp only [hdepth, true_and, Nat.reduceAdd]
      tauto
    · cases h
  · rename_i value
    obtain ⟨os, hos, h⟩ := bind_ok_iff.mp h
    cases h
    rw [passes_sent (Nat.lt_of_lt_of_le (show 1 < 2 from by decide) (by decide)) (by decide), canonical_sent]
    simp only [Value.canonicals, Value.canonical, buildNode_output, Value.partsOf, List.append_nil]
    rw [← Value.Passes, passes_list (.inl rfl), FxOp.shipped, FxOp.Carried,
      map_ok_iff fun _ _ heq => Arg.tuple.inj (FxOp.output.inj heq),
      ← args_iff torch session outputs hsize hnumber 3 value.outs os hos, length_refs hos]
    simp only [hdepth, true_and, Nat.reduceAdd]
    tauto
  · cases h

end Building

/-! ### Graphs -/

section Keys

variable [DecidableEq ν] {index : List ν}

/-- A scalar has no keys. -/
theorem keysDistinct_scalar {d : ℕ} (s : Scalar) : ∀ p ∈ s.value.parts d, p.keysDistinct := by
  rw [parts_scalar, List.forall_mem_singleton]
  cases s <;> trivial

mutual

/-- What is sent for an argument has the keys of the argument. -/
theorem keysDistinct_ref (d : ℕ) : ∀ (a : Arg ν) (v : Value), a.ref index = .ok v → a.KeysDistinct →
    ∀ p ∈ v.parts d, p.keysDistinct
  | .scalar s, v, h, _ => (of_tried h).1 ▸ keysDistinct_scalar s
  | .node n, v, h, _ => by
      rw [Arg.ref, Arg.nodeRef] at h
      split at h
      · cases h
        rw [Value.parts, List.forall_mem_singleton]
        trivial
      · cases h
  | .device a, v, h, _ => by
      cases h
      rw [Arg.dev, Value.parts, List.forall_mem_singleton]
      trivial
  | .tensor, _, h, _ => nomatch h
  | .symbolic, _, h, _ => nomatch h
  | .list xs, v, h, hkeys => by
      obtain ⟨vs, hvs, h⟩ := bind_ok_iff.mp h
      cases h
      rw [Value.parts, List.forall_mem_cons]
      exact ⟨trivial, keysDistinct_refs (d + 1) xs vs hvs hkeys⟩
  | .tuple xs, v, h, hkeys => by
      obtain ⟨vs, hvs, h⟩ := bind_ok_iff.mp h
      cases h
      rw [Value.parts, List.forall_mem_cons]
      exact ⟨trivial, keysDistinct_refs (d + 1) xs vs hvs hkeys⟩
  | .dict es, v, h, hkeys => by
      obtain ⟨vs, hvs, h⟩ := bind_ok_iff.mp h
      cases h
      rw [Value.parts, List.forall_mem_cons, Part.keysDistinct, keys_refEntries hvs]
      rw [Arg.KeysDistinct] at hkeys
      exact ⟨hkeys.1, keysDistinct_refEntries (d + 1) es vs hvs hkeys.2⟩

/-- Arguments that are sent have distinct keys if they had. -/
theorem keysDistinct_refs (d : ℕ) : ∀ (xs : List (Arg ν)) (vs : List Value), Arg.refs index xs = .ok vs →
    Arg.AllKeysDistinct xs → ∀ p ∈ Value.partsOf d vs, p.keysDistinct
  | [], vs, h, _ => by
      cases h
      exact nofun
  | x :: xs, vs, h, hkeys => by
      obtain ⟨v, hv, h⟩ := bind_ok_iff.mp h
      obtain ⟨vs', hvs, h⟩ := bind_ok_iff.mp h
      cases h
      rw [Arg.AllKeysDistinct] at hkeys
      rw [Value.partsOf, List.forall_mem_append]
      exact ⟨keysDistinct_ref d x v hv hkeys.1, keysDistinct_refs d xs vs' hvs hkeys.2⟩

/-- Keyword arguments that are sent have distinct keys if they had. -/
theorem keysDistinct_refEntries (d : ℕ) : ∀ (es : List (DictKey × Arg ν)) (vs : List (DictKey × Value)),
    Arg.refEntries index es = .ok vs → Arg.EntryKeysDistinct es → ∀ p ∈ Value.partsOfEntries d vs, p.keysDistinct
  | [], vs, h, _ => by
      cases h
      exact nofun
  | (k, x) :: es, vs, h, hkeys => by
      obtain ⟨v, hv, h⟩ := bind_ok_iff.mp h
      obtain ⟨vs', hvs, h⟩ := bind_ok_iff.mp h
      cases h
      rw [Arg.EntryKeysDistinct] at hkeys
      rw [Value.partsOfEntries, List.forall_mem_cons, List.forall_mem_append]
      exact ⟨trivial, keysDistinct_ref d x v hv hkeys.1, keysDistinct_refEntries d es vs' hvs hkeys.2⟩

end

/-- A node that is sent has distinct keys if its fields have. -/
theorem keysDistinct_sent {d : ℕ} {kind : String} {fields : List Value}
    (h : ∀ p ∈ Value.partsOf (d + 1) fields, p.keysDistinct) : ∀ p ∈ (sent kind fields).parts d, p.keysDistinct := by
  rw [sent, Value.parts, Value.partsOf, Value.parts, List.forall_mem_cons, List.forall_mem_append,
    List.forall_mem_singleton]
  exact ⟨trivial, trivial, h⟩

omit [DecidableEq ν] in
/-- The outputs of a graph have distinct keys if its output has. -/
theorem all_outs {value : Arg ν} (h : value.KeysDistinct) : Arg.AllKeysDistinct value.outs := by
  cases value with
  | list xs => exact h
  | tuple xs => exact h
  | scalar _ | node _ | device _ | tensor | symbolic | dict _ => exact ⟨h, trivial⟩

/-- A `getitem` has no keys of its own. -/
theorem keysDistinct_getitem {args : List (Arg ν)} {v : Value} (h : serializeGetitem index args = .ok v) :
    ∀ p ∈ v.parts 1, p.keysDistinct := by
  unfold serializeGetitem at h
  split at h
  all_goals first
    | cases h
    | obtain ⟨r, hr, h⟩ := bind_ok_iff.mp h
      cases h
      refine keysDistinct_sent ?_
      rw [Value.partsOf, Value.partsOf, Value.partsOf, Value.parts, List.append_nil, List.forall_mem_append,
        List.forall_mem_singleton]
      exact ⟨keysDistinct_ref 2 (.node _) r hr trivial, trivial⟩

/-- A node has distinct keys if its op has. -/
theorem keysDistinct_node {op : FxOp ν} {v : Value} (h : serializeNode index op = .ok v) (hkeys : op.KeysDistinct) :
    ∀ p ∈ v.parts 1, p.keysDistinct := by
  unfold serializeNode at h
  split at h
  · cases h
    exact keysDistinct_sent (by rintro _ ⟨⟩)
  · exact keysDistinct_getitem h
  · cases h
  · split at h
    · obtain ⟨as, has, h⟩ := bind_ok_iff.mp h
      obtain ⟨ks, hks, h⟩ := bind_ok_iff.mp h
      cases h
      obtain ⟨hargs, hkeys, hkwargs⟩ := hkeys
      refine keysDistinct_sent ?_
      simp only [Value.partsOf, Value.parts, List.append_nil, List.forall_mem_append, List.forall_mem_cons,
        Part.keysDistinct, keys_refEntries hks]
      exact ⟨⟨trivial, by rintro _ ⟨⟩⟩, ⟨trivial, by rintro _ ⟨⟩⟩, ⟨trivial, keysDistinct_refs _ _ as has hargs⟩, hkeys,
        keysDistinct_refEntries _ _ ks hks hkwargs⟩
    · cases h
  · obtain ⟨os, hos, h⟩ := bind_ok_iff.mp h
    cases h
    refine keysDistinct_sent ?_
    simp only [Value.partsOf, Value.parts, List.append_nil, List.forall_mem_cons, Part.keysDistinct]
    exact ⟨trivial, keysDistinct_refs _ _ os hos (all_outs hkeys)⟩
  · cases h

/-- The nodes of a graph have distinct keys if their ops have. -/
theorem keysDistinct_nodes {ns : List (FxNode ν)} {vs : List Value} (h : serializeFrom index ns = .ok vs)
    (hkeys : ∀ n ∈ ns, n.op.KeysDistinct) : ∀ p ∈ Value.partsOf 1 vs, p.keysDistinct := by
  induction ns generalizing index vs with
  | nil =>
      cases h
      exact nofun
  | cons n ns ih =>
      obtain ⟨v, hv, h⟩ := bind_ok_iff.mp h
      obtain ⟨vs', hvs, h⟩ := bind_ok_iff.mp h
      cases h
      rw [List.forall_mem_cons] at hkeys
      rw [Value.partsOf, List.forall_mem_append]
      exact ⟨keysDistinct_node hv hkeys.1, ih hvs hkeys.2⟩

end Keys

section Graphs

variable [DecidableEq ν] {torch : Torch} {session : Device} {resolve : PyStr → PyStr → Option OpOverload} {g : Graph ν}

/-- Every node is serialized. -/
theorem length_serializeFrom {index : List ν} {ns : List (FxNode ν)} {vs : List Value}
    (h : serializeFrom index ns = .ok vs) : vs.length = ns.length := by
  induction ns generalizing index vs with
  | nil =>
      cases h
      rfl
  | cons n ns ih =>
      obtain ⟨v, -, h⟩ := bind_ok_iff.mp h
      obtain ⟨vs', hvs, h⟩ := bind_ok_iff.mp h
      cases h
      rw [List.length_cons, List.length_cons, ih hvs]

omit [DecidableEq ν] in
/-- Nodes are objects, so the one with the identity of an `output` is that `output`. -/
theorem Graph.mem_outputs {n : FxNode ν} (hn : n ∈ g.nodes) : n.id ∈ g.outputs ↔ n.op.isOutput = true := by
  rw [outputs, List.mem_map]
  constructor
  · rintro ⟨m, hm, hid⟩
    rw [List.mem_filter] at hm
    rw [← List.inj_on_of_nodup_map g.distinct hm.1 hn hid]
    exact hm.2
  · exact fun h => ⟨n, List.mem_filter.mpr ⟨hn, h⟩, rfl⟩

variable (session) in
/-- The entry that `build` makes for a node is the one that the node is referred to by. -/
theorem envOf_append {n : FxNode ν} (hn : n ∈ g.nodes) (index : List ν) :
    envOf g.outputs (index ++ [n.id]) = envOf g.outputs index ++
      [(n.op.shipped g.number (serverDevice session)).result (envOf g.outputs index).length] := by
  rw [envOf, List.mapIdx_concat, ← envOf]
  congr 2
  rw [envOf, List.length_mapIdx]
  have hout := g.mem_outputs hn
  -- an `output` has no entry, so that no later node is built from one
  cases hop : n.op with
  | output value => rw [if_pos (hout.mpr (by rw [hop]; rfl)), FxOp.shipped, FxOp.result]
  | placeholder _ | callFunction _ _ _ | other _ =>
      rw [if_neg fun h => by have := hout.mp h; rw [hop] at this; cases this]
      rfl

variable (torch session) in
/-- From the nodes that are numbered on: the rest passes and is built as it is meant exactly if it is taken. -/
theorem nodes_iff (hsize : g.nodes.length ≤ maxItems) (hresolve : ∀ t, g.Calls t → resolve t.name t.overload = some t)
    (past : List (FxNode ν)) {ns : List (FxNode ν)} (hg : g.nodes = past ++ ns) {vs : List Value}
    (h : serializeFrom (past.map FxNode.id) ns = .ok vs) :
    (∀ p ∈ Value.partsOf 1 vs, p.Passes torch) ∧
        buildFrom session resolve (envOf g.outputs (past.map FxNode.id)) (Value.canonicals vs) =
          .ok (ns.map fun n => ⟨g.number n.id, n.op.shipped g.number (serverDevice session)⟩) ↔
      ∀ n ∈ ns, n.op.Carried torch g.outputs := by
  -- on the nodes still to come; those in `past` have their numbers on both sides
  induction ns generalizing past vs with
  | nil =>
      cases h
      exact ⟨fun _ => nofun, fun _ => ⟨nofun, rfl⟩⟩
  | cons n ns ih =>
      obtain ⟨v, hv, h⟩ := bind_ok_iff.mp h
      obtain ⟨vs', hvs, h⟩ := bind_ok_iff.mp h
      cases h
      have hn : n ∈ g.nodes := by
        rw [hg]
        exact List.mem_append_right _ List.mem_cons_self
      have hpast : (past.map FxNode.id).length ≤ maxItems := by
        rw [hg, List.length_append] at hsize
        rw [List.length_map]
        omega
      have hnumber : ∀ m ∈ past.map FxNode.id, (past.map FxNode.id).idxOf m = g.number m := by
        intro m hm
        rw [Graph.number, hg, List.map_append, List.idxOf_append_of_mem hm]
      -- the nodes before it are other objects
      have hplace : (envOf g.outputs (past.map FxNode.id)).length = g.number n.id := by
        have hnew : n.id ∉ past.map FxNode.id := by
          have hdistinct := g.distinct
          rw [hg, List.map_append, List.map_cons, List.nodup_append] at hdistinct
          exact fun hmem => hdistinct.2.2 _ hmem _ List.mem_cons_self rfl
        rw [envOf, List.length_mapIdx, Graph.number, hg, List.map_append, List.map_cons,
          List.idxOf_append_of_notMem hnew, List.idxOf_cons_self, Nat.add_zero]
      have hop := op_iff torch session resolve g.outputs hpast hnumber
        (fun t args kwargs hcall => hresolve t ⟨n, hn, args, kwargs, hcall⟩) hv
      have hrest := ih (past ++ [n]) (by rw [hg, List.append_assoc]; rfl)
        (by rw [List.map_append]; exact hvs)
      rw [List.map_append, List.map_singleton, envOf_append session hn] at hrest
      rw [Value.partsOf, List.forall_mem_append, Value.canonicals, buildFrom, List.forall_mem_cons, ← hop, ← hrest,
        List.map_cons]
      constructor
      · rintro ⟨⟨hpasses, hpasses'⟩, hbuild⟩
        obtain ⟨op, hop', hbuild⟩ := bind_ok_iff.mp hbuild
        obtain ⟨rest, hrest', hbuild⟩ := bind_ok_iff.mp hbuild
        obtain ⟨hhead, rfl⟩ := List.cons.inj (Except.ok.inj hbuild)
        obtain rfl := (FxNode.mk.inj hhead).2
        exact ⟨⟨hpasses, hop'⟩, hpasses', hrest'⟩
      · rintro ⟨⟨hpasses, hop'⟩, hpasses', hrest'⟩
        refine ⟨⟨hpasses, hpasses'⟩, ?_⟩
        rw [hop', bind_ok_iff]
        refine ⟨_, rfl, ?_⟩
        rw [hrest', hplace]
        rfl

variable (torch) in
/-- A value is encoded and comes back in its canonical form exactly if all its parts pass. -/
theorem passes_iff {v : Value} (hkeys : v.KeysDistinct) :
    (∃ b, encode v = .ok b ∧ decode torch b = .ok v.canonical) ↔ v.Passes torch 0 := by
  constructor
  · rintro ⟨b, hencode, hdecode⟩ p hp
    exact ⟨List.findSome?_eq_none_iff.mp (stop_of_encode hencode) p hp, (decode_iff hkeys hencode).mp hdecode p hp⟩
  · intro h
    obtain ⟨b, hencode⟩ := encode_of_stop (List.findSome?_eq_none_iff.mpr fun p hp => (h p hp).1)
    exact ⟨b, hencode, (decode_iff hkeys hencode).mpr fun p hp => (h p hp).2⟩

/-- **A graph that is shipped arrives**: what `serialize` makes of a graph is encoded, decoded and built to the same
graph, exactly if the graph is taken. -/
theorem arrives_iff (torch : Torch) (session : Device) (resolve : PyStr → PyStr → Option OpOverload) (g : Graph ν)
    (nodes : List Value) (haccepts : serialize g = .ok nodes)
    (hresolve : ∀ t, g.Calls t → resolve t.name t.overload = some t) :
    Arrives torch session resolve g nodes ↔ g.Carried torch := by
  have hkeys : (Value.list nodes).KeysDistinct := by
    rw [Value.KeysDistinct, Value.parts, List.forall_mem_cons]
    exact ⟨trivial, keysDistinct_nodes haccepts g.keysDistinct⟩
  have hlength := length_serializeFrom haccepts
  have hpasses := passes_iff torch hkeys
  rw [passes_list (.inl rfl), Value.canonical, hlength] at hpasses
  have hsplit : Arrives torch session resolve g nodes ↔
      (∃ b, encode (.list nodes) = .ok b ∧ decode torch b = .ok (.list (Value.canonicals nodes))) ∧
        build session resolve (Value.canonicals nodes) = .ok (g.shipped session) := by
    constructor
    · exact fun ⟨b, hencode, hdecode, hbuild⟩ => ⟨⟨b, hencode, hdecode⟩, hbuild⟩
    · exact fun ⟨⟨b, hencode, hdecode⟩, hbuild⟩ => ⟨b, hencode, hdecode, hbuild⟩
  rw [hsplit, hpasses, Graph.Carried]
  constructor
  · rintro ⟨⟨-, hsize, hparts⟩, hbuild⟩
    exact ⟨hsize, (nodes_iff torch session hsize hresolve [] rfl haccepts).mp ⟨hparts, hbuild⟩⟩
  · rintro ⟨hsize, hcarried⟩
    obtain ⟨hparts, hbuild⟩ := (nodes_iff torch session hsize hresolve [] rfl haccepts).mpr hcarried
    exact ⟨⟨by decide, hsize, hparts⟩, hbuild⟩

/-- `aten::max.dim` -/
def maxDim : OpOverload := ⟨.ofString "aten", .ofString "aten::max", .ofString "dim"⟩

/-- `aten::_to_copy` -/
def toCopy : OpOverload := ⟨.ofString "aten", .ofString "aten::_to_copy", .ofString "default"⟩

/-- A server that has the two. -/
def resolveTwo (name overload : PyStr) : Option OpOverload :=
  [maxDim, toCopy].find? fun t => t.name = name ∧ t.overload = overload

/-- The server's device. -/
def cuda : Device := ⟨.ofString "cuda", some 0, by decide⟩

/-- The second output of `max`, and a constant. -/
def picked : Graph ℕ where
  nodes := [⟨10, .placeholder none⟩,
    ⟨20, .callFunction (.op maxDim) [.node 10, .scalar (.int 0)] []⟩,
    ⟨30, .callFunction .getitem [.node 20, .scalar (.int 1)] []⟩,
    ⟨40, .output (.tuple [.node 30, .scalar .none])⟩]
  distinct := by decide
  keysDistinct := by
    simp [FxOp.KeysDistinct, Arg.AllKeysDistinct, Arg.EntryKeysDistinct, Arg.KeysDistinct]

/-- A copy to `cpu:0`. -/
def copied : Graph ℕ where
  nodes := [⟨10, .placeholder none⟩,
    ⟨20, .callFunction (.op toCopy) [.node 10]
      [(.str (.ofString "device"), .device ⟨.ofString "cpu", some 0, Device.cpu.noColon⟩)]⟩,
    ⟨30, .output (.tuple [.node 20])⟩]
  distinct := by decide
  keysDistinct := by
    simp [FxOp.KeysDistinct, Arg.AllKeysDistinct, Arg.EntryKeysDistinct, Arg.KeysDistinct]

/-- A graph that picks one of two results arrives. -/
theorem arrives_iff_picked : ∃ nodes, serialize picked = .ok nodes ∧ Arrives Torch.full cuda resolveTwo picked nodes := by
  refine ⟨_, rfl, (arrives_iff Torch.full cuda resolveTwo picked _ rfl ?_).mpr ⟨by decide, ?_⟩⟩
  · rintro t ⟨n, hn, args, kwargs, hop⟩
    simp only [picked, List.mem_cons, List.not_mem_nil, or_false] at hn
    rcases hn with rfl | rfl | rfl | rfl <;> cases hop
    rfl
  · intro n hn
    simp only [picked, List.mem_cons, List.not_mem_nil, or_false] at hn
    rcases hn with rfl | rfl | rfl | rfl
    · rfl
    · exact ⟨by decide, by decide, ⟨by decide, ⟨by decide, by decide⟩, ⟨by decide, rfl⟩, trivial⟩, by decide, trivial⟩
    · exact ⟨⟨20, 1, rfl, by decide, by decide, by decide⟩, rfl⟩
    · exact ⟨by decide, ⟨by decide, by decide⟩, ⟨by decide, rfl⟩, trivial⟩

/-- The client sends the text of any device; the server has only its own and `cpu`. -/
theorem copied_does_not_arrive : ∃ nodes, serialize copied = .ok nodes ∧
    (∀ t, copied.Calls t → resolveTwo t.name t.overload = some t) ∧
    ¬Arrives Torch.full cuda resolveTwo copied nodes := by
  refine ⟨_, rfl, ?_, ?_⟩
  · rintro t ⟨n, hn, args, kwargs, hop⟩
    simp only [copied, List.mem_cons, List.not_mem_nil, or_false] at hn
    rcases hn with rfl | rfl | rfl <;> cases hop
    rfl
  · rintro ⟨b, -, -, hbuild⟩
    cases hbuild

end Graphs

end Rgpu.PyWire
