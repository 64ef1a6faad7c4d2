import Rgpu.Wire.Buffer

/-! # Generated marshalling (`codegen/emit.py`)

For each function of the driver the generator emits a client stub and a server case. Four emitters each walk
the parameters: the stub's request and what it reads of the response, the case's decoding and its response.
What is emitted for a parameter is its plan; the sizes of buffers are expressions over other parameters.

* **`Mode`** — the plan of a parameter.
* **`Mode.request`**, **`Mode.store`** — `emit_client_request` and `emit_client_response`.
* **`Mode.decode`**, **`Mode.driverArg`**, **`Mode.check`**, **`Mode.response`** — `emit_server_case`.
* **`marshalling_agrees`** — the driver is called with what the client passed, and the client is given what
  the driver put. -/

namespace Rgpu

open Foundations

/-! ### Sizes -/

/-- The size expression of an annotation. A value is the bytes of its object. -/
inductive SizeExpr
  | const (v : List UInt8)
  | name (x : String)
  | call (f : List UInt8 → List UInt8) (a : SizeExpr)
  | op (f : List UInt8 → List UInt8 → List UInt8) (a b : SizeExpr)

namespace SizeExpr

/-- Its value, in a scope. -/
def eval (scope : String → List UInt8) : SizeExpr → List UInt8
  | const v => v
  | name x => scope x
  | call f a => f (a.eval scope)
  | op f a b => f (a.eval scope) (b.eval scope)

/-- `(size_t)(..)`. -/
def size (scope : String → List UInt8) (e : SizeExpr) : UInt64 :=
  UInt64.ofNat (LittleEndian.value (e.eval scope))

/-- The names in it. -/
def names : SizeExpr → List String
  | const _ => []
  | name x => [x]
  | call _ a => a.names
  | op _ a b => a.names ++ b.names

/-- `_server_expr`: over the values that the server has decoded. -/
def server (params : List String) : SizeExpr → SizeExpr
  | const v => const v
  | name x => if x ∈ params then name ("v_" ++ x) else name x
  | call f a => call f (a.server params)
  | op f a b => op f (a.server params) (b.server params)

/-- The rewritten expression means the same where the decoded values are those of the parameters. -/
theorem eval_server {params : List String} {scope scope' : String → List UInt8} {e : SizeExpr}
    (hnames : ∀ x ∈ e.names, x ∈ params) (hscope : ∀ x ∈ e.names, scope' ("v_" ++ x) = scope x) :
    (e.server params).eval scope' = e.eval scope := by
  induction e with
  | const v => rfl
  | name x =>
      rw [server, if_pos (hnames x (List.mem_singleton_self x)), eval, eval]
      exact hscope x (List.mem_singleton_self x)
  | call f a ih => rw [server, eval, eval, ih hnames hscope]
  | op f a b iha ihb =>
      have ha := iha (fun x hx => hnames x (List.mem_append_left _ hx))
        (fun x hx => hscope x (List.mem_append_left _ hx))
      have hb := ihb (fun x hx => hnames x (List.mem_append_right _ hx))
        (fun x hx => hscope x (List.mem_append_right _ hx))
      rw [server, eval, eval, ha, hb]

end SizeExpr

/-! ### Parameters -/

/-- How a parameter travels. Types are given by their size. -/
inductive Mode
  | scalar (w : ℕ)
  | handle
  | string
  | outScalar (w : ℕ)
  | outHandle
  | podIn (w : ℕ)
  | podOut (w : ℕ)
  | inBuffer (size : SizeExpr)
  | outBuffer (size : SizeExpr)
  | fatbin
  | ignore

/-- A parameter and its plan. -/
structure Param where
  name : String
  mode : Mode

/-- What an application passes for a parameter. -/
inductive CallArg
  | scalar (v : List UInt8)
  | handle (h : UInt64)
  | string (s : Option (List UInt8))
  /-- A pointer to write to, or null. -/
  | out (present : Bool)
  /-- A pointer to read from, with what is there, or null. -/
  | pointer (memory : Option (List UInt8))
  deriving DecidableEq, Repr

/-- What the driver is called with for a parameter. -/
inductive DriverArg
  | value (v : List UInt8)
  | handle (h : UInt64)
  | string (s : Option (List UInt8))
  /-- A pointer to so many bytes to write, or null. -/
  | out (size : Option ℕ)
  /-- A pointer to bytes to read, or null. -/
  | pointer (memory : Option (List UInt8))
  deriving DecidableEq, Repr

/-- What the server has decoded of a parameter. -/
inductive Decoded
  | scalar (v : List UInt8)
  | handle (u : UInt64)
  | string (s : Option (List UInt8))
  | out (has : Bool)
  | pod (v : Option (List UInt8))
  /-- Where the bytes are, unless that is null, and how many. -/
  | input (has : Bool) (b : Option (List UInt8)) (n : UInt64)
  | outBuffer (has : Bool) (n : UInt64)
  | ignored
  deriving DecidableEq, Repr

/-- `uint8_t(p ? 1 : 0)`. -/
def flag (present : Bool) : List UInt8 := if present then [1] else [0]

namespace Mode

/-- `emit_client_request`: what the stub puts. `imageSize` is `rgpu::image_size`. -/
def request (imageSize : List UInt8 → ℕ) (scope : String → List UInt8) : Mode → CallArg → List Item
  | scalar _, .scalar v => [.object v]
  | handle, .handle h => [.object (LittleEndian.bytes 8 h.toNat)]
  | string, .string s => [.str s]
  | outScalar _, .out present | outHandle, .out present | podOut _, .out present => [.object (flag present)]
  | podIn _, .pointer none | inBuffer _, .pointer none | fatbin, .pointer none => [.object (flag false)]
  | podIn w, .pointer (some m) => [.object (flag true), .bytes (m.take w)]
  | inBuffer e, .pointer (some m) => [.object (flag true), .sized (m.take (e.size scope).toNat)]
  | fatbin, .pointer (some m) => [.object (flag true), .sized (m.take (imageSize m))]
  | outBuffer e, .out present =>
      [.object (flag present), .object (LittleEndian.bytes 8 (e.size scope).toNat)]
  | ignore, _ => []
  -- no other argument has the type of the parameter
  | _, _ => []

/-- A `uint8_t` that says whether a pointer is there. -/
def getFlag (b : Buffer) : Option Bool × Buffer :=
  match b.getObject 1 with
  | (none, b) => (none, b)
  | (some v, b) => (some (v ≠ [0]), b)

/-- A `uint64_t`. -/
def getWord (b : Buffer) : Option UInt64 × Buffer :=
  match b.getObject 8 with
  | (none, b) => (none, b)
  | (some v, b) => (some (UInt64.ofNat (LittleEndian.value v)), b)

/-- The decoding of `emit_server_case`. -/
def decode (b : Buffer) : Mode → Option Decoded × Buffer
  | scalar w => ((b.getObject (UInt64.ofNat w)).1.map .scalar, (b.getObject (UInt64.ofNat w)).2)
  | handle => ((getWord b).1.map .handle, (getWord b).2)
  | string => (b.getStr.1.map .string, b.getStr.2)
  | outScalar _ | outHandle | podOut _ => ((getFlag b).1.map .out, (getFlag b).2)
  | podIn w =>
      match getFlag b with
      | (none, b) => (none, b)
      | (some false, b) => (some (.pod none), b)
      | (some true, b) =>
          match b.getBytes (UInt64.ofNat w) with
          | (none, b) => (none, b)
          | (some start, b) => (some (.pod (some (b.slice start w))), b)
  | inBuffer _ | fatbin =>
      match getFlag b with
      | (none, b) => (none, b)
      | (some false, b) => (some (.input false none 0), b)
      | (some true, b) =>
          match b.getSized with
          | (none, b) => (none, b)
          | (some (start, n), b) => (some (.input true (start.map fun i => b.slice i n) (UInt64.ofNat n)), b)
  | outBuffer _ =>
      match getFlag b with
      | (none, b) => (none, b)
      | (some has, b) => ((getWord b).1.map (.outBuffer has), (getWord b).2)
  | ignore => (some .ignored, b)

/-- The `args` of `emit_server_case`. -/
def driverArg : Mode → Decoded → DriverArg
  | _, .scalar v => .value v
  | _, .handle u => .handle u
  | _, .string s => .string s
  | outHandle, .out has => .out (if has then some 8 else none)
  | outScalar w, .out has | podOut w, .out has => .out (if has then some w else none)
  | _, .out _ => .out none
  | _, .pod v => .pointer v
  | _, .input has b _ => .pointer (if has then b else none)
  | _, .outBuffer has n => .out (if has then some n.toNat else none)
  | _, .ignored => .pointer none

/-- The `checks` of `emit_server_case`. -/
def check (params : List String) (scope : String → List UInt8) : Mode → Decoded → Bool
  | inBuffer e, .input has _ n => !has || (e.server params).size scope = n
  | outBuffer e, .outBuffer has n => !has || ((e.server params).size scope = n && n ≠ 0)
  | _, _ => true

/-- The `post` of `emit_server_case`: what is put of what the driver has put. -/
def response : Mode → Decoded → List UInt8 → List Item
  | outScalar _, .out true, v | outHandle, .out true, v => [.object v]
  | podOut _, .out true, v => [.sized v]
  | outBuffer _, .outBuffer true _, v => [.sized v]
  | _, _, _ => []

/-- `emit_client_response`: what is stored in an output, if it is there; nothing stands for
`CUDA_ERROR_UNKNOWN`. -/
def store (b : Buffer) : Mode → CallArg → Option (Option (List UInt8)) × Buffer
  | outScalar w, .out true => ((b.getObject (UInt64.ofNat w)).1.map some, (b.getObject (UInt64.ofNat w)).2)
  | outHandle, .out true => ((b.getObject 8).1.map some, (b.getObject 8).2)
  | podOut w, .out true =>
      match b.getSized with
      | (none, b) => (none, b)
      | (some (start, n), b) => if n ≠ w then (none, b) else (some (some (b.slice (start.getD 0) n)), b)
  | outBuffer _, .out true =>
      match b.getSized with
      | (none, b) => (none, b)
      | (some (start, n), b) => (some (some (b.slice (start.getD 0) n)), b)
  | _, _ => (some none, b)

end Mode

/-! ### Both sides -/

/-- A call of the stub: the parameters, each with what is passed for it. -/
abbrev StubCall := List (Param × CallArg)

/-- What a name stands for in the stub. -/
def clientScope (call : StubCall) (x : String) : List UInt8 :=
  match call.find? (fun c => c.1.name = x) with
  | some (_, .scalar v) => v
  | some (_, .handle h) => LittleEndian.bytes 8 h.toNat
  | _ => []

/-- What a name stands for in the server case, where the value of a parameter has a name of its own. -/
def serverScope (decoded : List (Param × Decoded)) (x : String) : List UInt8 :=
  match decoded.find? (fun d => "v_" ++ d.1.name = x) with
  | some (_, .scalar v) => v
  | some (_, .handle u) => LittleEndian.bytes 8 u.toNat
  | _ => []

/-- The request of the stub. -/
def stubRequest (imageSize : List UInt8 → ℕ) (call : StubCall) : Buffer :=
  Buffer.puts {} (call.flatMap fun c => c.1.mode.request imageSize (clientScope call) c.2)

/-- The parameters are decoded in order; nothing stands for `CUDA_ERROR_INVALID_VALUE`. -/
def decodeAll (b : Buffer) : List Param → Option (List (Param × Decoded)) × Buffer
  | [] => (some [], b)
  | p :: ps =>
      match p.mode.decode b with
      | (none, b) => (none, b)
      | (some d, b) => ((decodeAll b ps).1.map ((p, d) :: ·), (decodeAll b ps).2)

/-- An entry point of the driver. It returns a status, with what is then in the memory of each parameter: an
output is as long as it was. -/
structure DriverFn where
  run : List DriverArg → ℕ × List (List UInt8)
  fits : ∀ args, List.Forall₂ (fun arg v => ∀ n, arg = .out (some n) → v.length = n) args (run args).2

/-- What a server case leaves. -/
structure Served where
  /-- What the driver has been called with, if it has. -/
  called : Option (List DriverArg)
  status : ℕ
  response : Buffer
  request : Buffer

/-- `CUDA_ERROR_INVALID_VALUE`. -/
def invalidValue : ℕ := 1

/-- What the driver is called with. -/
def driverArgs (decoded : List (Param × Decoded)) : List DriverArg :=
  decoded.map fun d => d.1.mode.driverArg d.2

/-- `emit_server_case`. The outputs are sent back whatever the status. -/
def serverCase (params : List Param) (fn : DriverFn) (request : Buffer) : Served :=
  match decodeAll request params with
  | (none, request) => ⟨none, invalidValue, {}, request⟩
  | (some decoded, request) =>
      if decoded.all fun d => d.1.mode.check (params.map Param.name) (serverScope decoded) d.2 then
        let (status, memory) := fn.run (driverArgs decoded)
        let items := (decoded.zip memory).flatMap fun d => d.1.1.mode.response d.1.2 d.2
        ⟨some (driverArgs decoded), status, Buffer.puts {} items, request⟩
      else ⟨none, invalidValue, {}, request⟩

/-- `emit_client_response`, of every parameter in order. -/
def storeAll (b : Buffer) : StubCall → Option (List (Option (List UInt8))) × Buffer
  | [] => (some [], b)
  | c :: cs =>
      match c.1.mode.store b c.2 with
      | (none, b) => (none, b)
      | (some v, b) => ((storeAll b cs).1.map (v :: ·), (storeAll b cs).2)

/-- The end of `emit_client_stub`: what is stored for each parameter, and what of the response is read. A
status other than `CUDA_SUCCESS` is returned at once. -/
def stubStores (call : StubCall) (status : ℕ) (response : List UInt8) :
    Option (List (Option (List UInt8))) × Buffer :=
  if status ≠ 0 then (some (call.map fun _ => none), ⟨response, 0, true⟩)
  else storeAll ⟨response, 0, true⟩ call

/-! ### What a call may be -/

/-- Some bytes, or a null pointer for none. -/
def nonempty (bs : List UInt8) : Option (List UInt8) := if bs = [] then none else some bs

namespace Mode

/-- The names in a size are those of parameters. -/
def Sized (params : List Param) (e : SizeExpr) : Prop :=
  ∀ x ∈ e.names, x ∈ params.map Param.name

/-- An argument that the parameter can have: it is of its type, the memory behind a pointer is as long as the
size says, and the size of an output that is there is not zero. -/
def Accepts (imageSize : List UInt8 → ℕ) (params : List Param) (scope : String → List UInt8) :
    Mode → CallArg → Prop
  | scalar w, .scalar v => v.length = w
  | handle, .handle _ | string, .string _ | ignore, .out _ | ignore, .pointer _ => True
  | outScalar _, .out _ | outHandle, .out _ | podOut _, .out _ => True
  | podIn w, .pointer memory => ∀ m ∈ memory, w ≤ m.length
  | inBuffer e, .pointer memory => Sized params e ∧ ∀ m ∈ memory, (e.size scope).toNat ≤ m.length
  | outBuffer e, .out present => Sized params e ∧ (present = true → e.size scope ≠ 0)
  | fatbin, .pointer memory => ∀ m ∈ memory, imageSize m ≤ m.length
  | _, _ => False

/-- What the driver is to be called with: what has been passed. -/
def passed (imageSize : List UInt8 → ℕ) (scope : String → List UInt8) : Mode → CallArg → DriverArg
  | scalar _, .scalar v => .value v
  | handle, .handle h => .handle h
  | string, .string s => .string s
  | outScalar w, .out present | podOut w, .out present => .out (if present then some w else none)
  | outHandle, .out present => .out (if present then some 8 else none)
  | outBuffer e, .out present => .out (if present then some (e.size scope).toNat else none)
  | podIn w, .pointer memory => .pointer (memory.map (List.take w))
  | inBuffer e, .pointer memory => .pointer (memory.bind fun m => nonempty (m.take (e.size scope).toNat))
  | fatbin, .pointer memory => .pointer (memory.bind fun m => nonempty (m.take (imageSize m)))
  | _, _ => .pointer none

/-- What is decoded of it. -/
def decoded (imageSize : List UInt8 → ℕ) (scope : String → List UInt8) : Mode → CallArg → Decoded
  | scalar _, .scalar v => .scalar v
  | handle, .handle h => .handle h
  | string, .string s => .string s
  | outScalar _, .out present | podOut _, .out present | outHandle, .out present => .out present
  | outBuffer e, .out present => .outBuffer present (e.size scope)
  | podIn w, .pointer memory => .pod (memory.map (List.take w))
  | inBuffer _, .pointer none | fatbin, .pointer none => .input false none 0
  | inBuffer e, .pointer (some m) =>
      .input true (nonempty (m.take (e.size scope).toNat)) (e.size scope)
  | fatbin, .pointer (some m) =>
      .input true (nonempty (m.take (imageSize m))) (UInt64.ofNat (m.take (imageSize m)).length)
  | _, _ => .ignored

end Mode

/-! ### Decoding a request -/

namespace Buffer

variable {b : Buffer} {done left : List UInt8}

/-- A flag comes back. -/
theorem Before.getFlag {present : Bool} (h : b.Before done (flag present ++ left)) :
    ∃ b', Mode.getFlag b = (some present, b') ∧ b'.Before (done ++ flag present) left := by
  have hlength : (1 : UInt64).toNat = (flag present).length := by cases present <;> rfl
  obtain ⟨b', hget, hbefore, -⟩ := Before.getObject h hlength
  refine ⟨b', ?_, hbefore⟩
  rw [Mode.getFlag, hget]
  cases present <;> rfl

/-- A word comes back. -/
theorem Before.getWord {u : UInt64} (h : b.Before done (LittleEndian.bytes 8 u.toNat ++ left)) :
    ∃ b', Mode.getWord b = (some u, b') ∧ b'.Before (done ++ LittleEndian.bytes 8 u.toNat) left := by
  have hlength : (8 : UInt64).toNat = (LittleEndian.bytes 8 u.toNat).length := by
    rw [LittleEndian.length_bytes]
    rfl
  obtain ⟨b', hget, hbefore, -⟩ := Before.getObject h hlength
  refine ⟨b', ?_, hbefore⟩
  have hvalue : LittleEndian.value (LittleEndian.bytes 8 u.toNat) = u.toNat :=
    LittleEndian.value_bytes u.toNat_lt
  rw [Mode.getWord, hget]
  dsimp only
  rw [hvalue, UInt64.ofNat_toNat]

/-- No pointer is handed out exactly for no bytes. -/
theorem getSized_none {b' : Buffer} {start : Option ℕ} {n : ℕ} (h : b.getSized = (some (start, n), b')) :
    start = none ↔ n = 0 := by
  unfold getSized at h
  split at h
  · cases h
  · dsimp only at h
    split at h
    · obtain ⟨h, -⟩ := Prod.mk.inj h
      obtain ⟨rfl, rfl⟩ := Prod.mk.inj (Option.some.inj h)
      exact ⟨fun _ => rfl, fun _ => rfl⟩
    · rename_i hzero
      split at h
      · cases h
      · obtain ⟨h, -⟩ := Prod.mk.inj h
        obtain ⟨rfl, rfl⟩ := Prod.mk.inj (Option.some.inj h)
        refine ⟨fun hnone => (by cases hnone), fun hn => absurd ?_ hzero⟩
        exact UInt64.toNat_inj.mp hn

/-- Bytes with their length come back as an input of the driver. -/
theorem Before.getInput {bs : List UInt8} (h : b.Before done ((Item.sized bs).encoded ++ left)) :
    ∃ b' start, b.getSized = (some (start, bs.length), b') ∧
      b'.Before (done ++ (Item.sized bs).encoded) left ∧
      (start.map fun i => b'.slice i bs.length) = nonempty bs ∧
      b'.slice (start.getD 0) bs.length = bs := by
  rw [Item.encoded, List.append_assoc] at h
  obtain ⟨b', start, hget, hbefore, hdata, hslice⟩ := h.getSized
  have hkept : b'.slice (start.getD 0) bs.length = bs := by
    rw [Buffer.slice, hdata]
    exact hslice
  refine ⟨b', start, hget, hbefore, ?_, hkept⟩
  have hnone := getSized_none hget
  rw [List.length_eq_zero_iff] at hnone
  cases start with
  | none => rw [Option.map_none, nonempty, if_pos (hnone.mp rfl)]
  | some i =>
      have hne : bs ≠ [] := by
        intro hnil
        cases hnone.mpr hnil
      rw [Option.map_some, nonempty, if_neg hne]
      exact congrArg some hkept

end Buffer

section Request

variable {imageSize : List UInt8 → ℕ} {params : List Param} {scope : String → List UInt8}
  {b : Buffer} {done left : List UInt8}

/-- **One parameter is decoded** from what the stub has put for it. -/
theorem Mode.before_decode {mode : Mode} {arg : CallArg} (haccepts : mode.Accepts imageSize params scope arg)
    (h : b.Before done ((mode.request imageSize scope arg).flatMap Item.encoded ++ left)) :
    ∃ b', mode.decode b = (some (mode.decoded imageSize scope arg), b') ∧
      b'.Before (done ++ (mode.request imageSize scope arg).flatMap Item.encoded) left := by
  have hsmall : ((mode.request imageSize scope arg).flatMap Item.encoded).length < 2 ^ 64 := by
    have hlength := h.small
    rw [h.data, List.length_append, List.length_append] at hlength
    omega
  cases mode with
  | scalar w =>
      cases arg with
      | scalar v =>
          obtain rfl : v.length = w := haccepts
          simp only [Mode.request, List.flatMap_cons, List.flatMap_nil, Item.encoded, List.append_nil] at h hsmall ⊢
          obtain ⟨b', hget, hbefore, -⟩ := Buffer.Before.getObject h (UInt64.toNat_ofNat_of_lt' hsmall)
          exact ⟨b', by rw [Mode.decode, hget]; rfl, hbefore⟩
      | _ => exact haccepts.elim
  | handle =>
      cases arg with
      | handle u =>
          simp only [Mode.request, List.flatMap_cons, List.flatMap_nil, Item.encoded, List.append_nil] at h ⊢
          obtain ⟨b', hget, hbefore⟩ := h.getWord
          exact ⟨b', by rw [Mode.decode, hget]; rfl, hbefore⟩
      | _ => exact haccepts.elim
  | string =>
      cases arg with
      | string s =>
          simp only [Mode.request, List.flatMap_cons, List.flatMap_nil, List.append_nil] at h ⊢
          obtain ⟨b', hget, hbefore, -⟩ := Buffer.Before.getStr s h
          exact ⟨b', by rw [Mode.decode, hget]; rfl, hbefore⟩
      | _ => exact haccepts.elim
  | outScalar w =>
      cases arg with
      | out present =>
          simp only [Mode.request, List.flatMap_cons, List.flatMap_nil, Item.encoded, List.append_nil] at h ⊢
          obtain ⟨b', hget, hbefore⟩ := h.getFlag
          exact ⟨b', by rw [Mode.decode, hget]; rfl, hbefore⟩
      | _ => exact haccepts.elim
  | outHandle =>
      cases arg with
      | out present =>
          simp only [Mode.request, List.flatMap_cons, List.flatMap_nil, Item.encoded, List.append_nil] at h ⊢
          obtain ⟨b', hget, hbefore⟩ := h.getFlag
          exact ⟨b', by rw [Mode.decode, hget]; rfl, hbefore⟩
      | _ => exact haccepts.elim
  | podOut w =>
      cases arg with
      | out present =>
          simp only [Mode.request, List.flatMap_cons, List.flatMap_nil, Item.encoded, List.append_nil] at h ⊢
          obtain ⟨b', hget, hbefore⟩ := h.getFlag
          exact ⟨b', by rw [Mode.decode, hget]; rfl, hbefore⟩
      | _ => exact haccepts.elim
  | podIn w =>
      cases arg with
      | pointer memory =>
          cases memory with
          | none =>
              simp only [Mode.request, List.flatMap_cons, List.flatMap_nil, Item.encoded, List.append_nil] at h ⊢
              obtain ⟨b', hget, hbefore⟩ := h.getFlag
              exact ⟨b', by rw [Mode.decode, hget]; rfl, hbefore⟩
          | some m =>
              have hm : w ≤ m.length := haccepts m rfl
              have hw : (m.take w).length = w := by rw [List.length_take, Nat.min_eq_left hm]
              simp only [Mode.request, List.flatMap_cons, List.flatMap_nil, Item.encoded, List.append_nil,
                List.append_assoc, List.length_append] at h hsmall ⊢
              -- the object lies behind its flag
              obtain ⟨b₁, hget, hbefore⟩ := h.getFlag
              have hn : (UInt64.ofNat w).toNat = (m.take w).length := by
                rw [hw, UInt64.toNat_ofNat_of_lt' (show w < 2 ^ 64 by omega)]
              obtain ⟨b₂, hbytes, hbefore', hdata⟩ := hbefore.getBytes hn
              refine ⟨b₂, ?_, by rw [← List.append_assoc]; exact hbefore'⟩
              have hslice : b₂.slice (done ++ flag true).length w = m.take w := by
                have hread := hbefore.slice
                rwa [hw, Buffer.slice, ← hdata] at hread
              rw [Mode.decode, hget]
              dsimp only
              rw [hbytes]
              dsimp only
              rw [hslice]
              rfl
      | _ => exact haccepts.elim
  | inBuffer e =>
      cases arg with
      | pointer memory =>
          cases memory with
          | none =>
              simp only [Mode.request, List.flatMap_cons, List.flatMap_nil, Item.encoded, List.append_nil] at h ⊢
              obtain ⟨b', hget, hbefore⟩ := h.getFlag
              exact ⟨b', by rw [Mode.decode, hget]; rfl, hbefore⟩
          | some m =>
              have hm : (e.size scope).toNat ≤ m.length := haccepts.2 m rfl
              have hw : (m.take (e.size scope).toNat).length = (e.size scope).toNat := by
                rw [List.length_take, Nat.min_eq_left hm]
              simp only [Mode.request, List.flatMap_cons, List.flatMap_nil, List.append_nil,
                List.append_assoc] at h ⊢
              have hflag : b.Before done (flag true ++ _) := h
              obtain ⟨b₁, hget, hbefore⟩ := hflag.getFlag
              obtain ⟨b₂, start, hsized, hbefore', hview, -⟩ := hbefore.getInput
              refine ⟨b₂, ?_, by rw [← List.append_assoc]; exact hbefore'⟩
              rw [Mode.decode, hget]
              dsimp only
              rw [hsized]
              dsimp only
              rw [hview, hw, UInt64.ofNat_toNat]
              rfl
      | _ => exact haccepts.elim
  | outBuffer e =>
      cases arg with
      | out present =>
          simp only [Mode.request, List.flatMap_cons, List.flatMap_nil, Item.encoded, List.append_nil,
            List.append_assoc] at h ⊢
          obtain ⟨b₁, hget, hbefore⟩ := h.getFlag
          obtain ⟨b₂, hword, hbefore'⟩ := hbefore.getWord
          refine ⟨b₂, ?_, by rw [← List.append_assoc]; exact hbefore'⟩
          rw [Mode.decode, hget]
          dsimp only
          rw [hword]
          rfl
      | _ => exact haccepts.elim
  | fatbin =>
      cases arg with
      | pointer memory =>
          cases memory with
          | none =>
              simp only [Mode.request, List.flatMap_cons, List.flatMap_nil, Item.encoded, List.append_nil] at h ⊢
              obtain ⟨b', hget, hbefore⟩ := h.getFlag
              exact ⟨b', by rw [Mode.decode, hget]; rfl, hbefore⟩
          | some m =>
              simp only [Mode.request, List.flatMap_cons, List.flatMap_nil, List.append_nil,
                List.append_assoc] at h ⊢
              have hflag : b.Before done (flag true ++ _) := h
              obtain ⟨b₁, hget, hbefore⟩ := hflag.getFlag
              obtain ⟨b₂, start, hsized, hbefore', hview, -⟩ := hbefore.getInput
              refine ⟨b₂, ?_, by rw [← List.append_assoc]; exact hbefore'⟩
              rw [Mode.decode, hget]
              dsimp only
              rw [hsized]
              dsimp only
              rw [hview]
              rfl
      | _ => exact haccepts.elim
  | ignore =>
      have hnone : Mode.ignore.request imageSize scope arg = [] := by cases arg <;> rfl
      rw [hnone] at h ⊢
      refine ⟨b, by cases arg <;> rfl, ?_⟩
      simpa only [List.flatMap_nil, List.append_nil, List.nil_append] using h

/-- What is decoded of a whole call. -/
def decodedCall (imageSize : List UInt8 → ℕ) (scope : String → List UInt8) (call : StubCall) :
    List (Param × Decoded) :=
  call.map fun c => (c.1, c.1.mode.decoded imageSize scope c.2)

/-- **All parameters are decoded**, in whatever order they stand. -/
theorem before_decodeAll {call : StubCall}
    (haccepts : ∀ c ∈ call, c.1.mode.Accepts imageSize params scope c.2)
    (h : b.Before done
      ((call.flatMap fun c => c.1.mode.request imageSize scope c.2).flatMap Item.encoded ++ left)) :
    ∃ b', decodeAll b (call.map Prod.fst) = (some (decodedCall imageSize scope call), b') ∧
      b'.Before (done ++ (call.flatMap fun c => c.1.mode.request imageSize scope c.2).flatMap Item.encoded)
        left := by
  induction call generalizing b done with
  | nil => exact ⟨b, rfl, by simpa using h⟩
  | cons c cs ih =>
      rw [List.flatMap_cons, List.flatMap_append, List.append_assoc] at h
      obtain ⟨b₁, hdecode, hbefore⟩ := Mode.before_decode (haccepts c List.mem_cons_self) h
      obtain ⟨b₂, hrest, hbefore'⟩ := ih (fun c hc => haccepts c (List.mem_cons_of_mem _ hc)) hbefore
      refine ⟨b₂, ?_, ?_⟩
      · rw [List.map_cons, decodeAll, hdecode]
        dsimp only
        rw [hrest]
        rfl
      · rw [List.flatMap_cons, List.flatMap_append, ← List.append_assoc]
        exact hbefore'

/-! ### The checks -/

/-- The value of a parameter is the same on both sides. -/
theorem serverScope_decodedCall (call : StubCall) (x : String)
    (haccepts : ∀ c ∈ call, c.1.mode.Accepts imageSize params scope c.2) :
    serverScope (decodedCall imageSize scope call) ("v_" ++ x) = clientScope call x := by
  induction call with
  | nil => rfl
  | cons c cs ih =>
      have htail := ih fun c hc => haccepts c (List.mem_cons_of_mem _ hc)
      unfold serverScope clientScope at htail ⊢
      rw [decodedCall, List.map_cons, List.find?_cons, List.find?_cons]
      have hsame : ("v_" ++ c.1.name = "v_" ++ x) = (c.1.name = x) :=
        propext (String.append_right_inj "v_")
      dsimp only
      simp only [hsame]
      by_cases hname : c.1.name = x
      · simp only [hname, decide_true]
        obtain ⟨p, arg⟩ := c
        have haccept : p.mode.Accepts imageSize params scope arg := haccepts _ List.mem_cons_self
        cases hmode : p.mode <;> rw [hmode] at haccept <;> cases arg <;>
          first
          | rfl
          | exact haccept.elim
          | (rename_i memory; cases memory <;> rfl)
      · simp only [hname, decide_false]
        exact htail

end Request

section Reply

variable {imageSize : List UInt8 → ℕ} {params : List Param} {scope : String → List UInt8}
  {b : Buffer} {done left : List UInt8}

/-- **The checks of the server case pass**: its sizes are those of the stub. -/
theorem Mode.check_decoded {names : List String} {scope' : String → List UInt8} {mode : Mode} {arg : CallArg}
    (hnames : names = params.map Param.name) (hscope : ∀ x, scope' ("v_" ++ x) = scope x)
    (haccepts : mode.Accepts imageSize params scope arg) :
    mode.check names scope' (mode.decoded imageSize scope arg) = true := by
  subst hnames
  have hsize : ∀ e, Mode.Sized params e → (e.server (params.map Param.name)).size scope' = e.size scope := by
    intro e hsized
    rw [SizeExpr.size, SizeExpr.size, SizeExpr.eval_server hsized fun x _ => hscope x]
  cases mode with
  | inBuffer e =>
      cases arg with
      | pointer memory =>
          cases memory with
          | none => rfl
          | some m => simp [Mode.check, Mode.decoded, hsize e haccepts.1]
      | _ => exact haccepts.elim
  | outBuffer e =>
      cases arg with
      | out present =>
          cases present with
          | false => rfl
          | true =>
              have hne := haccepts.2 rfl
              simp [Mode.check, Mode.decoded, hsize e haccepts.1, hne]
      | _ => exact haccepts.elim
  | _ => cases arg <;> rfl

/-- **The driver is called with what has been passed.** -/
theorem Mode.driverArg_decoded {mode : Mode} {arg : CallArg} (haccepts : mode.Accepts imageSize params scope arg) :
    mode.driverArg (mode.decoded imageSize scope arg) = mode.passed imageSize scope arg := by
  cases mode <;> cases arg <;>
    first
    | rfl
    | exact haccepts.elim
    | (rename_i memory; cases memory <;> rfl)

/-- What is stored in an output that is there: what the driver has put. -/
def Mode.given : Mode → CallArg → List UInt8 → Option (List UInt8)
  | outScalar _, .out true, v | outHandle, .out true, v | podOut _, .out true, v
  | outBuffer _, .out true, v => some v
  | _, _, _ => none

/-- **One output is stored** from what the server has put for it. -/
theorem Mode.before_store {mode : Mode} {arg : CallArg} {v : List UInt8}
    (haccepts : mode.Accepts imageSize params scope arg)
    (hfits : ∀ n, mode.passed imageSize scope arg = .out (some n) → v.length = n)
    (h : b.Before done ((mode.response (mode.decoded imageSize scope arg) v).flatMap Item.encoded ++ left)) :
    ∃ b', mode.store b arg = (some (mode.given arg v), b') ∧
      b'.Before (done ++ (mode.response (mode.decoded imageSize scope arg) v).flatMap Item.encoded) left := by
  have hsmall : ((mode.response (mode.decoded imageSize scope arg) v).flatMap Item.encoded).length < 2 ^ 64 := by
    have hlength := h.small
    rw [h.data, List.length_append, List.length_append] at hlength
    omega
  have hskip : ∀ (hnone : mode.response (mode.decoded imageSize scope arg) v = [])
      (hstore : mode.store b arg = (some (mode.given arg v), b)),
      ∃ b', mode.store b arg = (some (mode.given arg v), b') ∧
        b'.Before (done ++ (mode.response (mode.decoded imageSize scope arg) v).flatMap Item.encoded) left := by
    intro hnone hstore
    rw [hnone] at h ⊢
    exact ⟨b, hstore, by simpa only [List.flatMap_nil, List.append_nil, List.nil_append] using h⟩
  cases mode with
  | outScalar w =>
      cases arg with
      | out present =>
          cases present with
          | false => exact hskip rfl rfl
          | true =>
              obtain rfl : v.length = w := hfits w rfl
              simp only [Mode.response, Mode.decoded, List.flatMap_cons, List.flatMap_nil, Item.encoded,
                List.append_nil] at h hsmall ⊢
              obtain ⟨b', hget, hbefore, -⟩ := Buffer.Before.getObject h (UInt64.toNat_ofNat_of_lt' hsmall)
              exact ⟨b', by rw [Mode.store, hget]; rfl, hbefore⟩
      | _ => exact haccepts.elim
  | outHandle =>
      cases arg with
      | out present =>
          cases present with
          | false => exact hskip rfl rfl
          | true =>
              have hv : v.length = 8 := hfits 8 rfl
              simp only [Mode.response, Mode.decoded, List.flatMap_cons, List.flatMap_nil, Item.encoded,
                List.append_nil] at h ⊢
              obtain ⟨b', hget, hbefore, -⟩ := Buffer.Before.getObject (n := 8) h hv.symm
              exact ⟨b', by rw [Mode.store, hget]; rfl, hbefore⟩
      | _ => exact haccepts.elim
  | podOut w =>
      cases arg with
      | out present =>
          cases present with
          | false => exact hskip rfl rfl
          | true =>
              obtain rfl : v.length = w := hfits w rfl
              simp only [Mode.response, Mode.decoded, List.flatMap_cons, List.flatMap_nil,
                List.append_nil] at h ⊢
              obtain ⟨b', start, hsized, hbefore, -, hslice⟩ := h.getInput
              refine ⟨b', ?_, hbefore⟩
              rw [Mode.store, hsized]
              dsimp only
              rw [if_neg (fun hne => hne rfl), hslice]
              rfl
      | _ => exact haccepts.elim
  | outBuffer e =>
      cases arg with
      | out present =>
          cases present with
          | false => exact hskip rfl rfl
          | true =>
              simp only [Mode.response, Mode.decoded, List.flatMap_cons, List.flatMap_nil,
                List.append_nil] at h ⊢
              obtain ⟨b', start, hsized, hbefore, -, hslice⟩ := h.getInput
              refine ⟨b', ?_, hbefore⟩
              rw [Mode.store, hsized]
              dsimp only
              rw [hslice]
              rfl
      | _ => exact haccepts.elim
  | _ =>
      -- no other parameter is an output
      refine hskip ?_ rfl
      cases arg <;> rfl

/-- What is put for a whole call. -/
def responseItems (decoded : List (Param × Decoded)) (memory : List (List UInt8)) : List Item :=
  (decoded.zip memory).flatMap fun d => d.1.1.mode.response d.1.2 d.2

/-- **All outputs are stored.** -/
theorem before_storeAll {call : StubCall} {memory : List (List UInt8)}
    (haccepts : ∀ c ∈ call, c.1.mode.Accepts imageSize params scope c.2)
    (hfits : List.Forall₂ (fun arg (v : List UInt8) => ∀ n, arg = DriverArg.out (some n) → v.length = n)
      (driverArgs (decodedCall imageSize scope call)) memory)
    (h : b.Before done ((responseItems (decodedCall imageSize scope call) memory).flatMap Item.encoded ++ left)) :
    ∃ b', storeAll b call = (some (List.zipWith (fun c v => c.1.mode.given c.2 v) call memory), b') ∧
      b'.Before (done ++ (responseItems (decodedCall imageSize scope call) memory).flatMap Item.encoded) left := by
  induction call generalizing b done memory with
  | nil => exact ⟨b, rfl, by simpa [responseItems, decodedCall] using h⟩
  | cons c cs ih =>
      cases hfits with
      | cons hfit hfits =>
          rename_i v memory
          have haccept := haccepts c List.mem_cons_self
          have hfit : ∀ n, c.1.mode.passed imageSize scope c.2 = .out (some n) → v.length = n := by
            rw [← Mode.driverArg_decoded haccept]
            exact hfit
          rw [decodedCall, responseItems, List.map_cons, List.zip_cons_cons, List.flatMap_cons,
            List.flatMap_append, List.append_assoc] at h
          obtain ⟨b₁, hstore, hbefore⟩ := Mode.before_store haccept hfit h
          obtain ⟨b₂, hrest, hbefore'⟩ := ih (fun c hc => haccepts c (List.mem_cons_of_mem _ hc)) hfits hbefore
          refine ⟨b₂, ?_, ?_⟩
          · rw [storeAll, hstore]
            dsimp only
            rw [hrest]
            rfl
          · rw [decodedCall, responseItems, List.map_cons, List.zip_cons_cons, List.flatMap_cons,
              List.flatMap_append, ← List.append_assoc]
            exact hbefore'

end Reply

/-! ### Agreement -/

/-- What the driver is called with. -/
def passedArgs (imageSize : List UInt8 → ℕ) (call : StubCall) : List DriverArg :=
  call.map fun c => c.1.mode.passed imageSize (clientScope call) c.2

/-- **The stub and the server case agree**, for any parameters in any order. On what the stub has put, the
case passes its checks and calls the driver with what has been passed: no value, handle, pointer or size is
another. It has then read the whole request. On what the case has put, the stub stores in every output that
is there what the driver has put, and has then read the whole response, unless the driver has failed: then it
stores nothing. -/
theorem marshalling_agrees (imageSize : List UInt8 → ℕ) (call : StubCall) (fn : DriverFn)
    (haccepts : ∀ c ∈ call, c.1.mode.Accepts imageSize (call.map Prod.fst) (clientScope call) c.2)
    (hrequest : (stubRequest imageSize call).data.length < 2 ^ 64)
    (hresponse : (serverCase (call.map Prod.fst) fn (stubRequest imageSize call)).response.data.length < 2 ^ 64) :
    let served := serverCase (call.map Prod.fst) fn (stubRequest imageSize call)
    let stores := stubStores call served.status served.response.data
    let result := fn.run (passedArgs imageSize call)
    served.called = some (passedArgs imageSize call) ∧
      served.request.ok = true ∧ served.request.read = served.request.size ∧
      served.status = result.1 ∧
      (result.1 = 0 →
        stores.1 = some (List.zipWith (fun c v => c.1.mode.given c.2 v) call result.2) ∧
        stores.2.ok = true ∧ stores.2.read = stores.2.size) ∧
      (result.1 ≠ 0 → stores.1 = some (call.map fun _ => none)) := by
  have hdata : (stubRequest imageSize call).data =
      (call.flatMap fun c => c.1.mode.request imageSize (clientScope call) c.2).flatMap Item.encoded := by
    rw [stubRequest, Buffer.data_puts]
    rfl
  have hstart : (stubRequest imageSize call).Before []
      ((call.flatMap fun c => c.1.mode.request imageSize (clientScope call) c.2).flatMap Item.encoded ++ []) := by
    refine ⟨by rw [hdata, List.append_nil, List.nil_append], ?_, ?_, hrequest⟩
    · rw [stubRequest, Buffer.data_puts]
      rfl
    · rw [stubRequest, Buffer.data_puts]
  obtain ⟨b, hdecode, hread⟩ := before_decodeAll haccepts hstart
  -- a size that is another parameter is the same on either side
  have hargs : driverArgs (decodedCall imageSize (clientScope call) call) = passedArgs imageSize call := by
    rw [driverArgs, decodedCall, List.map_map]
    exact List.map_congr_left fun c hc => Mode.driverArg_decoded (haccepts c hc)
  have hchecks : (decodedCall imageSize (clientScope call) call).all (fun d => d.1.mode.check
      ((call.map Prod.fst).map Param.name)
      (serverScope (decodedCall imageSize (clientScope call) call)) d.2) = true := by
    rw [List.all_eq_true]
    intro d hd
    obtain ⟨c, hc, rfl⟩ := List.mem_map.mp hd
    exact Mode.check_decoded rfl (fun x => serverScope_decodedCall call x haccepts) (haccepts c hc)
  have hserved : serverCase (call.map Prod.fst) fn (stubRequest imageSize call) =
      ⟨some (passedArgs imageSize call), (fn.run (passedArgs imageSize call)).1,
        Buffer.puts {} (responseItems (decodedCall imageSize (clientScope call) call)
          (fn.run (passedArgs imageSize call)).2), b⟩ := by
    rw [serverCase, hdecode]
    dsimp only
    rw [if_pos hchecks, hargs]
    rfl
  have hall : b.read = b.size := by
    apply UInt64.toNat_inj.mp
    rw [hread.read, Buffer.size, UInt64.toNat_ofNat_of_lt' hread.small, hread.data, List.append_nil]
  intro served stores result
  rw [hserved] at hresponse
  have hsame : served = _ := hserved
  refine ⟨by rw [hsame], by rw [hsame]; exact hread.ok, by rw [hsame]; exact hall, by rw [hsame], ?_, ?_⟩
  -- the stub looks at the outputs only if the driver has succeeded
  · intro hok
    have hzero : served.status = 0 := by rw [hsame]; exact hok
    have hbefore : (⟨served.response.data, 0, true⟩ : Buffer).Before []
        ((responseItems (decodedCall imageSize (clientScope call) call) result.2).flatMap Item.encoded ++ []) := by
      rw [hsame]
      refine ⟨?_, rfl, rfl, hresponse⟩
      rw [Buffer.data_puts, List.append_nil]
    have hfits := fn.fits (passedArgs imageSize call)
    rw [← hargs] at hfits
    obtain ⟨b', hstore, hread'⟩ := before_storeAll haccepts (by rw [hargs] at hfits ⊢; exact hfits) hbefore
    have hstores : stores = (some (List.zipWith (fun c v => c.1.mode.given c.2 v) call result.2), b') := by
      rw [← hstore]
      exact if_neg (fun hne => hne hzero)
    rw [hstores]
    refine ⟨rfl, hread'.ok, ?_⟩
    apply UInt64.toNat_inj.mp
    rw [hread'.read, Buffer.size, UInt64.toNat_ofNat_of_lt' hread'.small, hread'.data, List.append_nil]
  · intro hne
    have hstatus : served.status ≠ 0 := by rw [hsame]; exact hne
    exact congrArg Prod.fst (if_pos hstatus)

/-- The length of an output is another parameter, and one parameter is ignored. -/
def exampleCall : StubCall :=
  [(⟨"dst", .outBuffer (.name "n")⟩, .out true), (⟨"n", .scalar 1⟩, .scalar [2]),
    (⟨"src", .inBuffer (.name "n")⟩, .pointer (some [7, 8, 9])), (⟨"ctx", .handle⟩, .handle 5),
    (⟨"old", .outScalar 4⟩, .out false), (⟨"extra", .ignore⟩, .pointer (some [1]))]

/-- Outputs are filled with ones. -/
def exampleFn : DriverFn where
  run args := (0, args.map fun
    | .out (some n) => List.replicate n 1
    | _ => [])
  fits args := by
    induction args with
    | nil => exact List.Forall₂.nil
    | cons arg args ih =>
        refine List.Forall₂.cons (fun n harg => ?_) ih
        subst harg
        exact List.length_replicate

/-- The arguments of the call below are ones that its parameters accept. -/
theorem exampleCall_accepts (c : Param × CallArg) (hc : c ∈ exampleCall) :
    c.1.mode.Accepts List.length (exampleCall.map Prod.fst) (clientScope exampleCall) c.2 := by
  have hsize : ((SizeExpr.name "n").size (clientScope exampleCall)) = 2 := by decide +kernel
  have hsized : Mode.Sized (exampleCall.map Prod.fst) (.name "n") := by
    intro x hx
    rw [SizeExpr.names, List.mem_singleton] at hx
    subst hx
    simp [exampleCall]
  simp only [exampleCall, List.mem_cons, List.not_mem_nil, or_false] at hc
  rcases hc with rfl | rfl | rfl | rfl | rfl | rfl
  · exact ⟨hsized, fun _ => by rw [hsize]; decide⟩
  · rfl
  · refine ⟨hsized, fun m hm => ?_⟩
    obtain rfl := Option.some.inj hm
    rw [hsize]
    decide
  · trivial
  · trivial
  · trivial

/-- The output comes back with the size that was passed. -/
theorem marshalling_agrees_example :
    (serverCase (exampleCall.map Prod.fst) exampleFn (stubRequest List.length exampleCall)).called =
        some [.out (some 2), .value [2], .pointer (some [7, 8]), .handle 5, .out none, .pointer none] ∧
      (stubStores exampleCall 0 (serverCase (exampleCall.map Prod.fst) exampleFn
        (stubRequest List.length exampleCall)).response.data).1 =
          some [some [1, 1], none, none, none, none, none] := by
  have hrequest : (stubRequest List.length exampleCall).data.length < 2 ^ 64 := by decide +kernel
  have hresponse : (serverCase (exampleCall.map Prod.fst) exampleFn
      (stubRequest List.length exampleCall)).response.data.length < 2 ^ 64 := by decide +kernel
  have hagrees := marshalling_agrees List.length exampleCall exampleFn exampleCall_accepts hrequest hresponse
  have hargs : passedArgs List.length exampleCall =
      [.out (some 2), .value [2], .pointer (some [7, 8]), .handle 5, .out none, .pointer none] := by
    decide +kernel
  obtain ⟨hcalled, -, -, hstatus, hstored, -⟩ := hagrees
  rw [hargs] at hcalled hstatus hstored
  refine ⟨hcalled, ?_⟩
  have hstored := (hstored rfl).1
  rw [hstatus] at hstored
  exact hstored

/-- A pointer that the application has passed is null for the driver, and an output that the driver has put
is not stored: the first parameter is ignored, and the call fails. -/
theorem ignored_and_failed :
    let call : StubCall := [(⟨"extra", .ignore⟩, .pointer (some [1])), (⟨"out", .outScalar 1⟩, .out true)]
    let fn : DriverFn := ⟨fun args => (1, args.map fun
      | .out (some n) => List.replicate n 7
      | _ => []), fun args => by
        induction args with
        | nil => exact List.Forall₂.nil
        | cons arg args ih =>
            refine List.Forall₂.cons (fun n harg => ?_) ih
            subst harg
            exact List.length_replicate⟩
    let served := serverCase (call.map Prod.fst) fn (stubRequest List.length call)
    served.called = some [.pointer none, .out (some 1)] ∧ served.response.data = [7] ∧
      (stubStores call served.status served.response.data).1 = some [none, none] ∧
      (stubStores call served.status served.response.data).2.read = 0 := by
  decide +kernel

end Rgpu
