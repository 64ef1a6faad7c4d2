import Rgpu.Foundations.LittleEndian
import Rgpu.Foundations.Readers
import Mathlib.Data.Int.Notation
import Mathlib.Data.List.Dedup

/-! # The Python wire format (`wire.py`)

Values in a tagged encoding. The encoder and the decoder are separate analyses of the cases, each with limits
of its own: on depth both look, on the size of texts and collections, on the tables of what torch has and on
the make of a host tensor only the decoder does.

* **`Value`** — what can be passed, with anything else as `other`.
* **`Value.enc`**, **`dec`** — the encoder and the decoder.
* **`Value.parts`** — the parts of a value, in the order in which they are encoded, with their depth.
* **`Part.stop`**, **`Part.taken`** — what the encoder raises at a part; whether the decoder takes it as meant. -/

namespace Rgpu.PyWire

open Foundations

/-- Bytes. -/
abbrev Bytes := List UInt8

def maxDepth : ℕ := 64
def maxItems : ℕ := 2 ^ 22
def maxStr : ℕ := 2 ^ 20

/-! ### Texts -/

/-- What a Python text is made of: characters, and surrogates that stand alone. -/
inductive CodePoint
  | char (c : Char)
  | surrogate (n : Fin 2048)
  deriving DecidableEq

/-- A `str`. -/
abbrev PyStr := List CodePoint

namespace PyStr

/-- The text of a literal. -/
def ofString (s : String) : PyStr := s.toList.map .char

/-- Its characters, if that is all there is. -/
def chars : PyStr → Option (List Char)
  | [] => some []
  | .char c :: s => (chars s).map (c :: ·)
  | .surrogate _ :: _ => none

/-- `s.encode()` -/
def encode (s : PyStr) : Option Bytes :=
  s.chars.map fun cs => cs.flatMap String.utf8EncodeChar

/-- `b.decode()` -/
def decode (b : Bytes) : Option PyStr :=
  b.toByteArray.utf8Decode?.map fun cs => cs.toList.map .char

/-- A string without lone surrogates is its characters. -/
theorem map_char_of_chars {s : PyStr} {cs : List Char} (h : s.chars = some cs) : cs.map .char = s := by
  induction s generalizing cs with
  | nil =>
      cases h
      rfl
  | cons p s ih =>
      cases p with
      | surrogate n => cases h
      | char c =>
          obtain ⟨cs', hcs', rfl⟩ := Option.map_eq_some_iff.mp h
          rw [List.map_cons, ih hcs']

/-- A text comes back. -/
theorem decode_encode {s : PyStr} {b : Bytes} (h : s.encode = some b) : decode b = some s := by
  obtain ⟨cs, hcs, rfl⟩ := Option.map_eq_some_iff.mp h
  have hutf : (cs.flatMap String.utf8EncodeChar).toByteArray = cs.utf8Encode := rfl
  rw [decode, hutf, List.utf8Decode?_utf8Encode, Option.map_some, List.toList_toArray, map_char_of_chars hcs]

end PyStr

/-! ### Values -/

/-- A key of a `dict`; of what is not a `str` only which it is matters. -/
inductive DictKey
  | str (s : PyStr)
  | other (which : ℕ)
  deriving DecidableEq

/-- `isinstance(k, str)` -/
def DictKey.isStr : DictKey → Bool
  | str _ => true
  | other _ => false

/-- What can be passed to the encoder. The id of a reference is any number, `len()` of what is like bytes need
not be the number of its bytes (of a `memoryview` it counts items, and without dimensions there is none), and
`Host.__init__` makes the shape a list of numbers but leaves the rest as it is. -/
inductive Value
  | none
  | bool (b : Bool)
  | int (i : ℤ)
  | float (bits : UInt64)
  | str (s : PyStr)
  | bytesLike (len : Option ℕ) (content : Bytes)
  | list (xs : List Value)
  | tuple (xs : List Value)
  | ref (id : ℤ)
  | nodeRef (index : ℤ)
  | dev (name : PyStr)
  | host (dtype : Value) (shape : List ℤ) (data : Value)
  | dtype (name : PyStr)
  | layout (name : PyStr)
  | memoryFormat (name : PyStr)
  | dict (es : List (DictKey × Value))
  | other (typeName : String)

namespace Value

mutual

/-- The canonical form: what is like a list is a list, what is like bytes is `bytes`. -/
def canonical : Value → Value
  | bytesLike _ content => bytesLike (some content.length) content
  | list xs => list (canonicals xs)
  | tuple xs => list (canonicals xs)
  | host dt shape data => host dt.canonical shape data.canonical
  | dict es => dict (canonicalEntries es)
  | none => none
  | bool b => bool b
  | int i => int i
  | float bits => float bits
  | str s => str s
  | ref id => ref id
  | nodeRef index => nodeRef index
  | dev name => dev name
  | dtype name => dtype name
  | layout name => layout name
  | memoryFormat name => memoryFormat name
  | other typeName => other typeName

def canonicals : List Value → List Value
  | [] => []
  | x :: xs => x.canonical :: canonicals xs

def canonicalEntries : List (DictKey × Value) → List (DictKey × Value)
  | [] => []
  | (k, v) :: es => (k, v.canonical) :: canonicalEntries es

end

end Value

/-! ### The encoder -/

/-- What the encoder raises. -/
inductive EncodeFailure
  | encodeError (message : String)
  | structError
  | unicodeEncodeError
  | attributeError
  | typeError
  deriving DecidableEq

/-- A tag. -/
def tag (c : Char) : Bytes := [UInt8.ofNat c.toNat]

/-- `struct.pack` of an unsigned number into `w` bytes. -/
def packUnsigned (w : ℕ) (n : ℤ) : Except EncodeFailure Bytes :=
  if 0 ≤ n ∧ n < 256 ^ w then .ok (LittleEndian.bytes w n.toNat) else .error .structError

/-- `_put_str` -/
def putStr (t : Bytes) (s : PyStr) : Except EncodeFailure Bytes :=
  match s.encode with
  | none => .error .unicodeEncodeError
  | some b => do
      let n ← packUnsigned 4 b.length
      pure (t ++ n ++ b)

/-- `_list_header` -/
def listHeader (count : ℕ) : Except EncodeFailure Bytes := do
  let n ← packUnsigned 4 count
  pure (tag 'L' ++ n)

/-- `_enc` of a number. -/
def encInt (i : ℤ) : Except EncodeFailure Bytes :=
  if -2 ^ 63 ≤ i ∧ i < 2 ^ 63 then .ok (tag 'I' ++ LittleEndian.bytes 8 (i % 2 ^ 64).toNat)
  else .error (.encodeError s!"integer {i} does not fit in 64 bits")

/-- `_enc` checks the depth before it looks at the value. -/
def atDepth (d : ℕ) (e : Except EncodeFailure Bytes) : Except EncodeFailure Bytes :=
  if d > maxDepth then .error (.encodeError "value is nested too deeply") else e

/-- `_enc` of each number of a shape. -/
def encInts (d : ℕ) : List ℤ → Except EncodeFailure Bytes
  | [] => pure []
  | i :: is => do
      let a ← atDepth d (encInt i)
      let b ← encInts d is
      pure (a ++ b)

/-- `_enc` of a shape. -/
def encShape (d : ℕ) (shape : List ℤ) : Except EncodeFailure Bytes :=
  atDepth d do
    let h ← listHeader shape.length
    let b ← encInts (d + 1) shape
    pure (h ++ b)

namespace Value

mutual

/-- `_enc` -/
def enc (d : ℕ) : Value → Except EncodeFailure Bytes
  | none => atDepth d (.ok (tag 'N'))
  | bool true => atDepth d (.ok (tag 'T'))
  | bool false => atDepth d (.ok (tag 'F'))
  | int i => atDepth d (encInt i)
  | float bits => atDepth d (.ok (tag 'D' ++ LittleEndian.bytes 8 bits.toNat))
  | str s => atDepth d (putStr (tag 'S') s)
  -- `len()` of a `memoryview` without dimensions raises
  | bytesLike Option.none _ => atDepth d (.error .typeError)
  | bytesLike (some len) content => atDepth d do
      let n ← packUnsigned 8 len
      pure (tag 'B' ++ n ++ content)
  | list xs => atDepth d do
      let h ← listHeader xs.length
      let b ← encs (d + 1) xs
      pure (h ++ b)
  | tuple xs => atDepth d do
      let h ← listHeader xs.length
      let b ← encs (d + 1) xs
      pure (h ++ b)
  | ref id => atDepth d do
      let n ← packUnsigned 8 id
      pure (tag 'R' ++ n)
  | nodeRef index => atDepth d do
      let n ← packUnsigned 4 index
      pure (tag 'G' ++ n)
  | dev name => atDepth d (putStr (tag 'V') name)
  | host dt shape data => atDepth d do
      let a ← enc (d + 1) dt
      let b ← encShape (d + 1) shape
      let c ← enc (d + 1) data
      pure (tag 'H' ++ (a ++ (b ++ c)))
  -- whatever `str()` gives is sent, whether or not the tables have it
  | dtype name => atDepth d (putStr (tag 'Y') name)
  | layout name => atDepth d (putStr (tag 'A') name)
  | memoryFormat name => atDepth d (putStr (tag 'M') name)
  | dict es => atDepth d (
      -- all keys are looked at before the first is encoded
      if es.all fun e => e.1.isStr then do
        let n ← packUnsigned 4 es.length
        let b ← encEntries (d + 1) es
        pure (tag 'K' ++ n ++ b)
      else .error (.encodeError "dict keys must be strings"))
  | other typeName => atDepth d (.error (.encodeError s!"cannot send a {typeName} to the server"))

def encs (d : ℕ) : List Value → Except EncodeFailure Bytes
  | [] => pure []
  | x :: xs => do
      let a ← enc d x
      let b ← encs d xs
      pure (a ++ b)

def encEntries (d : ℕ) : List (DictKey × Value) → Except EncodeFailure Bytes
  | [] => pure []
  | (.other _, _) :: _ => .error .attributeError
  | (.str k, v) :: es => do
      let a ← putStr [] k
      let b ← enc d v
      let c ← encEntries d es
      pure (a ++ (b ++ c))

end

end Value

/-- `encode` -/
def encode (v : Value) : Except EncodeFailure Bytes := v.enc 0

/-- `encode_element` -/
def encodeElement (v : Value) : Except EncodeFailure Bytes := v.enc 1

/-- `encode_elements` -/
def encodeElements (parts : List Bytes) : Except EncodeFailure Bytes := do
  let h ← listHeader parts.length
  pure (h ++ parts.flatten)

/-- Every element encoded on its own, as it arrives, and the parts joined. -/
def joined (xs : List Value) : Except EncodeFailure Bytes := do
  let parts ← xs.mapM encodeElement
  encodeElements parts

/-! ### The decoder -/

/-- What the decoder raises: a `DecodeError` with its text, or that of `bytes.decode`. -/
inductive DecodeFailure
  | decodeError (message : String)
  | notA (name : PyStr) (what : String)
  | unknownTag (t : Bytes)
  | unicodeDecodeError
  deriving DecidableEq

/-- The installed torch: the attributes it has, and the size of an element of a dtype. -/
structure Torch where
  has : String → Bool
  elementSize : PyStr → ℕ

namespace Torch

variable (torch : Torch)

/-- `_table`: the keys are `str()` of the attributes. -/
def table (names : List String) : List PyStr :=
  (names.filter torch.has).map fun n => .ofString ("torch." ++ n)

def dtypes : List PyStr :=
  torch.table ["float32", "float64", "float16", "bfloat16", "complex64", "complex128", "uint8", "int8", "int16",
    "int32", "int64", "bool", "uint16", "uint32", "uint64", "float8_e4m3fn", "float8_e5m2"]

def layouts : List PyStr := torch.table ["strided", "sparse_coo"]

def formats : List PyStr :=
  torch.table ["contiguous_format", "channels_last", "channels_last_3d", "preserve_format"]

end Torch

/-- A reader of bytes. -/
abbrev Read := Reader UInt8 DecodeFailure

/-- `_Reader.take` -/
def take (n : ℕ) : Read Bytes := fun s =>
  if s.length < n then .error (.decodeError "frame ends early") else .ok (s.take n, s.drop n)

/-- `_Reader.unpack` of an unsigned number. -/
def unpack (w : ℕ) : Read ℕ := do
  let b ← take w
  pure (LittleEndian.value b)

/-- `_Reader.string` -/
def string : Read PyStr := do
  let n ← unpack 4
  if n > maxStr then throw (.decodeError "string too long")
  else do
    let b ← take n
    match PyStr.decode b with
    | some s => pure s
    | none => throw .unicodeDecodeError

/-- `_lookup` -/
def lookup (table : List PyStr) (name : PyStr) (what : String) : Read PyStr :=
  if name ∈ table then pure name else throw (.notA name what)

/-- Two's complement, for `<q`. -/
def signed (n : ℕ) : ℤ := if n < 2 ^ 63 then n else n - 2 ^ 64

/-- The number that a value is for `isinstance(s, int) and s >= 0`: `True` and `False` are numbers too. -/
def dim? : Value → Option ℤ
  | .bool b => some (if b then 1 else 0)
  | .int i => if 0 ≤ i then some i else none
  | _ => none

/-- The numbers of a shape. -/
def dims? : List Value → Option (List ℤ)
  | [] => some []
  | x :: xs => do
      let i ← dim? x
      let is ← dims? xs
      pure (i :: is)

/-- A host tensor, of what was decoded for it. -/
def hostOf (torch : Torch) : Value → Value → Value → Except DecodeFailure Value
  | .dtype name, .list xs, .bytesLike len content =>
      match dims? xs with
      | none => .error (.decodeError "malformed host tensor")
      | some shape =>
          -- `numel` times the size of an element
          if shape.foldl (· * ·) 1 * torch.elementSize name = (content.length : ℤ) then
            .ok (.host (.dtype name) shape (.bytesLike len content))
          else .error (.decodeError "host tensor size does not match its data")
  | _, _, _ => .error (.decodeError "malformed host tensor")

/-- `d[k] = v`: a key keeps its place. -/
def dictSet : List (DictKey × Value) → DictKey → Value → List (DictKey × Value)
  | [], k, v => [(k, v)]
  | (k', v') :: es, k, v => if k' = k then (k', v) :: es else (k', v') :: dictSet es k v

/-- A `dict` comprehension. -/
def dictOf (ps : List (DictKey × Value)) : List (DictKey × Value) :=
  ps.foldl (fun es p => dictSet es p.1 p.2) []

/-- A key and its value. -/
def entry (sub : Read Value) : Read (DictKey × Value) := do
  let k ← string
  let v ← sub
  pure (.str k, v)

/-- `_dec` past the tag, where `sub` decodes one level further in. -/
def decTagged (torch : Torch) (sub : Read Value) (t : Bytes) : Read Value :=
  if t = tag 'N' then pure .none
  else if t = tag 'T' then pure (.bool true)
  else if t = tag 'F' then pure (.bool false)
  else if t = tag 'I' then do
    let n ← unpack 8
    pure (.int (signed n))
  else if t = tag 'D' then do
    let n ← unpack 8
    pure (.float (.ofNat n))
  else if t = tag 'S' then do
    let s ← string
    pure (.str s)
  else if t = tag 'B' then do
    -- as many bytes as the size says, wherever they come from
    let n ← unpack 8
    let b ← take n
    pure (.bytesLike (some b.length) b)
  else if t = tag 'L' then do
    let n ← unpack 4
    if n > maxItems then throw (.decodeError "list too long")
    else do
      let xs ← sub.times n
      pure (.list xs)
  else if t = tag 'R' then do
    let n ← unpack 8
    pure (.ref n)
  else if t = tag 'G' then do
    let n ← unpack 4
    pure (.nodeRef n)
  else if t = tag 'V' then do
    let s ← string
    pure (.dev s)
  else if t = tag 'H' then do
    let a ← sub
    let b ← sub
    let c ← sub
    liftM (hostOf torch a b c)
  else if t = tag 'Y' then do
    let s ← string
    let name ← lookup torch.dtypes s "dtype"
    pure (.dtype name)
  else if t = tag 'A' then do
    let s ← string
    let name ← lookup torch.layouts s "layout"
    pure (.layout name)
  else if t = tag 'M' then do
    let s ← string
    let name ← lookup torch.formats s "memory format"
    pure (.memoryFormat name)
  else if t = tag 'K' then do
    let n ← unpack 4
    if n > maxItems then throw (.decodeError "dict too large")
    else do
      let ps ← (entry sub).times n
      pure (.dict (dictOf ps))
  else throw (.unknownTag t)

/-- `_dec`, by the levels that are left: at depth `d` these are `65 - d`. -/
def dec (torch : Torch) : ℕ → Read Value
  | 0 => throw (.decodeError "value is nested too deeply")
  | levels + 1 => do
      let t ← take 1
      decTagged torch (dec torch levels) t

/-- `decode` -/
def decode (torch : Torch) (data : Bytes) : Except DecodeFailure Value :=
  match dec torch (maxDepth + 1) data with
  | .error e => .error e
  | .ok (v, []) => .ok v
  | .ok (_, _ :: _) => .error (.decodeError "trailing bytes after the value")

/-! ### The parts of a value -/

/-- A part of a value: a value in it with its depth, or the key of an entry. -/
inductive Part
  | value (d : ℕ) (v : Value)
  | key (k : DictKey)

namespace Value

mutual

/-- The parts, in the order in which they are encoded. -/
def parts (d : ℕ) : Value → List Part
  | list xs => .value d (list xs) :: partsOf (d + 1) xs
  | tuple xs => .value d (tuple xs) :: partsOf (d + 1) xs
  | host dt shape data => .value d (host dt shape data) :: (dt.parts (d + 1) ++
      (.value (d + 1) (list (shape.map int)) :: shape.map (fun i => .value (d + 2) (int i)) ++ data.parts (d + 1)))
  | dict es => .value d (dict es) :: partsOfEntries (d + 1) es
  | none => [.value d none]
  | bool b => [.value d (bool b)]
  | int i => [.value d (int i)]
  | float bits => [.value d (float bits)]
  | str s => [.value d (str s)]
  | bytesLike len content => [.value d (bytesLike len content)]
  | ref id => [.value d (ref id)]
  | nodeRef index => [.value d (nodeRef index)]
  | dev name => [.value d (dev name)]
  | dtype name => [.value d (dtype name)]
  | layout name => [.value d (layout name)]
  | memoryFormat name => [.value d (memoryFormat name)]
  | other typeName => [.value d (other typeName)]

def partsOf (d : ℕ) : List Value → List Part
  | [] => []
  | x :: xs => x.parts d ++ partsOf d xs

def partsOfEntries (d : ℕ) : List (DictKey × Value) → List Part
  | [] => []
  | (k, v) :: es => .key k :: (v.parts d ++ partsOfEntries d es)

end

end Value

/-- The keys of a `dict` are distinct, in every part. -/
def Part.keysDistinct : Part → Prop
  | .value _ (.dict es) => (es.map Prod.fst).Nodup
  | _ => True

/-- A value that Python can have. -/
def Value.KeysDistinct (v : Value) : Prop := ∀ p ∈ v.parts 0, p.keysDistinct

/-- What keeps a number from being packed into `w` bytes. -/
def stopUnsigned (w : ℕ) (n : ℤ) : Option EncodeFailure :=
  if 0 ≤ n ∧ n < 256 ^ w then none else some .structError

/-- What keeps a text from being encoded. -/
def stopStr (s : PyStr) : Option EncodeFailure :=
  match s.encode with
  | none => some .unicodeEncodeError
  | some b => stopUnsigned 4 b.length

/-- What keeps a value, apart from the values in it, from being encoded. -/
def stopValue : Value → Option EncodeFailure
  | .int i =>
      if -2 ^ 63 ≤ i ∧ i < 2 ^ 63 then none
      else some (.encodeError s!"integer {i} does not fit in 64 bits")
  | .str s | .dev s | .dtype s | .layout s | .memoryFormat s => stopStr s
  | .bytesLike none _ => some .typeError
  | .bytesLike (some len) _ => stopUnsigned 8 len
  | .list xs | .tuple xs => stopUnsigned 4 xs.length
  | .ref id => stopUnsigned 8 id
  | .nodeRef index => stopUnsigned 4 index
  | .dict es =>
      if es.all fun e => e.1.isStr then stopUnsigned 4 es.length
      else some (.encodeError "dict keys must be strings")
  | .other typeName => some (.encodeError s!"cannot send a {typeName} to the server")
  | _ => none

/-- What the encoder raises at a part, if it gets to it. -/
def Part.stop : Part → Option EncodeFailure
  | .value d v =>
      if d > maxDepth then some (.encodeError "value is nested too deeply") else stopValue v
  | .key (.other _) => some .attributeError
  | .key (.str k) => stopStr k

/-- The size of a text is within the decoder's limit. -/
def shortStr (s : PyStr) : Bool :=
  match s.encode with
  | none => false
  | some b => b.length ≤ maxStr

/-- The decoder takes a part as it was meant: texts and collections are within its limits, names are in its
tables, `len()` of what is like bytes is the number of its bytes, and a host tensor is well made. -/
def Part.taken (torch : Torch) : Part → Bool
  | .value _ (.str s) | .value _ (.dev s) | .key (.str s) => shortStr s
  | .value _ (.dtype name) => shortStr name && name ∈ torch.dtypes
  | .value _ (.layout name) => shortStr name && name ∈ torch.layouts
  | .value _ (.memoryFormat name) => shortStr name && name ∈ torch.formats
  | .value _ (.bytesLike len content) => len = some content.length
  | .value _ (.list xs) | .value _ (.tuple xs) => xs.length ≤ maxItems
  | .value _ (.dict es) => es.length ≤ maxItems
  | .value _ (.host dt shape data) =>
      (hostOf torch dt.canonical (.list (shape.map .int)) data.canonical).toBool
  | _ => true

end Rgpu.PyWire
