import Rgpu.Foundations.LittleEndian
import Mathlib.Data.UInt

/-! # The buffer of a payload (`common/wire.h`)

Fields are written one after another, with nothing between them, and read back in the same order. Lengths
are 64 bits, and those that are read come from the other side.

* **`Buffer`** — the bytes, the read position, and whether every read has been within them.
* **`Item`**, **`Field`** — what can be put, and what can be asked for; `Buffer.put` and `Buffer.get`.
* **`Buffer.gets_puts`** — what was put comes back, and ends where the buffer does.
* **`Buffer.gets_within`** — on any bytes, whatever is asked for: no read is past the end, and after one
  that fails all fail. -/

namespace Rgpu

open Foundations

/-- `Buffer`. -/
structure Buffer where
  data : List UInt8 := []
  /-- `read_`. -/
  read : UInt64 := 0
  /-- `ok_`. -/
  ok : Bool := true
  deriving DecidableEq, Repr

/-- What is put into a buffer. -/
inductive Item
  /-- `put`, of an object of a trivially copyable type. -/
  | object (bytes : List UInt8)
  /-- `put_bytes`: the length is known from context. -/
  | bytes (bytes : List UInt8)
  /-- `put_sized`. -/
  | sized (bytes : List UInt8)
  /-- `put_str`, of a string up to its NUL, or of a null pointer. -/
  | str (s : Option (List UInt8))
  deriving DecidableEq, Repr

/-- What is asked of a buffer. -/
inductive Field
  /-- `get`, of an object of that size. -/
  | object (size : UInt64)
  | bytes (n : UInt64)
  | sized
  | str
  deriving DecidableEq, Repr

/-- What a `get` hands out. -/
inductive Got
  | object (bytes : List UInt8)
  /-- A pointer into the buffer, as an offset, or null; and a length. -/
  | view (start : Option ℕ) (n : ℕ)
  | str (s : Option (List UInt8))
  deriving DecidableEq, Repr

namespace Buffer

/-- `put_bytes`; `put` writes the bytes of an object in the same way. -/
def putBytes (b : Buffer) (bytes : List UInt8) : Buffer := { b with data := b.data ++ bytes }

/-- `put_sized`. -/
def putSized (b : Buffer) (bytes : List UInt8) : Buffer :=
  (b.putBytes (LittleEndian.bytes 8 bytes.length)).putBytes bytes

/-- `put_str`. -/
def putStr (b : Buffer) (s : Option (List UInt8)) : Buffer :=
  match s with
  | none => b.putBytes [0]
  | some s => (b.putBytes [1]).putSized s

/-- One item is put. -/
def put (b : Buffer) : Item → Buffer
  | .object bytes => b.putBytes bytes
  | .bytes bytes => b.putBytes bytes
  | .sized bytes => b.putSized bytes
  | .str s => b.putStr s

/-- Items are put in order. -/
def puts (b : Buffer) (items : List Item) : Buffer := items.foldl put b

/-- `size()`. -/
def size (b : Buffer) : UInt64 := UInt64.ofNat b.data.length

/-- `take`: what is asked for is compared with what is left. Added to the read position, a length near
`2 ^ 64` would wrap. -/
def take (b : Buffer) (n : UInt64) : Bool × Buffer :=
  if !b.ok || n > b.size - b.read then (false, { b with ok := false })
  else (true, { b with read := b.read + n })

/-- The bytes at an offset. -/
def slice (b : Buffer) (start n : ℕ) : List UInt8 := (b.data.drop start).take n

/-- `get`: the bytes of the object. -/
def getObject (b : Buffer) (size : UInt64) : Option (List UInt8) × Buffer :=
  match b.take size with
  | (false, b) => (none, b)
  | (true, b) => (some (b.slice (b.read - size).toNat size.toNat), b)

/-- `get_bytes`: where they start. -/
def getBytes (b : Buffer) (n : UInt64) : Option ℕ × Buffer :=
  match b.take n with
  | (false, b) => (none, b)
  | (true, b) => (some (b.read - n).toNat, b)

/-- `get_sized`: where they start, if there are any, and how many. -/
def getSized (b : Buffer) : Option (Option ℕ × ℕ) × Buffer :=
  match b.getObject 8 with
  | (none, b) => (none, b)
  | (some len, b) =>
      let n := UInt64.ofNat (LittleEndian.value len)
      -- a view of nothing has no place in the buffer
      if n = 0 then (some (none, 0), b)
      else
        match b.getBytes n with
        | (none, b) => (none, b)
        | (some start, b) => (some (some start, n.toNat), b)

/-- `get_str`. -/
def getStr (b : Buffer) : Option (Option (List UInt8)) × Buffer :=
  match b.getObject 1 with
  | (none, b) => (none, b)
  | (some has, b) =>
      -- the null pointer
      if has = [0] then (some none, b)
      else
        match b.getSized with
        | (none, b) => (none, b)
        | (some (start, n), b) => (some (some (b.slice (start.getD 0) n)), b)

/-- One field is asked for. -/
def get (b : Buffer) : Field → Option Got × Buffer
  | .object size => ((b.getObject size).1.map .object, (b.getObject size).2)
  | .bytes n => ((b.getBytes n).1.map fun start => .view (some start) n.toNat, (b.getBytes n).2)
  | .sized => (b.getSized.1.map fun v => .view v.1 v.2, b.getSized.2)
  | .str => (b.getStr.1.map .str, b.getStr.2)

/-- Fields are asked for in order. -/
def gets (b : Buffer) : List Field → List (Option Got) × Buffer
  | [] => ([], b)
  | f :: fs =>
      let (x, b) := b.get f
      let (xs, b) := b.gets fs
      (x :: xs, b)

end Buffer

namespace Item

/-- The `get` that goes with a `put`. -/
def field : Item → Field
  | .object bs => .object (UInt64.ofNat bs.length)
  | .bytes bs => .bytes (UInt64.ofNat bs.length)
  | .sized _ => .sized
  | .str _ => .str

/-- The bytes that are put. -/
def encoded : Item → List UInt8
  | .object bs => bs
  | .bytes bs => bs
  | .sized bs => LittleEndian.bytes 8 bs.length ++ bs
  | .str none => [0]
  | .str (some s) => 1 :: (LittleEndian.bytes 8 s.length ++ s)

/-- What is handed out is what was put. -/
def Is (b : Buffer) : Item → Got → Prop
  | .object bs, g => g = .object bs
  | .bytes bs, .view start n | .sized bs, .view start n =>
      n = bs.length ∧ b.slice (start.getD 0) n = bs
  | .str s, g => g = .str s
  | .bytes _, _ | .sized _, _ => False

end Item

namespace Buffer

variable {b : Buffer} {n : UInt64}

/-- The bytes fit into memory, and the read position is among them. -/
structure Valid (b : Buffer) : Prop where
  small : b.data.length < 2 ^ 64
  within : b.read.toNat ≤ b.data.length

/-- Nothing has been read. -/
theorem valid_of_read_zero {data : List UInt8} (h : data.length < 2 ^ 64) : (⟨data, 0, true⟩ : Buffer).Valid :=
  ⟨h, Nat.zero_le _⟩

/-! ### `take` -/

/-- As much is left as lies behind the read position, without a wrap. -/
theorem toNat_left (h : b.Valid) : (b.size - b.read).toNat = b.data.length - b.read.toNat := by
  have hsize : b.size.toNat = b.data.length := UInt64.toNat_ofNat_of_lt' h.small
  have hle : b.read ≤ b.size := by
    rw [UInt64.le_iff_toNat_le, hsize]
    exact h.within
  rw [UInt64.toNat_sub_of_le _ _ hle, hsize]

/-- The read position does not wrap. -/
theorem toNat_read_add (h : b.Valid) (hn : n.toNat ≤ b.data.length - b.read.toNat) :
    (b.read + n).toNat = b.read.toNat + n.toNat := by
  have hsmall := h.small
  have hwithin := h.within
  rw [UInt64.toNat_add, Nat.mod_eq_of_lt (by omega)]

/-- **What `take` does**: it goes on by `n` if that much is left, and nothing has failed before. -/
theorem take_cases (h : b.Valid) (n : UInt64) :
    (b.ok = true ∧ n.toNat ≤ b.data.length - b.read.toNat ∧
      b.take n = (true, { b with read := b.read + n })) ∨
    ((b.ok = false ∨ b.data.length - b.read.toNat < n.toNat) ∧ b.take n = (false, { b with ok := false })) := by
  have hleft := toNat_left h
  unfold take
  cases hok : b.ok with
  | false => exact Or.inr ⟨Or.inl rfl, rfl⟩
  | true =>
      by_cases hn : n > b.size - b.read
      · have hlt : b.data.length - b.read.toNat < n.toNat := hleft ▸ UInt64.lt_iff_toNat_lt.mp hn
        exact Or.inr ⟨Or.inr hlt, if_pos (by simpa using hn)⟩
      · have hle : n.toNat ≤ b.data.length - b.read.toNat :=
          hleft ▸ Nat.le_of_not_lt fun hlt => hn (UInt64.lt_iff_toNat_lt.mpr hlt)
        exact Or.inl ⟨rfl, hle, if_neg (by simpa using hn)⟩

/-! ### No read is past the end -/

/-- What a read does to a buffer: `done` says whether it succeeded. -/
structure Reads (b b' : Buffer) (done : Bool) : Prop where
  data : b'.data = b.data
  valid : b'.Valid
  forward : b.read.toNat ≤ b'.read.toNat
  ok : b'.ok = done
  /-- After a failure everything fails. -/
  sticky : b.ok = false → done = false

/-- What is read, and then read on. -/
theorem Reads.trans {b b' b'' : Buffer} {done : Bool} (h : Reads b b' true) (h' : Reads b' b'' done) :
    Reads b b'' done :=
  ⟨h'.data.trans h.data, h'.valid, Nat.le_trans h.forward h'.forward, h'.ok, fun hok => by
    cases h.sticky hok⟩

/-- Taking bytes reads them, or nothing. -/
theorem reads_take (h : b.Valid) (n : UInt64) : Reads b (b.take n).2 (b.take n).1 := by
  rcases take_cases h n with ⟨hok, hn, htake⟩ | ⟨-, htake⟩
  · rw [htake]
    have hadd := toNat_read_add h hn
    have hwithin := h.within
    refine ⟨rfl, ⟨h.small, ?_⟩, ?_, hok, fun hfalse => ?_⟩
    · dsimp only
      omega
    · dsimp only
      omega
    · rw [hok] at hfalse
      cases hfalse
  · rw [htake]
    exact ⟨rfl, ⟨h.small, h.within⟩, Nat.le_refl _, rfl, fun _ => rfl⟩

/-- Reading an object moves the read position over it, or leaves it. -/
theorem reads_getObject (h : b.Valid) (size : UInt64) :
    Reads b (b.getObject size).2 (b.getObject size).1.isSome := by
  have hreads := reads_take h size
  unfold getObject
  split
  · rename_i heq
    rw [heq] at hreads
    exact hreads
  · rename_i heq
    rw [heq] at hreads
    exact hreads

/-- Bytes that are handed out are those that have just been read. -/
theorem reads_getBytes (h : b.Valid) (n : UInt64) :
    Reads b (b.getBytes n).2 (b.getBytes n).1.isSome ∧
      ∀ start, (b.getBytes n).1 = some start →
        start = b.read.toNat ∧ start + n.toNat = (b.getBytes n).2.read.toNat := by
  have hreads := reads_take h n
  unfold getBytes
  rcases take_cases h n with ⟨-, hn, htake⟩ | ⟨-, htake⟩
  · rw [htake] at hreads ⊢
    refine ⟨hreads, fun start hstart => ?_⟩
    have hadd := toNat_read_add h hn
    have hback : b.read + n - n = b.read := UInt64.add_sub_cancel _ _
    obtain rfl := Option.some.inj hstart
    dsimp only
    rw [hback, hadd]
    exact ⟨rfl, rfl⟩
  · rw [htake] at hreads ⊢
    exact ⟨hreads, fun start hstart => nomatch hstart⟩

/-- A pointer that is handed out, when it is one to `n` bytes. -/
def Points (b b' : Buffer) (start : Option ℕ) (n : ℕ) : Prop :=
  n ≠ 0 → ∃ at', start = some at' ∧ b.read.toNat ≤ at' ∧ at' + n = b'.read.toNat

/-- Reading a sized block moves over it, and points into the buffer. -/
theorem reads_getSized (h : b.Valid) :
    Reads b b.getSized.2 b.getSized.1.isSome ∧
      ∀ start n, b.getSized.1 = some (start, n) → Points b b.getSized.2 start n := by
  have hlen := reads_getObject h 8
  unfold getSized
  split
  · rename_i heq
    rw [heq] at hlen
    exact ⟨hlen, fun _ _ h => nomatch h⟩
  · rename_i len b₁ heq
    rw [heq] at hlen
    dsimp only at hlen ⊢
    split
    · refine ⟨hlen, fun start n hstart hn => ?_⟩
      obtain ⟨-, rfl⟩ := Prod.mk.inj (Option.some.inj hstart)
      exact absurd rfl hn
    · obtain ⟨hbytes, hpoints⟩ := reads_getBytes hlen.valid (UInt64.ofNat (LittleEndian.value len))
      split
      · rename_i heq'
        rw [heq'] at hbytes
        exact ⟨hlen.trans hbytes, fun _ _ h => nomatch h⟩
      · rename_i start' b₂ heq'
        rw [heq'] at hbytes hpoints
        refine ⟨hlen.trans hbytes, fun start n hstart _ => ?_⟩
        obtain ⟨rfl, rfl⟩ := Prod.mk.inj (Option.some.inj hstart)
        obtain ⟨hfrom, hto⟩ := hpoints start' rfl
        exact ⟨start', rfl, hfrom ▸ hlen.forward, hto⟩

/-- Reading a string moves over it. -/
theorem reads_getStr (h : b.Valid) : Reads b b.getStr.2 b.getStr.1.isSome := by
  have hhas := reads_getObject h 1
  unfold getStr
  split
  · rename_i heq
    rw [heq] at hhas
    exact hhas
  · rename_i has b₁ heq
    rw [heq] at hhas
    dsimp only at hhas ⊢
    split
    · exact hhas
    · have hsized := (reads_getSized hhas.valid).1
      split
      · rename_i heq'
        rw [heq'] at hsized
        exact hhas.trans hsized
      · rename_i heq'
        rw [heq'] at hsized
        exact hhas.trans hsized

/-- **One read.** -/
theorem reads_get (h : b.Valid) (f : Field) :
    Reads b (b.get f).2 (b.get f).1.isSome ∧
      ∀ start n, (b.get f).1 = some (.view start n) → Points b (b.get f).2 start n := by
  cases f with
  | object size =>
      refine ⟨?_, fun start n hview => ?_⟩
      · rw [get, Option.isSome_map]
        exact reads_getObject h size
      · obtain ⟨_, -, hview⟩ := Option.map_eq_some_iff.mp hview
        cases hview
  | bytes k =>
      obtain ⟨hreads, hpoints⟩ := reads_getBytes h k
      refine ⟨?_, fun start n hview _ => ?_⟩
      · rw [get, Option.isSome_map]
        exact hreads
      · obtain ⟨at', hat, hview⟩ := Option.map_eq_some_iff.mp hview
        obtain ⟨rfl, rfl⟩ := Got.view.inj hview
        obtain ⟨hfrom, hto⟩ := hpoints at' hat
        exact ⟨at', rfl, hfrom ▸ Nat.le_refl _, hto⟩
  | sized =>
      obtain ⟨hreads, hpoints⟩ := reads_getSized h
      refine ⟨?_, fun start n hview => ?_⟩
      · rw [get, Option.isSome_map]
        exact hreads
      · obtain ⟨v, hv, hview⟩ := Option.map_eq_some_iff.mp hview
        obtain ⟨rfl, rfl⟩ := Got.view.inj hview
        exact hpoints v.1 v.2 hv
  | str =>
      refine ⟨?_, fun start n hview => ?_⟩
      · rw [get, Option.isSome_map]
        exact reads_getStr h
      · obtain ⟨_, -, hview⟩ := Option.map_eq_some_iff.mp hview
        cases hview

/-! ### What was put comes back -/

/-- `done` has been read, and `left` is still to be read. -/
structure Before (b : Buffer) (done left : List UInt8) : Prop where
  data : b.data = done ++ left
  read : b.read.toNat = done.length
  ok : b.ok = true
  small : b.data.length < 2 ^ 64

variable {done left bs : List UInt8}

/-- A buffer that stands before something is valid. -/
theorem Before.valid (h : b.Before done left) : b.Valid := by
  refine ⟨h.small, ?_⟩
  rw [h.read, h.data, List.length_append]
  exact Nat.le_add_right _ _

/-- The bytes that come next. -/
theorem Before.slice (h : b.Before done (bs ++ left)) : b.slice done.length bs.length = bs := by
  rw [Buffer.slice, h.data, List.drop_left, List.take_left]

/-- As much is taken as there is. -/
theorem Before.take (h : b.Before done (bs ++ left)) {n : UInt64} (hn : n.toNat = bs.length) :
    b.take n = (true, { b with read := b.read + n }) ∧
      Before { b with read := b.read + n } (done ++ bs) left ∧ (b.read + n - n).toNat = done.length := by
  have hleft : n.toNat ≤ b.data.length - b.read.toNat := by
    rw [h.data, h.read, List.length_append, List.length_append, hn]
    omega
  have htake : b.take n = (true, { b with read := b.read + n }) := by
    rcases take_cases h.valid n with ⟨-, -, htake⟩ | ⟨hfail, -⟩
    · exact htake
    · rcases hfail with hok | hlt
      · rw [h.ok] at hok
        cases hok
      · exact absurd hleft (Nat.not_le.mpr hlt)
  have hback : b.read + n - n = b.read := UInt64.add_sub_cancel _ _
  refine ⟨htake, ⟨?_, ?_, h.ok, h.small⟩, ?_⟩
  · rw [List.append_assoc]
    exact h.data
  · dsimp only
    rw [toNat_read_add h.valid hleft, h.read, hn, List.length_append]
  · rw [hback, h.read]

/-- The object that comes next is what is read. -/
theorem Before.getObject (h : b.Before done (bs ++ left)) {n : UInt64} (hn : n.toNat = bs.length) :
    ∃ b', b.getObject n = (some bs, b') ∧ b'.Before (done ++ bs) left ∧ b'.data = b.data := by
  obtain ⟨htake, hbefore, hback⟩ := h.take hn
  refine ⟨{ b with read := b.read + n }, ?_, hbefore, rfl⟩
  have hslice : Buffer.slice { b with read := b.read + n } done.length bs.length = bs := h.slice
  rw [Buffer.getObject, htake]
  dsimp only
  rw [hback, hn, hslice]

/-- The bytes that come next are where they are read. -/
theorem Before.getBytes (h : b.Before done (bs ++ left)) {n : UInt64} (hn : n.toNat = bs.length) :
    ∃ b', b.getBytes n = (some done.length, b') ∧ b'.Before (done ++ bs) left ∧ b'.data = b.data := by
  obtain ⟨htake, hbefore, hback⟩ := h.take hn
  refine ⟨{ b with read := b.read + n }, ?_, hbefore, rfl⟩
  rw [Buffer.getBytes, htake]
  dsimp only
  rw [hback]

/-- The block that comes next is where it is read, behind its length. -/
theorem Before.getSized (h : b.Before done (LittleEndian.bytes 8 bs.length ++ (bs ++ left))) :
    ∃ b' start, b.getSized = (some (start, bs.length), b') ∧
      b'.Before (done ++ (LittleEndian.bytes 8 bs.length ++ bs)) left ∧ b'.data = b.data ∧
      b.slice (start.getD 0) bs.length = bs := by
  have hsmall : bs.length < 2 ^ 64 := by
    have hlength := h.small
    rw [h.data, List.length_append, List.length_append, List.length_append] at hlength
    omega
  have hlen : (8 : UInt64).toNat = (LittleEndian.bytes 8 bs.length).length := by
    rw [LittleEndian.length_bytes]
    rfl
  obtain ⟨b₁, hget, hbefore, hdata⟩ := h.getObject hlen
  have hvalue : (UInt64.ofNat (LittleEndian.value (LittleEndian.bytes 8 bs.length))).toNat = bs.length := by
    rw [LittleEndian.value_bytes (by omega), UInt64.toNat_ofNat_of_lt' hsmall]
  rw [Buffer.getSized, hget]
  dsimp only
  by_cases hzero : UInt64.ofNat (LittleEndian.value (LittleEndian.bytes 8 bs.length)) = 0
  -- of nothing there is no address
  · have hnil : bs = [] := by
      rw [hzero] at hvalue
      exact List.length_eq_zero_iff.mp hvalue.symm
    subst hnil
    rw [if_pos hzero]
    refine ⟨b₁, none, rfl, ?_, hdata, rfl⟩
    simpa only [List.append_nil, List.nil_append] using hbefore
  · rw [if_neg hzero]
    obtain ⟨b₂, hbytes, hbefore', hdata'⟩ := hbefore.getBytes hvalue
    rw [hbytes]
    dsimp only
    rw [hvalue]
    refine ⟨b₂, _, rfl, ?_, hdata'.trans hdata, ?_⟩
    · rw [← List.append_assoc]
      exact hbefore'
    · have hslice := hbefore.slice
      rw [Buffer.slice, hdata] at hslice
      exact hslice

/-- The string that comes next is what is read, the null one too. -/
theorem Before.getStr (s : Option (List UInt8)) (h : b.Before done ((Item.str s).encoded ++ left)) :
    ∃ b', b.getStr = (some s, b') ∧ b'.Before (done ++ (Item.str s).encoded) left ∧ b'.data = b.data := by
  cases s with
  | none =>
      obtain ⟨b', hget, hbefore, hdata⟩ := Before.getObject (n := 1) h rfl
      refine ⟨b', ?_, hbefore, hdata⟩
      rw [Buffer.getStr, hget]
      rfl
  | some s =>
      have h' : b.Before done ([1] ++ (LittleEndian.bytes 8 s.length ++ (s ++ left))) := by
        simpa only [Item.encoded, List.cons_append, List.append_assoc, List.nil_append] using h
      obtain ⟨b₁, hget, hbefore, hdata⟩ := Before.getObject (n := 1) h' rfl
      obtain ⟨b₂, start, hsized, hbefore', hdata', hslice⟩ := hbefore.getSized
      refine ⟨b₂, ?_, ?_, hdata'.trans hdata⟩
      · have hkept : b₂.slice (start.getD 0) s.length = s := by
          rw [Buffer.slice, hdata']
          exact hslice
        rw [Buffer.getStr, hget]
        dsimp only
        rw [if_neg (by decide), hsized]
        dsimp only
        rw [hkept]
      · simpa only [Item.encoded, List.cons_append, List.append_assoc, List.nil_append] using hbefore'

/-- **One item** comes back. -/
theorem Before.get (item : Item) (h : b.Before done (item.encoded ++ left)) :
    ∃ g b', b.get item.field = (some g, b') ∧ b'.Before (done ++ item.encoded) left ∧ b'.data = b.data ∧
      item.Is b g := by
  have hlength : item.encoded.length < 2 ^ 64 := by
    have hsmall := h.small
    rw [h.data, List.length_append, List.length_append] at hsmall
    omega
  cases item with
  | object bs =>
      have hn : (UInt64.ofNat bs.length).toNat = bs.length := UInt64.toNat_ofNat_of_lt' hlength
      obtain ⟨b', hget, hbefore, hdata⟩ := Before.getObject h hn
      refine ⟨.object bs, b', ?_, hbefore, hdata, rfl⟩
      simp only [Buffer.get, Item.field, hget, Option.map_some]
      rfl
  | bytes bs =>
      have hn : (UInt64.ofNat bs.length).toNat = bs.length := UInt64.toNat_ofNat_of_lt' hlength
      obtain ⟨b', hget, hbefore, hdata⟩ := h.getBytes hn
      refine ⟨.view (some done.length) bs.length, b', ?_, hbefore, hdata, rfl, h.slice⟩
      simp only [Buffer.get, Item.field, hget, Option.map_some, hn]
  | sized bs =>
      obtain ⟨b', start, hget, hbefore, hdata, hslice⟩ :=
        Before.getSized (by simpa only [Item.encoded, List.append_assoc] using h)
      refine ⟨.view start bs.length, b', ?_, hbefore, hdata, rfl, hslice⟩
      simp only [Buffer.get, Item.field, hget, Option.map_some]
  | str s =>
      obtain ⟨b', hget, hbefore, hdata⟩ := Before.getStr s h
      refine ⟨.str s, b', ?_, hbefore, hdata, rfl⟩
      simp only [Buffer.get, Item.field, hget, Option.map_some]

/-- What was put, as bytes. -/
theorem data_puts (b : Buffer) (items : List Item) :
    b.puts items = { b with data := b.data ++ items.flatMap Item.encoded } := by
  induction items generalizing b with
  | nil => rw [puts, List.foldl_nil, List.flatMap_nil, List.append_nil]
  | cons item items ih =>
      have hput : b.put item = { b with data := b.data ++ item.encoded } := by
        cases item with
        | object bs => rfl
        | bytes bs => rfl
        | sized bs => simp only [put, putSized, putBytes, Item.encoded, List.append_assoc]
        | str s =>
            cases s with
            | none => rfl
            | some s =>
                simp only [put, putStr, putSized, putBytes, Item.encoded, List.append_assoc, List.cons_append,
                  List.nil_append]
      have hrest := ih (b.put item)
      rw [puts] at hrest
      rw [puts, List.foldl_cons, hrest, hput, List.flatMap_cons, List.append_assoc]

/-- **The run lemma.** What was put comes back in order. -/
theorem Before.gets (items : List Item) (h : b.Before done (items.flatMap Item.encoded ++ left)) :
    ∃ gs b', b.gets (items.map Item.field) = (gs.map some, b') ∧
      b'.Before (done ++ items.flatMap Item.encoded) left ∧ b'.data = b.data ∧
      List.Forall₂ (fun item g => item.Is b g) items gs := by
  induction items generalizing b done with
  | nil => exact ⟨[], b, rfl, by simpa using h, rfl, List.Forall₂.nil⟩
  | cons item items ih =>
      rw [List.flatMap_cons, List.append_assoc] at h
      obtain ⟨g, b₁, hget, hbefore, hdata, his⟩ := Before.get item h
      obtain ⟨gs, b₂, hgets, hbefore', hdata', hall⟩ := ih hbefore
      have hsame : ∀ item g, Item.Is b₁ item g ↔ Item.Is b item g := by
        intro item g
        cases item <;> cases g <;> simp only [Item.Is, Buffer.slice, hdata]
      refine ⟨g :: gs, b₂, ?_, ?_, hdata'.trans hdata, List.Forall₂.cons his ?_⟩
      · rw [List.map_cons, Buffer.gets, hget]
        dsimp only
        rw [hgets]
        rfl
      · rw [List.flatMap_cons, ← List.append_assoc]
        exact hbefore'
      · exact hall.imp fun item g h => (hsame item g).mp h

/-- **Any sequence of reads.** -/
theorem reads_gets (h : b.Valid) (fs : List Field) :
    (b.gets fs).2.data = b.data ∧ (b.gets fs).2.Valid := by
  induction fs generalizing b with
  | nil => exact ⟨rfl, h⟩
  | cons f fs ih =>
      obtain ⟨hreads, -⟩ := reads_get h f
      obtain ⟨hdata, hvalid⟩ := ih hreads.valid
      exact ⟨hdata.trans hreads.data, hvalid⟩

/-- **Written and read back.** -/
theorem gets_puts (items : List Item) (h : (items.flatMap Item.encoded).length < 2 ^ 64) :
    ∃ gs : List Got, (((puts {} items).gets (items.map Item.field)).1 = gs.map some) ∧
      List.Forall₂ (fun item g => item.Is (puts {} items) g) items gs ∧
      ((puts {} items).gets (items.map Item.field)).2.read = (puts {} items).size ∧
      ((puts {} items).gets (items.map Item.field)).2.ok = true := by
  have hbefore : (puts {} items).Before [] (items.flatMap Item.encoded ++ []) := by
    rw [data_puts, List.append_nil]
    exact ⟨rfl, rfl, rfl, h⟩
  obtain ⟨gs, b', hgets, hafter, hdata, hall⟩ := hbefore.gets
  refine ⟨gs, by rw [hgets], hall, ?_, by rw [hgets]; exact hafter.ok⟩
  rw [hgets]
  apply UInt64.toNat_inj.mp
  rw [hafter.read, size, UInt64.toNat_ofNat_of_lt' hbefore.small, data_puts]

/-- **No read past the end.** After any reads of any bytes, the read position is within them; what a
further read hands out lies within them, after what was read before; and it fails exactly if the buffer is
not `ok` afterwards, as it does whenever one has failed before. -/
theorem gets_within (data : List UInt8) (h : data.length < 2 ^ 64) (fs : List Field) (f : Field) :
    let b := ((⟨data, 0, true⟩ : Buffer).gets fs).2
    b.read.toNat ≤ data.length ∧
      (∀ start n, (b.get f).1 = some (.view start n) → n ≠ 0 →
        ∃ at', start = some at' ∧ b.read.toNat ≤ at' ∧ at' + n ≤ data.length) ∧
      ((b.get f).1 = none ↔ (b.get f).2.ok = false) ∧
      (b.ok = false → (b.get f).1 = none) := by
  intro b
  obtain ⟨hdata, hvalid⟩ := reads_gets (valid_of_read_zero h) fs
  obtain ⟨hreads, hpoints⟩ := reads_get hvalid f
  have hwithin := hvalid.within
  rw [hdata] at hwithin
  have hafter := hreads.valid.within
  rw [hreads.data, hdata] at hafter
  refine ⟨hwithin, fun start n hview hn => ?_, ?_, fun hok => ?_⟩
  · obtain ⟨at', hat, hfrom, hto⟩ := hpoints start n hview hn
    exact ⟨at', hat, hfrom, hto ▸ hafter⟩
  · rw [hreads.ok, Option.isSome_eq_false_iff, Option.isNone_iff_eq_none]
  · exact Option.isNone_iff_eq_none.mp (Option.isSome_eq_false_iff.mp (hreads.sticky hok))

/-- **The buffer codec.** -/
theorem codec :
    (∀ items : List Item, (items.flatMap Item.encoded).length < 2 ^ 64 →
      ∃ gs : List Got, (((puts {} items).gets (items.map Item.field)).1 = gs.map some) ∧
        List.Forall₂ (fun item g => item.Is (puts {} items) g) items gs ∧
        ((puts {} items).gets (items.map Item.field)).2.read = (puts {} items).size ∧
        ((puts {} items).gets (items.map Item.field)).2.ok = true) ∧
    (∀ data : List UInt8, data.length < 2 ^ 64 → ∀ (fs : List Field) (f : Field),
      let b := ((⟨data, 0, true⟩ : Buffer).gets fs).2
      b.read.toNat ≤ data.length ∧
        (∀ start n, (b.get f).1 = some (.view start n) → n ≠ 0 →
          ∃ at', start = some at' ∧ b.read.toNat ≤ at' ∧ at' + n ≤ data.length) ∧
        ((b.get f).1 = none ↔ (b.get f).2.ok = false) ∧
        (b.ok = false → (b.get f).1 = none)) :=
  ⟨gets_puts, gets_within⟩

/-- A string and a blob. -/
theorem codec_witness :
    (∃ gs : List Got, (((puts {} [.str (some [104, 105]), .sized []]).gets [.str, .sized]).1 = gs.map some) ∧
      ((puts {} [.str (some [104, 105]), .sized []]).gets [.str, .sized]).2.read = 19) ∧
    ((⟨[255], 0, true⟩ : Buffer).get .sized).1 = none := by
  obtain ⟨gs, hgets, -, hread, -⟩ := codec.1 [.str (some [104, 105]), .sized []] (by decide)
  have hfails := (codec.2 [255] (by decide) [] .sized).2.2.1
  exact ⟨⟨gs, hgets, hread⟩, hfails.mpr rfl⟩
end Buffer

end Rgpu
