import Rgpu.Foundations.Metered
import Rgpu.Python.Wire
import Mathlib.Algebra.BigOperators.Group.List.Basic

/-! # Decoding what anyone may have sent (`wire.py`)

The decoder with its position in the frame and its depth, which come out whether it returns or raises, and with a
meter of what a frame can make it do. It does what `dec` does, for which the round trips are proved.

* **`Meter`** — where it is, how far it has read, how deep it went, and how many values it began.
* **`decode`** — the decoder.
* **`Documented`** — a value of the types that a frame can carry, with every host tensor well made.
* **`decode_follows`** — without the meter this is the decoder of the round trips.
* **`decode_bounded`** — whatever the bytes are, what it does is bounded by their number. -/

namespace Rgpu.PyWire.Decoding

open Foundations

/-! ### The source -/

/-- What the decoder has done. -/
structure Meter where
  /-- `_Reader.pos` -/
  pos : ℕ := 0
  /-- The end of the furthest slice. -/
  reach : ℕ := 0
  /-- The greatest depth at which `_dec` was called. -/
  deepest : ℕ := 0
  /-- How many values and texts were begun: those that were made, and those that were given up. -/
  made : ℕ := 0

/-- What Python code raises. -/
inductive Raised
  /-- `DecodeError` and `UnicodeDecodeError` are such. -/
  | valueError (e : DecodeFailure)
  /-- `struct.error` -/
  | structError
  | keyError

/-- A piece of the decoder. -/
abbrev Decoder (α : Type) := Metered Meter Raised α

variable (torch : Torch) (data : Bytes)

/-- `raise DecodeError(...)`, and what `bytes.decode` raises -/
def refuse {α : Type} (e : DecodeFailure) : Decoder α := throw (.valueError e)

/-- A value is begun. -/
def Meter.tick (m : Meter) : Meter := { m with made := m.made + 1 }

/-- `_dec` is called. -/
def Meter.enter (depth : ℕ) (m : Meter) : Meter := { m with deepest := max m.deepest depth }

/-- `n` bytes are sliced off. -/
def Meter.advance (n : ℕ) (m : Meter) : Meter := { m with pos := m.pos + n, reach := max m.reach (m.pos + n) }

/-- `_Reader.take` -/
def take (n : ℕ) : Decoder Bytes := do
  let m ← get
  if m.pos + n > data.length then refuse (.decodeError "frame ends early")
  else do
    set (m.advance n)
    pure ((data.drop m.pos).take n)

/-- `struct.unpack` of an unsigned number of `w` bytes. -/
def structUnpack (w : ℕ) (b : Bytes) : Decoder ℕ :=
  if b.length = w then pure (LittleEndian.value b) else throw .structError

/-- `_Reader.unpack` -/
def unpack (w : ℕ) : Decoder ℕ := do
  let b ← take data w
  structUnpack w b

/-- `_Reader.string` -/
def string : Decoder PyStr := do
  let n ← unpack data 4
  if n > maxStr then refuse (.decodeError "string too long")
  else do
    let b ← take data n
    modify Meter.tick
    match PyStr.decode b with
    | some s => pure s
    | none => refuse .unicodeDecodeError

/-- `table[name]` -/
def index (table : List PyStr) (name : PyStr) : Decoder PyStr :=
  if table.contains name then pure name else throw .keyError

/-- `_lookup` -/
def lookup (table : List PyStr) (name : PyStr) (what : String) : Decoder PyStr :=
  tryCatch (index table name) fun
    | .keyError => refuse (.notA name what)
    | e => throw e

/-- A key and its value. -/
def entry (sub : Decoder Value) : Decoder (DictKey × Value) := do
  let k ← string data
  let v ← sub
  pure (.str k, v)

/-- The checks of a host tensor, and the tensor. -/
def host (a b c : Value) : Decoder Value :=
  match hostOf torch a b c with
  | .ok v => pure v
  | .error e => refuse e

/-- `_dec` past the tag. -/
def decTagged (sub : Decoder Value) (t : Bytes) : Decoder Value :=
  if t = tag 'N' then pure .none
  else if t = tag 'T' then pure (.bool true)
  else if t = tag 'F' then pure (.bool false)
  else if t = tag 'I' then do
    let n ← unpack data 8
    pure (.int (signed n))
  else if t = tag 'D' then do
    let n ← unpack data 8
    pure (.float (.ofNat n))
  else if t = tag 'S' then do
    let s ← string data
    pure (.str s)
  else if t = tag 'B' then do
    let n ← unpack data 8
    let b ← take data n
    pure (.bytesLike (some b.length) b)
  else if t = tag 'L' then do
    let n ← unpack data 4
    if n > maxItems then refuse (.decodeError "list too long")
    else do
      let xs ← sub.times n
      pure (.list xs)
  else if t = tag 'R' then do
    let n ← unpack data 8
    pure (.ref n)
  else if t = tag 'G' then do
    let n ← unpack data 4
    pure (.nodeRef n)
  else if t = tag 'V' then do
    let s ← string data
    pure (.dev s)
  else if t = tag 'H' then do
    let a ← sub
    let b ← sub
    let c ← sub
    host torch a b c
  else if t = tag 'Y' then do
    let s ← string data
    let name ← lookup torch.dtypes s "dtype"
    pure (.dtype name)
  else if t = tag 'A' then do
    let s ← string data
    let name ← lookup torch.layouts s "layout"
    pure (.layout name)
  else if t = tag 'M' then do
    let s ← string data
    let name ← lookup torch.formats s "memory format"
    pure (.memoryFormat name)
  else if t = tag 'K' then do
    let n ← unpack data 4
    if n > maxItems then refuse (.decodeError "dict too large")
    else do
      let ps ← (entry data sub).times n
      pure (.dict (dictOf ps))
  else refuse (.unknownTag t)

/-- `_dec` -/
def dec (depth : ℕ) : Decoder Value := do
  modify (Meter.enter depth)
  if depth > maxDepth then refuse (.decodeError "value is nested too deeply")
  else do
    let t ← take data 1
    modify Meter.tick
    decTagged torch data (dec (depth + 1)) t
termination_by maxDepth + 1 - depth

/-- `decode` -/
def decode : Decoder Value := do
  let v ← dec torch data 0
  let m ← get
  if m.pos ≠ data.length then refuse (.decodeError "trailing bytes after the value") else pure v

/-! ### What is decoded -/

/-- A value of the types that a frame can carry: no tuple, nothing else, `bytes` as long as they are, names that torch
has, `str` keys that are distinct; and every host tensor in it has a shape without negative numbers and as much data
as the shape and the size of an element take. -/
inductive Documented : Value → Prop
  | none : Documented .none
  | bool (b : Bool) : Documented (.bool b)
  | int (i : ℤ) : Documented (.int i)
  | float (bits : UInt64) : Documented (.float bits)
  | str (s : PyStr) : Documented (.str s)
  | bytes (content : Bytes) : Documented (.bytesLike (some content.length) content)
  | list {xs : List Value} (h : ∀ x ∈ xs, Documented x) : Documented (.list xs)
  | ref (id : ℕ) : Documented (.ref id)
  | nodeRef (index : ℕ) : Documented (.nodeRef index)
  | dev (name : PyStr) : Documented (.dev name)
  | host {name : PyStr} {shape : List ℤ} {content : Bytes} (hname : name ∈ torch.dtypes) (hshape : ∀ n ∈ shape, 0 ≤ n)
      (hsize : (content.length : ℤ) = shape.prod * torch.elementSize name) :
      Documented (.host (.dtype name) shape (.bytesLike (some content.length) content))
  | dtype {name : PyStr} (h : name ∈ torch.dtypes) : Documented (.dtype name)
  | layout {name : PyStr} (h : name ∈ torch.layouts) : Documented (.layout name)
  | memoryFormat {name : PyStr} (h : name ∈ torch.formats) : Documented (.memoryFormat name)
  | dict {es : List (DictKey × Value)} (hkeys : ∀ e ∈ es, e.1.isStr = true) (hdistinct : (es.map Prod.fst).Nodup)
      (h : ∀ e ∈ es, Documented e.2) : Documented (.dict es)

variable {torch} {data}

/-- A shape has no negative dimension. -/
theorem nonneg_of_dims {xs : List Value} {shape : List ℤ} (h : dims? xs = some shape) : ∀ n ∈ shape, 0 ≤ n := by
  induction xs generalizing shape with
  | nil =>
      cases h
      exact List.forall_mem_nil _
  | cons x xs ih =>
      obtain ⟨i, hi, h⟩ := Option.bind_eq_some_iff.mp h
      obtain ⟨is, his, h⟩ := Option.bind_eq_some_iff.mp h
      cases h
      refine List.forall_mem_cons.mpr ⟨?_, ih his⟩
      unfold dim? at hi
      split at hi
      · cases hi
        split <;> decide
      · rename_i n
        obtain ⟨hn, hi⟩ := Option.ite_none_right_eq_some.mp hi
        cases hi
        exact hn
      · cases hi

/-- A host tensor that was made is well made. -/
theorem documented_host {a b c v : Value} (ha : Documented torch a) (hc : Documented torch c)
    (h : hostOf torch a b c = .ok v) : Documented torch v := by
  unfold hostOf at h
  split at h
  · rename_i name xs len content
    split at h
    · cases h
    · rename_i shape hshape
      split at h
      · rename_i hsize
        cases h
        cases ha with
        | dtype hname =>
            cases hc with
            | bytes content =>
                refine .host hname (nonneg_of_dims hshape) ?_
                rw [List.prod_eq_foldl]
                exact hsize.symm
      · cases h
  · cases h

/-- An entry of a dict is the one that was set, or was there. -/
theorem mem_dictSet {es : List (DictKey × Value)} {k : DictKey} {v : Value} {e : DictKey × Value}
    (h : e ∈ dictSet es k v) : e = (k, v) ∨ e ∈ es := by
  induction es with
  | nil => exact .inl (List.mem_singleton.mp h)
  | cons p es ih =>
      rw [dictSet] at h
      split at h
      · rename_i hk
        rcases List.mem_cons.mp h with rfl | h
        · exact .inl (by rw [hk])
        · exact .inr (List.mem_cons_of_mem _ h)
      · rcases List.mem_cons.mp h with rfl | h
        · exact .inr List.mem_cons_self
        · exact (ih h).imp_right (List.mem_cons_of_mem _)

/-- Setting an entry adds its key, if it was not there. -/
theorem keys_dictSet (es : List (DictKey × Value)) (k : DictKey) (v : Value) :
    (dictSet es k v).map Prod.fst = if k ∈ es.map Prod.fst then es.map Prod.fst else es.map Prod.fst ++ [k] := by
  induction es with
  | nil => rfl
  | cons p es ih =>
      rw [dictSet]
      by_cases hk : p.1 = k
      · rw [if_pos hk, if_pos (by rw [List.map_cons, hk]; exact List.mem_cons_self)]
        rfl
      · rw [if_neg hk, List.map_cons, ih, List.map_cons]
        by_cases hmem : k ∈ es.map Prod.fst
        · rw [if_pos hmem, if_pos (List.mem_cons_of_mem _ hmem)]
        · rw [if_neg hmem, if_neg fun h => (List.mem_cons.mp h).elim (fun heq => hk heq.symm) hmem, List.cons_append]

/-- Setting an entry makes no key appear twice. -/
theorem nodup_dictSet {es : List (DictKey × Value)} (h : (es.map Prod.fst).Nodup) (k : DictKey) (v : Value) :
    ((dictSet es k v).map Prod.fst).Nodup := by
  rw [keys_dictSet]
  split
  · exact h
  · rename_i hk
    rw [← List.concat_eq_append]
    exact h.concat hk

/-- What the pairs have, a `dict` of them has. -/
theorem documented_dictOf {ps : List (DictKey × Value)} (h : ∀ p ∈ ps, p.1.isStr = true ∧ Documented torch p.2) :
    Documented torch (.dict (dictOf ps)) := by
  -- whatever is in the `dict` before
  suffices hfrom : ∀ acc : List (DictKey × Value), (acc.map Prod.fst).Nodup →
      (∀ e ∈ acc, e.1.isStr = true ∧ Documented torch e.2) →
      ((ps.foldl (fun es p => dictSet es p.1 p.2) acc).map Prod.fst).Nodup ∧
      ∀ e ∈ ps.foldl (fun es p => dictSet es p.1 p.2) acc, e.1.isStr = true ∧ Documented torch e.2 by
    obtain ⟨hdistinct, hall⟩ := hfrom [] .nil (List.forall_mem_nil _)
    exact .dict (fun e he => (hall e he).1) hdistinct fun e he => (hall e he).2
  induction ps with
  | nil => exact fun acc hnodup hacc => ⟨hnodup, hacc⟩
  | cons p ps ih =>
      rw [List.forall_mem_cons] at h
      intro acc hnodup hacc
      refine ih h.2 _ (nodup_dictSet hnodup p.1 p.2) fun e he => ?_
      rcases mem_dictSet he with rfl | he
      · exact h.1
      · exact hacc e he

/-! ### What it takes -/

/-- Taking bytes costs as many, or stops at the end of the frame. -/
theorem exec_take (n : ℕ) (m : Meter) : (take data n).exec m =
    if m.pos + n > data.length then (.error (.valueError (.decodeError "frame ends early")), m)
    else (.ok ((data.drop m.pos).take n), m.advance n) := by
  rw [take, Metered.exec_bind_ok (Metered.exec_get m)]
  split <;> rfl

/-- So many bytes have been read for which no value was made yet, nothing past the end was read, and no call was too
deep. -/
structure Within (data : Bytes) (spare : ℕ) (m : Meter) : Prop where
  made : m.made + spare ≤ m.pos
  pos : m.pos ≤ data.length
  reach : m.reach ≤ data.length
  deepest : m.deepest ≤ maxDepth + 1

/-- It raised a `ValueError`, within the bounds. -/
def Refused (data : Bytes) (e : Raised) (m : Meter) : Prop := (∃ f, e = .valueError f) ∧ Within data 0 m

/-- It takes the bytes it reads and returns what has `V`, or it is refused. -/
def Bounded {α : Type} (data : Bytes) (r : Decoder α) (spare : ℕ) (V : α → Prop) (left : ℕ) : Prop :=
  Ensures (Within data spare) r (fun a m => V a ∧ Within data left m) (Refused data)

/-- What is within a bound is within a larger one. -/
theorem Within.mono {m : Meter} {spare left : ℕ} (h : Within data spare m) (hle : left ≤ spare) : Within data left m :=
  { h with made := (Nat.add_le_add_left hle _).trans h.made }

namespace Bounded

variable {α β : Type} {r : Decoder α} {f : α → Decoder β} {V : α → Prop} {W : β → Prop} {spare mid left : ℕ}

/-- A value costs nothing. -/
theorem pure {a : α} (h : V a) : Bounded data (Pure.pure a) spare V spare :=
  Ensures.pure fun _ hm => ⟨h, hm⟩

/-- A refusal costs nothing. -/
theorem refuse {e : DecodeFailure} : Bounded data (refuse e) spare V left :=
  Ensures.throw fun _ hm => ⟨⟨e, rfl⟩, hm.mono (Nat.zero_le _)⟩

/-- What one reader leaves to spend the next may spend. -/
theorem bind (h : Bounded data r spare V mid) (hf : ∀ a, V a → Bounded data (f a) mid W left) :
    Bounded data (r >>= f) spare W left :=
  Ensures.bind h fun a => Ensures.of_and (hf a)

/-- Either of two readers. -/
theorem ite {c : Prop} [Decidable c] {r' : Decoder α} (h : Bounded data r spare V left)
    (h' : Bounded data r' spare V left) : Bounded data (if c then r else r') spare V left :=
  Ensures.ite (fun _ => h) fun _ => h'

/-- A bound may be given up in part. -/
theorem weaken {V' : α → Prop} {left' : ℕ} (h : Bounded data r spare V left) (hV : ∀ a, V a → V' a)
    (hle : left' ≤ left) : Bounded data r spare V' left' :=
  Ensures.mono h (fun _ hm => hm) fun a _ hm => ⟨hV a hm.1, hm.2.mono hle⟩

/-- A reader as often as one likes, each of its turns paying for itself. -/
theorem times (h : Bounded data r spare V spare) (n : ℕ) :
    Bounded data (r.times n) spare (fun as => ∀ a ∈ as, V a) spare :=
  Ensures.times h n

/-- A value takes a byte. -/
theorem tick (h : left < spare) : Bounded data (modify Meter.tick) spare (fun _ => True) left := by
  refine Ensures.modify fun m hm => ⟨trivial, ?_⟩
  have hmade := hm.made
  exact { hm with made := by show m.made + 1 + left ≤ m.pos; omega }

/-- Nothing past the end is read: a slice is as long as it is meant to be. -/
theorem take (n : ℕ) : Bounded data (take data n) spare (fun b => b.length = n) (spare + n) := by
  intro m hm
  rw [exec_take]
  split
  · rename_i heq
    split at heq
    · cases heq
    · rename_i hlength
      cases heq
      have hmade := hm.made
      have hreach := hm.reach
      refine ⟨?_, ⟨?_, ?_, ?_, hm.deepest⟩⟩
      · show ((data.drop m.pos).take n).length = n
        rw [List.length_take, List.length_drop]
        omega
      · show m.made + (spare + n) ≤ m.pos + n
        omega
      · show m.pos + n ≤ data.length
        omega
      · show max m.reach (m.pos + n) ≤ data.length
        omega
  · rename_i heq
    split at heq
    · cases heq
      exact ⟨⟨_, rfl⟩, hm.mono (Nat.zero_le _)⟩
    · cases heq

/-- A number of `w` bytes leaves `w` to spend. -/
theorem unpack (w : ℕ) : Bounded data (unpack data w) spare (fun _ => True) (spare + w) :=
  (take w).bind fun b hb => by
    rw [structUnpack, if_pos hb]
    exact pure trivial

/-- A string pays for itself. -/
theorem string : Bounded data (string data) spare (fun _ => True) spare := by
  refine (unpack 4).bind fun n _ => .ite refuse ?_
  have htick : Bounded data (modify Meter.tick) (spare + 4 + n) (fun _ => True) spare := tick (by omega)
  refine (take n).bind fun b _ => htick.bind fun _ _ => ?_
  split
  · exact pure trivial
  · exact refuse

/-- A `KeyError` does not get out. -/
theorem lookup (table : List PyStr) (name : PyStr) (what : String) :
    Bounded data (lookup table name what) spare (fun name => name ∈ table) spare := by
  have hindex : Ensures (Within data spare) (index table name) (fun name m => name ∈ table ∧ Within data spare m)
      fun e m => e = .keyError ∧ Within data spare m := by
    refine Ensures.ite (fun hcontains => ?_) fun _ => ?_
    · exact Ensures.pure fun _ hm => ⟨List.contains_iff_mem.mp hcontains, hm⟩
    · exact Ensures.throw fun _ hm => ⟨rfl, hm⟩
  refine hindex.tryCatch fun e => Ensures.of_and ?_
  rintro rfl
  exact refuse

/-- An entry of a dict pays for itself, with its value. -/
theorem entry {sub : Decoder Value} {V : Value → Prop} (h : Bounded data sub spare V spare) :
    Bounded data (entry data sub) spare (fun p => p.1.isStr = true ∧ V p.2) spare :=
  string.bind fun _ _ => h.bind fun _ hv => pure ⟨rfl, hv⟩

/-- What comes behind the tag: each value in it takes a byte of its own, as `sub` does. -/
theorem decTagged {sub : Decoder Value} (h : ∀ spare, Bounded data sub spare (Documented torch) spare) (t : Bytes) :
    Bounded data (decTagged torch data sub t) spare (Documented torch) spare := by
  -- the bytes of a number pay for no value
  have hunpack : ∀ w, Bounded data (Decoding.unpack data w) spare (fun _ => True) spare := fun w =>
    (unpack w).weaken (fun _ h => h) (Nat.le_add_right _ _)
  unfold Decoding.decTagged
  refine .ite (pure .none) <| .ite (pure (.bool true)) <| .ite (pure (.bool false)) <| .ite ?int <| .ite ?float <|
    .ite ?str <| .ite ?bytes <| .ite ?list <| .ite ?ref <| .ite ?node <| .ite ?dev <| .ite ?host <| .ite ?dtype <|
    .ite ?layout <| .ite ?format <| .ite ?dict refuse
  case int => exact (hunpack 8).bind fun n _ => pure (.int _)
  case float => exact (hunpack 8).bind fun n _ => pure (.float _)
  case str => exact string.bind fun s _ => pure (.str s)
  case bytes =>
    refine (hunpack 8).bind fun n _ => ?_
    exact ((take n).weaken (fun _ h => h) (Nat.le_add_right _ _)).bind fun b _ => pure (.bytes b)
  case list =>
    exact (hunpack 4).bind fun n _ => .ite refuse (((h spare).times n).bind fun xs hxs => pure (.list hxs))
  case ref => exact (hunpack 8).bind fun n _ => pure (.ref n)
  case node => exact (hunpack 4).bind fun n _ => pure (.nodeRef n)
  case dev => exact string.bind fun s _ => pure (.dev s)
  case host =>
    refine (h spare).bind fun a ha => (h spare).bind fun b _ => (h spare).bind fun c hc => ?_
    rw [host]
    split
    · rename_i v hv
      exact pure (documented_host ha hc hv)
    · exact refuse
  case dtype => exact string.bind fun s _ => (lookup _ s _).bind fun _ hname => pure (.dtype hname)
  case layout => exact string.bind fun s _ => (lookup _ s _).bind fun _ hname => pure (.layout hname)
  case format => exact string.bind fun s _ => (lookup _ s _).bind fun _ hname => pure (.memoryFormat hname)
  case dict =>
    refine (hunpack 4).bind fun n _ => .ite refuse ?_
    exact ((entry (h spare)).times n).bind fun ps hps => pure (documented_dictOf hps)

/-- A level is entered that there may be. -/
theorem enter {depth : ℕ} (hdepth : depth ≤ maxDepth + 1) :
    Bounded data (modify (Meter.enter depth)) spare (fun _ => True) spare :=
  Ensures.modify fun _ hm => ⟨trivial, { hm with deepest := max_le hm.deepest hdepth }⟩

/-- **A value takes no more than it reads**, whatever is yet to be made of what was read before. -/
theorem dec {depth : ℕ} (hdepth : depth ≤ maxDepth + 1) (spare : ℕ) :
    Bounded data (dec torch data depth) spare (Documented torch) spare := by
  -- over the levels that are left
  induction hlevels : maxDepth + 1 - depth generalizing depth spare with
  | zero =>
      rw [Decoding.dec, if_pos (by omega)]
      exact (enter hdepth).bind fun _ _ => refuse
  | succ levels ih =>
      rw [Decoding.dec, if_neg (by omega)]
      refine (enter hdepth).bind fun _ _ => (take 1).bind fun t _ => ?_
      -- the byte of the tag is for the value itself
      refine (tick (Nat.lt_succ_self _)).bind fun _ _ => ?_
      exact decTagged (fun spare => ih (by omega) spare (by omega)) t

end Bounded

/-- Nothing is spent at first. -/
theorem within_start : Within data 0 {} where
  made := le_rfl
  pos := Nat.zero_le _
  reach := Nat.zero_le _
  deepest := Nat.zero_le _

/-- A value that is returned is all there was in the frame. -/
theorem ensures_decode (torch : Torch) (data : Bytes) : Ensures (Within data 0) (decode torch data)
    (fun v m => Documented torch v ∧ Within data 0 m ∧ m.pos = data.length) (Refused data) := by
  refine Ensures.bind (Bounded.dec (Nat.zero_le _) 0) fun v => Ensures.get fun m hm => Ensures.ite (fun _ => ?_) ?_
  · refine Ensures.throw fun m' hm' => ⟨⟨_, rfl⟩, ?_⟩
    rw [hm']
    exact hm.2
  · intro hend
    refine Ensures.pure fun m' hm' => ?_
    rw [hm']
    exact ⟨hm.1, hm.2, not_not.mp hend⟩

/-- **Whatever the bytes are**, decoding them comes to an end at which no call of `_dec` was deeper than one past the
limit, no more values were begun than there are bytes, and no slice went past the end; and either a value of the
documented types was returned, and the whole input was read, or a `ValueError` was raised. -/
theorem decode_bounded (torch : Torch) (data : Bytes) :
    let result := (decode torch data).exec {}
    result.2.deepest ≤ maxDepth + 1 ∧ result.2.made ≤ data.length ∧ result.2.reach ≤ data.length ∧
      ((∃ v, result.1 = .ok v ∧ Documented torch v ∧ result.2.pos = data.length) ∨
        ∃ e, result.1 = .error (.valueError e)) := by
  have hwithin : ∀ {m}, Within data 0 m →
      m.deepest ≤ maxDepth + 1 ∧ m.made ≤ data.length ∧ m.reach ≤ data.length := fun hm =>
    ⟨hm.deepest, hm.made.trans hm.pos, hm.reach⟩
  have hdecode := ensures_decode torch data {} within_start
  intro result
  split at hdecode
  · rename_i v m hexec
    have hresult : result = (.ok v, m) := hexec
    obtain ⟨hdeepest, hmade, hreach⟩ := hwithin hdecode.2.1
    rw [hresult]
    exact ⟨hdeepest, hmade, hreach, .inl ⟨v, rfl, hdecode.1, hdecode.2.2⟩⟩
  · rename_i e m hexec
    have hresult : result = (.error e, m) := hexec
    obtain ⟨⟨f, hf⟩, hm⟩ := hdecode
    obtain ⟨hdeepest, hmade, hreach⟩ := hwithin hm
    rw [hresult]
    exact ⟨hdeepest, hmade, hreach, .inr ⟨f, congrArg Except.error hf⟩⟩

/-! ### Without the meter -/

/-- The reader has left what lies behind the position. -/
def Left (data : Bytes) (m : Meter) (rest : Bytes) : Prop := m.pos ≤ data.length ∧ rest = data.drop m.pos

/-- The decoder without the meter does the same. -/
abbrev Same {α : Type} (data : Bytes) (r : Decoder α) (r' : Read α) : Prop :=
  Follows (Left data) Raised.valueError r r'

namespace Same

/-- The metered reader takes the bytes that the plain one takes. -/
theorem take (n : ℕ) : Same data (take data n) (PyWire.take n) := by
  rintro m rest ⟨hpos, rfl⟩
  rw [exec_take, PyWire.take]
  have hlength : (data.drop m.pos).length = data.length - m.pos := List.length_drop
  by_cases hshort : m.pos + n > data.length
  · rw [if_pos (by omega), if_pos hshort]
    exact ⟨m, rfl⟩
  · rw [if_neg (by omega), if_neg hshort]
    refine ⟨m.advance n, rfl, by show m.pos + n ≤ data.length; omega, ?_⟩
    show (data.drop m.pos).drop n = data.drop (m.pos + n)
    rw [List.drop_drop]

/-- It reads the same numbers. -/
theorem unpack (w : ℕ) : Same data (unpack data w) (PyWire.unpack w) := by
  refine (take w).bindOn fun b u u' hread => ?_
  have hlength : b.length = w := by
    unfold PyWire.take at hread
    split at hread
    · cases hread
    · cases hread
      rw [List.length_take]
      omega
  rw [structUnpack, if_pos hlength]
  exact Follows.pure _

/-- It reads the same strings. -/
theorem string : Same data (string data) PyWire.string := by
  refine (unpack 4).bind fun n => .ite (.throw _) ((take n).bind fun b => Follows.note (fun _ _ h => h) ?_)
  cases PyStr.decode b with
  | none => exact Follows.throw _
  | some s => exact Follows.pure s

/-- It looks up the same names. -/
theorem lookup (table : List PyStr) (name : PyStr) (what : String) :
    Same data (lookup table name what) (PyWire.lookup table name what) := by
  intro m rest h
  by_cases hmem : name ∈ table
  · rw [PyWire.lookup, if_pos hmem]
    refine ⟨m, Metered.exec_tryCatch_ok ?_, h⟩
    rw [index, if_pos (List.contains_iff_mem.mpr hmem)]
    rfl
  · rw [PyWire.lookup, if_neg hmem]
    have hindex : (index table name).exec m = (.error .keyError, m) := by
      rw [index, if_neg (mt List.contains_iff_mem.mp hmem)]
      rfl
    exact ⟨m, Metered.exec_tryCatch_error hindex⟩

/-- It reads the same entries of a dict. -/
theorem entry {sub : Decoder Value} {sub' : Read Value} (h : Same data sub sub') :
    Same data (entry data sub) (PyWire.entry sub') :=
  string.bind fun _ => h.bind fun _ => .pure _

/-- It builds the same tensors. -/
theorem host (a b c : Value) : Same data (host torch a b c) (liftM (hostOf torch a b c)) := by
  rw [Decoding.host]
  cases hostOf torch a b c with
  | ok v => exact Follows.pure v
  | error e => exact Follows.throw e

/-- It reads the same value behind every tag. -/
theorem decTagged {sub : Decoder Value} {sub' : Read Value} (h : Same data sub sub') (t : Bytes) :
    Same data (decTagged torch data sub t) (PyWire.decTagged torch sub' t) := by
  unfold Decoding.decTagged PyWire.decTagged
  refine .ite (.pure _) <| .ite (.pure _) <| .ite (.pure _) <| .ite ?int <| .ite ?float <| .ite ?str <|
    .ite ?bytes <| .ite ?list <| .ite ?ref <| .ite ?node <| .ite ?dev <| .ite ?host <| .ite ?dtype <| .ite ?layout <|
    .ite ?format <| .ite ?dict (.throw _)
  case int => exact (unpack 8).bind fun n => .pure _
  case float => exact (unpack 8).bind fun n => .pure _
  case str => exact string.bind fun s => .pure _
  case bytes => exact (unpack 8).bind fun n => (take n).bind fun b => .pure _
  case list => exact (unpack 4).bind fun n => .ite (.throw _) ((h.times n).bind fun xs => .pure _)
  case ref => exact (unpack 8).bind fun n => .pure _
  case node => exact (unpack 4).bind fun n => .pure _
  case dev => exact string.bind fun s => .pure _
  case host => exact h.bind fun a => h.bind fun b => h.bind fun c => host a b c
  case dtype => exact string.bind fun s => (lookup _ s _).bind fun name => .pure _
  case layout => exact string.bind fun s => (lookup _ s _).bind fun name => .pure _
  case format => exact string.bind fun s => (lookup _ s _).bind fun name => .pure _
  case dict => exact (unpack 4).bind fun n => .ite (.throw _) (((entry h).times n).bind fun ps => .pure _)

/-- At each depth it is the decoder of the levels that are left. -/
theorem dec (levels : ℕ) : ∀ depth, maxDepth + 1 - depth = levels →
    Same data (dec torch data depth) (PyWire.dec torch levels) := by
  induction levels with
  | zero =>
      intro depth hlevels
      rw [Decoding.dec, if_pos (by omega)]
      exact Follows.note (fun _ _ h => h) (.throw _)
  | succ levels ih =>
      intro depth hlevels
      rw [Decoding.dec, if_neg (by omega)]
      refine Follows.note (fun _ _ h => h) ((take 1).bind fun t => Follows.note (fun _ _ h => h) ?_)
      exact decTagged (ih (depth + 1) (by omega)) t

end Same

/-- **Without the meter it is the decoder of the round trips**: what it returns or raises is the same. -/
theorem decode_follows (torch : Torch) (data : Bytes) :
    ((decode torch data).exec {}).1 = (PyWire.decode torch data).mapError .valueError := by
  have hsame : Same data (dec torch data 0) (PyWire.dec torch (maxDepth + 1)) := Same.dec (maxDepth + 1) 0 rfl
  have hdec := hsame {} data ⟨Nat.zero_le _, rfl⟩
  rw [PyWire.decode, decode]
  split at hdec
  · rename_i v rest hread
    obtain ⟨m, hexec, hpos, hrest⟩ := hdec
    have hlength : rest.length = data.length - m.pos := by rw [hrest, List.length_drop]
    rw [hread, Metered.exec_bind_ok hexec, Metered.exec_bind_ok (Metered.exec_get m)]
    -- nothing is left to read exactly if the position is the end
    cases rest with
    | nil =>
        rw [if_neg (not_not.mpr (by rw [List.length_nil] at hlength; omega))]
        rfl
    | cons b rest =>
        rw [if_pos (by rw [List.length_cons] at hlength; omega)]
        rfl
  · rename_i e hread
    obtain ⟨m, hexec⟩ := hdec
    rw [hread, Metered.exec_bind_error hexec]
    rfl

end Rgpu.PyWire.Decoding
