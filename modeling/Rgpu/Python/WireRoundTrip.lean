import Rgpu.Python.Wire

/-! # What survives the Python wire format

The encoder raises what stands at the first of the parts that stops it. If none does, the decoder takes the
bytes for the canonical form exactly if it takes every part as it was meant.

* **`raised_enc`** — what the encoder raises.
* **`reads_value`** — what the decoder makes of what was encoded.
* **`survives_iff`** — when a value is refused with an `EncodeError` or survives. -/

namespace Rgpu.PyWire

open Foundations

/-! ### What the encoder raises -/

/-- What was raised. -/
def raised {α : Type} : Except EncodeFailure α → Option EncodeFailure
  | .error e => some e
  | .ok _ => none

/-- What succeeds raises nothing. -/
@[simp] theorem raised_ok {α : Type} (a : α) : raised (.ok a) = none := rfl

/-- A value raises nothing. -/
@[simp] theorem raised_pure {α : Type} (a : α) : raised (pure a) = none := rfl

/-- What fails raises its error. -/
@[simp] theorem raised_error {α : Type} (e : EncodeFailure) : raised (.error e : Except _ α) = some e := rfl

/-- Of two steps the first that raises. -/
theorem raised_bind {α β : Type} {x : Except EncodeFailure α} {f : α → Except EncodeFailure β}
    {r : Option EncodeFailure} (hf : ∀ a, raised (f a) = r) : raised (x >>= f) = (raised x).or r := by
  cases x with
  | error e => rfl
  | ok a => exact hf a

/-- After a step that succeeds comes the next. -/
theorem bind_of_ok {α β : Type} {x : Except EncodeFailure α} {f : α → Except EncodeFailure β} {a : α}
    (h : x = .ok a) : (x >>= f) = f a := by
  rw [h]
  rfl

/-- Two encodings, one after the other. -/
theorem ok_of_bind {α β : Type} {x : Except EncodeFailure α} {f : α → Except EncodeFailure β} {b : β}
    (h : (x >>= f) = .ok b) : ∃ a, x = .ok a ∧ f a = .ok b := by
  cases x with
  | error e => cases h
  | ok a => exact ⟨a, rfl, h⟩

/-- A number is packed or is too large. -/
theorem raised_packUnsigned (w : ℕ) (n : ℤ) : raised (packUnsigned w n) = stopUnsigned w n := by
  rw [packUnsigned, stopUnsigned]
  split <;> rfl

/-- A number that is packed first raises if it is too large. -/
theorem raised_packed {α : Type} (w : ℕ) (n : ℤ) (f : Bytes → α) :
    raised (do let b ← packUnsigned w n; pure (f b)) = stopUnsigned w n := by
  rw [raised_bind fun _ => raised_pure _, raised_packUnsigned, Option.or_none]

/-- A string is put or has no encoding. -/
theorem raised_putStr (t : Bytes) (s : PyStr) : raised (putStr t s) = stopStr s := by
  rw [putStr, stopStr]
  split
  · rfl
  · exact raised_packed _ _ _

/-- A list has a header or is too long. -/
theorem raised_listHeader (count : ℕ) : raised (listHeader count) = stopUnsigned 4 count :=
  raised_packed _ _ _

/-- An integer raises what its part does. -/
theorem raised_encInt (i : ℤ) : raised (encInt i) = stopValue (.int i) := by
  rw [encInt, stopValue]
  split <;> rfl

/-- The search for what stops, part by part. -/
theorem findSome_stop_cons (p : Part) (ps : List Part) :
    (p :: ps).findSome? Part.stop = p.stop.or (ps.findSome? Part.stop) := by
  rw [List.findSome?_cons]
  cases p.stop <;> rfl

/-- At a value, first the depth counts, then the value itself, and then what is in it. -/
theorem raised_atDepth {d : ℕ} {e : Except EncodeFailure Bytes} {v : Value} {ps : List Part}
    (h : raised e = (stopValue v).or (ps.findSome? Part.stop)) :
    raised (atDepth d e) = (Part.value d v :: ps).findSome? Part.stop := by
  rw [findSome_stop_cons, atDepth, Part.stop]
  split
  · rfl
  · exact h

/-- The same for a value with nothing in it. -/
theorem raised_leaf {d : ℕ} {e : Except EncodeFailure Bytes} {v : Value} (h : raised e = stopValue v) :
    raised (atDepth d e) = [Part.value d v].findSome? Part.stop :=
  raised_atDepth (h.trans (Option.or_none).symm)

/-- Integers raise what the first of their parts does that does. -/
theorem raised_encInts (d : ℕ) (is : List ℤ) :
    raised (encInts d is) = (is.map fun i => Part.value d (.int i)).findSome? Part.stop := by
  induction is with
  | nil => rfl
  | cons i is ih =>
      have hrest : ∀ a : Bytes, raised (do let b ← encInts d is; pure (a ++ b))
          = (is.map fun i => Part.value d (.int i)).findSome? Part.stop := by
        intro a
        rw [raised_bind fun _ => raised_pure _, ih, Option.or_none]
      have hfirst : raised (atDepth d (encInt i)) = [Part.value d (.int i)].findSome? Part.stop :=
        raised_leaf (raised_encInt i)
      rw [encInts, raised_bind hrest, hfirst, List.map_cons, ← List.findSome?_append]
      rfl

/-- The header and what follows it. -/
theorem raised_listHeader_bind {n : ℕ} {e : Except EncodeFailure Bytes} :
    raised (do let h ← listHeader n; let b ← e; pure (h ++ b)) = (stopUnsigned 4 n).or (raised e) := by
  have hrest : ∀ h : Bytes, raised (do let b ← e; pure (h ++ b)) = raised e := by
    intro h
    rw [raised_bind fun _ => raised_pure _, Option.or_none]
  rw [raised_bind hrest, raised_listHeader]

/-- A shape raises what the first of its parts does that does. -/
theorem raised_encShape (d : ℕ) (shape : List ℤ) :
    raised (encShape d shape) = (Part.value d (.list (shape.map .int))
      :: shape.map fun i => Part.value (d + 1) (.int i)).findSome? Part.stop := by
  apply raised_atDepth
  rw [raised_listHeader_bind, raised_encInts, stopValue, List.length_map]

namespace Value

mutual

/-- The encoder raises what stands at the first part that stops it. -/
theorem raised_enc (d : ℕ) : ∀ v : Value, raised (enc d v) = (v.parts d).findSome? Part.stop
  | none => raised_leaf rfl
  | bool true => raised_leaf rfl
  | bool false => raised_leaf rfl
  | int i => raised_leaf (raised_encInt i)
  | float bits => raised_leaf rfl
  | str s => raised_leaf (raised_putStr _ s)
  | bytesLike Option.none content => raised_leaf rfl
  | bytesLike (some len) content => raised_leaf (raised_packed _ _ _)
  | list xs => by
      rw [enc, parts]
      apply raised_atDepth
      rw [raised_listHeader_bind, raised_encs (d + 1) xs, stopValue]
  | tuple xs => by
      rw [enc, parts]
      apply raised_atDepth
      rw [raised_listHeader_bind, raised_encs (d + 1) xs, stopValue]
  | ref id => raised_leaf (raised_packed _ _ _)
  | nodeRef index => raised_leaf (raised_packed _ _ _)
  | dev name => raised_leaf (raised_putStr _ name)
  | host dt shape data => by
      -- from the last part to the first: each is searched if nothing before it has raised
      have hdata : ∀ a b : Bytes, raised (do let c ← enc (d + 1) data; pure (tag 'H' ++ (a ++ (b ++ c))))
          = (data.parts (d + 1)).findSome? Part.stop := by
        intro a b
        rw [raised_bind fun _ => raised_pure _, raised_enc (d + 1) data, Option.or_none]
      have hshape : ∀ a : Bytes, raised (do
          let b ← encShape (d + 1) shape
          let c ← enc (d + 1) data
          pure (tag 'H' ++ (a ++ (b ++ c)))) = _ := fun a => raised_bind (hdata a)
      rw [enc, parts]
      apply raised_atDepth
      rw [raised_bind hshape, raised_enc (d + 1) dt, raised_encShape, ← List.findSome?_append,
        ← List.findSome?_append]
      rfl
  | dtype name => raised_leaf (raised_putStr _ name)
  | layout name => raised_leaf (raised_putStr _ name)
  | memoryFormat name => raised_leaf (raised_putStr _ name)
  | dict es => by
      have hrest : ∀ n : Bytes, raised (do let b ← encEntries (d + 1) es; pure (tag 'K' ++ n ++ b))
          = (partsOfEntries (d + 1) es).findSome? Part.stop := by
        intro n
        rw [raised_bind fun _ => raised_pure _, raised_encEntries (d + 1) es, Option.or_none]
      rw [enc, parts]
      apply raised_atDepth
      rw [stopValue]
      split
      · rw [raised_bind hrest, raised_packUnsigned]
      · rfl
  | other typeName => raised_leaf rfl

/-- Values raise what the first of their parts does that does. -/
theorem raised_encs (d : ℕ) : ∀ xs : List Value, raised (encs d xs) = (partsOf d xs).findSome? Part.stop
  | [] => rfl
  | x :: xs => by
      have hrest : ∀ a : Bytes, raised (do let b ← encs d xs; pure (a ++ b))
          = (partsOf d xs).findSome? Part.stop := by
        intro a
        rw [raised_bind fun _ => raised_pure _, raised_encs d xs, Option.or_none]
      rw [encs, partsOf, raised_bind hrest, raised_enc d x, List.findSome?_append]

/-- Entries raise what the first of their parts does that does. -/
theorem raised_encEntries (d : ℕ) :
    ∀ es : List (DictKey × Value), raised (encEntries d es) = (partsOfEntries d es).findSome? Part.stop
  | [] => rfl
  | (.other which, _) :: es => by
      rw [encEntries, partsOfEntries, findSome_stop_cons]
      rfl
  | (.str k, v) :: es => by
      have hrest : ∀ a b : Bytes, raised (do let c ← encEntries d es; pure (a ++ (b ++ c)))
          = (partsOfEntries d es).findSome? Part.stop := by
        intro a b
        rw [raised_bind fun _ => raised_pure _, raised_encEntries d es, Option.or_none]
      have hvalue : ∀ a : Bytes, raised (do
          let b ← enc d v
          let c ← encEntries d es
          pure (a ++ (b ++ c))) = _ := fun a => raised_bind (hrest a)
      rw [encEntries, partsOfEntries, findSome_stop_cons, raised_bind hvalue, raised_putStr, raised_enc d v,
        List.findSome?_append]
      rfl

end

end Value

/-! ### What the decoder makes of it -/

/-- What was put is taken. -/
theorem take_append (b rest : Bytes) : take b.length (b ++ rest) = .ok (b, rest) := by
  have hlen : ¬ (b ++ rest).length < b.length := by
    rw [List.length_append]
    omega
  rw [take, if_neg hlen, List.take_left, List.drop_left]

/-- A packed number is read back. -/
theorem unpack_packed {w : ℕ} {n : ℤ} {b : Bytes} (h : packUnsigned w n = .ok b) (rest : Bytes) :
    unpack w (b ++ rest) = .ok (n.toNat, rest) := by
  rw [packUnsigned] at h
  split at h
  · rename_i hn
    cases h
    have htake := take_append (LittleEndian.bytes w n.toNat) rest
    rw [LittleEndian.length_bytes] at htake
    have hlt : n.toNat < 256 ^ w := by
      have hcast : ((256 ^ w : ℕ) : ℤ) = 256 ^ w := by push_cast; rfl
      omega
    rw [unpack, Reader.bind_ok htake, LittleEndian.value_bytes hlt]
    rfl
  · cases h

/-- A number that was packed is not negative. -/
theorem packed_nonneg {w : ℕ} {n : ℤ} {b : Bytes} (h : packUnsigned w n = .ok b) : 0 ≤ n := by
  rw [packUnsigned] at h
  split at h
  · rename_i hn
    exact hn.1
  · cases h

/-- What comes after a packed number. -/
theorem reads_packed {α : Type} {w : ℕ} {n : ℤ} {b body : Bytes} {good : Prop} {k : ℕ → Read α} {a : α}
    (h : packUnsigned w n = .ok b) (hk : Reads (k n.toNat) body good a) :
    Reads (do let n ← unpack w; k n) (b ++ body) good a :=
  Reads.after (unpack_packed h) hk

/-- A size is read, and then what follows it. -/
theorem reads_size {α : Type} {w n : ℕ} {b body : Bytes} {good : Prop} {k : ℕ → Read α} {a : α}
    (h : packUnsigned w (n : ℤ) = .ok b) (hk : Reads (k n) body good a) :
    Reads (do let n ← unpack w; k n) (b ++ body) good a := by
  apply reads_packed h
  rwa [Int.toNat_natCast]

/-- A size that is looked at. -/
theorem reads_limited {α : Type} {n limit : ℕ} {e : DecodeFailure} {body : Bytes} {good : Prop} {r : Read α}
    {a : α} (h : Reads r body good a) :
    Reads (if n > limit then throw e else r) body (n ≤ limit ∧ good) a := by
  by_cases hn : n > limit
  · rw [if_pos hn]
    exact Reads.refused (fun hg => absurd hg.1 (by omega)) fun _ => rfl
  · rw [if_neg hn]
    exact h.congr (by simp only [Nat.not_lt.mp hn, true_and])

/-- The bytes of a text. -/
theorem reads_encoded {s : PyStr} {text : Bytes} (henc : s.encode = some text) : Reads (do
    let b ← take text.length
    match PyStr.decode b with
    | some s => pure s
    | none => throw .unicodeDecodeError) text True s := by
  apply Reads.always
  intro rest
  rw [Reader.bind_ok (take_append text rest), PyStr.decode_encode henc]
  rfl

/-- A text that could be encoded. -/
theorem reads_string {t b : Bytes} {s : PyStr} (h : putStr t s = .ok b) :
    ∃ body, b = t ++ body ∧ Reads string body (shortStr s = true) s := by
  rw [putStr] at h
  split at h
  · cases h
  · rename_i text henc
    obtain ⟨n, hn, h⟩ := ok_of_bind h
    cases h
    refine ⟨n ++ text, List.append_assoc _ _ _, ?_⟩
    have hgood : text.length ≤ maxStr ∧ True ↔ shortStr s = true := by
      rw [shortStr, henc, and_true, decide_eq_true_iff]
    exact (reads_size hn (reads_limited (reads_encoded henc))).congr hgood

/-- The header of a list is its tag and its count. -/
theorem of_listHeader {n : ℕ} {hb : Bytes} (h : listHeader n = .ok hb) :
    ∃ nb, packUnsigned 4 (n : ℤ) = .ok nb ∧ hb = tag 'L' ++ nb := by
  obtain ⟨nb, hn, h⟩ := ok_of_bind h
  cases h
  exact ⟨nb, hn, rfl⟩

/-- The levels that are left at a depth. -/
def levels (d : ℕ) : ℕ := maxDepth + 1 - d

variable {torch : Torch} {d : ℕ}

/-- A value that was encoded is not too deep. -/
theorem of_atDepth {e : Except EncodeFailure Bytes} {b : Bytes} (h : atDepth d e = .ok b) :
    d ≤ maxDepth ∧ e = .ok b := by
  rw [atDepth] at h
  split at h
  · cases h
  · rename_i hd
    exact ⟨Nat.not_lt.mp hd, h⟩

/-- Past the tag. -/
theorem reads_tagged {c : Char} {body : Bytes} {good : Prop} {v : Value} (hd : d ≤ maxDepth)
    (h : Reads (decTagged torch (dec torch (levels (d + 1))) (tag c)) body good v) :
    Reads (dec torch (levels d)) (tag c ++ body) good v := by
  have hlevels : levels d = levels (d + 1) + 1 := by
    rw [levels, levels]
    omega
  rw [hlevels]
  exact Reads.after (take_append (tag c)) h

/-- A value that has nothing in it. -/
theorem reads_leaf {e : Except EncodeFailure Bytes} {b : Bytes} {v v' : Value} (h : atDepth d e = .ok b)
    (hread : e = .ok b → d ≤ maxDepth →
      Reads (dec torch (levels d)) b ((Part.value d v).taken torch = true) v') :
    Reads (dec torch (levels d)) b (∀ p ∈ [Part.value d v], p.taken torch = true) v' := by
  obtain ⟨hd, he⟩ := of_atDepth h
  exact (hread he hd).congr (by simp only [List.mem_singleton, forall_eq])

/-- A tag with nothing behind it. -/
theorem reads_tag {c : Char} {b : Bytes} {v : Value}
    (htag : decTagged torch (dec torch (levels (d + 1))) (tag c) = pure v) (h : .ok (tag c) = Except.ok (ε := EncodeFailure) b)
    (hd : d ≤ maxDepth) : Reads (dec torch (levels d)) b (true = true) v := by
  cases h
  have hread : Reads (decTagged torch (dec torch (levels (d + 1))) (tag c)) [] True v := by
    rw [htag]
    exact Reads.pure v
  exact (reads_tagged hd hread).congr (by simp only)

/-- A number behind a tag. -/
theorem reads_number {c : Char} {w : ℕ} {n : ℤ} {b : Bytes} {g : ℕ → Value}
    (htag : decTagged torch (dec torch (levels (d + 1))) (tag c) = do let n ← unpack w; pure (g n))
    (h : (do let n ← packUnsigned w n; pure (tag c ++ n)) = .ok b) (hd : d ≤ maxDepth) :
    Reads (dec torch (levels d)) b (true = true) (g n.toNat) := by
  obtain ⟨nb, hn, h⟩ := ok_of_bind h
  cases h
  have hread : Reads (decTagged torch (dec torch (levels (d + 1))) (tag c)) (nb ++ []) True (g n.toNat) := by
    rw [htag]
    exact reads_packed hn (Reads.pure _)
  rw [List.append_nil] at hread
  exact (reads_tagged hd hread).congr (by simp only)

/-- A text behind a tag. -/
theorem reads_text {c : Char} {s : PyStr} {b : Bytes} {g : PyStr → Value} (hg : ∀ s s', g s = g s' → s = s')
    (htag : decTagged torch (dec torch (levels (d + 1))) (tag c) = do let s ← string; pure (g s))
    (h : putStr (tag c) s = .ok b) (hd : d ≤ maxDepth) :
    Reads (dec torch (levels d)) b (shortStr s = true) (g s) := by
  obtain ⟨body, rfl, hread⟩ := reads_string h
  apply reads_tagged hd
  rw [htag]
  exact hread.map fun w hw heq => hw (hg w s heq)

/-- A name behind a tag, that is looked up. -/
theorem reads_name {c : Char} {name : PyStr} {b : Bytes} {table : List PyStr} {what : String}
    {g : PyStr → Value} (hg : ∀ s s', g s = g s' → s = s')
    (htag : decTagged torch (dec torch (levels (d + 1))) (tag c) = do
      let s ← string
      let name ← lookup table s what
      pure (g name))
    (h : putStr (tag c) name = .ok b) (hd : d ≤ maxDepth) :
    Reads (dec torch (levels d)) b ((shortStr name && decide (name ∈ table)) = true) (g name) := by
  obtain ⟨body, rfl, hread⟩ := reads_string h
  apply reads_tagged hd
  have hlookup : Reads (lookup table name what) [] (name ∈ table) name := by
    by_cases hname : name ∈ table
    · have hpure : lookup table name what = pure name := if_pos hname
      rw [hpure]
      exact (Reads.pure name).congr (by simp only [hname])
    · have hthrow : lookup table name what = throw (.notA name what) := if_neg hname
      rw [hthrow]
      exact Reads.refused hname fun _ => rfl
  have hshows : ∀ w, w ≠ name → ∀ s z s',
      (do let name ← lookup table w what; pure (g name) : Read Value) s = .ok (z, s') → z ≠ g name := by
    intro w hw s z s' hz heq
    obtain ⟨u, t, hu, hlast⟩ := Reader.of_bind hz
    cases hlast
    rw [lookup] at hu
    split at hu
    · cases hu
      exact hw (hg _ _ heq)
    · cases hu
  have hboth := hread.bind (fun _ => hlookup.map fun w hw heq => hw (hg w name heq)) hshows
  rw [htag]
  rw [List.append_nil] at hboth
  exact hboth.congr (by rw [Bool.and_eq_true, decide_eq_true_iff])

/-- Two's complement comes back. -/
theorem signed_emod {i : ℤ} (hlow : -2 ^ 63 ≤ i) (hhigh : i < 2 ^ 63) : signed (i % 2 ^ 64).toNat = i := by
  rw [signed]
  split <;> omega

/-- An integer is read back. -/
theorem reads_int {i : ℤ} {b : Bytes} (h : encInt i = .ok b) (hd : d ≤ maxDepth) :
    Reads (dec torch (levels d)) b (true = true) (.int i) := by
  rw [encInt] at h
  split at h
  · rename_i hi
    cases h
    have hpack : packUnsigned 8 (i % 2 ^ 64) = .ok (LittleEndian.bytes 8 (i % 2 ^ 64).toNat) := by
      apply if_pos
      omega
    have hread : Reads (dec torch (levels d)) (tag 'I' ++ LittleEndian.bytes 8 (i % 2 ^ 64).toNat) (true = true)
        (.int (signed (i % 2 ^ 64).toNat)) :=
      reads_number (w := 8) (n := i % 2 ^ 64) (g := fun n => .int (signed n)) rfl (by rw [hpack]; rfl) hd
    rwa [signed_emod hi.1 hi.2] at hread
  · cases h

/-- A float is read back, bit by bit. -/
theorem reads_float {bits : UInt64} {b : Bytes}
    (h : .ok (tag 'D' ++ LittleEndian.bytes 8 bits.toNat) = Except.ok (ε := EncodeFailure) b) (hd : d ≤ maxDepth) :
    Reads (dec torch (levels d)) b (true = true) (.float bits) := by
  cases h
  have hbits := bits.toNat_lt
  have hpack : packUnsigned 8 (bits.toNat : ℤ) = .ok (LittleEndian.bytes 8 bits.toNat) := by
    apply if_pos
    omega
  have hread : Reads (dec torch (levels d)) (tag 'D' ++ LittleEndian.bytes 8 bits.toNat) (true = true)
      (.float (.ofNat (bits.toNat : ℤ).toNat)) :=
    reads_number (w := 8) (n := bits.toNat) (g := fun n => .float (.ofNat n)) rfl (by rw [hpack]; rfl) hd
  rwa [Int.toNat_natCast, UInt64.ofNat_toNat] at hread

/-- What is like bytes is taken as far as `len()` says. -/
theorem reads_bytes {len : ℕ} {content b : Bytes}
    (h : (do let n ← packUnsigned 8 len; pure (tag 'B' ++ n ++ content)) = .ok b) (hd : d ≤ maxDepth) :
    Reads (dec torch (levels d)) b (decide (some len = some content.length) = true)
      (.bytesLike (some content.length) content) := by
  obtain ⟨nb, hn, h⟩ := ok_of_bind h
  cases h
  have hcontent : Reads (do let b ← take len; pure (.bytesLike (some b.length) b)) content
      (decide (some len = some content.length) = true) (Value.bytesLike (some content.length) content) := by
    constructor
    · intro hlen rest
      cases Option.some.inj (of_decide_eq_true hlen)
      rw [Reader.bind_ok (take_append content rest)]
      rfl
    · intro hlen rest w rest' hread heq
      obtain ⟨bs, t, htake, hlast⟩ := Reader.of_bind hread
      cases hlast
      injection heq with _ hbs
      subst hbs
      -- What was taken is as long as `len()` said.
      apply hlen
      rw [take] at htake
      split at htake
      · cases htake
      · rename_i hlong
        have hfront : List.take len (bs ++ rest) = bs := congrArg Prod.fst (Except.ok.inj htake)
        have hsize : len = bs.length := by
          have hfront := congrArg List.length hfront
          rw [List.length_take] at hfront
          omega
        rw [hsize, decide_eq_true_iff]
  rw [List.append_assoc]
  exact reads_tagged hd (reads_size hn hcontent)

/-! ### Lists -/

/-- What is behind the header of a list. -/
theorem reads_list {n : ℕ} {e : Except EncodeFailure Bytes} {b : Bytes} {good : Prop} {xs : List Value}
    (h : (do let h ← listHeader n; let b ← e; pure (h ++ b)) = .ok b) (hd : d ≤ maxDepth)
    (hread : ∀ body, e = .ok body → Reads ((dec torch (levels (d + 1))).times n) body good xs) :
    Reads (dec torch (levels d)) b (n ≤ maxItems ∧ good) (.list xs) := by
  obtain ⟨hb, hheader, h⟩ := ok_of_bind h
  obtain ⟨body, he, h⟩ := ok_of_bind h
  obtain ⟨nb, hn, rfl⟩ := of_listHeader hheader
  cases h
  have hitems := (hread body he).map (g := Value.list) fun w hw heq => hw (Value.list.inj heq)
  have hlimited : Reads (if n > maxItems then throw (.decodeError "list too long") else do
      let xs ← (dec torch (levels (d + 1))).times n
      pure (Value.list xs)) body (n ≤ maxItems ∧ good) (Value.list xs) := reads_limited hitems
  rw [List.append_assoc]
  exact reads_tagged hd (reads_size hn hlimited)

/-- The numbers of a shape. -/
theorem reads_ints (is : List ℤ) {b : Bytes} (h : encInts d is = .ok b) :
    Reads ((dec torch (levels d)).times is.length) b True (is.map .int) := by
  induction is generalizing b with
  | nil =>
      cases h
      exact Reads.pure []
  | cons i is ih =>
      obtain ⟨a, hi, h⟩ := ok_of_bind h
      obtain ⟨c, hrest, h⟩ := ok_of_bind h
      cases h
      obtain ⟨hd, he⟩ := of_atDepth hi
      have hfirst : Reads (dec torch (levels d)) a (true = true) (.int i) := reads_int he hd
      have hboth := hfirst.map₂ (ih hrest) (g := List.cons) fun _ _ _ _ heq => List.cons.inj heq
      exact hboth.congr (by simp only [and_true])

/-- A shape that is not too long is read back. -/
theorem reads_shape {shape : List ℤ} {b : Bytes} (h : encShape d shape = .ok b) :
    Reads (dec torch (levels d)) b (shape.length ≤ maxItems) (.list (shape.map .int)) := by
  obtain ⟨hd, he⟩ := of_atDepth h
  exact (reads_list he hd fun body hbody => reads_ints shape hbody).congr (by rw [and_true])

/-! ### Dictionaries -/

/-- A new key goes to the end. -/
theorem dictSet_new {es : List (DictKey × Value)} {k : DictKey} (v : Value) (h : k ∉ es.map Prod.fst) :
    dictSet es k v = es ++ [(k, v)] := by
  induction es with
  | nil => rfl
  | cons e es ih =>
      have hhead : e.1 ≠ k := fun heq => h (heq ▸ List.mem_cons_self)
      have htail : k ∉ es.map Prod.fst := fun hmem => h (List.mem_cons_of_mem _ hmem)
      rw [dictSet, if_neg hhead, ih htail]
      rfl

/-- A key is new or the length stays. -/
theorem length_dictSet (es : List (DictKey × Value)) (k : DictKey) (v : Value) :
    dictSet es k v = es ++ [(k, v)] ∨ (dictSet es k v).length = es.length := by
  induction es with
  | nil => exact .inl rfl
  | cons e es ih =>
      rw [dictSet]
      split
      · exact .inr rfl
      · rcases ih with ih | ih
        · exact .inl (by rw [ih]; rfl)
        · exact .inr (by rw [List.length_cons, ih, List.length_cons])

/-- Entries with distinct keys are the `dict` that they make. -/
theorem dictOf_of_nodup {ps : List (DictKey × Value)} (h : (ps.map Prod.fst).Nodup) : dictOf ps = ps := by
  -- Over what has been set so far, which the remaining keys are not in.
  suffices hfrom : ∀ acc : List (DictKey × Value), ((acc ++ ps).map Prod.fst).Nodup →
      ps.foldl (fun es p => dictSet es p.1 p.2) acc = acc ++ ps from hfrom [] h
  clear h
  induction ps with
  | nil =>
      intro acc _
      exact (List.append_nil acc).symm
  | cons p ps ih =>
      intro acc h
      have hnew : p.1 ∉ acc.map Prod.fst := by
        intro hmem
        rw [List.map_append, List.nodup_append] at h
        exact h.2.2 _ hmem _ List.mem_cons_self rfl
      have hsplit : acc ++ p :: ps = (acc ++ [p]) ++ ps := (List.append_cons acc p ps)
      rw [List.foldl_cons, dictSet_new p.2 hnew, ih (acc ++ [p]) (hsplit ▸ h), hsplit]

/-- A `dict` of as many entries as it was made from is these entries. -/
theorem dictOf_of_length {ps : List (DictKey × Value)} (h : (dictOf ps).length = ps.length) : dictOf ps = ps := by
  -- A key that is set again leaves the `dict` shorter than what it was made from, whatever follows.
  suffices hfrom : ∀ acc : List (DictKey × Value),
      (ps.foldl (fun es p => dictSet es p.1 p.2) acc).length ≤ acc.length + ps.length ∧
      ((ps.foldl (fun es p => dictSet es p.1 p.2) acc).length = acc.length + ps.length →
        ps.foldl (fun es p => dictSet es p.1 p.2) acc = acc ++ ps) by
    exact (hfrom []).2 (h.trans (Nat.zero_add _).symm)
  clear h
  induction ps with
  | nil =>
      intro acc
      exact ⟨Nat.le_refl _, fun _ => (List.append_nil acc).symm⟩
  | cons p ps ih =>
      intro acc
      rw [List.foldl_cons, List.length_cons]
      obtain ⟨hle, heq⟩ := ih (dictSet acc p.1 p.2)
      rcases length_dictSet acc p.1 p.2 with hset | hset
      · rw [hset, List.length_append] at hle heq
        rw [hset]
        refine ⟨by simpa only [List.length_singleton, Nat.add_assoc, Nat.add_comm 1] using hle, ?_⟩
        intro hlen
        rw [heq (by rw [hlen, List.length_singleton]; omega), List.append_assoc]
        rfl
      · constructor
        · omega
        · intro hlen
          omega

/-- What is behind the header of a `dict`. -/
theorem reads_dict {e : Except EncodeFailure Bytes} {b : Bytes} {good : Prop} {n : ℕ}
    {ps : List (DictKey × Value)} (h : (do let h ← packUnsigned 4 n; let b ← e; pure (tag 'K' ++ h ++ b)) = .ok b)
    (hd : d ≤ maxDepth) (hlen : ps.length = n) (hkeys : (ps.map Prod.fst).Nodup)
    (hread : ∀ body, e = .ok body → Reads ((entry (dec torch (levels (d + 1)))).times n) body good ps) :
    Reads (dec torch (levels d)) b (n ≤ maxItems ∧ good) (.dict ps) := by
  obtain ⟨nb, hn, h⟩ := ok_of_bind h
  obtain ⟨body, he, h⟩ := ok_of_bind h
  cases h
  -- Other entries make another `dict`: it would have to be as long, and then it is the entries.
  have hshows : ∀ s w s', (entry (dec torch (levels (d + 1)))).times n s = .ok (w, s') → w ≠ ps →
      Value.dict (dictOf w) ≠ Value.dict (dictOf ps) := by
    intro s w s' hw hne heq
    have hdict : dictOf w = ps := (Value.dict.inj heq).trans (dictOf_of_nodup hkeys)
    have hwlen : w.length = n := Reader.length_times hw
    have hsame : dictOf w = w := dictOf_of_length (by rw [hdict, hlen, hwlen])
    exact hne (hsame.symm.trans hdict)
  have hitems := (hread body he).mapOn hshows
  rw [dictOf_of_nodup hkeys] at hitems
  have hlimited : Reads (if n > maxItems then throw (.decodeError "dict too large") else do
      let ps ← (entry (dec torch (levels (d + 1)))).times n
      pure (Value.dict (dictOf ps))) body (n ≤ maxItems ∧ good) (Value.dict ps) := reads_limited hitems
  rw [List.append_assoc]
  exact reads_tagged hd (reads_size hn hlimited)

/-! ### Host tensors -/

/-- A host tensor is made of what was decoded for it. -/
theorem hostOf_ok {a b c v : Value} (h : hostOf torch a b c = .ok v) :
    ∃ xs shape, b = .list xs ∧ dims? xs = some shape ∧ v = .host a shape c := by
  rw [hostOf.eq_def] at h
  split at h
  · rename_i name xs len content
    split at h
    · cases h
    · rename_i shape hdims
      split at h
      · cases h
        exact ⟨xs, shape, rfl, hdims, rfl⟩
      · cases h
  · cases h

/-- The dimensions of a list of integers are the integers. -/
theorem dims_map_int {is shape : List ℤ} (h : dims? (is.map .int) = some shape) : shape = is := by
  induction is generalizing shape with
  | nil =>
      cases h
      rfl
  | cons i is ih =>
      rw [List.map_cons, dims?, dim?] at h
      split at h
      · cases hrest : dims? (is.map .int) with
        | none =>
            rw [hrest] at h
            cases h
        | some rest =>
            rw [hrest] at h
            cases h
            rw [ih hrest]
      · cases h

/-- What follows the dtype of a host tensor. -/
theorem hostOf_bind {a v : Value} {sub : Read Value} {s s' : Bytes}
    (h : (do let b ← sub; let c ← sub; liftM (hostOf torch a b c) : Read Value) s = .ok (v, s')) :
    ∃ shape c, v = .host a shape c := by
  obtain ⟨b, t, -, h⟩ := Reader.of_bind h
  obtain ⟨c, u, -, h⟩ := Reader.of_bind h
  cases hhost : hostOf torch a b c with
  | error e =>
      rw [hhost] at h
      cases h
  | ok w =>
      rw [hhost] at h
      cases h
      obtain ⟨xs, shape, -, -, hv⟩ := hostOf_ok hhost
      exact ⟨shape, c, hv⟩

/-- The bytes of a tensor are built as they were. -/
theorem reads_hostOf {a c : Value} {shape : List ℤ} :
    Reads (liftM (hostOf torch a (.list (shape.map .int)) c) : Read Value) []
      ((hostOf torch a (.list (shape.map .int)) c).toBool = true) (.host a shape c) := by
  cases hhost : hostOf torch a (.list (shape.map .int)) c with
  | error e => exact Reads.refused (by intro h; cases h) fun _ => rfl
  | ok v =>
      obtain ⟨xs, shape', hxs, hdims, rfl⟩ := hostOf_ok hhost
      cases hxs
      cases dims_map_int hdims
      exact (Reads.pure _).congr (by simp only [Except.toBool])

/-- A list that is too long is refused before its elements. -/
theorem list_refused {n : ℕ} {nb : Bytes} (hd : d ≤ maxDepth) (hn : packUnsigned 4 (n : ℤ) = .ok nb)
    (hbig : n > maxItems) (rest : Bytes) :
    dec torch (levels d) (tag 'L' ++ (nb ++ rest)) = .error (.decodeError "list too long") := by
  have hlevels : levels d = levels (d + 1) + 1 := by
    rw [levels, levels]
    omega
  have htag : decTagged torch (dec torch (levels (d + 1))) (tag 'L') = (do
      let n ← unpack 4
      if n > maxItems then throw (.decodeError "list too long")
      else do
        let xs ← (dec torch (levels (d + 1))).times n
        pure (.list xs)) := rfl
  have htake : take 1 (tag 'L' ++ (nb ++ rest)) = .ok (tag 'L', nb ++ rest) := take_append (tag 'L') _
  have hunpack := unpack_packed hn rest
  rw [Int.toNat_natCast] at hunpack
  rw [hlevels, dec, Reader.bind_ok htake, htag, Reader.bind_ok hunpack, if_pos hbig]
  rfl

/-- A shape that is too long is refused. -/
theorem shape_refused {shape : List ℤ} {b : Bytes} (h : encShape d shape = .ok b) (hbig : shape.length > maxItems)
    (rest : Bytes) : dec torch (levels d) (b ++ rest) = .error (.decodeError "list too long") := by
  obtain ⟨hd, he⟩ := of_atDepth h
  obtain ⟨hb, hheader, he⟩ := ok_of_bind he
  obtain ⟨body, hints, he⟩ := ok_of_bind he
  obtain ⟨nb, hn, rfl⟩ := of_listHeader hheader
  cases he
  rw [List.append_assoc, List.append_assoc]
  exact list_refused hd hn hbig (body ++ rest)

/-- A host tensor, of its dtype, its shape and its data. -/
theorem reads_host {a c : Value} {shape : List ℤ} {ab bb cb : Bytes} {ga gc : Prop} (hd : d ≤ maxDepth)
    (ha : Reads (dec torch (levels (d + 1))) ab ga a) (hb : encShape (d + 1) shape = .ok bb)
    (hc : Reads (dec torch (levels (d + 1))) cb gc c) :
    Reads (dec torch (levels d)) (tag 'H' ++ (ab ++ (bb ++ cb)))
      (ga ∧ shape.length ≤ maxItems ∧ gc ∧ (hostOf torch a (.list (shape.map .int)) c).toBool = true)
      (.host a shape c) := by
  have hdata : Reads (do
      let c ← dec torch (levels (d + 1))
      liftM (hostOf torch a (.list (shape.map .int)) c)) (cb ++ [])
      (gc ∧ (hostOf torch a (.list (shape.map .int)) c).toBool = true) (.host a shape c) := by
    apply hc.bind fun _ => reads_hostOf
    intro w hw s z s' hz heq
    cases hhost : hostOf torch a (.list (shape.map .int)) w with
    | error e =>
        rw [hhost] at hz
        cases hz
    | ok v =>
        rw [hhost] at hz
        cases hz
        obtain ⟨xs, shape', -, -, hv⟩ := hostOf_ok hhost
        exact hw (Value.host.inj (hv.symm.trans heq)).2.2
  rw [List.append_nil] at hdata
  -- A shape is read as it is, or refused for its length: no other list of numbers is read in its place.
  have hrest : Reads (do
      let b ← dec torch (levels (d + 1))
      let c ← dec torch (levels (d + 1))
      liftM (hostOf torch a b c)) (bb ++ cb)
      (shape.length ≤ maxItems ∧ gc ∧ (hostOf torch a (.list (shape.map .int)) c).toBool = true)
      (.host a shape c) := by
    by_cases hlen : shape.length ≤ maxItems
    · have hshape : Reads (dec torch (levels (d + 1))) bb (shape.length ≤ maxItems) (.list (shape.map .int)) :=
        reads_shape hb
      exact (Reads.after (hshape.exact hlen) hdata).congr (by simp only [hlen, true_and])
    · apply Reads.refused fun hg => hlen hg.1
      intro rest
      rw [List.append_assoc, Reader.bind_error (shape_refused hb (Nat.not_le.mp hlen) _)]
  apply reads_tagged hd
  apply ha.bind fun _ => hrest
  intro w hw s z s' hz heq
  obtain ⟨shape', c', hz'⟩ := hostOf_bind hz
  exact hw (Value.host.inj (hz'.symm.trans heq)).1

/-! ### Every value -/

namespace Value

/-- The keys of a dict are read back as they are. -/
theorem keys_canonicalEntries (es : List (DictKey × Value)) :
    (canonicalEntries es).map Prod.fst = es.map Prod.fst := by
  induction es with
  | nil => rfl
  | cons e es ih => rw [canonicalEntries, List.map_cons, ih, List.map_cons]

mutual

/-- What was encoded is taken for the canonical form if every part is taken as it was meant, and only then. -/
theorem reads_value (torch : Torch) (d : ℕ) : ∀ (v : Value) (b : Bytes), enc d v = .ok b →
    (∀ p ∈ v.parts d, p.keysDistinct) →
    Reads (dec torch (levels d)) b (∀ p ∈ v.parts d, p.taken torch = true) v.canonical
  | none, _, h, _ => reads_leaf h fun he hd => reads_tag rfl he hd
  | bool true, _, h, _ => reads_leaf h fun he hd => reads_tag rfl he hd
  | bool false, _, h, _ => reads_leaf h fun he hd => reads_tag rfl he hd
  | int _, _, h, _ => reads_leaf h reads_int
  | float _, _, h, _ => reads_leaf h reads_float
  | str _, _, h, _ => reads_leaf h (reads_text (fun _ _ heq => Value.str.inj heq) rfl)
  | bytesLike Option.none _, _, h, _ => by
      obtain ⟨-, he⟩ := of_atDepth h
      cases he
  | bytesLike (some _) _, _, h, _ => reads_leaf h reads_bytes
  | list xs, b, h, hkeys => by
      obtain ⟨hd, he⟩ := of_atDepth h
      rw [parts, List.forall_mem_cons] at hkeys ⊢
      exact (reads_list he hd fun body hbody => reads_values torch (d + 1) xs body hbody hkeys.2).congr
        (by simp only [Part.taken, decide_eq_true_iff])
  | tuple xs, b, h, hkeys => by
      obtain ⟨hd, he⟩ := of_atDepth h
      rw [parts, List.forall_mem_cons] at hkeys ⊢
      exact (reads_list he hd fun body hbody => reads_values torch (d + 1) xs body hbody hkeys.2).congr
        (by simp only [Part.taken, decide_eq_true_iff])
  | ref id, b, h, _ => by
      -- the id is not negative, since it could be packed
      apply reads_leaf h
      intro he hd
      obtain ⟨nb, hn, -⟩ := ok_of_bind he
      have hread : Reads (dec torch (levels d)) b (true = true) (.ref id.toNat) :=
        reads_number (g := fun n => .ref n) rfl he hd
      rwa [Int.toNat_of_nonneg (packed_nonneg hn)] at hread
  | nodeRef index, b, h, _ => by
      apply reads_leaf h
      intro he hd
      obtain ⟨nb, hn, -⟩ := ok_of_bind he
      have hread : Reads (dec torch (levels d)) b (true = true) (.nodeRef index.toNat) :=
        reads_number (g := fun n => .nodeRef n) rfl he hd
      rwa [Int.toNat_of_nonneg (packed_nonneg hn)] at hread
  | dev _, _, h, _ => reads_leaf h (reads_text (fun _ _ heq => Value.dev.inj heq) rfl)
  | host dt shape data, b, h, hkeys => by
      obtain ⟨hd, he⟩ := of_atDepth h
      obtain ⟨ab, hab, he⟩ := ok_of_bind he
      obtain ⟨bb, hbb, he⟩ := ok_of_bind he
      obtain ⟨cb, hcb, he⟩ := ok_of_bind he
      cases he
      rw [parts, List.forall_mem_cons, List.forall_mem_append, List.forall_mem_append] at hkeys ⊢
      have ha := reads_value torch (d + 1) dt ab hab hkeys.2.1
      have hc := reads_value torch (d + 1) data cb hcb hkeys.2.2.2
      refine (reads_host hd ha hbb hc).congr ?_
      simp only [Part.taken, List.mem_cons, List.mem_map, decide_eq_true_iff, List.length_map, forall_eq_or_imp,
        forall_exists_index, and_imp, forall_apply_eq_imp_iff₂, implies_true, and_true]
      tauto
  | dtype _, _, h, _ => reads_leaf h (reads_name (fun _ _ heq => Value.dtype.inj heq) rfl)
  | layout _, _, h, _ => reads_leaf h (reads_name (fun _ _ heq => Value.layout.inj heq) rfl)
  | memoryFormat _, _, h, _ => reads_leaf h (reads_name (fun _ _ heq => Value.memoryFormat.inj heq) rfl)
  | dict es, b, h, hkeys => by
      obtain ⟨hd, he⟩ := of_atDepth h
      rw [parts, List.forall_mem_cons] at hkeys ⊢
      split at he
      · have hdistinct : ((canonicalEntries es).map Prod.fst).Nodup := by
          rw [keys_canonicalEntries]
          exact hkeys.1
        have hlen : (canonicalEntries es).length = es.length := by
          rw [← List.length_map Prod.fst, keys_canonicalEntries, List.length_map]
        exact (reads_dict he hd hlen hdistinct fun body hbody =>
          reads_entries torch (d + 1) es body hbody hkeys.2).congr
          (by simp only [Part.taken, decide_eq_true_iff])
      · cases he
  | other _, _, h, _ => by
      obtain ⟨-, he⟩ := of_atDepth h
      cases he

/-- Values are read back one by one. -/
theorem reads_values (torch : Torch) (d : ℕ) : ∀ (xs : List Value) (b : Bytes), encs d xs = .ok b →
    (∀ p ∈ partsOf d xs, p.keysDistinct) →
    Reads ((dec torch (levels d)).times xs.length) b (∀ p ∈ partsOf d xs, p.taken torch = true) (canonicals xs)
  | [], _, h, _ => by
      cases h
      exact (Reads.pure []).congr (by simp only [partsOf, List.not_mem_nil, false_imp_iff, implies_true])
  | x :: xs, b, h, hkeys => by
      obtain ⟨a, ha, h⟩ := ok_of_bind h
      obtain ⟨c, hc, h⟩ := ok_of_bind h
      cases h
      rw [partsOf, List.forall_mem_append] at hkeys ⊢
      exact (reads_value torch d x a ha hkeys.1).map₂ (reads_values torch d xs c hc hkeys.2)
        fun _ _ _ _ heq => List.cons.inj heq

/-- Entries are read back one by one. -/
theorem reads_entries (torch : Torch) (d : ℕ) : ∀ (es : List (DictKey × Value)) (b : Bytes),
    encEntries d es = .ok b → (∀ p ∈ partsOfEntries d es, p.keysDistinct) →
    Reads ((entry (dec torch (levels d))).times es.length) b (∀ p ∈ partsOfEntries d es, p.taken torch = true)
      (canonicalEntries es)
  | [], _, h, _ => by
      cases h
      exact (Reads.pure []).congr (by simp only [partsOfEntries, List.not_mem_nil, false_imp_iff, implies_true])
  | (.other _, _) :: _, _, h, _ => by cases h
  | (.str k, v) :: es, b, h, hkeys => by
      obtain ⟨a, ha, h⟩ := ok_of_bind h
      obtain ⟨c, hc, h⟩ := ok_of_bind h
      obtain ⟨f, hf, h⟩ := ok_of_bind h
      cases h
      obtain ⟨a, rfl, hkey⟩ := reads_string ha
      rw [partsOfEntries, List.forall_mem_cons, List.forall_mem_append] at hkeys ⊢
      have hentry := hkey.map₂ (reads_value torch d v c hc hkeys.2.1) (g := fun k v => (DictKey.str k, v))
        fun _ _ _ _ heq => ⟨DictKey.str.inj (Prod.mk.inj heq).1, (Prod.mk.inj heq).2⟩
      have hboth := hentry.map₂ (reads_entries torch d es f hf hkeys.2.2) (g := List.cons)
        fun _ _ _ _ heq => List.cons.inj heq
      rw [← List.append_assoc]
      exact hboth.congr (and_assoc)

end

end Value

/-! ### Elements encoded one by one -/

/-- Encoding values is encoding each. -/
theorem encs_eq_mapM (xs : List Value) :
    Value.encs 1 xs = (do let parts ← xs.mapM encodeElement; pure parts.flatten) := by
  induction xs with
  | nil => rfl
  | cons x xs ih =>
      rw [Value.encs, ih, List.mapM_cons, encodeElement]
      cases x.enc 1 with
      | error e => rfl
      | ok a =>
          cases xs.mapM encodeElement with
          | error e => rfl
          | ok parts => rfl

/-- Each element has an encoded part of its own. -/
theorem length_of_mapM {xs : List Value} {parts : List Bytes} (h : xs.mapM encodeElement = .ok parts) :
    parts.length = xs.length := by
  induction xs generalizing parts with
  | nil =>
      cases h
      rfl
  | cons x xs ih =>
      rw [List.mapM_cons] at h
      obtain ⟨a, -, h⟩ := ok_of_bind h
      obtain ⟨as, has, h⟩ := ok_of_bind h
      cases h
      rw [List.length_cons, ih has, List.length_cons]

/-- The parts joined are the encoding of the list. -/
theorem joined_ok_iff (xs : List Value) (b : Bytes) : joined xs = .ok b ↔ encode (.list xs) = .ok b := by
  have henc : encode (.list xs) = (do
      let h ← listHeader xs.length
      let b ← Value.encs 1 xs
      pure (h ++ b)) := rfl
  rw [henc, encs_eq_mapM, joined]
  constructor
  · intro h
    obtain ⟨parts, hparts, h⟩ := ok_of_bind h
    have hbody := bind_of_ok (f := fun parts : List Bytes => pure parts.flatten) hparts
    rw [encodeElements, length_of_mapM hparts] at h
    rw [hbody]
    exact h
  · intro h
    obtain ⟨header, hheader, h⟩ := ok_of_bind h
    obtain ⟨body, hbody, h⟩ := ok_of_bind h
    obtain ⟨parts, hparts, hflat⟩ := ok_of_bind hbody
    cases hflat
    rw [bind_of_ok hparts, encodeElements, length_of_mapM hparts, bind_of_ok hheader]
    exact h

/-! ### The round trip -/

/-- The encoder raises an `EncodeError`, or gives bytes that are decoded as the canonical form. -/
def Survives (torch : Torch) (v : Value) : Prop :=
  (∃ message, encode v = .error (.encodeError message)) ∨
    ∃ b, encode v = .ok b ∧ decode torch b = .ok v.canonical

/-- What is like a list comes out the same if its elements are encoded one by one. -/
def JoinsUp (v : Value) : Prop :=
  ∀ xs, v = .list xs ∨ v = .tuple xs → ∀ b, joined xs = .ok b ↔ encode v = .ok b

/-- **Elements that are encoded one by one join up to the encoded list.** -/
theorem joinsUp (v : Value) : JoinsUp v := by
  intro xs hv b
  rcases hv with rfl | rfl
  · exact joined_ok_iff xs b
  · exact joined_ok_iff xs b

/-- A value raises what the first of its parts does that does. -/
theorem raised_encode (v : Value) : raised (encode v) = (v.parts 0).findSome? Part.stop := v.raised_enc 0

/-- Nothing stops a value that was encoded. -/
theorem stop_of_encode {v : Value} {b : Bytes} (h : encode v = .ok b) :
    (v.parts 0).findSome? Part.stop = none := by
  rw [← raised_encode, h, raised_ok]

/-- A value is encoded if none of its parts stops it. -/
theorem encode_of_stop {v : Value} (h : (v.parts 0).findSome? Part.stop = none) : ∃ b, encode v = .ok b := by
  rw [← raised_encode] at h
  cases henc : encode v with
  | error e =>
      rw [henc] at h
      cases h
  | ok b => exact ⟨b, rfl⟩

/-- Bytes that were accepted for sending are decoded as what was meant, if and only if all parts are taken so. -/
theorem decode_iff {torch : Torch} {v : Value} {b : Bytes} (hkeys : v.KeysDistinct) (h : encode v = .ok b) :
    decode torch b = .ok v.canonical ↔ ∀ p ∈ v.parts 0, p.taken torch = true := by
  have hreads : Reads (dec torch (maxDepth + 1)) b _ v.canonical := v.reads_value torch 0 b h hkeys
  constructor
  · -- what is left of the bytes is nothing, so what was read differs from what was meant
    intro hdec
    by_contra hnot
    rw [decode] at hdec
    split at hdec
    · cases hdec
    · rename_i w hread
      cases hdec
      rw [← List.append_nil b] at hread
      exact hreads.differs hnot [] _ [] hread rfl
    · cases hdec
  · intro htaken
    have hread := hreads.exact htaken []
    rw [List.append_nil] at hread
    rw [decode, hread]

/-- A value survives exactly if the first part that stops the encoder is one that an `EncodeError` is for, or
nothing stops it and the decoder takes every part as it was meant; the elements of a list can always be encoded
one by one. -/
theorem survives_iff (torch : Torch) (v : Value) (hkeys : v.KeysDistinct) :
    Survives torch v ∧ JoinsUp v ↔
      (∃ message, (v.parts 0).findSome? Part.stop = some (.encodeError message)) ∨
        ((v.parts 0).findSome? Part.stop = none ∧ ∀ p ∈ v.parts 0, p.taken torch = true) := by
  constructor
  · rintro ⟨⟨message, herror⟩ | ⟨b, hok, hdec⟩, -⟩
    · left
      refine ⟨message, ?_⟩
      rw [← raised_encode, herror, raised_error]
    · right
      exact ⟨stop_of_encode hok, (decode_iff hkeys hok).mp hdec⟩
  · rintro (⟨message, hstop⟩ | ⟨hstop, htaken⟩)
    · refine ⟨.inl ⟨message, ?_⟩, joinsUp v⟩
      rw [← raised_encode] at hstop
      cases henc : encode v with
      | error e =>
          rw [henc] at hstop
          cases hstop
          rfl
      | ok b =>
          rw [henc] at hstop
          cases hstop
    · obtain ⟨b, hok⟩ := encode_of_stop hstop
      exact ⟨.inr ⟨b, hok, (decode_iff hkeys hok).mpr htaken⟩, joinsUp v⟩

/-- A torch with every attribute, of four bytes an element. -/
def Torch.full : Torch where
  has := fun _ => true
  elementSize := fun _ => 4

/-- A tuple of a reference and nothing survives. -/
theorem survives_iff_node :
    Survives Torch.full (.tuple [.nodeRef 3, .none]) ∧ JoinsUp (.tuple [.nodeRef 3, .none]) ↔
      (∃ message, ((Value.tuple [.nodeRef 3, .none]).parts 0).findSome? Part.stop = some (.encodeError message)) ∨
        (((Value.tuple [.nodeRef 3, .none]).parts 0).findSome? Part.stop = none ∧
          ∀ p ∈ (Value.tuple [.nodeRef 3, .none]).parts 0, p.taken Torch.full = true) := by
  apply survives_iff
  intro p hp
  simp only [Value.parts, Value.partsOf, List.append_nil, List.cons_append, List.nil_append, List.mem_cons,
    List.not_mem_nil, or_false] at hp
  rcases hp with rfl | rfl | rfl <;> trivial

/-- `torch.complex32` is accepted for sending, and is not in the decoder's table. -/
theorem complex32_does_not_survive :
    ¬ (Survives Torch.full (.dtype (.ofString "torch.complex32")) ∧
      JoinsUp (.dtype (.ofString "torch.complex32"))) := by
  have hstop : ((Value.dtype (.ofString "torch.complex32")).parts 0).findSome? Part.stop = none := by decide
  have hmissing : ¬ (Part.value 0 (.dtype (.ofString "torch.complex32"))).taken Torch.full = true := by decide
  have hkeys : (Value.dtype (.ofString "torch.complex32")).KeysDistinct := by
    intro p hp
    cases List.mem_singleton.mp hp
    trivial
  obtain ⟨b, hok⟩ := encode_of_stop hstop
  rintro ⟨⟨message, herror⟩ | ⟨b', hok', hdec⟩, -⟩
  · rw [hok] at herror
    cases herror
  · exact hmissing ((decode_iff hkeys hok').mp hdec _ List.mem_cons_self)

end Rgpu.PyWire
