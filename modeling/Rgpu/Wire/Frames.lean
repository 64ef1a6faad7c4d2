import Rgpu.Foundations.LittleEndian
import Mathlib.Data.UInt

/-! # Frames on a stream socket (`common/net.h`)

A frame is a header of fixed size, which says how many bytes follow it, and those bytes. A stream socket
keeps the order of the bytes, but takes and gives any number of them at a time.

* **`writeTwo`**, **`writeExact`** — what a sender writes, however the writes are cut short.
* **`readExact`**, **`FrameReader.read`** — a plain read, and one with a buffer of its own.
* **`ByteSource`** — what both give: the bytes that come next, or nothing if there are too few.
* **`recvFrame`** — a header and its payload from either.
* **`lossless`** — what is sent is what is received. -/

namespace Rgpu

open Foundations

/-- What becomes of one call on a socket. -/
inductive Transfer
  /-- `EINTR`. -/
  | interrupted
  /-- At most one byte more than this is transferred. -/
  | upTo (k : ℕ)
  deriving DecidableEq, Repr

/-! ### Headers -/

/-- A header as it travels: its bytes, and what a reader looks at. -/
class FrameHeader (H : Type) where
  /-- `sizeof`. -/
  size : ℕ
  bytes : H → List UInt8
  ofBytes : List UInt8 → H
  magic : H → UInt32
  payloadLen : H → UInt32
  length_bytes : ∀ h, (bytes h).length = size
  ofBytes_bytes : ∀ h, ofBytes (bytes h) = h

/-- The four bytes at an offset. -/
def u32At (bs : List UInt8) (offset : ℕ) : UInt32 :=
  UInt32.ofNat (LittleEndian.value ((bs.drop offset).take 4))

/-- A field of four bytes. -/
def u32Bytes (x : UInt32) : List UInt8 := LittleEndian.bytes 4 x.toNat

/-- A word is four bytes. -/
@[simp] theorem length_u32Bytes (x : UInt32) : (u32Bytes x).length = 4 := LittleEndian.length_bytes 4 _

/-- A word is read where it was put. -/
theorem u32At_append (before : List UInt8) (x : UInt32) (after : List UInt8) {offset : ℕ}
    (h : before.length = offset) : u32At (before ++ (u32Bytes x ++ after)) offset = x := by
  have htake : (u32Bytes x ++ after).take 4 = u32Bytes x := by
    rw [← length_u32Bytes x, List.take_left]
  rw [u32At, ← h, List.drop_left, htake, u32Bytes, LittleEndian.value_bytes x.toNat_lt]
  exact UInt32.ofNat_toNat

/-- `ReqHeader`. -/
structure ReqHeader where
  magic : UInt32
  apiId : UInt32
  reqId : UInt32
  flags : UInt32
  threadId : UInt32
  payloadLen : UInt32
  deriving DecidableEq, Repr

/-- `RspHeader`. -/
structure RspHeader where
  magic : UInt32
  reqId : UInt32
  /-- A `CUresult`. -/
  result : Int32
  payloadLen : UInt32
  deriving DecidableEq

namespace ReqHeader

def bytes (h : ReqHeader) : List UInt8 :=
  u32Bytes h.magic ++ (u32Bytes h.apiId ++ (u32Bytes h.reqId ++ (u32Bytes h.flags ++
    (u32Bytes h.threadId ++ (u32Bytes h.payloadLen ++ [])))))

def ofBytes (bs : List UInt8) : ReqHeader :=
  ⟨u32At bs 0, u32At bs 4, u32At bs 8, u32At bs 12, u32At bs 16, u32At bs 20⟩

/-- The header of a request is what is read back. -/
theorem ofBytes_bytes (h : ReqHeader) : ofBytes h.bytes = h := by
  have h0 : u32At h.bytes 0 = h.magic := u32At_append [] _ _ rfl
  have h1 : u32At h.bytes 4 = h.apiId := u32At_append (u32Bytes h.magic) _ _ (length_u32Bytes _)
  have h2 : u32At h.bytes 8 = h.reqId := by
    rw [bytes, ← List.append_assoc]
    exact u32At_append _ _ _ (by simp)
  have h3 : u32At h.bytes 12 = h.flags := by
    rw [bytes, ← List.append_assoc, ← List.append_assoc]
    exact u32At_append _ _ _ (by simp)
  have h4 : u32At h.bytes 16 = h.threadId := by
    rw [bytes, ← List.append_assoc, ← List.append_assoc, ← List.append_assoc]
    exact u32At_append _ _ _ (by simp)
  have h5 : u32At h.bytes 20 = h.payloadLen := by
    rw [bytes, ← List.append_assoc, ← List.append_assoc, ← List.append_assoc, ← List.append_assoc]
    exact u32At_append _ _ _ (by simp)
  rw [ofBytes, h0, h1, h2, h3, h4, h5]

instance : FrameHeader ReqHeader where
  size := 24
  bytes := bytes
  ofBytes := ofBytes
  magic := ReqHeader.magic
  payloadLen := ReqHeader.payloadLen
  length_bytes h := by simp [bytes]
  ofBytes_bytes := ofBytes_bytes

end ReqHeader

namespace RspHeader

def bytes (h : RspHeader) : List UInt8 :=
  u32Bytes h.magic ++ (u32Bytes h.reqId ++ (u32Bytes h.result.toUInt32 ++ (u32Bytes h.payloadLen ++ [])))

def ofBytes (bs : List UInt8) : RspHeader :=
  ⟨u32At bs 0, u32At bs 4, (u32At bs 8).toInt32, u32At bs 12⟩

/-- The header of a reply is what is read back. -/
theorem ofBytes_bytes (h : RspHeader) : ofBytes h.bytes = h := by
  have h0 : u32At h.bytes 0 = h.magic := u32At_append [] _ _ rfl
  have h1 : u32At h.bytes 4 = h.reqId := u32At_append (u32Bytes h.magic) _ _ (length_u32Bytes _)
  have h2 : u32At h.bytes 8 = h.result.toUInt32 := by
    rw [bytes, ← List.append_assoc]
    exact u32At_append _ _ _ (by simp)
  have h3 : u32At h.bytes 12 = h.payloadLen := by
    rw [bytes, ← List.append_assoc, ← List.append_assoc]
    exact u32At_append _ _ _ (by simp)
  rw [ofBytes, h0, h1, h2, h3]
  rfl

instance : FrameHeader RspHeader where
  size := 16
  bytes := bytes
  ofBytes := ofBytes
  magic := RspHeader.magic
  payloadLen := RspHeader.payloadLen
  length_bytes h := by simp [bytes]
  ofBytes_bytes := ofBytes_bytes

end RspHeader

/-! ### Sending -/

/-- The sending side of a socket: what has been written, and what is to become of the next calls. -/
structure OutSocket where
  written : List UInt8 := []
  transfers : List Transfer := []
  deriving DecidableEq, Repr

/-- The loop of `write_exact`. -/
def writeRest (written buf : List UInt8) : List Transfer → OutSocket
  | [] => ⟨written ++ buf, []⟩
  | t :: rest =>
      if buf = [] then ⟨written, t :: rest⟩
      else
        match t with
        | .interrupted => writeRest written buf rest
        | .upTo k => writeRest (written ++ buf.take (k + 1)) (buf.drop (k + 1)) rest

/-- `write_exact`. -/
def writeExact (s : OutSocket) (buf : List UInt8) : OutSocket := writeRest s.written buf s.transfers

/-- Past what went: the loop of `write_two` over its two parts. -/
def advance : List (List UInt8) → ℕ → List (List UInt8)
  | parts, 0 => parts
  | [], _ + 1 => []
  | part :: parts, sent + 1 =>
      if part.length ≤ sent + 1 then advance parts (sent + 1 - part.length)
      else part.drop (sent + 1) :: parts

/-- The loop of `write_two`, with `left` bytes to go. -/
def writeParts (written : List UInt8) (parts : List (List UInt8)) (left : ℕ) : List Transfer → OutSocket
  | [] => ⟨written ++ parts.flatten, []⟩
  | t :: rest =>
      if left = 0 then ⟨written, t :: rest⟩
      else
        match t with
        -- `EINTR`
        | .interrupted => writeParts written parts left rest
        | .upTo k =>
            let sent := (parts.flatten.take (k + 1)).length
            writeParts (written ++ parts.flatten.take (k + 1)) (advance parts sent) (left - sent) rest

/-- `write_two`. -/
def writeTwo (s : OutSocket) (a b : List UInt8) : OutSocket :=
  writeParts s.written (if b.isEmpty then [a] else [a, b]) (a.length + b.length) s.transfers

/-! ### Receiving -/

/-- The receiving side of a socket: what is still to come until the peer closes it, and how it is cut. -/
structure InSocket where
  incoming : List UInt8
  transfers : List Transfer := []
  deriving DecidableEq, Repr

/-- `recv`: nothing if it is interrupted, and no bytes if the peer has closed. -/
def InSocket.recv (s : InSocket) (n : ℕ) : Option (List UInt8) × InSocket :=
  match s.transfers with
  | [] => (some (s.incoming.take n), ⟨s.incoming.drop n, []⟩)
  | .interrupted :: rest => (none, { s with transfers := rest })
  | .upTo k :: rest => (some (s.incoming.take (min n (k + 1))), ⟨s.incoming.drop (min n (k + 1)), rest⟩)

/-- A signal that interrupts takes nothing. -/
theorem InSocket.recv_none {s s' : InSocket} {n : ℕ} (h : s.recv n = (none, s')) :
    s'.transfers.length < s.transfers.length ∧ s'.incoming = s.incoming := by
  unfold InSocket.recv at h
  split at h
  · cases h
  · rename_i rest heq
    obtain rfl := (Prod.mk.inj h).2
    rw [heq]
    exact ⟨Nat.lt_succ_self _, rfl⟩
  · cases h

/-- What is received is what comes next, and no more than was asked for. -/
theorem InSocket.recv_some {s s' : InSocket} {n : ℕ} {bs : List UInt8} (h : s.recv n = (some bs, s')) :
    s.incoming = bs ++ s'.incoming ∧ bs.length ≤ n ∧ s'.transfers.length ≤ s.transfers.length ∧
      (0 < n → bs = [] → s.incoming = []) := by
  unfold InSocket.recv at h
  split at h
  · rename_i heq
    obtain ⟨hbs, rfl⟩ := Prod.mk.inj h
    obtain rfl := Option.some.inj hbs
    refine ⟨(List.take_append_drop n _).symm, List.length_take_le n _, Nat.zero_le _, fun hn hnil => ?_⟩
    exact (List.take_eq_nil_iff.mp hnil).resolve_left (Nat.pos_iff_ne_zero.mp hn)
  · cases h
  · rename_i k rest heq
    obtain ⟨hbs, rfl⟩ := Prod.mk.inj h
    obtain rfl := Option.some.inj hbs
    refine ⟨(List.take_append_drop _ _).symm, ?_, ?_, fun hn hnil => ?_⟩
    · exact Nat.le_trans (List.length_take_le _ _) (Nat.min_le_left _ _)
    · rw [heq]
      exact Nat.le_succ _
    · refine (List.take_eq_nil_iff.mp hnil).resolve_left fun hmin => ?_
      omega

/-- A loop goes on after some bytes. -/
def after {σ : Type} (first : List UInt8) (p : Option (List UInt8) × σ) : Option (List UInt8) × σ :=
  (p.1.map (first ++ ·), p.2)

/-- `read_exact`. -/
def readExact (s : InSocket) (n : ℕ) : Option (List UInt8) × InSocket :=
  if n = 0 then (some [], s)
  else
    match _h : s.recv n with
    | (none, s') => readExact s' n
    | (some bs, s') =>
        -- end of stream
        if bs = [] then (none, s')
        else after bs (readExact s' (n - bs.length))
termination_by n + s.transfers.length
decreasing_by
  · have := (InSocket.recv_none _h).1
    omega
  · have hle := (InSocket.recv_some _h).2
    have hpos : 0 < bs.length := List.length_pos_iff.mpr (by assumption)
    omega

/-- `FrameReader`: the bytes in its buffer that have not been handed out. -/
structure FrameReader where
  socket : InSocket
  buffered : List UInt8 := []
  deriving DecidableEq, Repr

/-- `FrameReader::read`, with a buffer of `capacity` bytes. -/
def FrameReader.read (capacity : ℕ) (r : FrameReader) (n : ℕ) : Option (List UInt8) × FrameReader :=
  if n = 0 then (some [], r)
  else if r.buffered = [] then
    -- something large goes straight to where it is wanted
    if capacity ≤ n then
      match readExact r.socket n with
      | (x, s) => (x, ⟨s, []⟩)
    else
      match _h : r.socket.recv capacity with
      | (none, s) => FrameReader.read capacity ⟨s, []⟩ n
      | (some bs, s) =>
          if bs = [] then (none, ⟨s, []⟩)
          else after (bs.take n) (FrameReader.read capacity ⟨s, bs.drop n⟩ (n - bs.length))
  else
    after (r.buffered.take n)
      (FrameReader.read capacity ⟨r.socket, r.buffered.drop n⟩ (n - r.buffered.length))
termination_by n + r.socket.transfers.length
decreasing_by
  · have := (InSocket.recv_none _h).1
    omega
  · have hle := (InSocket.recv_some _h).2
    have hpos : 0 < bs.length := List.length_pos_iff.mpr (by assumption)
    omega
  · have hpos : 0 < r.buffered.length := List.length_pos_iff.mpr (by assumption)
    omega

/-! ### What a read gives -/

/-- What a read of `n` bytes gives: the bytes that come next, or nothing if there are too few. -/
def Gives (content : List UInt8) (n : ℕ) (x : Option (List UInt8)) (content' : List UInt8) : Prop :=
  (∃ bs, x = some bs ∧ bs.length = n ∧ content = bs ++ content') ∨ (x = none ∧ content.length < n)

/-- Nothing is asked for. -/
theorem gives_zero (content : List UInt8) : Gives content 0 (some []) content :=
  Or.inl ⟨[], rfl, rfl, rfl⟩

/-- Some bytes, and then the rest. -/
theorem Gives.append {first rest content' : List UInt8} {n : ℕ} {x : Option (List UInt8)}
    (h : Gives rest (n - first.length) x content') (hn : first.length ≤ n) :
    Gives (first ++ rest) n (x.map (first ++ ·)) content' := by
  rcases h with ⟨bs, rfl, hlength, rfl⟩ | ⟨rfl, hshort⟩
  · refine Or.inl ⟨first ++ bs, rfl, ?_, (List.append_assoc _ _ _).symm⟩
    rw [List.length_append]
    omega
  · refine Or.inr ⟨rfl, ?_⟩
    rw [List.length_append]
    omega

/-- **The plain read.** -/
theorem readExact_gives (s : InSocket) (n : ℕ) :
    Gives s.incoming n (readExact s n).1 (readExact s n).2.incoming := by
  induction hm : n + s.transfers.length using Nat.strong_induction_on generalizing s n with
  | _ m ih =>
      unfold readExact
      split
      · rename_i hn
        subst hn
        exact gives_zero _
      · rename_i hn
        split
        · rename_i s' heq
          obtain ⟨hless, hsame⟩ := InSocket.recv_none heq
          have hrest := ih (n + s'.transfers.length) (by omega) s' n rfl
          rwa [hsame] at hrest
        · rename_i bs s' heq
          obtain ⟨hcontent, hlength, hless, hclosed⟩ := InSocket.recv_some heq
          split
          · rename_i hnil
            refine Or.inr ⟨rfl, ?_⟩
            rw [hclosed (Nat.pos_of_ne_zero hn) hnil]
            exact Nat.pos_of_ne_zero hn
          · rename_i hne
            have hpos : 0 < bs.length := List.length_pos_iff.mpr hne
            have hrest := ih (n - bs.length + s'.transfers.length) (by omega) s' (n - bs.length) rfl
            rw [after, hcontent]
            exact hrest.append hlength

/-- **The buffered read**, whatever the size of the buffer. -/
theorem FrameReader.read_gives (capacity : ℕ) (r : FrameReader) (n : ℕ) :
    Gives (r.buffered ++ r.socket.incoming) n (r.read capacity n).1
      ((r.read capacity n).2.buffered ++ (r.read capacity n).2.socket.incoming) := by
  induction hm : n + r.socket.transfers.length using Nat.strong_induction_on generalizing r n with
  | _ m ih =>
      -- bytes in hand are copied first, and what is left of them stays in the buffer
      have hcopy : ∀ (s : InSocket) (bs : List UInt8), bs ≠ [] → n ≠ 0 →
          s.transfers.length ≤ r.socket.transfers.length →
          Gives (bs ++ s.incoming) n
            ((FrameReader.read capacity ⟨s, bs.drop n⟩ (n - bs.length)).1.map (bs.take n ++ ·))
            ((FrameReader.read capacity ⟨s, bs.drop n⟩ (n - bs.length)).2.buffered ++
              (FrameReader.read capacity ⟨s, bs.drop n⟩ (n - bs.length)).2.socket.incoming) := by
        intro s bs hne hn hless
        have hpos : 0 < bs.length := List.length_pos_iff.mpr hne
        have hrest := ih (n - bs.length + s.transfers.length) (by omega) ⟨s, bs.drop n⟩ (n - bs.length) rfl
        have hlength : n - bs.length = n - (bs.take n).length := by
          rw [List.length_take]
          omega
        have hsplit : bs ++ s.incoming = bs.take n ++ (bs.drop n ++ s.incoming) := by
          rw [← List.append_assoc, List.take_append_drop]
        rw [hsplit]
        refine Gives.append ?_ (List.length_take_le n bs)
        rw [← hlength]
        exact hrest
      unfold FrameReader.read
      split
      · rename_i hn
        subst hn
        exact gives_zero _
      · rename_i hn
        split
        · rename_i hempty
          rw [hempty, List.nil_append]
          split
          · have hdirect := readExact_gives r.socket n
            rwa [← List.nil_append (readExact r.socket n).2.incoming] at hdirect
          · split
            · rename_i s heq
              obtain ⟨hless, hsame⟩ := InSocket.recv_none heq
              have hrest := ih (n + s.transfers.length) (by omega) ⟨s, []⟩ n rfl
              rw [← hsame]
              exact hrest
            · rename_i hlarge bs s heq
              obtain ⟨hcontent, -, hless, hclosed⟩ := InSocket.recv_some heq
              split
              · rename_i hnil
                refine Or.inr ⟨rfl, ?_⟩
                rw [hclosed (by omega) hnil]
                exact Nat.pos_of_ne_zero hn
              · rename_i hne
                rw [after, hcontent]
                exact hcopy s bs hne hn hless
        · rename_i hne
          rw [after]
          exact hcopy r.socket r.buffered hne hn (Nat.le_refl _)

/-- What is given does not depend on how it was read. -/
theorem Gives.unique {content c₁ c₂ : List UInt8} {n : ℕ} {x₁ x₂ : Option (List UInt8)}
    (h₁ : Gives content n x₁ c₁) (h₂ : Gives content n x₂ c₂) : x₁ = x₂ := by
  rcases h₁ with ⟨bs₁, rfl, hlength₁, heq₁⟩ | ⟨rfl, hshort₁⟩
  · rcases h₂ with ⟨bs₂, rfl, hlength₂, heq₂⟩ | ⟨rfl, hshort₂⟩
    · have hsame : bs₁ ++ c₁ = bs₂ ++ c₂ := heq₁ ▸ heq₂
      exact congrArg some (List.append_inj_left hsame (hlength₁.trans hlength₂.symm))
    · rw [heq₁, List.length_append] at hshort₂
      omega
  · rcases h₂ with ⟨bs₂, rfl, hlength₂, heq₂⟩ | ⟨rfl, -⟩
    · rw [heq₂, List.length_append] at hshort₁
      omega
    · rfl

/-- Where frames are read from: what is still to come, and a read that gives it. -/
structure ByteSource (σ : Type) where
  read : σ → ℕ → Option (List UInt8) × σ
  content : σ → List UInt8
  gives : ∀ s n, Gives (content s) n (read s n).1 (content (read s n).2)

/-- The socket itself. -/
def InSocket.source : ByteSource InSocket := ⟨readExact, InSocket.incoming, readExact_gives⟩

/-- A reader with a buffer of `capacity` bytes. -/
def FrameReader.source (capacity : ℕ) : ByteSource FrameReader :=
  ⟨FrameReader.read capacity, fun r => r.buffered ++ r.socket.incoming, FrameReader.read_gives capacity⟩

/-! ### Frames -/

section Transport

variable {H σ : Type} [FrameHeader H] {magic : UInt32} {maxPayload : ℕ}

/-- `recv_frame`, plain or of a `FrameReader`. -/
def recvFrame (src : ByteSource σ) (magic : UInt32) (maxPayload : ℕ) (s : σ) :
    Option (H × List UInt8) × σ :=
  match src.read s (FrameHeader.size H) with
  | (none, s) => (none, s)
  | (some bs, s) =>
      let h : H := FrameHeader.ofBytes bs
      -- the header is looked at before anything is allocated for the payload
      if FrameHeader.magic h ≠ magic then (none, s)
      else if maxPayload < (FrameHeader.payloadLen h).toNat then (none, s)
      else if FrameHeader.payloadLen h = 0 then (some (h, []), s)
      else
        match src.read s (FrameHeader.payloadLen h).toNat with
        | (none, s) => (none, s)
        | (some payload, s) => (some (h, payload), s)

/-- It is called again and again. -/
def recvFrames (src : ByteSource σ) (magic : UInt32) (maxPayload : ℕ) : ℕ → σ → List (Option (H × List UInt8))
  | 0, _ => []
  | n + 1, s =>
      let (x, s) := recvFrame src magic maxPayload s
      x :: recvFrames src magic maxPayload n s

/-- A header and its payload. -/
def frameBytes (f : H × List UInt8) : List UInt8 := FrameHeader.bytes f.1 ++ f.2

/-- A frame a sender means: its header says how long the payload is. -/
structure Fits (magic : UInt32) (maxPayload : ℕ) (f : H × List UInt8) : Prop where
  magic : FrameHeader.magic f.1 = magic
  length : (FrameHeader.payloadLen f.1).toNat = f.2.length
  small : f.2.length ≤ maxPayload

/-- `send_frame`, of one frame after the other. -/
def sendFrames (s : OutSocket) (frames : List (H × List UInt8)) : OutSocket :=
  frames.foldl (fun s f => writeTwo s (FrameHeader.bytes f.1) f.2) s

/-- The rest is written, whatever the socket takes at a time. -/
theorem written_writeRest (ts : List Transfer) (written buf : List UInt8) :
    (writeRest written buf ts).written = written ++ buf := by
  induction ts generalizing written buf with
  | nil => rfl
  | cons t ts ih =>
      unfold writeRest
      split
      · rename_i hnil
        rw [hnil, List.append_nil]
      · cases t with
        | interrupted => exact ih written buf
        | upTo k =>
            dsimp only
            rw [ih, List.append_assoc, List.take_append_drop]

/-- The parts that are left are the bytes that are left. -/
theorem flatten_advance (parts : List (List UInt8)) (sent : ℕ) (h : sent ≤ parts.flatten.length) :
    (advance parts sent).flatten = parts.flatten.drop sent := by
  induction parts generalizing sent with
  | nil =>
      obtain rfl := Nat.le_zero.mp h
      rfl
  | cons part parts ih =>
      cases sent with
      | zero => rfl
      | succ sent =>
          rw [List.flatten_cons, List.length_append] at h
          rw [List.flatten_cons, advance]
          split
          · rename_i hpart
            rw [ih _ (by omega), List.drop_append, List.drop_eq_nil_of_le hpart, List.nil_append]
          · rename_i hpart
            rw [List.flatten_cons, List.drop_append_of_le_length (by omega)]

/-- Several parts are written, in their order. -/
theorem written_writeParts (ts : List Transfer) (written : List UInt8) (parts : List (List UInt8)) :
    (writeParts written parts parts.flatten.length ts).written = written ++ parts.flatten := by
  induction ts generalizing written parts with
  | nil => rfl
  | cons t ts ih =>
      unfold writeParts
      split
      · rename_i hnil
        rw [List.length_eq_zero_iff.mp hnil, List.append_nil]
      · cases t with
        | interrupted => exact ih written parts
        | upTo k =>
            have hsent : (parts.flatten.take (k + 1)).length ≤ parts.flatten.length := by
              rw [List.length_take]
              exact Nat.min_le_right _ _
            have hleft : parts.flatten.length - (parts.flatten.take (k + 1)).length =
                (advance parts (parts.flatten.take (k + 1)).length).flatten.length := by
              rw [flatten_advance parts _ hsent, List.length_drop]
            dsimp only
            rw [hleft, ih, flatten_advance parts _ hsent, List.append_assoc]
            congr 1
            rw [List.length_take]
            by_cases hk : k + 1 ≤ parts.flatten.length
            · rw [Nat.min_eq_left hk, List.take_append_drop]
            · rw [Nat.min_eq_right (by omega), List.drop_length, List.append_nil,
                List.take_of_length_le (by omega)]

/-- **A header and a payload as one write**, however it is cut short. -/
theorem written_writeTwo (s : OutSocket) (a b : List UInt8) :
    (writeTwo s a b).written = s.written ++ (a ++ b) := by
  unfold writeTwo
  cases b with
  | nil =>
      have hall := written_writeParts s.transfers s.written [a]
      rw [List.flatten_singleton] at hall
      rw [List.append_nil]
      exact hall
  | cons x xs =>
      have hall := written_writeParts s.transfers s.written [a, x :: xs]
      have hflat : [a, x :: xs].flatten = a ++ (x :: xs) := by
        rw [List.flatten_cons, List.flatten_singleton]
      rw [hflat, List.length_append] at hall
      exact hall

/-- Frames are written one behind the other. -/
theorem written_sendFrames (s : OutSocket) (frames : List (H × List UInt8)) :
    (sendFrames s frames).written = s.written ++ frames.flatMap frameBytes := by
  induction frames generalizing s with
  | nil => exact (List.append_nil _).symm
  | cons f frames ih =>
      have hrest := ih (writeTwo s (FrameHeader.bytes f.1) f.2)
      rw [sendFrames] at hrest
      rw [sendFrames, List.foldl_cons, hrest, written_writeTwo, List.flatMap_cons, List.append_assoc]
      rfl

/-- **A frame that is there** is received. -/
theorem recvFrame_of (src : ByteSource σ) {s : σ} {f : H × List UInt8} {rest : List UInt8}
    (hf : Fits magic maxPayload f) (hcontent : src.content s = frameBytes f ++ rest) :
    ∃ s', recvFrame src magic maxPayload s = (some f, s') ∧ src.content s' = rest := by
  have hsize := FrameHeader.length_bytes f.1
  have hlarge : ¬maxPayload < (FrameHeader.payloadLen f.1).toNat := by
    rw [hf.length]
    exact Nat.not_lt.mpr hf.small
  rw [frameBytes, List.append_assoc] at hcontent
  have hheader := src.gives s (FrameHeader.size H)
  rw [hcontent] at hheader
  rcases hheader with ⟨bs, hread, hlength, heq⟩ | ⟨-, hshort⟩
  · obtain ⟨rfl, hafter⟩ := List.append_inj heq (hsize.trans hlength.symm)
    have hpair : src.read s (FrameHeader.size H) = (some (FrameHeader.bytes f.1), (src.read s (FrameHeader.size H)).2) :=
      Prod.ext hread rfl
    rw [recvFrame, hpair]
    dsimp only
    rw [FrameHeader.ofBytes_bytes, if_neg (not_not.mpr hf.magic), if_neg hlarge]
    by_cases hzero : FrameHeader.payloadLen f.1 = 0
    · have hnil : f.2 = [] := by
        have hlen := hf.length
        rw [hzero] at hlen
        exact List.length_eq_zero_iff.mp hlen.symm
      rw [if_pos hzero]
      refine ⟨_, Prod.ext (congrArg some (Prod.ext rfl hnil.symm)) rfl, ?_⟩
      rw [← hafter, hnil, List.nil_append]
    · rw [if_neg hzero]
      have hpayload := src.gives (src.read s (FrameHeader.size H)).2 (FrameHeader.payloadLen f.1).toNat
      rw [← hafter] at hpayload
      rcases hpayload with ⟨ps, hread', hlength', heq'⟩ | ⟨-, hshort⟩
      · obtain ⟨rfl, hrest⟩ := List.append_inj heq' (hf.length.symm.trans hlength'.symm)
        generalize src.read (src.read s (FrameHeader.size H)).2 (FrameHeader.payloadLen f.1).toNat = p at *
        obtain ⟨x, s'⟩ := p
        obtain rfl : x = some f.2 := hread'
        exact ⟨s', rfl, hrest.symm⟩
      · rw [List.length_append, hf.length] at hshort
        omega
  · rw [List.length_append, hsize] at hshort
    omega

/-- **A stream that ends inside a frame** gives none. -/
theorem recvFrame_cut (src : ByteSource σ) {s : σ} {f : H × List UInt8} {more : List UInt8}
    (hf : Fits magic maxPayload f) (hmore : more ≠ []) (hcontent : src.content s ++ more = frameBytes f) :
    (recvFrame (H := H) src magic maxPayload s).1 = none := by
  have hsize := FrameHeader.length_bytes f.1
  have hpos : 0 < more.length := List.length_pos_iff.mpr hmore
  have hheader := src.gives s (FrameHeader.size H)
  unfold recvFrame
  generalize src.read s (FrameHeader.size H) = p at *
  obtain ⟨x, s₁⟩ := p
  rcases hheader with ⟨bs, rfl, hlength, heq⟩ | ⟨rfl, -⟩
  · rw [heq, List.append_assoc, frameBytes] at hcontent
    obtain ⟨rfl, hpayload⟩ := List.append_inj hcontent (hlength.trans hsize.symm)
    have hlen : f.2.length = (src.content s₁).length + more.length := by
      rw [← hpayload, List.length_append]
    have hzero : FrameHeader.payloadLen f.1 ≠ 0 := by
      intro hzero
      have hlen' := hf.length
      rw [hzero] at hlen'
      have hnone : (0 : UInt32).toNat = 0 := rfl
      omega
    have hrest := src.gives s₁ (FrameHeader.payloadLen f.1).toNat
    dsimp only
    rw [FrameHeader.ofBytes_bytes, if_neg (not_not.mpr hf.magic),
      if_neg (Nat.not_lt.mpr (hf.length ▸ hf.small)), if_neg hzero]
    generalize src.read s₁ (FrameHeader.payloadLen f.1).toNat = q at *
    obtain ⟨y, s₂⟩ := q
    rcases hrest with ⟨ps, -, hlength', heq'⟩ | ⟨rfl, -⟩
    · have hmuch := congrArg List.length heq'
      rw [List.length_append, hlength', hf.length] at hmuch
      omega
    · rfl
  · rfl

/-- **The run lemma.** Frames come out as they went in, and then nothing. -/
theorem recvFrames_of (src : ByteSource σ) {frames : List (H × List UInt8)} {s : σ} {rest : List UInt8}
    (hframes : ∀ f ∈ frames, Fits magic maxPayload f)
    (hrest : ∀ s', src.content s' = rest → (recvFrame (H := H) src magic maxPayload s').1 = none)
    (hcontent : src.content s = frames.flatMap frameBytes ++ rest) :
    recvFrames src magic maxPayload (frames.length + 1) s = frames.map some ++ [none] := by
  induction frames generalizing s with
  | nil =>
      have hlast := hrest s hcontent
      simp only [List.length_nil, recvFrames, hlast, List.map_nil, List.nil_append]
  | cons f frames ih =>
      rw [List.flatMap_cons, List.append_assoc] at hcontent
      obtain ⟨s', hrecv, hafter⟩ := recvFrame_of src (hframes f List.mem_cons_self) hcontent
      have hgo := ih (fun g hg => hframes g (List.mem_cons_of_mem _ hg)) hafter
      rw [List.length_cons, recvFrames, hrecv]
      dsimp only
      rw [hgo]
      rfl

/-- **Frame transport is lossless.** Frames that are sent one by one, or queued and sent as one write, are
on the wire in order, however the writes are cut short. A reader of any buffer size, and the plain one,
receive exactly those frames, however the stream is cut into receives, and then nothing if the stream ends
there or inside a further frame. A direct read agrees with a buffered one. -/
theorem lossless (frames : List (H × List UInt8)) (hframes : ∀ f ∈ frames, Fits magic maxPayload f)
    (last : H × List UInt8) (hlast : Fits magic maxPayload last) (start more : List UInt8) (hmore : more ≠ [])
    (hstart : start ++ more = frameBytes last) (writes cuts : List Transfer) (capacity : ℕ) :
    (sendFrames ⟨[], writes⟩ frames).written = frames.flatMap frameBytes ∧
    (writeExact ⟨[], writes⟩ (frames.flatMap frameBytes)).written = frames.flatMap frameBytes ∧
    recvFrames (FrameReader.source capacity) magic maxPayload (frames.length + 1)
      ⟨⟨frames.flatMap frameBytes ++ start, cuts⟩, []⟩ = frames.map some ++ [none] ∧
    recvFrames InSocket.source magic maxPayload (frames.length + 1)
      ⟨frames.flatMap frameBytes ++ start, cuts⟩ = frames.map some ++ [none] ∧
    ∀ (r : FrameReader) (n : ℕ),
      (r.read capacity n).1 = (readExact ⟨r.buffered ++ r.socket.incoming, cuts⟩ n).1 := by
  refine ⟨written_sendFrames _ frames, written_writeRest _ _ _, ?_, ?_, fun r n => ?_⟩
  · refine recvFrames_of _ hframes (fun s' hs' => recvFrame_cut _ hlast hmore ?_) rfl
    rw [hs', hstart]
  · refine recvFrames_of _ hframes (fun s' hs' => recvFrame_cut _ hlast hmore ?_) rfl
    rw [hs', hstart]
  · exact (FrameReader.read_gives capacity r n).unique (readExact_gives ⟨_, cuts⟩ n)

/-- Two replies, the second without a payload; the stream ends in the middle of a third, and arrives one
byte and then two bytes at a time. -/
theorem lossless_replies :
    recvFrames (FrameReader.source 8) 7 100 3
      ⟨⟨[((⟨7, 1, 0, 3⟩ : RspHeader), [1, 2, 3]), (⟨7, 2, 0, 0⟩, [])].flatMap frameBytes ++ [7],
        [.upTo 0, .interrupted, .upTo 1]⟩, []⟩ =
      [some ((⟨7, 1, 0, 3⟩ : RspHeader), [1, 2, 3]), some (⟨7, 2, 0, 0⟩, []), none] := by
  have hframes : ∀ f ∈ [((⟨7, 1, 0, 3⟩ : RspHeader), [1, 2, 3]), (⟨7, 2, 0, 0⟩, [])],
      Fits (H := RspHeader) 7 100 f := by
    intro f hf
    rcases List.mem_cons.mp hf with rfl | hf
    · exact ⟨rfl, rfl, by decide⟩
    · obtain rfl := List.mem_singleton.mp hf
      exact ⟨rfl, rfl, by decide⟩
  exact (lossless _ hframes (⟨7, 3, 0, 0⟩, []) ⟨rfl, rfl, by decide⟩ [7]
    [0, 0, 0, 3, 0, 0, 0, 0, 0, 0, 0, 0, 0, 0, 0] (by decide) rfl [] [.upTo 0, .interrupted, .upTo 1] 8).2.2.1

end Transport

/-! ### The length a header declares -/

/-- `kMagicReq`. -/
def kMagicReq : UInt32 := 0x52475155

/-- `kMagicRsp`. -/
def kMagicRsp : UInt32 := 0x52475250

/-- The limit a receiver checks: what `recv_frame` defaults to, which no caller changes. -/
def kMaxPayload : ℕ := 2 ^ 32

/-- The frame that `queue_one_locked` queues. The length is converted from 64 bits to 32. -/
def requestFrame (apiId reqId flags threadId : UInt32) (req : List UInt8) : ReqHeader × List UInt8 :=
  (⟨kMagicReq, apiId, reqId, flags, threadId, UInt32.ofNat req.length⟩, req)

/-- The frame that `serve` replies with. -/
def replyFrame (reqId : UInt32) (result : Int32) (rsp : List UInt8) : RspHeader × List UInt8 :=
  (⟨kMagicRsp, reqId, result, UInt32.ofNat rsp.length⟩, rsp)

/-- A receiver gets the frame, and its next header is at the start of what follows it. -/
def Received {H : Type} [FrameHeader H] (magic : UInt32) (f : H × List UInt8) : Prop :=
  (FrameHeader.payloadLen f.1).toNat = f.2.length ∧ f.2.length ≤ kMaxPayload ∧
    ∀ (σ : Type) (src : ByteSource σ) (s : σ) (rest : List UInt8), src.content s = frameBytes f ++ rest →
      ∃ s', recvFrame src magic kMaxPayload s = (some f, s') ∧ src.content s' = rest

/-- A frame whose header has the converted length is received exactly if the length fits into it. -/
theorem received_iff {H : Type} [FrameHeader H] {magic : UInt32} {f : H × List UInt8}
    (hmagic : FrameHeader.magic f.1 = magic)
    (hlength : FrameHeader.payloadLen f.1 = UInt32.ofNat f.2.length) :
    Received magic f ↔ f.2.length < 2 ^ 32 := by
  constructor
  · intro h
    rw [← h.1]
    exact (FrameHeader.payloadLen f.1).toNat_lt
  · intro h
    have hlen : (FrameHeader.payloadLen f.1).toNat = f.2.length := by
      rw [hlength]
      exact UInt32.toNat_ofNat_of_lt' h
    have hfits : Fits magic kMaxPayload f := ⟨hmagic, hlen, Nat.le_of_lt h⟩
    exact ⟨hlen, Nat.le_of_lt h, fun σ src s rest hcontent => recvFrame_of src hfits hcontent⟩

/-- **The declared length is the real one**, in both directions, exactly for payloads of fewer than
`2 ^ 32` bytes. No payload is refused. -/
theorem declared_length_iff (apiId reqId flags threadId : UInt32) (result : Int32) (req rsp : List UInt8) :
    (Received kMagicReq (requestFrame apiId reqId flags threadId req) ↔ req.length < 2 ^ 32) ∧
    (Received kMagicRsp (replyFrame reqId result rsp) ↔ rsp.length < 2 ^ 32) :=
  ⟨received_iff rfl rfl, received_iff rfl rfl⟩

/-- A request with a payload of `2 ^ 32` bytes declares none, and its payload is read as frames. -/
theorem declared_length_wraps :
    ∃ req : List UInt8, req.length = 2 ^ 32 ∧ (requestFrame 1 1 0 1 req).1.payloadLen = 0 ∧
      ∃ s' : InSocket, recvFrame InSocket.source kMagicReq kMaxPayload ⟨frameBytes (requestFrame 1 1 0 1 req), []⟩ =
          (some ((requestFrame 1 1 0 1 req).1, []), s') ∧ s'.incoming = req := by
  obtain ⟨req, hlength⟩ : ∃ req : List UInt8, req.length = 2 ^ 32 :=
    ⟨List.replicate (2 ^ 32) 0, List.length_replicate⟩
  have hzero : (requestFrame 1 1 0 1 req).1.payloadLen = 0 := by
    rw [requestFrame, hlength]
    rfl
  have hfits : Fits kMagicReq kMaxPayload ((requestFrame 1 1 0 1 req).1, []) :=
    ⟨rfl, congrArg UInt32.toNat hzero, Nat.zero_le _⟩
  have hcontent : frameBytes (requestFrame 1 1 0 1 req) =
      frameBytes ((requestFrame 1 1 0 1 req).1, []) ++ req := by
    rw [frameBytes, frameBytes, List.append_nil]
    rfl
  exact ⟨req, hlength, hzero, recvFrame_of InSocket.source hfits hcontent⟩

end Rgpu
