import Rgpu.Python.WireRoundTrip
import Mathlib.Data.List.Induction

/-! # Replies of a Python session

`Session.execute` takes the number of a message for applied before anything is done for it, and encodes the reply
after everything is done.

* **`Handlers`** — what the handlers of the message kinds do, PyTorch included.
* **`ReplySession.execute`** — the message, with the reply that is kept for a reconnect.
* **`reply_kept_iff`** — when a message that is waited for leaves a reply that the client can read. -/

namespace Rgpu.PyWire

open Foundations

/-- What a failed op is reported by. -/
structure OpFailure where
  op : PyStr
  message : PyStr
  deriving DecidableEq

/-- A result as it stands in a reply, one level in; the keys of a Python `dict` are distinct. -/
abbrev Described := { v : Value // ∀ p ∈ v.parts 1, p.keysDistinct }

/-- What comes of a handler that is waited for. -/
inductive Waited
  | value (v : Described)
  /-- An argument is poisoned. -/
  | skip (p : OpFailure)
  /-- An exception, as `type: message`. -/
  | raises (error : PyStr)

/-- The handlers: what they do to the rest of the session, and what comes of it. -/
structure Handlers (σ : Type) where
  /-- Of the kinds that nothing waits for; a wrong number of fields is an exception. -/
  async : σ → ℤ → List Value → Option (σ × Option OpFailure)
  /-- Of the kinds that are waited for. -/
  waited : σ → ℤ → List Value → σ × Waited
  /-- `str()` of a field. -/
  str : Value → PyStr

/-- `Session`, with what is in its tensors and graphs left to the handlers. -/
structure ReplySession (σ : Type) where
  state : σ
  /-- The first failure that has not been reported. -/
  firstError : Option OpFailure := none
  lastSeq : ℤ := 0
  /-- The last reply, resent after a reconnect. -/
  lastReply : Option (ℤ × Bytes) := none

/-- How `execute` ends. -/
inductive Executed
  | quiet
  | replied (frame : Bytes)
  | raised
  deriving DecidableEq

/-- `wire.RUN_SYNC` -/
def runSync : ℤ := 2

/-- `wire.DOWNLOAD` -/
def download : ℤ := 4

/-- `_ASYNC` -/
def asyncKinds : List ℤ := [1, 3, 5, 6, 8, 9]

/-- `_WAITED` -/
def waitedKinds : List ℤ := [runSync, download, 7, 10]

/-- `wire.OK` and `wire.ERROR` -/
def ok : ℤ := 0

def error : ℤ := 1

/-- An error, as it is sent. -/
def OpFailure.value (p : OpFailure) : Value := .list [.str p.op, .str p.message]

/-- A reply, as it is sent. -/
def reply (seq status : ℤ) (v : Value) : Value := .list [.int seq, .int status, v]

namespace ReplySession

variable {σ : Type}

/-- `_label`: it looks at fields that need not be there. -/
def label (h : Handlers σ) (kind : ℤ) (fields : List Value) : Option PyStr :=
  if kind = runSync then
    match fields with
    | name :: overload :: _ => some (h.str name ++ .ofString "." ++ h.str overload)
    | _ => none
  else if kind = download then
    match fields with
    | tid :: _ => some (.ofString "download of tensor " ++ h.str tid)
    | [] => none
  else some (.ofString "sync")

/-- The status and the value of the reply, unless naming what failed raises. -/
def answer (h : Handlers σ) (x : ReplySession σ) (kind : ℤ) (fields : List Value) :
    ReplySession σ × Option (ℤ × Value) :=
  match x.firstError with
  | some p => ({ x with firstError := none }, some (error, p.value))
  | none =>
      let (state, outcome) := h.waited x.state kind fields
      ({ x with state := state },
        match outcome with
        | .value v => some (ok, v)
        | .skip p => some (error, p.value)
        | .raises message => (label h kind fields).map fun op => (error, (OpFailure.mk op message).value))

/-- `execute` -/
def execute (h : Handlers σ) (x : ReplySession σ) (seq kind : ℤ) (fields : List Value) : ReplySession σ × Executed :=
  if seq ≤ x.lastSeq then (x, .quiet)
  else
    let x := { x with lastSeq := seq }
    if kind ∈ asyncKinds then
      match h.async x.state kind fields with
      | none => (x, .raised)
      | some (state, failure) => ({ x with state := state, firstError := x.firstError.or failure }, .quiet)
    else if kind ∉ waitedKinds then
      let failure : OpFailure := ⟨.ofString s!"message kind {kind}", .ofString "ValueError: unknown message"⟩
      ({ x with firstError := x.firstError.or (some failure) }, .quiet)
    else
      match x.answer h kind fields with
      | (x, none) => (x, .raised)
      | (x, some (status, v)) =>
          match encode (reply seq status v) with
          | .error _ => (x, .raised)
          | .ok frame => ({ x with lastReply := some (seq, frame) }, .replied frame)

/-- `y` keeps a reply for the message, no longer than `MAX_FRAME`, which the client decodes as the answer. -/
def Kept (torch : Torch) (maxFrame : ℕ) (seq : ℤ) (a : Option (ℤ × Value)) (y : ReplySession σ) : Prop :=
  ∃ frame status v, a = some (status, v) ∧ y.lastReply = some (seq, frame) ∧ frame.length ≤ maxFrame ∧
    decode torch frame = .ok (reply seq status v.canonical)

/-- A value can be sent in a reply: nothing in it stops the encoder, the decoder takes all of it as it was meant,
and it leaves the frame within its limit. -/
structure Sendable (torch : Torch) (maxFrame : ℕ) (v : Value) : Prop where
  encodable : (v.parts 1).findSome? Part.stop = none
  taken : ∀ p ∈ v.parts 1, p.taken torch = true
  fits : ∀ b, v.enc 1 = .ok b → 23 + b.length ≤ maxFrame

/-- A message can be answered: with the failure that is to be reported first, or else with the result, the poison
or the exception that comes of its handler; an exception needs the fields that name what failed. -/
def Answerable (torch : Torch) (maxFrame : ℕ) (h : Handlers σ) (x : ReplySession σ) (kind : ℤ) (fields : List Value) :
    Prop :=
  match x.firstError with
  | some p => Sendable torch maxFrame p.value
  | none =>
      match (h.waited x.state kind fields).2 with
      | .value v => Sendable torch maxFrame v.1
      | .skip p => Sendable torch maxFrame p.value
      | .raises message => ∃ op, label h kind fields = some op ∧ Sendable torch maxFrame (OpFailure.mk op message).value

end ReplySession

/-! ### The parts of a reply -/

section Reply

variable {seq status : ℤ} {v : Value}

/-- The parts of a reply are the list, its number, its status and the parts of its value. -/
theorem parts_reply : (reply seq status v).parts 0 = .value 0 (reply seq status v) :: .value 1 (.int seq) ::
    .value 1 (.int status) :: v.parts 1 := by
  rw [reply, Value.parts, Value.partsOf, Value.partsOf, Value.partsOf, Value.partsOf, Value.parts, Value.parts,
    List.append_nil]
  rfl

/-- A reply that is read back is one of the value that is. -/
theorem canonical_reply : (reply seq status v).canonical = reply seq status v.canonical := by
  simp only [reply, Value.canonical, Value.canonicals]

/-- The numbers in a reply stop nothing. -/
theorem stop_reply (hseq : -2 ^ 63 ≤ seq ∧ seq < 2 ^ 63) (hstatus : status = ok ∨ status = error) :
    ((reply seq status v).parts 0).findSome? Part.stop = (v.parts 1).findSome? Part.stop := by
  have hint : ∀ i : ℤ, (-2 ^ 63 ≤ i ∧ i < 2 ^ 63) → (Part.value 1 (.int i)).stop = none := by
    intro i hi
    rw [Part.stop, if_neg (by decide), stopValue, if_pos ⟨by omega, by omega⟩]
  have hlist : (Part.value 0 (reply seq status v)).stop = none := by
    rw [Part.stop, if_neg (by decide), reply, stopValue, stopUnsigned, if_pos ⟨by simp, by simp⟩]
  rw [parts_reply, findSome_stop_cons, findSome_stop_cons, findSome_stop_cons, hlist, hint seq hseq, hint status ?_]
  · rfl
  · rcases hstatus with rfl | rfl <;> decide

/-- A reply has distinct keys if its value has. -/
theorem keysDistinct_reply (hv : ∀ p ∈ v.parts 1, p.keysDistinct) : (reply seq status v).KeysDistinct := by
  intro p hp
  rw [parts_reply] at hp
  simp only [List.mem_cons] at hp
  rcases hp with rfl | rfl | rfl | hp
  · trivial
  · trivial
  · trivial
  · exact hv p hp

/-- A reply is taken if its value is. -/
theorem taken_reply {torch : Torch} : (∀ p ∈ (reply seq status v).parts 0, p.taken torch = true) ↔
    ∀ p ∈ v.parts 1, p.taken torch = true := by
  rw [parts_reply]
  simp only [List.mem_cons, forall_eq_or_imp]
  exact ⟨fun h => h.2.2.2, fun h => ⟨rfl, rfl, rfl, h⟩⟩

/-- A number of `w` bytes has `w`. -/
theorem length_packUnsigned {w : ℕ} {n : ℤ} {b : Bytes} (h : packUnsigned w n = .ok b) : b.length = w := by
  rw [packUnsigned] at h
  split at h
  · cases h
    exact LittleEndian.length_bytes _ _
  · cases h

/-- The length of a reply. -/
theorem length_encode_reply {b : Bytes} (h : encode (reply seq status v) = .ok b) :
    ∃ c, v.enc 1 = .ok c ∧ b.length = 23 + c.length := by
  have hint : ∀ {i : ℤ} {c : Bytes}, Value.enc 1 (.int i) = .ok c → c.length = 9 := by
    intro i c hc
    rw [Value.enc, atDepth, if_neg (by decide), encInt] at hc
    split at hc
    · cases hc
      rw [List.length_append, LittleEndian.length_bytes]
      rfl
    · cases hc
  rw [encode, reply, Value.enc, atDepth, if_neg (by decide)] at h
  obtain ⟨hd, hheader, h⟩ := ok_of_bind h
  obtain ⟨body, hbody, h⟩ := ok_of_bind h
  cases h
  simp only [Value.encs] at hbody
  obtain ⟨a, ha, hbody⟩ := ok_of_bind hbody
  obtain ⟨rest, hrest, hbody⟩ := ok_of_bind hbody
  cases hbody
  obtain ⟨a', ha', hrest⟩ := ok_of_bind hrest
  obtain ⟨rest', hrest', hrest⟩ := ok_of_bind hrest
  cases hrest
  obtain ⟨c, hc, hrest'⟩ := ok_of_bind hrest'
  obtain ⟨e, he, hrest'⟩ := ok_of_bind hrest'
  cases hrest'
  cases he
  refine ⟨c, hc, ?_⟩
  have hhd : hd.length = 5 := by
    obtain ⟨nb, hnb, rfl⟩ := of_listHeader hheader
    rw [List.length_append, length_packUnsigned hnb]
    rfl
  simp only [List.length_append, List.append_nil, hhd, hint ha, hint ha']
  omega

end Reply

namespace ReplySession

variable {σ : Type} {torch : Torch} {maxFrame : ℕ} {seq status : ℤ} {v : Value}

variable (torch maxFrame) in
/-- A reply is encoded to a frame that the client can read exactly if its value can be sent. -/
theorem sendable_iff (hseq : -2 ^ 63 ≤ seq ∧ seq < 2 ^ 63) (hstatus : status = ok ∨ status = error)
    (hv : ∀ p ∈ v.parts 1, p.keysDistinct) :
    (∃ frame, encode (reply seq status v) = .ok frame ∧ frame.length ≤ maxFrame ∧
        decode torch frame = .ok (reply seq status v.canonical)) ↔ Sendable torch maxFrame v := by
  constructor
  · rintro ⟨frame, hencode, hlength, hdecode⟩
    rw [← canonical_reply] at hdecode
    refine ⟨?_, taken_reply.mp ((decode_iff (keysDistinct_reply hv) hencode).mp hdecode), fun b hb => ?_⟩
    · rw [← stop_reply hseq hstatus]
      exact stop_of_encode hencode
    · obtain ⟨c, hc, hlen⟩ := length_encode_reply hencode
      rw [hb] at hc
      cases hc
      exact hlen ▸ hlength
  · rintro ⟨hencodable, htaken, hfits⟩
    obtain ⟨frame, hencode⟩ := encode_of_stop ((stop_reply (v := v) hseq hstatus).trans hencodable)
    obtain ⟨c, hc, hlen⟩ := length_encode_reply hencode
    refine ⟨frame, hencode, hlen ▸ hfits c hc, ?_⟩
    rw [← canonical_reply]
    exact (decode_iff (keysDistinct_reply hv) hencode).mpr (taken_reply.mpr htaken)

variable (torch maxFrame) in
/-- The reply that `execute` makes has its status, and a value of a Python `dict` with distinct keys. -/
theorem answer_spec {h : Handlers σ} {x y : ReplySession σ} {kind : ℤ} {fields : List Value}
    {a : Option (ℤ × Value)} (ha : x.answer h kind fields = (y, a)) :
    y.lastSeq = x.lastSeq ∧ y.lastReply = x.lastReply ∧
      (∀ status v, a = some (status, v) → (status = ok ∨ status = error) ∧ ∀ p ∈ v.parts 1, p.keysDistinct) ∧
      (Answerable torch maxFrame h x kind fields ↔ ∃ status v, a = some (status, v) ∧ Sendable torch maxFrame v) := by
  have hfailure : ∀ p : OpFailure, ∀ q ∈ p.value.parts 1, q.keysDistinct := by
    intro p q hq
    simp only [OpFailure.value, Value.parts, Value.partsOf, List.append_nil, List.cons_append, List.nil_append,
      List.mem_cons, List.not_mem_nil, or_false] at hq
    rcases hq with rfl | rfl | rfl <;> trivial
  unfold answer at ha
  unfold Answerable
  split at ha
  · rename_i p hfirst
    cases ha
    refine ⟨rfl, rfl, ?_, ?_⟩
    · rintro status v hv
      cases hv
      exact ⟨.inr rfl, hfailure p⟩
    · simp
  · rename_i hfirst
    generalize h.waited x.state kind fields = w at ha ⊢
    obtain ⟨state, outcome⟩ := w
    cases ha
    refine ⟨rfl, rfl, ?_, ?_⟩
    · intro status v hv
      cases outcome with
      | value d =>
          cases hv
          exact ⟨.inl rfl, d.2⟩
      | skip p =>
          cases hv
          exact ⟨.inr rfl, hfailure p⟩
      | raises message =>
          obtain ⟨op, -, hop⟩ := Option.map_eq_some_iff.mp hv
          cases hop
          exact ⟨.inr rfl, hfailure _⟩
    -- a value is sent as it is, a skip and an exception as the failure they report
    · cases outcome with
      | value d => simp
      | skip p => simp
      | raises message => cases label h kind fields <;> simp

/-- A message that is waited for leaves a reply if it can be answered, where the reply kept is for an earlier one. -/
theorem kept_iff (torch : Torch) (maxFrame : ℕ) (h : Handlers σ) (x : ReplySession σ) {seq kind : ℤ}
    (fields : List Value) (hkind : kind ∈ waitedKinds) (hnew : x.lastSeq < seq) (hseq : -2 ^ 63 ≤ seq ∧ seq < 2 ^ 63)
    (hkept : ∀ n frame, x.lastReply = some (n, frame) → n ≤ x.lastSeq) :
    (x.execute h seq kind fields).1.lastSeq = seq ∧
      (Kept torch maxFrame seq (x.answer h kind fields).2 (x.execute h seq kind fields).1 ↔
        Answerable torch maxFrame h x kind fields) := by
  have hasync : kind ∉ asyncKinds := by
    simp only [waitedKinds, List.mem_cons, List.not_mem_nil, or_false] at hkind
    rcases hkind with rfl | rfl | rfl | rfl <;> decide
  have hsame : (x.answer h kind fields).2 = (answer h { x with lastSeq := seq } kind fields).2 := by
    unfold answer
    dsimp only
    cases x.firstError <;> rfl
  rw [hsame, execute, if_neg (not_le.mpr hnew), if_neg hasync, if_neg (not_not.mpr hkind)]
  rcases ha : answer h { x with lastSeq := seq } kind fields with ⟨y, a⟩
  obtain ⟨hlast, hreply, hspec, hiff⟩ := answer_spec torch maxFrame ha
  have hiff' : Answerable torch maxFrame h x kind fields ↔ ∃ status v, a = some (status, v) ∧ Sendable torch maxFrame v :=
    hiff
  rw [hiff']
  -- the reply kept before is for an earlier message
  have hold : ∀ {z : ReplySession σ}, z.lastReply = x.lastReply → ¬Kept torch maxFrame seq a z := by
    rintro z hz ⟨frame, status, v, -, hlastReply, -⟩
    exact absurd (hkept seq frame (hz ▸ hlastReply)) (not_le.mpr hnew)
  cases a with
  | none => exact ⟨hlast, fun hk => absurd hk (hold hreply), by rintro ⟨_, _, ⟨⟩, _⟩⟩
  | some a =>
      obtain ⟨status, v⟩ := a
      obtain ⟨hstatus, hv⟩ := hspec status v rfl
      have hsend := sendable_iff torch maxFrame hseq hstatus hv
      have hone : (∃ status' v', some (status, v) = some (status', v') ∧ Sendable torch maxFrame v') ↔
          Sendable torch maxFrame v := by simp
      rw [hone, ← hsend]
      dsimp only
      cases hencode : encode (reply seq status v) with
      | error e =>
          refine ⟨hlast, fun hk => absurd hk (hold hreply), ?_⟩
          rintro ⟨frame, hframe, -⟩
          cases hframe
      | ok frame =>
          refine ⟨hlast, ?_, ?_⟩
          · rintro ⟨frame', status', v', hv', hframe', hlength, hdecode⟩
            cases hframe'
            cases hv'
            exact ⟨frame, rfl, hlength, hdecode⟩
          · rintro ⟨frame', hframe', hlength, hdecode⟩
            cases hframe'
            exact ⟨frame, status, v, rfl, rfl, hlength, hdecode⟩

/-- A message: its number, kind and fields. -/
abbrev Message := ℤ × ℤ × List Value

/-- A session that has been given some messages. -/
def reached (h : Handlers σ) (state : σ) (ms : List Message) : ReplySession σ :=
  ms.foldl (fun x m => (x.execute h m.1 m.2.1 m.2.2).1) { state := state }

/-- The reply kept is for a message that was applied. -/
theorem lastReply_le_execute {h : Handlers σ} {x : ReplySession σ}
    (hx : ∀ n frame, x.lastReply = some (n, frame) → n ≤ x.lastSeq) (seq kind : ℤ) (fields : List Value) (n : ℤ)
    (frame : Bytes) (hn : (x.execute h seq kind fields).1.lastReply = some (n, frame)) :
    n ≤ (x.execute h seq kind fields).1.lastSeq := by
  unfold execute at hn ⊢
  split at hn
  · rename_i hold
    rw [if_pos hold]
    exact hx n frame hn
  · rename_i hnew
    rw [if_neg hnew]
    -- the number goes up, and the reply that was kept stays until there is another
    have hle : ∀ n frame, x.lastReply = some (n, frame) → n ≤ seq := fun n frame hn =>
      (hx n frame hn).trans (not_le.mp hnew).le
    dsimp only at hn ⊢
    split at hn
    · rename_i hasync
      rw [if_pos hasync]
      split at hn <;> exact hle n frame hn
    · rename_i hasync
      rw [if_neg hasync]
      split at hn
      · rename_i hunknown
        rw [if_pos hunknown]
        exact hle n frame hn
      · rename_i hunknown
        rw [if_neg hunknown]
        rcases ha : answer h { x with lastSeq := seq } kind fields with ⟨y, a⟩
        obtain ⟨hlast, hreply, -, -⟩ := answer_spec Torch.full 0 ha
        rw [ha] at hn
        cases a with
        | none =>
            dsimp only at hn ⊢
            rw [hlast]
            exact hle n frame (hreply.symm.trans hn)
        | some a =>
            dsimp only at hn ⊢
            cases hencode : encode (reply seq a.1 a.2) with
            | error e =>
                rw [hencode] at hn
                dsimp only at hn ⊢
                rw [hlast]
                exact hle n frame (hreply.symm.trans hn)
            | ok frame' =>
                -- the reply kept from now on is for this message
                rw [hencode] at hn
                cases hn
                exact hlast.symm.le

/-- The cached reply is of no later message than the last. -/
theorem lastReply_le_reached (h : Handlers σ) (state : σ) (ms : List Message) (n : ℤ) (frame : Bytes)
    (hn : (reached h state ms).lastReply = some (n, frame)) : n ≤ (reached h state ms).lastSeq := by
  induction ms using List.reverseRecOn generalizing n frame with
  | nil => cases hn
  | append_singleton ms m ih =>
      rw [reached, List.foldl_append] at hn ⊢
      exact lastReply_le_execute ih m.1 m.2.1 m.2.2 n frame hn

/-- **A message that is waited for leaves a reply** for a reconnect, in every session and whether `execute` returns
or raises, exactly if it can be answered. -/
theorem reply_kept_iff (torch : Torch) (maxFrame : ℕ) (h : Handlers σ) (state : σ) (ms : List Message)
    (seq kind : ℤ) (fields : List Value) (hkind : kind ∈ waitedKinds) (hnew : (reached h state ms).lastSeq < seq)
    (hseq : seq < 2 ^ 63) (hfirst : 0 < seq) :
    ((reached h state ms).execute h seq kind fields).1.lastSeq = seq ∧
      (Kept torch maxFrame seq ((reached h state ms).answer h kind fields).2
          ((reached h state ms).execute h seq kind fields).1 ↔
        Answerable torch maxFrame h (reached h state ms) kind fields) :=
  kept_iff torch maxFrame h _ fields hkind hnew ⟨by omega, hseq⟩ (lastReply_le_reached h state ms)

/-- Handlers that answer a `RUN_SYNC` with a number, and take every message that is streamed. -/
def numbers (i : ℤ) : Handlers Unit where
  async := fun _ _ _ => some ((), none)
  waited := fun _ _ _ => ((), .value ⟨.int i, by
    intro p hp
    cases List.mem_singleton.mp hp
    trivial⟩)
  str := fun _ => []

/-- A `RUN` and an `UPLOAD` that are streamed. -/
def twoStreamed : List Message := [(1, 1, []), (2, 3, [])]

/-- After two messages that were streamed, the third is waited for, and its reply is kept. -/
theorem reply_kept_iff_small :
    Kept Torch.full 1000 3 ((reached (numbers 7) () twoStreamed).answer (numbers 7) runSync []).2
      ((reached (numbers 7) () twoStreamed).execute (numbers 7) 3 runSync []).1 := by
  refine (reply_kept_iff Torch.full 1000 (numbers 7) () twoStreamed 3 runSync [] (by decide) (by decide) (by omega)
    (by decide)).2.mpr ⟨?_, ?_, ?_⟩
  · rw [Value.parts, List.findSome?_singleton, Part.stop, if_neg (by decide), stopValue, if_pos ⟨by omega, by omega⟩]
  · intro p hp
    cases List.mem_singleton.mp hp
    rfl
  · intro b hb
    rw [Value.enc, atDepth, if_neg (by decide), encInt, if_pos ⟨by omega, by omega⟩] at hb
    cases hb
    rw [List.length_append, LittleEndian.length_bytes]
    decide

/-- The last of the numbers that an element of a `torch.uint64` can be is no number of the wire: `execute` raises, with
the message taken for applied, and keeps no reply. -/
theorem number_leaves_no_reply :
    ((reached (numbers (2 ^ 64 - 1)) () []).execute (numbers (2 ^ 64 - 1)) 1 runSync []).1.lastSeq = 1 ∧
      ¬Kept Torch.full 1000 1 ((reached (numbers (2 ^ 64 - 1)) () []).answer (numbers (2 ^ 64 - 1)) runSync []).2
        ((reached (numbers (2 ^ 64 - 1)) () []).execute (numbers (2 ^ 64 - 1)) 1 runSync []).1 := by
  obtain ⟨hlast, hiff⟩ := kept_iff Torch.full 1000 (numbers (2 ^ 64 - 1)) (reached (numbers (2 ^ 64 - 1)) () [])
    [] (show runSync ∈ waitedKinds by decide) (show (0 : ℤ) < 1 by decide) ⟨by omega, by omega⟩ nofun
  refine ⟨hlast, fun hkept => ?_⟩
  have hsend : Sendable Torch.full 1000 (.int (2 ^ 64 - 1)) := hiff.mp hkept
  have hstop := hsend.encodable
  rw [Value.parts, List.findSome?_singleton, Part.stop, if_neg (by decide), stopValue, if_neg (by omega)] at hstop
  cases hstop

end ReplySession

end Rgpu.PyWire
