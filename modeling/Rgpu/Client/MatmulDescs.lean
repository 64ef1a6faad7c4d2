import Rgpu.Foundations.StepSystem
import Rgpu.Foundations.LittleEndian
import Mathlib.Logic.Function.Basic

/-! # Matrix multiply descriptors (`client/cublaslt_impl.cpp`)

A descriptor says how wide alpha and beta are, and whether they are values or pointers of the device. The client
needs both to send them, and keeps them in a record of its own: it notes an attribute before the call is sent,
and makes and erases an entry after the reply.

* **`DescState.note`**, **`LtDesc.after`** — an attribute at the client, and at the library.
* **`LtDescs.step`** — threads that create, set, destroy and multiply, and the server.
* **`LtDescs.matmul_reads`** — for every run in which what is noted is what the library does, in its order: at
  every matrix multiply alpha and beta are sent as the library reads them.
* **`LtDescs.refused_mode_noted`** — a run in which the library refuses what the client has noted. -/

namespace Rgpu

open Foundations

/-- `DescState`. The scale type is `CUDA_R_32F` at first. -/
structure DescState where
  scaleType : ℕ := 0
  devicePointers : Bool := false
  deriving DecidableEq, Repr

/-- `scalar_size`: the width of one alpha or beta value, by the number of its `cudaDataType_t`. -/
def scalarSize : ℕ → ℕ
  -- 64 bits, real and complex
  | 1 => 8
  | 5 => 16
  -- 32 bits: floating, signed and unsigned, and the complex ones
  | 0 | 10 | 12 => 4
  | 4 | 11 | 13 => 8
  -- 16 bits
  | 2 | 14 => 2
  | 6 | 15 => 4
  -- 8 bits
  | 3 | 8 => 1
  | 7 | 9 => 2
  -- unknown: four bytes are assumed
  | _ => 4

/-- The width in which alpha and beta are sent. -/
def DescState.width (st : DescState) : ℕ := scalarSize st.scaleType

/-- The attributes of a descriptor that matter here: `CUBLASLT_MATMUL_DESC_POINTER_MODE` and
`CUBLASLT_MATMUL_DESC_SCALE_TYPE`. -/
inductive LtAttr
  | pointerMode | scaleType | other
  deriving DecidableEq, Repr

/-- The `int32_t` at the start of a buffer. -/
def int32At (bytes : List UInt8) : ℕ := LittleEndian.value (bytes.take 4)

/-- `cublasLtMatmulDescSetAttribute` takes note of the call: the buffer is not null and long enough. -/
def LtAttr.notices : LtAttr → Option (List UInt8) → Bool
  | .other, _ | _, none => false
  | .pointerMode, some bytes | .scaleType, some bytes => 4 ≤ bytes.length

/-- What is noted on the way past. -/
def DescState.note (st : DescState) (attr : LtAttr) (buf : Option (List UInt8)) : DescState :=
  match attr, buf with
  | .pointerMode, some bytes =>
      -- `CUBLASLT_POINTER_MODE_HOST` is 0
      if 4 ≤ bytes.length then { st with devicePointers := int32At bytes ≠ 0 } else st
  | .scaleType, some bytes => if 4 ≤ bytes.length then { st with scaleType := int32At bytes } else st
  | _, _ => st

/-- A descriptor of the library. -/
structure LtDesc where
  scaleType : ℕ
  pointerMode : ℕ
  deriving DecidableEq, Repr

namespace LtDesc

/-- The library accepts the attribute, or refuses it. -/
def after (l : LtDesc) (accepted : Bool) (attr : LtAttr) (buf : Option (List UInt8)) : LtDesc :=
  match accepted, attr, buf with
  | true, .pointerMode, some bytes => { l with pointerMode := int32At bytes }
  | true, .scaleType, some bytes => { l with scaleType := int32At bytes }
  | _, _, _ => l

/-- The library reads alpha from the device. -/
def alphaOnDevice (l : LtDesc) : Bool := l.pointerMode ≠ 0

/-- `CUBLASLT_POINTER_MODE_ALPHA_DEVICE_VECTOR_BETA_HOST`. -/
def betaHost : ℕ := 4

/-- The library reads beta from the device. -/
def betaOnDevice (l : LtDesc) : Bool := l.pointerMode ≠ 0 && l.pointerMode ≠ betaHost

end LtDesc

/-- The record says of the descriptor what the library has. -/
def DescState.Shows (st : DescState) (l : LtDesc) : Prop :=
  st.scaleType = l.scaleType ∧ st.devicePointers = l.alphaOnDevice

/-- What is noted is what becomes of the descriptor if the library accepts just that. -/
theorem DescState.Shows.note {st : DescState} {l : LtDesc} (h : st.Shows l) (attr : LtAttr)
    (buf : Option (List UInt8)) : (st.note attr buf).Shows (l.after (attr.notices buf) attr buf) := by
  cases buf with
  | none => cases attr <;> exact h
  | some bytes =>
      cases attr with
      | other => exact h
      | pointerMode =>
          by_cases hlong : 4 ≤ bytes.length
          · have hnotices : LtAttr.pointerMode.notices (some bytes) = true := decide_eq_true hlong
            rw [DescState.note, if_pos hlong, hnotices]
            exact ⟨h.1, rfl⟩
          · have hnotices : LtAttr.pointerMode.notices (some bytes) = false := decide_eq_false hlong
            rw [DescState.note, if_neg hlong, hnotices]
            exact h
      | scaleType =>
          by_cases hlong : 4 ≤ bytes.length
          · have hnotices : LtAttr.scaleType.notices (some bytes) = true := decide_eq_true hlong
            rw [DescState.note, if_pos hlong, hnotices]
            exact ⟨rfl, h.2⟩
          · have hnotices : LtAttr.scaleType.notices (some bytes) = false := decide_eq_false hlong
            rw [DescState.note, if_neg hlong, hnotices]
            exact h

/-- Where a thread is in a call. -/
inductive LtPc
  | idle
  | creating (scaleType : ℕ)
  /-- The server has made the descriptor. -/
  | created (d scaleType : ℕ)
  | setting (d : ℕ) (attr : LtAttr) (buf : Option (List UInt8))
  | noted (d : ℕ) (attr : LtAttr) (buf : Option (List UInt8))
  | destroying (d : ℕ)
  /-- The server has answered. -/
  | erasing (d : ℕ)
  /-- Alpha and beta are sent, as the record says. -/
  | multiplying (d : ℕ) (st : DescState)
  deriving DecidableEq, Repr

/-- The thread is in a call on the descriptor, or is being given it. -/
def LtPc.At (d : ℕ) : LtPc → Prop
  | created d' _ | setting d' _ _ | noted d' _ _ | destroying d' | erasing d' | multiplying d' _ => d' = d
  | idle | creating _ => False

/-- An attribute that a thread has noted, and the server has still to set. -/
structure LtSet where
  thread : ℕ
  attr : LtAttr
  buf : Option (List UInt8)
  deriving DecidableEq, Repr

/-- The client and the server. `pending` is not in the code: what has been noted on a descriptor and is still to
be set, in order. -/
structure LtDescs where
  /-- `g_descs`. -/
  record : ℕ → Option DescState := fun _ => none
  server : ℕ → Option LtDesc := fun _ => none
  pc : ℕ → LtPc := fun _ => .idle
  pending : ℕ → List LtSet := fun _ => []

/-- What a thread does, and what the server does for it. `reported` says whether the client is told
`CUBLAS_STATUS_SUCCESS`. -/
inductive LtAction
  | create (t scaleType : ℕ)
  | serveCreate (t : ℕ) (made : Option ℕ) (reported : Bool)
  | record (t : ℕ)
  | set (t d : ℕ) (attr : LtAttr) (buf : Option (List UInt8))
  | note (t : ℕ)
  | serveSet (t : ℕ) (accepted : Bool)
  | destroy (t d : ℕ)
  | serveDestroy (t : ℕ) (applied : Bool)
  | erase (t : ℕ)
  | multiply (t d : ℕ)
  | serveMultiply (t : ℕ)
  deriving DecidableEq, Repr

namespace LtDescs

/-- `desc_state`. -/
def descState (s : LtDescs) (d : ℕ) : DescState := (s.record d).getD {}

/-- A thread goes on. -/
def setPc (s : LtDescs) (t : ℕ) (pc : LtPc) : LtDescs := { s with pc := Function.update s.pc t pc }

/-- An entry is written or erased. -/
def write (s : LtDescs) (d : ℕ) (entry : Option DescState) : LtDescs :=
  { s with record := Function.update s.record d entry }

/-- The server's descriptor is made, changed or destroyed. -/
def put (s : LtDescs) (d : ℕ) (desc : Option LtDesc) : LtDescs :=
  { s with server := Function.update s.server d desc }

/-- What is still to be set on a descriptor. -/
def setPending (s : LtDescs) (d : ℕ) (sets : List LtSet) : LtDescs :=
  { s with pending := Function.update s.pending d sets }

/-- One step. -/
def step (s : LtDescs) : LtAction → Option LtDescs
  | .create t scaleType =>
      match s.pc t with
      | .idle => some (s.setPc t (.creating scaleType))
      | _ => none
  | .serveCreate t made reported =>
      match s.pc t, made with
      | .creating _, none => some (s.setPc t .idle)
      | .creating scaleType, some d =>
          if (s.server d).isSome then none
          else
            let s := s.put d (some ⟨scaleType, 0⟩)
            if reported then some (s.setPc t (.created d scaleType)) else some (s.setPc t .idle)
      | _, _ => none
  | .record t =>
      match s.pc t with
      | .created d scaleType => some ((s.write d (some ⟨scaleType, false⟩)).setPc t .idle)
      | _ => none
  | .set t d attr buf =>
      match s.pc t with
      | .idle => some (s.setPc t (.setting d attr buf))
      | _ => none
  | .note t =>
      match s.pc t with
      | .setting d attr buf =>
          let entry := if buf.isSome then some ((s.descState d).note attr buf) else s.record d
          let sets := if attr.notices buf then s.pending d ++ [⟨t, attr, buf⟩] else s.pending d
          some (((s.write d entry).setPending d sets).setPc t (.noted d attr buf))
      | _ => none
  | .serveSet t accepted =>
      match s.pc t with
      | .noted d attr buf =>
          let s := s.setPending d ((s.pending d).filter fun p => p.thread ≠ t)
          match s.server d with
          | none => if accepted then none else some (s.setPc t .idle)
          | some l => some ((s.put d (some (l.after accepted attr buf))).setPc t .idle)
      | _ => none
  | .destroy t d =>
      match s.pc t with
      | .idle => some (s.setPc t (.destroying d))
      | _ => none
  | .serveDestroy t applied =>
      match s.pc t with
      | .destroying d =>
          if applied then
            if (s.server d).isSome then some ((s.put d none).setPc t (.erasing d)) else none
          else some (s.setPc t (.erasing d))
      | _ => none
  | .erase t =>
      match s.pc t with
      | .erasing d => some ((s.write d none).setPc t .idle)
      | _ => none
  | .multiply t d =>
      match s.pc t with
      | .idle => some (s.setPc t (.multiplying d (s.descState d)))
      | _ => none
  | .serveMultiply t =>
      match s.pc t with
      | .multiplying _ _ => some (s.setPc t .idle)
      | _ => none

/-- If there is such a descriptor, it has been returned: no thread is about to make its entry, and it
has one. -/
def Returned (s : LtDescs) (d : ℕ) : Prop :=
  (∀ u scaleType, s.pc u ≠ .created d scaleType) ∧ ((s.server d).isSome → (s.record d).isSome)

/-- What the library does is what is noted, in its order. A value is given to a new descriptor when
no call is on it, and reported unless nothing is recorded under it; and calls are made on what has been
returned. What becomes of a descriptor is what was noted; the attributes that are noted are set in the
order in which they were noted, and none of them is in flight beside a multiply; and beta is read from
where alpha is. A descriptor that is there can be destroyed. -/
def Careful (s : LtDescs) : LtAction → Prop
  | .serveCreate _ made reported => ∀ d ∈ made, (∀ u, ¬(s.pc u).At d) ∧ (reported = true ∨ s.record d = none)
  | .set _ d _ _ | .destroy _ d => s.Returned d
  | .note t => ∀ d attr buf, s.pc t = .setting d attr buf → attr.notices buf = true →
      ∀ u st, s.pc u ≠ .multiplying d st
  | .serveSet t accepted => ∀ d attr buf l, s.pc t = .noted d attr buf → s.server d = some l →
      (attr.notices buf = true → (s.pending d).head? = some ⟨t, attr, buf⟩) ∧
      l.after accepted attr buf = l.after (attr.notices buf) attr buf ∧
      (l.after accepted attr buf).pointerMode ≠ LtDesc.betaHost
  | .serveDestroy t applied => ∀ d, s.pc t = .destroying d → (s.server d).isSome → applied = true
  | .multiply _ d => s.Returned d ∧ s.pending d = []
  | .create _ _ | .record _ | .erase _ | .serveMultiply _ => True

/-! ### What is recorded is what the library has -/

/-- What becomes of a descriptor once all that has been noted is set. -/
def afterAll (l : LtDesc) (sets : List LtSet) : LtDesc :=
  sets.foldl (fun l p => l.after (p.attr.notices p.buf) p.attr p.buf) l

/-- A descriptor has just been made, or has never been returned, or its record is ahead of it by what is
pending. -/
structure Kept (s : LtDescs) : Prop where
  pending : ∀ d, ∀ p ∈ s.pending d, s.pc p.thread = .noted d p.attr p.buf
  notices : ∀ d, ∀ p ∈ s.pending d, p.attr.notices p.buf = true
  distinct : ∀ d, (s.pending d).Pairwise fun p q => p.thread ≠ q.thread
  created : ∀ t d scaleType, s.pc t = .created d scaleType →
    s.server d = some ⟨scaleType, 0⟩ ∧ ∀ u, u ≠ t → ¬(s.pc u).At d
  erasing : ∀ t d, s.pc t = .erasing d → s.server d = none
  shown : ∀ d l, s.server d = some l → (∃ t scaleType, s.pc t = .created d scaleType) ∨
    (s.record d = none ∧ ∀ u, ¬(s.pc u).At d) ∨ (s.descState d).Shows (afterAll l (s.pending d))
  multiplying : ∀ t d st l, s.pc t = .multiplying d st → s.server d = some l → s.pending d = [] ∧ st.Shows l
  sameSide : ∀ d l, s.server d = some l → l.pointerMode ≠ LtDesc.betaHost

/-- There are no descriptors in a process that has just begun. -/
theorem kept_init : Kept {} :=
  ⟨fun _ _ h => (by cases h), fun _ _ h => (by cases h), fun _ => List.Pairwise.nil, fun _ _ _ h => (by cases h),
    fun _ _ _ => rfl, fun _ _ h => (by cases h), fun _ _ _ _ h => (by cases h), fun _ _ h => (by cases h)⟩

section Steps

variable {s : LtDescs} {t d : ℕ}

/-- Moving a thread moves no other. -/
@[simp] theorem pc_setPc (s : LtDescs) (t : ℕ) (pc : LtPc) (u : ℕ) :
    (s.setPc t pc).pc u = if u = t then pc else s.pc u := Function.update_apply _ _ _ _

/-- What the library makes of a descriptor is of no other. -/
@[simp] theorem server_put (s : LtDescs) (d : ℕ) (desc : Option LtDesc) (g : ℕ) :
    (s.put d desc).server g = if g = d then desc else s.server g := Function.update_apply _ _ _ _

/-- Writing an entry writes no other. -/
@[simp] theorem record_write (s : LtDescs) (d : ℕ) (entry : Option DescState) (g : ℕ) :
    (s.write d entry).record g = if g = d then entry else s.record g := Function.update_apply _ _ _ _

/-- What is in flight for a descriptor is for no other. -/
@[simp] theorem pending_setPending (s : LtDescs) (d : ℕ) (sets : List LtSet) (g : ℕ) :
    (s.setPending d sets).pending g = if g = d then sets else s.pending g := Function.update_apply _ _ _ _

/-- No thread makes the entry of a descriptor that another is at. -/
theorem Kept.not_created (hs : s.Kept) (hat : (s.pc t).At d) (hpc : ∀ scaleType, s.pc t ≠ .created d scaleType)
    (u scaleType : ℕ) : s.pc u ≠ .created d scaleType := by
  intro hu
  refine (hs.created u d scaleType hu).2 t ?_ hat
  rintro rfl
  exact hpc scaleType hu

/-- What a thread is about to do that is not what this one has come to, it was about to do before. -/
theorem pc_of_setPc {pc pc' : LtPc} {u : ℕ} (hu : (s.setPc t pc).pc u = pc') (hne : pc' ≠ pc) : s.pc u = pc' := by
  rw [pc_setPc] at hu
  split at hu
  · exact absurd hu.symm hne
  · exact hu

/-- A thread that has come to no descriptor is where it was, as all others are. -/
theorem at_of_setPc {pc : LtPc} (hat : ∀ g, pc.At g → (s.pc t).At g) (u g : ℕ) (hu : ((s.setPc t pc).pc u).At g) :
    (s.pc u).At g := by
  rw [pc_setPc] at hu
  split at hu
  · rename_i hut
    rw [hut]
    exact hat g hu
  · exact hu

/-- The record still says what it did of a descriptor for which it has not changed. -/
theorem Kept.shown_elsewhere (hs : s.Kept) {s' : LtDescs} {g : ℕ} {l : LtDesc}
    (hcreated : ∀ scaleType, s.pc t ≠ .created g scaleType) (hpcs : ∀ u, u ≠ t → s'.pc u = s.pc u)
    (hat : ∀ u, (s'.pc u).At g → (s.pc u).At g) (hrecord : s'.record g = s.record g)
    (hpending : s'.pending g = s.pending g) (hl : s.server g = some l) :
    (∃ u scaleType, s'.pc u = .created g scaleType) ∨ (s'.record g = none ∧ ∀ u, ¬(s'.pc u).At g) ∨
      (s'.descState g).Shows (afterAll l (s'.pending g)) := by
  have hstate : s'.descState g = s.descState g := congrArg (fun o => o.getD {}) hrecord
  rcases hs.shown g l hl with ⟨u, scaleType, hu⟩ | ⟨hnone, hnot⟩ | hshows
  · have hne : u ≠ t := by
      rintro rfl
      exact hcreated scaleType hu
    exact Or.inl ⟨u, scaleType, (hpcs u hne).trans hu⟩
  · exact Or.inr (Or.inl ⟨hrecord.trans hnone, fun u hu => hnot u (hat u hu)⟩)
  · rw [hpending, hstate]
    exact Or.inr (Or.inr hshows)

/-- A call begins, or goes on without having set or made anything. -/
theorem Kept.setPc (hs : s.Kept) {pc : LtPc} (hnoted : ∀ d attr buf, s.pc t ≠ .noted d attr buf)
    (hcreated : ∀ d scaleType, s.pc t ≠ .created d scaleType ∧ pc ≠ .created d scaleType)
    (herasing : ∀ d, pc = .erasing d → s.server d = none) (hat : ∀ d, pc.At d → s.Returned d)
    (hmultiplying : ∀ d st l, pc = .multiplying d st → s.server d = some l → s.pending d = [] ∧ st.Shows l) :
    (s.setPc t pc).Kept := by
  refine ⟨fun d p hp => ?_, hs.notices, hs.distinct, fun u d scaleType hu => ?_, fun u d hu => ?_, fun d l hl => ?_,
    fun u d st l hu hl => ?_, hs.sameSide⟩
  · have hthread := hs.pending d p hp
    have hne : p.thread ≠ t := by
      intro heq
      rw [heq] at hthread
      exact hnoted _ _ _ hthread
    rw [pc_setPc, if_neg hne]
    exact hthread
  · rw [pc_setPc] at hu
    split at hu
    · exact absurd hu (hcreated d scaleType).2
    · obtain ⟨hserver, halone⟩ := hs.created u d scaleType hu
      refine ⟨hserver, fun w hw hwat => ?_⟩
      rw [pc_setPc] at hwat
      split at hwat
      · exact (hat d hwat).1 u scaleType hu
      · exact halone w hw hwat
  · rw [pc_setPc] at hu
    split at hu
    · exact herasing d hu
    · exact hs.erasing u d hu
  · rcases hs.shown d l hl with ⟨u, scaleType, hu⟩ | ⟨hrecord, hnone⟩ | hshows
    · refine Or.inl ⟨u, scaleType, ?_⟩
      rw [pc_setPc, if_neg]
      · exact hu
      · rintro rfl
        exact (hcreated d scaleType).1 hu
    · refine Or.inr (Or.inl ⟨hrecord, fun u hu => ?_⟩)
      rw [pc_setPc] at hu
      split at hu
      · have hsome := (hat d hu).2 (Option.isSome_of_mem hl)
        rw [hrecord] at hsome
        cases hsome
      · exact hnone u hu
    · exact Or.inr (Or.inr hshows)
  · rw [pc_setPc] at hu
    split at hu
    · exact hmultiplying d st l hu hl
    · exact hs.multiplying u d st l hu hl

/-- An entry of no descriptor is erased. -/
theorem Kept.erase (hs : s.Kept) (hnone : s.server d = none) : (s.write d none).Kept := by
  refine ⟨hs.pending, hs.notices, hs.distinct, hs.created, hs.erasing, fun g l hl => ?_, hs.multiplying, hs.sameSide⟩
  have hgd : g ≠ d := by
    rintro rfl
    rw [show s.server g = some l from hl] at hnone
    cases hnone
  have hrecord : (s.write d none).record g = s.record g := Function.update_of_ne hgd _ _
  have hstate : (s.write d none).descState g = s.descState g := congrArg (fun o => o.getD {}) hrecord
  rw [hstate, hrecord]
  exact hs.shown g l hl

/-- A descriptor that no thread is being given is destroyed. -/
theorem Kept.destroy (hs : s.Kept) (hnot : ∀ u scaleType, s.pc u ≠ .created d scaleType) : (s.put d none).Kept := by
  have hother : ∀ g l, (s.put d none).server g = some l → s.server g = some l := by
    intro g l hl
    rw [server_put] at hl
    split at hl
    · cases hl
    · exact hl
  refine ⟨hs.pending, hs.notices, hs.distinct, fun u g scaleType hu => ?_, fun u g hu => ?_,
    fun g l hl => hs.shown g l (hother g l hl), fun u g st l hu hl => hs.multiplying u g st l hu (hother g l hl),
    fun g l hl => hs.sameSide g l (hother g l hl)⟩
  · have hgd : g ≠ d := by
      rintro rfl
      exact hnot u scaleType hu
    rw [server_put, if_neg hgd]
    exact hs.created u g scaleType hu
  · have hnone := hs.erasing u g hu
    rw [server_put]
    split
    · rfl
    · exact hnone

/-- A descriptor is made, under a value that no call is on. -/
theorem Kept.create (hs : s.Kept) {scaleType : ℕ} {reported : Bool} (hpc : s.pc t = .creating scaleType)
    (hnone : ∀ u, ¬(s.pc u).At d) (hreported : reported = true ∨ s.record d = none) :
    ((s.put d (some ⟨scaleType, 0⟩)).setPc t (if reported then .created d scaleType else .idle)).Kept := by
  have hother : ∀ g, g ≠ d → (s.put d (some ⟨scaleType, 0⟩)).server g = s.server g :=
    fun g hgd => Function.update_of_ne hgd _ _
  have hself : (s.put d (some ⟨scaleType, 0⟩)).server d = some ⟨scaleType, 0⟩ := Function.update_self _ _ _
  -- the thread is at the new descriptor or done, and every other one is where it was
  have hnew : ∀ u, u = t ∧
      (((s.put d (some ⟨scaleType, 0⟩)).setPc t (if reported then .created d scaleType else .idle)).pc u =
          .created d scaleType ∨
        ((s.put d (some ⟨scaleType, 0⟩)).setPc t (if reported then .created d scaleType else .idle)).pc u = .idle) ∨
      u ≠ t ∧
        ((s.put d (some ⟨scaleType, 0⟩)).setPc t (if reported then .created d scaleType else .idle)).pc u =
          s.pc u := by
    intro u
    by_cases hut : u = t
    · refine Or.inl ⟨hut, ?_⟩
      rw [pc_setPc, if_pos hut]
      cases reported with
      | true => exact Or.inl rfl
      | false => exact Or.inr rfl
    · exact Or.inr ⟨hut, by rw [pc_setPc, if_neg hut]; rfl⟩
  refine ⟨fun g p hp => ?_, hs.notices, hs.distinct, fun u g sc hu => ?_, fun u g hu => ?_, fun g l hl => ?_,
    fun u g st l hu hl => ?_, fun g l hl => ?_⟩
  · have hthread := hs.pending g p hp
    have hne : p.thread ≠ t := by
      intro heq
      rw [heq, hpc] at hthread
      cases hthread
    rw [pc_setPc, if_neg hne]
    exact hthread
  · rcases hnew u with ⟨rfl, heq | heq⟩ | ⟨hut, heq⟩
    · rw [heq] at hu
      obtain ⟨rfl, rfl⟩ := LtPc.created.inj hu
      refine ⟨hself, fun w hw => ?_⟩
      rw [pc_setPc, if_neg hw]
      exact hnone w
    · rw [heq] at hu
      cases hu
    · rw [heq] at hu
      have hgd : g ≠ d := by
        rintro rfl
        refine hnone u ?_
        rw [hu]
        exact rfl
      obtain ⟨hserver, halone⟩ := hs.created u g sc hu
      refine ⟨(hother g hgd).trans hserver, fun w hw hwat => ?_⟩
      rcases hnew w with ⟨-, heq | heq⟩ | ⟨-, heq⟩
      · rw [heq] at hwat
        exact hgd hwat.symm
      · rw [heq] at hwat
        exact hwat
      · rw [heq] at hwat
        exact halone w hw hwat
  · rcases hnew u with ⟨-, heq | heq⟩ | ⟨-, heq⟩
    · rw [heq] at hu
      cases hu
    · rw [heq] at hu
      cases hu
    · rw [heq] at hu
      have hgd : g ≠ d := by
        rintro rfl
        refine hnone u ?_
        rw [hu]
        exact rfl
      exact (hother g hgd).trans (hs.erasing u g hu)
  · by_cases hgd : g = d
    · subst hgd
      cases hmade : reported with
      | true => exact Or.inl ⟨t, scaleType, by rw [pc_setPc, if_pos rfl]; rfl⟩
      | false =>
          rw [hmade] at hnew
          refine Or.inr (Or.inl ⟨hreported.resolve_left (by simp [hmade]), fun u hu => ?_⟩)
          by_cases hut : u = t
          · rw [pc_setPc, if_pos hut] at hu
            exact hu
          · rw [pc_setPc, if_neg hut] at hu
            exact hnone u hu
    · have hl' : s.server g = some l := (hother g hgd).symm.trans hl
      rcases hs.shown g l hl' with ⟨u, sc, hu⟩ | ⟨hrecord, hnone'⟩ | hshows
      · refine Or.inl ⟨u, sc, ?_⟩
        rw [pc_setPc, if_neg]
        · exact hu
        · rintro rfl
          rw [hpc] at hu
          cases hu
      · refine Or.inr (Or.inl ⟨hrecord, fun u hu => ?_⟩)
        rcases hnew u with ⟨-, heq | heq⟩ | ⟨-, heq⟩
        · rw [heq] at hu
          exact hgd hu.symm
        · rw [heq] at hu
          exact hu
        · rw [heq] at hu
          exact hnone' u hu
      · exact Or.inr (Or.inr hshows)
  · rcases hnew u with ⟨-, heq | heq⟩ | ⟨-, heq⟩
    · rw [heq] at hu
      cases hu
    · rw [heq] at hu
      cases hu
    · rw [heq] at hu
      have hgd : g ≠ d := by
        rintro rfl
        refine hnone u ?_
        rw [hu]
        exact rfl
      exact hs.multiplying u g st l hu ((hother g hgd).symm.trans hl)
  · by_cases hgd : g = d
    · subst hgd
      obtain rfl := Option.some.inj (hself.symm.trans hl)
      exact fun heq => (by cases heq)
    · exact hs.sameSide g l ((hother g hgd).symm.trans hl)

/-- The entry of a new descriptor is made. -/
theorem Kept.record (hs : s.Kept) {scaleType : ℕ} (hpc : s.pc t = .created d scaleType) :
    ((s.write d (some ⟨scaleType, false⟩)).setPc t .idle).Kept := by
  obtain ⟨hserver, halone⟩ := hs.created t d scaleType hpc
  have hempty : s.pending d = [] := by
    rw [List.eq_nil_iff_forall_not_mem]
    intro p hp
    have hthread := hs.pending d p hp
    refine halone p.thread (fun heq => ?_) (by rw [hthread]; exact rfl)
    rw [heq, hpc] at hthread
    cases hthread
  have hat : ∀ u g, (((s.write d (some ⟨scaleType, false⟩)).setPc t .idle).pc u).At g → (s.pc u).At g :=
    at_of_setPc fun _ h => h.elim
  have hsame : ∀ u pc', ((s.write d (some ⟨scaleType, false⟩)).setPc t .idle).pc u = pc' → pc' ≠ .idle →
      s.pc u = pc' := fun _ _ => pc_of_setPc
  refine ⟨fun g p hp => ?_, hs.notices, hs.distinct, fun u g sc hu => ?_,
    fun u g hu => hs.erasing u g (hsame u _ hu (by simp)), fun g l hl => ?_,
    fun u g st l hu hl => hs.multiplying u g st l (hsame u _ hu (by simp)) hl, hs.sameSide⟩
  · have hthread := hs.pending g p hp
    have hne : p.thread ≠ t := by
      intro heq
      rw [heq, hpc] at hthread
      cases hthread
    rw [pc_setPc, if_neg hne]
    exact hthread
  · obtain ⟨hserver', halone'⟩ := hs.created u g sc (hsame u _ hu (by simp))
    exact ⟨hserver', fun w hw hwat => halone' w hw (hat w g hwat)⟩
  · by_cases hgd : g = d
    · subst hgd
      obtain rfl := Option.some.inj (hserver.symm.trans hl)
      have hstate : ((s.write g (some ⟨scaleType, false⟩)).setPc t .idle).descState g = ⟨scaleType, false⟩ :=
        congrArg (fun o => o.getD {}) (Function.update_self g (some ⟨scaleType, false⟩) s.record)
      have hpending : ((s.write g (some ⟨scaleType, false⟩)).setPc t .idle).pending g = [] := hempty
      rw [hstate, hpending]
      exact Or.inr (Or.inr ⟨rfl, rfl⟩)
    · refine hs.shown_elsewhere (t := t) ?_ (fun u hu => ?_) (fun u => hat u g) (Function.update_of_ne hgd _ _) rfl hl
      · intro sc hcreated
        rw [hpc] at hcreated
        exact hgd (LtPc.created.inj hcreated).1.symm
      · rw [pc_setPc, if_neg hu]
        rfl

/-- A library that takes nothing leaves the descriptor as it is. -/
theorem after_false (l : LtDesc) (attr : LtAttr) (buf : Option (List UInt8)) : l.after false attr buf = l := by
  cases attr <;> cases buf <;> rfl

/-- What is in flight once a thread has gone past the note: what was, and its own set if the client took note of
it. -/
theorem mem_noted {attr : LtAttr} {buf : Option (List UInt8)} {sets : List LtSet} {p : LtSet}
    (hp : p ∈ if attr.notices buf then sets ++ [⟨t, attr, buf⟩] else sets) :
    p ∈ sets ∨ p = ⟨t, attr, buf⟩ ∧ attr.notices buf = true := by
  split at hp
  · rename_i hnotices
    rcases List.mem_append.mp hp with hp | hp
    · exact .inl hp
    · exact .inr ⟨List.mem_singleton.mp hp, hnotices⟩
  · exact .inl hp

/-- What is noted shows what becomes of the descriptor once it is set as well. -/
theorem shows_noted {st : DescState} {l : LtDesc} {sets : List LtSet} (h : st.Shows (afterAll l sets)) (t : ℕ)
    (attr : LtAttr) (buf : Option (List UInt8)) :
    (st.note attr buf).Shows (afterAll l (if attr.notices buf then sets ++ [⟨t, attr, buf⟩] else sets)) := by
  have hnoted := h.note attr buf
  cases hnotices : attr.notices buf with
  | true =>
      rw [if_pos rfl, afterAll, List.foldl_append]
      exact hnoted
  | false =>
      rw [hnotices, after_false] at hnoted
      exact hnoted

/-- An attribute is noted, or passed over. -/
theorem Kept.note (hs : s.Kept) {attr : LtAttr} {buf : Option (List UInt8)} {entry : Option DescState}
    (hpc : s.pc t = .setting d attr buf) (hentry : entry.getD {} = (s.descState d).note attr buf)
    (hmultiplying : attr.notices buf = true → ∀ u st, s.pc u ≠ .multiplying d st) :
    (((s.write d entry).setPending d
      (if attr.notices buf then s.pending d ++ [⟨t, attr, buf⟩] else s.pending d)).setPc t
        (.noted d attr buf)).Kept := by
  have hfree : ∀ g, ∀ p ∈ s.pending g, p.thread ≠ t := by
    intro g p hp heq
    have hthread := hs.pending g p hp
    rw [heq, hpc] at hthread
    cases hthread
  generalize hs' : ((s.write d entry).setPending d
    (if attr.notices buf then s.pending d ++ [⟨t, attr, buf⟩] else s.pending d)).setPc t (.noted d attr buf) = s'
  have hself : s'.pending d = if attr.notices buf then s.pending d ++ [⟨t, attr, buf⟩] else s.pending d := by
    rw [← hs']
    exact Function.update_self _ _ _
  have hother : ∀ g, g ≠ d → s'.pending g = s.pending g := by
    intro g hgd
    rw [← hs']
    exact Function.update_of_ne hgd _ _
  have hpcs : ∀ u, s'.pc u = if u = t then .noted d attr buf else s.pc u := by
    intro u
    rw [← hs']
    exact pc_setPc _ _ _ _
  have hserver : s'.server = s.server := by
    rw [← hs']
    rfl
  have hat : ∀ u g, (s'.pc u).At g → (s.pc u).At g := by
    rw [← hs']
    apply at_of_setPc
    intro g hg
    show (s.pc t).At g
    rw [hpc]
    exact hg
  -- a thread that has not just gone past the note is where it was
  have hsame : ∀ u pc', s'.pc u = pc' → pc' ≠ .noted d attr buf → s.pc u = pc' := by
    rw [← hs']
    exact fun _ _ => pc_of_setPc
  have hmem : ∀ g, ∀ p ∈ s'.pending g, p ∈ s.pending g ∨ g = d ∧ p = ⟨t, attr, buf⟩ ∧ attr.notices buf = true := by
    intro g p hp
    by_cases hgd : g = d
    · subst hgd
      rw [hself] at hp
      exact (mem_noted hp).imp_right fun hnew => ⟨rfl, hnew⟩
    · rw [hother g hgd] at hp
      exact .inl hp
  refine ⟨fun g p hp => ?_, fun g p hp => ?_, fun g => ?_, fun u g sc hu => ?_, fun u g hu => ?_,
    fun g l hl => ?_, fun u g st l hu hl => ?_, fun g l hl => ?_⟩
  · rcases hmem g p hp with hold | ⟨rfl, rfl, -⟩
    · rw [hpcs, if_neg (hfree g p hold)]
      exact hs.pending g p hold
    · rw [hpcs, if_pos rfl]
  · rcases hmem g p hp with hold | ⟨-, rfl, hnotices⟩
    · exact hs.notices g p hold
    · exact hnotices
  · by_cases hgd : g = d
    · rw [hgd, hself]
      split
      · refine List.pairwise_append.mpr ⟨hs.distinct d, List.pairwise_singleton _ _, fun p hp q hq => ?_⟩
        rw [List.mem_singleton.mp hq]
        exact hfree d p hp
      · exact hs.distinct d
    · rw [hother g hgd]
      exact hs.distinct g
  · obtain ⟨hfound, halone⟩ := hs.created u g sc (hsame u _ hu (by simp))
    rw [hserver]
    exact ⟨hfound, fun w hw hwat => halone w hw (hat w g hwat)⟩
  · rw [hserver]
    exact hs.erasing u g (hsame u _ hu (by simp))
  · rw [hserver] at hl
    by_cases hgd : g = d
    · subst hgd
      have hstate : s'.descState g = (s.descState g).note attr buf := by
        rw [← hs']
        exact (congrArg (fun o => o.getD {}) (Function.update_self g entry s.record)).trans hentry
      have hatt : (s.pc t).At g := by
        rw [hpc]
        exact rfl
      -- the note goes behind those that are on their way, and the entry has it already
      rcases hs.shown g l hl with ⟨u, sc, hu⟩ | ⟨-, hnot⟩ | hshows
      · exact absurd hu (hs.not_created hatt (by rw [hpc]; simp) u sc)
      · exact absurd hatt (hnot t)
      · rw [hself, hstate]
        exact Or.inr (Or.inr (shows_noted hshows t attr buf))
    · have hrecord : s'.record g = s.record g := by
        rw [← hs']
        exact Function.update_of_ne hgd _ _
      refine hs.shown_elsewhere (t := t) ?_ (fun u hu => ?_) (fun u => hat u g) hrecord (hother g hgd) hl
      · intro sc hcreated
        rw [hpc] at hcreated
        cases hcreated
      · rw [hpcs, if_neg hu]
  · rw [hserver] at hl
    obtain ⟨hempty, hshows⟩ := hs.multiplying u g st l (hsame u _ hu (by simp)) hl
    refine ⟨?_, hshows⟩
    by_cases hgd : g = d
    · subst hgd
      -- what is set beside a multiply is nothing that the client takes note of
      have hpassed : ¬ attr.notices buf = true := fun hnotices =>
        hmultiplying hnotices u st (hsame u _ hu (by simp))
      rw [hself, if_neg hpassed]
      exact hempty
    · rw [hother g hgd]
      exact hempty
  · rw [hserver] at hl
    exact hs.sameSide g l hl

/-- The set that was first is done, or it was none that the client took note of: the record is ahead by the rest. -/
theorem Kept.shows_served (hs : s.Kept) {attr : LtAttr} {buf : Option (List UInt8)} {st : DescState} {l : LtDesc}
    (hpc : s.pc t = .noted d attr buf)
    (hhead : attr.notices buf = true → (s.pending d).head? = some ⟨t, attr, buf⟩)
    (hshows : st.Shows (afterAll l (s.pending d))) :
    st.Shows (afterAll (l.after (attr.notices buf) attr buf)
      ((s.pending d).filter fun p => p.thread ≠ t)) := by
  cases hnotices : attr.notices buf with
  | true =>
      have hfirst := hhead hnotices
      cases hsets : s.pending d with
      | nil =>
          rw [hsets] at hfirst
          cases hfirst
      | cons p rest =>
          rw [hsets] at hfirst hshows
          obtain rfl := Option.some.inj hfirst
          have hdistinct := hs.distinct d
          rw [hsets] at hdistinct
          have hrest : List.filter (fun p => decide (p.thread ≠ t)) (⟨t, attr, buf⟩ :: rest) = rest := by
            rw [List.filter_cons_of_neg (by simp), List.filter_eq_self]
            exact fun q hq => decide_eq_true ((List.pairwise_cons.mp hdistinct).1 q hq).symm
          rw [hrest]
          rw [afterAll, List.foldl_cons, hnotices] at hshows
          exact hshows
  | false =>
      -- nothing of what is pending is this thread's
      have hrest : List.filter (fun p => decide (p.thread ≠ t)) (s.pending d) = s.pending d := by
        rw [List.filter_eq_self]
        intro p hp
        refine decide_eq_true fun heq => ?_
        have hthread := hs.pending d p hp
        rw [heq, hpc] at hthread
        obtain ⟨-, hattr, hbuf⟩ := LtPc.noted.inj hthread
        have hnoticed := hs.notices d p hp
        rw [← hattr, ← hbuf, hnotices] at hnoticed
        cases hnoticed
      rw [hrest, after_false]
      exact hshows

/-- The server has answered a set: what it has made of the descriptor, if that is there, is what was noted. -/
theorem Kept.served (hs : s.Kept) {attr : LtAttr} {buf : Option (List UInt8)} {desc : Option LtDesc}
    (hpc : s.pc t = .noted d attr buf)
    (hsome : ∀ l', desc = some l' → ∃ l, s.server d = some l ∧
      (attr.notices buf = true → (s.pending d).head? = some ⟨t, attr, buf⟩) ∧
      l' = l.after (attr.notices buf) attr buf ∧ l'.pointerMode ≠ LtDesc.betaHost) :
    (((s.setPending d ((s.pending d).filter fun p => p.thread ≠ t)).put d desc).setPc t .idle).Kept := by
  have hatt : (s.pc t).At d := by
    rw [hpc]
    exact rfl
  have hnotcreated := hs.not_created hatt (by rw [hpc]; simp)
  have hserver : ∀ g, (((s.setPending d ((s.pending d).filter fun p => p.thread ≠ t)).put d desc).setPc t
      .idle).server g = if g = d then desc else s.server g := fun g => Function.update_apply _ _ _ _
  have hpending : ∀ g, (((s.setPending d ((s.pending d).filter fun p => p.thread ≠ t)).put d desc).setPc t
      .idle).pending g = if g = d then (s.pending d).filter fun p => p.thread ≠ t else s.pending g :=
    fun g => Function.update_apply _ _ _ _
  have hat : ∀ u g, ((((s.setPending d ((s.pending d).filter fun p => p.thread ≠ t)).put d desc).setPc t
      .idle).pc u).At g → (s.pc u).At g := at_of_setPc fun _ h => h.elim
  have hsame : ∀ u pc', (((s.setPending d ((s.pending d).filter fun p => p.thread ≠ t)).put d desc).setPc t
      .idle).pc u = pc' → pc' ≠ .idle → s.pc u = pc' := fun _ _ => pc_of_setPc
  refine ⟨fun g p hp => ?_, fun g p hp => ?_, fun g => ?_, fun u g sc hu => ?_, fun u g hu => ?_, fun g l hl => ?_,
    fun u g st l hu hl => ?_, fun g l hl => ?_⟩
  · rw [hpending] at hp
    have hthread : s.pc p.thread = .noted g p.attr p.buf ∧ p.thread ≠ t := by
      split at hp
      · rename_i hgd
        subst hgd
        obtain ⟨hp, hne⟩ := List.mem_filter.mp hp
        exact ⟨hs.pending g p hp, of_decide_eq_true hne⟩
      · rename_i hgd
        refine ⟨hs.pending g p hp, fun heq => ?_⟩
        have hnoted := hs.pending g p hp
        rw [heq, hpc] at hnoted
        exact hgd (LtPc.noted.inj hnoted).1.symm
    rw [pc_setPc, if_neg hthread.2]
    exact hthread.1
  · rw [hpending] at hp
    split at hp
    · exact hs.notices d p (List.mem_filter.mp hp).1
    · exact hs.notices g p hp
  · rw [hpending]
    split
    · exact (hs.distinct d).filter _
    · exact hs.distinct g
  · have hu' := hsame u _ hu (by simp)
    obtain ⟨hfound, halone⟩ := hs.created u g sc hu'
    have hgd : g ≠ d := by
      rintro rfl
      exact hnotcreated u sc hu'
    rw [hserver, if_neg hgd]
    exact ⟨hfound, fun w hw hwat => halone w hw (hat w g hwat)⟩
  · have hnone := hs.erasing u g (hsame u _ hu (by simp))
    rw [hserver]
    split
    · rename_i hgd
      subst hgd
      cases hdesc : desc with
      | none => rfl
      | some l' =>
          obtain ⟨l, hl, -⟩ := hsome l' hdesc
          rw [hnone] at hl
          cases hl
    · exact hnone
  · rw [hserver] at hl
    rw [hpending]
    split at hl
    · rename_i hgd
      subst hgd
      obtain ⟨l', hl', hhead, rfl, -⟩ := hsome l hl
      -- the record is ahead by what is pending, and the first of that is now the library's
      rw [if_pos rfl]
      rcases hs.shown g l' hl' with ⟨u, sc, hu⟩ | ⟨-, hnot⟩ | hshows
      · exact absurd hu (hnotcreated u sc)
      · exact absurd hatt (hnot t)
      · exact Or.inr (Or.inr (hs.shows_served hpc hhead hshows))
    · rename_i hgd
      rw [← hpending]
      refine hs.shown_elsewhere (t := t) ?_ (fun u hu => ?_) (fun u => hat u g) rfl ((hpending g).trans (if_neg hgd)) hl
      · intro sc hcreated
        rw [hpc] at hcreated
        cases hcreated
      · rw [pc_setPc, if_neg hu]
        rfl
  · have hu' := hsame u _ hu (by simp)
    rw [hserver] at hl
    rw [hpending]
    split at hl
    · rename_i hgd
      subst hgd
      obtain ⟨l', hl', hhead, rfl, -⟩ := hsome l hl
      obtain ⟨hempty, hshows⟩ := hs.multiplying u g st l' hu' hl'
      rw [if_pos rfl, hempty]
      refine ⟨rfl, ?_⟩
      cases hnotices : attr.notices buf with
      | true =>
          have hfirst := hhead hnotices
          rw [hempty] at hfirst
          cases hfirst
      | false =>
          rw [after_false]
          exact hshows
    · rename_i hgd
      rw [if_neg hgd]
      exact hs.multiplying u g st l hu' hl
  · rw [hserver] at hl
    split at hl
    · obtain ⟨-, -, -, -, hside⟩ := hsome l hl
      exact hside
    · exact hs.sameSide g l hl

/-- What becomes of the entry when an attribute is noted. -/
theorem note_entry (s : LtDescs) (d : ℕ) (attr : LtAttr) (buf : Option (List UInt8)) :
    (if buf.isSome then some ((s.descState d).note attr buf) else s.record d).getD {} =
      (s.descState d).note attr buf := by
  cases buf with
  | none => cases attr <;> rfl
  | some bytes => rfl

/-- The library makes a descriptor, or refuses, and the client is told or not. -/
theorem Kept.step_serveCreate (hs : s.Kept) {made : Option ℕ} {reported : Bool} {s' : LtDescs}
    (hcareful : s.Careful (.serveCreate t made reported))
    (hstep : s.step (.serveCreate t made reported) = some s') : s'.Kept := by
  unfold LtDescs.step at hstep
  dsimp only at hstep
  split at hstep
  · rename_i hpc
    rw [← Option.some.inj hstep]
    exact hs.setPc (by rw [hpc]; simp) (by rw [hpc]; simp) (by simp) (fun _ hat => hat.elim) (by simp)
  · rename_i scaleType d hpc
    split at hstep
    · cases hstep
    · obtain ⟨hnone, hreported⟩ := hcareful d rfl
      have hcreated := hs.create hpc hnone hreported
      cases reported with
      | true =>
          rw [← Option.some.inj hstep]
          exact hcreated
      | false =>
          rw [← Option.some.inj hstep]
          exact hcreated
  · cases hstep

/-- The library takes the first of the sets that were noted, as it was noted, or has no such descriptor. -/
theorem Kept.step_serveSet (hs : s.Kept) {accepted : Bool} {s' : LtDescs} (hcareful : s.Careful (.serveSet t accepted))
    (hstep : s.step (.serveSet t accepted) = some s') : s'.Kept := by
  unfold LtDescs.step at hstep
  dsimp only at hstep
  split at hstep
  · rename_i d attr buf hpc
    split at hstep
    · rename_i hserver
      have hnone : s.server d = none := hserver
      split at hstep
      · cases hstep
      · rw [← Option.some.inj hstep]
        -- there is no such descriptor, so that the server had nothing to set and has nothing now
        have hserved : (((s.setPending d ((s.pending d).filter fun p => p.thread ≠ t)).put d none).setPc t
            .idle).Kept := hs.served hpc fun l' hl' => (by cases hl')
        have hput : (s.setPending d ((s.pending d).filter fun p => p.thread ≠ t)).put d none =
            s.setPending d ((s.pending d).filter fun p => p.thread ≠ t) := by
          have hsame : Function.update s.server d none = s.server := by
            rw [← hnone]
            exact Function.update_eq_self d s.server
          rw [put, setPending, hsame]
        rw [hput] at hserved
        exact hserved
    · rename_i l hserver
      -- this was the first of the pending sets, and the library took it as it was noted
      have hl : s.server d = some l := hserver
      obtain ⟨hhead, hafter, hside⟩ := hcareful d attr buf l hpc hl
      rw [← Option.some.inj hstep]
      refine hs.served hpc fun l' hl' => ⟨l, hl, hhead, ?_, ?_⟩
      · rw [← Option.some.inj hl']
        exact hafter
      · rw [← Option.some.inj hl']
        exact hside
  · cases hstep

/-- The library destroys a descriptor that is there. -/
theorem Kept.step_serveDestroy (hs : s.Kept) {applied : Bool} {s' : LtDescs}
    (hcareful : s.Careful (.serveDestroy t applied))
    (hstep : s.step (.serveDestroy t applied) = some s') : s'.Kept := by
  unfold LtDescs.step at hstep
  dsimp only at hstep
  split at hstep
  · rename_i d hpc
    have hatt : (s.pc t).At d := by
      rw [hpc]
      exact rfl
    have hnot := hs.not_created hatt (by rw [hpc]; simp)
    split at hstep
    · split at hstep
      · rw [← Option.some.inj hstep]
        have hdestroyed := hs.destroy hnot
        have hgone : (s.put d none).server d = none := Function.update_self _ _ _
        have hpc' : (s.put d none).pc t = .destroying d := hpc
        refine hdestroyed.setPc (by rw [hpc']; simp) (by rw [hpc']; simp) (fun g hg => ?_) (fun g hat => ?_)
          (by simp)
        · obtain rfl := LtPc.erasing.inj hg
          exact hgone
        · obtain rfl : d = g := hat
          refine ⟨hnot, fun hfound => ?_⟩
          rw [hgone] at hfound
          cases hfound
      · cases hstep
    · rename_i hnotapplied
      rw [← Option.some.inj hstep]
      -- a destroy that is not applied was of a descriptor that had gone already
      have hnone : s.server d = none := by
        rw [← Option.not_isSome_iff_eq_none]
        exact fun hfound => hnotapplied (hcareful d hpc hfound)
      refine hs.setPc (by rw [hpc]; simp) (by rw [hpc]; simp) (fun g hg => ?_) (fun g hat => ?_) (by simp)
      · obtain rfl := LtPc.erasing.inj hg
        exact hnone
      · obtain rfl : d = g := hat
        refine ⟨hnot, fun hfound => ?_⟩
        rw [hnone] at hfound
        cases hfound
  · cases hstep

/-- A multiply is sent with what is recorded, when no set is on its way: that is what the library has. -/
theorem Kept.step_multiply (hs : s.Kept) {s' : LtDescs} (hcareful : s.Careful (.multiply t d))
    (hstep : s.step (.multiply t d) = some s') : s'.Kept := by
  unfold LtDescs.step at hstep
  dsimp only at hstep
  split at hstep
  · rename_i hpc
    rw [← Option.some.inj hstep]
    obtain ⟨hreturned, hempty⟩ := hcareful
    refine hs.setPc (by rw [hpc]; simp) (by rw [hpc]; simp) (by simp) (fun g hat => ?_) fun g st l hg hl => ?_
    -- no set is on its way then, so that what is recorded shows the library's state
    · obtain rfl : d = g := hat
      exact hreturned
    · obtain ⟨rfl, rfl⟩ := LtPc.multiplying.inj hg
      refine ⟨hempty, ?_⟩
      rcases hs.shown d l hl with ⟨u, sc, hu⟩ | ⟨hnone, -⟩ | hshows
      · exact absurd hu (hreturned.1 u sc)
      · have hsome := hreturned.2 (Option.isSome_of_mem hl)
        rw [hnone] at hsome
        cases hsome
      · rw [hempty] at hshows
        exact hshows
  · cases hstep

/-- **The step lemma.** -/
theorem Kept.step (hs : s.Kept) {c : LtAction} {s' : LtDescs} (hcareful : s.Careful c)
    (hstep : s.step c = some s') : s'.Kept := by
  cases c with
  | create t scaleType =>
      unfold LtDescs.step at hstep
      dsimp only at hstep
      split at hstep
      · rename_i hpc
        rw [← Option.some.inj hstep]
        exact hs.setPc (by rw [hpc]; simp) (by rw [hpc]; simp) (by simp) (fun _ hat => hat.elim) (by simp)
      · cases hstep
  | serveCreate t made reported => exact hs.step_serveCreate hcareful hstep
  | record t =>
      unfold LtDescs.step at hstep
      dsimp only at hstep
      split at hstep
      · rename_i d scaleType hpc
        rw [← Option.some.inj hstep]
        exact hs.record hpc
      · cases hstep
  | set t d attr buf =>
      unfold LtDescs.step at hstep
      dsimp only at hstep
      split at hstep
      · rename_i hpc
        rw [← Option.some.inj hstep]
        refine hs.setPc (by rw [hpc]; simp) (by rw [hpc]; simp) (by simp) (fun g hat => ?_) (by simp)
        obtain rfl : d = g := hat
        exact hcareful
      · cases hstep
  | note t =>
      unfold LtDescs.step at hstep
      dsimp only at hstep
      split at hstep
      · rename_i d attr buf hpc
        rw [← Option.some.inj hstep]
        exact hs.note hpc (note_entry s d attr buf) (hcareful d attr buf hpc)
      · cases hstep
  | serveSet t accepted => exact hs.step_serveSet hcareful hstep
  | destroy t d =>
      unfold LtDescs.step at hstep
      dsimp only at hstep
      split at hstep
      · rename_i hpc
        rw [← Option.some.inj hstep]
        refine hs.setPc (by rw [hpc]; simp) (by rw [hpc]; simp) (by simp) (fun g hat => ?_) (by simp)
        obtain rfl : d = g := hat
        exact hcareful
      · cases hstep
  | serveDestroy t applied => exact hs.step_serveDestroy hcareful hstep
  | erase t =>
      unfold LtDescs.step at hstep
      dsimp only at hstep
      split at hstep
      · rename_i d hpc
        rw [← Option.some.inj hstep]
        have hpc' : (s.write d none).pc t = .erasing d := hpc
        exact (hs.erase (hs.erasing t d hpc)).setPc (by rw [hpc']; simp) (by rw [hpc']; simp) (by simp)
          (fun _ hat => hat.elim) (by simp)
      · cases hstep
  | multiply t d => exact hs.step_multiply hcareful hstep
  | serveMultiply t =>
      unfold LtDescs.step at hstep
      dsimp only at hstep
      split at hstep
      · rename_i hpc
        rw [← Option.some.inj hstep]
        exact hs.setPc (by rw [hpc]; simp) (by rw [hpc]; simp) (by simp) (fun _ hat => hat.elim) (by simp)
      · cases hstep

end Steps

/-- At every matrix multiply with a descriptor that is there, the client's state of it is the library's: alpha
and beta are sent in the width that the library reads, and from where it reads them. -/
def Reads (s : LtDescs) : Prop :=
  ∀ t d st l, s.pc t = .multiplying d st → s.server d = some l →
    st.scaleType = l.scaleType ∧ st.width = scalarSize l.scaleType ∧
      st.devicePointers = l.alphaOnDevice ∧ st.devicePointers = l.betaOnDevice

/-- The invariant gives what is asked of a multiply. -/
theorem Kept.reads {s : LtDescs} (hs : s.Kept) : s.Reads := by
  intro t d st l hpc hl
  obtain ⟨-, hscale, hdevice⟩ := hs.multiplying t d st l hpc hl
  refine ⟨hscale, congrArg scalarSize hscale, hdevice, hdevice.trans ?_⟩
  rw [LtDesc.betaOnDevice, decide_eq_true (hs.sameSide d l hl), Bool.and_true]
  rfl

/-- **At every matrix multiply the client has the library's state of the descriptor**, in every run in which
what the library does is what is noted, in its order. -/
theorem matmul_reads (cs : List LtAction) (s : LtDescs) (hcareful : Along step Careful {} cs)
    (hrun : run step {} cs = some s) : s.Reads := by
  have hkept : Always step Careful {} Kept :=
    Always.of_step kept_init fun _ _ _ hs hcareful hstep => hs.step hcareful hstep
  exact (hkept cs s hcareful hrun).reads

/-- `CUBLASLT_POINTER_MODE_DEVICE`, as the buffer of an attribute. -/
def deviceBuffer : List UInt8 := [1, 0, 0, 0]

/-- A descriptor is made, set to pointers of the device, and used. -/
def setAndMultiply (accepted : Bool) : List LtAction :=
  [.create 1 0, .serveCreate 1 (some 7) true, .record 1, .set 1 7 .pointerMode (some deviceBuffer), .note 1,
    .serveSet 1 accepted, .multiply 1 7]

/-- Such a run. -/
theorem matmul_reads_device : ∃ s, run step {} (setAndMultiply true) = some s ∧ s.Reads ∧
    s.pc 1 = .multiplying 7 ⟨0, true⟩ ∧ s.server 7 = some ⟨0, 1⟩ := by
  have hcareful : Along step Careful {} (setAndMultiply true) := by
    refine ⟨trivial, fun d _ => ⟨fun u hu => ?_, Or.inl rfl⟩, trivial, ⟨fun u sc hu => ?_, fun _ => rfl⟩,
      fun d attr buf _ _ u st hu => ?_, fun d attr buf l hpc hl => ?_, ⟨⟨fun u sc hu => ?_, fun _ => rfl⟩, rfl⟩,
      trivial⟩
    · by_cases hone : u = 1
      · subst hone
        exact hu
      · simp [hone, LtPc.At] at hu
    · by_cases hone : u = 1
      · subst hone
        cases hu
      · simp [LtDescs.write, LtDescs.put, hone] at hu
    · by_cases hone : u = 1
      · subst hone
        cases hu
      · simp [LtDescs.write, LtDescs.put, hone] at hu
    · obtain ⟨rfl, rfl, rfl⟩ := LtPc.noted.inj hpc
      obtain rfl := Option.some.inj hl
      exact ⟨fun _ => rfl, by decide, by decide⟩
    · by_cases hone : u = 1
      · subst hone
        cases hu
      · simp [LtDescs.write, LtDescs.put, LtDescs.setPending, hone] at hu
  exact ⟨_, rfl, matmul_reads (setAndMultiply true) _ hcareful rfl, rfl, rfl⟩

/-- **A mode that was refused is noted all the same.** The library reads values of the client, and is sent
pointers of the device. -/
theorem refused_mode_noted : ∃ s, run step {} (setAndMultiply false) = some s ∧
    s.pc 1 = .multiplying 7 ⟨0, true⟩ ∧ s.server 7 = some ⟨0, 0⟩ ∧ LtDesc.alphaOnDevice ⟨0, 0⟩ = false :=
  ⟨_, rfl, rfl, rfl, rfl⟩

end LtDescs

end Rgpu
