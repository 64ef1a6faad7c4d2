import Rgpu.Foundations.StepSystem
import Rgpu.Server.Inventory
import Mathlib.Data.List.Pairwise

/-! # The virtual-memory record

The record of a session's mappings and address ranges is kept by start address; the driver works on
intervals, and one `cuMemUnmap` takes out every mapping that lies inside the interval it is given.

* **`VirtualMemory`** — a session's record beside what the driver has mapped and reserved, for the
  session and for the others in the process.
* **`VirtualMemory.Mirrors`** — the record lists what the session has.
* **`VirtualMemory.record_mirrors`** — it does as long as each unmap of the session takes out the
  mapping that starts at its address and no other, and it does not after one that takes out more. -/

namespace Rgpu

open Foundations

/-- A stretch of addresses. -/
structure Span where
  start : ℕ
  bytes : ℕ
  deriving DecidableEq, Repr

namespace Span

/-- The stretch lies inside `[ptr, ptr + size)`. -/
def Inside (m : Span) (ptr size : ℕ) : Prop := ptr ≤ m.start ∧ m.start + m.bytes ≤ ptr + size

instance (m : Span) (ptr size : ℕ) : Decidable (m.Inside ptr size) :=
  inferInstanceAs (Decidable (_ ∧ _))

/-- The two stretches share no address. -/
def Disjoint (a b : Span) : Prop := a.start + a.bytes ≤ b.start ∨ b.start + b.bytes ≤ a.start

instance : DecidableRel Disjoint := fun _ _ => inferInstanceAs (Decidable (_ ∨ _))

/-- Two spans that are apart, the other way round. -/
theorem Disjoint.symm {a b : Span} (h : a.Disjoint b) : b.Disjoint a := Or.symm h

instance : Std.Symm Disjoint := ⟨fun _ _ => Disjoint.symm⟩

/-- Stretches none of which is empty and no two of which overlap. -/
structure Apart (l : List Span) : Prop where
  pos : ∀ m ∈ l, 0 < m.bytes
  disjoint : l.Pairwise Disjoint

instance (l : List Span) : Decidable (Apart l) :=
  decidable_of_iff ((∀ m ∈ l, 0 < m.bytes) ∧ l.Pairwise Disjoint)
    ⟨fun h => ⟨h.1, h.2⟩, fun h => ⟨h.pos, h.disjoint⟩⟩

namespace Apart

variable {l l' : List Span} {a b : Span}

/-- No spans. -/
theorem nil : Apart [] := ⟨by simp, .nil⟩

/-- Fewer spans. -/
theorem sublist (h : Apart l) (hl : l'.Sublist l) : Apart l' :=
  ⟨fun m hm => h.pos m (hl.subset hm), h.disjoint.sublist hl⟩

/-- One more that is apart from all of them. -/
theorem cons (h : Apart l) (ha : 0 < a.bytes) (hdisjoint : ∀ m ∈ l, m.Disjoint a) : Apart (a :: l) := by
  refine ⟨fun m hm => ?_, List.pairwise_cons.mpr ⟨fun m hm => (hdisjoint m hm).symm, h.disjoint⟩⟩
  rcases List.mem_cons.mp hm with rfl | hm
  · exact ha
  · exact h.pos m hm

/-- Two of them that share an address are the same. -/
theorem eq_of_overlap (h : Apart l) (ha : a ∈ l) (hb : b ∈ l) (hoverlap : ¬a.Disjoint b) : a = b := by
  by_contra hne
  exact hoverlap (h.disjoint.forall ha hb hne)

/-- Two of them that start at one address are the same. -/
theorem eq_of_start (h : Apart l) (ha : a ∈ l) (hb : b ∈ l) (hstart : a.start = b.start) : a = b := by
  refine h.eq_of_overlap ha hb ?_
  have hposa := h.pos a ha
  have hposb := h.pos b hb
  rintro (hle | hle) <;> omega

/-- One that lies inside another is that other. -/
theorem eq_of_inside (h : Apart l) (ha : a ∈ l) (hb : b ∈ l) (hinside : a.Inside b.start b.bytes) :
    a = b := by
  refine h.eq_of_overlap ha hb ?_
  have hposa := h.pos a ha
  obtain ⟨hfrom, hto⟩ := hinside
  rintro (hle | hle) <;> omega

end Apart

end Span

/-- A session's record, and what the driver has mapped and reserved for it and for others. -/
structure VirtualMemory where
  inv : Inventory := {}
  /-- The mappings the session has. -/
  maps : List Span := []
  /-- The address ranges the session has reserved. -/
  ranges : List Span := []
  /-- The mappings of other sessions. -/
  otherMaps : List Span := []
  /-- The address ranges of other sessions. -/
  otherRanges : List Span := []

/-- A call of the session, with the driver's answer, or what other sessions do. -/
inductive VmmAction
  /-- `w_cuMemAddressReserve`: the driver hands out a range, or fails. -/
  | reserve (answer : Option Span)
  /-- `w_cuMemMap`, and whether the driver succeeds. -/
  | map (ptr size : ℕ) (ok : Bool)
  /-- `w_cuMemUnmap`. -/
  | unmap (ptr size : ℕ) (ok : Bool)
  /-- `w_cuMemAddressFree`. -/
  | addressFree (ptr size : ℕ) (ok : Bool)
  /-- Other sessions come to have these mappings and ranges. -/
  | others (maps ranges : List Span)
  deriving DecidableEq, Repr

namespace VirtualMemory

/-- What `cuMemUnmap(ptr, size)` does in the driver: every mapping inside the interval goes. -/
def driverUnmap (s : VirtualMemory) (ptr size : ℕ) : VirtualMemory :=
  { s with
    maps := s.maps.filter fun m => ¬m.Inside ptr size
    otherMaps := s.otherMaps.filter fun m => ¬m.Inside ptr size }

/-- What `cuMemAddressFree(ptr, size)` does in the driver: the range that was reserved with that start
and that size goes. -/
def driverFree (s : VirtualMemory) (ptr size : ℕ) : VirtualMemory :=
  { s with
    ranges := s.ranges.filter fun r => r ≠ ⟨ptr, size⟩
    otherRanges := s.otherRanges.filter fun r => r ≠ ⟨ptr, size⟩ }

/-- One call, or one change made by other sessions. The driver hands out addresses that are free, maps
what is not mapped and lies in a reserved range, and frees a range that was reserved as such; a call it
refuses changes nothing. -/
def step (s : VirtualMemory) : VmmAction → Option VirtualMemory
  | .reserve none => some s
  | .reserve (some r) =>
      if 0 < r.start ∧ 0 < r.bytes ∧ ∀ m ∈ s.ranges ++ s.otherRanges, m.Disjoint r then
        some { s with ranges := r :: s.ranges, inv := s.inv.noteRange r.start r.bytes }
      else none
  | .map ptr size ok =>
      if ok = false then some s
      else if 0 < ptr ∧ 0 < size ∧ (∀ m ∈ s.maps ++ s.otherMaps, m.Disjoint ⟨ptr, size⟩) ∧
          ∃ r ∈ s.ranges ++ s.otherRanges, (⟨ptr, size⟩ : Span).Inside r.start r.bytes then
        some { s with maps := ⟨ptr, size⟩ :: s.maps, inv := s.inv.noteMap ptr size }
      else none
  | .unmap ptr size ok =>
      if ok = false then some s
      else some { s.driverUnmap ptr size with inv := s.inv.forgetMap ptr }
  | .addressFree ptr size ok =>
      if ok = false then some s
      else if ⟨ptr, size⟩ ∈ s.ranges ++ s.otherRanges then
        some { s.driverFree ptr size with inv := s.inv.forgetRange ptr }
      else none
  | .others maps ranges =>
      if Span.Apart (s.maps ++ maps) ∧ Span.Apart (s.ranges ++ ranges) then
        some { s with otherMaps := maps, otherRanges := ranges }
      else none

/-- The part of `release_inventory` about virtual memory: the mappings recorded are unmapped, then the
ranges recorded are freed; the driver may refuse any of it. -/
def expire (s : VirtualMemory) (unmaps frees : Span → Bool) : VirtualMemory :=
  let s := s.inv.vmmMaps.entries.foldl
    (fun t e => if unmaps ⟨e.1, e.2⟩ then t.driverUnmap e.1 e.2 else t) s
  let s := s.inv.vmmRanges.entries.foldl
    (fun t e => if frees ⟨e.1, e.2⟩ then t.driverFree e.1 e.2 else t) s
  { s with inv := { s.inv with vmmMaps := .empty, vmmRanges := .empty } }

/-- A table from starts to lengths lists exactly these stretches. -/
def Lists (t : Table ℕ ℕ) (l : List Span) : Prop :=
  ∀ start bytes, t.find start = some bytes ↔ ⟨start, bytes⟩ ∈ l

/-- The record lists exactly the ranges the session still has mapped and reserved. -/
structure Mirrors (s : VirtualMemory) : Prop where
  maps : Lists s.inv.vmmMaps s.maps
  ranges : Lists s.inv.vmmRanges s.ranges

/-- What the driver has is apart. -/
structure Laid (s : VirtualMemory) : Prop where
  maps : Span.Apart (s.maps ++ s.otherMaps)
  ranges : Span.Apart (s.ranges ++ s.otherRanges)

/-- An unmap that succeeds takes out, of the session's mappings, the one that starts at its address
and no other. -/
def Covers (s : VirtualMemory) (ptr size : ℕ) : Prop :=
  ∀ m ∈ s.maps, m.Inside ptr size ↔ m.start = ptr

instance (s : VirtualMemory) (ptr size : ℕ) : Decidable (s.Covers ptr size) :=
  inferInstanceAs (Decidable (∀ m ∈ s.maps, _))

/-- The condition on a step. -/
def Matched (s : VirtualMemory) : VmmAction → Prop
  | .unmap ptr size true => s.Covers ptr size
  | _ => True

instance (s : VirtualMemory) (a : VmmAction) : Decidable (s.Matched a) := by
  unfold Matched
  split <;> infer_instance

variable {s t : VirtualMemory} {ptr size : ℕ}

/-- The session's own mappings are apart. -/
theorem Laid.own_maps (hs : s.Laid) : Span.Apart s.maps := hs.maps.sublist (List.sublist_append_left _ _)

/-- The session's own ranges are apart. -/
theorem Laid.own_ranges (hs : s.Laid) : Span.Apart s.ranges :=
  hs.ranges.sublist (List.sublist_append_left _ _)

/-- Unmapping takes whole mappings out. -/
theorem Laid.driverUnmap (hs : s.Laid) : (s.driverUnmap ptr size).Laid :=
  ⟨hs.maps.sublist (List.filter_sublist.append List.filter_sublist), hs.ranges⟩

/-- Freeing takes whole ranges out. -/
theorem Laid.driverFree (hs : s.Laid) : (s.driverFree ptr size).Laid :=
  ⟨hs.maps, hs.ranges.sublist (List.filter_sublist.append List.filter_sublist)⟩

/-- **Every step keeps what is mapped and reserved apart.** -/
theorem Laid.step (hs : s.Laid) {a : VmmAction} (hstep : s.step a = some t) : t.Laid := by
  cases a with
  | reserve answer =>
      cases answer with
      | none => exact Option.some.inj hstep ▸ hs
      | some r =>
          -- what the driver hands out overlaps nothing that was handed out
          simp only [VirtualMemory.step, Option.ite_none_right_eq_some, Option.some.injEq] at hstep
          obtain ⟨⟨-, hpos, hfree⟩, rfl⟩ := hstep
          exact ⟨hs.maps, hs.ranges.cons hpos hfree⟩
  | map ptr size ok =>
      cases ok with
      | false => exact Option.some.inj hstep ▸ hs
      | true =>
          simp only [VirtualMemory.step, Bool.true_eq_false, if_false, Option.ite_none_right_eq_some,
            Option.some.injEq] at hstep
          obtain ⟨⟨-, hpos, hfree, -⟩, rfl⟩ := hstep
          exact ⟨hs.maps.cons hpos hfree, hs.ranges⟩
  | unmap ptr size ok =>
      cases ok with
      | false => exact Option.some.inj hstep ▸ hs
      | true => exact Option.some.inj hstep ▸ ⟨hs.driverUnmap.maps, hs.ranges⟩
  | addressFree ptr size ok =>
      cases ok with
      | false => exact Option.some.inj hstep ▸ hs
      | true =>
          simp only [VirtualMemory.step, Bool.true_eq_false, if_false, Option.ite_none_right_eq_some,
            Option.some.injEq] at hstep
          obtain ⟨-, rfl⟩ := hstep
          exact ⟨hs.maps, hs.driverFree.ranges⟩
  | others maps ranges =>
      simp only [VirtualMemory.step, Option.ite_none_right_eq_some, Option.some.injEq] at hstep
      obtain ⟨⟨hmaps, hranges⟩, rfl⟩ := hstep
      exact ⟨hmaps, hranges⟩

/-- A table lists one span more. -/
theorem Lists.insert {l : List Span} {u : Table ℕ ℕ} (hu : Lists u l) {m : Span}
    (hnew : ∀ m' ∈ l, m'.start ≠ m.start) : Lists (u.insert m.start m.bytes) (m :: l) := by
  intro start bytes
  rw [Table.find_insert, List.mem_cons]
  split
  · rename_i hstart
    subst hstart
    constructor
    · intro hbytes
      rw [← Option.some.inj hbytes]
      exact Or.inl rfl
    · rintro (heq | hmem)
      · rw [← heq]
      · exact absurd rfl (hnew ⟨m.start, bytes⟩ hmem)
  · rename_i hstart
    rw [hu start bytes]
    refine (or_iff_right ?_).symm
    rintro rfl
    exact hstart rfl

/-- **Erasing by start.** What is left is listed exactly when what went is what started there. -/
theorem Lists.erase_iff {l : List Span} {u : Table ℕ ℕ} (hu : Lists u l) (ptr : ℕ)
    (keep : Span → Prop) [DecidablePred keep] :
    Lists (u.erase ptr) (l.filter fun m => keep m) ↔ ∀ m ∈ l, ¬keep m ↔ m.start = ptr := by
  have hrecord : ∀ start bytes, (u.erase ptr).find start = some bytes ↔
      ⟨start, bytes⟩ ∈ l ∧ start ≠ ptr := by
    intro start bytes
    rw [Table.find_erase, ← hu]
    split <;> simp_all
  have hdriver : ∀ m : Span, m ∈ (l.filter fun m => keep m) ↔ m ∈ l ∧ keep m := by
    intro m
    rw [List.mem_filter, decide_eq_true_iff]
  constructor
  · intro h m hm
    have hiff := (hrecord m.start m.bytes).symm.trans ((h m.start m.bytes).trans (hdriver m))
    rw [not_iff_comm]
    exact ⟨fun hne => (hiff.mp ⟨hm, hne⟩).2, fun hkeep => (hiff.mpr ⟨hm, hkeep⟩).2⟩
  · intro h start bytes
    rw [hrecord, hdriver]
    exact and_congr_right fun hm => not_iff_comm.mp (h ⟨start, bytes⟩ hm)

/-- **What one unmap does to the record.** It lists the session's mappings afterwards exactly when the
unmap took out the one at its address and no other. -/
theorem Mirrors.unmap_iff (hs : s.Mirrors) :
    Mirrors { s.driverUnmap ptr size with inv := s.inv.forgetMap ptr } ↔ s.Covers ptr size := by
  have herase := hs.maps.erase_iff ptr fun m => ¬m.Inside ptr size
  simp only [not_not] at herase
  exact ⟨fun ht => herase.mp ht.maps, fun hcovers => ⟨herase.mpr hcovers, hs.ranges⟩⟩

/-- **Every matched step keeps the record the mirror of what is there.** -/
theorem Mirrors.step (hs : s.Mirrors) (hlaid : s.Laid) {a : VmmAction} (hmatched : s.Matched a)
    (hstep : s.step a = some t) : t.Mirrors := by
  cases a with
  | reserve answer =>
      cases answer with
      | none => exact Option.some.inj hstep ▸ hs
      | some r =>
          simp only [VirtualMemory.step, Option.ite_none_right_eq_some, Option.some.injEq] at hstep
          obtain ⟨⟨hstart, hpos, hfree⟩, rfl⟩ := hstep
          rw [Inventory.noteRange, if_neg hstart.ne']
          refine ⟨hs.maps, hs.ranges.insert fun m hm hsame => ?_⟩
          have hposm := hlaid.own_ranges.pos m hm
          rcases hfree m (List.mem_append_left _ hm) with hle | hle <;> omega
  | map ptr size ok =>
      cases ok with
      | false => exact Option.some.inj hstep ▸ hs
      | true =>
          simp only [VirtualMemory.step, Bool.true_eq_false, if_false, Option.ite_none_right_eq_some,
            Option.some.injEq] at hstep
          obtain ⟨⟨hstart, hpos, hfree, -⟩, rfl⟩ := hstep
          rw [Inventory.noteMap, if_neg hstart.ne']
          refine ⟨hs.maps.insert (m := ⟨ptr, size⟩) fun m hm hsame => ?_, hs.ranges⟩
          have hposm := hlaid.own_maps.pos m hm
          dsimp only at hsame
          rcases hfree m (List.mem_append_left _ hm) with hle | hle <;> dsimp only at hle <;> omega
  | unmap ptr size ok =>
      cases ok with
      | false => exact Option.some.inj hstep ▸ hs
      | true => exact Option.some.inj hstep ▸ hs.unmap_iff.mpr hmatched
  | addressFree ptr size ok =>
      cases ok with
      | false => exact Option.some.inj hstep ▸ hs
      | true =>
          simp only [VirtualMemory.step, Bool.true_eq_false, if_false, Option.ite_none_right_eq_some,
            Option.some.injEq] at hstep
          obtain ⟨hmem, rfl⟩ := hstep
          refine ⟨hs.maps, (hs.ranges.erase_iff ptr _).mpr fun r hr => ?_⟩
          -- the range freed, whoever has it, is the only one that starts there
          rw [not_not]
          refine ⟨fun heq => heq ▸ rfl, fun hstart => ?_⟩
          exact hlaid.ranges.eq_of_start (List.mem_append_left _ hr) hmem hstart
  | others maps ranges =>
      simp only [VirtualMemory.step, Option.ite_none_right_eq_some, Option.some.injEq] at hstep
      obtain ⟨-, rfl⟩ := hstep
      exact ⟨hs.maps, hs.ranges⟩

/-! ## Expiry -/

/-- No mapping of another session lies inside one of this session's. -/
theorem Laid.not_inside (hs : s.Laid) {m o : Span} (hm : m ∈ s.maps) (ho : o ∈ s.otherMaps) :
    ¬o.Inside m.start m.bytes := by
  intro hinside
  have heq := hs.maps.eq_of_inside (List.mem_append_right _ ho) (List.mem_append_left _ hm) hinside
  have hposm := hs.own_maps.pos m hm
  have hapart := (List.pairwise_append.mp hs.maps.disjoint).2.2 m hm o ho
  rw [heq] at hapart
  rcases hapart with hle | hle <;> omega

/-- No range of another session is one of this session's. -/
theorem Laid.range_ne (hs : s.Laid) {r o : Span} (hr : r ∈ s.ranges) (ho : o ∈ s.otherRanges) :
    o ≠ r := by
  rintro rfl
  have hposr := hs.own_ranges.pos o hr
  rcases (List.pairwise_append.mp hs.ranges.disjoint).2.2 o hr o ho with hle | hle <;> omega

/-- Unmapping what holds no mapping of another session takes nothing from the others. -/
theorem others_unmaps (unmaps : Span → Bool) (es : List (ℕ × ℕ)) (s : VirtualMemory)
    (hes : ∀ e ∈ es, ∀ o ∈ s.otherMaps, ¬o.Inside e.1 e.2) :
    let t := es.foldl (fun t e => if unmaps ⟨e.1, e.2⟩ then t.driverUnmap e.1 e.2 else t) s
    t.otherMaps = s.otherMaps ∧ t.otherRanges = s.otherRanges ∧ t.inv = s.inv := by
  induction es generalizing s with
  | nil => exact ⟨rfl, rfl, rfl⟩
  | cons e es ih =>
      rw [List.forall_mem_cons] at hes
      have hsame : (s.driverUnmap e.1 e.2).otherMaps = s.otherMaps :=
        List.filter_eq_self.mpr fun o ho => decide_eq_true (hes.1 o ho)
      simp only [List.foldl_cons]
      by_cases he : unmaps ⟨e.1, e.2⟩ = true
      · rw [if_pos he]
        have hrest := ih (s.driverUnmap e.1 e.2) (by rw [hsame]; exact hes.2)
        rw [hsame] at hrest
        exact hrest
      · rw [if_neg he]
        exact ih s hes.2

/-- Freeing what is no range of another session takes nothing from the others. -/
theorem others_frees (frees : Span → Bool) (es : List (ℕ × ℕ)) (s : VirtualMemory)
    (hes : ∀ e ∈ es, ∀ o ∈ s.otherRanges, o ≠ ⟨e.1, e.2⟩) :
    let t := es.foldl (fun t e => if frees ⟨e.1, e.2⟩ then t.driverFree e.1 e.2 else t) s
    t.otherMaps = s.otherMaps ∧ t.otherRanges = s.otherRanges := by
  induction es generalizing s with
  | nil => exact ⟨rfl, rfl⟩
  | cons e es ih =>
      rw [List.forall_mem_cons] at hes
      have hsame : (s.driverFree e.1 e.2).otherRanges = s.otherRanges :=
        List.filter_eq_self.mpr fun o ho => decide_eq_true (hes.1 o ho)
      simp only [List.foldl_cons]
      by_cases he : frees ⟨e.1, e.2⟩ = true
      · rw [if_pos he]
        have hrest := ih (s.driverFree e.1 e.2) (by rw [hsame]; exact hes.2)
        rw [hsame] at hrest
        exact hrest
      · rw [if_neg he]
        exact ih s hes.2

/-- **Expiry of a mirrored record** unmaps and frees nothing of another session. -/
theorem Mirrors.others_expire (hs : s.Mirrors) (hlaid : s.Laid) (unmaps frees : Span → Bool) :
    (s.expire unmaps frees).otherMaps = s.otherMaps ∧
    (s.expire unmaps frees).otherRanges = s.otherRanges := by
  obtain ⟨hmaps, hranges, hinv⟩ := others_unmaps unmaps s.inv.vmmMaps.entries s fun e he o ho =>
    hlaid.not_inside ((hs.maps e.1 e.2).mp (Table.find_eq_some_iff.mpr he)) ho
  obtain ⟨hmaps', hranges'⟩ := others_frees frees s.inv.vmmRanges.entries
    (s.inv.vmmMaps.entries.foldl (fun t e => if unmaps ⟨e.1, e.2⟩ then t.driverUnmap e.1 e.2 else t) s)
    fun e he o ho => by
      rw [hranges] at ho
      exact hlaid.range_ne ((hs.ranges e.1 e.2).mp (Table.find_eq_some_iff.mpr he)) ho
  rw [hmaps] at hmaps'
  rw [hranges] at hranges'
  simp only [expire, hinv]
  exact ⟨hmaps', hranges'⟩

/-! ## Runs -/

/-- The record is the mirror of what is there in every run along `Matched`. -/
theorem always_mirrors : Always step Matched {} fun s => s.Mirrors ∧ s.Laid := by
  refine Always.of_step ?_ fun s a t hs hmatched hstep =>
    ⟨hs.1.step hs.2 hmatched hstep, hs.2.step hstep⟩
  exact ⟨⟨fun _ _ => by simp, fun _ _ => by simp⟩, ⟨Span.Apart.nil, Span.Apart.nil⟩⟩

/-- **The virtual-memory record mirrors the driver** in every run in which each successful unmap takes
out, of the session's mappings, the one that starts at its address and no other; and then expiry takes
nothing from another session. An unmap that is not so leaves a record that does not mirror. -/
theorem record_mirrors (as : List VmmAction) (s : VirtualMemory)
    (hmatched : Along step Matched {} as) (hrun : run step {} as = some s) :
    s.Mirrors ∧
    (∀ unmaps frees, (s.expire unmaps frees).otherMaps = s.otherMaps ∧
      (s.expire unmaps frees).otherRanges = s.otherRanges) ∧
    ∀ ptr size t, s.step (.unmap ptr size true) = some t → (t.Mirrors ↔ s.Covers ptr size) := by
  obtain ⟨hs, hlaid⟩ := always_mirrors as s hmatched hrun
  refine ⟨hs, hs.others_expire hlaid, fun ptr size t hstep => ?_⟩
  rw [← Option.some.inj hstep]
  exact hs.unmap_iff

/-- Two pages reserved, mapped one by one and unmapped one by one, and the first mapped again. -/
def pageByPage : List VmmAction :=
  [.reserve (some ⟨4096, 8192⟩), .map 4096 4096 true, .map 8192 4096 true, .unmap 4096 4096 true,
    .unmap 8192 4096 true, .map 4096 4096 true, .map 4096 4096 false]

/-- Two pages are mapped and one of them is unmapped; the record has the other. -/
theorem record_mirrors_pageByPage : ∃ s, run step {} pageByPage = some s ∧
    s.inv.vmmMaps.entries = [(4096, 4096)] ∧ s.maps = [⟨4096, 4096⟩] ∧ s.Mirrors := by
  have hsome : (run step {} pageByPage).isSome = true := by decide
  obtain ⟨s, hs⟩ := Option.isSome_iff_exists.mp hsome
  have hends : (run step {} pageByPage).map (fun s => (s.inv.vmmMaps.entries, s.maps)) =
      some ([(4096, 4096)], [⟨4096, 4096⟩]) := by decide
  rw [hs, Option.map_some, Option.some.injEq, Prod.mk.injEq] at hends
  exact ⟨s, hs, hends.1, hends.2, (record_mirrors pageByPage s (by decide) hs).1⟩

/-- Two pages reserved and mapped one by one, unmapped together, and the second one reserved and
mapped by another session. -/
def unmappedTogether : List VmmAction :=
  [.reserve (some ⟨4096, 8192⟩), .map 4096 4096 true, .map 8192 4096 true, .unmap 4096 8192 true,
    .addressFree 4096 8192 true, .others [⟨8192, 4096⟩] [⟨8192, 4096⟩]]

/-- One unmap of two mappings leaves the second in the record, and expiry then takes the mapping that
another session has at its address. -/
theorem unmap_of_two_stale : ∃ s, run step {} unmappedTogether = some s ∧ ¬s.Mirrors ∧
    s.otherMaps = [⟨8192, 4096⟩] ∧
    (s.expire (fun _ => true) (fun _ => true)).otherMaps = [] := by
  have hsome : (run step {} unmappedTogether).isSome = true := by decide
  obtain ⟨s, hs⟩ := Option.isSome_iff_exists.mp hsome
  have hends : (run step {} unmappedTogether).map (fun s => (s.inv.vmmMaps.find 8192, s.maps,
      s.otherMaps, (s.expire (fun _ => true) (fun _ => true)).otherMaps)) =
      some (some 4096, [], [⟨8192, 4096⟩], []) := by decide
  rw [hs, Option.map_some, Option.some.injEq] at hends
  simp only [Prod.mk.injEq] at hends
  obtain ⟨hfind, hmaps, hothers, hexpired⟩ := hends
  refine ⟨s, hs, fun hmirrors => ?_, hothers, hexpired⟩
  have hmem := (hmirrors.maps 8192 4096).mp hfind
  rw [hmaps] at hmem
  cases hmem

end VirtualMemory

end Rgpu
