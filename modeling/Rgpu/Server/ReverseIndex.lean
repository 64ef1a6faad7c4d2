import Rgpu.Foundations.StepSystem
import Rgpu.Server.Inventory

/-! # The reverse index of an inventory

The index from a context to what was made in it duplicates seven tables, and is kept beside each
change of them by hand.

* **`Inventory.Indexed`** — the index lists exactly what the tables say, without a bucket for the null
  context and without an empty one; one preservation lemma for each operation.
* **`Inventory.scan`** — forgetting the plain way, by walking the tables. `forgetUnder_eq_scan` and
  `forgetPrimary_eq_scan` say that going through the index forgets the same.
* **`Recording`** — a session and the tables of the process, run through any sequence of operations. -/

namespace Rgpu

open Foundations

namespace Inventory

variable {inv inv' : Inventory} {c c' : CUcontext} {slot slot' : Option CtxMap} {h h' : ℕ}

/-- The entry of a table the index has a slot for; `none` stands for the library handles. -/
def made (inv : Inventory) : Option CtxMap → ℕ → Option Stamp
  | some s, h => (inv.items s.ctxMap).find h
  | none, h => (inv.handles.find h).map LibHandle.made

/-- Replacing one table leaves the others. -/
theorem items_setItems (which : ItemKind) (t : Table ℕ Stamp) :
    (inv.setItems which t).items = Function.update inv.items which t := rfl

/-- What the index lists under a context. -/
def listedUnder (inv : Inventory) (c : CUcontext) (slot : Option CtxMap) : Finset ℕ :=
  match inv.byCtx.find c with
  | none => ∅
  | some e => e.listed slot

/-- The index has no bucket for the null context and no empty one. -/
structure Tidy (inv : Inventory) : Prop where
  null : inv.byCtx.find 0 = none
  buckets : ∀ c e, inv.byCtx.find c = some e → e.isEmpty = false

/-- The index lists, under each context, what was made in it. -/
structure Indexed (inv : Inventory) : Prop extends Tidy inv where
  agrees : ∀ c, c ≠ 0 → ∀ slot h,
    h ∈ inv.listedUnder c slot ↔ ∃ st, inv.made slot h = some st ∧ st.ctx = c

/-! ## One entry -/

/-- The index is beside the tables: dropping an empty bucket changes no table. -/
@[simp] theorem items_indexDropIfEmpty : (inv.indexDropIfEmpty c).items = inv.items := by
  rw [indexDropIfEmpty]
  split
  · rfl
  · split <;> rfl

/-- Dropping an empty bucket changes no library handle. -/
@[simp] theorem handles_indexDropIfEmpty : (inv.indexDropIfEmpty c).handles = inv.handles := by
  rw [indexDropIfEmpty]
  split
  · rfl
  · split <;> rfl

/-- Listing a handle changes no table. -/
@[simp] theorem items_indexAdd : (inv.indexAdd c slot h).items = inv.items := by
  rw [indexAdd]
  split <;> rfl

/-- Listing a handle changes no library handle. -/
@[simp] theorem handles_indexAdd : (inv.indexAdd c slot h).handles = inv.handles := by
  rw [indexAdd]
  split <;> rfl

/-- Unlisting a handle changes no table. -/
@[simp] theorem items_indexRemove : (inv.indexRemove c slot h).items = inv.items := by
  rw [indexRemove]
  split
  · rfl
  · split
    · rfl
    · rw [items_indexDropIfEmpty]

/-- Unlisting a handle changes no library handle. -/
@[simp] theorem handles_indexRemove : (inv.indexRemove c slot h).handles = inv.handles := by
  rw [indexRemove]
  split
  · rfl
  · split
    · rfl
    · rw [handles_indexDropIfEmpty]

/-- An empty bucket lists nothing, so dropping it shows nowhere. -/
theorem listedUnder_indexDropIfEmpty :
    (inv.indexDropIfEmpty c).listedUnder c' slot = inv.listedUnder c' slot := by
  rw [indexDropIfEmpty]
  split
  · rfl
  · rename_i e he
    split
    · rename_i hempty
      rw [listedUnder, listedUnder, Table.find_erase]
      by_cases hc : c' = c
      · rw [if_pos hc, hc, he]
        exact (CtxEntries.isEmpty_iff.mp hempty slot).symm
      · rw [if_neg hc]
    · rfl

/-- What is listed after a handle has been listed. -/
theorem mem_indexAdd (hc : c ≠ 0) : h' ∈ (inv.indexAdd c slot h).listedUnder c' slot' ↔
    (c' = c ∧ slot' = slot ∧ h' = h) ∨ h' ∈ inv.listedUnder c' slot' := by
  rw [indexAdd, if_neg hc, listedUnder, Table.find_insert]
  by_cases hcc : c' = c
  · subst hcc
    rw [if_pos rfl]
    have hdefault : (((inv.byCtx.find c').getD {}).listed slot') = inv.listedUnder c' slot' := by
      rw [listedUnder]
      cases inv.byCtx.find c' with
      | none => exact CtxEntries.listed_default slot'
      | some e => rfl
    simp only [CtxEntries.listed_adjust, hdefault]
    split <;> simp_all
  · rw [if_neg hcc]
    simp [hcc, listedUnder]

/-- What is listed after a handle has been unlisted. -/
theorem mem_indexRemove (htidy : inv.Tidy) : h' ∈ (inv.indexRemove c slot h).listedUnder c' slot' ↔
    ¬(c' = c ∧ slot' = slot ∧ h' = h) ∧ h' ∈ inv.listedUnder c' slot' := by
  have habsent (hnone : inv.byCtx.find c = none) : h' ∈ inv.listedUnder c' slot' ↔
      ¬(c' = c ∧ slot' = slot ∧ h' = h) ∧ h' ∈ inv.listedUnder c' slot' := by
    by_cases hcc : c' = c
    · subst hcc
      simp [listedUnder, hnone]
    · simp [hcc]
  rw [indexRemove]
  split
  · rename_i hc
    exact habsent (hc ▸ htidy.null)
  · split
    · rename_i hnone
      exact habsent hnone
    · rename_i e he
      rw [listedUnder_indexDropIfEmpty, listedUnder, Table.find_insert]
      by_cases hcc : c' = c
      · subst hcc
        simp only [if_pos, CtxEntries.listed_adjust, listedUnder, he]
        split <;> simp_all
      · simp [hcc, listedUnder]

/-- Listing a handle leaves no empty bucket behind. -/
theorem Tidy.indexAdd (htidy : inv.Tidy) : (inv.indexAdd c slot h).Tidy := by
  rw [Inventory.indexAdd]
  split
  · exact htidy
  · rename_i hc
    constructor
    · rw [Table.find_insert_of_ne (Ne.symm hc), htidy.null]
    · intro c' e he
      rw [Table.find_insert] at he
      split at he
      · obtain rfl := Option.some.inj he
        rw [Bool.eq_false_iff]
        intro hempty
        have hslot := CtxEntries.isEmpty_iff.mp hempty slot
        rw [CtxEntries.listed_adjust, if_pos rfl] at hslot
        exact Finset.insert_ne_empty _ _ hslot
      · exact htidy.buckets c' e he

/-- Dropping the bucket that may have become empty leaves the index tidy. -/
theorem tidy_indexDropIfEmpty (hnull : inv.byCtx.find 0 = none)
    (hbuckets : ∀ c', c' ≠ c → ∀ e, inv.byCtx.find c' = some e → e.isEmpty = false) :
    (inv.indexDropIfEmpty c).Tidy := by
  rw [indexDropIfEmpty]
  split
  · rename_i hnone
    refine ⟨hnull, fun c' e he => hbuckets c' ?_ e he⟩
    rintro rfl
    rw [hnone] at he
    cases he
  · rename_i e he
    split
    · constructor
      · rw [Table.find_erase]
        split
        · rfl
        · exact hnull
      · intro c' e' he'
        rw [Table.find_erase] at he'
        split at he'
        · cases he'
        · rename_i hne
          exact hbuckets c' hne e' he'
    · rename_i hempty
      refine ⟨hnull, fun c' e' he' => ?_⟩
      by_cases hcc : c' = c
      · rw [hcc, he, Option.some.injEq] at he'
        exact he' ▸ Bool.eq_false_iff.mpr hempty
      · exact hbuckets c' hcc e' he'

/-- Unlisting a handle leaves no empty bucket behind, since the bucket goes with its last handle. -/
theorem Tidy.indexRemove (htidy : inv.Tidy) : (inv.indexRemove c slot h).Tidy := by
  rw [Inventory.indexRemove]
  split
  · exact htidy
  · rename_i hc
    split
    · exact htidy
    · rename_i e he
      refine tidy_indexDropIfEmpty ?_ ?_
      · rw [Table.find_insert_of_ne (Ne.symm hc), htidy.null]
      · intro c' hne e' he'
        rw [Table.find_insert_of_ne hne] at he'
        exact htidy.buckets c' e' he'

/-- The index depends on the buckets alone. -/
theorem Tidy.congr (htidy : inv.Tidy) (hbyCtx : inv'.byCtx = inv.byCtx) : inv'.Tidy :=
  ⟨hbyCtx ▸ htidy.null, hbyCtx ▸ htidy.buckets⟩

/-- What is listed is read off the index alone. -/
theorem listedUnder_congr (hbyCtx : inv'.byCtx = inv.byCtx) :
    inv'.listedUnder c slot = inv.listedUnder c slot := by
  rw [listedUnder, listedUnder, hbyCtx]

/-- The agreement reads the index and the stamps only. -/
theorem Indexed.congr (hinv : inv.Indexed) (hbyCtx : inv'.byCtx = inv.byCtx)
    (hmade : ∀ slot h, inv'.made slot h = inv.made slot h) : inv'.Indexed := by
  refine ⟨hinv.toTidy.congr hbyCtx, fun c hc slot h => ?_⟩
  rw [listedUnder_congr hbyCtx, hmade]
  exact hinv.agrees c hc slot h

/-- A handle that is recorded is listed under its own context and no other. -/
theorem Indexed.mem_iff (hinv : inv.Indexed) (hc : c ≠ 0) {st : Stamp} (hst : inv.made slot h = some st) :
    h ∈ inv.listedUnder c slot ↔ st.ctx = c := by
  rw [hinv.agrees c hc, hst]
  simp

/-- **One entry changes.** The index agrees when the entry of `h` alone changes, and `h` is listed
where its new entry says and nowhere else. -/
theorem Indexed.change (hinv : inv.Indexed) (slot : Option CtxMap) (h : ℕ) (htidy : inv'.Tidy) (new : Option Stamp)
    (hmade : ∀ slot' h', inv'.made slot' h' =
      if slot' = slot ∧ h' = h then new else inv.made slot' h')
    (hlisted : ∀ c, c ≠ 0 → ∀ slot' h', h' ∈ inv'.listedUnder c slot' ↔
      if slot' = slot ∧ h' = h then ∃ st, new = some st ∧ st.ctx = c
      else h' ∈ inv.listedUnder c slot') : inv'.Indexed := by
  refine ⟨htidy, fun c hc slot' h' => ?_⟩
  rw [hlisted c hc, hmade]
  split
  · rfl
  · exact hinv.agrees c hc slot' h'

/-- What the index lists once the entry of `h` goes: everything but `h`, under that slot. -/
theorem Indexed.mem_indexRemove_old (hinv : inv.Indexed) {old : Stamp} (hold : inv.made slot h = some old)
    (hc : c ≠ 0) : h' ∈ (inv.indexRemove old.ctx slot h).listedUnder c slot' ↔
      ¬(slot' = slot ∧ h' = h) ∧ h' ∈ inv.listedUnder c slot' := by
  rw [mem_indexRemove hinv.toTidy]
  constructor
  · rintro ⟨hnot, hmem⟩
    refine ⟨?_, hmem⟩
    rintro ⟨rfl, rfl⟩
    exact hnot ⟨((hinv.mem_iff hc hold).mp hmem).symm, rfl, rfl⟩
  · rintro ⟨hnot, hmem⟩
    exact ⟨fun hall => hnot hall.2, hmem⟩

/-- The index once the entry of `h` is replaced by one made in `new`: unlisted under the context of
the old entry, if that is another one, and listed under that of the new. -/
def relist (inv : Inventory) (slot : Option CtxMap) (h : ℕ) (new : CUcontext) : Inventory :=
  (inv.indexRenote (inv.made slot h) new slot h).indexAdd new slot h

/-- Listing a handle anew leaves no empty bucket behind. -/
theorem Indexed.tidy_relist (hinv : inv.Indexed) : (inv.relist slot h c).Tidy := by
  unfold relist indexRenote
  apply Tidy.indexAdd
  split
  · exact hinv.toTidy
  · split
    · exact hinv.toTidy.indexRemove
    · exact hinv.toTidy

/-- Nothing is listed under the null context. -/
theorem mem_indexAdd_zero : h' ∈ (inv.indexAdd 0 slot h).listedUnder c slot' ↔ h' ∈ inv.listedUnder c slot' := by
  rw [indexAdd, if_pos rfl]

/-- What the index lists once an entry is replaced. -/
theorem Indexed.mem_relist (hinv : inv.Indexed) (hc : c ≠ 0) :
    h' ∈ (inv.relist slot h c').listedUnder c slot' ↔
      if slot' = slot ∧ h' = h then c' = c else h' ∈ inv.listedUnder c slot' := by
  have hlist (inv₁ : Inventory) : h' ∈ (inv₁.indexAdd c' slot h).listedUnder c slot' ↔
      (c' = c ∧ slot' = slot ∧ h' = h) ∨ h' ∈ inv₁.listedUnder c slot' := by
    by_cases hc' : c' = 0
    · subst hc'
      rw [mem_indexAdd_zero]
      simp [Ne.symm hc]
    · rw [mem_indexAdd hc', eq_comm (a := c)]
  rw [relist, hlist, indexRenote.eq_def]
  -- of the entry itself the old listing goes first; the others are listed as they were
  by_cases hsame : slot' = slot ∧ h' = h
  · obtain ⟨rfl, rfl⟩ := hsame
    simp only [and_self, and_true, if_true]
    refine ⟨?_, Or.inl⟩
    rintro (heq | hmem)
    · exact heq
    · cases hmade : inv.made slot' h' with
      | none =>
          rw [hmade, hinv.agrees c hc, hmade] at hmem
          simp at hmem
      | some old =>
          simp only [hmade] at hmem
          split at hmem
          · exact absurd ⟨rfl, rfl⟩ ((hinv.mem_indexRemove_old hmade hc).mp hmem).1
          · rename_i hctx
            rw [not_not] at hctx
            exact hctx ▸ (hinv.mem_iff hc hmade).mp hmem
  · rw [if_neg hsame]
    rw [or_iff_right fun hall => hsame hall.2]
    split
    · rfl
    · rename_i old hold
      split
      · rw [hinv.mem_indexRemove_old hold hc]
        exact and_iff_right hsame
      · rfl

/-- The stamp of a handle is read off the tables and the library handles. -/
theorem made_congr (hitems : inv'.items = inv.items) (hhandles : inv'.handles = inv.handles) :
    inv'.made slot h = inv.made slot h := by
  cases slot with
  | none => rw [made, made, hhandles]
  | some s => rw [made, made, hitems]

/-- Listing a handle changes no stamp. -/
@[simp] theorem made_indexAdd : (inv.indexAdd c slot h).made slot' h' = inv.made slot' h' :=
  made_congr items_indexAdd handles_indexAdd

/-- Unlisting a handle changes no stamp. -/
@[simp] theorem made_indexRemove : (inv.indexRemove c slot h).made slot' h' = inv.made slot' h' :=
  made_congr items_indexRemove handles_indexRemove

/-- The entry of a swept table once one of its entries is replaced. -/
theorem made_setItems_insert (hitems : inv'.items = inv.items) (hhandles : inv'.handles = inv.handles)
    {s : CtxMap} {st : Stamp} :
    (inv'.setItems s.ctxMap ((inv.items s.ctxMap).insert h st)).made slot' h' =
      if slot' = some s ∧ h' = h then some st else inv.made slot' h' := by
  cases slot' with
  | none => simp [made, setItems, hhandles]
  | some s' =>
      by_cases hs : s' = s
      · subst hs
        simp [made, setItems, Table.find_insert]
      · have hmap : s'.ctxMap ≠ s.ctxMap := by
          intro heq
          rw [← ItemKind.ctxSlot_eq_some_iff, CtxMap.ctxSlot_ctxMap] at heq
          exact hs (Option.some.inj heq)
        simp [made, setItems, hitems, hs, Function.update_of_ne hmap]

/-- The entry of a swept table once one of its entries goes. -/
theorem made_setItems_erase (hitems : inv'.items = inv.items) (hhandles : inv'.handles = inv.handles)
    {s : CtxMap} :
    (inv'.setItems s.ctxMap ((inv.items s.ctxMap).erase h)).made slot' h' =
      if slot' = some s ∧ h' = h then none else inv.made slot' h' := by
  cases slot' with
  | none => simp [made, setItems, hhandles]
  | some s' =>
      by_cases hs : s' = s
      · subst hs
        simp [made, setItems, Table.find_erase]
      · have hmap : s'.ctxMap ≠ s.ctxMap := by
          intro heq
          rw [← ItemKind.ctxSlot_eq_some_iff, CtxMap.ctxSlot_ctxMap] at heq
          exact hs (Option.some.inj heq)
        simp [made, setItems, hitems, hs, Function.update_of_ne hmap]

/-- The entry of a library handle once one is replaced. -/
theorem made_setHandles_insert (hitems : inv'.items = inv.items) {l : LibHandle} :
    (inv'.setHandles (inv.handles.insert h l)).made slot' h' =
      if slot' = none ∧ h' = h then some l.made else inv.made slot' h' := by
  cases slot' with
  | none =>
      rw [made, made, setHandles, Table.find_insert, apply_ite (Option.map LibHandle.made)]
      simp
  | some s => simp [made, setHandles, hitems]

/-- The entry of a library handle once one goes. -/
theorem made_setHandles_erase (hitems : inv'.items = inv.items) :
    (inv'.setHandles (inv.handles.erase h)).made slot' h' =
      if slot' = none ∧ h' = h then none else inv.made slot' h' := by
  cases slot' with
  | none =>
      rw [made, made, setHandles, Table.find_erase, apply_ite (Option.map LibHandle.made)]
      simp
  | some s => simp [made, setHandles, hitems]

/-- Replacing a table changes nothing that is listed. -/
@[simp] theorem listedUnder_setItems {which : ItemKind} {t : Table ℕ Stamp} :
    (inv.setItems which t).listedUnder c slot = inv.listedUnder c slot := rfl

/-- Replacing the library handles changes nothing that is listed. -/
@[simp] theorem listedUnder_setHandles {t : Table ℕ LibHandle} :
    (inv.setHandles t).listedUnder c slot = inv.listedUnder c slot := rfl

/-- A table without a slot is nothing to the index. -/
theorem made_setItems_of_ctxSlot_none {which : ItemKind} (hwhich : which.ctxSlot = none)
    (t : Table ℕ Stamp) : (inv.setItems which t).made slot h = inv.made slot h := by
  cases slot with
  | none => rfl
  | some s =>
      have hmap : s.ctxMap ≠ which := by
        rintro rfl
        rw [CtxMap.ctxSlot_ctxMap] at hwhich
        cases hwhich
      simp [made, setItems, Function.update_of_ne hmap]

/-- Two inventories with the same buckets are listed alike. -/
theorem byCtx_indexAdd_congr (hbyCtx : inv'.byCtx = inv.byCtx) :
    (inv'.indexAdd c slot h).byCtx = (inv.indexAdd c slot h).byCtx := by
  rw [indexAdd, indexAdd]
  split
  · exact hbyCtx
  · simp only [hbyCtx]

/-- Listing a handle that was listed elsewhere changes no stamp. -/
@[simp] theorem made_indexRenote {old : Option Stamp} :
    (inv.indexRenote old c slot h).made slot' h' = inv.made slot' h' := by
  unfold indexRenote
  split
  · rfl
  · split
    · exact made_indexRemove
    · rfl

/-- Listing a handle that was listed elsewhere changes no table. -/
theorem items_indexRenote {old : Option Stamp} : (inv.indexRenote old c slot h).items = inv.items := by
  unfold indexRenote
  split
  · rfl
  · split
    · exact items_indexRemove
    · rfl

/-- Listing a handle that was listed elsewhere changes no library handle. -/
theorem handles_indexRenote {old : Option Stamp} :
    (inv.indexRenote old c slot h).handles = inv.handles := by
  unfold indexRenote
  split
  · rfl
  · split
    · exact handles_indexRemove
    · rfl

/-- Noting a handle lists it under the context it was made in, and under the older one no more. -/
theorem Indexed.note (hinv : inv.Indexed) (which : ItemKind) (handle : ℕ) (st : Stamp) :
    (inv.note which handle st).Indexed := by
  rw [Inventory.note]
  split
  · exact hinv
  · split
    · rename_i hwhich
      exact hinv.congr rfl fun slot h => made_setItems_of_ctxSlot_none hwhich _
    · rename_i s hwhich
      obtain rfl := ItemKind.ctxSlot_eq_some_iff.mp hwhich
      -- the entry is replaced and its listing with it; `relist` is the listing alone
      have hbyCtx : ∀ t, (((inv.indexRenote ((inv.items s.ctxMap).find handle) st.ctx (some s)
          handle).setItems s.ctxMap t).indexAdd st.ctx (some s) handle).byCtx =
          (inv.relist (some s) handle st.ctx).byCtx := fun t => byCtx_indexAdd_congr rfl
      refine hinv.change (some s) handle (hinv.tidy_relist.congr (hbyCtx _)) (some st)
        (fun slot' h' => ?_) ?_
      · rw [made_indexAdd, made_setItems_insert items_indexRenote handles_indexRenote]
      · intro c hc slot' h'
        rw [listedUnder_congr (hbyCtx _), hinv.mem_relist hc]
        simp

/-- Forgetting a handle unlists it. -/
theorem Indexed.forget (hinv : inv.Indexed) (which : ItemKind) (handle : ℕ) :
    (inv.forget which handle).Indexed := by
  rw [Inventory.forget]
  split
  · rename_i s old hwhich hfind
    obtain rfl := ItemKind.ctxSlot_eq_some_iff.mp hwhich
    have hold : inv.made (some s) handle = some old := hfind
    refine hinv.change (some s) handle (hinv.toTidy.indexRemove.congr rfl) none
      (fun slot' h' => ?_) ?_
    · rw [made_setItems_erase items_indexRemove handles_indexRemove]
    · intro c hc slot' h'
      rw [listedUnder_setItems, hinv.mem_indexRemove_old hold hc]
      split <;> simp_all
  · rename_i hnone
    cases hwhich : which.ctxSlot with
    | none => exact hinv.congr rfl fun slot h => made_setItems_of_ctxSlot_none hwhich _
    | some s =>
        cases hfind : (inv.items which).find handle with
        | none =>
            refine hinv.congr rfl fun slot h => ?_
            rw [Table.erase_of_find_none hfind, setItems, Function.update_eq_self]
        | some old => exact absurd hfind (hnone s old hwhich)

/-- Noting a library handle lists it. -/
theorem Indexed.noteHandle (hinv : inv.Indexed) (handle : ℕ) (l : LibHandle) :
    (inv.noteHandle handle l).Indexed := by
  rw [Inventory.noteHandle]
  split
  · exact hinv
  · have hbyCtx : ∀ t, (((inv.indexRenote ((inv.handles.find handle).map LibHandle.made) l.made.ctx none
          handle).setHandles t).indexAdd l.made.ctx none handle).byCtx =
        (inv.relist none handle l.made.ctx).byCtx := fun t => byCtx_indexAdd_congr rfl
    refine hinv.change none handle (hinv.tidy_relist.congr (hbyCtx _)) (some l.made)
      (fun slot' h' => ?_) ?_
    · rw [made_indexAdd, made_setHandles_insert items_indexRenote]
    · intro c hc slot' h'
      rw [listedUnder_congr (hbyCtx _), hinv.mem_relist hc]
      simp

/-- Forgetting one unlists it. -/
theorem Indexed.forgetHandle (hinv : inv.Indexed) (handle : ℕ) : (inv.forgetHandle handle).Indexed := by
  rw [Inventory.forgetHandle]
  split
  · rename_i old hfind
    have hold : inv.made none handle = some old.made := by rw [made, hfind, Option.map_some]
    refine hinv.change none handle (hinv.toTidy.indexRemove.congr rfl) none
      (fun slot' h' => ?_) ?_
    · rw [made_setHandles_erase items_indexRemove]
    · intro c hc slot' h'
      rw [listedUnder_setHandles, hinv.mem_indexRemove_old hold hc]
      split <;> simp_all
  · rename_i hfind
    rw [Table.erase_of_find_none hfind]
    exact hinv

/-! ## Forgetting in bulk -/

/-- Keep the entries of the swept tables and the library handles whose stamp passes the test. -/
def filterEntries (inv : Inventory) (keep : Stamp → Bool) : Inventory :=
  { inv.filterItems fun _ _ st => keep st with handles := inv.handles.filter fun _ l => keep l.made }

/-- **The plain scan**: every entry and every capture is looked at. -/
def scan (inv : Inventory) (keep : Stamp → Bool) : Inventory :=
  (inv.filterEntries keep).filterCaptures keep

/-- The plain scan for what was made in a context that is destroyed. -/
def scanContext (inv : Inventory) (c : CUcontext) : Inventory :=
  (inv.setItems .contexts ((inv.items .contexts).erase c)).scan fun st => st.ctx ≠ c

/-- The plain scan for what was made in the primary context of a device before its current
generation. -/
def scanPrimary (inv : Inventory) (g : Generations) (dev : Device) : Inventory :=
  inv.scan fun st => !(outdated dev (g.generation dev) st)

/-- An inventory but for its index. -/
def unindexed (inv : Inventory) : Inventory := { inv with byCtx := .empty }

/-- The tables without the index have the same stamps. -/
theorem made_unindexed : inv.unindexed.made slot h = inv.made slot h := made_congr rfl rfl

/-- Filtering the entries is done on the tables, not on the index. -/
theorem unindexed_filterEntries (keep : Stamp → Bool) :
    (inv.filterEntries keep).unindexed = inv.unindexed.filterEntries keep := rfl

/-- Filtering the captures is done on the tables, not on the index. -/
theorem unindexed_filterCaptures (keep : Stamp → Bool) :
    (inv.filterCaptures keep).unindexed = inv.unindexed.filterCaptures keep := rfl

/-- A stamp that is not kept is gone. -/
theorem made_filterEntries (keep : Stamp → Bool) :
    (inv.filterEntries keep).made slot h = (inv.made slot h).filter keep := by
  cases slot with
  | none =>
      rw [made, made, filterEntries, Table.find_filter]
      cases inv.handles.find h with
      | none => rfl
      | some l => cases hkeep : keep l.made <;> simp [Option.filter, hkeep]
  | some s =>
      simp only [made, filterEntries, filterItems, CtxMap.ctxSlot_ctxMap]
      rw [Table.find_filter]

/-- Filtering twice is filtering by both. -/
theorem filterEntries_filterEntries (keep keep' : Stamp → Bool) :
    (inv.filterEntries keep).filterEntries keep' =
      inv.filterEntries fun st => keep st && keep' st := by
  have hitems : ((inv.filterEntries keep).filterEntries keep').items =
      (inv.filterEntries fun st => keep st && keep' st).items := by
    funext k
    simp only [filterEntries, filterItems]
    cases k.ctxSlot <;> simp
  have hhandles : ((inv.filterEntries keep).filterEntries keep').handles =
      (inv.filterEntries fun st => keep st && keep' st).handles := by
    simp [filterEntries]
  exact congrArg₂ (fun i l => { inv with items := i, handles := l }) hitems hhandles

/-- Tests of each table's own that agree with a test of the stamps keep the same. -/
theorem filterItems_unindexed {keepItem : CtxMap → ℕ → Stamp → Bool} {keepHandle : ℕ → LibHandle → Bool}
    {keep : Stamp → Bool} {index : Table CUcontext CtxEntries}
    (hitem : ∀ s h st, inv.made (some s) h = some st → keepItem s h st = keep st)
    (hhandle : ∀ h l, inv.handles.find h = some l → keepHandle h l = keep (LibHandle.made l)) :
    ({ inv.filterItems keepItem with handles := inv.handles.filter keepHandle, byCtx := index } :
      Inventory).unindexed = (inv.filterEntries keep).unindexed := by
  have hitems : (inv.filterItems keepItem).items = (inv.filterEntries keep).items := by
    funext k
    simp only [filterEntries, filterItems]
    split
    · rfl
    · rename_i s hs
      obtain rfl := ItemKind.ctxSlot_eq_some_iff.mp hs
      exact Table.filter_congr fun h st hst => hitem s h st hst
  have hhandles : inv.handles.filter keepHandle = (inv.filterEntries keep).handles :=
    Table.filter_congr hhandle
  exact congrArg₂ (fun i l => { inv.unindexed with items := i, handles := l }) hitems hhandles

/-- Two tests that agree on the entries there are keep the same. -/
theorem filterEntries_congr {keep keep' : Stamp → Bool}
    (hkeep : ∀ slot h st, inv.made slot h = some st → keep st = keep' st) :
    (inv.filterEntries keep).unindexed = (inv.filterEntries keep').unindexed := by
  refine filterItems_unindexed (fun s h st hst => hkeep (some s) h st hst) fun h l hl => ?_
  refine hkeep none h (LibHandle.made l) ?_
  rw [made, hl, Option.map_some]

/-- A test that every entry passes changes nothing. -/
theorem filterEntries_eq_self {keep : Stamp → Bool}
    (hkeep : ∀ slot h st, inv.made slot h = some st → keep st = true) : inv.filterEntries keep = inv := by
  have hitems : (inv.filterEntries keep).items = inv.items := by
    funext k
    simp only [filterEntries, filterItems]
    split
    · rfl
    · rename_i s hs
      obtain rfl := ItemKind.ctxSlot_eq_some_iff.mp hs
      exact Table.filter_eq_self fun h st hst => hkeep (some s) h st hst
  have hhandles : (inv.filterEntries keep).handles = inv.handles := by
    refine Table.filter_eq_self fun h l hl => hkeep none h (LibHandle.made l) ?_
    rw [made, hl, Option.map_some]
  exact congrArg₂ (fun i l => { inv with items := i, handles := l }) hitems hhandles

/-- **Many entries go.** The index agrees when entries that fail a test go from the tables and from
the index. -/
theorem Indexed.filter (hinv : inv.Indexed) (htidy : inv'.Tidy) {keep : Stamp → Bool}
    (hentries : inv'.unindexed = (inv.filterEntries keep).unindexed)
    (hlisted : ∀ c, c ≠ 0 → ∀ slot h, h ∈ inv'.listedUnder c slot ↔
      h ∈ inv.listedUnder c slot ∧ ∀ st, inv.made slot h = some st → keep st = true) :
    inv'.Indexed := by
  refine ⟨htidy, fun c hc slot h => ?_⟩
  have hmade : inv'.made slot h = (inv.made slot h).filter keep := by
    rw [← made_unindexed, hentries, made_unindexed, made_filterEntries]
  rw [hlisted c hc, hinv.agrees c hc, hmade]
  cases inv.made slot h with
  | none => simp
  | some st => simp [Option.filter_eq_some_iff, and_comm]

/-- Nothing was made in a context that has no bucket. -/
theorem Indexed.ctx_ne_of_find_none (hinv : inv.Indexed) (hc : c ≠ 0) (hnone : inv.byCtx.find c = none)
    {st : Stamp} (hst : inv.made slot h = some st) : st.ctx ≠ c := by
  intro hctx
  have hmem := (hinv.mem_iff hc hst).mpr hctx
  rw [listedUnder, hnone] at hmem
  exact absurd hmem (Finset.notMem_empty h)

/-- A bucket lists what was made in its context. -/
theorem Indexed.mem_listed_iff (hinv : inv.Indexed) {b : CtxEntries} (hb : inv.byCtx.find c = some b)
    (slot : Option CtxMap) {st : Stamp} (hst : inv.made slot h = some st) : h ∈ b.listed slot ↔ st.ctx = c := by
  have hc : c ≠ 0 := by
    rintro rfl
    rw [hinv.null] at hb
    cases hb
  rw [← hinv.mem_iff hc hst, listedUnder, hb]

/-- Taking out what a bucket lists takes out what was made in its context. -/
theorem Indexed.eraseBucket_unindexed (hinv : inv.Indexed) (hc : c ≠ 0) :
    (inv.eraseBucket c).unindexed = (inv.filterEntries fun st => st.ctx ≠ c).unindexed := by
  rw [eraseBucket]
  split
  · rename_i hnone
    rw [filterEntries_eq_self]
    intro slot h st hst
    rw [decide_eq_true_iff]
    exact hinv.ctx_ne_of_find_none hc hnone hst
  · rename_i b hb
    refine filterItems_unindexed (fun s h st hst => ?_) fun h l hl => ?_
    · exact decide_eq_decide.mpr (not_congr (hinv.mem_listed_iff hb (some s) hst))
    · refine decide_eq_decide.mpr (not_congr (hinv.mem_listed_iff hb none ?_))
      rw [made, hl, Option.map_some]

/-- The bucket of a context goes together with the entries it lists. -/
theorem Indexed.eraseBucket (hinv : inv.Indexed) (hc : c ≠ 0) : (inv.eraseBucket c).Indexed := by
  refine hinv.filter ?_ (hinv.eraseBucket_unindexed hc) fun c' hc' slot h => ?_
  · rw [Inventory.eraseBucket]
    split
    · exact hinv.toTidy
    · refine ⟨?_, fun c' e he => ?_⟩
      · rw [Table.find_erase_of_ne (Ne.symm hc), hinv.null]
      · rw [Table.find_erase] at he
        split at he
        · cases he
        · exact hinv.buckets c' e he
  -- an item has one context, so the buckets of others list nothing that goes
  · have hkept : h ∈ inv.listedUnder c' slot → c' ≠ c →
        ∀ st, inv.made slot h = some st → decide (st.ctx ≠ c) = true := by
      intro hmem hne st hst
      rw [decide_eq_true_iff, (hinv.mem_iff hc' hst).mp hmem]
      exact hne
    by_cases hcc : c' = c
    · subst hcc
      have hlisted : (inv.eraseBucket c').listedUnder c' slot = ∅ := by
        rw [Inventory.eraseBucket]
        split
        · rename_i hnone
          rw [listedUnder, hnone]
        · rw [listedUnder, Table.find_erase_self]
      rw [hlisted]
      refine iff_of_false (Finset.notMem_empty h) ?_
      rintro ⟨hmem, hall⟩
      obtain ⟨st, hst, hctx⟩ := (hinv.agrees c' hc' slot h).mp hmem
      have hne := hall st hst
      rw [decide_eq_true_iff] at hne
      exact hne hctx
    · have hlisted : (inv.eraseBucket c).listedUnder c' slot = inv.listedUnder c' slot := by
        rw [Inventory.eraseBucket]
        split
        · rfl
        · rw [listedUnder, listedUnder, Table.find_erase_of_ne hcc]
      rw [hlisted]
      exact ⟨fun hmem => ⟨hmem, hkept hmem hcc⟩, And.left⟩

/-- Sweeping a bucket takes out what was made in its context and is outdated. -/
theorem Indexed.sweepBucket_unindexed (hinv : inv.Indexed) (hc : c ≠ 0) (dev : Device) (now : ℕ) :
    (inv.sweepBucket dev now c).unindexed =
      (inv.filterEntries fun st => !(decide (st.ctx = c) && outdated dev now st)).unindexed := by
  rw [sweepBucket]
  split
  · rename_i hnone
    rw [filterEntries_eq_self]
    intro slot h st hst
    simp [hinv.ctx_ne_of_find_none hc hnone hst]
  · rename_i b hb
    have hdrop : ∀ inv : Inventory, (inv.indexDropIfEmpty c).unindexed = inv.unindexed := by
      intro inv
      rw [indexDropIfEmpty]
      split
      · rfl
      · split <;> rfl
    rw [hdrop]
    refine filterItems_unindexed (fun s h st hst => ?_) fun h l hl => ?_
    · have hlisted : h ∈ b.inn s ↔ st.ctx = c := hinv.mem_listed_iff hb (some s) hst
      simp only [hlisted]
    · have hmade : inv.made none h = some l.made := by rw [made, hl, Option.map_some]
      have hlisted : h ∈ b.handles ↔ l.made.ctx = c := hinv.mem_listed_iff hb none hmade
      simp only [hlisted]

/-- The entries of a context that are of an older lifetime go, and the bucket lists what stays. -/
theorem Indexed.sweepBucket (hinv : inv.Indexed) (hc : c ≠ 0) (dev : Device) (now : ℕ) :
    (inv.sweepBucket dev now c).Indexed := by
  refine hinv.filter ?_ (hinv.sweepBucket_unindexed hc dev now) fun c' hc' slot h => ?_
  · rw [Inventory.sweepBucket]
    split
    · exact hinv.toTidy
    · refine tidy_indexDropIfEmpty ?_ fun c' hne e he => ?_
      · rw [Table.find_insert_of_ne (Ne.symm hc), hinv.null]
      · rw [Table.find_insert_of_ne hne] at he
        exact hinv.buckets c' e he
  · by_cases hcc : c' = c
    · subst hcc
      cases hb : inv.byCtx.find c' with
      | none =>
          have hempty : inv.listedUnder c' slot = ∅ := by rw [listedUnder, hb]
          rw [Inventory.sweepBucket, hb, hempty]
          simp
      | some b =>
          rw [Inventory.sweepBucket, hb]
          simp only [listedUnder_indexDropIfEmpty]
          rw [listedUnder, Table.find_insert_self, listedUnder, hb]
          -- what the bucket lists is in a table, so what stays is what is not outdated
          have hst : h ∈ b.listed slot → ∃ st, inv.made slot h = some st ∧ st.ctx = c' := by
            intro hmem
            refine (hinv.agrees c' hc' slot h).mp ?_
            rw [listedUnder, hb]
            exact hmem
          cases slot with
          | none =>
              simp only [CtxEntries.listed, Finset.mem_filter]
              refine and_congr_right fun hmem => ?_
              obtain ⟨st, hst, hctx⟩ := hst hmem
              rw [made] at hst
              simp [made, hst, hctx]
          | some s =>
              simp only [CtxEntries.listed, Finset.mem_filter]
              refine and_congr_right fun hmem => ?_
              obtain ⟨st, hst, hctx⟩ := hst hmem
              rw [made] at hst
              simp [made, hst, hctx]
    · have hlisted : (inv.sweepBucket dev now c).listedUnder c' slot = inv.listedUnder c' slot := by
        rw [Inventory.sweepBucket]
        split
        · rfl
        · rw [listedUnder_indexDropIfEmpty, listedUnder, Table.find_insert_of_ne hcc, listedUnder]
      rw [hlisted]
      -- no other bucket is touched, and none lists what was made in this context
      refine ⟨fun hmem => ⟨hmem, fun st hst => ?_⟩, And.left⟩
      have hctx : st.ctx ≠ c := by
        rw [(hinv.mem_iff hc' hst).mp hmem]
        exact hcc
      simp [hctx]

/-- Captures are not indexed. -/
theorem Indexed.filterCaptures (hinv : inv.Indexed) (keep : Stamp → Bool) :
    (inv.filterCaptures keep).Indexed :=
  hinv.congr rfl fun _ _ => made_congr rfl rfl

/-- Contexts are not indexed. -/
theorem Indexed.setItems_contexts (hinv : inv.Indexed) (t : Table ℕ Stamp) :
    (inv.setItems .contexts t).Indexed :=
  hinv.congr rfl fun _ _ => made_setItems_of_ctxSlot_none rfl t

/-- There is no bucket for the null context to take out. -/
theorem Tidy.eraseBucket_zero (htidy : inv.Tidy) : inv.eraseBucket 0 = inv := by
  rw [eraseBucket, htidy.null]

/-- A context that is destroyed takes what it lists with it. -/
theorem Indexed.forgetContext (hinv : inv.Indexed) (c : CUcontext) : (inv.forgetContext c).Indexed := by
  have hset := hinv.setItems_contexts ((inv.items .contexts).erase c)
  rw [Inventory.forgetContext, forgetUnder]
  by_cases hc : c = 0
  · subst hc
    rw [hset.toTidy.eraseBucket_zero]
    exact hset.filterCaptures _
  · exact (hset.eraseBucket hc).filterCaptures _

/-- **Forgetting a context** through the index is the plain scan. -/
theorem Indexed.forgetContext_eq_scan (hinv : inv.Indexed) (hc : c ≠ 0) :
    (inv.forgetContext c).unindexed = (inv.scanContext c).unindexed := by
  have hset := hinv.setItems_contexts ((inv.items .contexts).erase c)
  rw [Inventory.forgetContext, forgetUnder, scanContext, scan, unindexed_filterCaptures,
    unindexed_filterCaptures, hset.eraseBucket_unindexed hc]

/-- Forgetting the null context leaves every table as it is but that of the contexts. -/
theorem Tidy.forgetContext_zero (htidy : inv.Tidy) : inv.forgetContext 0 =
    (inv.setItems .contexts ((inv.items .contexts).erase 0)).filterCaptures fun st => st.ctx ≠ 0 := by
  have hset : (inv.setItems .contexts ((inv.items .contexts).erase 0)).Tidy := htidy.congr rfl
  rw [Inventory.forgetContext, forgetUnder, hset.eraseBucket_zero]

/-- Sweeping several buckets takes out what is outdated and was made in one of their contexts. -/
theorem Indexed.sweepBuckets (dev : Device) (now : ℕ) {cs : List CUcontext} (hcs : 0 ∉ cs) :
    ∀ {inv : Inventory}, inv.Indexed →
      (cs.foldl (fun inv c => inv.sweepBucket dev now c) inv).Indexed ∧
      (cs.foldl (fun inv c => inv.sweepBucket dev now c) inv).unindexed =
        (inv.filterEntries fun st => !(decide (st.ctx ∈ cs) && outdated dev now st)).unindexed := by
  induction cs with
  | nil =>
      intro inv hinv
      refine ⟨hinv, ?_⟩
      rw [filterEntries_eq_self (by simp)]
      rfl
  | cons c cs ih =>
      intro inv hinv
      rw [List.mem_cons, not_or] at hcs
      have hc : c ≠ 0 := Ne.symm hcs.1
      obtain ⟨hindexed, hentries⟩ := ih hcs.2 (hinv.sweepBucket hc dev now)
      refine ⟨hindexed, ?_⟩
      rw [List.foldl_cons, hentries, unindexed_filterEntries, hinv.sweepBucket_unindexed hc,
        ← unindexed_filterEntries, filterEntries_filterEntries]
      congr 2
      funext st
      by_cases hst : st.ctx = c <;> simp [hst]
      cases outdated dev now st <;> simp

/-- A primary context that has ended takes what is listed under any of its handles with it. -/
theorem Indexed.forgetPrimary (hinv : inv.Indexed) (g : Generations) (dev : Device)
    (hzero : 0 ∉ g.primaryHandles dev) : (inv.forgetPrimary g dev).Indexed := by
  rw [Inventory.forgetPrimary]
  exact (Indexed.sweepBuckets dev _ hzero hinv).1.filterCaptures _

/-- **Forgetting a primary context** through the index is the plain scan, when whatever was made in
the primary context of the device was made under a handle learned for it. -/
theorem Indexed.forgetPrimary_eq_scan (hinv : inv.Indexed) (g : Generations) (dev : Device)
    (hzero : 0 ∉ g.primaryHandles dev)
    (hplaced : ∀ slot h st, inv.made slot h = some st → st.dev = some dev →
      st.ctx ∈ g.primaryHandles dev) :
    (inv.forgetPrimary g dev).unindexed = (inv.scanPrimary g dev).unindexed := by
  rw [Inventory.forgetPrimary, scanPrimary, scan, unindexed_filterCaptures, unindexed_filterCaptures,
    (Indexed.sweepBuckets dev _ hzero hinv).2, filterEntries_congr]
  intro slot h st hst
  by_cases hdev : st.dev = some dev
  · simp [hplaced slot h st hst hdev]
  · simp [outdated, hdev]

/-- A scan of every table keeps the stamps it is to keep. -/
theorem made_scan (keep : Stamp → Bool) : (inv.scan keep).made slot h = (inv.made slot h).filter keep :=
  made_filterEntries keep

/-- What forgetting a context leaves of the tables. -/
theorem Indexed.made_forgetContext (hinv : inv.Indexed) (hc : c ≠ 0) (slot : Option CtxMap) (h : ℕ) :
    (inv.forgetContext c).made slot h = (inv.made slot h).filter fun st => st.ctx ≠ c := by
  rw [← made_unindexed, hinv.forgetContext_eq_scan hc, made_unindexed, scanContext, made_scan,
    made_setItems_of_ctxSlot_none rfl]

/-- The captures in a context that is destroyed go with it, and no others. -/
theorem Indexed.captures_forgetContext (hinv : inv.Indexed) (hc : c ≠ 0) :
    (inv.forgetContext c).captures = inv.captures.filter fun o => o.where'.ctx ≠ c :=
  congrArg captures (hinv.forgetContext_eq_scan hc)

/-- What forgetting a primary context leaves of the tables. -/
theorem Indexed.made_forgetPrimary (hinv : inv.Indexed) (g : Generations) (dev : Device)
    (hzero : 0 ∉ g.primaryHandles dev)
    (hplaced : ∀ slot h st, inv.made slot h = some st → st.dev = some dev → st.ctx ∈ g.primaryHandles dev)
    (slot : Option CtxMap) (h : ℕ) : (inv.forgetPrimary g dev).made slot h =
      (inv.made slot h).filter fun st => !outdated dev (g.generation dev) st := by
  rw [← made_unindexed, hinv.forgetPrimary_eq_scan g dev hzero hplaced, made_unindexed, scanPrimary, made_scan]

/-- The captures in a primary context that has ended go with it, and no others. -/
theorem Indexed.captures_forgetPrimary (hinv : inv.Indexed) (g : Generations) (dev : Device)
    (hzero : 0 ∉ g.primaryHandles dev)
    (hplaced : ∀ slot h st, inv.made slot h = some st → st.dev = some dev → st.ctx ∈ g.primaryHandles dev) :
    (inv.forgetPrimary g dev).captures =
      inv.captures.filter fun o => !outdated dev (g.generation dev) o.where' :=
  congrArg captures (hinv.forgetPrimary_eq_scan g dev hzero hplaced)

/-! ## Where the entries come from -/

/-- Every entry, library handle and capture has a stamp that satisfies `P`. -/
structure Stamped (P : Stamp → Prop) (inv : Inventory) : Prop where
  items : ∀ k h st, (inv.items k).find h = some st → P st
  handles : ∀ h l, inv.handles.find h = some l → P l.made
  captures : ∀ o ∈ inv.captures, P o.where'

variable {P Q : Stamp → Prop}

/-- Every stamp that is found is one of the tables'. -/
theorem Stamped.made (hinv : inv.Stamped P) {st : Stamp} (hst : inv.made slot h = some st) : P st := by
  cases slot with
  | none =>
      rw [Inventory.made, Option.map_eq_some_iff] at hst
      obtain ⟨l, hl, rfl⟩ := hst
      exact hinv.handles h l hl
  | some s => exact hinv.items s.ctxMap h st hst

/-- A weaker property of the stamps holds with a stronger one. -/
theorem Stamped.mono (hinv : inv.Stamped P) (hPQ : ∀ st, P st → Q st) : inv.Stamped Q :=
  ⟨fun k h st hst => hPQ st (hinv.items k h st hst), fun h l hl => hPQ _ (hinv.handles h l hl),
    fun o ho => hPQ _ (hinv.captures o ho)⟩

/-- Whatever goes, what is left has the stamps it had. -/
theorem Stamped.sub (hinv : inv.Stamped P)
    (hitems : ∀ k h st, (inv'.items k).find h = some st → (inv.items k).find h = some st)
    (hhandles : ∀ h l, inv'.handles.find h = some l → inv.handles.find h = some l)
    (hcaptures : ∀ o ∈ inv'.captures, o ∈ inv.captures) : inv'.Stamped P :=
  ⟨fun k h st hst => hinv.items k h st (hitems k h st hst),
    fun h l hl => hinv.handles h l (hhandles h l hl),
    fun o ho => hinv.captures o (hcaptures o ho)⟩

/-- Listing a handle leaves the captures. -/
@[simp] theorem captures_indexAdd : (inv.indexAdd c slot h).captures = inv.captures := by
  rw [indexAdd]
  split <;> rfl

/-- Unlisting a handle leaves the captures. -/
@[simp] theorem captures_indexRemove : (inv.indexRemove c slot h).captures = inv.captures := by
  unfold indexRemove indexDropIfEmpty
  split
  · rfl
  · split
    · rfl
    · dsimp only
      split
      · rfl
      · split <;> rfl

/-- Listing a handle that was listed elsewhere leaves the captures. -/
@[simp] theorem captures_indexRenote {old : Option Stamp} :
    (inv.indexRenote old c slot h).captures = inv.captures := by
  unfold indexRenote
  split
  · rfl
  · split
    · exact captures_indexRemove
    · rfl

/-- Noting a handle enters it into its table, unless it is null. -/
theorem items_note (which : ItemKind) (handle : ℕ) (st : Stamp) :
    (inv.note which handle st).items =
      if handle = 0 then inv.items
      else Function.update inv.items which ((inv.items which).insert handle st) := by
  rw [Inventory.note]
  split
  · rfl
  · split
    · rfl
    · rw [items_indexAdd, setItems, items_indexRenote]

/-- Noting a handle changes no library handle. -/
theorem handles_note (which : ItemKind) (handle : ℕ) (st : Stamp) :
    (inv.note which handle st).handles = inv.handles := by
  rw [Inventory.note]
  split
  · rfl
  · split
    · rfl
    · rw [handles_indexAdd, setItems, handles_indexRenote]

/-- Noting a handle changes no capture. -/
theorem captures_note (which : ItemKind) (handle : ℕ) (st : Stamp) :
    (inv.note which handle st).captures = inv.captures := by
  rw [Inventory.note]
  split
  · rfl
  · split
    · rfl
    · rw [captures_indexAdd, setItems, captures_indexRenote]

/-- Forgetting a handle takes it out of its table. -/
theorem items_forget (which : ItemKind) (handle : ℕ) :
    (inv.forget which handle).items =
      Function.update inv.items which ((inv.items which).erase handle) := by
  rw [Inventory.forget]
  split
  · rw [setItems, items_indexRemove]
  · rfl

/-- Forgetting a handle changes no library handle. -/
theorem handles_forget (which : ItemKind) (handle : ℕ) :
    (inv.forget which handle).handles = inv.handles := by
  rw [Inventory.forget]
  split
  · rw [setItems, handles_indexRemove]
  · rfl

/-- Forgetting a handle changes no capture. -/
theorem captures_forget (which : ItemKind) (handle : ℕ) :
    (inv.forget which handle).captures = inv.captures := by
  rw [Inventory.forget]
  split
  · rw [setItems, captures_indexRemove]
  · rfl

/-- What is noted has the property, so all stamps do. -/
theorem Stamped.note (hinv : inv.Stamped P) (which : ItemKind) (handle : ℕ) {st : Stamp} (hst : P st) :
    (inv.note which handle st).Stamped P := by
  refine ⟨fun k h st' hst' => ?_, ?_, ?_⟩
  · rw [items_note] at hst'
    split at hst'
    · exact hinv.items k h st' hst'
    · by_cases hk : k = which
      · subst hk
        rw [Function.update_self, Table.find_insert] at hst'
        split at hst'
        · exact Option.some.inj hst' ▸ hst
        · exact hinv.items k h st' hst'
      · rw [Function.update_of_ne hk] at hst'
        exact hinv.items k h st' hst'
  · rw [handles_note]
    exact hinv.handles
  · rw [captures_note]
    exact hinv.captures

/-- A table with fewer entries has no new stamps. -/
theorem Stamped.forget (hinv : inv.Stamped P) (which : ItemKind) (handle : ℕ) :
    (inv.forget which handle).Stamped P := by
  refine hinv.sub (fun k h st hst => ?_) (fun h l hl => ?_) fun o ho => ?_
  · rw [items_forget] at hst
    by_cases hk : k = which
    · subst hk
      rw [Function.update_self, Table.find_erase] at hst
      split at hst
      · cases hst
      · exact hst
    · rwa [Function.update_of_ne hk] at hst
  · rwa [handles_forget] at hl
  · rwa [captures_forget] at ho

/-- A library handle is noted with a stamp that has the property. -/
theorem Stamped.noteHandle (hinv : inv.Stamped P) (handle : ℕ) {l : LibHandle} (hl : P l.made) :
    (inv.noteHandle handle l).Stamped P := by
  rw [Inventory.noteHandle]
  split
  · exact hinv
  · refine ⟨fun k h st hst => ?_, fun h l' hl' => ?_, fun o ho => ?_⟩
    · rw [items_indexAdd, setHandles, items_indexRenote] at hst
      exact hinv.items k h st hst
    · rw [handles_indexAdd, setHandles, Table.find_insert] at hl'
      split at hl'
      · exact Option.some.inj hl' ▸ hl
      · exact hinv.handles h l' hl'
    · rw [captures_indexAdd, setHandles, captures_indexRenote] at ho
      exact hinv.captures o ho

/-- With fewer library handles there are no new stamps. -/
theorem Stamped.forgetHandle (hinv : inv.Stamped P) (handle : ℕ) :
    (inv.forgetHandle handle).Stamped P := by
  rw [Inventory.forgetHandle]
  split
  · refine hinv.sub (fun k h st hst => ?_) (fun h l hl => ?_) fun o ho => ?_
    · rwa [setHandles, items_indexRemove] at hst
    · rw [setHandles, Table.find_erase] at hl
      split at hl
      · cases hl
      · exact hl
    · rwa [setHandles, captures_indexRemove] at ho
  · rename_i hnone
    rw [Table.erase_of_find_none hnone]
    exact hinv

/-- A filter of the tables leaves entries that were there. -/
theorem Stamped.filterItems (hinv : inv.Stamped P) (keepItem : CtxMap → ℕ → Stamp → Bool)
    (keepHandle : ℕ → LibHandle → Bool) (index : Table CUcontext CtxEntries) :
    ({ inv.filterItems keepItem with handles := inv.handles.filter keepHandle, byCtx := index } :
      Inventory).Stamped P := by
  refine hinv.sub (fun k h st hst => ?_) (fun h l hl => ?_) fun o ho => ho
  · simp only [Inventory.filterItems] at hst
    split at hst
    · exact hst
    · exact (Table.find_filter_eq_some.mp hst).1
  · exact (Table.find_filter_eq_some.mp hl).1

/-- With fewer captures there are no new stamps. -/
theorem Stamped.filterCaptures (hinv : inv.Stamped P) (keep : Stamp → Bool) :
    (inv.filterCaptures keep).Stamped P :=
  hinv.sub (fun _ _ _ hst => hst) (fun _ _ hl => hl) fun _ ho => (List.mem_filter.mp ho).1

/-- The index has no stamps of its own. -/
theorem Stamped.indexDropIfEmpty (hinv : inv.Stamped P) : (inv.indexDropIfEmpty c).Stamped P := by
  rw [Inventory.indexDropIfEmpty]
  split
  · exact hinv
  · split
    · exact hinv.sub (fun _ _ _ hst => hst) (fun _ _ hl => hl) fun _ ho => ho
    · exact hinv

/-- What goes with a context leaves no new stamps. -/
theorem Stamped.forgetContext (hinv : inv.Stamped P) (c : CUcontext) :
    (inv.forgetContext c).Stamped P := by
  have hset : (inv.setItems .contexts ((inv.items .contexts).erase c)).Stamped P := by
    refine hinv.sub (fun k h st hst => ?_) (fun _ _ hl => hl) fun _ ho => ho
    by_cases hk : k = .contexts
    · subst hk
      rw [items_setItems, Function.update_self, Table.find_erase] at hst
      split at hst
      · cases hst
      · exact hst
    · rwa [items_setItems, Function.update_of_ne hk] at hst
  rw [Inventory.forgetContext, forgetUnder, eraseBucket]
  split
  · exact hset.filterCaptures _
  · exact (hset.filterItems _ _ _).filterCaptures _

/-- What goes with an older lifetime leaves no new stamps. -/
theorem Stamped.sweepBucket (hinv : inv.Stamped P) (dev : Device) (now : ℕ) :
    (inv.sweepBucket dev now c).Stamped P := by
  rw [Inventory.sweepBucket]
  split
  · exact hinv
  · exact (hinv.filterItems _ _ _).indexDropIfEmpty

/-- What goes with a primary context leaves no new stamps. -/
theorem Stamped.forgetPrimary (hinv : inv.Stamped P) (g : Generations) (dev : Device) :
    (inv.forgetPrimary g dev).Stamped P := by
  have hfold : ∀ cs : List CUcontext, ∀ inv : Inventory, inv.Stamped P →
      (cs.foldl (fun inv c => inv.sweepBucket dev (g.generation dev) c) inv).Stamped P := by
    intro cs
    induction cs with
    | nil => exact fun _ hinv => hinv
    | cons c cs ih => exact fun inv hinv => ih _ (hinv.sweepBucket dev _)
  rw [Inventory.forgetPrimary]
  exact (hfold _ inv hinv).filterCaptures _

/-- A capture begins with a stamp that has the property. -/
theorem Stamped.beginCapture (hinv : inv.Stamped P) (stream : ℕ) {st : Stamp} (hst : P st) :
    (inv.beginCapture stream st).Stamped P := by
  refine ⟨hinv.items, hinv.handles, fun o ho => ?_⟩
  rcases List.mem_append.mp ho with hmem | hmem
  · exact hinv.captures o hmem
  · rw [List.mem_singleton.mp hmem]
    exact hst

/-- With one capture less there are no new stamps. -/
theorem Stamped.forgetCapture (hinv : inv.Stamped P) (stream : ℕ) (c : CUcontext) :
    (inv.forgetCapture stream c).Stamped P :=
  hinv.sub (fun _ _ _ hst => hst) (fun _ _ hl => hl) fun _ ho => List.mem_of_mem_eraseP ho

/-- Captures are not indexed. -/
theorem Indexed.forgetCapture (hinv : inv.Indexed) (stream : ℕ) (c : CUcontext) :
    (inv.forgetCapture stream c).Indexed := hinv.congr rfl fun _ _ => made_congr rfl rfl

/-- Captures are not indexed. -/
theorem Indexed.beginCapture (hinv : inv.Indexed) (stream : ℕ) (st : Stamp) :
    (inv.beginCapture stream st).Indexed := hinv.congr rfl fun _ _ => made_congr rfl rfl

/-- Nothing is recorded at first, and nothing once the inventory has been released. -/
theorem indexed_empty : ({} : Inventory).Indexed := by
  refine ⟨⟨rfl, fun c e he => ?_⟩, fun c _ slot h => ?_⟩
  · cases he
  · cases slot <;> simp [listedUnder, Inventory.made]

/-- An inventory that records nothing has no stamps. -/
theorem stamped_empty : ({} : Inventory).Stamped P :=
  ⟨fun _ _ _ hst => by simp at hst, fun _ _ hl => by simp at hl, fun _ ho => by simp at ho⟩

end Inventory

/-! ## A session's record over any sequence of operations -/

/-- One stable primary handle for each device. -/
structure PrimaryHandles where
  /-- The handle. -/
  handle : Device → CUcontext
  /-- Two devices have two primary contexts. -/
  injective : Function.Injective handle

/-- The record of a session beside the tables of the process, and the stamps taken so far: one is
taken before the driver call that makes something, and used after it. -/
structure Recording where
  gens : Generations := {}
  inv : Inventory := {}
  taken : List Stamp := []

/-- What is done to the record and to the tables. -/
inductive RecordAction
  /-- A retain hands out the primary context of a device (`learn_primary`). -/
  | learnPrimary (dev : Device)
  /-- The primary context of a device is seen destroyed (`bump_generation`). -/
  | bumpGeneration (dev : Device)
  /-- A stamp is taken with this context current. -/
  | stamp (current : CUcontext)
  /-- A stamp is taken of where `source` was recorded. -/
  | stampOf (which : ItemKind) (source : ℕ) (current : CUcontext)
  | note (which : ItemKind) (handle : ℕ) (st : Stamp)
  | forget (which : ItemKind) (handle : ℕ)
  | noteHandle (handle : ℕ) (l : LibHandle)
  | forgetHandle (handle : ℕ)
  | forgetContext (ctx : CUcontext)
  | forgetPrimary (dev : Device)
  | beginCapture (stream : ℕ) (st : Stamp)
  | endCapture (stream : ℕ) (ctx : CUcontext)
  /-- `release_inventory` takes everything out. -/
  | release

namespace Recording

/-- A stamp that an entry can be given: one that was taken, or `Stamp{}` for what belongs to no
context. -/
def has (s : Recording) (st : Stamp) : Bool := st ∈ s.taken || st = {}

/-- One operation. -/
def step (p : PrimaryHandles) (s : Recording) : RecordAction → Option Recording
  | .learnPrimary dev => some { s with gens := s.gens.learnPrimary (p.handle dev) dev }
  | .bumpGeneration dev => some { s with gens := s.gens.bumpGeneration dev }
  | .stamp current => some { s with taken := s.gens.stampContext current :: s.taken }
  | .stampOf which source current =>
      some { s with taken := s.inv.stampOf s.gens current which source :: s.taken }
  | .note which handle st => if s.has st then some { s with inv := s.inv.note which handle st } else none
  | .forget which handle => some { s with inv := s.inv.forget which handle }
  | .noteHandle handle l => if s.has l.made then some { s with inv := s.inv.noteHandle handle l } else none
  | .forgetHandle handle => some { s with inv := s.inv.forgetHandle handle }
  | .forgetContext ctx => some { s with inv := s.inv.forgetContext ctx }
  | .forgetPrimary dev => some { s with inv := s.inv.forgetPrimary s.gens dev }
  | .beginCapture stream st => if s.has st then some { s with inv := s.inv.beginCapture stream st } else none
  | .endCapture stream ctx => some { s with inv := s.inv.forgetCapture stream ctx }
  | .release => some { s with inv := {} }

/-- A stamp that names a device has the handle learned for it. -/
def Placed (g : Generations) (st : Stamp) : Prop :=
  ∀ d, st.dev = some d → g.primaryDev.find st.ctx = some d

/-- What holds of the record in every run. -/
structure Kept (p : PrimaryHandles) (s : Recording) : Prop where
  learned : ∀ c d, s.gens.primaryDev.find c = some d → c = p.handle d ∧ c ≠ 0
  indexed : s.inv.Indexed
  stamped : s.inv.Stamped (Placed s.gens)
  taken : ∀ st ∈ s.taken, Placed s.gens st

variable {p : PrimaryHandles} {s t : Recording}

/-- The stamp of an unknown place says nothing about a device. -/
theorem placed_default (g : Generations) : Placed g {} := fun d hd => by cases hd

/-- A stamp taken in a context is placed where the tables have that context. -/
theorem placed_stampContext (g : Generations) (c : CUcontext) : Placed g (g.stampContext c) := by
  intro d hd
  rw [Generations.stampContext] at hd ⊢
  split at hd
  · cases hd
  · rename_i d' hd'
    cases hd
    exact hd'

/-- The stamps a session has are placed. -/
theorem Kept.placed_has (hs : s.Kept p) {st : Stamp} (hst : s.has st = true) : Placed s.gens st := by
  rw [has, Bool.or_eq_true, decide_eq_true_iff, decide_eq_true_iff] at hst
  rcases hst with hmem | rfl
  · exact hs.taken st hmem
  · exact placed_default _

/-- A stamp is taken from the source it names, or in the current context. -/
theorem placed_stampOf {g : Generations} {inv : Inventory} (hinv : inv.Stamped (Placed g)) (which : ItemKind)
    (source : ℕ) (current : CUcontext) : Placed g (inv.stampOf g current which source) := by
  rw [Inventory.stampOf]
  split
  · exact placed_stampContext _ _
  · split
    · rename_i st hst
      exact hinv.items which source st hst
    · exact placed_stampContext g current

/-- The null handle is never learned. -/
theorem Kept.zero_notMem (hs : s.Kept p) (dev : Device) : 0 ∉ s.gens.primaryHandles dev := by
  intro h
  exact (hs.learned 0 dev (Generations.mem_primaryHandles.mp h)).2 rfl

/-- Learning a handle leaves what was placed where it is. -/
theorem Kept.placed_learnPrimary (hs : s.Kept p) (dev : Device) {st : Stamp} (hst : Placed s.gens st) :
    Placed (s.gens.learnPrimary (p.handle dev) dev) st := by
  intro d hd
  rw [Generations.learnPrimary]
  split
  · exact hst d hd
  · rw [Table.find_insert]
    split
    · rename_i hctx
      have hd' := (hs.learned _ d (hst d hd)).1
      rw [p.injective (hctx.symm.trans hd')]
    · exact hst d hd

/-- A new inventory that is indexed and placed keeps the invariant. -/
theorem Kept.withInv (hs : s.Kept p) {inv : Inventory} (hindexed : inv.Indexed)
    (hstamped : inv.Stamped (Placed s.gens)) : Kept p { s with inv := inv } :=
  ⟨hs.learned, hindexed, hstamped, hs.taken⟩

/-- A stamp taken keeps the invariant. -/
theorem Kept.take (hs : s.Kept p) {st : Stamp} (hst : Placed s.gens st) :
    Kept p { s with taken := st :: s.taken } := by
  refine ⟨hs.learned, hs.indexed, hs.stamped, fun st' hst' => ?_⟩
  rcases List.mem_cons.mp hst' with rfl | hmem
  · exact hst
  · exact hs.taken st' hmem

/-- **Each operation keeps the invariant.** -/
theorem Kept.step (hs : s.Kept p) {a : RecordAction} (hstep : s.step p a = some t) : t.Kept p := by
  cases a with
  | learnPrimary dev =>
      obtain rfl := Option.some.inj hstep
      refine ⟨fun c d hc => ?_, hs.indexed, hs.stamped.mono fun st => hs.placed_learnPrimary dev,
        fun st hst => hs.placed_learnPrimary dev (hs.taken st hst)⟩
      rw [Generations.learnPrimary] at hc
      split at hc
      · exact hs.learned c d hc
      · rename_i hnull
        rw [Table.find_insert] at hc
        split at hc
        · rename_i hctx
          cases hc
          exact ⟨hctx, hctx ▸ hnull⟩
        · exact hs.learned c d hc
  | bumpGeneration dev =>
      obtain rfl := Option.some.inj hstep
      exact ⟨hs.learned, hs.indexed, hs.stamped, hs.taken⟩
  | stamp current =>
      obtain rfl := Option.some.inj hstep
      exact hs.take (placed_stampContext _ _)
  | stampOf which source current =>
      obtain rfl := Option.some.inj hstep
      exact hs.take (placed_stampOf hs.stamped which source current)
  | note which handle st =>
      simp only [Recording.step, Option.ite_none_right_eq_some, Option.some.injEq] at hstep
      obtain ⟨hst, rfl⟩ := hstep
      exact hs.withInv (hs.indexed.note which handle st)
        (hs.stamped.note which handle (hs.placed_has hst))
  | forget which handle =>
      obtain rfl := Option.some.inj hstep
      exact hs.withInv (hs.indexed.forget which handle) (hs.stamped.forget which handle)
  | noteHandle handle l =>
      simp only [Recording.step, Option.ite_none_right_eq_some, Option.some.injEq] at hstep
      obtain ⟨hst, rfl⟩ := hstep
      exact hs.withInv (hs.indexed.noteHandle handle l)
        (hs.stamped.noteHandle handle (hs.placed_has hst))
  | forgetHandle handle =>
      obtain rfl := Option.some.inj hstep
      exact hs.withInv (hs.indexed.forgetHandle handle) (hs.stamped.forgetHandle handle)
  | forgetContext ctx =>
      obtain rfl := Option.some.inj hstep
      exact hs.withInv (hs.indexed.forgetContext ctx) (hs.stamped.forgetContext ctx)
  | forgetPrimary dev =>
      obtain rfl := Option.some.inj hstep
      exact hs.withInv (hs.indexed.forgetPrimary s.gens dev (hs.zero_notMem dev))
        (hs.stamped.forgetPrimary s.gens dev)
  | beginCapture stream st =>
      simp only [Recording.step, Option.ite_none_right_eq_some, Option.some.injEq] at hstep
      obtain ⟨hst, rfl⟩ := hstep
      exact hs.withInv (hs.indexed.beginCapture stream st)
        (hs.stamped.beginCapture stream (hs.placed_has hst))
  | endCapture stream ctx =>
      obtain rfl := Option.some.inj hstep
      exact hs.withInv (hs.indexed.forgetCapture stream ctx) (hs.stamped.forgetCapture stream ctx)
  | release =>
      obtain rfl := Option.some.inj hstep
      exact hs.withInv Inventory.indexed_empty Inventory.stamped_empty

/-- The invariant holds in every state of every run. -/
theorem always_kept (p : PrimaryHandles) : Always (step p) (fun _ _ => True) {} (Kept p) := by
  refine Always.of_step ?_ fun _ _ _ hs _ hstep => hs.step hstep
  exact ⟨fun c d hc => by simp at hc, Inventory.indexed_empty, Inventory.stamped_empty,
    fun st hst => by simp at hst⟩

/-- **The reverse index agrees with a full scan**, after any sequence of operations: a bucket lists
exactly what was made in its context, there is none for the null context and none that is empty, and
forgetting a context or an ended generation through the index is the plain scan. Only the null context
is not scanned for: what was made with none current stays. -/
theorem reverse_index_agrees (p : PrimaryHandles) (as : List RecordAction) (s : Recording)
    (hrun : run (step p) {} as = some s) :
    (∀ c, c ≠ 0 → ∀ slot h, h ∈ s.inv.listedUnder c slot ↔
      ∃ st, s.inv.made slot h = some st ∧ st.ctx = c) ∧
    s.inv.byCtx.find 0 = none ∧
    (∀ c b, s.inv.byCtx.find c = some b → b.isEmpty = false) ∧
    (∀ c, c ≠ 0 → (s.inv.forgetContext c).unindexed = (s.inv.scanContext c).unindexed) ∧
    s.inv.forgetContext 0 = (s.inv.setItems .contexts ((s.inv.items .contexts).erase 0)).filterCaptures
      (fun st => st.ctx ≠ 0) ∧
    ∀ dev, (s.inv.forgetPrimary s.gens dev).unindexed = (s.inv.scanPrimary s.gens dev).unindexed := by
  have hs : s.Kept p := always_kept p as s (along_true _ _ _) hrun
  refine ⟨hs.indexed.agrees, hs.indexed.null, hs.indexed.buckets,
    fun c hc => hs.indexed.forgetContext_eq_scan hc, hs.indexed.toTidy.forgetContext_zero,
    fun dev => ?_⟩
  refine hs.indexed.forgetPrimary_eq_scan s.gens dev (hs.zero_notMem dev) fun slot h st hst hdev => ?_
  exact Generations.mem_primaryHandles.mpr (hs.stamped.made hst dev hdev)

/-- A handle of its own for each device. -/
def someHandles : PrimaryHandles := ⟨fun d => d + 2, fun _ _ h => Nat.add_right_cancel h⟩

/-- Two allocations in the primary context of device 0, one of them before it is destroyed, and a
stream made with no context current. -/
def scanned : List RecordAction :=
  [.learnPrimary 0, .stamp 2, .note .allocs 4096 { ctx := 2, dev := some 0 }, .bumpGeneration 0,
    .stamp 2, .note .allocs 8192 { ctx := 2, dev := some 0, gen := 1 },
    .stamp 0, .note .streams 64 {}]

/-- Two allocations are listed under a primary context; when it has ended, both are forgotten. -/
theorem reverse_index_agrees_scanned : ∃ s, run (step someHandles) {} scanned = some s ∧
    s.inv.listedUnder 2 (some .kAllocs) = {4096, 8192} ∧
    ((s.inv.forgetPrimary s.gens 0).items .allocs).find 4096 = none ∧
    (s.inv.forgetPrimary s.gens 0).unindexed = (s.inv.scanPrimary s.gens 0).unindexed := by
  have hsome : (run (step someHandles) {} scanned).isSome = true := by decide
  obtain ⟨s, hs⟩ := Option.isSome_iff_exists.mp hsome
  have hlisted : (run (step someHandles) {} scanned).map
      (fun s => s.inv.listedUnder 2 (some .kAllocs)) = some {4096, 8192} := by decide
  have hgone : (run (step someHandles) {} scanned).map
      (fun s => ((s.inv.forgetPrimary s.gens 0).items .allocs).find 4096) = some none := by decide
  rw [hs, Option.map_some, Option.some.injEq] at hlisted hgone
  exact ⟨s, hs, hlisted, hgone,
    (reverse_index_agrees someHandles scanned s hs).2.2.2.2.2 0⟩

/-- Destroying the null context would, by the plain scan, forget the stream that was made with none
current; through the index it does not. -/
theorem null_context_not_scanned : ∃ s, run (step someHandles) {} scanned = some s ∧
    (s.inv.forgetContext 0).unindexed ≠ (s.inv.scanContext 0).unindexed := by
  have hsome : (run (step someHandles) {} scanned).isSome = true := by decide
  obtain ⟨s, hs⟩ := Option.isSome_iff_exists.mp hsome
  have hkept : (run (step someHandles) {} scanned).map
      (fun s => ((s.inv.forgetContext 0).items .streams).find 64) = some (some {}) := by decide
  have hscanned : (run (step someHandles) {} scanned).map
      (fun s => ((s.inv.scanContext 0).items .streams).find 64) = some none := by decide
  rw [hs, Option.map_some, Option.some.injEq] at hkept hscanned
  refine ⟨s, hs, fun heq => ?_⟩
  have hitems := congrArg (fun inv : Inventory => (inv.items .streams).find 64) heq
  change ((s.inv.forgetContext 0).items .streams).find 64 =
    ((s.inv.scanContext 0).items .streams).find 64 at hitems
  rw [hkept, hscanned] at hitems
  cases hitems

end Recording

end Rgpu
