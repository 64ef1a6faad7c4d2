import Rgpu.Foundations.StepSystem
import Rgpu.Foundations.Table
import Mathlib.Algebra.Group.Nat.Defs
import Mathlib.Logic.Function.Basic

/-! # cuDNN descriptors (`cudnn_impl.cpp`, `cudnn_server.cpp`)

The client chooses the value of a descriptor's handle itself, from a counter of 32 bits, and the server maps it to
the descriptor. A request reaches the server once, in the order in which requests are queued under the client's
lock, and the server's thread serves the session for all its connections: a run is that order, with what the
library makes of each request.

* **`mintHandle`**, **`minted`**, **`resolve`** — the values.
* **`serveCreate`**, **`serveDestroy`**, **`serveUse`** — the server's map, and what it passes to the library.
* **`handles_resolve`** — the handles of a run that mints no value twice. -/

namespace Rgpu.Cudnn

open Foundations

/-! ### The source -/

/-- `kHandleTag` -/
def handleTag : ℕ := 0x52475055 <<< 32

/-- `mint_handle`, of the counter's value. -/
def mintHandle (n : ℕ) : ℕ := handleTag ||| n

/-- `minted` -/
def minted (v : ℕ) : Bool := v >>> 32 = handleTag >>> 32

/-- `t_handles` -/
abbrev Handles := Table ℕ ℕ

/-- `resolve`: a value that was not minted is passed as it is. -/
def resolve (handles : Handles) (v : ℕ) : Option ℕ :=
  if minted v then handles.find v else some v

/-- The calls, those that create and destroy descriptors apart. -/
inductive Api
  | cudnnDestroy | cudnnSetStream | cudnnGetStream
  | cudnnBackendInitialize | cudnnBackendFinalize | cudnnBackendSetAttribute | cudnnBackendGetAttribute
  | cudnnBackendExecute
  | cudnnSetTensorNdDescriptor | cudnnGetTensorNdDescriptor | cudnnDeriveBNTensorDescriptor
  | cudnnSetActivationDescriptor
  | cudnnBatchNormalizationForwardInference
  | cudnnGetBatchNormalizationForwardTrainingExWorkspaceSize | cudnnGetBatchNormalizationBackwardExWorkspaceSize
  | cudnnGetBatchNormalizationTrainingExReserveSpaceSize
  | cudnnBatchNormalizationForwardTrainingEx | cudnnBatchNormalizationBackwardEx
  deriving DecidableEq

/-- How many pointers the server reads for a call, with `get_ptr`; of a size query with those that it counts. -/
def Api.pointers : Api → ℕ
  | cudnnDestroy => 1
  | cudnnSetStream => 2
  | cudnnGetStream => 1
  | cudnnBackendInitialize => 1
  | cudnnBackendFinalize => 1
  | cudnnBackendSetAttribute => 1
  | cudnnBackendGetAttribute => 1
  | cudnnBackendExecute => 3
  | cudnnSetTensorNdDescriptor => 1
  | cudnnGetTensorNdDescriptor => 1
  | cudnnDeriveBNTensorDescriptor => 2
  | cudnnSetActivationDescriptor => 1
  | cudnnBatchNormalizationForwardInference => 10
  | cudnnGetBatchNormalizationForwardTrainingExWorkspaceSize => 6
  | cudnnGetBatchNormalizationBackwardExWorkspaceSize => 8
  | cudnnGetBatchNormalizationTrainingExReserveSpaceSize => 3
  | cudnnBatchNormalizationForwardTrainingEx => 17
  | cudnnBatchNormalizationBackwardEx => 21

/-- The types of the elements of an attribute array, by what the server does with them. -/
inductive AttributeType
  /-- `CUDNN_TYPE_BACKEND_DESCRIPTOR` -/
  | descriptor
  /-- `CUDNN_TYPE_VOID_PTR` and `CUDNN_TYPE_HANDLE` -/
  | pointer
  /-- Numbers and enumerations. -/
  | data
  deriving DecidableEq

/-- A request: the pointers in it, the attribute array, and whether the rest of it can be read and is in range. -/
structure Use where
  api : Api
  pointers : List ℕ
  array : Option (AttributeType × List ℕ) := none
  wellFormed : Bool := true

/-- `resolve_descriptors`; of another type the array is passed as it is. -/
def resolveAttribute (handles : Handles) : Option (AttributeType × List ℕ) → Option (List (ℕ × ℕ))
  | some (.descriptor, vs) => do
      let ps ← vs.mapM (resolve handles)
      pure (vs.zip ps)
  -- pointers of the device are passed on as they are
  | some (.pointer, vs) => some (vs.map fun v => (v, v))
  | some (.data, _) => some []
  | none => some []

/-- What the server passes to the library for a request, each pointer beside the value that was sent for it; nothing
if the request is refused. -/
def serveUse (fn : Bool) (handles : Handles) (u : Use) : List (ℕ × ℕ) :=
  if fn ∧ u.pointers.length = u.api.pointers ∧ u.wellFormed then
    ((do
      let ps ← u.pointers.mapM (resolve handles)
      let es ← resolveAttribute handles u.array
      pure (u.pointers.zip ps ++ es) : Option (List (ℕ × ℕ))).getD [])
  else []

/-- The descriptor that a creation makes: of a value that was minted, if the library makes one. -/
def created (fn : Bool) (v : ℕ) (made : Option ℕ) : Option ℕ :=
  if fn ∧ minted v then made else none

/-- `cudnnBackendCreateDescriptor` and its like, on the server. -/
def serveCreate (handles : Handles) (v : ℕ) : Option ℕ → Handles
  | some d => handles.insert v d
  | none => handles

/-- `cudnnBackendDestroyDescriptor` and its like: the entry goes whatever the library says. -/
def serveDestroy (fn : Bool) (handles : Handles) (v : ℕ) : Handles × List (ℕ × ℕ) :=
  match resolve handles v with
  | some d => if fn then (handles.erase v, [(v, d)]) else (handles, [])
  | none => (handles, [])

/-! ### Runs -/

/-- How far a creation is. -/
inductive Phase
  /-- The request is not queued, and may never be. -/
  | minted
  | made (d : ℕ)
  | failed
  deriving DecidableEq

/-- A call that creates a descriptor. -/
structure Creation where
  handle : ℕ
  phase : Phase := .minted
  /-- The application was given the handle. -/
  returned : Bool := false
  /-- The application has destroyed it. -/
  destroyed : Bool := false
  deriving DecidableEq

/-- Client and server, with the creations by their number and what was passed to the library. -/
structure Session where
  /-- `g_next_handle` -/
  next : ℕ := 1
  handles : Handles := .empty
  count : ℕ := 0
  creations : ℕ → Option Creation := fun _ => none
  passed : List (ℕ × ℕ) := []

/-- What can happen. -/
inductive Action
  | mint
  /-- The request of creation `k` is queued; whether the caller is given the handle does not wait for the server. -/
  | create (k : ℕ) (returned fn : Bool) (made : Option ℕ)
  | destroy (v : ℕ) (fn : Bool)
  | use (u : Use) (fn : Bool)

namespace Session

/-- A destruction of a value is one of the creations that have been queued with it. -/
def destroyed (creations : ℕ → Option Creation) (v : ℕ) : ℕ → Option Creation := fun k =>
  (creations k).map fun c => if c.handle = v ∧ c.phase ≠ .minted then { c with destroyed := true } else c

def mint (s : Session) : Session :=
  { s with
    next := (s.next + 1) % 2 ^ 32
    count := s.count + 1
    creations := Function.update s.creations s.count (some { handle := mintHandle s.next }) }

/-- The request of creation `k`, of which the server makes `d`. -/
def create (s : Session) (k : ℕ) (c : Creation) (returned : Bool) (d : Option ℕ) : Session :=
  { s with
    handles := serveCreate s.handles c.handle d
    creations := Function.update s.creations k (some { c with phase := d.elim .failed .made, returned := returned }) }

def destroy (s : Session) (v : ℕ) (fn : Bool) : Session :=
  { s with
    handles := (serveDestroy fn s.handles v).1
    creations := destroyed s.creations v
    passed := s.passed ++ (serveDestroy fn s.handles v).2 }

def step (s : Session) : Action → Option Session
  | .mint => some s.mint
  | .create k returned fn made =>
      match s.creations k with
      | none => none
      | some c => if c.phase = .minted then some (s.create k c returned (created fn c.handle made)) else none
  | .destroy v fn => some (s.destroy v fn)
  | .use u fn => some { s with passed := s.passed ++ serveUse fn s.handles u }

/-- The server learns of a value only when the request that has it is served. -/
@[simp] theorem mint_handles (s : Session) : s.mint.handles = s.handles := rfl

/-- The new creation has the counter's value. -/
@[simp] theorem mint_creations (s : Session) : s.mint.creations =
    Function.update s.creations s.count (some { handle := mintHandle s.next }) := rfl

/-- The creation that is served enters what the library made into the server's map. -/
@[simp] theorem create_handles (s : Session) (k : ℕ) (c : Creation) (returned : Bool) (d : Option ℕ) :
    (s.create k c returned d).handles = serveCreate s.handles c.handle d := rfl

/-- The creation that is served has been made or has failed, and the client was told or not. -/
@[simp] theorem create_creations (s : Session) (k : ℕ) (c : Creation) (returned : Bool) (d : Option ℕ) :
    (s.create k c returned d).creations = Function.update s.creations k
      (some { c with phase := d.elim .failed .made, returned := returned }) := rfl

/-- The destruction that is served takes the value out of the server's map. -/
@[simp] theorem destroy_handles (s : Session) (v : ℕ) (fn : Bool) :
    (s.destroy v fn).handles = (serveDestroy fn s.handles v).1 := rfl

/-- Every creation of the value is destroyed. -/
@[simp] theorem destroy_creations (s : Session) (v : ℕ) (fn : Bool) :
    (s.destroy v fn).creations = destroyed s.creations v := rfl

/-- No value is minted twice, no array of another type than descriptors holds a minted value, and the library has
what destroys. -/
def Fresh (s : Session) : Action → Prop
  | .mint => s.count < 2 ^ 32
  | .create _ _ _ _ => True
  | .destroy _ fn => fn = true
  | .use u _ => ∀ vs, u.array = some (.pointer, vs) → ∀ v ∈ vs, minted v = false

/-- The handles are right: a creation that made a descriptor resolves to it until it is destroyed; one that failed,
or was destroyed, is refused; creations have different handles; and what the library was passed for a minted value
is the descriptor of its creation. -/
structure Right (s : Session) : Prop where
  live : ∀ k c d, s.creations k = some c → c.phase = .made d → c.destroyed = false →
    resolve s.handles c.handle = some d
  refused : ∀ k c, s.creations k = some c → c.phase = .failed ∨ c.destroyed = true →
    resolve s.handles c.handle = none
  distinct : ∀ k k' c c', s.creations k = some c → s.creations k' = some c' → c.handle = c'.handle → k = k'
  passed : ∀ v p, (v, p) ∈ s.passed →
    (minted v = false ∧ p = v) ∨ ∃ k c, s.creations k = some c ∧ c.handle = v ∧ c.phase = .made p

end Session

/-! ### Values -/

/-- A value is the tag above 32 bits of the counter. -/
theorem mintHandle_eq {n : ℕ} (h : n < 2 ^ 32) : mintHandle n = 0x52475055 * 2 ^ 32 + n := by
  rw [mintHandle, handleTag, ← Nat.shiftLeft_add_eq_or_of_lt h, Nat.shiftLeft_eq]

/-- A value counts as minted by its upper 32 bits alone. -/
theorem minted_iff {v : ℕ} : minted v = true ↔ v / 2 ^ 32 = 0x52475055 := by
  rw [minted, decide_eq_true_iff, handleTag, Nat.shiftRight_eq_div_pow, Nat.shiftLeft_shiftRight]

/-- What is minted is known for it. -/
theorem minted_mintHandle {n : ℕ} (h : n < 2 ^ 32) : minted (mintHandle n) = true := by
  rw [minted_iff, mintHandle_eq h]
  omega

/-- Two counts below 2^32 mint different values. -/
theorem mintHandle_inj {m n : ℕ} (hm : m < 2 ^ 32) (hn : n < 2 ^ 32) (h : mintHandle m = mintHandle n) : m = n := by
  rw [mintHandle_eq hm, mintHandle_eq hn] at h
  omega

/-- A minted value is resolved through the map. -/
theorem resolve_of_minted {v : ℕ} (h : minted v = true) (handles : Handles) :
    resolve handles v = handles.find v := by
  rw [resolve, if_pos h]

/-! ### What is passed -/

/-- An array that is resolved as a whole is resolved value by value. -/
theorem resolve_of_mapM {handles : Handles} {vs ps : List ℕ} (h : vs.mapM (resolve handles) = some ps) {v p : ℕ}
    (hmem : (v, p) ∈ vs.zip ps) : resolve handles v = some p := by
  induction vs generalizing ps with
  | nil => cases hmem
  | cons w vs ih =>
      rw [List.mapM_cons] at h
      obtain ⟨q, hq, h⟩ := Option.bind_eq_some_iff.mp h
      obtain ⟨qs, hqs, h⟩ := Option.bind_eq_some_iff.mp h
      cases h
      rcases List.mem_cons.mp hmem with heq | hmem
      · cases heq
        exact hq
      · exact ih hqs hmem

/-- Every value of an attribute goes to the library as `resolve` has it; plain pointers only if none
of them looks minted. -/
theorem resolveAttribute_spec {handles : Handles} {array : Option (AttributeType × List ℕ)} {es : List (ℕ × ℕ)}
    (h : resolveAttribute handles array = some es)
    (hpointers : ∀ vs, array = some (.pointer, vs) → ∀ v ∈ vs, minted v = false) {v p : ℕ} (hmem : (v, p) ∈ es) :
    resolve handles v = some p := by
  unfold resolveAttribute at h
  split at h
  · obtain ⟨ps, hps, h⟩ := Option.bind_eq_some_iff.mp h
    cases h
    exact resolve_of_mapM hps hmem
  · rename_i vs
    cases h
    -- in an array of pointers nothing is minted
    obtain ⟨w, hw, heq⟩ := List.mem_map.mp hmem
    cases heq
    rw [resolve, if_neg (by rw [hpointers vs rfl v hw]; exact Bool.false_ne_true)]
  · cases h
    cases hmem
  · cases h
    cases hmem

/-- All that a request passes stands for what was sent. -/
theorem serveUse_spec {fn : Bool} {handles : Handles} {u : Use}
    (hpointers : ∀ vs, u.array = some (.pointer, vs) → ∀ v ∈ vs, minted v = false) {v p : ℕ}
    (hmem : (v, p) ∈ serveUse fn handles u) : resolve handles v = some p := by
  unfold serveUse at hmem
  split at hmem
  · cases hps : u.pointers.mapM (resolve handles) with
    | none =>
        rw [hps] at hmem
        cases hmem
    | some ps =>
        cases hes : resolveAttribute handles u.array with
        | none =>
            rw [hps, hes] at hmem
            cases hmem
        | some es =>
            rw [hps, hes] at hmem
            rcases List.mem_append.mp hmem with hmem | hmem
            · exact resolve_of_mapM hps hmem
            · exact resolveAttribute_spec hes hpointers hmem
  · cases hmem

/-- What is passed to the library for a destruction is what the value is resolved to. -/
theorem serveDestroy_spec {fn : Bool} {handles : Handles} {w v p : ℕ}
    (hmem : (v, p) ∈ (serveDestroy fn handles w).2) : resolve handles v = some p := by
  unfold serveDestroy at hmem
  split at hmem
  · rename_i d hd
    split at hmem
    · cases List.mem_singleton.mp hmem
      exact hd
    · cases hmem
  · cases hmem

/-! ### The invariant -/

namespace Session

/-- The creation that a descriptor in the server's map is of. -/
def Holds (creations : ℕ → Option Creation) (v d : ℕ) : Prop :=
  ∃ k c, creations k = some c ∧ c.handle = v ∧ c.phase = .made d ∧ c.destroyed = false

/-- What was passed for a value: itself, or the descriptor of the creation that the value was minted for. -/
def Passed (creations : ℕ → Option Creation) (v p : ℕ) : Prop :=
  (minted v = false ∧ p = v) ∨ ∃ k c, creations k = some c ∧ c.handle = v ∧ c.phase = .made p

/-- The counter counts the creations, whose handles are its values, and the server's map has those that made a
descriptor and are not destroyed. -/
structure Kept (s : Session) : Prop where
  next : s.next = (1 + s.count) % 2 ^ 32
  count : s.count ≤ 2 ^ 32
  numbered : ∀ k c, s.creations k = some c → k < s.count ∧ c.handle = mintHandle ((1 + k) % 2 ^ 32)
  idle : ∀ k c, s.creations k = some c → c.phase = .minted → c.destroyed = false
  entry : ∀ v d, s.handles.find v = some d ↔ Holds s.creations v d
  passed : ∀ v p, (v, p) ∈ s.passed → Passed s.creations v p

namespace Kept

variable {s : Session} {k k' v d : ℕ} {c c' : Creation}

/-- Every creation has a minted value. -/
theorem minted (h : Kept s) (hc : s.creations k = some c) : minted c.handle = true := by
  rw [(h.numbered k c hc).2]
  exact minted_mintHandle (Nat.mod_lt _ (by decide))

/-- No value was minted twice. -/
theorem distinct (h : Kept s) (hc : s.creations k = some c) (hc' : s.creations k' = some c')
    (heq : c.handle = c'.handle) : k = k' := by
  obtain ⟨hk, hhandle⟩ := h.numbered k c hc
  obtain ⟨hk', hhandle'⟩ := h.numbered k' c' hc'
  have hcount := h.count
  rw [hhandle, hhandle'] at heq
  have := mintHandle_inj (Nat.mod_lt _ (by decide)) (Nat.mod_lt _ (by decide)) heq
  omega

/-- What stands for a value is passed for it. -/
theorem passed_of_resolve (h : Kept s) {p : ℕ} (hp : resolve s.handles v = some p) : Passed s.creations v p := by
  rw [resolve] at hp
  split at hp
  · obtain ⟨k, c, hc, hhandle, hphase, -⟩ := (h.entry v p).mp hp
    exact .inr ⟨k, c, hc, hhandle, hphase⟩
  · rename_i hnot
    cases hp
    exact .inl ⟨Bool.eq_false_iff.mpr hnot, rfl⟩

end Kept

/-- What was made stays made, under its handle. -/
theorem Passed.mono {creations creations' : ℕ → Option Creation} {v p : ℕ} (h : Passed creations v p)
    (hmade : ∀ k c d, creations k = some c → c.phase = .made d →
      ∃ c', creations' k = some c' ∧ c'.handle = c.handle ∧ c'.phase = .made d) : Passed creations' v p := by
  rcases h with h | ⟨k, c, hc, rfl, hphase⟩
  · exact .inl h
  · obtain ⟨c', hc', hhandle, hphase'⟩ := hmade k c p hc hphase
    exact .inr ⟨k, c', hc', hhandle, hphase'⟩

/-- A value is minted that no creation has, before the counter comes round. -/
theorem kept_mint {s : Session} (h : Kept s) (hcount : s.count < 2 ^ 32) {t : Session} (hstep : s.step .mint = some t) :
    Kept t := by
  cases hstep
  -- the creations so far are numbered below the count
  have hnew : s.creations s.count = none := by
    by_contra hne
    obtain ⟨c, hc⟩ := Option.ne_none_iff_exists'.mp hne
    exact lt_irrefl _ (h.numbered _ c hc).1
  have hold : ∀ k c, s.creations k = some c →
      Function.update s.creations s.count (some { handle := mintHandle s.next }) k = some c := by
    intro k c hc
    rw [Function.update_of_ne (h.numbered k c hc).1.ne, hc]
  have hnext := h.next
  constructor
  · show (s.next + 1) % 2 ^ 32 = (1 + (s.count + 1)) % 2 ^ 32
    omega
  · exact hcount
  · intro k c hc
    rcases of_update_eq_some hc with ⟨rfl, rfl⟩ | ⟨-, hc⟩
    · exact ⟨Nat.lt_succ_self _, by rw [hnext]⟩
    · exact ⟨(h.numbered k c hc).1.trans (Nat.lt_succ_self _), (h.numbered k c hc).2⟩
  · intro k c hc hphase
    rcases of_update_eq_some hc with ⟨rfl, rfl⟩ | ⟨-, hc⟩
    · rfl
    · exact h.idle k c hc hphase
  · intro v d
    rw [mint_handles, mint_creations, h.entry]
    constructor
    · rintro ⟨k, c, hc, hrest⟩
      exact ⟨k, c, hold k c hc, hrest⟩
    · rintro ⟨k, c, hc, hhandle, hphase, hrest⟩
      rcases of_update_eq_some hc with ⟨rfl, rfl⟩ | ⟨-, hc⟩
      · cases hphase
      · exact ⟨k, c, hc, hhandle, hphase, hrest⟩
  · exact fun v p hmem => (h.passed v p hmem).mono fun k c d hc hphase => ⟨c, hold k c hc, rfl, hphase⟩

/-- The server makes an entry of a value that has none. -/
theorem kept_create {s : Session} (h : Kept s) {k : ℕ} {returned fn : Bool} {made : Option ℕ} {t : Session}
    (hstep : s.step (.create k returned fn made) = some t) : Kept t := by
  rw [step] at hstep
  split at hstep
  · cases hstep
  · rename_i c hc
    split at hstep
    · rename_i hphase
      cases hstep
      set m := created fn c.handle made
      constructor
      · exact h.next
      · exact h.count
      · intro k' c' hc'
        rcases of_update_eq_some hc' with ⟨rfl, rfl⟩ | ⟨-, hc'⟩
        · exact h.numbered _ c hc
        · exact h.numbered k' c' hc'
      · intro k' c' hc' hphase'
        rcases of_update_eq_some hc' with ⟨rfl, rfl⟩ | ⟨-, hc'⟩
        · exact h.idle _ c hc hphase
        · exact h.idle k' c' hc' hphase'
      · intro v d
        rw [create_handles, create_creations]
        have hothers : v ≠ c.handle → (Holds s.creations v d ↔ Holds (Function.update s.creations k
            (some { c with phase := m.elim .failed .made, returned := returned })) v d) := by
          intro hv
          constructor
          · rintro ⟨k', c', hc', hhandle, hrest⟩
            have hk : k' ≠ k := by
              rintro rfl
              rw [hc] at hc'
              cases hc'
              exact hv hhandle.symm
            exact ⟨k', c', (Function.update_of_ne hk _ _).trans hc', hhandle, hrest⟩
          · rintro ⟨k', c', hc', hhandle, hrest⟩
            rcases of_update_eq_some hc' with ⟨rfl, rfl⟩ | ⟨-, hc'⟩
            · exact absurd hhandle.symm hv
            · exact ⟨k', c', hc', hhandle, hrest⟩
        by_cases hv : v = c.handle
        · subst hv
          -- the value is in no other creation, and this one had made nothing
          have hnone : s.handles.find c.handle = none := by
            by_contra hne
            obtain ⟨d', hd'⟩ := Option.ne_none_iff_exists'.mp hne
            obtain ⟨k', c', hc', hhandle, hphase', -⟩ := (h.entry _ d').mp hd'
            obtain rfl := h.distinct hc' hc hhandle
            rw [hc] at hc'
            cases hc'
            rw [hphase] at hphase'
            cases hphase'
          cases hm : m with
          | none =>
              rw [serveCreate, hnone]
              refine ⟨nofun, ?_⟩
              rintro ⟨k', c', hc', hhandle, hphase', -⟩
              rcases of_update_eq_some hc' with ⟨rfl, rfl⟩ | ⟨hk, hc'⟩
              · cases hphase'
              · exact absurd (h.distinct hc' hc hhandle) hk
          | some d' =>
              rw [serveCreate, Table.find_insert_self]
              constructor
              · intro heq
                cases heq
                exact ⟨k, _, Function.update_self .., rfl, rfl, h.idle k c hc hphase⟩
              · rintro ⟨k', c', hc', hhandle, hphase', -⟩
                rcases of_update_eq_some hc' with ⟨rfl, rfl⟩ | ⟨hk, hc'⟩
                · cases hphase'
                  rfl
                · exact absurd (h.distinct hc' hc hhandle) hk
        · rw [← hothers hv, ← h.entry]
          cases m with
          | none => rfl
          | some d' => rw [serveCreate, Table.find_insert_of_ne hv]
      · refine fun v p hmem => (h.passed v p hmem).mono fun k' c' d hc' hphase' => ⟨c', ?_, rfl, hphase'⟩
        have hk : k' ≠ k := by
          rintro rfl
          rw [hc] at hc'
          cases hc'
          rw [hphase] at hphase'
          cases hphase'
        exact (Function.update_of_ne hk _ _).trans hc'
    · cases hstep

/-- A creation after a destruction, by what it was before: it is destroyed if it has the value, and
the same otherwise. -/
theorem destroyed_eq_some {creations : ℕ → Option Creation} {v k : ℕ} {c : Creation}
    (hc : destroyed creations v k = some c) : ∃ c', creations k = some c' ∧ c'.handle = c.handle ∧
      c'.phase = c.phase ∧ ((c.handle = v ∧ c.phase ≠ .minted ∧ c.destroyed = true) ∨
        ((c.handle ≠ v ∨ c.phase = .minted) ∧ c = c')) := by
  obtain ⟨c', hc', heq⟩ := Option.map_eq_some_iff.mp hc
  split at heq
  · rename_i hmark
    cases heq
    exact ⟨_, hc', rfl, rfl, .inl ⟨hmark.1, hmark.2, rfl⟩⟩
  · rename_i hmark
    cases heq
    refine ⟨_, hc', rfl, rfl, .inr ⟨?_, rfl⟩⟩
    by_contra hnot
    rw [not_or, not_not] at hnot
    exact hmark hnot

/-- A destruction leaves every creation there, with its value and what was made of it. -/
theorem destroyed_of_some {creations : ℕ → Option Creation} {v k : ℕ} {c : Creation} (hc : creations k = some c) :
    ∃ c', destroyed creations v k = some c' ∧ c'.handle = c.handle ∧ c'.phase = c.phase ∧
      (c.handle ≠ v → c' = c) := by
  rw [destroyed, hc, Option.map_some]
  split
  · rename_i hmark
    exact ⟨_, rfl, rfl, rfl, fun hne => absurd hmark.1 hne⟩
  · exact ⟨_, rfl, rfl, rfl, fun _ => rfl⟩

/-- The entry of a destroyed value is gone. -/
theorem find_serveDestroy (handles : Handles) (v w : ℕ) :
    (serveDestroy true handles v).1.find w = if w = v then none else handles.find w := by
  have hnone : resolve handles v = none → handles.find v = none := by
    intro hv
    rw [resolve] at hv
    split at hv
    · exact hv
    · cases hv
  rw [serveDestroy]
  cases hv : resolve handles v with
  | some d =>
      simp only [if_true]
      rw [Table.find_erase]
  | none =>
      dsimp only
      split
      · rename_i heq
        rw [heq, hnone hv]
      · rfl

/-- The server takes out the one entry of the value. -/
theorem kept_destroy {s : Session} (h : Kept s) {v : ℕ} {t : Session} (hstep : s.step (.destroy v true) = some t) :
    Kept t := by
  cases hstep
  have hmade : ∀ k c d, s.creations k = some c → c.phase = .made d →
      ∃ c', destroyed s.creations v k = some c' ∧ c'.handle = c.handle ∧ c'.phase = .made d := by
    intro k c d hc hphase
    obtain ⟨c', hc', hhandle, hphase', -⟩ := destroyed_of_some (v := v) hc
    exact ⟨c', hc', hhandle, hphase'.trans hphase⟩
  constructor
  · exact h.next
  · exact h.count
  · intro k c hc
    obtain ⟨c', hc', hhandle, -⟩ := destroyed_eq_some hc
    rw [← hhandle]
    exact h.numbered k c' hc'
  · intro k c hc hphase
    obtain ⟨c', hc', -, hphase', ⟨-, hnot, -⟩ | ⟨-, rfl⟩⟩ := destroyed_eq_some hc
    · exact absurd hphase hnot
    · exact h.idle k c hc' hphase
  · intro w d
    rw [destroy_handles, destroy_creations, find_serveDestroy]
    split
    · rename_i hw
      refine ⟨by rintro ⟨⟩, ?_⟩
      rintro ⟨k, c, hc, hhandle, hphase, hlive⟩
      obtain ⟨c', hc', -, -, ⟨-, -, hdead⟩ | ⟨hne | hidle, -⟩⟩ := destroyed_eq_some hc
      -- each creation with this value is destroyed now
      · rw [hdead] at hlive
        cases hlive
      · exact absurd (hhandle.trans hw) hne
      · rw [hidle] at hphase
        cases hphase
    · rename_i hw
      rw [h.entry]
      constructor
      · rintro ⟨k, c, hc, hhandle, hrest⟩
        obtain ⟨c', hc', -, -, hsame⟩ := destroyed_of_some (v := v) hc
        rw [hsame (hhandle ▸ hw)] at hc'
        exact ⟨k, c, hc', hhandle, hrest⟩
      · rintro ⟨k, c, hc, hhandle, hrest⟩
        obtain ⟨c', hc', -, -, ⟨heq, -⟩ | ⟨-, rfl⟩⟩ := destroyed_eq_some hc
        · exact absurd (hhandle.symm.trans heq) hw
        · exact ⟨k, c, hc', hhandle, hrest⟩
  · intro w p hmem
    refine Passed.mono ?_ hmade
    rcases List.mem_append.mp hmem with hmem | hmem
    · exact h.passed w p hmem
    · exact h.passed_of_resolve (serveDestroy_spec hmem)

/-- A call passes to the library what the map has, and changes neither map nor creations. -/
theorem kept_use {s : Session} (h : Kept s) {u : Use} {fn : Bool}
    (hpointers : ∀ vs, u.array = some (.pointer, vs) → ∀ v ∈ vs, minted v = false) {t : Session}
    (hstep : s.step (.use u fn) = some t) : Kept t := by
  cases hstep
  refine ⟨h.next, h.count, h.numbered, h.idle, h.entry, fun w p hmem => ?_⟩
  rcases List.mem_append.mp hmem with hmem | hmem
  · exact h.passed w p hmem
  · exact h.passed_of_resolve (serveUse_spec hpointers hmem)

/-- **Every step along `Fresh` keeps the invariant.** -/
theorem kept_step {s : Session} (h : Kept s) {a : Action} (hfresh : Fresh s a) {t : Session}
    (hstep : s.step a = some t) : Kept t := by
  cases a with
  | mint => exact kept_mint h hfresh hstep
  | create k returned fn made => exact kept_create h hstep
  | destroy v fn =>
      cases show fn = true from hfresh
      exact kept_destroy h hstep
  | use u fn => exact kept_use h hfresh hstep

/-- Nothing is minted in a session that has just begun. -/
theorem kept_init : Kept {} where
  next := rfl
  count := Nat.zero_le _
  numbered := nofun
  idle := nofun
  entry := by
    intro v d
    rw [Table.find_empty]
    refine ⟨nofun, ?_⟩
    rintro ⟨k, c, hc, -⟩
    cases hc
  passed := nofun

/-- The invariant gives what is asked of the handles. -/
theorem Kept.right {s : Session} (h : Kept s) : Right s where
  live := by
    intro k c d hc hphase hlive
    rw [resolve_of_minted (h.minted hc)]
    exact (h.entry _ d).mpr ⟨k, c, hc, rfl, hphase, hlive⟩
  refused := by
    intro k c hc hdead
    rw [resolve_of_minted (h.minted hc)]
    by_contra hne
    obtain ⟨d, hd⟩ := Option.ne_none_iff_exists'.mp hne
    obtain ⟨k', c', hc', hhandle, hphase, hlive⟩ := (h.entry _ d).mp hd
    obtain rfl := h.distinct hc' hc hhandle
    rw [hc] at hc'
    cases hc'
    rcases hdead with hfailed | hdestroyed
    · rw [hfailed] at hphase
      cases hphase
    · rw [hdestroyed] at hlive
      cases hlive
  distinct := fun k k' c c' hc hc' heq => h.distinct hc hc' heq
  passed := h.passed

/-- **Handles that are minted resolve** to the descriptors that they were minted for, in every run that mints fewer
than 2^32 of them. -/
theorem handles_resolve (as : List Action) (s : Session) (hfresh : Along step Fresh {} as)
    (hrun : run step {} as = some s) : Right s :=
  Always.imp (Always.of_step kept_init fun _ _ _ hkept hfresh hstep => kept_step hkept hfresh hstep)
    (fun _ => Kept.right) as s hfresh hrun

/-- The creation of a minted value, served. -/
theorem step_create {s : Session} {k : ℕ} {c : Creation} (hc : s.creations k = some c) (hphase : c.phase = .minted)
    (returned fn : Bool) (made : Option ℕ) :
    s.step (.create k returned fn made) = some (s.create k c returned (created fn c.handle made)) := by
  rw [step, hc]
  exact if_pos hphase

/-- A minted value is one that the server makes an entry for. -/
theorem created_mintHandle {n : ℕ} (h : n < 2 ^ 32) (made : Option ℕ) : created true (mintHandle n) made = made := by
  rw [created, if_pos ⟨rfl, minted_mintHandle h⟩]

/-- A descriptor is created that the library does not make, and then one that it makes. -/
def twoDescriptors : List Action := [.mint, .create 0 true true none, .mint, .create 1 true true (some 500)]

/-- Two descriptors are created and the first is destroyed: the first value is refused, the second
still names its descriptor. -/
theorem handles_resolve_two : ∃ s, run step {} twoDescriptors = some s ∧
    resolve s.handles (mintHandle 1) = none ∧ resolve s.handles (mintHandle 2) = some 500 := by
  have hrun : run step {} twoDescriptors = some (((({} : Session).mint.create 0 { handle := mintHandle 1 } true none).mint.create 1
      { handle := mintHandle 2 } true (some 500))) := by
    rw [twoDescriptors, run_cons, step, Option.bind_some, run_cons, step_create (c := { handle := mintHandle 1 }) rfl rfl,
      created_mintHandle (by omega), Option.bind_some, run_cons, step, Option.bind_some, run_cons,
      step_create (c := { handle := mintHandle 2 }) rfl rfl, created_mintHandle (by omega), Option.bind_some, run_nil]
  have hfresh : Along step Fresh {} twoDescriptors :=
    ⟨show (0 : ℕ) < 2 ^ 32 by omega, trivial, show (1 : ℕ) < 2 ^ 32 by omega, trivial, trivial⟩
  have hright := handles_resolve twoDescriptors _ hfresh hrun
  exact ⟨_, hrun, hright.refused 0 ⟨mintHandle 1, .failed, true, false⟩ rfl (.inl rfl),
    hright.live 1 ⟨mintHandle 2, .made 500, true, false⟩ 500 rfl rfl rfl⟩

/-! ### The counter comes round -/

/-- A descriptor is created and destroyed. -/
def cycle (n : ℕ) : List Action :=
  [.mint, .create (n + 1) true true (some 500), .destroy (mintHandle ((n + 2) % 2 ^ 32)) true]

/-- So are `n`, one after the other. -/
def cycles : ℕ → List Action
  | 0 => []
  | n + 1 => cycles n ++ cycle n

/-- A first descriptor is created, and `n` after it have come and gone. -/
structure Rounds (n : ℕ) (s : Session) : Prop where
  next : s.next = (2 + n) % 2 ^ 32
  count : s.count = n + 1
  first : s.creations 0 = some ⟨mintHandle 1, .made 400, true, false⟩
  unused : ∀ k, n < k → s.creations k = none

/-- A descriptor that is created and destroyed takes the counter one further and leaves the first
one as it is. -/
theorem rounds_cycle {n : ℕ} {s : Session} (h : Rounds n s) (hn : n < 2 ^ 32 - 1) :
    ∃ t, run step s (cycle n) = some t ∧ Rounds (n + 1) t := by
  have hother : mintHandle 1 ≠ mintHandle ((n + 2) % 2 ^ 32) := by
    intro heq
    have := mintHandle_inj (by omega) (Nat.mod_lt _ (by decide)) heq
    omega
  have hnew : s.mint.creations (n + 1) = some { handle := mintHandle s.next } := by
    rw [mint_creations, h.count, Function.update_self]
  set t := (s.mint.create (n + 1) { handle := mintHandle s.next } true
    (created true (mintHandle s.next) (some 500))).destroy (mintHandle ((n + 2) % 2 ^ 32)) true with ht
  have hothers : ∀ k, k ≠ n + 1 → t.creations k = destroyed s.creations (mintHandle ((n + 2) % 2 ^ 32)) k := by
    intro k hk
    rw [ht, destroy_creations, destroyed, create_creations, mint_creations, Function.update_of_ne hk,
      Function.update_of_ne (by rw [h.count]; exact hk), destroyed]
  refine ⟨t, ?_, ?_, ?_, ?_, ?_⟩
  · rw [cycle, run_cons, step, Option.bind_some, run_cons, step_create hnew rfl, Option.bind_some, run_cons, step,
      Option.bind_some, run_nil]
  · have := h.next
    show (s.next + 1) % 2 ^ 32 = _
    omega
  · show s.count + 1 = _
    rw [h.count]
  · rw [hothers 0 (by omega), destroyed, h.first, Option.map_some, if_neg fun heq => hother heq.1]
  · intro k hk
    rw [hothers k (by omega), destroyed, h.unused k (by omega), Option.map_none]

/-- As many such descriptors as fit in the counter leave the first one as it is. -/
theorem rounds_cycles {s : Session} (h : Rounds 0 s) {n : ℕ} (hn : n ≤ 2 ^ 32 - 1) :
    ∃ t, run step s (cycles n) = some t ∧ Rounds n t := by
  induction n with
  | zero => exact ⟨s, rfl, h⟩
  | succ n ih =>
      obtain ⟨t, ht, hrounds⟩ := ih (by omega)
      obtain ⟨u, hu, hrounds'⟩ := rounds_cycle hrounds (by omega)
      exact ⟨u, by rw [cycles, run_append, ht, Option.bind_some, hu], hrounds'⟩

/-- Handles are taken by `n` creations, the first and the last of which are live. -/
def around (n : ℕ) : List Action :=
  [.mint, .create 0 true true (some 400)] ++ cycles n ++ [.mint, .create (n + 1) true true (some 600)]

/-- After 2^32 - 1 further creations a value is minted again: two descriptors live under it, and
both resolve to the later one. -/
theorem run_around {n : ℕ} (hn : n = 2 ^ 32 - 1) : ∃ s c c', run step {} (around n) = some s ∧
    (s.creations 0 = some c ∧ c.phase = .made 400 ∧ c.returned = true ∧ c.destroyed = false) ∧
    (s.creations (n + 1) = some c' ∧ c'.phase = .made 600 ∧ c'.returned = true ∧ c'.destroyed = false) ∧
    c.handle = c'.handle ∧ resolve s.handles c.handle = some 600 := by
  obtain ⟨s, hs, hrounds⟩ : ∃ s, run step {} [.mint, .create 0 true true (some 400)] = some s ∧ Rounds 0 s := by
    refine ⟨({} : Session).mint.create 0 { handle := mintHandle 1 } true (some 400), ?_, rfl, rfl, rfl, fun k hk => ?_⟩
    · rw [run_cons, step, Option.bind_some, run_cons, step_create (c := { handle := mintHandle 1 }) rfl rfl,
        created_mintHandle (by omega), Option.bind_some, run_nil]
    · have hk' : k ≠ ({} : Session).count := hk.ne'
      rw [create_creations, mint_creations, Function.update_of_ne hk.ne', Function.update_of_ne hk']
  obtain ⟨t, ht, hround⟩ := rounds_cycles hrounds (n := n) (by omega)
  have hnext : t.next = 1 := by
    rw [hround.next]
    omega
  have hnew : t.mint.creations (n + 1) = some { handle := mintHandle 1 } := by
    rw [mint_creations, hround.count, Function.update_self, hnext]
  have hfirst : t.mint.creations 0 = some ⟨mintHandle 1, .made 400, true, false⟩ := by
    rw [mint_creations, Function.update_of_ne (by rw [hround.count]; omega), hround.first]
  refine ⟨t.mint.create (n + 1) { handle := mintHandle 1 } true (created true (mintHandle 1) (some 600)),
    ⟨mintHandle 1, .made 400, true, false⟩, _, ?_,
    ⟨?_, rfl, rfl, rfl⟩, ⟨Function.update_self .., ?_, rfl, rfl⟩, rfl, ?_⟩
  · rw [around, run_append, run_append, hs, Option.bind_some, ht, Option.bind_some, run_cons, step, Option.bind_some,
      run_cons, step_create hnew rfl, Option.bind_some, run_nil]
  · rw [create_creations, Function.update_of_ne (by omega), hfirst]
  · rw [created_mintHandle (by omega)]
    rfl
  · rw [resolve_of_minted (minted_mintHandle (by omega)), create_handles, created_mintHandle (by omega)]
    exact Table.find_insert_self _ _ _

/-- After 2^32 - 1 descriptors that came and went, another one is given the handle of the first, which resolves to it
from then on. -/
theorem handle_shared : ∃ as s k k' c c', run step {} as = some s ∧ k ≠ k' ∧
    (s.creations k = some c ∧ c.phase = .made 400 ∧ c.returned = true ∧ c.destroyed = false) ∧
    (s.creations k' = some c' ∧ c'.phase = .made 600 ∧ c'.returned = true ∧ c'.destroyed = false) ∧
    c.handle = c'.handle ∧ resolve s.handles c.handle = some 600 := by
  obtain ⟨s, c, c', hrun, hrest⟩ := run_around rfl
  exact ⟨_, s, 0, _, c, c', hrun, by omega, hrest⟩

end Session

end Rgpu.Cudnn
