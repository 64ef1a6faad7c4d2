import Mathlib.Data.List.Basic
import Mathlib.Data.Option.Basic
import Mathlib.Algebra.Order.Monoid.Defs
import Mathlib.Logic.Function.Basic

/-! # Labelled systems with a partial step function

A system is given by a partial function `step : σ → α → Option σ`: the action `a` is possible in the
state `s` exactly when `step s a` is a state. All nondeterminism (the scheduler, the network, the
answers of an outside party) sits in the action, so a run is a list of actions and can be executed.

* **`run step s as`** — the state reached from `s` by the actions `as`, if each is possible.
* **`Along step G s as`** — each step of that run is taken in a state and with an action that satisfy
  the side condition `G`.
* **`Always step G s₀ P`** — `P` holds in every state reached from `s₀` by a run along `G`; the rules
  below are the ones an invariant proof needs.
* **`balanced_iff_along`** — an account that the steps along `G` balance and every other step leaves short.
* **`Simulates`** — one system follows another, and what that gives for whole runs.
* **`of_update_eq`** — a part of a state that is kept for each key, after a step that sets one. -/

namespace Foundations

variable {σ α τ β : Type*}

/-- The state reached from `s` by performing the actions in order, if every one is possible. -/
def run (step : σ → α → Option σ) : σ → List α → Option σ
  | s, [] => some s
  | s, a :: as => (step s a).bind fun t => run step t as

/-- No steps. -/
@[simp] theorem run_nil (step : σ → α → Option σ) (s : σ) : run step s [] = some s := rfl

/-- A step, and then the others. -/
theorem run_cons (step : σ → α → Option σ) (s : σ) (a : α) (as : List α) :
    run step s (a :: as) = (step s a).bind fun t => run step t as := rfl

/-- A run of a concatenation is the run of the second part from where the first part ends. -/
theorem run_append (step : σ → α → Option σ) (s : σ) (as bs : List α) :
    run step s (as ++ bs) = (run step s as).bind fun t => run step t bs := by
  induction as generalizing s with
  | nil => rfl
  | cons a as ih =>
      rw [List.cons_append, run_cons, run_cons]
      cases step s a with
      | none => rfl
      | some t => exact ih t

/-- Running a single further action. -/
theorem run_concat {step : σ → α → Option σ} {s t u : σ} {as : List α} {a : α}
    (hrun : run step s as = some t) (hstep : step t a = some u) :
    run step s (as ++ [a]) = some u := by
  rw [run_append, hrun, Option.bind_some, run_cons, hstep]
  rfl

/-- Every step of the run of `as` from `s` satisfies the side condition `G` on the state it is taken
in and on its action. Nothing is asked of what follows an impossible action. -/
def Along (step : σ → α → Option σ) (G : σ → α → Prop) : σ → List α → Prop
  | _, [] => True
  | s, a :: as => G s a ∧
      match step s a with
      | none => True
      | some t => Along step G t as

/-- No steps to be guarded. -/
@[simp] theorem along_nil (step : σ → α → Option σ) (G : σ → α → Prop) (s : σ) :
    Along step G s [] := trivial

/-- A step that is guarded, and then the others. -/
theorem along_cons {step : σ → α → Option σ} {G : σ → α → Prop} {s t : σ} {a : α} {as : List α}
    (hstep : step s a = some t) :
    Along step G s (a :: as) ↔ G s a ∧ Along step G t as := by
  rw [Along, hstep]

instance Along.decidable (step : σ → α → Option σ) (G : σ → α → Prop)
    [∀ s a, Decidable (G s a)] : ∀ s as, Decidable (Along step G s as)
  | _, [] => .isTrue trivial
  | s, a :: as =>
      match h : step s a with
      | none => decidable_of_iff (G s a) (by rw [Along, h, and_true])
      | some t =>
          have := Along.decidable step G t as
          decidable_of_iff (G s a ∧ Along step G t as) (by rw [Along, h])

/-- A side condition may be weakened along a run. -/
theorem Along.mono {step : σ → α → Option σ} {G H : σ → α → Prop} (hGH : ∀ s a, G s a → H s a)
    {s : σ} {as : List α} (h : Along step G s as) : Along step H s as := by
  induction as generalizing s with
  | nil => trivial
  | cons a as ih =>
      refine ⟨hGH s a h.1, ?_⟩
      have hrest := h.2
      cases hstep : step s a with
      | none => trivial
      | some t =>
          rw [hstep] at hrest
          exact ih hrest

/-- The side condition holds along both parts of a run. -/
theorem along_append {step : σ → α → Option σ} {G : σ → α → Prop} {s t : σ} {as bs : List α}
    (hrun : run step s as = some t) (h : Along step G s (as ++ bs)) :
    Along step G s as ∧ Along step G t bs := by
  induction as generalizing s with
  | nil =>
      rw [run_nil, Option.some.injEq] at hrun
      exact ⟨trivial, hrun ▸ h⟩
  | cons a as ih =>
      rw [run_cons] at hrun
      obtain ⟨u, hu, hrest⟩ := Option.bind_eq_some_iff.mp hrun
      rw [List.cons_append, along_cons hu] at h
      obtain ⟨has, hbs⟩ := ih hrest h.2
      exact ⟨(along_cons hu).mpr ⟨h.1, has⟩, hbs⟩

/-- The empty side condition holds along every run. -/
theorem along_true (step : σ → α → Option σ) (s : σ) (as : List α) :
    Along step (fun _ _ => True) s as := by
  induction as generalizing s with
  | nil => trivial
  | cons a as ih =>
      refine ⟨trivial, ?_⟩
      cases step s a with
      | none => trivial
      | some t => exact ih t

/-- A side condition on the actions alone holds along a run if it holds of each. -/
theorem along_of_forall {step : σ → α → Option σ} {G : α → Prop} {s : σ} {as : List α} (h : ∀ a ∈ as, G a) :
    Along step (fun _ a => G a) s as := by
  induction as generalizing s with
  | nil => trivial
  | cons a as ih =>
      refine ⟨h a List.mem_cons_self, ?_⟩
      cases step s a with
      | none => trivial
      | some t => exact ih fun b hb => h b (List.mem_cons_of_mem a hb)

/-- `P` holds in every state that a run from `s₀`, each of whose steps satisfies `G`, reaches. -/
def Always (step : σ → α → Option σ) (G : σ → α → Prop) (s₀ : σ) (P : σ → Prop) : Prop :=
  ∀ as s, Along step G s₀ as → run step s₀ as = some s → P s

/-- **The invariant rule.** What holds at the start and is kept by every step taken under the side
condition holds in every state reached. -/
theorem Always.of_step {step : σ → α → Option σ} {G : σ → α → Prop} {s₀ : σ} {P : σ → Prop}
    (hinit : P s₀) (hstep : ∀ s a t, P s → G s a → step s a = some t → P t) :
    Always step G s₀ P := by
  intro as
  induction as generalizing s₀ with
  | nil =>
      intro s _ hrun
      rw [run_nil, Option.some.injEq] at hrun
      exact hrun ▸ hinit
  | cons a as ih =>
      intro s halong hrun
      rw [run_cons] at hrun
      obtain ⟨t, ht, hrest⟩ := Option.bind_eq_some_iff.mp hrun
      rw [along_cons ht] at halong
      exact ih (hstep s₀ a t hinit halong.1 ht) s halong.2 hrest

/-- A consequence of an invariant is an invariant. -/
theorem Always.imp {step : σ → α → Option σ} {G : σ → α → Prop} {s₀ : σ} {P Q : σ → Prop}
    (hP : Always step G s₀ P) (hPQ : ∀ s, P s → Q s) : Always step G s₀ Q :=
  fun as s halong hrun => hPQ s (hP as s halong hrun)

/-- An invariant of the runs along `G` is one of the runs along anything stronger. -/
theorem Always.guard {step : σ → α → Option σ} {G H : σ → α → Prop} {s₀ : σ} {P : σ → Prop}
    (hP : Always step G s₀ P) (hHG : ∀ s a, H s a → G s a) : Always step H s₀ P :=
  fun as s halong hrun => hP as s (halong.mono hHG) hrun

/-- **The relative invariant rule.** An invariant already known may be assumed on both sides of the
step that is to keep a further one. -/
theorem Always.of_step_under {step : σ → α → Option σ} {G : σ → α → Prop} {s₀ : σ}
    {P Q : σ → Prop} (hQ : Always step G s₀ Q) (hinit : P s₀)
    (hstep : ∀ s a t, Q s → Q t → P s → G s a → step s a = some t → P t) :
    Always step G s₀ P := by
  have hinitQ : Q s₀ := hQ [] s₀ trivial rfl
  intro as
  induction as generalizing s₀ with
  | nil =>
      intro s _ hrun
      rw [run_nil, Option.some.injEq] at hrun
      exact hrun ▸ hinit
  | cons a as ih =>
      intro s halong hrun
      rw [run_cons] at hrun
      obtain ⟨t, ht, hrest⟩ := Option.bind_eq_some_iff.mp hrun
      rw [along_cons ht] at halong
      have hQt : Always step G t Q := by
        intro bs u hbs hu
        refine hQ (a :: bs) u ((along_cons ht).mpr ⟨halong.1, hbs⟩) ?_
        rw [run_cons, ht, Option.bind_some, hu]
      have hQ' : Q t := hQt [] t trivial rfl
      exact ih hQt (hstep s₀ a t hinitQ hQ' hinit halong.1 ht) hQ' s halong.2 hrest

/-- **Accounts.** If every step along `G` keeps what there was together with what its action brings in, and
every other step keeps less, then a run has kept everything exactly if all its steps are along `G`. -/
theorem balanced_iff_along {M : Type*} [AddCancelCommMonoid M] [PartialOrder M] [AddLeftMono M]
    {step : σ → α → Option σ} {G : σ → α → Prop} {kept : σ → M} {brings : α → M}
    (hkeep : ∀ s a t, step s a = some t → G s a → kept t = kept s + brings a)
    (hshort : ∀ s a t, step s a = some t → ¬G s a → kept t < kept s + brings a)
    {s t : σ} {as : List α} (hrun : run step s as = some t) :
    kept t ≤ kept s + (as.map brings).sum ∧ (kept t = kept s + (as.map brings).sum ↔ Along step G s as) := by
  induction as generalizing s with
  | nil =>
      obtain rfl := Option.some.inj hrun
      simp
  | cons a as ih =>
      rw [run_cons] at hrun
      obtain ⟨u, hu, hrest⟩ := Option.bind_eq_some_iff.mp hrun
      obtain ⟨hle, hiff⟩ := ih hrest
      rw [along_cons hu, List.map_cons, List.sum_cons, ← add_assoc]
      by_cases hG : G s a
      · rw [← hkeep s a u hu hG]
        exact ⟨hle, hiff.trans (and_iff_right hG).symm⟩
      · have hlt : kept t < kept s + brings a + (as.map brings).sum :=
          hle.trans_lt (add_lt_add_left (hshort s a u hu hG) _)
        exact ⟨hlt.le, fun h => absurd h hlt.ne, fun h => absurd h.1 hG⟩

/-- `R` is a **forward simulation** along `G`: whatever the first system does from related states, the
second can follow with the actions `follow s a`, to related states. -/
def Simulates (step : σ → α → Option σ) (spec : τ → β → Option τ) (G : σ → α → Prop)
    (follow : σ → α → List β) (R : σ → τ → Prop) : Prop :=
  ∀ s t a s', R s t → G s a → step s a = some s' →
    ∃ t', run spec t (follow s a) = some t' ∧ R s' t'

/-- The actions with which the second system follows a whole run of the first. -/
def follows (step : σ → α → Option σ) (follow : σ → α → List β) : σ → List α → List β
  | _, [] => []
  | s, a :: as =>
      match step s a with
      | none => []
      | some t => follow s a ++ follows step follow t as

/-- **Simulation of runs.** A forward simulation follows every run, to related states. -/
theorem Simulates.run {step : σ → α → Option σ} {spec : τ → β → Option τ} {G : σ → α → Prop}
    {follow : σ → α → List β} {R : σ → τ → Prop} (hsim : Simulates step spec G follow R)
    {s s' : σ} {t : τ} {as : List α} (hR : R s t) (halong : Along step G s as)
    (hrun : run step s as = some s') :
    ∃ t', Foundations.run spec t (follows step follow s as) = some t' ∧ R s' t' := by
  induction as generalizing s t with
  | nil =>
      rw [run_nil, Option.some.injEq] at hrun
      exact ⟨t, rfl, hrun ▸ hR⟩
  | cons a as ih =>
      rw [run_cons] at hrun
      obtain ⟨u, hu, hrest⟩ := Option.bind_eq_some_iff.mp hrun
      rw [along_cons hu] at halong
      obtain ⟨v, hv, hRv⟩ := hsim s t a u hR halong.1 hu
      obtain ⟨t', ht', hR'⟩ := ih hRv halong.2 hrest
      refine ⟨t', ?_, hR'⟩
      rw [follows, hu, run_append, hv, Option.bind_some, ht']

/-- Where in a run the second system is after its first actions, when each step is followed by one at most. -/
theorem exists_of_prefix_follows {step : σ → α → Option σ} {follow : σ → α → List β}
    (hone : ∀ s a, (follow s a).length ≤ 1) {s : σ} {as : List α} {bs : List β} {b : β}
    (h : bs ++ [b] <+: follows step follow s as) :
    ∃ as' a rest t, as = as' ++ a :: rest ∧ Foundations.run step s as' = some t ∧
      follows step follow s as' = bs ∧ follow t a = [b] := by
  induction as generalizing s bs with
  | nil => exact absurd (List.prefix_nil.mp h) (by simp)
  | cons a as ih =>
      rw [follows] at h
      cases hstep : step s a with
      | none =>
          rw [hstep] at h
          exact absurd (List.prefix_nil.mp h) (by simp)
      | some u =>
          rw [hstep] at h
          dsimp only at h
          -- the run goes on from the next state
          have hcons : ∀ {as' t cs}, Foundations.run step u as' = some t → follows step follow u as' = cs →
              Foundations.run step s (a :: as') = some t ∧ follows step follow s (a :: as') = follow s a ++ cs := by
            intro as' t cs hrun hfollows
            rw [run_cons, hstep, follows, hstep, Option.bind_some]
            exact ⟨hrun, congrArg _ hfollows⟩
          have hshort := hone s a
          cases hfollow : follow s a with
          | nil =>
              rw [hfollow, List.nil_append] at h
              obtain ⟨as', a', rest, t, rfl, hrun, hfollows, hb⟩ := ih h
              obtain ⟨hrun', hfollows'⟩ := hcons hrun hfollows
              rw [hfollow, List.nil_append] at hfollows'
              exact ⟨a :: as', a', rest, t, rfl, hrun', hfollows', hb⟩
          | cons c cs =>
              rw [hfollow, List.length_cons] at hshort
              obtain rfl : cs = [] := List.length_eq_zero_iff.mp (by omega)
              rw [hfollow, List.singleton_append] at h
              cases bs with
              | nil =>
                  rw [List.nil_append, List.cons_prefix_cons] at h
                  exact ⟨[], a, as, s, rfl, rfl, rfl, h.1 ▸ hfollow⟩
              | cons d ds =>
                  rw [List.cons_append, List.cons_prefix_cons] at h
                  obtain ⟨as', a', rest, t, rfl, hrun, hfollows, hb⟩ := ih h.2
                  obtain ⟨hrun', hfollows'⟩ := hcons hrun hfollows
                  rw [hfollow, ← h.1] at hfollows'
                  exact ⟨a :: as', a', rest, t, rfl, hrun', hfollows', hb⟩

/-! ### Parts of a state kept for each key -/

section Update

variable {κ ν : Type*} [DecidableEq κ] {k k' : κ}

/-- What is found after one key is set was set there, or was there before. -/
theorem of_update_eq {f : κ → ν} {v w : ν} (h : Function.update f k v k' = w) :
    (k' = k ∧ w = v) ∨ (k' ≠ k ∧ f k' = w) := by
  by_cases hk : k' = k
  · subst hk
    rw [Function.update_self] at h
    exact .inl ⟨rfl, h.symm⟩
  · rw [Function.update_of_ne hk] at h
    exact .inr ⟨hk, h⟩

/-- What is found after an update is what was written, or was there. -/
theorem of_update_eq_some {f : κ → Option ν} {v w : ν} (h : Function.update f k (some v) k' = some w) :
    (k' = k ∧ w = v) ∨ (k' ≠ k ∧ f k' = some w) :=
  (of_update_eq h).imp_left fun h => ⟨h.1, Option.some.inj h.2⟩

end Update

end Foundations
