import Rgpu.Foundations.Readers

/-! # Computations with a meter

A computation that may raise an error and has a state that is kept when it does, so that what it used up is known
whatever comes of it.

* **`Metered`**, **`Metered.exec`** — such computations, and what comes of one.
* **`Ensures`** — what holds once it has returned, and once it has raised; with the rules.
* **`Follows`** — it does what a reader does that keeps no meter. -/

namespace Foundations

/-- A computation that may raise, with a state that is kept. -/
abbrev Metered (σ ε α : Type) := ExceptT ε (StateM σ) α

namespace Metered

variable {σ ε α β : Type}

/-- What comes of it from a state: what it returns or raises, and the state it leaves. -/
def exec (r : Metered σ ε α) (s : σ) : Except ε α × σ := r.run.run s

/-- Do it `n` times, one after the other. -/
def times (r : Metered σ ε α) : ℕ → Metered σ ε (List α)
  | 0 => pure []
  | n + 1 => do
      let a ← r
      let as ← times r n
      pure (a :: as)

variable {r : Metered σ ε α} {f : α → Metered σ ε β} {s t : σ} {a : α} {e : ε}

/-- A value costs nothing. -/
theorem exec_pure (a : α) (s : σ) : exec (pure a : Metered σ ε α) s = (.ok a, s) := rfl

/-- An error costs nothing. -/
theorem exec_throw (e : ε) (s : σ) : exec (throw e : Metered σ ε α) s = (.error e, s) := rfl

/-- Reading the state leaves it. -/
theorem exec_get (s : σ) : exec (get : Metered σ ε σ) s = (.ok s, s) := rfl

/-- Writing the state sets it. -/
theorem exec_set (s t : σ) : exec (set t : Metered σ ε PUnit) s = (.ok ⟨⟩, t) := rfl

/-- Modifying the state changes it. -/
theorem exec_modify (g : σ → σ) (s : σ) : exec (modify g : Metered σ ε PUnit) s = (.ok ⟨⟩, g s) := rfl

/-- After a success comes the next computation. -/
theorem exec_bind_ok (h : exec r s = (.ok a, t)) : exec (r >>= f) s = exec (f a) t := by
  show (r.run.run s >>= fun p => (ExceptT.bindCont f p.1).run p.2) = _
  rw [show r.run.run s = (.ok a, t) from h]
  rfl

/-- After an error comes nothing. -/
theorem exec_bind_error (h : exec r s = (.error e, t)) : exec (r >>= f) s = (.error e, t) := by
  show (r.run.run s >>= fun p => (ExceptT.bindCont f p.1).run p.2) = _
  rw [show r.run.run s = (.error e, t) from h]
  rfl

/-- A success is not caught. -/
theorem exec_tryCatch_ok {c : ε → Metered σ ε α} (h : exec r s = (.ok a, t)) :
    exec (tryCatch r c) s = (.ok a, t) := by
  show (r.run.run s >>= fun p => StateT.run (match p.1 with
    | .ok a => pure (.ok a)
    | .error e => c e : StateM σ (Except ε α)) p.2) = _
  rw [show r.run.run s = (.ok a, t) from h]
  rfl

/-- An error is, with the state it left. -/
theorem exec_tryCatch_error {c : ε → Metered σ ε α} (h : exec r s = (.error e, t)) :
    exec (tryCatch r c) s = exec (c e) t := by
  show (r.run.run s >>= fun p => StateT.run (match p.1 with
    | .ok a => pure (.ok a)
    | .error e => c e : StateM σ (Except ε α)) p.2) = _
  rw [show r.run.run s = (.error e, t) from h]
  rfl

end Metered

open Metered

/-! ### What holds afterwards -/

section Ensures

variable {σ ε α β : Type} {P P' : σ → Prop} {Q : α → σ → Prop} {R : β → σ → Prop} {E : ε → σ → Prop}
  {r : Metered σ ε α} {f : α → Metered σ ε β}

/-- From a state with `P`, it returns with `Q` or raises with `E`. -/
def Ensures (P : σ → Prop) (r : Metered σ ε α) (Q : α → σ → Prop) (E : ε → σ → Prop) : Prop :=
  ∀ s, P s → match exec r s with
    | (.ok a, t) => Q a t
    | (.error e, t) => E e t

namespace Ensures

/-- A value ensures what holds of it already. -/
theorem pure {a : α} (h : ∀ s, P s → Q a s) : Ensures P (pure a) Q E := h

/-- An error ensures what holds of it already. -/
theorem throw {e : ε} (h : ∀ s, P s → E e s) : Ensures P (throw e : Metered σ ε α) Q E := h

/-- A change of the state ensures what holds after it. -/
theorem modify {g : σ → σ} {Q : PUnit → σ → Prop} (h : ∀ s, P s → Q ⟨⟩ (g s)) :
    Ensures P (modify g : Metered σ ε PUnit) Q E := h

/-- The rule of consequence, for what comes of a success. -/
theorem mono {Q' : α → σ → Prop} (h : Ensures P r Q E) (hP : ∀ s, P' s → P s) (hQ : ∀ a s, Q a s → Q' a s) :
    Ensures P' r Q' E := by
  intro s hs
  have hr := h s (hP s hs)
  split at hr
  · exact hQ _ _ hr
  · exact hr

/-- One after the other. -/
theorem bind (h : Ensures P r Q E) (hf : ∀ a, Ensures (Q a) (f a) R E) : Ensures P (r >>= f) R E := by
  intro s hs
  have hr := h s hs
  split at hr
  · rename_i a t hexec
    rw [exec_bind_ok hexec]
    exact hf a t hr
  · rename_i e t hexec
    rw [exec_bind_error hexec]
    exact hr

/-- The state is looked at. -/
theorem get {g : σ → Metered σ ε β} (h : ∀ s, P s → Ensures (fun t => t = s) (g s) R E) :
    Ensures P (get >>= g) R E := by
  intro s hs
  rw [exec_bind_ok (exec_get s)]
  exact h s hs s rfl

/-- Either branch, under its own condition. -/
theorem ite {c : Prop} [Decidable c] {r' : Metered σ ε α} (h : c → Ensures P r Q E) (h' : ¬ c → Ensures P r' Q E) :
    Ensures P (if c then r else r') Q E := by
  by_cases hc : c
  · rw [if_pos hc]
    exact h hc
  · rw [if_neg hc]
    exact h' hc

/-- What is known of the value apart from the state may be used. -/
theorem of_and {c : Prop} (h : c → Ensures P r Q E) : Ensures (fun s => c ∧ P s) r Q E :=
  fun s hs => h hs.1 s hs.2

/-- An error that is caught. -/
theorem tryCatch {c : ε → Metered σ ε α} {E' : ε → σ → Prop} (h : Ensures P r Q E')
    (hc : ∀ e, Ensures (E' e) (c e) Q E) : Ensures P (tryCatch r c) Q E := by
  intro s hs
  have hr := h s hs
  split at hr
  · rename_i a t hexec
    rw [exec_tryCatch_ok hexec]
    exact hr
  · rename_i e t hexec
    rw [exec_tryCatch_error hexec]
    exact hc e t hr

/-- What each turn keeps is kept. -/
theorem times {V : α → Prop} (h : Ensures P r (fun a s => V a ∧ P s) E) (n : ℕ) :
    Ensures P (times r n) (fun as s => (∀ a ∈ as, V a) ∧ P s) E := by
  induction n with
  | zero => exact pure fun s hs => ⟨List.forall_mem_nil _, hs⟩
  | succ n ih =>
      refine h.bind fun a => of_and fun ha => ih.bind fun as => of_and fun has => ?_
      exact pure fun s hs => ⟨List.forall_mem_cons.mpr ⟨ha, has⟩, hs⟩

end Ensures

end Ensures

/-! ### Readers without a meter -/

section Follows

variable {σ ε τ δ α β : Type} {R : σ → List τ → Prop} {raise : δ → ε} {r : Metered σ ε α} {r' : Reader τ δ α}

/-- From states that are related it returns what the reader returns, and to related states, and it raises what the
reader fails with. -/
def Follows (R : σ → List τ → Prop) (raise : δ → ε) (r : Metered σ ε α) (r' : Reader τ δ α) : Prop :=
  ∀ s u, R s u → match r' u with
    | .ok (a, u') => ∃ s', exec r s = (.ok a, s') ∧ R s' u'
    | .error e => ∃ s', exec r s = (.error (raise e), s')

namespace Follows

/-- A value follows itself. -/
theorem pure (a : α) : Follows R raise (pure a) (Pure.pure a) :=
  fun s _ h => ⟨s, rfl, h⟩

/-- An error follows the one it is raised for. -/
theorem throw (e : δ) : Follows R raise (throw (raise e) : Metered σ ε α) (MonadExcept.throw e) :=
  fun s _ _ => ⟨s, rfl⟩

/-- One after the other, where what comes second depends on what can be read. -/
theorem bindOn {f : α → Metered σ ε β} {f' : α → Reader τ δ β} (h : Follows R raise r r')
    (hf : ∀ a u u', r' u = .ok (a, u') → Follows R raise (f a) (f' a)) :
    Follows R raise (r >>= f) (r' >>= f') := by
  intro s u hs
  have hr := h s u hs
  split at hr
  · rename_i a u' hread
    obtain ⟨s', hexec, hs'⟩ := hr
    rw [Reader.bind_ok hread, exec_bind_ok hexec]
    exact hf a u u' hread s' u' hs'
  · rename_i e hread
    obtain ⟨s', hexec⟩ := hr
    rw [Reader.bind_error hread]
    exact ⟨s', exec_bind_error hexec⟩

/-- One computation and then the next follow theirs. -/
theorem bind {f : α → Metered σ ε β} {f' : α → Reader τ δ β} (h : Follows R raise r r')
    (hf : ∀ a, Follows R raise (f a) (f' a)) : Follows R raise (r >>= f) (r' >>= f') :=
  h.bindOn fun a _ _ _ => hf a

/-- What is only noted on the meter. -/
theorem note {g : σ → σ} (hg : ∀ s u, R s u → R (g s) u) (h : Follows R raise r r') :
    Follows R raise (do modify g; r) r' := by
  intro s u hs
  rw [exec_bind_ok (exec_modify g s)]
  exact h (g s) u (hg s u hs)

/-- Either branch follows its own. -/
theorem ite {c : Prop} [Decidable c] {q : Metered σ ε α} {q' : Reader τ δ α} (h : Follows R raise r r')
    (h' : Follows R raise q q') : Follows R raise (if c then r else q) (if c then r' else q') := by
  by_cases hc : c
  · rw [if_pos hc, if_pos hc]
    exact h
  · rw [if_neg hc, if_neg hc]
    exact h'

/-- A computation done as often as one likes follows the other done as often. -/
theorem times (h : Follows R raise r r') (n : ℕ) : Follows R raise (times r n) (r'.times n) := by
  induction n with
  | zero => exact pure []
  | succ n ih => exact h.bind fun a => ih.bind fun as => pure (a :: as)

end Follows

end Follows

end Foundations
