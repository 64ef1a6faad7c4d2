import Mathlib

/-! # Computations that keep a journal

A computation with a state that logs what it does, so that what it did, in which order, can be spoken of apart from
what it returns.

* **`Journal`** — such computations; `value`, `log` and `last` are what one returns, logs and leaves behind.
* **`Composes`, `Keeps`** — a relation between the state before, the log and the state after that goes through one
  computation after another, and the rules by which a computation is seen to keep it.
* **`Phased`** — logs whose entries come in the order of their ranks.
* **`Monitor`** — a watcher that reads a log entry by entry; `Accepts` says it objects to none. -/

namespace Foundations

/-- From a state: what is returned, what is logged, in order, and the state that is left. -/
def Journal (σ ε α : Type) := σ → α × List ε × σ

namespace Journal

variable {σ ε α β γ : Type}

/-- What it returns. -/
def value (r : Journal σ ε α) (s : σ) : α := (r s).1

/-- What it logs. -/
def log (r : Journal σ ε α) (s : σ) : List ε := (r s).2.1

/-- The state it leaves. -/
def last (r : Journal σ ε α) (s : σ) : σ := (r s).2.2

instance : Monad (Journal σ ε) where
  pure a := fun s => (a, [], s)
  bind r f := fun s =>
    match r s with
    | (a, l, t) =>
      match f a t with
      | (b, l', u) => (b, l ++ l', u)

/-- A step that logs nothing. -/
def change (f : σ → α × σ) : Journal σ ε α := fun s => ((f s).1, [], (f s).2)

/-- Look at the state. -/
def look (f : σ → α) : Journal σ ε α := change fun s => (f s, s)

/-- Log an entry. -/
def emit (e : ε) : Journal σ ε Unit := fun s => ((), [e], s)

/-- One after the other for the elements of a list, and the sum of what they return. -/
def total (body : β → Journal σ ε ℕ) : List β → Journal σ ε ℕ
  | [] => pure 0
  | x :: xs => do
      let n ← body x
      let m ← total body xs
      pure (n + m)

variable (r : Journal σ ε α) (f : α → Journal σ ε β) (s : σ)

/-- A value logs nothing and leaves the state. -/
@[simp] theorem value_pure (a : α) : (pure a : Journal σ ε α).value s = a := rfl

@[simp] theorem log_pure (a : α) : (pure a : Journal σ ε α).log s = [] := rfl

@[simp] theorem last_pure (a : α) : (pure a : Journal σ ε α).last s = s := rfl

/-- One computation and then the next: the values, the logs and the states of both. -/
@[simp] theorem value_bind : (r >>= f).value s = (f (r.value s)).value (r.last s) := rfl

@[simp] theorem log_bind : (r >>= f).log s = r.log s ++ (f (r.value s)).log (r.last s) := rfl

@[simp] theorem last_bind : (r >>= f).last s = (f (r.value s)).last (r.last s) := rfl

/-- A change of the state logs nothing. -/
@[simp] theorem value_change (g : σ → α × σ) : (change g : Journal σ ε α).value s = (g s).1 := rfl

@[simp] theorem log_change (g : σ → α × σ) : (change g : Journal σ ε α).log s = [] := rfl

@[simp] theorem last_change (g : σ → α × σ) : (change g : Journal σ ε α).last s = (g s).2 := rfl

/-- A look at the state gives what it looks for. -/
@[simp] theorem value_look (g : σ → α) : (look g : Journal σ ε α).value s = g s := rfl

@[simp] theorem log_look (g : σ → α) : (look g : Journal σ ε α).log s = [] := rfl

@[simp] theorem last_look (g : σ → α) : (look g : Journal σ ε α).last s = s := rfl

/-- An entry that is emitted is logged. -/
@[simp] theorem log_emit (e : ε) : (emit e : Journal σ ε Unit).log s = [e] := rfl

/-- Emitting an entry leaves the state. -/
@[simp] theorem last_emit (e : ε) : (emit e : Journal σ ε Unit).last s = s := rfl

variable {r f s}

/-! ### What goes through a computation -/

/-- What holds of a log that is empty, and of one log after another if it holds of both. -/
structure Composes (R : σ → List ε → σ → Prop) : Prop where
  nil : ∀ s, R s [] s
  append : ∀ {s t u : σ} {l l' : List ε}, R s l t → R t l' u → R s (l ++ l') u

/-- From every state, what the computation logs and leaves is as `R` says. -/
def Keeps (R : σ → List ε → σ → Prop) (r : Journal σ ε α) : Prop := ∀ s, R s (r.log s) (r.last s)

variable {R : σ → List ε → σ → Prop}

/-- A relation that composes is kept by a value. -/
theorem Composes.pure (hR : Composes R) (a : α) : Keeps R (Pure.pure a : Journal σ ε α) := fun s => hR.nil s

/-- It is kept by one computation and the next, if each keeps it. -/
theorem Composes.bind (hR : Composes R) (hr : Keeps R r) (hf : ∀ a, Keeps R (f a)) : Keeps R (r >>= f) :=
  fun s => hR.append (hr s) (hf _ _)

/-- The second part may rely on what the first leaves behind. -/
theorem Composes.bind_after (hR : Composes R) {P : σ → Prop} (hr : Keeps R r) (hP : ∀ s, P (r.last s))
    (hf : ∀ a s, P s → R s ((f a).log s) ((f a).last s)) : Keeps R (r >>= f) :=
  fun s => hR.append (hr s) (hf _ _ (hP s))

/-- It is kept by a loop whose rounds keep it. -/
theorem Composes.total (hR : Composes R) {body : β → Journal σ ε ℕ} {xs : List β}
    (hbody : ∀ x ∈ xs, Keeps R (body x)) : Keeps R (total body xs) := by
  induction xs with
  | nil => exact hR.pure 0
  | cons x xs ih =>
      refine hR.bind (hbody x List.mem_cons_self) fun n => hR.bind ?_ fun m => hR.pure _
      exact ih fun y hy => hbody y (List.mem_cons_of_mem x hy)

/-- A property of every entry goes through. -/
theorem composes_forall (P : ε → Prop) : Composes fun (_ : σ) l _ => ∀ e ∈ l, P e where
  nil _ _ he := absurd he List.not_mem_nil
  append hl hl' e he := (List.mem_append.mp he).elim (hl e) (hl' e)

/-- A list of what is read off each entry is the list of what is read off each round. -/
theorem flatMap_total {body : β → Journal σ ε ℕ} {g : ε → List γ} {h : β → List γ}
    (hbody : ∀ x s, ((body x).log s).flatMap g = h x) (xs : List β) (s : σ) :
    ((total body xs).log s).flatMap g = xs.flatMap h := by
  induction xs generalizing s with
  | nil => rfl
  | cons x xs ih =>
      have hrest := ih ((body x).last s)
      rw [List.flatMap_cons, ← hbody x s, ← hrest]
      simp [total]

/-- What is counted in the log of each round is counted in the log of all of them. -/
theorem count_total {body : β → Journal σ ε ℕ} {g : ε → ℕ}
    (hbody : ∀ x s, (body x).value s = (((body x).log s).map g).sum) (xs : List β) (s : σ) :
    (total body xs).value s = (((total body xs).log s).map g).sum := by
  induction xs generalizing s with
  | nil => rfl
  | cons x xs ih =>
      have hrest := ih ((body x).last s)
      have hx := hbody x s
      simp [total, hrest, hx]

/-! ### Phases -/

section Phases

variable {rank : ε → Option ℕ} {a b c : ℕ} {l l' : List ε}

/-- The ranks in the log, which not every entry has, go up from `a` and stay below `b`. -/
def Phased (rank : ε → Option ℕ) (a b : ℕ) (l : List ε) : Prop :=
  (l.filterMap rank).Pairwise (· ≤ ·) ∧ ∀ k ∈ l.filterMap rank, a ≤ k ∧ k < b

/-- Two logs, one of earlier phases and one of later. -/
theorem Phased.append (hl : Phased rank a b l) (hl' : Phased rank b c l') (hab : a ≤ b) (hbc : b ≤ c) :
    Phased rank a c (l ++ l') := by
  rw [Phased, List.filterMap_append]
  refine ⟨List.pairwise_append.mpr ⟨hl.1, hl'.1, fun k hk k' hk' => ?_⟩, fun k hk => ?_⟩
  · have hlt := (hl.2 k hk).2
    have hge := (hl'.2 k' hk').1
    omega
  · rcases List.mem_append.mp hk with h | h
    · have hbounds := hl.2 k h
      omega
    · have hbounds := hl'.2 k h
      omega

/-- A log of entries of one rank, or of none. -/
theorem phased_of_forall (h : ∀ e ∈ l, ∀ k, rank e = some k → k = a) : Phased rank a (a + 1) l := by
  have hall : ∀ k ∈ l.filterMap rank, k = a := by
    intro k hk
    obtain ⟨e, he, hrank⟩ := List.mem_filterMap.mp hk
    exact h e he k hrank
  refine ⟨List.Pairwise.imp_of_mem (R := fun _ _ => True) ?_ (List.pairwise_of_forall fun _ _ => trivial),
    fun k hk => ?_⟩
  · intro k k' hk hk' _
    exact Nat.le_of_eq ((hall k hk).trans (hall k' hk').symm)
  · have hk := hall k hk
    omega

/-- Nothing is logged out of order. -/
theorem phased_nil (rank : ε → Option ℕ) (a b : ℕ) : Phased rank a b [] :=
  ⟨List.Pairwise.nil, fun _ hk => absurd hk List.not_mem_nil⟩

/-- One part after the other. -/
theorem phased_bind {r : Journal σ ε α} {f : α → Journal σ ε β} (hr : ∀ s, Phased rank a b (r.log s))
    (hf : ∀ x s, Phased rank b c ((f x).log s)) (hab : a ≤ b) (hbc : b ≤ c) (s : σ) :
    Phased rank a c ((r >>= f).log s) := (hr s).append (hf _ _) hab hbc

/-- An entry of a lower rank comes before an entry of a higher one. -/
theorem Phased.before (hl : Phased rank a b l) {l₁ l₂ : List ε} {e e' : ε} (heq : l = l₁ ++ e :: l₂)
    (he' : e' ∈ l) {k k' : ℕ} (hk : rank e = some k) (hk' : rank e' = some k') (hlt : k' < k) : e' ∈ l₁ := by
  subst heq
  rcases List.mem_append.mp he' with h | h
  · exact h
  · have hpair := hl.1
    rw [List.filterMap_append, List.filterMap_cons_some hk] at hpair
    rcases List.mem_cons.mp h with rfl | h
    · rw [hk, Option.some.injEq] at hk'
      omega
    · have hle := (List.pairwise_cons.mp (List.pairwise_append.mp hpair).2.1).1 k'
        (List.mem_filterMap.mpr ⟨e', h, hk'⟩)
      omega

end Phases

/-! ### Watching a log -/

/-- A watcher: what it remembers after an entry, and whether it lets the entry pass. -/
structure Monitor (q ε : Type) where
  /-- What it remembers afterwards. -/
  next : q → ε → q
  /-- Whether it lets the entry pass. -/
  Passes : q → ε → Prop

namespace Monitor

variable {q : Type} (m : Monitor q ε)

/-- What it remembers after a log. -/
def after (x : q) (l : List ε) : q := l.foldl m.next x

/-- It lets every entry of the log pass. -/
def Accepts : q → List ε → Prop
  | _, [] => True
  | x, e :: l => m.Passes x e ∧ Accepts (m.next x e) l

/-- A monitor goes on through the second log from where the first leaves it. -/
theorem after_append (x : q) (l l' : List ε) : m.after x (l ++ l') = m.after (m.after x l) l' :=
  List.foldl_append

/-- A monitor accepts two logs if it accepts the one and then the other. -/
theorem accepts_append {x : q} {l l' : List ε} :
    m.Accepts x (l ++ l') ↔ m.Accepts x l ∧ m.Accepts (m.after x l) l' := by
  induction l generalizing x with
  | nil => simp [Accepts, after]
  | cons e l ih =>
      rw [List.cons_append, Accepts, Accepts, ih, and_assoc]
      rfl

/-- An entry of an accepted log passes after what comes before it. -/
theorem Accepts.passes {m : Monitor q ε} {x : q} {l₁ l₂ : List ε} {e : ε} (h : m.Accepts x (l₁ ++ e :: l₂)) :
    m.Passes (m.after x l₁) e := ((m.accepts_append).mp h).2.1

/-- A watcher that remembers a part of the state goes through. -/
theorem composes (view : σ → q) :
    Composes fun s l t => m.Accepts (view s) l ∧ view t = m.after (view s) l where
  nil _ := ⟨trivial, rfl⟩
  append := by
    rintro s t u l l' ⟨hl, ht⟩ ⟨hl', hu⟩
    rw [ht] at hl' hu
    exact ⟨m.accepts_append.mpr ⟨hl, hl'⟩, by rw [hu, m.after_append]⟩

end Monitor

end Journal

end Foundations
