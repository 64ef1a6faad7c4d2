import Mathlib.Data.Nat.Notation
import Mathlib.Tactic.Tauto

/-! # Readers of a stream

A reader takes what it needs off the front of a stream, or fails. What was written reads back if it was good,
and if it was not, whatever is read in its place is something else.

* **`Reader`** — a state of symbols that are left, with errors.
* **`Reads`** — what a reader makes of a piece of the stream, whatever comes after it.
* **`Reads.bind`**, **`Reads.map`**, **`Reads.times`** — the rules. -/

namespace Foundations

variable {σ ε α β : Type}

/-- A reader of a stream of symbols. -/
abbrev Reader (σ ε α : Type) := StateT (List σ) (Except ε) α

namespace Reader

variable {r : Reader σ ε α} {f : α → Reader σ ε β} {s t : List σ} {a : α} {b : β}

/-- Read `n` things, one after the other. -/
def times (r : Reader σ ε α) : ℕ → Reader σ ε (List α)
  | 0 => pure []
  | n + 1 => do
      let a ← r
      let as ← times r n
      pure (a :: as)

/-- After a success comes the next reader. -/
theorem bind_ok (h : r s = .ok (a, t)) : (r >>= f) s = f a t := by
  show (r s >>= fun p => f p.1 p.2) = f a t
  rw [h]
  rfl

/-- After an error comes nothing. -/
theorem bind_error {e : ε} (h : r s = .error e) : (r >>= f) s = .error e := by
  show (r s >>= fun p => f p.1 p.2) = .error e
  rw [h]
  rfl

/-- A reader that went on after another has read what the other left. -/
theorem of_bind (h : (r >>= f) s = .ok (b, t)) : ∃ a u, r s = .ok (a, u) ∧ f a u = .ok (b, t) := by
  cases hr : r s with
  | error e =>
      rw [bind_error hr] at h
      cases h
  | ok p =>
      rw [bind_ok hr] at h
      exact ⟨p.1, p.2, rfl, h⟩

/-- As many values are read as asked for. -/
theorem length_times {n : ℕ} {as : List α} (h : times r n s = .ok (as, t)) : as.length = n := by
  induction n generalizing as s with
  | zero =>
      cases h
      rfl
  | succ n ih =>
      obtain ⟨a, u, -, h⟩ := of_bind h
      obtain ⟨as', u', hrest, h⟩ := of_bind h
      cases h
      rw [List.length_cons, ih hrest]

end Reader

/-- What is made of a piece of the stream: what was meant if the piece is good, and only then. -/
structure Reads (r : Reader σ ε α) (piece : List σ) (good : Prop) (a : α) : Prop where
  exact : good → ∀ rest, r (piece ++ rest) = .ok (a, rest)
  differs : ¬ good → ∀ rest w rest', r (piece ++ rest) = .ok (w, rest') → w ≠ a

namespace Reads

variable {r : Reader σ ε α} {f : α → Reader σ ε β} {piece piece' : List σ} {good good' : Prop} {a : α} {b : β}

/-- A piece that is read for certain. -/
theorem always (h : ∀ rest, r (piece ++ rest) = .ok (a, rest)) : Reads r piece True a where
  exact := fun _ => h
  differs := fun hgood => absurd trivial hgood

/-- A piece that is refused. -/
theorem refused {e : ε} (hgood : ¬ good) (h : ∀ rest, r (piece ++ rest) = .error e) : Reads r piece good a where
  exact := fun hg => absurd hg hgood
  differs := by
    intro _ rest w rest' hread
    rw [h rest] at hread
    cases hread

/-- A value is read from nothing. -/
theorem pure (a : α) : Reads (pure a : Reader σ ε α) [] True a :=
  always fun _ => rfl

/-- A condition may be put in other words. -/
theorem congr (h : Reads r piece good a) (hgood : good ↔ good') : Reads r piece good' a where
  exact := fun hg => h.exact (hgood.mpr hg)
  differs := fun hg => h.differs (fun hg' => hg (hgood.mp hg'))

/-- Readers that agree on all that starts with the piece. -/
theorem of_eq {r' : Reader σ ε α} {front : List σ} (h : Reads r piece good a)
    (heq : ∀ s, r' (front ++ s) = r s) : Reads r' (front ++ piece) good a where
  exact := by
    intro hg rest
    rw [List.append_assoc, heq]
    exact h.exact hg rest
  differs := by
    intro hg rest w rest' hread
    rw [List.append_assoc, heq] at hread
    exact h.differs hg rest w rest' hread

/-- One after the other, where the second does not hide that the first read something else. -/
theorem bind (h : Reads r piece good a) (hf : good → Reads (f a) piece' good' b)
    (hshows : ∀ w, w ≠ a → ∀ s z s', f w s = .ok (z, s') → z ≠ b) :
    Reads (r >>= f) (piece ++ piece') (good ∧ good') b where
  exact := by
    intro ⟨hg, hg'⟩ rest
    rw [List.append_assoc, Reader.bind_ok (h.exact hg _)]
    exact (hf hg).exact hg' rest
  differs := by
    intro hnot rest z rest' hread
    rw [List.append_assoc] at hread
    obtain ⟨w, s, hfirst, hsecond⟩ := Reader.of_bind hread
    by_cases hg : good
    · rw [h.exact hg] at hfirst
      cases hfirst
      exact (hf hg).differs (fun hg' => hnot ⟨hg, hg'⟩) rest z rest' hsecond
    · exact hshows w (h.differs hg _ w s hfirst) s z rest' hsecond

/-- After what is read for certain. -/
theorem after (h : ∀ rest, r (piece ++ rest) = .ok (a, rest)) (hf : Reads (f a) piece' good' b) :
    Reads (r >>= f) (piece ++ piece') good' b :=
  of_eq hf fun s => Reader.bind_ok (h s)

/-- What is made of the value that was read, where it shows which of those that can be read it was. -/
theorem mapOn {g : α → β} (h : Reads r piece good a)
    (hshows : ∀ s w s', r s = .ok (w, s') → w ≠ a → g w ≠ g a) :
    Reads (do let a ← r; Pure.pure (g a)) piece good (g a) where
  exact := by
    intro hg rest
    rw [Reader.bind_ok (h.exact hg rest)]
    rfl
  differs := by
    intro hg rest z rest' hread
    obtain ⟨w, s, hfirst, hsecond⟩ := Reader.of_bind hread
    cases hsecond
    exact hshows _ w _ hfirst (h.differs hg rest w _ hfirst)

/-- What is made of the value that was read. -/
theorem map {g : α → β} (h : Reads r piece good a) (hshows : ∀ w, w ≠ a → g w ≠ g a) :
    Reads (do let a ← r; Pure.pure (g a)) piece good (g a) :=
  h.mapOn fun _ w _ _ => hshows w

/-- Two of them, as a pair or under a constructor. -/
theorem map₂ {γ : Type} {r' : Reader σ ε β} {g : α → β → γ} (h : Reads r piece good a)
    (h' : Reads r' piece' good' b) (hg : ∀ a a' b b', g a b = g a' b' → a = a' ∧ b = b') :
    Reads (do let a ← r; let b ← r'; Pure.pure (g a b)) (piece ++ piece') (good ∧ good') (g a b) := by
  apply h.bind (fun _ => h'.map fun w hw heq => hw (hg a a w b heq).2)
  intro w hw s z s' hread heq
  obtain ⟨x, u, -, hlast⟩ := Reader.of_bind hread
  cases hlast
  exact hw (hg w a x b heq).1

end Reads

end Foundations
