import Mathlib.Tactic.TypeStar

/-!
# Programs over a mutable object

A member function either returns, throws, or performs an access that has no
defined result. A thrown exception keeps the state in which it was thrown, so
the object can be used afterwards; a fault ends the run.
-/

namespace Xupeng

/-- How a call on an object ends. -/
inductive Outcome (ε σ β : Type)
  /-- The call returned a value. -/
  | ok (value : β) (state : σ)
  /-- The call threw; the object is left as the call had changed it so far. -/
  | throw (error : ε) (state : σ)
  /-- The call dereferenced a null pointer or left the buffer it works on. -/
  | fault
  deriving DecidableEq, Repr

/-- A member function with its arguments given. -/
def Program (ε σ β : Type) : Type := σ → Outcome ε σ β

namespace Program

variable {ε σ β γ : Type}

/-- Return a value and leave the object alone. -/
protected def pure (b : β) : Program ε σ β := fun s => .ok b s

/-- Continue with the value and the state of a call that returned. -/
protected def bind (m : Program ε σ β) (f : β → Program ε σ γ) : Program ε σ γ := fun s =>
  match m s with
  | .ok b t => f b t
  | .throw e t => .throw e t
  | .fault => .fault

instance : Monad (Program ε σ) where
  pure := Program.pure
  bind := Program.bind

/-- A program that returns is followed by the next one. -/
theorem bind_of_ok {m : Program ε σ β} {f : β → Program ε σ γ} {s t : σ} {b : β}
    (h : m s = .ok b t) : (m >>= f) s = f b t := by
  change Program.bind m f s = _
  simp only [Program.bind, h]

/-- An exception skips what follows. -/
theorem bind_of_throw {m : Program ε σ β} {f : β → Program ε σ γ} {s t : σ} {e : ε}
    (h : m s = .throw e t) : (m >>= f) s = .throw e t := by
  change Program.bind m f s = _
  simp only [Program.bind, h]

theorem bind_of_fault {m : Program ε σ β} {f : β → Program ε σ γ} {s : σ}
    (h : m s = .fault) : (m >>= f) s = .fault := by
  change Program.bind m f s = _
  simp only [Program.bind, h]

/-- A sequence that returns has returned from its first part. -/
theorem of_bind_eq_ok {m : Program ε σ β} {f : β → Program ε σ γ} {s t : σ} {c : γ}
    (h : (m >>= f) s = .ok c t) : ∃ b u, m s = .ok b u ∧ f b u = .ok c t := by
  change Program.bind m f s = _ at h
  unfold Program.bind at h
  split at h
  · exact ⟨_, _, ‹_›, h⟩
  · cases h
  · cases h

theorem map_of_ok {m : Program ε σ β} {f : β → γ} {s t : σ} {b : β}
    (h : m s = .ok b t) : (f <$> m) s = .ok (f b) t :=
  bind_of_ok h

theorem map_of_throw {m : Program ε σ β} {f : β → γ} {s t : σ} {e : ε}
    (h : m s = .throw e t) : (f <$> m) s = .throw e t :=
  bind_of_throw h

end Program

/-- The state a call leaves behind, returned or thrown in, satisfies `I`. -/
def Outcome.Leaves {ε σ β : Type} (I : σ → Prop) : Outcome ε σ β → Prop
  | .ok _ t => I t
  | .throw _ t => I t
  | .fault => True

/-- The call keeps `I`, whether it returns or throws. -/
def Program.Preserves {ε σ β : Type} (I : σ → Prop) (m : Program ε σ β) : Prop :=
  ∀ s, I s → (m s).Leaves I

namespace Program.Preserves

variable {ε σ β γ : Type} {I : σ → Prop}

protected theorem pure (b : β) : Preserves I (pure b : Program ε σ β) := fun _ hs => hs

protected theorem bind {m : Program ε σ β} {f : β → Program ε σ γ} (hm : Preserves I m)
    (hf : ∀ b, Preserves I (f b)) : Preserves I (m >>= f) := by
  intro s hs
  have h := hm s hs
  change (Program.bind m f s).Leaves I
  unfold Program.bind
  cases he : m s with
  | ok b t =>
    rw [he] at h
    exact hf b t h
  | throw e t =>
    rw [he] at h
    exact h
  | fault => trivial

protected theorem map {m : Program ε σ β} (hm : Preserves I m) (f : β → γ) :
    Preserves I (f <$> m) :=
  Preserves.bind hm fun b => Preserves.pure (f b)

protected theorem ite {c : Prop} [Decidable c] {m n : Program ε σ β} (hm : Preserves I m)
    (hn : Preserves I n) : Preserves I (if c then m else n) := by
  split
  · exact hm
  · exact hn

end Program.Preserves

end Xupeng
