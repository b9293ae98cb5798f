import Xupeng.Core.Run

/-!
# Histories beside a run

A history is computed along a run from the steps and the states around them, and no
step looks at it. So it neither adds nor removes a run, and a statement about what
happened earlier in a run is a statement about the state and its history.
-/

namespace Xupeng

variable {σ α η : Type*} {step : σ → α → Option σ} {record : σ → α → σ → η → η}

/-- The step function with a history beside the state. -/
def recorded (step : σ → α → Option σ) (record : σ → α → σ → η → η) (x : σ × η) (a : α) :
    Option (σ × η) :=
  (step x.1 a).map fun t => (t, record x.1 a t x.2)

/-- What every step establishes for the history that it records holds after a recorded step. -/
@[elab_as_elim]
theorem of_recorded {P : σ × η → Prop} {x y : σ × η} {a : α}
    (hr : recorded step record x a = some y)
    (h : ∀ t, step x.1 a = some t → P (t, record x.1 a t x.2)) : P y := by
  obtain ⟨t, ht, rfl⟩ := Option.map_eq_some_iff.mp hr
  exact h t ht

/-- A condition on the steps of a run is a condition on the steps with a history. -/
theorem Guarded.recorded {guard : σ → α → Prop} {s : σ} {as : List α}
    (h : Guarded step guard s as) (e : η) :
    Guarded (Xupeng.recorded step record) (fun x a => guard x.1 a) (s, e) as := by
  induction as generalizing s e with
  | nil => trivial
  | cons a as ih =>
    refine ⟨h.1, fun y hy => ?_⟩
    exact of_recorded hy fun t ht => ih (h.2 t ht) _

end Xupeng
