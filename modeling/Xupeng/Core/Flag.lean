import Mathlib.Data.BitVec

/-!
# One flag of a word

C keeps flags in the bits of an integer: a flag is set by `|`, cleared by `& ~`, and
tested by comparing `&` with zero. A flag here is a power of two below the width.
-/

namespace Xupeng

open BitVec

variable {w i : Nat}

/-- `x & flag`, as a truth value. -/
def hasFlag (flag x : BitVec w) : Bool := x &&& flag != 0#w

/-- The test reads the bit. -/
theorem hasFlag_twoPow (hi : i < w) (x : BitVec w) : hasFlag (twoPow w i) x = x.getLsbD i := by
  have hne : twoPow w i ≠ 0#w := by
    intro h
    have hbit := congrArg (·.getLsbD i) h
    simp [hi] at hbit
  unfold hasFlag
  rw [and_twoPow]
  cases x.getLsbD i <;> simp [hne]

theorem hasFlag_or (hi : i < w) (x : BitVec w) :
    hasFlag (twoPow w i) (x ||| twoPow w i) = true := by
  simp [hasFlag_twoPow hi, hi]

/-- A flag that is cleared is not. -/
theorem hasFlag_and_not (hi : i < w) (x : BitVec w) :
    hasFlag (twoPow w i) (x &&& ~~~twoPow w i) = false := by
  simp [hasFlag_twoPow hi, hi]

/-- Setting a flag changes nothing exactly when it is set. -/
theorem or_eq_self_iff (hi : i < w) (x : BitVec w) :
    x ||| twoPow w i = x ↔ hasFlag (twoPow w i) x = true := by
  constructor
  · intro h
    rw [← h]
    exact hasFlag_or hi x
  · intro h
    rw [hasFlag_twoPow hi] at h
    apply eq_of_getLsbD_eq
    intro j hj
    rw [getLsbD_or, getLsbD_twoPow]
    by_cases hij : i = j
    · subst hij
      simp [h]
    · simp [hij]

/-- Clearing a flag changes nothing exactly when it is clear. -/
theorem and_not_eq_self_iff (hi : i < w) (x : BitVec w) :
    x &&& ~~~twoPow w i = x ↔ hasFlag (twoPow w i) x = false := by
  constructor
  · intro h
    rw [← h]
    exact hasFlag_and_not hi x
  · intro h
    rw [hasFlag_twoPow hi] at h
    apply eq_of_getLsbD_eq
    intro j hj
    rw [getLsbD_and, getLsbD_not, getLsbD_twoPow]
    by_cases hij : i = j
    · subst hij
      simp [h]
    · simp [hij, hj]

end Xupeng
