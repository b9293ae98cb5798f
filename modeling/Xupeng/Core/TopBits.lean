import Mathlib.Data.Nat.Bitwise

/-!
# Words cut at a bit

`topBits w p` has the upper `p` of its `w` bits set. What a word has in these bits is its
network, and the word with all other bits set is the last one with the same network.
-/

namespace Xupeng

variable {w : Nat} {x y : BitVec w}

/-- The word whose upper `p` bits are set. -/
def topBits (w p : Nat) : BitVec w := ~~~ (BitVec.allOnes w >>> p)

@[simp] theorem getMsbD_topBits {p i : Nat} (hi : i < w) :
    (topBits w p).getMsbD i = decide (i < p) := by
  simp only [topBits, BitVec.getMsbD_not, BitVec.getMsbD_ushiftRight, BitVec.getMsbD_allOnes]
  by_cases hip : i < p
  · simp [hi, hip]
  · simp [hi, hip]
    omega

/-- Two words have the same network if they agree in the upper bits. -/
theorem and_topBits_eq_iff {p : Nat} :
    x &&& topBits w p = y &&& topBits w p ↔ ∀ i < p, x.getMsbD i = y.getMsbD i := by
  constructor
  · intro h i hip
    by_cases hi : i < w
    · have hbit := congrArg (BitVec.getMsbD · i) h
      simpa [BitVec.getMsbD_and, hi, hip] using hbit
    · rw [BitVec.getMsbD_of_ge _ _ (by omega), BitVec.getMsbD_of_ge _ _ (by omega)]
  · intro h
    refine BitVec.eq_of_getMsbD_eq fun i hi => ?_
    rw [BitVec.getMsbD_and, BitVec.getMsbD_and, getMsbD_topBits hi]
    by_cases hip : i < p
    · rw [h i hip]
    · simp [hip]

/-- A word is cut in two. If both parts are the same, there is nothing in it. -/
theorem and_eq_and_not_iff (m : BitVec w) : x &&& ~~~ m = x &&& m ↔ x = 0#w := by
  constructor
  · intro h
    refine BitVec.eq_of_getMsbD_eq fun i hi => ?_
    have hbit := congrArg (BitVec.getMsbD · i) h
    simp only [BitVec.getMsbD_and, BitVec.getMsbD_not, hi, decide_true, Bool.true_and] at hbit
    rw [BitVec.getMsbD_zero]
    cases hx : x.getMsbD i with
    | false => rfl
    | true => cases hm : m.getMsbD i <;> simp [hx, hm] at hbit
  · rintro rfl
    simp

theorem and_le (x m : BitVec w) : x &&& m ≤ x := by
  rw [BitVec.le_def, BitVec.toNat_and]
  exact Nat.and_le_left

theorem le_or (x m : BitVec w) : x ≤ x ||| m := by
  rw [BitVec.le_def, BitVec.toNat_or]
  exact Nat.left_le_or

end Xupeng
