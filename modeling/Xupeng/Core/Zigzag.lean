import Mathlib.Algebra.Group.Int.Defs
import Mathlib.Algebra.Group.Nat.Defs
import Mathlib.Data.Int.Basic

/-!
# Zigzag numbering of the integers

`zigzag` numbers the integers `0, -1, 1, -2, …` and `unzigzag` is its inverse.
On words of `w` bits both have the usual forms with a shift, a mask and a
complement; here those forms are reduced to the two functions.
-/

namespace Xupeng

/-- The place of an integer in the order `0, -1, 1, -2, …`. -/
def zigzag (v : Int) : Nat := if v < 0 then (-2 * v - 1).toNat else (2 * v).toNat

/-- The integer at a place of that order. -/
def unzigzag (n : Nat) : Int := if n % 2 = 0 then (n / 2 : Nat) else -(n / 2 : Nat) - 1

@[simp] theorem unzigzag_zigzag (v : Int) : unzigzag (zigzag v) = v := by
  unfold unzigzag zigzag
  split <;> split <;> omega

@[simp] theorem zigzag_unzigzag (n : Nat) : zigzag (unzigzag n) = n := by
  unfold unzigzag zigzag
  split <;> split <;> omega

/-- The integers whose number fits into `w + 1` bits are those of `w + 1` bits. -/
theorem zigzag_lt_iff {v : Int} {w : Nat} :
    zigzag v < 2 ^ (w + 1) ↔ -2 ^ w ≤ v ∧ v ≤ 2 ^ w - 1 := by
  have hpow : ((2 ^ w : Nat) : Int) = 2 ^ w := by norm_cast
  rw [← hpow, Nat.pow_succ]
  unfold zigzag
  split <;> omega

/-- The word of the decoder, read as a signed number. -/
theorem toInt_shiftRight_xor_neg_and {w : Nat} (u : BitVec (w + 1)) :
    ((u >>> 1) ^^^ -(u &&& 1#(w + 1))).toInt = unzigzag u.toNat := by
  have hlt : u.toNat < 2 * 2 ^ w := by
    have := u.isLt
    rwa [Nat.pow_succ, Nat.mul_comm] at this
  have hhalf : (u >>> 1).toNat = u.toNat / 2 := by
    rw [BitVec.toNat_ushiftRight, Nat.shiftRight_eq_div_pow, Nat.pow_one]
  have hint : (u >>> 1).toInt = (u.toNat / 2 : Nat) := by
    rw [BitVec.toInt_eq_toNat_of_lt, hhalf]
    rw [hhalf, Nat.pow_succ]
    omega
  have hone : (1#(w + 1)).toNat = 1 := BitVec.toNat_one (Nat.succ_pos w)
  have hmask : (u &&& 1#(w + 1)).toNat = u.toNat % 2 := by
    rw [BitVec.toNat_and, hone, Nat.and_one_is_mod]
  by_cases hpar : u.toNat % 2 = 0
  · have hzero : u &&& 1#(w + 1) = 0#(w + 1) := by
      apply BitVec.eq_of_toNat_eq
      rw [hmask, hpar, BitVec.toNat_zero]
    rw [hzero, BitVec.neg_zero, BitVec.xor_zero, hint, unzigzag,
      ite_cond_eq_true _ _ (eq_true hpar)]
  · have hodd : u &&& 1#(w + 1) = 1#(w + 1) := by
      apply BitVec.eq_of_toNat_eq
      rw [hmask, hone]
      omega
    have hnot : (~~~(u >>> 1)).toNat = 2 ^ (w + 1) - 1 - u.toNat / 2 := by
      rw [BitVec.toNat_not, hhalf]
    rw [hodd, BitVec.neg_one_eq_allOnes, BitVec.xor_allOnes, BitVec.toInt_eq_toNat_cond, hnot,
      unzigzag, ite_cond_eq_false _ _ (eq_false hpar), Nat.pow_succ]
    split <;> omega

/-- The bounds of a signed word. -/
private theorem toInt_bounds {w : Nat} (v : BitVec (w + 1)) :
    -((2 ^ w : Nat) : Int) ≤ v.toInt ∧ v.toInt < ((2 ^ w : Nat) : Int) := by
  have hle := BitVec.le_toInt v
  have hlt := @BitVec.toInt_lt _ v
  rw [Nat.add_sub_cancel] at hle hlt
  exact_mod_cast And.intro hle hlt

/-- The word of the encoder for a negative number. -/
theorem toNat_neg_mul_two_sub_one {w : Nat} {v : BitVec (w + 1)} (h : v.toInt < 0) :
    (-v * 2#(w + 1) - 1#(w + 1)).toNat = zigzag v.toInt := by
  obtain ⟨hle, -⟩ := toInt_bounds v
  have hint : -v * 2#(w + 1) - 1#(w + 1) = BitVec.ofInt (w + 1) (-v.toInt * 2 + -1) := by
    rw [BitVec.ofInt_add, BitVec.ofInt_mul, BitVec.ofInt_neg, BitVec.ofInt_neg, BitVec.ofInt_toInt,
      BitVec.sub_eq_add_neg]
    rfl
  rw [hint, BitVec.toNat_ofInt, Nat.pow_succ, Int.emod_eq_of_lt (by omega) (by omega), zigzag,
    ite_cond_eq_true _ _ (eq_true h)]
  omega

/-- The word of the encoder for any other number. -/
theorem toNat_mul_two {w : Nat} {v : BitVec (w + 1)} (h : ¬ v.toInt < 0) :
    (v * 2#(w + 1)).toNat = zigzag v.toInt := by
  obtain ⟨-, hlt⟩ := toInt_bounds v
  have hint : v * 2#(w + 1) = BitVec.ofInt (w + 1) (v.toInt * 2) := by
    rw [BitVec.ofInt_mul, BitVec.ofInt_toInt]
    rfl
  rw [hint, BitVec.toNat_ofInt, Nat.pow_succ, Int.emod_eq_of_lt (by omega) (by omega), zigzag,
    ite_cond_eq_false _ _ (eq_false h)]
  omega

end Xupeng
