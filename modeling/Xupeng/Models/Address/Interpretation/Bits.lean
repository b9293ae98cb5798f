import Mathlib.Data.List.Range
import Xupeng.Core.TopBits
import Xupeng.Models.Address.Native.Prefix

/-!
# Addresses as numbers

Read in network order, an IPv4 address is a number of 32 bits and an IPv6 address one of 128
bits. Swapping the bytes permutes the bits of a word, so it commutes with the operations that
work bit by bit. A bit of an IPv6 address, counted from the top, is a bit of one of its bytes.
-/

namespace Xupeng

/-- The address as a number. -/
def IPv4Address.value (host : Endian) (a : IPv4Address) : BitVec 32 :=
  byteswapOnLittleEndian host a.addr

@[inherit_doc IPv4Address.value]
def IPv6Address.value (a : IPv6Address) : BitVec 128 :=
  BitVec.ofNat 128 (natOfBytes a.addr.toList.reverse)

/-! ## Swapped bytes -/

section Swap

variable {w : Nat} (h : 8 ∣ w) (host : Endian) (x y : BitVec w)

/-- The bits of a byte stay together, the bytes change places. -/
theorem testBit_byteswap {n i : Nat} (hi : i < 8 * n) (v : Nat) :
    (byteswap n v).testBit i = v.testBit (8 * (n - 1 - i / 8) + i % 8) := by
  have hindex : n - 1 - i / 8 < n := by omega
  have hbyte : (bytesLE n v).reverse[i / 8]? =
      some (UInt8.ofNat (v / 256 ^ (n - 1 - i / 8))) := by
    rw [List.getElem?_reverse (by rw [length_bytesLE]; omega), length_bytesLE,
      getElem?_bytesLE hindex]
  have hpow : 256 ^ (n - 1 - i / 8) = 2 ^ (8 * (n - 1 - i / 8)) := by rw [Nat.pow_mul]
  rw [byteswap, testBit_natOfBytes, hbyte, Option.getD_some, UInt8.toNat_ofNat',
    Nat.testBit_mod_two_pow, hpow, Nat.testBit_div_two_pow, Nat.add_comm]
  simp [Nat.mod_lt]

include h

/-- Swapping takes each bit from the same place in the byte at the other end. -/
theorem getLsbD_swap {i : Nat} (hi : i < w) :
    (byteswapOnLittleEndian .little x).getLsbD i =
      x.getLsbD (8 * (w / 8 - 1 - i / 8) + i % 8) := by
  have hw : 8 * (w / 8) = w := Nat.mul_div_cancel' h
  rw [byteswapOnLittleEndian, BitVec.getLsbD_ofNat, testBit_byteswap (by omega),
    BitVec.testBit_toNat]
  simp [hi]

theorem swap_swap : byteswapOnLittleEndian host (byteswapOnLittleEndian host x) = x := by
  cases host with
  | big => rfl
  | little =>
    have hw : 8 * (w / 8) = w := Nat.mul_div_cancel' h
    refine BitVec.eq_of_getLsbD_eq fun i hi => ?_
    rw [getLsbD_swap h _ hi, getLsbD_swap h _ (by omega)]
    congr 1
    omega

theorem swap_inj {x y : BitVec w}
    (heq : byteswapOnLittleEndian host x = byteswapOnLittleEndian host y) : x = y := by
  rw [← swap_swap h host x, heq, swap_swap h host y]

/-- The operations on bits can be done in either order of the bytes. -/
theorem swap_or : byteswapOnLittleEndian host (x ||| y) =
    byteswapOnLittleEndian host x ||| byteswapOnLittleEndian host y := by
  cases host with
  | big => rfl
  | little =>
    refine BitVec.eq_of_getLsbD_eq fun i hi => ?_
    simp only [BitVec.getLsbD_or, getLsbD_swap h _ hi]

theorem swap_and : byteswapOnLittleEndian host (x &&& y) =
    byteswapOnLittleEndian host x &&& byteswapOnLittleEndian host y := by
  cases host with
  | big => rfl
  | little =>
    refine BitVec.eq_of_getLsbD_eq fun i hi => ?_
    simp only [BitVec.getLsbD_and, getLsbD_swap h _ hi]

theorem swap_not : byteswapOnLittleEndian host (~~~ x) = ~~~ byteswapOnLittleEndian host x := by
  cases host with
  | big => rfl
  | little =>
    have hw : 8 * (w / 8) = w := Nat.mul_div_cancel' h
    refine BitVec.eq_of_getLsbD_eq fun i hi => ?_
    have hj : 8 * (w / 8 - 1 - i / 8) + i % 8 < w := by omega
    simp only [BitVec.getLsbD_not, getLsbD_swap h _ hi, hi, hj]

end Swap

/-! ## Bytes -/

/-- Bits counted from the top lie in the bytes in their order. -/
theorem IPv6Address.getMsbD_value (a : IPv6Address) {i : Nat} (hi : i < 128) :
    a.value.getMsbD i = (a.addr[i / 8]).toBitVec.getMsbD (i % 8) := by
  have hbyte : a.addr.toList.reverse[(127 - i) / 8]? = some a.addr[i / 8] := by
    rw [List.getElem?_reverse (by rw [Vector.length_toList]; omega), Vector.length_toList]
    have hindex : 16 - 1 - (127 - i) / 8 = i / 8 := by omega
    rw [hindex, Vector.getElem?_toList, Vector.getElem?_eq_getElem]
  have hbit : (127 - i) % 8 = 7 - i % 8 := by omega
  have hlt : 127 - i < 128 := by omega
  rw [BitVec.getMsbD_eq_getLsbD, value, BitVec.getLsbD_ofNat, testBit_natOfBytes, hbyte,
    Option.getD_some, hbit, BitVec.getMsbD_eq_getLsbD]
  simp only [hi, hlt, decide_true, Bool.true_and, Nat.mod_lt i (Nat.succ_pos 7)]
  rfl

theorem change_of_lt {i : Nat} (h : i < 16) (f : UInt8 → UInt8) (a : Vector UInt8 16) :
    change i f a = .ok (a.set i (f a[i])) := dif_pos h

/-- An index behind the array is undefined behaviour. -/
theorem change_of_le {i : Nat} (h : 16 ≤ i) (f : UInt8 → UInt8) (a : Vector UInt8 16) :
    change i f a = .error .index := dif_neg (Nat.not_lt.mpr h)

/-- A loop that stays in the array sets the bytes that it reaches. -/
theorem exists_fill {i n : Nat} (h : i + n ≤ 16) (v : UInt8) (a : Vector UInt8 16) :
    ∃ r, fill i n v a = .ok r ∧
      ∀ (k : Nat) (hk : k < 16), r[k] = if i ≤ k ∧ k < i + n then v else a[k] := by
  induction n generalizing i a with
  | zero => exact ⟨a, rfl, fun k hk => by rw [if_neg (by omega)]⟩
  | succ n ih =>
    obtain ⟨r, hr, hbytes⟩ := ih (i := i + 1) (by omega) (a.set i v)
    refine ⟨r, ?_, fun k hk => ?_⟩
    · rw [fill, List.range'_succ, List.foldlM_cons, change_of_lt (by omega)]
      exact hr
    · rw [hbytes k hk, Vector.getElem_set]
      by_cases hik : i = k
      · subst hik
        simp
      · simp only [if_neg hik]
        congr 1
        simp only [eq_iff_iff]
        omega

/-! ## The mask -/

/-- As many ones as the shift is far. -/
theorem toNat_shift_sub_one {k : Nat} (hk : k < 32) :
    ((1#32 <<< k) - 1#32).toNat = 2 ^ k - 1 := by
  have hlt : 2 ^ k < 2 ^ 32 := Nat.pow_lt_pow_right (by decide) hk
  have hpos : 0 < 2 ^ k := Nat.two_pow_pos k
  rw [BitVec.toNat_sub, BitVec.toNat_shiftLeft, BitVec.toNat_ofNat, Nat.shiftLeft_eq,
    Nat.mod_eq_of_lt (a := 1) (by decide), Nat.one_mul, Nat.mod_eq_of_lt hlt]
  omega

/-- The mask has the bits behind the prefix. -/
theorem createMask_of_le {w : Nat} {bits : UInt32} (hbits : bits.toNat ≤ w)
    (hcount : w - bits.toNat < 32) : createMask w bits = .ok (~~~ topBits w bits.toNat) := by
  have hmod : (w + 2 ^ 64 - bits.toNat) % 2 ^ 64 = w - bits.toNat := by
    rw [Nat.sub_add_comm hbits, Nat.add_mod_right]
    omega
  have hmask : ((1#32 <<< (w - bits.toNat)) - 1#32).setWidth w = ~~~ topBits w bits.toNat := by
    refine BitVec.eq_of_getLsbD_eq fun i hi => ?_
    rw [topBits, BitVec.not_not, BitVec.getLsbD_setWidth, ← BitVec.testBit_toNat,
      toNat_shift_sub_one hcount, Nat.testBit_two_pow_sub_one, BitVec.getLsbD_ushiftRight,
      BitVec.getLsbD_allOnes]
    simp only [hi, decide_true, Bool.true_and, decide_eq_decide]
    omega
  simp only [createMask, hmod, if_pos hcount, hmask]

end Xupeng
