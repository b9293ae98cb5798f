import Mathlib.Data.Nat.Bitwise

/-!
# Numbers as byte sequences

`bytesLE n v` is the expansion of `v` into `n` bytes, least significant first,
and `natOfBytes` its inverse. `groupValue` reads a sequence of seven-bit groups,
also least significant first; `Terminated` says where such a sequence ends, at
its only byte below `0x80`. `groupCount k` is how much of an arbitrary sequence
belongs to the number at its front when a number has at most `k` groups.
-/

namespace Xupeng

/-! ## Fixed width -/

/-- The low `n` bytes of `v`, least significant first. -/
def bytesLE : Nat → Nat → List UInt8
  | 0, _ => []
  | n + 1, v => UInt8.ofNat v :: bytesLE n (v / 256)

/-- The number whose bytes are given, least significant first. -/
def natOfBytes : List UInt8 → Nat
  | [] => 0
  | b :: bs => b.toNat + 256 * natOfBytes bs

@[simp] theorem length_bytesLE (n v : Nat) : (bytesLE n v).length = n := by
  induction n generalizing v with
  | zero => rfl
  | succ n ih => simp [bytesLE, ih]

/-- Expanding to `n` bytes loses exactly what does not fit into them. -/
theorem natOfBytes_bytesLE (n v : Nat) : natOfBytes (bytesLE n v) = v % 256 ^ n := by
  induction n generalizing v with
  | zero => simp [bytesLE, natOfBytes, Nat.mod_one]
  | succ n ih =>
    have hb : (UInt8.ofNat v).toNat = v % 256 := by simp [UInt8.toNat_ofNat']
    rw [bytesLE, natOfBytes, ih, hb, Nat.pow_succ, Nat.mul_comm (256 ^ n), Nat.mod_mul]

/-- A byte sequence is the expansion of its own number. -/
theorem bytesLE_natOfBytes (bs : List UInt8) : bytesLE bs.length (natOfBytes bs) = bs := by
  induction bs with
  | nil => rfl
  | cons b bs ih =>
    have hb := b.toNat_lt
    have hdiv : (b.toNat + 256 * natOfBytes bs) / 256 = natOfBytes bs := by omega
    have hmod : UInt8.ofNat (b.toNat + 256 * natOfBytes bs) = b := by
      apply UInt8.toNat_inj.mp
      rw [UInt8.toNat_ofNat']
      omega
    rw [natOfBytes, List.length_cons, bytesLE, hdiv, ih, hmod]

/-! ## Bits -/

/-- A byte of a number, counted from the lowest one. -/
theorem getElem?_bytesLE {n k : Nat} (h : k < n) (v : Nat) :
    (bytesLE n v)[k]? = some (UInt8.ofNat (v / 256 ^ k)) := by
  induction n generalizing v k with
  | zero => omega
  | succ n ih =>
    cases k with
    | zero => simp [bytesLE]
    | succ k =>
      rw [bytesLE, List.getElem?_cons_succ, ih (by omega), Nat.div_div_eq_div_mul, Nat.pow_succ,
        Nat.mul_comm]

/-- A bit of a number is a bit of one of its bytes. -/
theorem testBit_natOfBytes (bs : List UInt8) (i : Nat) :
    (natOfBytes bs).testBit i = (bs[i / 8]?.getD 0).toNat.testBit (i % 8) := by
  induction bs generalizing i with
  | nil => simp [natOfBytes]
  | cons b bs ih =>
    have hb : b.toNat < 2 ^ 8 := b.toNat_lt
    have hsum : natOfBytes (b :: bs) = 2 ^ 8 * natOfBytes bs + b.toNat := Nat.add_comm _ _
    rw [hsum, Nat.testBit_two_pow_mul_add _ hb]
    split
    · rename_i hlt
      have hdiv : i / 8 = 0 := by omega
      have hmod : i % 8 = i := by omega
      rw [hdiv, hmod]
      rfl
    · rename_i hge
      have hdiv : i / 8 = (i - 8) / 8 + 1 := by omega
      have hmod : i % 8 = (i - 8) % 8 := by omega
      rw [ih, hdiv, hmod, List.getElem?_cons_succ]

/-! ## Seven-bit groups -/

/-- The number spelled by the low seven bits of each byte, least significant first. -/
def groupValue : List UInt8 → Nat
  | [] => 0
  | b :: bs => b.toNat % 128 + 128 * groupValue bs

/-- Exactly the last byte is below `0x80`. -/
def Terminated : List UInt8 → Prop
  | [] => False
  | [b] => b.toNat < 128
  | b :: bs => 128 ≤ b.toNat ∧ Terminated bs

theorem Terminated.ne_nil {bs : List UInt8} (h : Terminated bs) : bs ≠ [] := by
  rintro rfl
  exact h

/-- A terminated sequence is its last byte alone or continues after a high one. -/
theorem terminated_cons {b : UInt8} {bs : List UInt8} :
    Terminated (b :: bs) ↔ bs = [] ∧ b.toNat < 128 ∨ 128 ≤ b.toNat ∧ Terminated bs := by
  cases bs <;> simp [Terminated]

/-- The value of a sequence as a sum over its bytes. -/
theorem groupValue_eq_sum (bs : List UInt8) :
    groupValue bs = (bs.mapIdx fun i b => b.toNat % 128 * 128 ^ i).sum := by
  -- the tail of the sequence starts at a higher power
  have hshift (k : Nat) :
      (bs.mapIdx fun i b => b.toNat % 128 * 128 ^ (i + k)).sum = 128 ^ k * groupValue bs := by
    induction bs generalizing k with
    | nil => rfl
    | cons b bs ih =>
      have hexp (i : Nat) : i + 1 + k = i + (k + 1) := by omega
      simp only [List.mapIdx_cons, List.sum_cons, hexp, ih, groupValue, Nat.zero_add]
      rw [Nat.pow_succ, Nat.mul_add, Nat.mul_comm (b.toNat % 128), Nat.mul_assoc]
  have h := hshift 0
  rw [Nat.pow_zero, Nat.one_mul] at h
  exact h.symm

/-- The number of bytes up to the first one below `0x80`, but at most `k`. It exceeds the length
of a sequence that ends too early. -/
def groupCount (k : Nat) (bs : List UInt8) : Nat :=
  min (bs.findIdx (fun b => b.toNat < 128) + 1) k

@[simp] theorem groupCount_zero (bs : List UInt8) : groupCount 0 bs = 0 := Nat.min_zero _

theorem groupCount_succ_nil (k : Nat) : groupCount (k + 1) [] = 1 := by
  simp [groupCount]

theorem groupCount_succ_cons (k : Nat) (b : UInt8) (bs : List UInt8) :
    groupCount (k + 1) (b :: bs) = if b.toNat < 128 then 1 else groupCount k bs + 1 := by
  rw [groupCount, groupCount, List.findIdx_cons]
  by_cases hb : b.toNat < 128
  · simp [hb]
  · simp only [hb, decide_false, cond_false, if_false]
    exact Nat.add_min_add_right _ k 1

/-- Only the bytes that are counted matter. -/
theorem groupCount_take (k : Nat) (bs : List UInt8) :
    groupCount k (bs.take (groupCount k bs)) = groupCount k bs := by
  simp only [groupCount, List.findIdx_take]
  omega

/-- A terminated sequence with few enough groups is counted up to its end. -/
theorem Terminated.groupCount_eq {bs : List UInt8} (h : Terminated bs) {k : Nat}
    (hk : bs.length ≤ k) : groupCount k bs = bs.length := by
  induction bs generalizing k with
  | nil => exact absurd rfl h.ne_nil
  | cons b bs ih =>
    rw [List.length_cons] at hk
    obtain ⟨k, rfl⟩ : ∃ j, k = j + 1 := ⟨k - 1, by omega⟩
    rw [groupCount_succ_cons, List.length_cons]
    rcases terminated_cons.mp h with ⟨rfl, hb⟩ | ⟨hb, hterm⟩
    · rw [if_pos hb, List.length_nil]
    · rw [if_neg (Nat.not_lt.mpr hb), ih hterm (Nat.le_of_succ_le_succ hk)]

/-- Adding a group above the bits collected so far is a bitwise or. -/
theorem ofNat_or_shiftLeft {w i r : Nat} (hr : r < 2 ^ i) (x : Nat) :
    BitVec.ofNat w r ||| BitVec.ofNat w x <<< i = BitVec.ofNat w (r + 2 ^ i * x) := by
  have hor : x <<< i ||| r = r + 2 ^ i * x := by
    rw [← Nat.shiftLeft_add_eq_or_of_lt hr, Nat.shiftLeft_eq, Nat.mul_comm, Nat.add_comm]
  apply BitVec.eq_of_toNat_eq
  simp only [BitVec.toNat_or, BitVec.toNat_shiftLeft, BitVec.toNat_ofNat]
  rw [← hor, Nat.or_comm (x <<< i), Nat.or_mod_two_pow, Nat.shiftLeft_eq, Nat.shiftLeft_eq,
    Nat.mod_mul_mod]

end Xupeng
