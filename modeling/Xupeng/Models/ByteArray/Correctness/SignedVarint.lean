import Xupeng.Models.ByteArray.Correctness.Invariant
import Xupeng.Models.ByteArray.Interpretation.Typed

/-!
# Signed 64-bit varints

`EncodeZigzag64` computes the zigzag number of its argument in 64 bits and then
returns it as `uint32_t`. The decoder and the varint loops work on all 64 bits,
so a value survives exactly when its number fits into 32 of them.
-/

namespace Xupeng.ByteArray

/-- What is left of the zigzag number after the return type. -/
theorem encodeZigzag64_toNat (v : Int64) : (EncodeZigzag64 v).toNat = zigzag v.toInt % 2 ^ 32 := by
  unfold EncodeZigzag64
  by_cases hneg : v.toInt < 0
  · have hlt : v < 0 := Int64.lt_iff_toInt_lt.mpr hneg
    rw [ite_cond_eq_true _ _ (eq_true hlt), UInt64.toNat_toUInt32]
    exact congrArg (· % 2 ^ 32) (toNat_neg_mul_two_sub_one (v := v.toBitVec) hneg)
  · have hge : ¬ v < 0 := fun h => hneg (Int64.lt_iff_toInt_lt.mp h)
    rw [ite_cond_eq_false _ _ (eq_false hge), UInt64.toNat_toUInt32]
    exact congrArg (· % 2 ^ 32) (toNat_mul_two (v := v.toBitVec) hneg)

/-- The code decodes as the integers do. -/
theorem decodeZigzag64_toInt (u : UInt64) : (DecodeZigzag64 u).toInt = unzigzag u.toNat :=
  toInt_shiftRight_xor_neg_and u.toBitVec

/-- Decoding undoes encoding exactly on the values of 32 bits. -/
theorem decodeZigzag64_encodeZigzag64_eq_iff (v : Int64) :
    DecodeZigzag64 (EncodeZigzag64 v).toUInt64 = v ↔ -2 ^ 31 ≤ v.toInt ∧ v.toInt ≤ 2 ^ 31 - 1 := by
  have hint : (DecodeZigzag64 (EncodeZigzag64 v).toUInt64).toInt =
      unzigzag (zigzag v.toInt % 2 ^ 32) := by
    rw [decodeZigzag64_toInt, UInt32.toNat_toUInt64, encodeZigzag64_toNat]
  rw [← Int64.toInt_inj, hint, ← zigzag_lt_iff (w := 31)]
  constructor
  · intro h
    have hnum := congrArg zigzag h
    rw [zigzag_unzigzag] at hnum
    rw [← hnum]
    exact Nat.mod_lt _ (Nat.two_pow_pos 32)
  · intro h
    rw [Nat.mod_eq_of_lt h, unzigzag_zigzag]

/-- What is written for `v` is read back as the decoded code of `v`. -/
theorem int64_codec {e : Endian} (v : Int64) :
    ∃ bs, Emits e (writeInt64 v) bs ∧
      Parses e readInt64 bs (DecodeZigzag64 (EncodeZigzag64 v).toUInt64) := by
  obtain ⟨hw, hr⟩ := uint64_codec (e := e) (EncodeZigzag64 v).toUInt64
  exact ⟨_, hw, hr.map DecodeZigzag64⟩

/-- In every state of a byte array, writing `v` with `writeInt64`, going back and
reading with `readInt64` returns `v`, having consumed the bytes written, exactly
when `v` is a value of 32 bits. -/
theorem int64_round_trip_iff (s : ByteArray) (hs : s.Reachable) (v : Int64) :
    (∃ t u w, writeInt64 v s = .ok () t ∧ setPosition s.position t = .ok () u ∧
        readInt64 u = .ok v w ∧ w.position = t.position) ↔
      -2 ^ 31 ≤ v.toInt ∧ v.toInt ≤ 2 ^ 31 - 1 := by
  obtain ⟨bs, hw, hr⟩ := int64_codec (e := s.endian) v
  obtain ⟨t, u, ht, htf, -, hu, huv, hue, huf, hahead, -⟩ := hw.reposition hs.valid rfl
  obtain ⟨w, hread, -, hwf, -⟩ := hr u _ huv hue hahead
  have hend : w.position = t.position := by
    have hwp : w.position = u.position + bs.length := congrArg Flat.pos hwf
    have htp : t.position = s.position + bs.length := congrArg Flat.pos htf
    have hup : u.position = s.position := congrArg Flat.pos huf
    omega
  rw [← decodeZigzag64_encodeZigzag64_eq_iff]
  constructor
  · rintro ⟨t', u', w', ht', hu', hread', -⟩
    rw [ht] at ht'
    cases ht'
    rw [hu] at hu'
    cases hu'
    rw [hread] at hread'
    exact (Outcome.ok.inj hread').1
  · intro hv
    rw [hv] at hread
    exact ⟨t, u, w, ht, hu, hread, hend⟩

/-- The least value of 32 bits survives in a fresh array. -/
theorem int64_round_trip_min32 :
    ∃ t u w, writeInt64 (-2147483648) (new 4 fun _ => 0) = .ok () t ∧
      setPosition 0 t = .ok () u ∧ readInt64 u = .ok (-2147483648) w ∧ w.position = t.position :=
  (int64_round_trip_iff (new 4 fun _ => 0) ⟨.little, 4, fun _ => 0, [], by decide, rfl⟩
    (-2147483648)).mpr (by decide)

/-- The value `2 ^ 31` comes back as zero. -/
theorem int64_round_trip_two_pow_31 :
    ∃ w, (do writeInt64 2147483648; setPosition 0; readInt64) (new 4 fun _ => 0) = .ok 0 w :=
  ⟨_, rfl⟩

end Xupeng.ByteArray
