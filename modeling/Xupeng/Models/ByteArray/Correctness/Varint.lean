import Xupeng.Models.ByteArray.Correctness.Invariant
import Xupeng.Models.ByteArray.Interpretation.Typed

/-!
# Varints from arbitrary bytes

The varint readers take whatever lies ahead. A number ends at its first byte below
`0x80`, and otherwise where the shift leaves the word: after five bytes in 32 bits
and after ten in 64. The last group that is read may be cut by the width, so an
overlong number is read modulo the word. A reader that runs out of bytes throws.
-/

namespace Xupeng.ByteArray

/-- The loop of the varint readers, with `k` passes ahead, on bytes that end inside a number. -/
theorem readVarintLoop_of_lt {w k i : Nat} (hi : i + 7 * k < w + 7) (r : BitVec w) {s : ByteArray}
    (hs : s.Valid) (hlt : s.flat.ahead.length < groupCount k s.flat.ahead) :
    ∃ t, readVarintLoop w k i r s = .throw .notEnoughLen t := by
  induction k generalizing i r s with
  | zero =>
    rw [groupCount_zero] at hlt
    exact absurd hlt (Nat.not_lt_zero _)
  | succ k ih =>
    have hiw : i < w := by omega
    rw [readVarintLoop, if_pos hiw]
    cases hahead : s.flat.ahead with
    | nil =>
      have hnone : s.getReadSize < 1 := by
        rw [← hs.length_ahead, hahead]
        exact Nat.one_pos
      have hthrow : readFuint8 s = .throw .notEnoughLen s :=
        Program.map_of_throw (Valid.read_of_lt hnone)
      exact ⟨s, Program.bind_of_throw hthrow⟩
    | cons b bs =>
      obtain ⟨t, ht, htv, htf, -⟩ := readFuint8_parses (e := s.endian) b s bs hs rfl hahead
      have hrest : t.flat.ahead = bs := by
        rw [htf]
        exact Flat.ahead_of_append (a := [b]) hahead
      rw [hahead, groupCount_succ_cons, List.length_cons] at hlt
      -- a low byte would have been the last one
      have hb : ¬ b.toNat < 128 := by
        intro hb
        rw [if_pos hb] at hlt
        omega
      rw [if_neg hb] at hlt
      rw [Program.bind_of_ok ht, if_neg (fun h => hb (UInt8.lt_iff_toNat_lt.mp h))]
      exact ih (by omega) _ htv (by rw [hrest]; omega)

/-- What a varint reader of at most `k` groups and of `w` bits makes of the bytes ahead. -/
structure Decodes {β : Type} (m : Call β) (toNat : β → Nat) (k w : Nat) (s : ByteArray) :
    Prop where
  /-- It consumes the bytes of the number and returns the sum of their groups modulo the word. -/
  returns : groupCount k s.flat.ahead ≤ s.flat.ahead.length →
    ∃ v t, m s = .ok v t ∧ t.flat = ⟨s.flat.data, s.flat.pos + groupCount k s.flat.ahead⟩ ∧
      toNat v = ((s.flat.ahead.take (groupCount k s.flat.ahead)).mapIdx
        fun i b => b.toNat % 128 * 128 ^ i).sum % 2 ^ w
  /-- It throws exactly when the bytes ahead end inside the number. -/
  throws : (∃ err t, m s = .throw err t) ↔ s.flat.ahead.length < groupCount k s.flat.ahead

/-- Both readers are the loop of their width, with as many groups as reach into the word. -/
theorem readVarint_decodes {β : Type} {w k : Nat} {f : BitVec w → β} {toNat : β → Nat}
    (hf : ∀ x, toNat (f x) = x.toNat) (hw : w ≤ 7 * k) (hk : 7 * k < w + 7) {s : ByteArray}
    (hs : s.Valid) : Decodes (f <$> readVarintLoop w w 0 0) toNat k w s := by
  have hreturns (hle : groupCount k s.flat.ahead ≤ s.flat.ahead.length) :
      ∃ v t, (f <$> readVarintLoop w w 0 0) s = .ok v t ∧
        t.flat = ⟨s.flat.data, s.flat.pos + groupCount k s.flat.ahead⟩ ∧
        toNat v = ((s.flat.ahead.take (groupCount k s.flat.ahead)).mapIdx
          fun i b => b.toNat % 128 * 128 ^ i).sum % 2 ^ w := by
    generalize hn : groupCount k s.flat.ahead = n at hle ⊢
    have hlen : (s.flat.ahead.take n).length = n := List.length_take_of_le hle
    have hcode : groupCount k (s.flat.ahead.take n) = (s.flat.ahead.take n).length := by
      rw [hlen, ← hn, groupCount_take]
    obtain ⟨t, ht, -, htf, -⟩ := readVarint_parses (e := s.endian) hw hk hcode s
      (s.flat.ahead.drop n) hs rfl (List.take_append_drop n _).symm
    refine ⟨_, t, Program.map_of_ok ht, ?_, ?_⟩
    · rw [htf, hlen]
    · rw [hf, BitVec.toNat_ofNat, groupValue_eq_sum]
  refine ⟨hreturns, ?_⟩
  constructor
  · rintro ⟨err, t, hthrow⟩
    by_contra hge
    obtain ⟨v, u, hok, -⟩ := hreturns (Nat.not_lt.mp hge)
    cases hthrow.symm.trans hok
  · intro hlt
    obtain ⟨t, ht⟩ := readVarintLoop_of_lt (i := 0) (by omega) (0 : BitVec w) hs hlt
    rw [readVarintLoop_passes hw hk (Nat.le_refl k)] at ht
    exact ⟨_, t, Program.map_of_throw ht⟩

/-- The bytes that `writeUint32` stores are one number for `readUint64`. -/
theorem readUint64_parses_uint32 {e : Endian} (v : UInt32) :
    Parses e readUint64 ((varintLoop 5 v.toBitVec).getD []) v.toUInt64 := by
  obtain ⟨bs, hloop, hterm, hval, hlen⟩ :=
    varintLoop_eq_of_le (k := 5) (by decide) (by decide) v.toBitVec
  have hcount : groupCount 10 bs = bs.length := hterm.groupCount_eq (by omega)
  have hread : Parses e (readVarintLoop 64 64 0 0) bs (BitVec.ofNat 64 v.toNat) := by
    have h := readVarint_parses (e := e) (w := 64) (k := 10) (by decide) (by decide) hcount
    rwa [hval] at h
  have hword : UInt64.ofBitVec (BitVec.ofNat 64 v.toNat) = v.toUInt64 := by
    apply UInt64.toNat_inj.mp
    rw [UInt64.toNat_ofBitVec, BitVec.toNat_ofNat, UInt32.toNat_toUInt64]
    exact Nat.mod_eq_of_lt (Nat.lt_trans v.toNat_lt (by decide))
  rw [hloop, Option.getD_some, ← hword]
  exact hread.map UInt64.ofBitVec

/-- On every byte sequence ahead, `readUint32` and `readUint64` consume the bytes up to the first
one below `0x80`, at most five and ten, and return the sum of their groups modulo the word, or
throw exactly when there are too few. The loops end after five and ten passes, however many they
are given. What `writeUint32` writes is decoded by `readUint64` to the same value, in any array and
whatever follows. -/
theorem varint_decoding (s : ByteArray) (hs : s.Reachable) :
    Decodes readUint32 UInt32.toNat 5 32 s ∧ Decodes readUint64 UInt64.toNat 10 64 s ∧
      (∀ passes, 5 ≤ passes → UInt32.ofBitVec <$> readVarintLoop 32 passes 0 0 = readUint32) ∧
      (∀ passes, 10 ≤ passes → UInt64.ofBitVec <$> readVarintLoop 64 passes 0 0 = readUint64) ∧
      ∀ v : UInt32, ∃ bs t, writeUint32 v s = .ok () t ∧ t.flat = s.flat.write bs ∧
        ∀ (u : ByteArray) (rest : List UInt8), u.Reachable → u.flat.ahead = bs ++ rest →
          ∃ w, readUint64 u = .ok v.toUInt64 w ∧ w.position = u.position + bs.length := by
  refine ⟨?_, ?_, ?_, ?_, ?_⟩
  · exact readVarint_decodes (k := 5) (w := 32) (fun _ => UInt32.toNat_ofBitVec) (by decide)
      (by decide) hs.valid
  · exact readVarint_decodes (k := 10) (w := 64) (fun _ => UInt64.toNat_ofBitVec) (by decide)
      (by decide) hs.valid
  · intro passes hle
    rw [readVarintLoop_passes (k := 5) (by decide) (by decide) hle, readUint32]
  · intro passes hle
    rw [readVarintLoop_passes (k := 10) (by decide) (by decide) hle, readUint64]
  · intro v
    obtain ⟨t, ht, -, htf, -⟩ := (uint32_codec v).1 s hs.valid rfl
    refine ⟨_, t, ht, htf, ?_⟩
    intro u rest hu hahead
    obtain ⟨w, hw, -, hwf, -⟩ := readUint64_parses_uint32 v u rest hu.valid rfl hahead
    exact ⟨w, hw, congrArg Flat.pos hwf⟩

/-- Five bytes with all groups full, in nodes of two bytes and followed by another byte: the upper
three bits of the last group are lost. Without the fifth byte the read throws. -/
theorem varint_decoding_overflow :
    (∃ s v t, run (step .little) (new 2 fun _ => 0)
        [.write [0xff, 0xff, 0xff, 0xff, 0x7f, 1], .setPosition 0] = some s ∧
      readUint32 s = .ok v t ∧ t.flat.pos = 5 ∧ v.toNat = (2 ^ 35 - 1) % 2 ^ 32) ∧
    ∃ s, run (step .little) (new 2 fun _ => 0)
        [.write [0xff, 0xff, 0xff, 0xff], .setPosition 0] = some s ∧
      ∃ err t, readUint32 s = .throw err t := by
  constructor
  · obtain ⟨v, t, hread, hflat, hval⟩ := (varint_decoding _
      ⟨.little, 2, fun _ => 0, [.write [0xff, 0xff, 0xff, 0xff, 0x7f, 1], .setPosition 0],
        by decide, rfl⟩).1.returns (by decide)
    exact ⟨_, v, t, rfl, hread, congrArg Flat.pos hflat, hval⟩
  · exact ⟨_, rfl, (varint_decoding _
      ⟨.little, 2, fun _ => 0, [.write [0xff, 0xff, 0xff, 0xff], .setPosition 0],
        by decide, rfl⟩).1.throws.mpr (by decide)⟩

end Xupeng.ByteArray
