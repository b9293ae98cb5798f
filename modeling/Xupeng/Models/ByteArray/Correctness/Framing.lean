import Xupeng.Models.ByteArray.Correctness.Invariant
import Xupeng.Models.ByteArray.Interpretation.Typed

/-!
# Strings with a 16-bit length

`writeStringF16` narrows the length to 16 bits and writes all bytes of the string
nevertheless. The reader takes as many bytes as the narrowed length says, so it
finds the next value exactly when the length has 16 bits.
-/

namespace Xupeng.ByteArray

variable {e : Endian}

/-- The bytes of a string with its narrowed length. -/
def code16 (e : Endian) (value : List UInt8) : List UInt8 :=
  e.memory 2 (UInt16.ofNat value.length).toNat ++ value

/-- The length in 16 bits and the whole string. -/
theorem writeStringF16_emits (host : Endian) (value : List UInt8) :
    Emits e (writeStringF16 host value) (code16 e value) :=
  (writeFixed_emits host 2 _).append (write_emits value)

/-- The four bytes of a number. -/
theorem writeFuint32_emits (host : Endian) (x : UInt32) :
    Emits e (writeFuint32 host x) (e.memory 4 x.toNat) :=
  writeFixed_emits host 4 x.toNat

/-- The narrowed length. -/
theorem toNat_ofNat_length (value : List UInt8) :
    (UInt16.ofNat value.length).toNat = value.length % 2 ^ 16 :=
  UInt16.toNat_ofNat'

/-- A read inside what lies ahead, with more behind it: also a read of no bytes returns. -/
theorem Valid.read_of_lt_ahead {s : ByteArray} (h : s.Valid) {n : Nat} (hn : n < s.getReadSize) :
    ∃ t, ByteArray.read n s = .ok (s.flat.ahead.take n) t ∧ t.Valid ∧
      t.flat.ahead = s.flat.ahead.drop n ∧ t.endian = s.endian := by
  by_cases hz : n = 0
  · subst hz
    have hlt : s.position < s.capacity := by
      have hsize := h.size_le
      simp only [getReadSize] at hn
      omega
    exact ⟨s, by rw [h.read_zero, if_pos hlt, List.take_zero], h, rfl, rfl⟩
  · obtain ⟨t, ht, htv, htf, hte, -⟩ := h.read_of_le (Nat.pos_of_ne_zero hz) (Nat.le_of_lt hn)
    refine ⟨t, ht, htv, ?_, hte⟩
    rw [htf, Flat.ahead, Flat.ahead, List.drop_drop]
    rfl

/-- The reader takes the first bytes of the string, as many as the narrowed length says. -/
theorem readStringF16_eq (host : Endian) {value rest : List UInt8} (hrest : rest ≠ [])
    {s : ByteArray} (hs : s.Valid) (he : s.endian = e)
    (hahead : s.flat.ahead = code16 e value ++ rest) :
    ∃ t, readStringF16 host s = .ok (value.take (value.length % 2 ^ 16)) t ∧ t.Valid ∧
      t.flat.ahead = value.drop (value.length % 2 ^ 16) ++ rest ∧ t.endian = e := by
  have hmod : value.length % 2 ^ 16 ≤ value.length := Nat.mod_le _ _
  have hpos := List.length_pos_of_ne_nil hrest
  rw [code16, List.append_assoc] at hahead
  obtain ⟨t, ht, htv, htf, hte, -⟩ :=
    readFuint16_parses (e := e) host (UInt16.ofNat value.length) s _ hs he hahead
  have hbody : t.flat.ahead = value ++ rest := by
    rw [htf]
    exact Flat.ahead_of_append hahead
  have hlt : value.length % 2 ^ 16 < t.getReadSize := by
    rw [← htv.length_ahead, hbody, List.length_append]
    omega
  obtain ⟨u, hu, huv, hua, hue⟩ := htv.read_of_lt_ahead hlt
  rw [hbody, List.take_append_of_le_length hmod] at hu
  rw [hbody, List.drop_append_of_le_length hmod] at hua
  refine ⟨u, ?_, huv, hua, hue.trans hte⟩
  rw [readStringF16, Program.bind_of_ok ht, toNat_ofNat_length, hu]

/-- A string and a word written at position 0, and what the reader finds there. -/
theorem framed (host : Endian) {s : ByteArray} (hs : s.Valid) (hpos : s.position = 0)
    (value : List UInt8) (x : UInt32) :
    ∃ t u v, (do writeStringF16 host value; writeFuint32 host x) s = .ok () t ∧
      setPosition 0 t = .ok () u ∧
      readStringF16 host u = .ok (value.take (value.length % 2 ^ 16)) v ∧ v.Valid ∧
      v.endian = s.endian ∧
      ∃ rest, v.flat.ahead =
        value.drop (value.length % 2 ^ 16) ++ s.endian.memory 4 x.toNat ++ rest := by
  have hwrite := (writeStringF16_emits (e := s.endian) host value).append
    (writeFuint32_emits host x)
  obtain ⟨t, u, ht, -, -, hu, huv, hue, -, hahead, -⟩ := hwrite.reposition hs rfl
  rw [hpos] at hu
  generalize s.flat.data.drop _ = rest at hahead
  rw [List.append_assoc] at hahead
  have hrest : s.endian.memory 4 x.toNat ++ rest ≠ [] := by
    apply List.ne_nil_of_length_pos
    rw [List.length_append, length_memory]
    omega
  obtain ⟨v, hv, hvv, hva, hve⟩ := readStringF16_eq host hrest huv hue hahead
  exact ⟨t, u, v, ht, hu, hv, hvv, hve, rest, by rw [hva, List.append_assoc]⟩

/-- A string written with a 16-bit length at position 0 and a word behind it are read back, or the
string is rejected, exactly when the length of the string has 16 bits. -/
theorem framing16_iff (host : Endian) (s : ByteArray) (hs : s.Reachable) (hpos : s.position = 0)
    (value : List UInt8) (x : UInt32) :
    ((∃ err, writeStringF16 host value s = .throw err s) ∨
        ∃ t u v w, (do writeStringF16 host value; writeFuint32 host x) s = .ok () t ∧
          setPosition 0 t = .ok () u ∧ readStringF16 host u = .ok value v ∧
          readFuint32 host v = .ok x w) ↔
      value.length < 2 ^ 16 := by
  obtain ⟨t, u, v, ht, hu, hv, hvv, hve, rest, hahead⟩ := framed host hs.valid hpos value x
  constructor
  · rintro (⟨err, hthrow⟩ | ⟨t', u', v', w, ht', hu', hv', -⟩)
    · obtain ⟨t', ht', -⟩ := writeStringF16_emits (e := s.endian) host value s hs.valid rfl
      cases hthrow.symm.trans ht'
    · obtain rfl : t = t' := by
        injection ht.symm.trans ht'
      obtain rfl : u = u' := by
        injection hu.symm.trans hu'
      have hsame : value.take (value.length % 2 ^ 16) = value := by
        injection hv.symm.trans hv'
      have hlen := congrArg List.length hsame
      rw [List.length_take] at hlen
      have hmod := Nat.mod_lt value.length (show 0 < 2 ^ 16 by decide)
      omega
  · intro hlt
    rw [Nat.mod_eq_of_lt hlt, List.take_length] at hv
    rw [Nat.mod_eq_of_lt hlt, List.drop_length, List.nil_append] at hahead
    obtain ⟨w, hw, -⟩ := readFuint32_parses host x v rest hvv hve hahead
    exact Or.inr ⟨t, u, v, w, ht, hu, hv, hw⟩

/-- A string of seven bytes and a word, over old bytes and in nodes of three. -/
theorem framing16_acrossNodes :
    ∃ s, run (step .little) (new 3 fun _ => 0) [.write [1, 2, 3, 4], .setPosition 0] = some s ∧
      ∃ t u v w, (do
          writeStringF16 .little [104, 101, 108, 108, 111, 33, 33]
          writeFuint32 .little 7) s = .ok () t ∧
        setPosition 0 t = .ok () u ∧
        readStringF16 .little u = .ok [104, 101, 108, 108, 111, 33, 33] v ∧
        readFuint32 .little v = .ok 7 w := by
  have hroundTrip := (framing16_iff .little _
    ⟨.little, 3, fun _ => 0, [.write [1, 2, 3, 4], .setPosition 0], by decide, rfl⟩ rfl
    [104, 101, 108, 108, 111, 33, 33] 7).mpr (by decide)
  exact ⟨_, rfl, hroundTrip.resolve_left fun ⟨_, hthrow⟩ => nomatch hthrow⟩

/-- A string of `2 ^ 16` bytes is read back as the empty string, and its first four bytes as the
word behind it. -/
theorem framing16_lost_longString :
    ∃ t u v w, (do writeStringF16 .little (List.replicate 65536 97); writeFuint32 .little 7)
        (new 4096 fun _ => 0) = .ok () t ∧
      setPosition 0 t = .ok () u ∧ readStringF16 .little u = .ok [] v ∧
      readFuint32 .little v = .ok 0x61616161 w := by
  obtain ⟨t, u, v, ht, hu, hv, hvv, hve, rest, hahead⟩ :=
    framed .little (new_valid (show 0 < 4096 by decide) fun _ => 0) rfl (List.replicate 65536 97) 7
  have hnone : 65536 % 2 ^ 16 = 0 := rfl
  rw [List.length_replicate, hnone] at hv hahead
  have hsplit : List.replicate 65536 (97 : UInt8) =
      Endian.big.memory 4 (0x61616161 : UInt32).toNat ++ List.replicate 65532 97 := by
    rw [show 65536 = 4 + 65532 from rfl, ← List.replicate_append_replicate]
    rfl
  rw [List.drop_zero, hsplit, List.append_assoc, List.append_assoc] at hahead
  obtain ⟨w, hw, -⟩ := readFuint32_parses .little 0x61616161 v _ hvv hve hahead
  exact ⟨t, u, v, w, ht, hu, hv, hw⟩

end Xupeng.ByteArray
