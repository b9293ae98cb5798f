import Xupeng.Models.ByteArray.Correctness.Invariant

/-!
# Scatter writing equals plain writing

`recvmsg` writes through the list of `getWriteBuffers` and not through `write`, and
the caller moves the position afterwards. The segments tile the bytes from the
position on, so filling them splices the memory as `write` does, and the capacity
that `getWriteBuffers` has provided lets `setPosition` reach the end of what was
stored.
-/

namespace Xupeng.ByteArray

namespace Valid

variable {s : ByteArray}

/-- The array after some of its bytes have been stored through segments that tile the bytes from
the position on. -/
theorem scattered (h : s.Valid) {vs : List IoVec} {n : Nat} {bytes : List UInt8}
    (ht : Tiles s.baseSize s.position vs (s.position + n)) (hn : s.position + n ≤ s.capacity)
    (hbytes : bytes.length ≤ n) :
    ByteArray.Valid { s with nodes := scatter s.nodes vs bytes } ∧
      ByteArray.memory { s with nodes := scatter s.nodes vs bytes } =
        splice s.memory s.position bytes := by
  rw [h.capacity_eq] at hn
  obtain ⟨hu, hlen, hmem⟩ := ht.scatter h.uniform hn (Nat.add_le_add_left hbytes _)
  refine ⟨⟨h.baseSize_pos, h.position_le, h.size_le, ?_, ?_, hu, h.cur_eq⟩, hmem⟩
  · change s.capacity = s.baseSize * (scatter s.nodes vs bytes).length
    rw [hlen, h.capacity_eq]
  · apply List.ne_nil_of_length_pos
    rw [hlen]
    exact List.length_pos_of_ne_nil h.nodes_ne

/-- Storing through the segments and moving the position acts on the flat buffer as a write. -/
theorem scatter_setPosition (h : s.Valid) {vs : List IoVec} {n : Nat} {bytes : List UInt8}
    (ht : Tiles s.baseSize s.position vs (s.position + n)) (hn : s.position + n ≤ s.capacity)
    (hbytes : bytes.length ≤ n) :
    ∃ t, ByteArray.setPosition (s.position + bytes.length)
          { s with nodes := scatter s.nodes vs bytes } = .ok () t ∧
      t.Valid ∧ t.flat = s.flat.write bytes := by
  obtain ⟨hv, hmem⟩ := h.scattered ht hn hbytes
  have hle : s.position + bytes.length ≤ s.capacity := by omega
  obtain ⟨t, hset, htv, htf, -⟩ := hv.setPosition hle
  refine ⟨t, hset, htv, ?_⟩
  have hsize : s.size ≤ s.memory.length := by
    rw [h.length_memory]
    exact h.size_le
  rw [htf, hmem, take_splice_max h.position_le hsize]
  rfl

end Valid

/-- The segments of `getWriteBuffers` lie inside nodes, are disjoint and have the total length
asked for. Storing bytes into them in order and moving the position behind these bytes, which does
not throw, gives the content, the size and the position that `write` gives. -/
theorem scatter_writing (s : ByteArray) (hs : s.Reachable) (len : Nat) (bytes : List UInt8)
    (hbytes : bytes.length ≤ len) :
    ∃ vs t u w, getWriteBuffers len s = .ok (len, vs) t ∧
      (∀ v ∈ vs, v.Inside t.nodes) ∧ vs.Pairwise IoVec.Apart ∧ (vs.map IoVec.len).sum = len ∧
      setPosition (s.position + bytes.length) { t with nodes := scatter t.nodes vs bytes } =
        .ok () u ∧
      write bytes s = .ok () w ∧
      u.flat.data = w.flat.data ∧ u.size = w.size ∧ u.position = w.position := by
  obtain ⟨vs, t, hg, htv, htf, -, -, ht, hroom⟩ := hs.valid.getWriteBuffers len
  have hpos : t.position = s.position := congrArg Flat.pos htf
  obtain ⟨u, hu, huv, huf⟩ := htv.scatter_setPosition ht hroom hbytes
  obtain ⟨w, hw, hwv, hwf, -⟩ := hs.valid.write bytes
  have hsame : u.flat = w.flat := by rw [huf, hwf, htf]
  refine ⟨vs, t, u, w, hg, (htv.tiles ht hroom).1, ht.apart, ?_, ?_, hw, ?_, ?_, ?_⟩
  · have hsum := ht.sum_len
    omega
  · rw [← hpos]
    exact hu
  · rw [hsame]
  · rw [← huv.length_data, ← hwv.length_data, hsame]
  · exact congrArg Flat.pos hsame

/-- Three bytes stored through a list for five, from the end of a filled node on. -/
theorem scatter_writing_filledNode :
    ∃ s, run (step .little) (new 2 fun _ => 0) [.write [1, 2]] = some s ∧ s.cur = none ∧
      ∃ vs t u w, getWriteBuffers 5 s = .ok (5, vs) t ∧
        (∀ v ∈ vs, v.Inside t.nodes) ∧ vs.Pairwise IoVec.Apart ∧ (vs.map IoVec.len).sum = 5 ∧
        setPosition (s.position + 3) { t with nodes := scatter t.nodes vs [7, 8, 9] } = .ok () u ∧
        write [7, 8, 9] s = .ok () w ∧
        u.flat.data = w.flat.data ∧ u.size = w.size ∧ u.position = w.position :=
  ⟨_, rfl, rfl, scatter_writing _ ⟨.little, 2, fun _ => 0, [.write [1, 2]], by decide, rfl⟩ 5
    [7, 8, 9] (by decide)⟩

end Xupeng.ByteArray
