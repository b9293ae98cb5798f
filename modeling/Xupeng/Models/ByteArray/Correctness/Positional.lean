import Xupeng.Models.ByteArray.Correctness.Invariant

/-!
# Reading at a position

Two functions take a position as an argument and mix it with the cursor. `read` at
a position starts in the node of the cursor, at the offset of the argument.
`getReadBuffers` at a position starts in the node of the argument, at the offset
of the cursor, and cuts the length down to what follows the cursor. Both deliver
what lies at the joint place, whatever they were asked for.
-/

namespace Xupeng.ByteArray

/-- The place in the node of `p` at the offset of `q`. -/
def joint (s : ByteArray) (p q : Nat) : Nat := s.baseSize * (p / s.baseSize) + q % s.baseSize

namespace Valid

variable {s : ByteArray} {p q n : Nat}

/-- The node is that of the first position. -/
theorem joint_div (h : s.Valid) (p q : Nat) : s.joint p q / s.baseSize = p / s.baseSize := by
  rw [joint, Nat.mul_add_div h.baseSize_pos, Nat.div_eq_of_lt (Nat.mod_lt _ h.baseSize_pos),
    Nat.add_zero]

/-- The offset is that of the second one. -/
theorem joint_mod (s : ByteArray) (p q : Nat) : s.joint p q % s.baseSize = q % s.baseSize := by
  rw [joint, Nat.mul_add_mod, Nat.mod_mod]

/-- A place inside the capacity in the node of the cursor: the cursor is not null. -/
theorem position_lt_of_joint (h : s.Valid) (hj : s.joint s.position q < s.capacity) :
    s.position < s.capacity := by
  have hle : s.baseSize * (s.position / s.baseSize) < s.baseSize * s.nodes.length := by
    rw [← h.capacity_eq]
    exact Nat.lt_of_le_of_lt (Nat.le_add_right _ _) hj
  have hdiv := Nat.lt_of_mul_lt_mul_left hle
  rw [Nat.div_lt_iff_lt_mul h.baseSize_pos, Nat.mul_comm, ← h.capacity_eq] at hdiv
  exact hdiv

/-! ## `read` at a position -/

/-- `read` at a position delivers what lies at that offset in the node of the cursor. -/
theorem readAt (h : s.Valid) (hn : 0 < n) (q : Nat) :
    ByteArray.readAt n q s =
      if sizeSub s.size q < n then .throw .notEnoughLen s
      else if s.joint s.position q + n ≤ s.capacity then
        .ok ((s.memory.drop (s.joint s.position q)).take n) s
      else .fault := by
  have hz : n ≠ 0 := Nat.pos_iff_ne_zero.mp hn
  by_cases hthrow : sizeSub s.size q < n
  · simp only [ByteArray.readAt, hthrow, if_true]
  by_cases hfit : s.joint s.position q + n ≤ s.capacity
  · have hlt : s.position < s.capacity := h.position_lt_of_joint (q := q) (by omega)
    have hloop := h.readLoop hn hfit
    rw [h.joint_div, joint_mod] at hloop
    simp only [ByteArray.readAt, hthrow, hfit, if_false, if_true, h.cur_of_lt hlt, hz, hloop]
  · have hloop := h.readLoop_of_lt hn (Nat.not_le.mp hfit)
    rw [h.joint_div, joint_mod] at hloop
    by_cases hlt : s.position < s.capacity
    · simp only [ByteArray.readAt, hthrow, hfit, if_false, h.cur_of_lt hlt, hz, hloop]
    · simp only [ByteArray.readAt, hthrow, hfit, if_false, h.cur_eq, hlt]

/-- The check of the bounds for a position inside the content. -/
theorem sizeSub_lt_iff (hq : q ≤ s.size) : sizeSub s.size q < n ↔ s.size < q + n := by
  simp only [sizeSub, hq, if_true]
  omega

/-- The check of the bounds wraps around for a position behind the content. -/
theorem sizeSub_lt_iff_of_lt (hq : s.size < q) (hq' : q < 2 ^ 64) :
    sizeSub s.size q < n ↔ s.size + 2 ^ 64 < q + n := by
  have hle : ¬ q ≤ s.size := Nat.not_le.mpr hq
  simp only [sizeSub, hle, if_false]
  omega

/-! ## `getReadBuffers` at a position -/

/-- With something to read after the cursor, the list covers what lies at the offset of the
cursor in the node of the argument. -/
theorem getReadBuffersAt_of_le (h : s.Valid) {len : Nat} (hm : 0 < min len s.getReadSize)
    (hle : s.joint q s.position + min len s.getReadSize ≤ s.capacity) :
    ∃ vs, getReadBuffersAt len q s = .ok (min len s.getReadSize, vs) s ∧
      Tiles s.baseSize (s.joint q s.position) vs
        (s.joint q s.position + min len s.getReadSize) := by
  obtain ⟨vs, hv, ht⟩ := h.bufferLoop hm hle
  rw [h.joint_div, joint_mod] at hv
  refine ⟨vs, ?_, ht⟩
  simp only [getReadBuffersAt, ite_lt_eq_min, Nat.pos_iff_ne_zero.mp hm, if_false, hv]

theorem getReadBuffersAt_of_lt (h : s.Valid) {len : Nat} (hm : 0 < min len s.getReadSize)
    (hlt : s.capacity < s.joint q s.position + min len s.getReadSize) :
    getReadBuffersAt len q s = .fault := by
  have hv := h.bufferLoop_of_lt hm hlt
  rw [h.joint_div, joint_mod] at hv
  simp only [getReadBuffersAt, ite_lt_eq_min, Nat.pos_iff_ne_zero.mp hm, if_false, hv]

/-- Nothing to read gives no buffers. -/
theorem getReadBuffersAt_of_eq {len : Nat} (hm : min len s.getReadSize = 0) :
    getReadBuffersAt len q s = .ok (0, []) s := by
  simp only [getReadBuffersAt, ite_lt_eq_min, hm, if_true]

/-- At the cursor the two lists are the same. -/
theorem getReadBuffersAt_position (h : s.Valid) (len : Nat) :
    getReadBuffersAt len s.position s = ByteArray.getReadBuffers len s := by
  by_cases hm : min len s.getReadSize = 0
  · simp only [getReadBuffersAt, ByteArray.getReadBuffers, ite_lt_eq_min, hm, if_true]
  · have hlt : s.position < s.capacity := by
      have hsize := h.size_le
      simp only [getReadSize] at hm
      omega
    simp only [getReadBuffersAt, ByteArray.getReadBuffers, ite_lt_eq_min, hm, if_false,
      h.cur_of_lt hlt]

end Valid

/-! ## Results -/

/-- `read` at a position throws exactly when the bytes asked for do not all lie in the content,
and delivers them otherwise, if and only if two things hold. A position behind the content comes
with a size so large that the wrapped difference is still smaller; and the bytes at the offset of
the position in the node of the cursor are there and the same as those at the position. -/
theorem positional_read_iff (s : ByteArray) (hs : s.Reachable) (n q : UInt64)
    (hn : 1 ≤ n.toNat) :
    (readAt n.toNat q.toNat s =
        if s.size < q.toNat + n.toNat then .throw .notEnoughLen s
        else .ok ((s.flat.data.drop q.toNat).take n.toNat) s) ↔
      (q.toNat ≤ s.size ∨ s.size + 2 ^ 64 < q.toNat + n.toNat) ∧
        (q.toNat + n.toNat ≤ s.size →
          s.joint s.position q.toNat + n.toNat ≤ s.capacity ∧
            (s.memory.drop (s.joint s.position q.toNat)).take n.toNat =
              (s.memory.drop q.toNat).take n.toNat) := by
  have hq := q.toNat_lt
  generalize q.toNat = q at hq ⊢
  generalize n.toNat = n at hn ⊢
  have h := hs.valid
  rw [h.readAt hn]
  by_cases hin : q ≤ s.size
  · rw [if_congr (Valid.sizeSub_lt_iff hin) rfl rfl]
    by_cases hlt : s.size < q + n
    · simp [hlt, hin, Nat.not_le.mpr hlt]
    · have hdata : (s.memory.drop q).take n = (s.flat.data.drop q).take n :=
        Valid.take_data (by omega)
      rw [if_neg hlt, if_neg hlt, hdata]
      by_cases hfit : s.joint s.position q + n ≤ s.capacity
      · simp [hfit, hin, Nat.not_lt.mp hlt]
      · simp [hfit, Nat.not_lt.mp hlt]
  · have hout : s.size < q + n := by omega
    rw [if_congr (Valid.sizeSub_lt_iff_of_lt (Nat.not_le.mp hin) hq) rfl rfl, if_pos hout]
    by_cases hwrap : s.size + 2 ^ 64 < q + n
    · rw [if_pos hwrap]
      refine ⟨fun _ => ⟨Or.inr hwrap, fun hle => ?_⟩, fun _ => rfl⟩
      exact absurd hle (Nat.not_le.mpr hout)
    · simp only [hwrap, hin, if_false, or_self, false_and, iff_false]
      split <;> exact nofun

/-- Five bytes in nodes of two, with the cursor on the fourth. -/
def fiveBytes : List Operation := [.write [1, 2, 3, 4, 5], .setPosition 3]

/-- A read in the node of the cursor, before the cursor. -/
theorem positional_read_fiveBytes :
    ∃ s, run (step .little) (new 2 fun _ => 0) fiveBytes = some s ∧ s.position = 3 ∧
      readAt 3 2 s = .ok [3, 4, 5] s :=
  ⟨_, rfl, rfl, ((positional_read_iff _ ⟨.little, 2, fun _ => 0, fiveBytes, by decide, rfl⟩ 3 2
    (by decide)).mpr (by decide)).trans rfl⟩

/-- A read in another node delivers bytes of the node of the cursor, and so does a read behind the
content, which does not throw. -/
theorem positional_read_wrong_fiveBytes :
    ∃ s, run (step .little) (new 2 fun _ => 0) fiveBytes = some s ∧
      s.flat.data = [1, 2, 3, 4, 5] ∧ readAt 2 0 s = .ok [3, 4] s ∧ readAt 1 6 s = .ok [3] s :=
  ⟨_, rfl, rfl, rfl, rfl⟩

/-- `getReadBuffers` at a position returns the length cut down to the content, with segments
inside nodes that spell that many bytes from the position on, if and only if two things hold. The
cursor cuts the length down in the same way; and unless nothing is left, the bytes at the offset
of the cursor in the node of the position are there and the same as those at the position. At the
cursor it does what `getReadBuffers` does. -/
theorem gather_at_iff (s : ByteArray) (hs : s.Reachable) (len q : Nat) :
    ((∃ vs, getReadBuffersAt len q s = .ok (min len (s.size - q), vs) s ∧
          (∀ v ∈ vs, v.Inside s.nodes) ∧
          vs.flatMap (segment s.nodes) = (s.flat.data.drop q).take (min len (s.size - q))) ↔
        min len (s.size - q) = min len (s.size - s.position) ∧
          (0 < min len (s.size - q) →
            s.joint q s.position + min len (s.size - q) ≤ s.capacity ∧
              (s.memory.drop (s.joint q s.position)).take (min len (s.size - q)) =
                (s.memory.drop q).take (min len (s.size - q)))) ∧
      getReadBuffersAt len s.position s = getReadBuffers len s := by
  have h := hs.valid
  refine ⟨?_, h.getReadBuffersAt_position len⟩
  have hdata : (s.memory.drop q).take (min len (s.size - q)) =
      (s.flat.data.drop q).take (min len (s.size - q)) :=
    Valid.take_data (Nat.min_le_right _ _)
  have hm : min len (s.size - s.position) = min len s.getReadSize := rfl
  rw [hm, hdata]
  constructor
  · rintro ⟨vs, hg, -, hspell⟩
    by_cases hz : min len s.getReadSize = 0
    · rw [Valid.getReadBuffersAt_of_eq hz] at hg
      injection hg with hpair
      have hlen : 0 = min len (s.size - q) := congrArg Prod.fst hpair
      exact ⟨by omega, fun hpos => by omega⟩
    · have hpos := Nat.pos_of_ne_zero hz
      by_cases hle : s.joint q s.position + min len s.getReadSize ≤ s.capacity
      · obtain ⟨ws, hw, ht⟩ := h.getReadBuffersAt_of_le hpos hle
        rw [hw] at hg
        injection hg with hpair
        have hlen : min len s.getReadSize = min len (s.size - q) := congrArg Prod.fst hpair
        obtain rfl : ws = vs := congrArg Prod.snd hpair
        have hbytes := (h.tiles ht hle).2
        rw [Nat.add_sub_cancel_left] at hbytes
        rw [← hlen] at hspell ⊢
        exact ⟨rfl, fun _ => ⟨hle, hbytes.symm.trans hspell⟩⟩
      · rw [h.getReadBuffersAt_of_lt hpos (Nat.not_le.mp hle)] at hg
        cases hg
  · rintro ⟨hlen, hsame⟩
    rw [hlen] at hsame ⊢
    by_cases hz : min len s.getReadSize = 0
    · refine ⟨[], ?_, (fun v hv => nomatch hv), ?_⟩
      · rw [Valid.getReadBuffersAt_of_eq hz, hz]
      · rw [hz]
        rfl
    · have hpos := Nat.pos_of_ne_zero hz
      obtain ⟨hle, hbytes⟩ := hsame hpos
      obtain ⟨vs, hg, ht⟩ := h.getReadBuffersAt_of_le hpos hle
      obtain ⟨hin, hspell⟩ := h.tiles ht hle
      refine ⟨vs, hg, hin, ?_⟩
      rw [hspell, Nat.add_sub_cancel_left, hbytes]

/-- A list at the offset of the cursor in the node before. -/
theorem gather_at_fiveBytes :
    ∃ s, run (step .little) (new 2 fun _ => 0) fiveBytes = some s ∧ s.position = 3 ∧
      ∃ vs, getReadBuffersAt 2 1 s = .ok (2, vs) s ∧ (∀ v ∈ vs, v.Inside s.nodes) ∧
        vs.flatMap (segment s.nodes) = [2, 3] :=
  ⟨_, rfl, rfl, (gather_at_iff _ ⟨.little, 2, fun _ => 0, fiveBytes, by decide, rfl⟩ 2
    1).1.mpr (by decide)⟩

/-- The list for the first two bytes covers the second and the third, and the list for the whole
content only two bytes. -/
theorem gather_at_wrong_fiveBytes :
    ∃ s, run (step .little) (new 2 fun _ => 0) fiveBytes = some s ∧
      s.flat.data = [1, 2, 3, 4, 5] ∧
      getReadBuffersAt 2 0 s = .ok (2, [⟨0, 1, 1⟩, ⟨1, 0, 1⟩]) s ∧
      [(⟨0, 1, 1⟩ : IoVec), ⟨1, 0, 1⟩].flatMap (segment s.nodes) = [2, 3] ∧
      getReadBuffersAt 5 0 s = .ok (2, [⟨0, 1, 1⟩, ⟨1, 0, 1⟩]) s :=
  ⟨_, rfl, rfl, rfl, rfl, rfl⟩

end Xupeng.ByteArray
