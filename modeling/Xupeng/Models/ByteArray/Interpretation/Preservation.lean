import Xupeng.Models.ByteArray.Interpretation.Flat
import Xupeng.Models.ByteArray.Interpretation.Segments

/-!
# The raw operations on the flat buffer

One lemma for each raw operation states its outcome on a valid array completely:
what it returns, that the array stays valid, and what becomes of the flat
buffer. The operations of the second half of the file only read.
-/

namespace Xupeng.ByteArray

theorem new_valid {B : Nat} (hB : 0 < B) (heap : Nat → UInt8) : (new B heap).Valid where
  baseSize_pos := hB
  position_le := Nat.le_refl 0
  size_le := Nat.zero_le B
  capacity_eq := (Nat.mul_one B).symm
  nodes_ne := List.cons_ne_nil _ _
  uniform := by
    intro n hn
    rw [List.mem_singleton.mp hn]
    simp [Node.size, Node.alloc, new]
  cur_eq := by simp [new, hB]

theorem new_flat (B : Nat) (heap : Nat → UInt8) : (new B heap).flat = ⟨[], 0⟩ := by
  simp [flat, new]

namespace Valid

variable {s : ByteArray}

/-! ## Growing -/

/-- Growing for a request keeps everything but the capacity, which becomes the
request's end rounded up to whole nodes unless it is larger already. -/
theorem addCapacity (h : s.Valid) {n : Nat} (hn : 0 < n) :
    (s.addCapacity n).Valid ∧ (s.addCapacity n).position = s.position ∧
      (s.addCapacity n).size = s.size ∧ (s.addCapacity n).endian = s.endian ∧
      (s.addCapacity n).baseSize = s.baseSize ∧
      (∃ l, (s.addCapacity n).nodes = s.nodes ++ l) ∧
      (s.addCapacity n).capacity = max s.capacity (roundUp s.baseSize (s.position + n)) := by
  have hB := h.baseSize_pos
  have hpos := h.position_le
  have hsize := h.size_le
  by_cases hcap : n ≤ s.getCapacity
  · have he : s.addCapacity n = s := by
      simp [ByteArray.addCapacity, Nat.pos_iff_ne_zero.mp hn, hcap]
    have hend : s.position + n ≤ s.baseSize * s.nodes.length := by
      rw [← h.capacity_eq]
      simp only [getCapacity] at hcap
      omega
    have hround := roundUp_le hB hend
    rw [← h.capacity_eq] at hround
    rw [he]
    exact ⟨h, rfl, rfl, rfl, rfl, ⟨[], (List.append_nil _).symm⟩, (Nat.max_eq_left hround).symm⟩
  · have hgrow : s.position + n = s.baseSize * s.nodes.length + (n - s.getCapacity) := by
      rw [← h.capacity_eq]
      simp only [getCapacity] at hcap ⊢
      omega
    have hround : roundUp s.baseSize (s.position + n) =
        s.capacity + (n - s.getCapacity + s.baseSize - 1) / s.baseSize * s.baseSize := by
      rw [hgrow, roundUp_mul_add hB, h.capacity_eq]
      rfl
    have hreach := le_roundUp hB (s.position + n)
    rw [ByteArray.addCapacity, ite_cond_eq_false _ _ (eq_false (Nat.pos_iff_ne_zero.mp hn)),
      ite_cond_eq_false _ _ (eq_false hcap)]
    refine ⟨⟨hB, hpos, ?_, ?_, ?_, ?_, ?_⟩, rfl, rfl, rfl, rfl, ⟨_, rfl⟩, ?_⟩
    · change s.size ≤ s.capacity + _
      omega
    · simp only [List.length_append, List.length_map, List.length_range, Nat.mul_add,
        ← h.capacity_eq]
      rw [Nat.mul_comm s.baseSize]
    · exact List.append_ne_nil_of_left_ne_nil h.nodes_ne _
    · refine h.uniform.append ?_
      intro m hm
      obtain ⟨i, -, rfl⟩ := List.mem_map.mp hm
      simp [Node.size, Node.alloc]
    · have hlt : s.position < s.capacity +
          (n - s.getCapacity + s.baseSize - 1) / s.baseSize * s.baseSize := by omega
      simp only [hlt, if_true]
      by_cases hz : s.getCapacity = 0
      · have hat : s.position = s.baseSize * s.nodes.length := by
          rw [← h.capacity_eq]
          simp only [getCapacity] at hz
          omega
        rw [ite_cond_eq_true _ _ (eq_true hz), hat, Nat.mul_div_cancel_left _ hB]
      · rw [ite_cond_eq_false _ _ (eq_false hz)]
        exact h.cur_of_lt (by simp only [getCapacity] at hz; omega)
    · rw [hround]
      exact (Nat.max_eq_right (Nat.le_add_right _ _)).symm

/-- The nodes an append leaves in front keep the flat buffer. -/
private theorem take_memory_append {nodes l : List Node} {n : Nat}
    (hn : n ≤ (flatten nodes).length) :
    (flatten (nodes ++ l)).take n = (flatten nodes).take n := by
  rw [flatten_append, List.take_append_of_le_length hn]

/-- Growing for a request makes room for it and leaves the flat buffer alone. -/
theorem addCapacity_flat (h : s.Valid) {n : Nat} (hn : 0 < n) :
    s.position + n ≤ (s.addCapacity n).capacity ∧ (s.addCapacity n).flat = s.flat := by
  obtain ⟨-, hp, hz, -, -, ⟨l, hl⟩, hc⟩ := h.addCapacity hn
  refine ⟨?_, ?_⟩
  · rw [hc]
    exact Nat.le_trans (le_roundUp h.baseSize_pos _) (Nat.le_max_right _ _)
  · have hmem := h.length_memory
    have hsize := h.size_le
    rw [flat, hp, hz, memory, hl, take_memory_append (by rw [memory] at hmem; omega)]
    rfl

/-! ## Writing -/

/-- The flat content of a memory that was spliced inside the capacity. -/
theorem take_splice_max {mem bs : List UInt8} {pos size : Nat} (hp : pos ≤ size)
    (hs : size ≤ mem.length) :
    (splice mem pos bs).take (max size (pos + bs.length)) = splice (mem.take size) pos bs := by
  rw [take_splice (by omega) (Nat.le_max_right _ _)]
  by_cases hle : pos + bs.length ≤ size
  · rw [Nat.max_eq_left hle]
  · rw [Nat.max_eq_right (by omega), ← splice_take (n := size) hp (by omega)
      (by rw [List.length_take]; omega), List.take_take, Nat.min_eq_left (by omega)]

/-- A non-empty write returns, overwrites the flat buffer at the position and
grows the capacity to hold what was written. -/
private theorem write_of_ne (h : s.Valid) {buf : List UInt8} (hb : buf ≠ []) :
    ∃ t, write buf s = .ok () t ∧ t.Valid ∧ t.flat = s.flat.write buf ∧ t.endian = s.endian ∧
      t.baseSize = s.baseSize ∧
      t.capacity = max s.capacity (roundUp s.baseSize (s.position + buf.length)) := by
  have hlen := List.length_pos_of_ne_nil hb
  obtain ⟨hv, hp, hz, he, hbase, -, hc⟩ := h.addCapacity hlen
  obtain ⟨hroom, hflat⟩ := h.addCapacity_flat hlen
  generalize hg : s.addCapacity buf.length = g at *
  have hlt : g.position < g.capacity := by omega
  have hmod := Nat.mod_lt g.position hv.baseSize_pos
  obtain ⟨l, hw, hu, hl, hf⟩ := writeLoop_eq (hv.uniform.drop (g.position / g.baseSize)) hmod hb
    ((hv.fits_iff hlen).mpr (by omega))
  have hq := hv.div_lt_length hlt
  have hmove : g.position / g.baseSize + (g.position % g.baseSize + buf.length) / g.baseSize =
      (g.position + buf.length) / g.baseSize := by
    conv_rhs => rw [← Nat.div_add_mod g.position g.baseSize, Nat.add_assoc,
      Nat.mul_add_div hv.baseSize_pos]
  have hnodes : (g.nodes.take (g.position / g.baseSize) ++ l).length = g.nodes.length := by
    rw [List.length_append, hl, List.length_take, List.length_drop]
    omega
  have hmem : flatten (g.nodes.take (g.position / g.baseSize) ++ l) =
      splice g.memory g.position buf := by
    have htake : (flatten (g.nodes.take (g.position / g.baseSize))).length =
        g.baseSize * (g.position / g.baseSize) := by
      rw [(hv.uniform.take _).length_flatten, List.length_take, Nat.min_eq_left (Nat.le_of_lt hq)]
    have hsub : g.position - g.baseSize * (g.position / g.baseSize) = g.position % g.baseSize := by
      have := Nat.div_add_mod g.position g.baseSize
      omega
    have hsplit : g.memory = flatten (g.nodes.take (g.position / g.baseSize)) ++
        flatten (g.nodes.drop (g.position / g.baseSize)) := by
      rw [← flatten_append, List.take_append_drop, memory]
    have hle : (flatten (g.nodes.take (g.position / g.baseSize))).length ≤ g.position := by
      rw [htake]
      exact Nat.mul_div_le _ _
    rw [flatten_append, hf, hsplit, splice_append_right hle, htake, hsub]
  refine ⟨{ g with
      nodes := g.nodes.take (g.position / g.baseSize) ++ l
      cur := g.nodePtr ((g.position + buf.length) / g.baseSize)
      position := g.position + buf.length
      size := max g.size (g.position + buf.length) }, ?_, ?_, ?_, he, hbase, hc⟩
  · simp only [ByteArray.write, hb, if_false, hg, hv.cur_of_lt hlt, hw, hmove]
  · refine ⟨hv.baseSize_pos, Nat.le_max_right _ _, ?_, ?_, ?_, (hv.uniform.take _).append hu, ?_⟩
    · have hend : g.position + buf.length ≤ g.capacity := by omega
      exact Nat.max_le.mpr ⟨hv.size_le, hend⟩
    · change g.capacity = g.baseSize * _
      rw [hnodes, hv.capacity_eq]
    · change g.nodes.take (g.position / g.baseSize) ++ l ≠ []
      intro hnil
      rw [hnil, List.length_nil] at hnodes
      exact Nat.not_lt_zero _ (hnodes ▸ hq)
    · exact hv.nodePtr_div _
  · rw [← hflat]
    simp only [flat, Flat.write, memory, hmem]
    rw [← memory, take_splice_max hv.position_le (by rw [hv.length_memory]; exact hv.size_le)]

/-- Every write returns, acts on the flat buffer and leaves enough capacity. -/
theorem write (h : s.Valid) (buf : List UInt8) :
    ∃ t, ByteArray.write buf s = .ok () t ∧ t.Valid ∧ t.flat = s.flat.write buf ∧
      t.endian = s.endian ∧ t.baseSize = s.baseSize ∧
      t.capacity = max s.capacity (roundUp s.baseSize (s.position + buf.length)) := by
  by_cases hb : buf = []
  · subst hb
    have hle : roundUp s.baseSize s.position ≤ s.capacity := by
      rw [h.capacity_eq]
      apply roundUp_le h.baseSize_pos
      rw [← h.capacity_eq]
      exact Nat.le_trans h.position_le h.size_le
    exact ⟨s, by simp [ByteArray.write], h, by simp [Flat.write, flat], rfl, rfl,
      (Nat.max_eq_left hle).symm⟩
  · exact h.write_of_ne hb

/-! ## Reading -/

/-- The content and the memory are the same up to the size. -/
theorem take_data {p n : Nat} (hn : n ≤ s.size - p) :
    (s.memory.drop p).take n = (s.flat.data.drop p).take n := by
  rw [flat, List.drop_take, List.take_take, Nat.min_eq_left hn]

/-- The bytes from the position on, cut inside the size. -/
theorem take_ahead {n : Nat} (hn : n ≤ s.getReadSize) :
    (s.memory.drop s.position).take n = s.flat.ahead.take n :=
  take_data hn

theorem length_ahead (h : s.Valid) : s.flat.ahead.length = s.getReadSize := by
  rw [Flat.ahead, List.length_drop, h.length_data]
  rfl

/-- The copying loop of the reads, entered at any position. -/
theorem readLoop (h : s.Valid) {p n : Nat} (hn : 0 < n) (hle : p + n ≤ s.capacity) :
    ByteArray.readLoop (s.nodes.drop (p / s.baseSize)) (p % s.baseSize) n =
      some ((s.memory.drop p).take n, (p % s.baseSize + n) / s.baseSize) := by
  rw [readLoop_eq (h.uniform.drop _) (Nat.mod_lt _ h.baseSize_pos) hn ((h.fits_iff hn).mpr hle),
    h.drop_flatten]

/-- The copying loop follows the null pointer when it is to leave the capacity. -/
theorem readLoop_of_lt (h : s.Valid) {p n : Nat} (hn : 0 < n) (hlt : s.capacity < p + n) :
    ByteArray.readLoop (s.nodes.drop (p / s.baseSize)) (p % s.baseSize) n = none := by
  refine readLoop_eq_none (h.uniform.drop _) (Nat.mod_lt p h.baseSize_pos) ?_
  rw [← Nat.not_le, h.fits_iff hn]
  exact Nat.not_le.mpr hlt

/-- The copying loop of the reads, entered at the position. -/
private theorem readLoop_ahead (h : s.Valid) {n : Nat} (hn : 0 < n) (hle : n ≤ s.getReadSize) :
    s.cur = some (s.position / s.baseSize) ∧
      ByteArray.readLoop (s.nodes.drop (s.position / s.baseSize)) (s.position % s.baseSize) n =
        some (s.flat.ahead.take n, (s.position % s.baseSize + n) / s.baseSize) := by
  have hsize := h.size_le
  have hend : s.position + n ≤ s.capacity := by
    simp only [getReadSize] at hle
    omega
  refine ⟨h.cur_of_lt (by omega), ?_⟩
  rw [h.readLoop hn hend, take_ahead hle]

/-- A read of available bytes returns them and advances the position. -/
theorem read_of_le (h : s.Valid) {n : Nat} (hn : 0 < n) (hle : n ≤ s.getReadSize) :
    ∃ t, ByteArray.read n s = .ok (s.flat.ahead.take n) t ∧ t.Valid ∧
      t.flat = ⟨s.flat.data, s.position + n⟩ ∧ t.endian = s.endian ∧ t.baseSize = s.baseSize ∧
      t.capacity = s.capacity := by
  obtain ⟨hcur, hloop⟩ := h.readLoop_ahead hn hle
  have hmove : s.position / s.baseSize + (s.position % s.baseSize + n) / s.baseSize =
      (s.position + n) / s.baseSize := by
    conv_rhs => rw [← Nat.div_add_mod s.position s.baseSize, Nat.add_assoc,
      Nat.mul_add_div h.baseSize_pos]
  refine ⟨{ s with
      cur := s.nodePtr ((s.position + n) / s.baseSize)
      position := s.position + n }, ?_, ?_, rfl, rfl, rfl, rfl⟩
  · simp only [ByteArray.read, Nat.not_lt.mpr hle, Nat.pos_iff_ne_zero.mp hn, if_false, hcur,
      hloop, hmove]
  · refine ⟨h.baseSize_pos, ?_, h.size_le, h.capacity_eq, h.nodes_ne, h.uniform, ?_⟩
    · have := h.position_le
      simp only [getReadSize] at hle
      change s.position + n ≤ s.size
      omega
    · exact h.nodePtr_div _

/-- A read past the end throws and changes nothing. -/
theorem read_of_lt {n : Nat} (hlt : s.getReadSize < n) :
    ByteArray.read n s = .throw .notEnoughLen s := by
  simp only [ByteArray.read, hlt, if_true]

/-- A read of no bytes dereferences `m_cur`, which is null at the end of the capacity. -/
theorem read_zero (h : s.Valid) :
    ByteArray.read 0 s = if s.position < s.capacity then .ok [] s else .fault := by
  have hz : ¬ s.getReadSize < 0 := Nat.not_lt_zero _
  by_cases hp : s.position < s.capacity
  · simp only [ByteArray.read, hz, if_false, h.cur_of_lt hp, if_true, hp]
  · simp only [ByteArray.read, hz, if_false, h.cur_eq, hp]

/-- Repositioning up to the capacity extends the content over bytes not yet written. -/
theorem setPosition (h : s.Valid) {v : Nat} (hv : v ≤ s.capacity) :
    ∃ t, ByteArray.setPosition v s = .ok () t ∧ t.Valid ∧
      t.flat = ⟨s.memory.take (max s.size v), v⟩ ∧ t.endian = s.endian ∧
      t.baseSize = s.baseSize ∧ t.capacity = s.capacity := by
  have hseek := seek_eq (v := v) h.uniform h.baseSize_pos h.nodes_ne
    (by rw [← h.capacity_eq]; exact hv)
  refine ⟨{ s with position := v, size := max s.size v, cur := s.nodePtr (v / s.baseSize) },
    ?_, ?_, rfl, rfl, rfl, rfl⟩
  · simp only [ByteArray.setPosition, Nat.not_lt.mpr hv, if_false, hseek]
  · exact ⟨h.baseSize_pos, Nat.le_max_right _ _, Nat.max_le.mpr ⟨h.size_le, hv⟩, h.capacity_eq,
      h.nodes_ne, h.uniform, h.nodePtr_div _⟩

/-- Repositioning inside the content moves the position only. -/
theorem setPosition_of_le (h : s.Valid) {v : Nat} (hv : v ≤ s.size) :
    ∃ t, ByteArray.setPosition v s = .ok () t ∧ t.Valid ∧ t.flat = ⟨s.flat.data, v⟩ ∧
      t.endian = s.endian ∧ t.baseSize = s.baseSize ∧ t.capacity = s.capacity := by
  obtain ⟨t, ht, hvalid, hf, hrest⟩ := h.setPosition (Nat.le_trans hv h.size_le)
  rw [Nat.max_eq_left hv] at hf
  exact ⟨t, ht, hvalid, hf, hrest⟩

/-- Clearing leaves an empty buffer in the root node. -/
theorem clear (h : s.Valid) :
    ∃ t, ByteArray.clear s = .ok () t ∧ t.Valid ∧ t.flat = ⟨[], 0⟩ ∧ t.endian = s.endian ∧
      t.baseSize = s.baseSize := by
  refine ⟨_, rfl, ?_, by simp [flat], rfl, rfl⟩
  have hone : (s.nodes.take 1).length = 1 := by
    rw [List.length_take]
    exact Nat.min_eq_left (List.length_pos_of_ne_nil h.nodes_ne)
  refine ⟨h.baseSize_pos, Nat.le_refl 0, Nat.zero_le _, ?_, ?_, h.uniform.take 1, ?_⟩
  · change s.baseSize = s.baseSize * _
    rw [hone, Nat.mul_one]
  · change s.nodes.take 1 ≠ []
    intro hnil
    rw [hnil] at hone
    cases hone
  · simp [h.baseSize_pos]

/-- The byte order is no part of the flat buffer. -/
theorem setIsLittleEndian (h : s.Valid) (val : Bool) :
    ∃ t, ByteArray.setIsLittleEndian val s = .ok () t ∧ t.Valid ∧ t.flat = s.flat ∧
      t.endian = (if val then .little else .big) ∧ t.baseSize = s.baseSize ∧
      t.capacity = s.capacity :=
  ⟨_, rfl, ⟨h.baseSize_pos, h.position_le, h.size_le, h.capacity_eq, h.nodes_ne, h.uniform,
    h.cur_eq⟩, rfl, rfl, rfl, rfl⟩

/-! ## Looking without moving -/

/-- `toString` returns the bytes from the position on. -/
theorem toString (h : s.Valid) :
    ByteArray.toString s = .ok s.flat.ahead s := by
  by_cases hz : s.getReadSize = 0
  · have hnil : s.flat.ahead = [] := List.eq_nil_of_length_eq_zero (by rw [h.length_ahead, hz])
    simp only [ByteArray.toString, hz, if_true, hnil]
  · obtain ⟨hcur, hloop⟩ := h.readLoop_ahead (Nat.pos_of_ne_zero hz) (Nat.le_refl _)
    have hpos := h.position_le
    have hsub : sizeSub s.size s.position = s.getReadSize := by
      simp only [sizeSub, hpos, if_true, getReadSize]
    have hall : s.flat.ahead.take s.getReadSize = s.flat.ahead :=
      List.take_of_length_le (Nat.le_of_eq h.length_ahead)
    simp only [ByteArray.toString, readAt, hz, if_false, hsub, Nat.lt_irrefl, hcur, hloop, hall]

/-- The loop behind the gather and scatter lists, entered at any position. -/
theorem bufferLoop (h : s.Valid) {p n : Nat} (hn : 0 < n) (hle : p + n ≤ s.capacity) :
    ∃ vs, ByteArray.bufferLoop (p / s.baseSize) (s.nodes.drop (p / s.baseSize)) (p % s.baseSize) n =
        some vs ∧ Tiles s.baseSize p vs (p + n) := by
  have htiles := bufferLoop_tiles (h.uniform.drop _) (Nat.mod_lt p h.baseSize_pos) hn
    ((h.fits_iff hn).mpr hle) (p / s.baseSize)
  rwa [Nat.div_add_mod] at htiles

/-- The loop follows the null pointer when it is to leave the capacity. -/
theorem bufferLoop_of_lt (h : s.Valid) {p n : Nat} (hn : 0 < n) (hlt : s.capacity < p + n) :
    ByteArray.bufferLoop (p / s.baseSize) (s.nodes.drop (p / s.baseSize)) (p % s.baseSize) n =
      none := by
  refine bufferLoop_eq_none (h.uniform.drop _) (Nat.mod_lt p h.baseSize_pos) ?_ _
  rw [← Nat.not_le, h.fits_iff hn]
  exact Nat.not_le.mpr hlt

/-- Segments inside the capacity lie inside nodes and spell the memory. -/
theorem tiles (h : s.Valid) {p q : Nat} {vs : List IoVec} (ht : Tiles s.baseSize p vs q)
    (hq : q ≤ s.capacity) :
    (∀ v ∈ vs, v.Inside s.nodes) ∧
      vs.flatMap (segment s.nodes) = (s.memory.drop p).take (q - p) := by
  rw [h.capacity_eq] at hq
  exact ⟨fun v hv => ht.inside h.uniform hq hv, ht.flatMap_segment h.uniform hq⟩

/-- The two ways to cut a length down to what there is. -/
theorem ite_lt_eq_min (m n : Nat) : (if m < n then m else n) = min n m := by
  split <;> omega

/-- `getReadBuffers` returns the clamped length and segments that tile that many bytes. -/
theorem getReadBuffers_tiles (h : s.Valid) (len : Nat) :
    ∃ vs, ByteArray.getReadBuffers len s = .ok (min len s.getReadSize, vs) s ∧
      Tiles s.baseSize s.position vs (s.position + min len s.getReadSize) := by
  by_cases hz : min len s.getReadSize = 0
  · refine ⟨[], ?_, by rw [hz]; rfl⟩
    simp only [ByteArray.getReadBuffers, ite_lt_eq_min, hz, if_true]
  · have hend : s.position + min len s.getReadSize ≤ s.capacity := by
      have hpos := h.position_le
      have hsize := h.size_le
      simp only [getReadSize]
      omega
    obtain ⟨vs, hv, ht⟩ := h.bufferLoop (Nat.pos_of_ne_zero hz) hend
    refine ⟨vs, ?_, ht⟩
    simp only [ByteArray.getReadBuffers, ite_lt_eq_min, hz, if_false, h.cur_of_lt (by omega), hv]

/-- The segments of `getReadBuffers` spell the bytes from the position on. -/
theorem getReadBuffers (h : s.Valid) (len : Nat) :
    ∃ vs, ByteArray.getReadBuffers len s = .ok (min len s.getReadSize, vs) s ∧
      vs.flatMap (segment s.nodes) = s.flat.ahead.take (min len s.getReadSize) := by
  obtain ⟨vs, hg, ht⟩ := h.getReadBuffers_tiles len
  have hend : s.position + min len s.getReadSize ≤ s.capacity := by
    have hpos := h.position_le
    have hsize := h.size_le
    simp only [getReadSize]
    omega
  refine ⟨vs, hg, ?_⟩
  rw [(h.tiles ht hend).2, Nat.add_sub_cancel_left, take_ahead (Nat.min_le_right _ _)]

/-- `getWriteBuffers` returns segments that tile the bytes from the position on, having grown
the capacity and nothing else. -/
theorem getWriteBuffers (h : s.Valid) (len : Nat) :
    ∃ vs t, ByteArray.getWriteBuffers len s = .ok (len, vs) t ∧ t.Valid ∧ t.flat = s.flat ∧
      t.endian = s.endian ∧ t.baseSize = s.baseSize ∧
      Tiles t.baseSize t.position vs (t.position + len) ∧ t.position + len ≤ t.capacity := by
  by_cases hz : len = 0
  · have hle := Nat.le_trans h.position_le h.size_le
    subst hz
    exact ⟨[], s, by simp [ByteArray.getWriteBuffers], h, rfl, rfl, rfl, rfl, hle⟩
  · have hpos := Nat.pos_of_ne_zero hz
    obtain ⟨hv, hp, -, he, hB, -, -⟩ := h.addCapacity hpos
    obtain ⟨hroom, hflat⟩ := h.addCapacity_flat hpos
    generalize hg : s.addCapacity len = g at *
    rw [← hp] at hroom
    obtain ⟨vs, hb, ht⟩ := hv.bufferLoop hpos hroom
    refine ⟨vs, g, ?_, hv, hflat, he, hB, ht, hroom⟩
    simp only [ByteArray.getWriteBuffers, hz, if_false, hg, hv.cur_of_lt (by omega), hb]

end Valid

end Xupeng.ByteArray
