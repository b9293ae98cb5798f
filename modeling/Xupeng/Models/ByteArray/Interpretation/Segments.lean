import Mathlib.Algebra.GroupWithZero.Nat
import Xupeng.Models.ByteArray.Interpretation.Chunks

/-!
# Segments of the flat memory

The loop behind the gather and scatter lists cuts a stretch of the memory at the
borders of the nodes. `Tiles` says that segments cover a stretch one after the
other. From this alone it follows that they lie inside the nodes, have no byte in
common, spell the memory of the stretch, and that filling them in order splices
the memory there.
-/

namespace Xupeng.ByteArray

variable {B a b i npos len : Nat} {l : List Node} {v w : IoVec} {vs : List IoVec}
  {bytes : List UInt8}

/-- The place of a segment in the flat memory. -/
def IoVec.start (B : Nat) (v : IoVec) : Nat := B * v.node + v.offset

/-- The segment lies inside a node. -/
def IoVec.Inside (nodes : List Node) (v : IoVec) : Prop :=
  ∃ n, nodes[v.node]? = some n ∧ v.offset + v.len ≤ n.size

/-- The two segments have no byte in common. -/
def IoVec.Apart (v w : IoVec) : Prop :=
  v.node ≠ w.node ∨ v.offset + v.len ≤ w.offset ∨ w.offset + w.len ≤ v.offset

/-- The segments are not empty, stay inside nodes of size `B`, and cover the memory from `a` to
`b` one after the other. -/
def Tiles (B : Nat) : Nat → List IoVec → Nat → Prop
  | a, [], b => a = b
  | a, v :: vs, b => v.start B = a ∧ 0 < v.len ∧ v.offset + v.len ≤ B ∧ Tiles B (a + v.len) vs b

/-! ## What the loop cuts -/

/-- The loop tiles the memory from its offset on. -/
theorem bufferLoop_tiles (hl : Uniform B l) (hB : npos < B) (hs : 0 < len)
    (h : npos + len ≤ B * l.length) (i : Nat) :
    ∃ vs, bufferLoop i l npos len = some vs ∧ Tiles B (B * i + npos) vs (B * i + npos + len) := by
  induction l generalizing i npos len with
  | nil =>
    simp only [List.length_nil, Nat.mul_zero] at h
    omega
  | cons n l ih =>
    have hn : n.size = B := hl.head
    rw [List.length_cons, Nat.mul_succ] at h
    by_cases hle : len ≤ B - npos
    · refine ⟨[⟨i, npos, len⟩], ?_, rfl, hs, ?_, rfl⟩
      · simp only [bufferLoop, hn, hle, if_true]
      · change npos + len ≤ B
        omega
    · obtain ⟨vs, hv, ht⟩ := ih hl.tail (show 0 < B by omega)
        (show 0 < len - (B - npos) by omega) (by omega) (i + 1)
      have hstart : B * (i + 1) + 0 = B * i + npos + (B - npos) := by
        rw [Nat.mul_succ]
        omega
      have hend : B * i + npos + (B - npos) + (len - (B - npos)) = B * i + npos + len := by omega
      rw [hstart, hend] at ht
      refine ⟨⟨i, npos, B - npos⟩ :: vs, ?_, rfl, ?_, ?_, ht⟩
      · simp only [bufferLoop, hn, hle, if_false, hv, Option.map_some]
      · change 0 < B - npos
        omega
      · change npos + (B - npos) ≤ B
        omega

/-- The loop follows the null pointer when the nodes do not reach. -/
theorem bufferLoop_eq_none (hl : Uniform B l) (hB : npos < B) (h : B * l.length < npos + len)
    (i : Nat) : bufferLoop i l npos len = none := by
  induction l generalizing i npos len with
  | nil => rfl
  | cons n l ih =>
    have hn : n.size = B := hl.head
    rw [List.length_cons, Nat.mul_succ] at h
    have hle : ¬ len ≤ B - npos := by
      have := Nat.zero_le (B * l.length)
      omega
    have hrec := ih hl.tail (show 0 < B by omega) (show _ < 0 + (len - (B - npos)) by omega) (i + 1)
    simp only [bufferLoop, hn, hle, if_false, hrec, Option.map_none]

/-! ## Where the segments lie -/

/-- The pieces have the length of the whole together. -/
theorem Tiles.sum_len (h : Tiles B a vs b) : a + (vs.map IoVec.len).sum = b := by
  induction vs generalizing a with
  | nil => exact h
  | cons v vs ih =>
    have hrest := ih h.2.2.2
    rw [List.map_cons, List.sum_cons]
    omega

/-- A segment lies in the stretch and in its node. -/
theorem Tiles.of_mem (h : Tiles B a vs b) (hv : v ∈ vs) :
    a ≤ v.start B ∧ v.start B + v.len ≤ b ∧ 0 < v.len ∧ v.offset + v.len ≤ B := by
  induction vs generalizing a with
  | nil => cases hv
  | cons w vs ih =>
    obtain ⟨rfl, hpos, hin, hrest⟩ := h
    have hsum := hrest.sum_len
    rcases List.mem_cons.mp hv with rfl | hv
    · exact ⟨Nat.le_refl _, by omega, hpos, hin⟩
    · obtain ⟨hfrom, hto⟩ := ih hrest hv
      exact ⟨by omega, hto⟩

/-- The node of a segment that ends inside the memory. -/
theorem Tiles.node_lt (h : Tiles B a vs b) (hb : b ≤ B * l.length) (hv : v ∈ vs) :
    v.node < l.length := by
  obtain ⟨-, hto, hpos, hin⟩ := h.of_mem hv
  have hlt : B * v.node < B * l.length := by
    rw [IoVec.start] at hto
    omega
  exact Nat.lt_of_mul_lt_mul_left hlt

/-- Every piece is inside of its node. -/
theorem Tiles.inside (h : Tiles B a vs b) (hl : Uniform B l) (hb : b ≤ B * l.length) (hv : v ∈ vs) :
    v.Inside l := by
  have hlt := h.node_lt hb hv
  obtain ⟨-, -, -, hin⟩ := h.of_mem hv
  refine ⟨l[v.node], List.getElem?_eq_getElem hlt, ?_⟩
  rw [hl _ (List.getElem_mem hlt)]
  exact hin

/-- A segment that starts after the end of another one is apart from it. -/
theorem IoVec.apart_of_le (h : v.start B + v.len ≤ w.start B) : v.Apart w := by
  by_cases hnode : v.node = w.node
  · rw [IoVec.start, IoVec.start, hnode] at h
    exact Or.inr (Or.inl (by omega))
  · exact Or.inl hnode

/-- No two pieces have a byte in common. -/
theorem Tiles.apart (h : Tiles B a vs b) : vs.Pairwise IoVec.Apart := by
  induction vs generalizing a with
  | nil => exact List.Pairwise.nil
  | cons v vs ih =>
    obtain ⟨rfl, -, -, hrest⟩ := h
    refine List.Pairwise.cons (fun w hw => ?_) (ih hrest)
    exact IoVec.apart_of_le (hrest.of_mem hw).1

/-! ## What the segments hold -/

/-- A segment inside a node holds the flat memory at its place. -/
theorem Uniform.segment_eq (hl : Uniform B l) (hv : v.Inside l) :
    segment l v = ((flatten l).drop (v.start B)).take v.len := by
  obtain ⟨n, hn, hin⟩ := hv
  have hsize : n.ptr.length = B := hl n (List.mem_of_getElem? hn)
  obtain ⟨hlt, hget⟩ := List.getElem?_eq_some_iff.mp hn
  have hdrop : l.drop v.node = n :: l.drop (v.node + 1) := by
    rw [List.drop_eq_getElem_cons hlt, hget]
  rw [Node.size] at hin
  rw [IoVec.start, ← List.drop_drop, ← hl.flatten_drop, hdrop, flatten_cons,
    List.drop_append_of_le_length (by omega),
    List.take_append_of_le_length (by rw [List.length_drop]; omega)]
  simp only [segment, hn, Option.map_some, Option.getD_some]

/-- The segments spell the memory of the stretch. -/
theorem Tiles.flatMap_segment (h : Tiles B a vs b) (hl : Uniform B l) (hb : b ≤ B * l.length) :
    vs.flatMap (segment l) = ((flatten l).drop a).take (b - a) := by
  induction vs generalizing a with
  | nil =>
    obtain rfl : a = b := h
    simp
  | cons v vs ih =>
    have hseg := hl.segment_eq (h.inside hl hb List.mem_cons_self)
    obtain ⟨rfl, -, -, hrest⟩ := h
    have hsum := hrest.sum_len
    have hlen : b - v.start B = v.len + (b - (v.start B + v.len)) := by omega
    rw [List.flatMap_cons, hseg, ih hrest, hlen, List.take_add, List.drop_drop]

/-! ## Filling the segments -/

/-- Storing into a node keeps the nodes uniform and splices the flat memory. -/
theorem Uniform.store (hl : Uniform B l) (hnode : v.node < l.length) (bytes : List UInt8)
    (hin : v.offset + bytes.length ≤ B) :
    Uniform B (v.store l bytes) ∧ (v.store l bytes).length = l.length ∧
      flatten (v.store l bytes) = splice (flatten l) (v.start B) bytes := by
  have hsize : l[v.node].ptr.length = B := hl _ (List.getElem_mem hnode)
  have hfit : v.offset + bytes.length ≤ l[v.node].ptr.length := by omega
  have hfront : (flatten (l.take v.node)).length = B * v.node := by
    rw [(hl.take _).length_flatten, List.length_take, Nat.min_eq_left (Nat.le_of_lt hnode)]
  have hset : v.store l bytes =
      l.take v.node ++ l[v.node].store v.offset bytes :: l.drop (v.node + 1) := by
    rw [IoVec.store, List.modify_eq_take_cons_drop hnode]
  have hsplit : l = l.take v.node ++ l[v.node] :: l.drop (v.node + 1) := by
    rw [← List.drop_eq_getElem_cons hnode, List.take_append_drop]
  refine ⟨?_, by rw [IoVec.store, List.length_modify], ?_⟩
  · rw [hset]
    refine (hl.take _).append fun n hn => ?_
    rcases List.mem_cons.mp hn with rfl | hn
    · rw [Node.size, Node.store, length_splice_of_le hfit, hsize]
    · exact hl.drop _ n hn
  · rw [hset, flatten_append, flatten_cons]
    conv_rhs => rw [hsplit, flatten_append, flatten_cons]
    rw [splice_append_right (by rw [hfront, IoVec.start]; exact Nat.le_add_right _ _), hfront,
      IoVec.start, Nat.add_sub_cancel_left, splice_append_left hfit, Node.store]

/-- Filling the segments in order splices the flat memory where the stretch begins. -/
theorem Tiles.scatter (h : Tiles B a vs b) (hl : Uniform B l) (hb : b ≤ B * l.length)
    (hbytes : a + bytes.length ≤ b) :
    Uniform B (scatter l vs bytes) ∧ (scatter l vs bytes).length = l.length ∧
      flatten (scatter l vs bytes) = splice (flatten l) a bytes := by
  induction vs generalizing a l bytes with
  | nil =>
    obtain rfl : a = b := h
    obtain rfl : bytes = [] := List.eq_nil_of_length_eq_zero (by omega)
    exact ⟨hl, rfl, (splice_nil _ _).symm⟩
  | cons v vs ih =>
    have hnode := h.node_lt hb List.mem_cons_self
    obtain ⟨rfl, -, hin, hrest⟩ := h
    have hsum := hrest.sum_len
    have htake : (bytes.take v.len).length = min v.len bytes.length := List.length_take
    obtain ⟨hu, hlen, hmem⟩ := hl.store hnode (bytes.take v.len) (by omega)
    rw [ByteArray.scatter]
    by_cases hshort : bytes.length ≤ v.len
    · -- the bytes end in this segment, and nothing is stored in the others
      have hdrop : bytes.drop v.len = [] := List.drop_eq_nil_of_le hshort
      have hall : bytes.take v.len = bytes := List.take_of_length_le hshort
      have hend : v.start B + v.len + ([] : List UInt8).length ≤ b := by
        rw [List.length_nil]
        omega
      obtain ⟨hu', hlen', hmem'⟩ := ih hrest hu (by rw [hlen]; exact hb) hend
      rw [hdrop]
      refine ⟨hu', hlen'.trans hlen, ?_⟩
      rw [hmem', hmem, splice_nil, hall]
    · have hfull : (bytes.take v.len).length = v.len := by omega
      obtain ⟨hu', hlen', hmem'⟩ := ih hrest hu (by rw [hlen]; exact hb)
        (show v.start B + v.len + (bytes.drop v.len).length ≤ b by rw [List.length_drop]; omega)
      have hstart : v.start B ≤ (flatten l).length := by
        rw [hl.length_flatten]
        omega
      have hsplice := splice_splice hstart (bytes.take v.len) (bytes.drop v.len)
      rw [hfull, List.take_append_drop] at hsplice
      exact ⟨hu', hlen'.trans hlen, by rw [hmem', hmem, hsplice]⟩

end Xupeng.ByteArray
