import Xupeng.Models.ByteArray.Interpretation.Chunks

/-!
# The flat buffer behind the chunks

`Flat` is what the byte array is for: a byte string and a position in it.
`Valid` is the representation invariant that lets the chunked array stand for a
flat one, and each raw operation is shown once to keep it and to act on the
flat buffer as expected. Nothing later unfolds a copying loop again.
-/

namespace Xupeng

/-- A byte string with a position. -/
structure Flat where
  data : List UInt8
  pos : Nat
  deriving DecidableEq, Repr

/-- Overwrite from the position, extending the string where needed. -/
def Flat.write (f : Flat) (bytes : List UInt8) : Flat :=
  ⟨splice f.data f.pos bytes, f.pos + bytes.length⟩

/-- The bytes from the position on. -/
def Flat.ahead (f : Flat) : List UInt8 := f.data.drop f.pos

namespace ByteArray

/-- The whole memory of the nodes, written or not. -/
def memory (s : ByteArray) : List UInt8 := flatten s.nodes

/-- The flat buffer that the array stands for. -/
def flat (s : ByteArray) : Flat := ⟨s.memory.take s.size, s.position⟩

/-- The representation invariant. -/
structure Valid (s : ByteArray) : Prop where
  baseSize_pos : 0 < s.baseSize
  position_le : s.position ≤ s.size
  size_le : s.size ≤ s.capacity
  capacity_eq : s.capacity = s.baseSize * s.nodes.length
  nodes_ne : s.nodes ≠ []
  uniform : Uniform s.baseSize s.nodes
  cur_eq : s.cur = if s.position < s.capacity then some (s.position / s.baseSize) else none

/-- The least multiple of `B` that is at least `n`. -/
def roundUp (B n : Nat) : Nat := (n + B - 1) / B * B

/-- Whole nodes have room for all bytes. -/
theorem le_roundUp {B : Nat} (hB : 0 < B) (n : Nat) : n ≤ roundUp B n := by
  have h := Nat.div_add_mod (n + B - 1) B
  have hm := Nat.mod_lt (n + B - 1) hB
  rw [roundUp, Nat.mul_comm]
  omega

/-- Whole nodes can be counted apart. -/
theorem roundUp_mul_add {B : Nat} (hB : 0 < B) (k n : Nat) :
    roundUp B (B * k + n) = B * k + roundUp B n := by
  have he : B * k + n + B - 1 = (n + B - 1) + k * B := by
    rw [Nat.mul_comm]
    omega
  rw [roundUp, he, Nat.add_mul_div_right _ _ hB, roundUp, Nat.add_mul, Nat.mul_comm k, Nat.add_comm]

theorem roundUp_le {B : Nat} (hB : 0 < B) {n k : Nat} (h : n ≤ B * k) : roundUp B n ≤ B * k := by
  have hlt : (n + B - 1) / B < k + 1 := by
    rw [Nat.div_lt_iff_lt_mul hB, Nat.succ_mul, Nat.mul_comm]
    omega
  rw [roundUp, Nat.mul_comm]
  exact Nat.mul_le_mul_left B (by omega)

namespace Valid

variable {s : ByteArray}

theorem length_memory (h : s.Valid) : s.memory.length = s.capacity := by
  rw [memory, h.uniform.length_flatten, h.capacity_eq]

theorem length_data (h : s.Valid) : s.flat.data.length = s.size := by
  rw [flat, List.length_take, h.length_memory, Nat.min_eq_left h.size_le]

/-- Before the end of the capacity, `m_cur` is the node that holds the position. -/
theorem cur_of_lt (h : s.Valid) (hp : s.position < s.capacity) :
    s.cur = some (s.position / s.baseSize) := by
  rw [h.cur_eq, ite_cond_eq_true _ _ (eq_true hp)]

/-- A position in the capacity is in one of the nodes. -/
theorem div_lt_length (h : s.Valid) (hp : s.position < s.capacity) :
    s.position / s.baseSize < s.nodes.length := by
  rw [Nat.div_lt_iff_lt_mul h.baseSize_pos, Nat.mul_comm, ← h.capacity_eq]
  exact hp

/-- The pointer to the node of a position is null from the end of the capacity on. -/
theorem nodePtr_div (h : s.Valid) (p : Nat) :
    s.nodePtr (p / s.baseSize) = if p < s.capacity then some (p / s.baseSize) else none := by
  have hiff : p / s.baseSize < s.nodes.length ↔ p < s.capacity := by
    rw [Nat.div_lt_iff_lt_mul h.baseSize_pos, h.capacity_eq, Nat.mul_comm]
  simp only [nodePtr, hiff]

/-- The memory from the node of the position on, entered at the position. -/
theorem drop_flatten (h : s.Valid) (p : Nat) :
    (flatten (s.nodes.drop (p / s.baseSize))).drop (p % s.baseSize) = s.memory.drop p := by
  rw [h.uniform.flatten_drop, List.drop_drop, Nat.div_add_mod, memory]

/-- The nodes from a position on hold the next `n` bytes exactly when the capacity does. -/
theorem fits_iff (h : s.Valid) {p n : Nat} (hn : 0 < n) :
    p % s.baseSize + n ≤ s.baseSize * (s.nodes.drop (p / s.baseSize)).length ↔
      p + n ≤ s.capacity := by
  have hd := Nat.div_add_mod p s.baseSize
  rw [List.length_drop, Nat.mul_sub, ← h.capacity_eq]
  omega

end Valid

end ByteArray

end Xupeng
