import Xupeng.Models.ByteArray.Native.Transfer

/-!
# The copying loops on a chain of equal nodes

On nodes of one size the chain is a flat memory cut into pieces. Each loop then
does to the memory what its name says, at an offset inside the first node, and
moves its pointer by the whole nodes it has used up.
-/

namespace Xupeng.ByteArray

/-- All nodes have the size `B`. -/
def Uniform (B : Nat) (l : List Node) : Prop := ∀ n ∈ l, n.size = B

/-- The buffers of the nodes one after another. -/
def flatten (l : List Node) : List UInt8 := l.flatMap Node.ptr

@[simp] theorem flatten_nil : flatten [] = [] := rfl

@[simp] theorem flatten_cons (n : Node) (l : List Node) : flatten (n :: l) = n.ptr ++ flatten l :=
  rfl

@[simp] theorem flatten_append (l m : List Node) : flatten (l ++ m) = flatten l ++ flatten m := by
  simp [flatten]

theorem Uniform.head {B : Nat} {n : Node} {l : List Node} (h : Uniform B (n :: l)) :
    n.size = B := h n (List.mem_cons_self ..)

theorem Uniform.tail {B : Nat} {n : Node} {l : List Node} (h : Uniform B (n :: l)) :
    Uniform B l := fun m hm => h m (List.mem_cons_of_mem _ hm)

theorem Uniform.append {B : Nat} {l m : List Node} (hl : Uniform B l) (hm : Uniform B m) :
    Uniform B (l ++ m) := fun n hn => (List.mem_append.mp hn).elim (hl n) (hm n)

theorem Uniform.take {B : Nat} {l : List Node} (h : Uniform B l) (i : Nat) :
    Uniform B (l.take i) := fun n hn => h n (List.mem_of_mem_take hn)

theorem Uniform.drop {B : Nat} {l : List Node} (h : Uniform B l) (i : Nat) :
    Uniform B (l.drop i) := fun n hn => h n (List.mem_of_mem_drop hn)

theorem Uniform.length_flatten {B : Nat} {l : List Node} (h : Uniform B l) :
    (flatten l).length = B * l.length := by
  induction l with
  | nil => rfl
  | cons n l ih =>
    have hn : n.ptr.length = B := h.head
    rw [flatten_cons, List.length_append, ih h.tail, hn, List.length_cons, Nat.mul_succ,
      Nat.add_comm]

/-- Leaving out whole nodes leaves out their share of the memory. -/
theorem Uniform.flatten_drop {B : Nat} {l : List Node} (h : Uniform B l) (i : Nat) :
    flatten (l.drop i) = (flatten l).drop (B * i) := by
  induction i generalizing l with
  | zero => rfl
  | succ i ih =>
    cases l with
    | nil => simp
    | cons n l =>
      have hn : n.ptr.length = B := h.head
      rw [List.drop_succ_cons, ih h.tail, flatten_cons, Nat.mul_succ, Nat.add_comm, ← hn,
        List.drop_length_add_append]

/-- The number of nodes used up by a transfer that ends in its first node. -/
private theorem within_div {B npos n : Nat} (hB : npos < B) (h : npos + n ≤ B) :
    (if B = npos + n then 1 else 0) = (npos + n) / B := by
  by_cases he : B = npos + n
  · rw [ite_cond_eq_true _ _ (eq_true he), ← he, Nat.div_self (by omega)]
  · rw [ite_cond_eq_false _ _ (eq_false he), Nat.div_eq_of_lt (by omega)]

/-- A transfer that leaves its first node uses up one node more than the rest of it. -/
private theorem beyond_div {B npos n : Nat} (hB : npos < B) (h : B < npos + n) :
    (0 + (n - (B - npos))) / B + 1 = (npos + n) / B := by
  have he : npos + n = (0 + (n - (B - npos))) + B := by omega
  rw [he, Nat.add_div_right _ (by omega)]

/-- Writing at an offset in the first node splices the flat memory there. -/
theorem writeLoop_eq {B : Nat} {l : List Node} {npos : Nat} {buf : List UInt8}
    (hl : Uniform B l) (hB : npos < B) (hb : buf ≠ []) (h : npos + buf.length ≤ B * l.length) :
    ∃ l', writeLoop l npos buf = some (l', (npos + buf.length) / B) ∧ Uniform B l' ∧
      l'.length = l.length ∧ flatten l' = splice (flatten l) npos buf := by
  induction l generalizing npos buf with
  | nil =>
    have := List.length_pos_of_ne_nil hb
    simp only [List.length_nil, Nat.mul_zero] at h
    omega
  | cons n l ih =>
    have hn : n.ptr.length = B := hl.head
    rw [List.length_cons, Nat.mul_succ] at h
    by_cases hle : buf.length ≤ B - npos
    · have hin : npos + buf.length ≤ n.ptr.length := by omega
      refine ⟨n.store npos buf :: l, ?_, ?_, rfl, ?_⟩
      · simp only [writeLoop, Node.size, hn, hle, if_true]
        rw [within_div hB (by omega)]
      · intro m hm
        rcases List.mem_cons.mp hm with rfl | hm
        · rw [Node.size, Node.store, length_splice_of_le hin, hn]
        · exact hl.tail m hm
      · rw [flatten_cons, flatten_cons, Node.store, splice_append_left hin]
    · have hlen : (buf.drop (B - npos)).length = buf.length - (B - npos) := List.length_drop
      have hne : buf.drop (B - npos) ≠ [] := by
        intro he
        rw [he, List.length_nil] at hlen
        omega
      obtain ⟨l', hw, hu, hl', hf⟩ := ih hl.tail (show 0 < B by omega) hne (by omega)
      have hpart : npos + (buf.take (B - npos)).length ≤ n.ptr.length := by
        rw [List.length_take]
        omega
      refine ⟨n.store npos (buf.take (B - npos)) :: l', ?_, ?_, ?_, ?_⟩
      · simp only [writeLoop, Node.size, hn, hle, if_false, hw, Option.map_some]
        rw [hlen, beyond_div hB (by omega)]
      · intro m hm
        rcases List.mem_cons.mp hm with rfl | hm
        · rw [Node.size, Node.store, length_splice_of_le hpart, hn]
        · exact hu m hm
      · rw [List.length_cons, List.length_cons, hl']
      · rw [flatten_cons, flatten_cons, hf, Node.store,
          splice_append_across (by omega) (by omega), hn]

/-- Reading at an offset in the first node returns the flat memory from there. -/
theorem readLoop_eq {B : Nat} {l : List Node} {npos size : Nat}
    (hl : Uniform B l) (hB : npos < B) (hs : 0 < size) (h : npos + size ≤ B * l.length) :
    readLoop l npos size = some (((flatten l).drop npos).take size, (npos + size) / B) := by
  induction l generalizing npos size with
  | nil =>
    simp only [List.length_nil, Nat.mul_zero] at h
    omega
  | cons n l ih =>
    have hn : n.ptr.length = B := hl.head
    rw [List.length_cons, Nat.mul_succ] at h
    have hdrop : (n.ptr.drop npos).length = B - npos := by rw [List.length_drop, hn]
    rw [flatten_cons, List.drop_append_of_le_length (by omega)]
    by_cases hle : size ≤ B - npos
    · simp only [readLoop, Node.size, hn, hle, if_true]
      rw [within_div hB (by omega), List.take_append_of_le_length (by omega)]
    · have hrec := ih hl.tail (show 0 < B by omega) (show 0 < size - (B - npos) by omega) (by omega)
      have hall : (n.ptr.drop npos).take size = n.ptr.drop npos :=
        List.take_of_length_le (by omega)
      have hcut : (n.ptr.drop npos).take (B - npos) = n.ptr.drop npos :=
        List.take_of_length_le (by omega)
      simp only [readLoop, Node.size, hn, hle, if_false, hrec, Option.map_some]
      rw [beyond_div hB (by omega), List.drop_zero, hcut, List.take_append, hall, hdrop]

/-- The reading loop follows the null pointer when the nodes do not reach. -/
theorem readLoop_eq_none {B : Nat} {l : List Node} {npos size : Nat} (hl : Uniform B l)
    (hB : npos < B) (h : B * l.length < npos + size) : readLoop l npos size = none := by
  induction l generalizing npos size with
  | nil => rfl
  | cons n l ih =>
    have hn : n.size = B := hl.head
    rw [List.length_cons, Nat.mul_succ] at h
    have hle : ¬ size ≤ B - npos := by
      have := Nat.zero_le (B * l.length)
      omega
    have hrec := ih hl.tail (show 0 < B by omega) (show _ < 0 + (size - (B - npos)) by omega)
    simp only [readLoop, hn, hle, if_false, hrec, Option.map_none]

/-- Seeking passes the whole nodes before the position. -/
theorem seek_eq {B : Nat} {l : List Node} {v : Nat} (hl : Uniform B l) (hB : 0 < B)
    (hne : l ≠ []) (h : v ≤ B * l.length) : seek l v = some (v / B) := by
  induction l generalizing v with
  | nil => exact absurd rfl hne
  | cons n l ih =>
    have hn : n.size = B := hl.head
    rw [List.length_cons, Nat.mul_succ] at h
    by_cases hlt : B < v
    · have hne' : l ≠ [] := by
        rintro rfl
        simp only [List.length_nil, Nat.mul_zero] at h
        omega
      have hrec := ih hl.tail hne' (show v - B ≤ B * l.length by omega)
      have hdiv : v / B = (v - B) / B + 1 := by
        rw [← Nat.add_div_right _ hB, Nat.sub_add_cancel (by omega)]
      simp only [seek, hn, hlt, if_true, hrec, Option.map_some, hdiv]
    · have hw := within_div hB (n := v) (by omega)
      rw [Nat.zero_add] at hw
      simp only [seek, hn, hlt, if_false, ← hw, eq_comm (a := v)]

end Xupeng.ByteArray
