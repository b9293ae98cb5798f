import Xupeng.Models.ByteArray.Correctness.Invariant
import Xupeng.Models.ByteArray.Interpretation.Typed

/-!
# Saving and loading

`writeToFile` takes the offset in the first node away from the length of a piece
after it has cut the piece down to what is left, and not before. This is right for
a position at the border of a node, and when a whole node or more is left. With
less left, position and rest swap their offsets from turn to turn, and the loop
walks on to the null pointer at the end of the chain.
-/

namespace Xupeng.ByteArray

variable {B : Nat} {l : List Node} {content : List UInt8}

/-! ## One piece -/

/-- A piece that lies in its node is written. -/
theorem Ofstream.write_of_le {cur : Node} {diff len : Nat} (hlen : 0 < len)
    (h : diff + len ≤ cur.size) :
    (Ofstream.mk content true).write cur diff len =
      some ⟨content ++ (cur.ptr.drop diff).take len, true⟩ := by
  have hneg : ¬ (len : Int) < 0 := by omega
  have hzero : ¬ (len : Int) = 0 := by omega
  have hfit : (0 : Int) ≤ diff ∧ (diff : Int) + len ≤ cur.size := by omega
  simp only [Ofstream.write, Bool.not_true, Bool.false_eq_true, if_false, hneg, hzero, hfit,
    and_self, if_true, Int.toNat_natCast]

/-- An offset below `2 ^ 31` is an `int`. -/
theorem bmod_offset {d : Nat} (hd : d < 2 ^ 31) : (d : Int).bmod (2 ^ 32) = d :=
  Int.bmod_eq_of_le (by omega) (by omega)

/-- Nothing is left to save. -/
theorem saveLoop_zero (B : Nat) (l : List Node) (pos : Int) (ofs : Ofstream) :
    saveLoop B l pos 0 ofs = some ofs := by
  cases l <;> rfl

/-- One turn of the loop with a piece that lies in its node. -/
theorem saveLoop_piece {n : Node} {pos r d len : Nat} (hd : pos % B = d) (hd' : d < 2 ^ 31)
    (hr : 0 < r) (hlen : 0 < len) (hpiece : min B r = d + len) (hn : d + len ≤ n.size) :
    saveLoop B (n :: l) pos r ⟨content, true⟩ =
      saveLoop B l ((pos + len : Nat) : Int) ((r : Int) - len)
        ⟨content ++ (n.ptr.drop d).take len, true⟩ := by
  have hpos : ¬ (r : Int) ≤ 0 := by omega
  have hdiff : ((pos : Int) % B).bmod (2 ^ 32) = d := by
    rw [← bmod_offset hd', ← hd, Int.natCast_emod]
  have hcut : (if (B : Int) < r then (B : Int) else r) - d = len := by
    split <;> omega
  simp only [saveLoop, hpos, if_false, hdiff, hcut, Ofstream.write_of_le hlen hn, Option.bind_some]
  rw [Int.natCast_add]

/-! ## The loop -/

/-- From the border of a node on, the loop saves the flat memory. -/
theorem saveLoop_aligned (hl : Uniform B l) (hB : 0 < B) {p r : Nat} (hp : p % B = 0)
    (hr : r ≤ B * l.length) :
    saveLoop B l p r ⟨content, true⟩ = some ⟨content ++ (flatten l).take r, true⟩ := by
  induction l generalizing p r content with
  | nil =>
    simp only [List.length_nil, Nat.mul_zero] at hr
    obtain rfl : r = 0 := by omega
    simp [saveLoop]
  | cons n l ih =>
    have hn : n.ptr.length = B := hl.head
    rw [List.length_cons, Nat.mul_succ] at hr
    by_cases hz : r = 0
    · subst hz
      simp [saveLoop_zero]
    have hpos := Nat.pos_of_ne_zero hz
    have hnext : (p + B) % B = 0 := by rw [Nat.add_mod_right, hp]
    by_cases hlt : B < r
    · have hall : n.ptr.take r = n.ptr := List.take_of_length_le (by omega)
      have hcut : n.ptr.take B = n.ptr := List.take_of_length_le (by omega)
      rw [saveLoop_piece hp (by decide) hpos hB (by omega) (by rw [Node.size]; omega),
        ← Int.natCast_sub (Nat.le_of_lt hlt), ih hl.tail hnext (by omega), flatten_cons,
        List.append_assoc, List.drop_zero, List.take_append, hall, hcut, hn]
    · rw [saveLoop_piece hp (by decide) hpos hpos (by omega) (by rw [Node.size]; omega),
        Int.sub_self, saveLoop_zero, flatten_cons, List.drop_zero,
        List.take_append_of_le_length (by omega)]

/-- The loop saves what follows a position inside a node, if a whole node or more is left. -/
theorem saveLoop_offset (hl : Uniform B l) (hB : 0 < B) {p r : Nat} (hp : p % B < 2 ^ 31)
    (hle : B ≤ r) (hr : p % B + r ≤ B * l.length) :
    saveLoop B l p r ⟨[], true⟩ = some ⟨((flatten l).drop (p % B)).take r, true⟩ := by
  have hmod := Nat.mod_lt p hB
  cases l with
  | nil =>
    simp only [List.length_nil, Nat.mul_zero] at hr
    omega
  | cons n l =>
    have hn : n.ptr.length = B := hl.head
    rw [List.length_cons, Nat.mul_succ] at hr
    have hnext : (p + (B - p % B)) % B = 0 := by
      have hdiv := Nat.div_add_mod p B
      have hmul : p + (B - p % B) = B * (p / B + 1) := by
        rw [Nat.mul_succ]
        omega
      rw [hmul, Nat.mul_mod_right]
    have hdrop : (n.ptr.drop (p % B)).length = B - p % B := by rw [List.length_drop, hn]
    have hall : (n.ptr.drop (p % B)).take r = n.ptr.drop (p % B) :=
      List.take_of_length_le (by omega)
    have hcut : (n.ptr.drop (p % B)).take (B - p % B) = n.ptr.drop (p % B) :=
      List.take_of_length_le (by omega)
    rw [saveLoop_piece rfl hp (by omega) (show 0 < B - p % B by omega) (by omega)
      (by rw [Node.size]; omega), ← Int.natCast_sub (by omega),
      saveLoop_aligned hl.tail hB hnext (by omega), flatten_cons, List.nil_append,
      List.drop_append_of_le_length (by omega), List.take_append, hdrop, hall, hcut]

/-- With less than a node left after a position inside a node, the loop never comes to an end
inside the chain: the offset and the rest change places in every turn. -/
theorem saveLoop_eq_none (hB : B ≤ 2 ^ 31) {d r : Nat} {pos : Int} (hd : 0 < d) (hd' : d < B)
    (hr : 0 < r) (hr' : r < B) (hpos : pos % B = d) (l : List Node) (ofs : Ofstream) :
    saveLoop B l pos r ofs = none := by
  have hleft : ¬ (r : Int) ≤ 0 := by omega
  induction l generalizing d r pos ofs with
  | nil => simp only [saveLoop, hleft, if_false]
  | cons n l ih =>
    have hdiff : (pos % B).bmod (2 ^ 32) = d := by
      rw [hpos]
      exact bmod_offset (by omega)
    have hcut : ¬ (B : Int) < r := by omega
    have hrest : (r : Int) - (r - d) = d := by omega
    have hswap : (pos + (r - d)) % B = r := by
      have hdiv := Int.mul_ediv_add_emod pos B
      have heq : pos + (r - d) = r + B * (pos / B) := by omega
      rw [heq, Int.add_mul_emod_self_left]
      exact Int.emod_eq_of_lt (by omega) (by omega)
    simp only [saveLoop, hleft, hcut, if_false, hdiff, hrest]
    cases hw : ofs.write n d (r - d) with
    | none => rfl
    | some ofs' => exact ih hr hr' hd hd' hswap ofs' (by omega)

/-! ## The two functions -/

/-- The position is at the border of a node, or a whole node or more is left and the offset is an
`int`, or nothing is left. -/
def Savable (s : ByteArray) : Prop :=
  s.position = s.size ∨ s.position % s.baseSize = 0 ∨
    s.position % s.baseSize < 2 ^ 31 ∧ s.baseSize ≤ s.getReadSize

namespace Valid

variable {s : ByteArray}

/-- The file gets the bytes from the position on. -/
theorem writeToFile_of_savable (h : s.Valid) (hs : s.Savable) :
    writeToFile true s = .ok (true, s.flat.ahead) s := by
  have hB := h.baseSize_pos
  by_cases hz : s.getReadSize = 0
  · have hnil : s.flat.ahead = [] := List.eq_nil_of_length_eq_zero (by rw [h.length_ahead, hz])
    simp only [writeToFile, Bool.not_true, Bool.false_eq_true, if_false, hz, Int.natCast_zero,
      saveLoop_zero, hnil]
  · have hpos := Nat.pos_of_ne_zero hz
    have hlt : s.position < s.size := by
      simp only [getReadSize] at hpos
      omega
    have hfit : s.position % s.baseSize + s.getReadSize ≤
        s.baseSize * (s.nodes.drop (s.position / s.baseSize)).length := by
      rw [h.fits_iff hpos]
      have hsize := h.size_le
      simp only [getReadSize]
      omega
    have hcur := h.cur_of_lt (Nat.lt_of_lt_of_le hlt h.size_le)
    have hu := h.uniform.drop (s.position / s.baseSize)
    have hsave : saveLoop s.baseSize (s.nodes.drop (s.position / s.baseSize)) s.position
        s.getReadSize ⟨[], true⟩ = some ⟨s.flat.ahead, true⟩ := by
      have hall : s.flat.ahead.take s.getReadSize = s.flat.ahead :=
        List.take_of_length_le (Nat.le_of_eq h.length_ahead)
      have hahead := h.drop_flatten s.position
      rcases hs with hend | hborder | ⟨hint, hle⟩
      · omega
      · rw [hborder, List.drop_zero] at hahead
        rw [saveLoop_aligned hu hB hborder (by omega), hahead, List.nil_append,
          take_ahead (Nat.le_refl _), hall]
      · rw [saveLoop_offset hu hB hint hle hfit, hahead, take_ahead (Nat.le_refl _), hall]
    simp only [writeToFile, Bool.not_true, Bool.false_eq_true, if_false, hcur, hsave]

/-- The loop walks off the nodes. -/
theorem writeToFile_of_not_savable (h : s.Valid) (hs : ¬ s.Savable) (hB : s.baseSize ≤ 2 ^ 31) :
    writeToFile true s = .fault := by
  have hmod := Nat.mod_lt s.position h.baseSize_pos
  have hle := h.position_le
  simp only [Savable, not_or, not_and, Nat.not_le] at hs
  obtain ⟨hend, hborder, hshort⟩ := hs
  have hlt : s.position < s.size := by omega
  have hleft : 0 < s.getReadSize := by
    simp only [getReadSize]
    omega
  have hnone := saveLoop_eq_none hB (Nat.pos_of_ne_zero hborder) hmod hleft (hshort (by omega))
    (Int.natCast_emod _ _).symm (s.nodes.drop (s.position / s.baseSize)) ⟨[], true⟩
  have hcur := h.cur_of_lt (Nat.lt_of_lt_of_le hlt h.size_le)
  simp only [writeToFile, Bool.not_true, Bool.false_eq_true, if_false, hcur, hnone]

/-- An array of size zero stands for the empty buffer. -/
theorem flat_of_size_eq_zero (h : s.Valid) (hz : s.size = 0) : s.flat = ⟨[], 0⟩ := by
  have hpos := h.position_le
  have hp : s.position = 0 := by omega
  simp [flat, hz, hp]

end Valid

variable {e : Endian}

/-- Loading writes the file, whatever the pieces are that it comes in. -/
theorem loadPieces_emits (pieces : List (List UInt8)) :
    Emits e (loadPieces pieces) pieces.flatten := by
  induction pieces with
  | nil => exact Emits.nil
  | cons piece pieces ih =>
    rw [List.flatten_cons]
    exact (write_emits piece).append ih

/-- The loop of `readFromFile` writes the file. -/
theorem fileLoop_emits {fuel : Nat} {rest : List UInt8} (hfuel : rest.length < fuel) :
    Emits e (fileLoop fuel rest) rest := by
  induction fuel generalizing rest with
  | zero => exact absurd hfuel (Nat.not_lt_zero _)
  | succ fuel ih =>
    intro s hs he
    have hB := hs.baseSize_pos
    have hpiece : Emits e (write (rest.take s.baseSize)) (rest.take s.baseSize) := write_emits _
    have htail : Emits e
        (if rest.length < s.baseSize then pure () else fileLoop fuel (rest.drop s.baseSize))
        (rest.drop s.baseSize) := by
      split
      · rename_i hshort
        rw [List.drop_eq_nil_of_le (Nat.le_of_lt hshort)]
        exact Emits.nil
      · exact ih (by rw [List.length_drop]; omega)
    have hall := hpiece.append htail
    rw [List.take_append_drop] at hall
    exact hall s hs he

/-- A call that writes a file to an empty array: at position 0 the array reads as the file. -/
theorem Emits.load {m : Call Unit} {file : List UInt8} {t : ByteArray} (hm : Emits t.endian m file)
    (ht : t.Valid) (hempty : t.size = 0) :
    ∃ u v, m t = .ok () u ∧ setPosition 0 u = .ok () v ∧ toString v = .ok file v := by
  have hflat := ht.flat_of_size_eq_zero hempty
  have hpos : t.position = 0 := congrArg Flat.pos hflat
  obtain ⟨u, v, hu, -, -, hv, hvv, -, -, hahead, -⟩ := hm.reposition ht rfl
  rw [hpos] at hv
  rw [hflat, List.drop_nil, List.append_nil] at hahead
  exact ⟨u, v, hu, hv, by rw [hvv.toString, hahead]⟩

/-- If the position is at the border of a node, or a whole node or more is left, or nothing, then
`writeToFile` writes the bytes from the position on, and loading the file into an empty array, in
whatever pieces it comes, gives the same string at position 0. Otherwise `writeToFile` follows a
null pointer, in an array with a base size that is an `int`. -/
theorem save_and_load (s : ByteArray) (hs : s.Reachable) (t : ByteArray) (ht : t.Reachable)
    (hempty : t.size = 0) :
    (s.Savable →
        writeToFile true s = .ok (true, s.flat.data.drop s.position) s ∧
          (∃ u v file, readFromFile (some (s.flat.data.drop s.position)) t = .ok true u ∧
            setPosition 0 u = .ok () v ∧ toString v = .ok file v ∧ toString s = .ok file s) ∧
          ∀ pieces, pieces.flatten = s.flat.data.drop s.position →
            ∃ u v file, loadPieces pieces t = .ok () u ∧ setPosition 0 u = .ok () v ∧
              toString v = .ok file v ∧ toString s = .ok file s) ∧
      (¬ s.Savable → s.baseSize ≤ 2 ^ 31 → writeToFile true s = .fault) := by
  have hstring : toString s = .ok (s.flat.data.drop s.position) s := hs.valid.toString
  refine ⟨fun hsave => ⟨hs.valid.writeToFile_of_savable hsave, ?_, ?_⟩,
    hs.valid.writeToFile_of_not_savable⟩
  · have hfile := fileLoop_emits (e := t.endian)
      (Nat.lt_succ_self (s.flat.data.drop s.position).length)
    obtain ⟨u, v, hu, hv, hvs⟩ := hfile.load ht.valid hempty
    exact ⟨u, v, _, Program.bind_of_ok hu, hv, hvs, hstring⟩
  · intro pieces hpieces
    have hload := loadPieces_emits (e := t.endian) pieces
    rw [hpieces] at hload
    obtain ⟨u, v, hu, hv, hvs⟩ := hload.load ht.valid hempty
    exact ⟨u, v, _, hu, hv, hvs, hstring⟩

/-- Two bytes saved from the middle of a node of two, and loaded into nodes of three. -/
theorem save_and_load_acrossNodes :
    ∃ s, run (step .little) (new 2 fun _ => 0) [.write [1, 2, 3, 4, 5], .setPosition 3] = some s ∧
      writeToFile true s = .ok (true, [4, 5]) s ∧
      ∃ u v file, readFromFile (some [4, 5]) (new 3 fun _ => 0) = .ok true u ∧
        setPosition 0 u = .ok () v ∧ toString v = .ok file v ∧ toString s = .ok file s := by
  obtain ⟨hsave, -⟩ := save_and_load _
    ⟨.little, 2, fun _ => 0, [.write [1, 2, 3, 4, 5], .setPosition 3], by decide, rfl⟩
    (new 3 fun _ => 0) ⟨.little, 3, fun _ => 0, [], by decide, rfl⟩ rfl
  obtain ⟨hwrite, hload, -⟩ := hsave (Or.inr (Or.inr (by decide)))
  exact ⟨_, rfl, hwrite, hload⟩

/-- The last two of three bytes in a node of four: the loop saves one and goes on to the next node,
which is not there. -/
theorem save_fault_insideNode :
    ∃ s, run (step .little) (new 4 fun _ => 0) [.write [1, 2, 3], .setPosition 1] = some s ∧
      s.position ≤ s.size ∧ writeToFile true s = .fault :=
  ⟨_, rfl, by decide, rfl⟩

end Xupeng.ByteArray
