import Xupeng.Models.ByteArray.Interpretation.Preservation
import Xupeng.Models.ByteArray.Native.Operation

/-!
# The representation invariant over whole call sequences

The raw transfers keep the invariant, whether they return or throw. The typed
operations are sequences of raw ones, so the composition rules of `Preserves`
carry the invariant to every operation and from there to every run.
-/

namespace Xupeng.ByteArray

/-- The invariant together with the base size the array was constructed with. -/
def ValidOf (B : Nat) (s : ByteArray) : Prop := s.Valid ∧ s.baseSize = B

open Program

variable {B : Nat}

/-! ## Raw operations -/

/-- The calls that change the nodes or the position keep them well formed. -/
theorem write_preserves (buf : List UInt8) : Preserves (ValidOf B) (write buf) := by
  rintro s ⟨h, hB⟩
  obtain ⟨t, hw, hv, -, -, hb, -⟩ := h.write buf
  rw [hw]
  exact ⟨hv, hb.trans hB⟩

theorem read_preserves (n : Nat) : Preserves (ValidOf B) (read n) := by
  rintro s ⟨h, hB⟩
  by_cases hlt : s.getReadSize < n
  · rw [Valid.read_of_lt hlt]
    exact ⟨h, hB⟩
  · by_cases hz : n = 0
    · subst hz
      rw [h.read_zero]
      split
      · exact ⟨h, hB⟩
      · trivial
    · obtain ⟨t, hr, hv, -, -, hb, -⟩ := h.read_of_le (Nat.pos_of_ne_zero hz) (Nat.not_lt.mp hlt)
      rw [hr]
      exact ⟨hv, hb.trans hB⟩

/-- Repositioning up to the capacity may extend the content over unwritten bytes. -/
theorem setPosition_preserves (v : Nat) : Preserves (ValidOf B) (setPosition v) := by
  rintro s ⟨h, hB⟩
  by_cases hlt : s.capacity < v
  · simp only [setPosition, hlt, if_true]
    exact ⟨h, hB⟩
  · obtain ⟨t, ht, hv, -, -, hb, -⟩ := h.setPosition (Nat.not_lt.mp hlt)
    rw [ht]
    exact ⟨hv, hb.trans hB⟩

theorem clear_preserves : Preserves (ValidOf B) clear := by
  rintro s ⟨h, hB⟩
  obtain ⟨t, hc, hv, -, -, hb⟩ := h.clear
  rw [hc]
  exact ⟨hv, hb.trans hB⟩

theorem getWriteBuffers_preserves (len : Nat) : Preserves (ValidOf B) (getWriteBuffers len) := by
  rintro s ⟨h, hB⟩
  obtain ⟨vs, t, hg, hv, -, -, hb, -⟩ := h.getWriteBuffers len
  rw [hg]
  exact ⟨hv, hb.trans hB⟩

theorem setIsLittleEndian_preserves (val : Bool) :
    Preserves (ValidOf B) (setIsLittleEndian val) := by
  rintro s ⟨h, hB⟩
  obtain ⟨t, ht, hv, -, -, hb, -⟩ := h.setIsLittleEndian val
  rw [ht]
  exact ⟨hv, hb.trans hB⟩

/-- A call that never returns or throws in another state keeps every property of the state. -/
private theorem preserves_of_const {β : Type} {I : ByteArray → Prop} {m : Call β}
    (h : ∀ s, (∃ b, m s = .ok b s) ∨ (∃ e, m s = .throw e s) ∨ m s = .fault) :
    Preserves I m := by
  intro s hs
  rcases h s with ⟨b, hb⟩ | ⟨e, he⟩ | hf
  · rw [hb]; exact hs
  · rw [he]; exact hs
  · rw [hf]; trivial

/-- The calls that only look change nothing. -/
theorem readAt_preserves {I : ByteArray → Prop} (n p : Nat) : Preserves I (readAt n p) := by
  apply preserves_of_const
  intro s
  unfold readAt
  split
  · exact Or.inr (Or.inl ⟨_, rfl⟩)
  split
  · exact Or.inr (Or.inr rfl)
  split
  · exact Or.inl ⟨_, rfl⟩
  split
  · exact Or.inr (Or.inr rfl)
  · exact Or.inl ⟨_, rfl⟩

theorem toString_preserves {I : ByteArray → Prop} : Preserves I toString := by
  intro s hs
  unfold toString
  split
  · exact hs
  · exact readAt_preserves _ _ s hs

theorem getReadBuffers_preserves {I : ByteArray → Prop} (len : Nat) :
    Preserves I (getReadBuffers len) := by
  apply preserves_of_const
  intro s
  unfold getReadBuffers
  dsimp only
  generalize (if s.getReadSize < len then s.getReadSize else len) = m
  split
  · exact Or.inl ⟨_, rfl⟩
  split
  · exact Or.inr (Or.inr rfl)
  split
  · exact Or.inr (Or.inr rfl)
  · exact Or.inl ⟨_, rfl⟩

theorem getReadBuffersAt_preserves {I : ByteArray → Prop} (len p : Nat) :
    Preserves I (getReadBuffersAt len p) := by
  apply preserves_of_const
  intro s
  unfold getReadBuffersAt
  dsimp only
  generalize (if s.getReadSize < len then s.getReadSize else len) = m
  split
  · exact Or.inl ⟨_, rfl⟩
  split
  · exact Or.inr (Or.inr rfl)
  · exact Or.inl ⟨_, rfl⟩

/-- The loop writes one buffer after the other. -/
theorem fileLoop_preserves (fuel : Nat) (rest : List UInt8) :
    Preserves (ValidOf B) (fileLoop fuel rest) := by
  induction fuel generalizing rest with
  | zero => exact Preserves.pure ()
  | succ fuel ih =>
    intro s hs
    have hm : Preserves (ValidOf B) (do
        write (rest.take s.baseSize)
        if rest.length < s.baseSize then pure () else fileLoop fuel (rest.drop s.baseSize)) :=
      Preserves.bind (write_preserves _) fun _ => Preserves.ite (Preserves.pure ()) (ih _)
    exact hm s hs

theorem readFromFile_preserves (file : Option (List UInt8)) :
    Preserves (ValidOf B) (readFromFile file) := by
  cases file with
  | none => exact Preserves.pure false
  | some content =>
    exact Preserves.bind (fileLoop_preserves _ _) fun _ => Preserves.pure true

/-! ## Typed operations -/

/-- Numbers are written as bytes. -/
theorem writeFixed_preserves (host : Endian) (n v : Nat) :
    Preserves (ValidOf B) (writeFixed host n v) := by
  intro s hs
  exact write_preserves _ s hs

theorem writeVarint_preserves {w : Nat} (room : Nat) (v : BitVec w) :
    Preserves (ValidOf B) (writeVarint room v) := by
  unfold writeVarint
  split
  · exact write_preserves _
  · exact fun _ _ => trivial

section Reads

variable {I : ByteArray → Prop} (hread : ∀ n, Preserves I (read n))

include hread

/-- What `read` keeps, the typed reads keep. -/
theorem readFixed_preserves (host : Endian) (n : Nat) : Preserves I (readFixed host n) := by
  exact Preserves.bind (Preserves.map (hread n) _) fun v s hs => hs

theorem readFuint8_preserves : Preserves I readFuint8 := Preserves.map (hread 1) _

/-- A loop of reads keeps what a read keeps. -/
theorem readVarintLoop_preserves (w fuel i : Nat) (r : BitVec w) :
    Preserves I (readVarintLoop w fuel i r) := by
  induction fuel generalizing i r with
  | zero => exact Preserves.pure r
  | succ fuel ih =>
    unfold readVarintLoop
    refine Preserves.ite ?_ (Preserves.pure r)
    exact Preserves.bind (readFuint8_preserves hread) fun b =>
      Preserves.ite (Preserves.pure _) (ih _ _)

end Reads

/-- Every operation keeps the invariant, also when it throws. -/
theorem Operation.call_preserves (host : Endian) (op : Operation) :
    Preserves (ValidOf B) (op.call host) := by
  have hfix (n v : Nat) : Preserves (ValidOf B) (writeFixed host n v) :=
    writeFixed_preserves host n v
  have hread (n : Nat) : Preserves (ValidOf B) (readFixed host n) :=
    readFixed_preserves read_preserves host n
  have hbyte : Preserves (ValidOf B) ByteArray.readFuint8 := readFuint8_preserves read_preserves
  have hvar (w : Nat) : Preserves (ValidOf B) (readVarintLoop w w 0 0) :=
    readVarintLoop_preserves read_preserves w w 0 0
  cases op with
  | writeFint8 v => exact write_preserves [v.toUInt8]
  | writeFuint8 v => exact write_preserves [v]
  | writeStringWithoutLength buf | write buf => exact write_preserves buf
  | writeFint16 _ | writeFuint16 _ | writeFint32 _ | writeFuint32 _ | writeFint64 _
  | writeFuint64 _ | writeFloat _ | writeDouble _ => exact hfix _ _
  | writeInt32 _ | writeUint32 _ | writeInt64 _ | writeUint64 _ => exact writeVarint_preserves _ _
  | writeStringF16 _ | writeStringF32 _ | writeStringF64 _ | writeStringVint _ =>
    exact Preserves.bind (hfix _ _) fun _ => write_preserves _
  | readFuint8 => exact Preserves.map hbyte _
  | readFint8 => exact Preserves.map (Preserves.map hbyte _) _
  | readFuint16 | readFuint32 | readFuint64 | readFloat | readDouble =>
    exact Preserves.map (Preserves.map (hread _) _) _
  | readFint16 | readFint32 | readFint64 =>
    exact Preserves.map (Preserves.map (Preserves.map (hread _) _) _) _
  | readUint32 => exact Preserves.map (Preserves.map (hvar 32) _) _
  | readUint64 => exact Preserves.map (Preserves.map (hvar 64) _) _
  | readInt32 => exact Preserves.map (Preserves.map (Preserves.map (hvar 32) _) _) _
  | readInt64 => exact Preserves.map (Preserves.map (Preserves.map (hvar 64) _) _) _
  | readStringF16 | readStringF32 | readStringF64 | readStringVint =>
    exact Preserves.map (Preserves.bind (Preserves.map (hread _) _) fun _ => read_preserves _) _
  | read n => exact Preserves.map (read_preserves n) _
  | readAt n p => exact Preserves.map (readAt_preserves n p) _
  | setPosition v => exact setPosition_preserves v
  | clear => exact clear_preserves
  | toString => exact Preserves.map toString_preserves _
  | getReadBuffers len => exact Preserves.map (getReadBuffers_preserves len) _
  | getReadBuffersAt len p => exact Preserves.map (getReadBuffersAt_preserves len p) _
  | getWriteBuffers len => exact Preserves.map (getWriteBuffers_preserves len) _
  | readFromFile file => exact Preserves.map (readFromFile_preserves file) _
  | setIsLittleEndian val => exact setIsLittleEndian_preserves val

/-! ## Runs -/

/-- One call keeps the array well formed, also if it throws. -/
theorem step_validOf (host : Endian) (s : ByteArray) (op : Operation) (t : ByteArray)
    (hs : ValidOf B s) (h : step host s op = some t) : ValidOf B t := by
  have hp := op.call_preserves host s hs
  unfold step at h
  cases hc : op.call host s with
  | ok b u =>
    simp only [hc, Option.some.injEq] at h
    rw [hc] at hp
    exact h ▸ hp
  | throw e u =>
    simp only [hc, Option.some.injEq] at h
    rw [hc] at hp
    exact h ▸ hp
  | fault =>
    simp only [hc] at h
    cases h

/-- So do any calls, beginning with a new array. -/
theorem run_validOf (host : Endian) (hB : 0 < B) {heap : Nat → UInt8} {ops : List Operation}
    {s : ByteArray} (h : run (step host) (new B heap) ops = some s) : ValidOf B s :=
  run_invariant (step_validOf host) ⟨new_valid hB heap, rfl⟩ h

/-- Every reachable array is valid. -/
theorem Reachable.valid {s : ByteArray} (h : s.Reachable) : s.Valid := by
  obtain ⟨host, B, heap, ops, hB, hr⟩ := h
  exact (run_validOf host hB hr).1

/-- After any sequence of calls on an array of base size `B`, thrown exceptions
included, position, size and capacity are ordered, the capacity counts the nodes
of size `B`, `m_cur` is the node of the position and null exactly at the end of
the capacity; hence no write, no read of available bytes and no scatter list
follows a null pointer. -/
theorem representation_invariant (host : Endian) (B : Nat) (hB : 0 < B) (heap : Nat → UInt8)
    (ops : List Operation) (s : ByteArray) (h : run (step host) (new B heap) ops = some s) :
    s.position ≤ s.size ∧ s.size ≤ s.capacity ∧ s.capacity = B * s.nodes.length ∧
      (∀ n ∈ s.nodes, n.size = B) ∧
      (s.position < s.capacity → s.cur = some (s.position / B) ∧ s.position / B < s.nodes.length) ∧
      (s.position = s.capacity → s.cur = none) ∧
      (∀ buf, write buf s ≠ .fault) ∧
      (∀ n, 1 ≤ n → n ≤ s.getReadSize → read n s ≠ .fault) ∧
      ∀ len, getWriteBuffers len s ≠ .fault := by
  obtain ⟨hv, rfl⟩ := run_validOf host hB h
  refine ⟨hv.position_le, hv.size_le, hv.capacity_eq, hv.uniform, ?_, ?_, ?_, ?_, ?_⟩
  · intro hp
    exact ⟨hv.cur_of_lt hp, hv.div_lt_length hp⟩
  · intro hp
    rw [hv.cur_eq, hp]
    simp
  · intro buf
    obtain ⟨t, hw, -⟩ := hv.write buf
    rw [hw]
    exact nofun
  · intro n hn hle
    obtain ⟨t, hr, -⟩ := hv.read_of_le hn hle
    rw [hr]
    exact nofun
  · intro len
    obtain ⟨vs, t, hg, -⟩ := hv.getWriteBuffers len
    rw [hg]
    exact nofun

/-- A run that throws twice, once beyond the capacity and once for want of bytes. -/
theorem representation_invariant_after_throws :
    ∃ s, run (step .little) (new 2 fun _ => 0)
        [.writeFuint16 513, .setPosition 3, .readFuint64, .getWriteBuffers 3, .readFuint8] =
          some s ∧
      s.position = 2 ∧ s.capacity = 2 * s.nodes.length :=
  ⟨_, rfl, rfl, (representation_invariant .little 2 (by decide) (fun _ => 0)
    [.writeFuint16 513, .setPosition 3, .readFuint64, .getWriteBuffers 3, .readFuint8] _ rfl).2.2.1⟩

end Xupeng.ByteArray
