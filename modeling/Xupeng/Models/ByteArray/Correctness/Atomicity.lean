import Xupeng.Models.ByteArray.Correctness.Invariant

/-!
# Reads that fail

`read` checks before it moves. A typed read is one `read` or several: a varint is
read byte by byte, a string after its length. When one of the later reads throws,
the bytes of the earlier ones have been consumed. So a typed read that throws leaves
the position alone exactly when already its first `read` found too little.
-/

namespace Xupeng.ByteArray

open Program

/-- The array has this content and its position is `p` or behind it. -/
def From (data : List UInt8) (p : Nat) (s : ByteArray) : Prop :=
  s.Valid ∧ s.flat.data = data ∧ p ≤ s.position

/-- A raw read keeps the content and does not go back. -/
theorem read_from (data : List UInt8) (p n : Nat) : Preserves (From data p) (read n) := by
  rintro s ⟨h, hdata, hp⟩
  by_cases hlt : s.getReadSize < n
  · rw [Valid.read_of_lt hlt]
    exact ⟨h, hdata, hp⟩
  · by_cases hz : n = 0
    · subst hz
      rw [h.read_zero]
      split
      · exact ⟨h, hdata, hp⟩
      · trivial
    · obtain ⟨t, hr, hv, hf, -⟩ := h.read_of_le (Nat.pos_of_ne_zero hz) (Nat.not_lt.mp hlt)
      have hpos : t.position = s.position + n := congrArg Flat.pos hf
      rw [hr]
      exact ⟨hv, by rw [hf]; exact hdata, by omega⟩

/-! ## Calls that begin with a read -/

/-- The call begins with reading `n` bytes: it throws at once if there are fewer, and otherwise
leaves the position behind them, whether it returns or throws. -/
structure Begins {β : Type} (n : Nat) (m : Call β) : Prop where
  throws : ∀ s : ByteArray, s.getReadSize < n → m s = .throw .notEnoughLen s
  moves : ∀ s : ByteArray, s.Valid → n ≤ s.getReadSize →
    (m s).Leaves (From s.flat.data (s.position + n))

namespace Begins

variable {β γ : Type} {n : Nat}

/-- A read throws before it moves, or has all of its bytes. -/
theorem read (hn : 0 < n) : Begins n (ByteArray.read n) where
  throws s hlt := Valid.read_of_lt hlt
  moves s h hle := by
    obtain ⟨t, hr, hv, hf, -⟩ := h.read_of_le hn hle
    have hpos : t.position = s.position + n := congrArg Flat.pos hf
    rw [hr]
    exact ⟨hv, by rw [hf], Nat.le_of_eq hpos.symm⟩

protected theorem bind {m : Call β} {f : β → Call γ} (hm : Begins n m)
    (hf : ∀ data p b, Preserves (From data p) (f b)) : Begins n (m >>= f) where
  throws s hlt := bind_of_throw (hm.throws s hlt)
  moves s h hle := by
    have hleaves := hm.moves s h hle
    change (Program.bind m f s).Leaves _
    unfold Program.bind
    cases he : m s with
    | ok b t =>
      rw [he] at hleaves
      exact hf _ _ b t hleaves
    | throw e t =>
      rw [he] at hleaves
      exact hleaves
    | fault => trivial

protected theorem map {m : Call β} (hm : Begins n m) (f : β → γ) : Begins n (f <$> m) :=
  Begins.bind hm fun _ _ b => Preserves.pure (f b)

/-- A number of fixed size begins with one read. -/
theorem readFixed (host : Endian) (hn : 0 < n) : Begins n (ByteArray.readFixed host n) :=
  Begins.bind (Begins.map (Begins.read hn) _) fun _ _ _ _ hs => hs

theorem readFuint8 : Begins 1 ByteArray.readFuint8 := Begins.map (Begins.read Nat.one_pos) _

/-- The loop of the varint readers, while there is room for a byte. -/
theorem readVarintLoop {w : Nat} (hw : 0 < w) (r : BitVec w) :
    Begins 1 (ByteArray.readVarintLoop w w 0 r) := by
  obtain ⟨fuel, rfl⟩ : ∃ fuel, w = fuel + 1 := ⟨w - 1, by omega⟩
  rw [ByteArray.readVarintLoop, if_pos hw]
  refine Begins.bind Begins.readFuint8 fun data p b => ?_
  exact Preserves.ite (Preserves.pure _) (readVarintLoop_preserves (read_from data p) _ _ _ _)

/-- A string is read after its length. -/
theorem readString {len : Call β} (hlen : Begins n len) (size : β → Nat) :
    Begins n (do
      let b ← len
      ByteArray.read (size b)) :=
  Begins.bind hlen fun data p b => read_from data p (size b)

end Begins

/-! ## The typed reads -/

/-- The number of bytes that the first `read` of a typed read asks for. -/
def Operation.firstRead : Operation → Option Nat
  | .readFint8 | .readFuint8 => some 1
  | .readFint16 | .readFuint16 => some 2
  | .readFint32 | .readFuint32 | .readFloat => some 4
  | .readFint64 | .readFuint64 | .readDouble => some 8
  | .readInt32 | .readUint32 | .readInt64 | .readUint64 => some 1
  | .readStringF16 => some 2
  | .readStringF32 => some 4
  | .readStringF64 | .readStringVint => some 8
  | _ => none

theorem Operation.firstRead_pos {op : Operation} {n : Nat} (hop : op.firstRead = some n) :
    0 < n := by
  cases op <;> cases hop <;> decide

/-- Every typed read begins with its first `read`. -/
theorem Operation.call_begins (host : Endian) {op : Operation} {n : Nat}
    (hop : op.firstRead = some n) : Begins n (op.call host) := by
  have hfix {n : Nat} (hn : 0 < n) : Begins n (readFixed host n) := Begins.readFixed host hn
  have hvar {w : Nat} (hw : 0 < w) : Begins 1 (readVarintLoop w w 0 0) :=
    Begins.readVarintLoop hw 0
  cases op with
  | readFuint8 =>
    cases hop
    exact Begins.readFuint8.map _
  | readFint8 =>
    cases hop
    exact (Begins.readFuint8.map _).map _
  | readFuint16 | readFuint32 | readFloat | readFuint64 | readDouble =>
    cases hop
    exact ((hfix (by decide)).map _).map _
  | readFint16 | readFint32 | readFint64 =>
    cases hop
    exact (((hfix (by decide)).map _).map _).map _
  | readUint32 | readUint64 =>
    cases hop
    exact ((hvar (by decide)).map _).map _
  | readInt32 | readInt64 =>
    cases hop
    exact (((hvar (by decide)).map _).map _).map _
  | readStringF16 =>
    cases hop
    exact (((hfix (by decide)).map _).readString UInt16.toNat).map _
  | readStringF32 =>
    cases hop
    exact (((hfix (by decide)).map _).readString UInt32.toNat).map _
  | readStringF64 | readStringVint =>
    cases hop
    exact (((hfix (by decide)).map _).readString UInt64.toNat).map _
  | _ => cases hop

/-- A typed read that throws has kept the content and the size. It has kept the position exactly
when there were too few bytes for its first `read`, which reads the whole value in a fixed-width
read, one byte in a varint read, and the length of a string. -/
theorem failed_reads_atomic_iff (host : Endian) (s : ByteArray) (hs : s.Reachable)
    (op : Operation) (n : Nat) (hop : op.firstRead = some n) (err : OutOfRange) (t : ByteArray)
    (ht : op.call host s = .throw err t) :
    t.size = s.size ∧ t.flat.data = s.flat.data ∧
      (t.position = s.position ↔ s.getReadSize < n) := by
  have hbegins := op.call_begins host hop
  by_cases hlt : s.getReadSize < n
  · rw [hbegins.throws s hlt] at ht
    cases ht
    exact ⟨rfl, rfl, iff_of_true rfl hlt⟩
  · have hleaves := hbegins.moves s hs.valid (Nat.not_lt.mp hlt)
    rw [ht] at hleaves
    obtain ⟨htv, hdata, hmoved⟩ := hleaves
    have hn := Operation.firstRead_pos hop
    refine ⟨?_, hdata, iff_of_false (by omega) hlt⟩
    rw [← htv.length_data, hdata, hs.valid.length_data]

/-- A word is not read from the last byte of a string. -/
theorem failed_reads_atomic_word :
    ∃ s t, run (step .little) (new 4 fun _ => 0) [.write [0, 5, 65], .setPosition 2] = some s ∧
      Operation.readFuint32.call .little s = .throw .notEnoughLen t ∧ t.position = s.position :=
  ⟨_, _, rfl, rfl, (failed_reads_atomic_iff .little _
    ⟨.little, 4, fun _ => 0, [.write [0, 5, 65], .setPosition 2], by decide, rfl⟩ .readFuint32 4 rfl
    .notEnoughLen _ rfl).2.2.mpr (by decide)⟩

/-- A string of which one byte of five has arrived: the length is consumed. A varint of which one
byte has arrived is consumed too. -/
theorem failed_reads_move_cutOff :
    (∃ s t, run (step .little) (new 4 fun _ => 0) [.write [0, 5, 65], .setPosition 0] = some s ∧
      Operation.readStringF16.call .little s = .throw .notEnoughLen t ∧
      s.position = 0 ∧ t.position = 2) ∧
    ∃ s t, run (step .little) (new 4 fun _ => 0) [.write [128], .setPosition 0] = some s ∧
      Operation.readUint32.call .little s = .throw .notEnoughLen t ∧
      s.position = 0 ∧ t.position = 1 :=
  ⟨⟨_, _, rfl, rfl, rfl, rfl⟩, _, _, rfl, rfl, rfl, rfl⟩

end Xupeng.ByteArray
