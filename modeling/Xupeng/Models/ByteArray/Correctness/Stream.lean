import Xupeng.Models.ByteArray.Interpretation.Typed

/-!
# Streams of typed values

A stream is a sequence of values of mixed types, each written by the function of
its type. The code of a value is given here without reference to the machine:
the expansion of a fixed-width value in the byte order of the array, and the
seven-bit groups of a variable-width one. Writing produces the codes one after
the other, and the matching reads consume exactly them.
-/

namespace Xupeng.ByteArray

/-- The types of the typed functions; `float` and `double` stand for bit patterns. -/
inductive Kind
  | fint8
  | fuint8
  | fint16
  | fuint16
  | fint32
  | fuint32
  | fint64
  | fuint64
  | int32
  | uint32
  | uint64
  | float
  | double
  deriving DecidableEq, Repr

/-- The C++ values of a type. -/
def Kind.Carrier : Kind → Type
  | .fint8 => Int8
  | .fuint8 => UInt8
  | .fint16 => Int16
  | .fuint16 => UInt16
  | .fint32 | .int32 => Int32
  | .fuint32 | .uint32 | .float => UInt32
  | .fint64 => Int64
  | .fuint64 | .uint64 | .double => UInt64

/-- A value together with its type. -/
abbrev Value := Σ k : Kind, k.Carrier

/-- The writing function of the type. -/
def Value.write (host : Endian) : Value → Call Unit
  | ⟨.fint8, v⟩ => writeFint8 v
  | ⟨.fuint8, v⟩ => writeFuint8 v
  | ⟨.fint16, v⟩ => writeFint16 host v
  | ⟨.fuint16, v⟩ => writeFuint16 host v
  | ⟨.fint32, v⟩ => writeFint32 host v
  | ⟨.fuint32, v⟩ => writeFuint32 host v
  | ⟨.fint64, v⟩ => writeFint64 host v
  | ⟨.fuint64, v⟩ => writeFuint64 host v
  | ⟨.int32, v⟩ => writeInt32 v
  | ⟨.uint32, v⟩ => writeUint32 v
  | ⟨.uint64, v⟩ => writeUint64 v
  | ⟨.float, v⟩ => writeFloat host v
  | ⟨.double, v⟩ => writeDouble host v

/-- The reading function of the type. -/
def Kind.read (host : Endian) : (k : Kind) → Call k.Carrier
  | .fint8 => readFint8
  | .fuint8 => readFuint8
  | .fint16 => readFint16 host
  | .fuint16 => readFuint16 host
  | .fint32 => readFint32 host
  | .fuint32 => readFuint32 host
  | .fint64 => readFint64 host
  | .fuint64 => readFuint64 host
  | .int32 => readInt32
  | .uint32 => readUint32
  | .uint64 => readUint64
  | .float => readFloat host
  | .double => readDouble host

/-- Read a value of a type and keep the type with it. -/
def Kind.readValue (host : Endian) (k : Kind) : Call Value := Sigma.mk k <$> k.read host

/-- The bytes of a value in an array of byte order `e`. -/
def Value.code (e : Endian) : Value → List UInt8
  | ⟨.fint8, v⟩ => e.memory 1 v.toUInt8.toNat
  | ⟨.fuint8, v⟩ => e.memory 1 v.toNat
  | ⟨.fint16, v⟩ => e.memory 2 v.toUInt16.toNat
  | ⟨.fuint16, v⟩ => e.memory 2 v.toNat
  | ⟨.fint32, v⟩ => e.memory 4 v.toUInt32.toNat
  | ⟨.fuint32, v⟩ => e.memory 4 v.toNat
  | ⟨.fint64, v⟩ => e.memory 8 v.toUInt64.toNat
  | ⟨.fuint64, v⟩ => e.memory 8 v.toNat
  | ⟨.int32, v⟩ => (varintLoop 5 (EncodeZigzag32 v).toBitVec).getD []
  | ⟨.uint32, v⟩ => (varintLoop 5 v.toBitVec).getD []
  | ⟨.uint64, v⟩ => (varintLoop 10 v.toBitVec).getD []
  | ⟨.float, v⟩ => e.memory 4 v.toNat
  | ⟨.double, v⟩ => e.memory 8 v.toNat

/-! ## Each codec -/

/-- Zigzag decoding undoes zigzag encoding on all of `int32_t`, `INT32_MIN` included. -/
theorem decodeZigzag32_encodeZigzag32 (v : Int32) : DecodeZigzag32 (EncodeZigzag32 v) = v := by
  have hnat : (EncodeZigzag32 v).toNat = zigzag v.toInt := by
    unfold EncodeZigzag32
    by_cases hneg : v.toInt < 0
    · have hlt : v < 0 := Int32.lt_iff_toInt_lt.mpr hneg
      rw [ite_cond_eq_true _ _ (eq_true hlt)]
      exact toNat_neg_mul_two_sub_one (v := v.toBitVec) hneg
    · have hge : ¬ v < 0 := fun h => hneg (Int32.lt_iff_toInt_lt.mp h)
      rw [ite_cond_eq_false _ _ (eq_false hge)]
      exact toNat_mul_two (v := v.toBitVec) hneg
  apply Int32.toInt_inj.mp
  calc (DecodeZigzag32 (EncodeZigzag32 v)).toInt
      = unzigzag (EncodeZigzag32 v).toNat :=
        toInt_shiftRight_xor_neg_and (EncodeZigzag32 v).toBitVec
    _ = v.toInt := by rw [hnat, unzigzag_zigzag]

variable {e : Endian}

/-- A signed number is written and read through its zigzag form. -/
theorem int32_codec (v : Int32) :
    Emits e (writeInt32 v) ((varintLoop 5 (EncodeZigzag32 v).toBitVec).getD []) ∧
      Parses e readInt32 ((varintLoop 5 (EncodeZigzag32 v).toBitVec).getD []) v := by
  obtain ⟨hw, hr⟩ := uint32_codec (e := e) (EncodeZigzag32 v)
  have h := hr.map DecodeZigzag32
  rw [decodeZigzag32_encodeZigzag32] at h
  exact ⟨hw, h⟩

/-- One byte is the same in either order. -/
theorem memory_one (b : UInt8) : e.memory 1 b.toNat = [b] := by
  cases e <;> simp [Endian.memory, bytesLE]

/-- Every kind of value writes its own code. -/
theorem Value.write_emits (host : Endian) (v : Value) : Emits e (v.write host) (v.code e) := by
  have hbyte (b : UInt8) : Emits e (ByteArray.write [b]) (e.memory 1 b.toNat) := by
    rw [memory_one]
    exact ByteArray.write_emits [b]
  obtain ⟨k, v⟩ := v
  cases k with
  | fint8 => exact hbyte _
  | fuint8 => exact hbyte _
  | int32 => exact (int32_codec v).1
  | uint32 => exact (uint32_codec _).1
  | uint64 => exact (uint64_codec _).1
  | fint16 | fuint16 | fint32 | fuint32 | fint64 | fuint64 | float | double =>
    exact writeFixed_emits host _ _

/-- Every kind of value is read from its own code. -/
theorem Value.read_parses (host : Endian) (v : Value) :
    Parses e (v.1.readValue host) (v.code e) v := by
  have hbyte (b : UInt8) : Parses e readFuint8 (e.memory 1 b.toNat) b := by
    rw [memory_one]
    exact readFuint8_parses b
  obtain ⟨k, v⟩ := v
  refine Parses.map (v := v) ?_ (Sigma.mk k)
  cases k with
  | fint8 => exact (hbyte v.toUInt8).map UInt8.toInt8
  | fuint8 => exact hbyte v
  | fint16 => exact (readFuint16_parses host v.toUInt16).map UInt16.toInt16
  | fuint16 => exact readFuint16_parses host v
  | fint32 => exact (readFuint32_parses host v.toUInt32).map UInt32.toInt32
  | fuint32 => exact readFuint32_parses host v
  | fint64 => exact (readFuint64_parses host v.toUInt64).map UInt64.toInt64
  | fuint64 => exact readFuint64_parses host v
  | int32 => exact (int32_codec v).2
  | uint32 => exact (uint32_codec v).2
  | uint64 => exact (uint64_codec v).2
  | float => exact readFuint32_parses host v
  | double => exact readFuint64_parses host v

/-! ## Whole streams -/

/-- In an array of any base size and byte order, on a machine of either byte order,
writing a stream stores the codes of its values; after `setPosition(0)` the matching
reads return the values and leave nothing to read. -/
theorem typed_stream_round_trip (host : Endian) (B : Nat) (hB : 0 < B) (heap : Nat → UInt8)
    (val : Bool) (vs : List Value) :
    ∃ t u w, (do setIsLittleEndian val; writeAll (Value.write host) vs) (new B heap) = .ok () t ∧
      t.isLittleEndian = val ∧
      t.flat.data = vs.flatMap (Value.code (if val then .little else .big)) ∧
      setPosition 0 t = .ok () u ∧
      readAll (Kind.readValue host) (vs.map Sigma.fst) u = .ok vs w ∧ w.getReadSize = 0 := by
  obtain ⟨s, hs, hsv, hsf, hse, -⟩ := (new_valid hB heap).setIsLittleEndian val
  have hsf : s.flat = ⟨[], 0⟩ := hsf.trans (new_flat B heap)
  have hpos : s.position = 0 := congrArg Flat.pos hsf
  generalize he : (if val then Endian.little else Endian.big) = e at hse ⊢
  have hwrite : Emits e (writeAll (Value.write host) vs) (vs.flatMap (Value.code e)) :=
    writeAll_emits fun v _ => v.write_emits host
  obtain ⟨t, u, ht, htf, hte, hu, huv, hue, huf, hahead, -⟩ := hwrite.reposition hsv hse
  have hdata : t.flat.data = vs.flatMap (Value.code e) := by
    rw [htf, hsf]
    exact splice_length [] _
  have hread : Parses e (readAll (Kind.readValue host) (vs.map Sigma.fst))
      (vs.flatMap (Value.code e)) vs := readAll_parses fun v _ => v.read_parses host
  obtain ⟨w, hw, hwv, hwf, -⟩ := hread u _ huv hue hahead
  rw [hpos] at hu
  refine ⟨t, u, w, ?_, ?_, hdata, hu, hw, ?_⟩
  · rw [Program.bind_of_ok hs, ht]
  · rw [isLittleEndian, hte, ← he]
    cases val <;> rfl
  · rw [← hwv.length_ahead, hwf, Flat.ahead_of_append hahead, hsf, List.drop_nil, List.length_nil]

/-- A stream with the least values of the signed types. -/
def extremes : List Value :=
  [⟨.fint16, Int16.minValue⟩, ⟨.fuint32, (0x01020304 : UInt32)⟩, ⟨.int32, Int32.minValue⟩,
    ⟨.fint64, Int64.minValue⟩]

/-- The stream in big-endian nodes of three bytes on a little-endian machine, with the
bytes stored for its first two values. -/
theorem typed_stream_round_trip_extremes :
    ∃ t u w, (do setIsLittleEndian false; writeAll (Value.write .little) extremes)
        (new 3 fun _ => 0) = .ok () t ∧
      t.flat.data.take 6 = [0x80, 0, 1, 2, 3, 4] ∧ setPosition 0 t = .ok () u ∧
      readAll (Kind.readValue .little) (extremes.map Sigma.fst) u = .ok extremes w ∧
      w.getReadSize = 0 := by
  obtain ⟨t, u, w, ht, -, hd, hu, hw, hz⟩ :=
    typed_stream_round_trip .little 3 (by decide) (fun _ => 0) false extremes
  refine ⟨t, u, w, ht, ?_, hu, hw, hz⟩
  rw [hd]
  decide

end Xupeng.ByteArray
