import Xupeng.Core.Bytes
import Xupeng.Models.ByteArray.Native.Transfer

/-!
# Typed writes and reads

`host` is `PENG_BYTE_ORDER`, the order in which the machine stores the bytes of
a value. The fixed-width functions differ only in the width and the signedness
of their type, the variable-width ones in the size of their word.
-/

namespace Xupeng

/-- The bytes of an `n`-byte value as they lie in memory. -/
def Endian.memory (host : Endian) (n v : Nat) : List UInt8 :=
  match host with
  | .little => bytesLE n v
  | .big => (bytesLE n v).reverse

/-- The value whose bytes lie in memory. -/
def Endian.value (host : Endian) (bs : List UInt8) : Nat :=
  match host with
  | .little => natOfBytes bs
  | .big => natOfBytes bs.reverse

/-- `byteswap` on an `n`-byte value: `bswap_16`, `bswap_32` or `bswap_64`. -/
def byteswap (n v : Nat) : Nat := natOfBytes (bytesLE n v).reverse

namespace ByteArray

/-! ## Fixed width -/

/-- The common body of the `writeF*` functions wider than a byte. -/
def writeFixed (host : Endian) (n value : Nat) : Call Unit := fun s =>
  let value := if s.endian ≠ host then byteswap n value else value
  write (host.memory n value) s

/-- The last lines of the macro `XX`: a value of the other byte order is swapped. -/
def toHost (host : Endian) (n v : Nat) : Call Nat := fun s =>
  .ok (if s.endian = host then v else byteswap n v) s

/-- The body that the macro `XX` gives the `readF*` functions wider than a byte. -/
def readFixed (host : Endian) (n : Nat) : Call Nat := do
  let v ← host.value <$> read n
  toHost host n v

def writeFint8 (value : Int8) : Call Unit := write [value.toUInt8]

def writeFuint8 (value : UInt8) : Call Unit := write [value]

def writeFint16 (host : Endian) (value : Int16) : Call Unit :=
  writeFixed host 2 value.toUInt16.toNat

def writeFuint16 (host : Endian) (value : UInt16) : Call Unit := writeFixed host 2 value.toNat

def writeFint32 (host : Endian) (value : Int32) : Call Unit :=
  writeFixed host 4 value.toUInt32.toNat

def writeFuint32 (host : Endian) (value : UInt32) : Call Unit := writeFixed host 4 value.toNat

def writeFint64 (host : Endian) (value : Int64) : Call Unit :=
  writeFixed host 8 value.toUInt64.toNat

def writeFuint64 (host : Endian) (value : UInt64) : Call Unit := writeFixed host 8 value.toNat

/-- The one byte that `read(&v, sizeof(v))` fills in. -/
def readFuint8 : Call UInt8 := (fun bs => bs.headD 0) <$> read 1

def readFint8 : Call Int8 := UInt8.toInt8 <$> readFuint8

def readFuint16 (host : Endian) : Call UInt16 := UInt16.ofNat <$> readFixed host 2

def readFint16 (host : Endian) : Call Int16 := UInt16.toInt16 <$> readFuint16 host

def readFuint32 (host : Endian) : Call UInt32 := UInt32.ofNat <$> readFixed host 4

def readFint32 (host : Endian) : Call Int32 := UInt32.toInt32 <$> readFuint32 host

def readFuint64 (host : Endian) : Call UInt64 := UInt64.ofNat <$> readFixed host 8

def readFint64 (host : Endian) : Call Int64 := UInt64.toInt64 <$> readFuint64 host

/-- `writeFloat`, on the bit pattern that `memcpy` takes from the float. -/
def writeFloat (host : Endian) (bits : UInt32) : Call Unit := writeFuint32 host bits

/-- `writeDouble`, on the bit pattern that `memcpy` takes from the double. -/
def writeDouble (host : Endian) (bits : UInt64) : Call Unit := writeFuint64 host bits

/-- `readFloat`, up to the bit pattern. -/
def readFloat (host : Endian) : Call UInt32 := readFuint32 host

/-- `readDouble`, up to the bit pattern. -/
def readDouble (host : Endian) : Call UInt64 := readFuint64 host

/-! ## Zigzag -/

/-- `EncodeZigzag32`, with two's-complement wraparound of `-v` and `v * 2`. -/
def EncodeZigzag32 (v : Int32) : UInt32 :=
  if v < 0 then (-v).toUInt32 * 2 - 1 else (v * 2).toUInt32

/-- `EncodeZigzag64`. Its return type is `uint32_t`, so the upper half is cut off. -/
def EncodeZigzag64 (v : Int64) : UInt32 :=
  if v < 0 then ((-v).toUInt64 * 2 - 1).toUInt32 else (v * 2).toUInt64.toUInt32

/-- `DecodeZigzag32` -/
def DecodeZigzag32 (v : UInt32) : Int32 := ((v >>> 1) ^^^ -(v &&& 1)).toInt32

/-- `DecodeZigzag64` -/
def DecodeZigzag64 (v : UInt64) : Int64 := ((v >>> 1) ^^^ -(v &&& 1)).toInt64

/-! ## Variable width -/

/-- The loop of `writeUint32` and `writeUint64`, with `room` bytes of `tmp` left;
a store past the end of `tmp` gives no result. -/
def varintLoop {w : Nat} : (room : Nat) → BitVec w → Option (List UInt8)
  | 0, _ => none
  | room + 1, value =>
    if 0x80 ≤ value.toNat then
      (varintLoop room (value >>> 7)).map
        (UInt8.ofNat ((value &&& 0x7f#w) ||| 0x80#w).toNat :: ·)
    else some [UInt8.ofNat value.toNat]

/-- The common body of `writeUint32` and `writeUint64`, over the size of `tmp`. -/
def writeVarint {w : Nat} (room : Nat) (value : BitVec w) : Call Unit :=
  match varintLoop room value with
  | some tmp => write tmp
  | none => fun _ => .fault

/-- The loop of `readUint32` and `readUint64`, at shift `i`; `i < w` ends it
before the fuel does. -/
def readVarintLoop (w : Nat) : (fuel : Nat) → (i : Nat) → BitVec w → Call (BitVec w)
  | 0, _, result => pure result
  | fuel + 1, i, result =>
    if i < w then do
      let b ← readFuint8
      if b < 0x80 then pure (result ||| (b.toBitVec.setWidth w <<< i))
      else readVarintLoop w fuel (i + 7) (result ||| ((b &&& 0x7f).toBitVec.setWidth w <<< i))
    else pure result

def writeUint32 (value : UInt32) : Call Unit := writeVarint 5 value.toBitVec

def writeUint64 (value : UInt64) : Call Unit := writeVarint 10 value.toBitVec

def writeInt32 (value : Int32) : Call Unit := writeUint32 (EncodeZigzag32 value)

def writeInt64 (value : Int64) : Call Unit := writeUint64 (EncodeZigzag64 value).toUInt64

def readUint32 : Call UInt32 := UInt32.ofBitVec <$> readVarintLoop 32 32 0 0

def readUint64 : Call UInt64 := UInt64.ofBitVec <$> readVarintLoop 64 64 0 0

def readInt32 : Call Int32 := DecodeZigzag32 <$> readUint32

def readInt64 : Call Int64 := DecodeZigzag64 <$> readUint64

/-! ## Strings with a length in front -/

def writeStringF16 (host : Endian) (value : List UInt8) : Call Unit := do
  writeFuint16 host (UInt16.ofNat value.length)
  write value

def writeStringF32 (host : Endian) (value : List UInt8) : Call Unit := do
  writeFuint32 host (UInt32.ofNat value.length)
  write value

def writeStringF64 (host : Endian) (value : List UInt8) : Call Unit := do
  writeFuint64 host (UInt64.ofNat value.length)
  write value

/-- `writeStringVint`; its length is written with `writeFuint64`, as in `writeStringF64`. -/
def writeStringVint (host : Endian) (value : List UInt8) : Call Unit := do
  writeFuint64 host (UInt64.ofNat value.length)
  write value

def writeStringWithoutLength (value : List UInt8) : Call Unit := write value

def readStringF16 (host : Endian) : Call (List UInt8) := do
  let len ← readFuint16 host
  read len.toNat

def readStringF32 (host : Endian) : Call (List UInt8) := do
  let len ← readFuint32 host
  read len.toNat

def readStringF64 (host : Endian) : Call (List UInt8) := do
  let len ← readFuint64 host
  read len.toNat

/-- `readStringVint`; its length is read with `readFuint64`, as in `readStringF64`. -/
def readStringVint (host : Endian) : Call (List UInt8) := do
  let len ← readFuint64 host
  read len.toNat

end ByteArray

end Xupeng
