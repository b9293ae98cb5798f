import Xupeng.Core.Run
import Xupeng.Models.ByteArray.Native.Codec

/-!
# Sequences of member calls

Every public operation that transfers data, moves the position or changes the
array, as one label each. A call that throws leaves its state behind and the
sequence goes on; a call that follows a null pointer ends it.
-/

namespace Xupeng.ByteArray

/-- A member call with its arguments. -/
inductive Operation
  | writeFint8 (value : Int8)
  | writeFuint8 (value : UInt8)
  | writeFint16 (value : Int16)
  | writeFuint16 (value : UInt16)
  | writeFint32 (value : Int32)
  | writeFuint32 (value : UInt32)
  | writeFint64 (value : Int64)
  | writeFuint64 (value : UInt64)
  | writeInt32 (value : Int32)
  | writeUint32 (value : UInt32)
  | writeInt64 (value : Int64)
  | writeUint64 (value : UInt64)
  | writeFloat (bits : UInt32)
  | writeDouble (bits : UInt64)
  | writeStringF16 (value : List UInt8)
  | writeStringF32 (value : List UInt8)
  | writeStringF64 (value : List UInt8)
  | writeStringVint (value : List UInt8)
  | writeStringWithoutLength (value : List UInt8)
  | readFint8
  | readFuint8
  | readFint16
  | readFuint16
  | readFint32
  | readFuint32
  | readFint64
  | readFuint64
  | readInt32
  | readUint32
  | readInt64
  | readUint64
  | readFloat
  | readDouble
  | readStringF16
  | readStringF32
  | readStringF64
  | readStringVint
  | write (buf : List UInt8)
  | read (size : Nat)
  | readAt (size position : Nat)
  | setPosition (v : Nat)
  | clear
  | toString
  | getReadBuffers (len : Nat)
  | getReadBuffersAt (len position : Nat)
  | getWriteBuffers (len : Nat)
  | readFromFile (file : Option (List UInt8))
  | setIsLittleEndian (val : Bool)
  deriving DecidableEq, Repr

/-- Forget what a call returns. -/
def discard {β : Type} (m : Call β) : Call Unit := (fun _ => ()) <$> m

/-- The call that a label stands for. -/
def Operation.call (host : Endian) : Operation → Call Unit
  | .writeFint8 value => ByteArray.writeFint8 value
  | .writeFuint8 value => ByteArray.writeFuint8 value
  | .writeFint16 value => ByteArray.writeFint16 host value
  | .writeFuint16 value => ByteArray.writeFuint16 host value
  | .writeFint32 value => ByteArray.writeFint32 host value
  | .writeFuint32 value => ByteArray.writeFuint32 host value
  | .writeFint64 value => ByteArray.writeFint64 host value
  | .writeFuint64 value => ByteArray.writeFuint64 host value
  | .writeInt32 value => ByteArray.writeInt32 value
  | .writeUint32 value => ByteArray.writeUint32 value
  | .writeInt64 value => ByteArray.writeInt64 value
  | .writeUint64 value => ByteArray.writeUint64 value
  | .writeFloat bits => ByteArray.writeFloat host bits
  | .writeDouble bits => ByteArray.writeDouble host bits
  | .writeStringF16 value => ByteArray.writeStringF16 host value
  | .writeStringF32 value => ByteArray.writeStringF32 host value
  | .writeStringF64 value => ByteArray.writeStringF64 host value
  | .writeStringVint value => ByteArray.writeStringVint host value
  | .writeStringWithoutLength value => ByteArray.writeStringWithoutLength value
  | .readFint8 => discard ByteArray.readFint8
  | .readFuint8 => discard ByteArray.readFuint8
  | .readFint16 => discard (ByteArray.readFint16 host)
  | .readFuint16 => discard (ByteArray.readFuint16 host)
  | .readFint32 => discard (ByteArray.readFint32 host)
  | .readFuint32 => discard (ByteArray.readFuint32 host)
  | .readFint64 => discard (ByteArray.readFint64 host)
  | .readFuint64 => discard (ByteArray.readFuint64 host)
  | .readInt32 => discard ByteArray.readInt32
  | .readUint32 => discard ByteArray.readUint32
  | .readInt64 => discard ByteArray.readInt64
  | .readUint64 => discard ByteArray.readUint64
  | .readFloat => discard (ByteArray.readFloat host)
  | .readDouble => discard (ByteArray.readDouble host)
  | .readStringF16 => discard (ByteArray.readStringF16 host)
  | .readStringF32 => discard (ByteArray.readStringF32 host)
  | .readStringF64 => discard (ByteArray.readStringF64 host)
  | .readStringVint => discard (ByteArray.readStringVint host)
  | .write buf => ByteArray.write buf
  | .read size => discard (ByteArray.read size)
  | .readAt size position => discard (ByteArray.readAt size position)
  | .setPosition v => ByteArray.setPosition v
  | .clear => ByteArray.clear
  | .toString => discard ByteArray.toString
  | .getReadBuffers len => discard (ByteArray.getReadBuffers len)
  | .getReadBuffersAt len position => discard (ByteArray.getReadBuffersAt len position)
  | .getWriteBuffers len => discard (ByteArray.getWriteBuffers len)
  | .readFromFile file => discard (ByteArray.readFromFile file)
  | .setIsLittleEndian val => ByteArray.setIsLittleEndian val

/-- The state a call leaves, whether it returned or threw. -/
def step (host : Endian) (s : ByteArray) (op : Operation) : Option ByteArray :=
  match op.call host s with
  | .ok _ t => some t
  | .throw _ t => some t
  | .fault => none

/-- The states of a byte array after finitely many calls, on a machine of either byte order. -/
def Reachable (s : ByteArray) : Prop :=
  ∃ host B heap ops, 0 < B ∧ run (step host) (new B heap) ops = some s

end Xupeng.ByteArray
