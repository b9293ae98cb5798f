import Xupeng.Core.Program
import Xupeng.Core.Splice

/-!
# The chunked byte array

The nodes reachable from `m_root` are kept as the list of their buffers, and a
`Node *` into that chain as an index with `none` for the null pointer. Sizes are
natural numbers: all of them are bounded by memory that has been allocated.

`new char[s]` leaves its bytes indeterminate. The array therefore carries the
stream of bytes that allocation is going to find, about which nothing is assumed.
-/

namespace Xupeng

/-- `PENG_LITTLE_ENDIAN` and `PENG_BIG_ENDIAN`, also the two values of `PENG_BYTE_ORDER`. -/
inductive Endian
  | little
  | big
  deriving DecidableEq, Repr

/-- `ByteArray::Node`. Its `size` is set once, to the length of the buffer. -/
structure ByteArray.Node where
  ptr : List UInt8
  deriving DecidableEq, Repr

/-- `Node::size` -/
def ByteArray.Node.size (n : Node) : Nat := n.ptr.length

/-- `memcpy` of `bytes` to `ptr + npos`. -/
def ByteArray.Node.store (n : Node) (npos : Nat) (bytes : List UInt8) : Node :=
  ⟨splice n.ptr npos bytes⟩

/-- The fields of `ByteArray`. -/
structure ByteArray where
  /-- `m_baseSize` -/
  baseSize : Nat
  /-- `m_position` -/
  position : Nat
  /-- `m_capacity` -/
  capacity : Nat
  /-- `m_size` -/
  size : Nat
  /-- `m_endian` -/
  endian : Endian
  /-- The chain from `m_root`; the root is the node with index 0. -/
  nodes : List ByteArray.Node
  /-- `m_cur` -/
  cur : Option Nat
  /-- The indeterminate bytes that the next allocations will find. -/
  heap : Nat → UInt8

namespace ByteArray

/-- The exceptions thrown by `ByteArray`, all of them `std::out_of_range`. -/
inductive OutOfRange
  /-- Thrown by the two `read` functions. -/
  | notEnoughLen
  /-- Thrown by `setPosition`. -/
  | setPosition
  deriving DecidableEq, Repr

/-- The message the exception is constructed with. -/
def OutOfRange.what : OutOfRange → String
  | .notEnoughLen => "not enough len"
  | .setPosition => "set_position out of range"

/-- A member function of `ByteArray` that returns a `β`. -/
abbrev Call (β : Type) := Program OutOfRange ByteArray β

/-- `Node::Node(size_t s)`: a buffer of `s` bytes as the allocator finds them. -/
def Node.alloc (heap : Nat → UInt8) (s : Nat) : Node := ⟨(List.range s).map heap⟩

/-- The constructor `ByteArray(size_t base_size)`. -/
def new (base_size : Nat) (heap : Nat → UInt8) : ByteArray where
  baseSize := base_size
  position := 0
  capacity := base_size
  size := 0
  endian := .big
  nodes := [Node.alloc heap base_size]
  cur := some 0
  heap := fun i => heap (base_size + i)

/-- `getPosition` -/
def getPosition (s : ByteArray) : Nat := s.position

/-- `getReadSize` -/
def getReadSize (s : ByteArray) : Nat := s.size - s.position

/-- `getSize` -/
def getSize (s : ByteArray) : Nat := s.size

/-- `getCapacity`: what is left of the capacity after the position. -/
def getCapacity (s : ByteArray) : Nat := s.capacity - s.position

/-- `isLittleEndian` -/
def isLittleEndian (s : ByteArray) : Bool := s.endian == .little

/-- `setIsLittleEndian` -/
def setIsLittleEndian (val : Bool) : Call Unit := fun s =>
  .ok () { s with endian := if val then .little else .big }

/-- The pointer to node `i` of the chain, null past its end. -/
def nodePtr (s : ByteArray) (i : Nat) : Option Nat := if i < s.nodes.length then some i else none

/-- `clear`: keeps the root node only. -/
def clear : Call Unit := fun s =>
  .ok () { s with
    position := 0
    size := 0
    capacity := s.baseSize
    nodes := s.nodes.take 1
    cur := some 0 }

end ByteArray

end Xupeng
