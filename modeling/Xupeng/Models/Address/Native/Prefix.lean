import Xupeng.Models.ByteArray.Native.Codec
import Xupeng.Models.Socket.Native.State

/-!
# IP addresses and prefix lengths

An IPv4 address keeps port and address in network order, as words that the host loads in its
own order. An IPv6 address keeps its sixteen bytes. Broadcast address, network address and
subnet mask of a prefix length are computed with a mask of the bits behind the prefix.

A shift by the width of the type or more, and an index behind the array, are undefined.
-/

namespace Xupeng

/-- `byteswapOnLittleEndian` -/
def byteswapOnLittleEndian {w : Nat} (host : Endian) (t : BitVec w) : BitVec w :=
  match host with
  | .little => BitVec.ofNat w (byteswap (w / 8) t.toNat)
  | .big => t

/-- What is undefined. -/
inductive Undefined
  | shift
  | index
  deriving DecidableEq, Repr

/-- `CreateMask<T>`, where `T` has `w` bits. The count is a `size_t`, the number that is shifted
is an `int`, and what is subtracted from it wraps. -/
def createMask (w : Nat) (bits : UInt32) : Except Undefined (BitVec w) :=
  let count := (w + 2 ^ 64 - bits.toNat) % 2 ^ 64
  if count < 32 then .ok (((1#32 <<< count) - 1#32).setWidth w) else .error .shift

/-! ## IPv4 -/

/-- `IPv4Address`: the `sockaddr_in` without its padding. -/
structure IPv4Address where
  family : Int32
  port : BitVec 16
  addr : BitVec 32
  deriving DecidableEq, Repr

namespace IPv4Address

/-- The common body of `broadcastAddress` and `networdAddress`. -/
def masked (op : BitVec 32 → BitVec 32 → BitVec 32) (host : Endian) (a : IPv4Address)
    (prefix_len : UInt32) : Except Undefined (Option IPv4Address) :=
  if prefix_len > 32 then .ok none
  else do
    let mask ← createMask 32 prefix_len
    return some { a with addr := op a.addr (byteswapOnLittleEndian host mask) }

/-- `IPv4Address::broadcastAddress` -/
def broadcastAddress : Endian → IPv4Address → UInt32 → Except Undefined (Option IPv4Address) :=
  masked (· ||| ·)

/-- `IPv4Address::networdAddress` -/
def networdAddress : Endian → IPv4Address → UInt32 → Except Undefined (Option IPv4Address) :=
  masked (· &&& ·)

/-- `IPv4Address::subnetMask`, which does not look at the length. -/
def subnetMask (host : Endian) (prefix_len : UInt32) :
    Except Undefined (Option IPv4Address) := do
  let mask ← createMask 32 prefix_len
  return some ⟨afInet, 0, ~~~ byteswapOnLittleEndian host mask⟩

/-- `IPv4Address::getPort` -/
def getPort (host : Endian) (a : IPv4Address) : BitVec 16 := byteswapOnLittleEndian host a.port

end IPv4Address

/-! ## IPv6 -/

/-- `IPv6Address`: the `sockaddr_in6` without flow and scope, which are only copied. -/
structure IPv6Address where
  family : Int32
  port : BitVec 16
  addr : Vector UInt8 16
  deriving DecidableEq, Repr

/-- One byte is changed. -/
def change (i : Nat) (f : UInt8 → UInt8) (a : Vector UInt8 16) :
    Except Undefined (Vector UInt8 16) :=
  if h : i < 16 then .ok (a.set i (f a[i])) else .error .index

/-- The bytes from `i` on are set, `n` of them. -/
def fill (i n : Nat) (v : UInt8) (a : Vector UInt8 16) : Except Undefined (Vector UInt8 16) :=
  (List.range' i n).foldlM (fun a j => change j (fun _ => v) a) a

namespace IPv6Address

/-- The common body of `broadcastAddress` and `networdAddress`. -/
def masked (op : UInt8 → UInt8 → UInt8) (rest : UInt8) (a : IPv6Address) (prefix_len : UInt32) :
    Except Undefined (Option IPv6Address) := do
  let i := prefix_len.toNat / 8
  let mask ← createMask 8 (prefix_len % 8)
  let baddr ← change i (op · ⟨mask⟩) a.addr
  let baddr ← fill (i + 1) (16 - (i + 1)) rest baddr
  return some { a with addr := baddr }

/-- `IPv6Address::broadcastAddress` -/
def broadcastAddress : IPv6Address → UInt32 → Except Undefined (Option IPv6Address) :=
  masked (· ||| ·) 0xff

/-- `IPv6Address::networdAddress` -/
def networdAddress : IPv6Address → UInt32 → Except Undefined (Option IPv6Address) :=
  masked (· &&& ·) 0x00

/-- `IPv6Address::subnetMask` -/
def subnetMask (prefix_len : UInt32) : Except Undefined (Option IPv6Address) := do
  let i := prefix_len.toNat / 8
  let mask ← createMask 8 (prefix_len % 8)
  let subnet ← change i (fun _ => ⟨~~~ mask⟩) (Vector.replicate 16 0)
  let subnet ← fill 0 i 0xff subnet
  return some ⟨afInet6, 0, subnet⟩

/-- `IPv6Address::getPort` -/
def getPort (host : Endian) (a : IPv6Address) : BitVec 16 := byteswapOnLittleEndian host a.port

end IPv6Address

end Xupeng
