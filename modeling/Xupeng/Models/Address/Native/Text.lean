import Xupeng.Core.CString
import Xupeng.Core.Numeral
import Xupeng.Models.Address.Native.Prefix

/-!
# The text of addresses

`insert` writes an address with its port to a stream. For IPv6 it walks once over the eight
groups and leaves out the first run of zero groups.

`Lookup` splits a host string into the node and the service that it passes to `getaddrinfo`.
There are two attempts, and the second one may leave the service set without a node.
-/

namespace Xupeng

/-- `os << std::hex << n` -/
def hexadecimal (n : Nat) : List Char := Nat.toDigits 16 n

/-- `IPv4Address::insert` -/
def IPv4Address.insert (host : Endian) (a : IPv4Address) (os : List Char) : List Char :=
  let addr := byteswapOnLittleEndian host a.addr
  let os := os ++ decimal ((addr >>> 24) &&& 0xff#32).toNat ++ ['.'] ++
    decimal ((addr >>> 16) &&& 0xff#32).toNat ++ ['.'] ++
    decimal ((addr >>> 8) &&& 0xff#32).toNat ++ ['.'] ++ decimal (addr &&& 0xff#32).toNat
  os ++ [':'] ++ decimal (byteswapOnLittleEndian host a.port).toNat

/-- Bytes taken two by two, as the host loads them. -/
def wordsOf (host : Endian) : List UInt8 → List (BitVec 16)
  | b :: c :: bytes => BitVec.ofNat 16 (host.value [b, c]) :: wordsOf host bytes
  | _ => []

/-- The loop of `IPv6Address::insert`, behind the group `before`, if there is one. -/
def insertGroups (host : Endian) (before : Option (BitVec 16)) (used_zeros : Bool)
    (os : List Char) : List (BitVec 16) → Bool × List Char
  | [] => (used_zeros, os)
  | addr :: rest =>
    if addr = 0 ∧ used_zeros = false then insertGroups host (some addr) used_zeros os rest
    else
      let compress := before = some 0 ∧ used_zeros = false
      let os := if compress then os ++ [':'] else os
      let used_zeros := if compress then true else used_zeros
      let os := if before.isSome then os ++ [':'] else os
      insertGroups host (some addr) used_zeros
        (os ++ hexadecimal (byteswapOnLittleEndian host addr).toNat) rest

/-- `IPv6Address::insert` -/
def IPv6Address.insert (host : Endian) (a : IPv6Address) (os : List Char) : List Char :=
  let addr := wordsOf host a.addr.toList
  let (used_zeros, os) := insertGroups host none false (os ++ ['[']) addr
  let os := if used_zeros = false ∧ addr[7]? = some 0 then os ++ [':', ':'] else os
  os ++ [']', ':'] ++ decimal (byteswapOnLittleEndian host a.port).toNat

/-- `Address::toString` of an IPv4 address -/
def IPv4Address.toString (host : Endian) (a : IPv4Address) : List Char := a.insert host []

/-- `Address::toString` of an IPv6 address -/
def IPv6Address.toString (host : Endian) (a : IPv6Address) : List Char := a.insert host []

/-! ## Lookup -/

/-- The first attempt: an address in brackets. -/
def splitBrackets (host : List Char) : List Char × Option (List Char) :=
  if host.head? = some '[' then
    match memchr ']' (host.drop 1) with
    | some i =>
      -- the bracket is at i + 1, and behind the string there is its terminator
      ((host.drop 1).take i, if host[i + 2]? = some ':' then some (host.drop (i + 3)) else none)
    | none => ([], none)
  else ([], none)

/-- The second attempt: a node and a service with a colon between them. -/
def splitColon (host : List Char) : List Char × Option (List Char) :=
  match memchr ':' host with
  | some i =>
    if (memchr ':' (host.drop (i + 1))).isNone then (host.take i, some (host.drop (i + 1)))
    else ([], some (host.drop i))
  | none => ([], none)

/-- The node and the service that `Address::Lookup` passes to `getaddrinfo`. -/
def lookupArguments (host : List Char) : List Char × Option (List Char) :=
  let (node, service) := splitBrackets host
  let (node, service) := if node = [] then splitColon host else (node, service)
  let node := if node = [] then host else node
  (cString node, service.map cString)

end Xupeng
