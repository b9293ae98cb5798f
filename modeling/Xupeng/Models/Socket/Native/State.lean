import Mathlib.Data.List.Basic

/-!
# Sockets

The object keeps its descriptor, whether it is connected, and the addresses of both ends once
they were asked for. What the kernel answers is an argument of every operation. With the
descriptor goes the name that the kernel has for the socket, which `getsockname` returns;
`bind`, `connect` and `listen` may change it, whether they succeed or not.
-/

namespace Xupeng

/-- A `sockaddr`: its family and the bytes behind it. -/
structure Sockaddr where
  family : Int32
  data : List UInt8
  deriving DecidableEq, Repr

/-- The classes of addresses. -/
inductive AddressClass
  | ipv4
  | ipv6
  | unix
  | unknown
  deriving DecidableEq, Repr

/-- `AF_UNIX`, `AF_INET` and `AF_INET6` -/
def afUnix : Int32 := 1

@[inherit_doc afUnix]
def afInet : Int32 := 2

@[inherit_doc afUnix]
def afInet6 : Int32 := 10

namespace AddressClass

/-- The class for a family, in the `switch` of `getLocalAddress` and `getRemoteAddresses`. -/
def ofFamily (family : Int32) : AddressClass :=
  if family = afInet then ipv4
  else if family = afInet6 then ipv6
  else if family = afUnix then unix
  else unknown

/-- The bytes behind the family that an address made without arguments has room for. -/
def room : AddressClass → Nat
  | ipv4 => 14
  | ipv6 => 26
  | unix => 107
  | unknown => 14

end AddressClass

/-- `Address` -/
structure Address where
  cls : AddressClass
  addr : Sockaddr
  deriving DecidableEq, Repr

namespace Address

/-- `getFamily` -/
def getFamily (a : Address) : Int32 := a.addr.family

/-- What `getsockname` or `getpeername` leaves in a new address for this family. -/
def read (family : Int32) (name : Sockaddr) : Address :=
  let cls := AddressClass.ofFamily family
  ⟨cls, ⟨name.family, name.data.take cls.room⟩⟩

/-- `UnknownAddress(family)` -/
def unknown (family : Int32) : Address := ⟨.unknown, ⟨family, List.replicate 14 0⟩⟩

end Address

/-- An open descriptor with the name of its socket in the kernel. -/
structure Socket.Descriptor where
  fd : Int32
  fd_ne : fd ≠ -1
  name : Sockaddr
  deriving DecidableEq, Repr

/-- `Socket`. No descriptor stands for an `m_sock` of -1. -/
structure Socket where
  sock : Option Socket.Descriptor := none
  family : Int32
  type : Int32
  protocol : Int32
  isConnected : Bool := false
  localAddress : Option Address := none
  remoteAddress : Option Address := none
  deriving DecidableEq, Repr

namespace Socket

/-- The answer of `bind`, `connect` or `listen`, with the name of the socket after it. -/
structure Answer where
  ok : Bool
  name : Sockaddr
  deriving DecidableEq, Repr

/-- `TCP` -/
def tcp : Int32 := 1

/-- `UDP` -/
def udp : Int32 := 2

/-- `isValid` -/
def isValid (s : Socket) : Bool := s.sock.isSome

/-- `newSock`, with what `socket` returns. -/
def newSock (made : Option Descriptor) (s : Socket) : Socket := { s with sock := made }

/-- The name of the socket in the kernel after a call. -/
def rename (name : Sockaddr) (s : Socket) : Socket :=
  { s with sock := s.sock.map fun d => { d with name } }

/-- What `getsockname` would return for `m_sock`, read into a new address. -/
def getsockname (s : Socket) : Option Address := s.sock.map fun d => Address.read s.family d.name

/-- `getLocalAddress`, where `getsockname` may fail; on -1 it does. -/
def getLocalAddress (named : Bool) (s : Socket) : Address × Socket :=
  match s.localAddress with
  | some a => (a, s)
  | none =>
    match s.getsockname with
    | none => (Address.unknown s.family, s)
    | some a =>
      if named then (a, { s with localAddress := some a }) else (Address.unknown s.family, s)

/-- `getRemoteAddresses`, with what `getpeername` returns; on -1 it fails. -/
def getRemoteAddresses (peer : Option Sockaddr) (s : Socket) : Address × Socket :=
  match s.remoteAddress with
  | some a => (a, s)
  | none =>
    match s.sock, peer with
    | some _, some name =>
      (Address.read s.family name, { s with remoteAddress := some (Address.read s.family name) })
    | _, _ => (Address.unknown s.family, s)

/-- `close` -/
def close (s : Socket) : Bool × Socket :=
  if !s.isConnected && !s.isValid then (true, s)
  else (false, { s with isConnected := false, sock := none })

/-- The first lines of `bind` and `connect`: a new descriptor if there is none. -/
def ensure (made : Option Descriptor) (s : Socket) : Socket :=
  if s.isValid then s else s.newSock made

/-- `bind` once there may be a descriptor. A unix address is first tried with a socket of its
own, which is in use if that connects. -/
def bindOpen (addr : Address) (inUse : Bool) (answer : Answer) (named : Bool) (s : Socket) :
    Bool × Socket :=
  if !s.isValid then (false, s)
  else if addr.getFamily ≠ s.family then (false, s)
  else if addr.cls = .unix ∧ inUse then (false, s)
  else
    let s := s.rename answer.name
    if answer.ok then (true, (s.getLocalAddress named).2) else (false, s)

/-- `bind` -/
def bind (addr : Address) (made : Option Descriptor) (inUse : Bool) (answer : Answer)
    (named : Bool) (s : Socket) : Bool × Socket :=
  (s.ensure made).bindOpen addr inUse answer named

/-- `connect` once there may be a descriptor. By its timeout it calls `::connect` or
`connect_with_timeout`. -/
def connectOpen (addr : Address) (answer : Answer) (named : Bool) (s : Socket) : Bool × Socket :=
  if !s.isValid then (false, s)
  else if addr.getFamily ≠ s.family then (false, s)
  else
    let s := s.rename answer.name
    if answer.ok then
      -- The remote address is set, so that `getRemoteAddresses` only returns it.
      (true, ({ s with isConnected := true }.getLocalAddress named).2)
    else (false, s.close.2)

/-- `connect` -/
def connect (addr : Address) (made : Option Descriptor) (answer : Answer) (named : Bool)
    (s : Socket) : Bool × Socket :=
  ({ s with remoteAddress := some addr }.ensure made).connectOpen addr answer named

/-- `reconnect` -/
def reconnect (made : Option Descriptor) (answer : Answer) (named : Bool) (s : Socket) :
    Bool × Socket :=
  match s.remoteAddress with
  | none => (false, s)
  | some addr => { s with localAddress := none }.connect addr made answer named

/-- `listen` -/
def listen (answer : Answer) (s : Socket) : Bool × Socket :=
  if !s.isValid then (false, s) else (answer.ok, s.rename answer.name)

/-- `init`, for a descriptor that the descriptor manager may know as an open socket. -/
def init (sock : Descriptor) (managed named : Bool) (peer : Option Sockaddr) (s : Socket) :
    Bool × Socket :=
  if managed then
    let s := { s with sock := some sock, isConnected := true }
    (true, ((s.getLocalAddress named).2.getRemoteAddresses peer).2)
  else (false, s)

/-- `accept`: the new object, if `accept` returns a descriptor and `init` takes it. On -1 it
fails. -/
def accept (newsock : Option Descriptor) (managed named : Bool) (peer : Option Sockaddr)
    (s : Socket) : Option Socket :=
  match s.sock, newsock with
  | some _, some d =>
    let (ok, sock) := init d managed named peer
      { family := s.family, type := s.type, protocol := s.protocol }
    if ok then some sock else none
  | _, _ => none

/-! ## The factories -/

/-- A factory that only makes the object. -/
def create (family type : Int32) : Socket := { family, type, protocol := 0 }

/-- A factory that opens the socket as well and takes it for connected. -/
def createOpen (family type : Int32) (made : Option Descriptor) : Socket :=
  { (create family type).newSock made with isConnected := true }

/-- `CreateTCP` -/
def createTCP (address : Address) : Socket := create address.getFamily tcp

/-- `CreateUDP` -/
def createUDP (address : Address) (made : Option Descriptor) : Socket :=
  createOpen address.getFamily udp made

/-- `CreateTCPSocket` -/
def createTCPSocket : Socket := create afInet tcp

/-- `CreateUDPSocket` -/
def createUDPSocket (made : Option Descriptor) : Socket := createOpen afInet udp made

/-- `CreateTCPSocket6` -/
def createTCPSocket6 : Socket := create afInet6 tcp

/-- `CreateUDPSocket6` -/
def createUDPSocket6 (made : Option Descriptor) : Socket := createOpen afInet6 udp made

/-- `CreateUnixTCPSocket` -/
def createUnixTCPSocket : Socket := create afUnix tcp

/-- `CreateUnixUDPSocket`, which does not open the socket. -/
def createUnixUDPSocket : Socket := create afUnix udp

/-- The factories. -/
inductive Factory
  | tcp (address : Address)
  | udp (address : Address)
  | tcpSocket
  | udpSocket
  | tcpSocket6
  | udpSocket6
  | unixTcpSocket
  | unixUdpSocket
  deriving DecidableEq, Repr

/-- The object that a factory returns, with what `socket` returns. -/
def Factory.make (made : Option Descriptor) : Factory → Socket
  | tcp address => createTCP address
  | udp address => createUDP address made
  | tcpSocket => createTCPSocket
  | udpSocket => createUDPSocket made
  | tcpSocket6 => createTCPSocket6
  | udpSocket6 => createUDPSocket6 made
  | unixTcpSocket => createUnixTCPSocket
  | unixUdpSocket => createUnixUDPSocket

/-! ## Runs -/

/-- The operations on one object. -/
inductive Method
  | bind (addr : Address) (made : Option Descriptor) (inUse : Bool) (answer : Answer)
      (named : Bool)
  | connect (addr : Address) (made : Option Descriptor) (answer : Answer) (named : Bool)
  | reconnect (made : Option Descriptor) (answer : Answer) (named : Bool)
  | listen (answer : Answer)
  | close
  | getLocalAddress (named : Bool)
  | getRemoteAddresses (peer : Option Sockaddr)
  deriving DecidableEq, Repr

/-- The object after an operation. -/
def Method.apply : Method → Socket → Socket
  | bind addr made inUse answer named, s => (s.bind addr made inUse answer named).2
  | connect addr made answer named, s => (s.connect addr made answer named).2
  | reconnect made answer named, s => (s.reconnect made answer named).2
  | listen answer, s => (s.listen answer).2
  | close, s => s.close.2
  | getLocalAddress named, s => (s.getLocalAddress named).2
  | getRemoteAddresses peer, s => (s.getRemoteAddresses peer).2

/-- The operations of a program with any number of sockets. -/
inductive Op
  | create (factory : Factory) (made : Option Descriptor)
  | accept (i : Nat) (newsock : Option Descriptor) (managed named : Bool) (peer : Option Sockaddr)
  | call (i : Nat) (method : Method)
  deriving DecidableEq, Repr

/-- One operation. -/
def step (sockets : List Socket) : Op → Option (List Socket)
  | .create factory made => some (sockets ++ [factory.make made])
  | .accept i newsock managed named peer =>
    sockets[i]?.map fun s => sockets ++ (s.accept newsock managed named peer).toList
  | .call i method => sockets[i]?.map fun s => sockets.set i (method.apply s)

end Socket

end Xupeng
