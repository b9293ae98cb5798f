import Mathlib.Logic.Function.Basic
import Xupeng.Core.Flag

/-!
# The functions of libc that are interposed, and the kernel behind them

`SysCall` is a call of one of the original functions with its arguments. Pointers
into user memory are addresses, except where a hooked function reads through them.

The kernel keeps the descriptors with their open file descriptions and the log of
all calls; the log stands for whatever else they change. What the kernel is free to
decide (a failure, the bytes transferred, a new number) comes with the call.
-/

namespace Xupeng

/-- What a call gives back: its value, and what it stores in `errno` when it fails. -/
structure Ret where
  value : Int
  errno : Option Int
  deriving DecidableEq, Repr

namespace Ret

def ok (value : Int) : Ret := ⟨value, none⟩

def error (errno : Int) : Ret := ⟨-1, some errno⟩

end Ret

/-! ## Constants -/

def EINTR : Int := 4
def EBADF : Int := 9
def EAGAIN : Int := 11
def EFAULT : Int := 14
def EINVAL : Int := 22
def EMFILE : Int := 24
def ETIMEDOUT : Int := 110

def SOL_SOCKET : Int := 1
def SO_RCVTIMEO : Int := 20
def SO_SNDTIMEO : Int := 21

def FD_CLOEXEC : BitVec 32 := 1
def O_RDWR : BitVec 32 := 2

/-- `0x800` -/
def O_NONBLOCK : BitVec 32 := BitVec.twoPow 32 11

/-- The status flags that `F_SETFL` changes: `O_APPEND`, `O_NONBLOCK`, `O_ASYNC`, `O_DIRECT`
and `O_NOATIME`. -/
def SETFL_MASK : BitVec 32 := 0x46c00

/-! ## The calls -/

/-- The functions that go through `do_io`, with the arguments after the descriptor. -/
inductive IoFun
  | accept (addr addrlen : Nat)
  | read (buf count : Nat)
  | readv (iov : Nat) (iovcnt : Int)
  | recv (buf len : Nat) (flags : Int)
  | recvfrom (buf len : Nat) (flags : Int) (src_addr addrlen : Nat)
  | recvmsg (msg : Nat) (flags : Int)
  | write (buf count : Nat)
  | writev (iov : Nat) (iovcnt : Int)
  | send (msg len : Nat) (flags : Int)
  | sendto (msg len : Nat) (flags : Int) (dest destlen : Nat)
  | sendmsg (msg : Nat) (flags : Int)
  deriving DecidableEq, Repr

inductive FlagCmd
  | F_DUPFD
  | F_DUPFD_CLOEXEC
  | F_SETFD
  | F_SETFL
  deriving DecidableEq, Repr

inductive IntCmd
  | F_SETOWN
  | F_SETSIG
  | F_SETLEASE
  | F_NOTIFY
  | F_SETPIPE_SZ
  deriving DecidableEq, Repr

inductive QueryCmd
  | F_GETFD
  | F_GETFL
  deriving DecidableEq, Repr

inductive GetCmd
  | F_GETOWN
  | F_GETSIG
  | F_GETLEASE
  | F_GETPIPE_SZ
  deriving DecidableEq, Repr

inductive PtrCmd
  | F_SETLK
  | F_SETLKW
  | F_GETLK
  | F_GETOWN_EX
  | F_SETOWN_EX
  deriving DecidableEq, Repr

/-- A command of `fcntl` with its argument. The groups are those of the switch in the hooked
`fcntl`; `other` is a command that the switch does not list. -/
inductive Fcntl
  | flags (cmd : FlagCmd) (arg : BitVec 32)
  | int (cmd : IntCmd) (arg : BitVec 32)
  | query (cmd : QueryCmd)
  | get (cmd : GetCmd)
  | ptr (cmd : PtrCmd) (arg : Nat)
  | other (cmd : Int) (arg : Option Nat)
  deriving DecidableEq, Repr

/-- A request of `ioctl` with its argument. For `FIONBIO` it is the integer the pointer points
to, none when the pointer cannot be read. -/
inductive Ioctl
  | fionbio (arg : Option (BitVec 32))
  | other (request arg : Nat)
  deriving DecidableEq, Repr

/-- `struct timeval` -/
structure Timeval where
  tv_sec : Int
  tv_usec : Int
  deriving DecidableEq, Repr

/-- A call of an original function. -/
inductive SysCall
  | sleep (seconds : UInt32)
  | usleep (usec : UInt32)
  | nanosleep (tv_sec tv_nsec : Int) (rem : Nat)
  | socket (domain type protocol : Int)
  | connect (fd : Int) (addr addrlen : Nat)
  | io (fn : IoFun) (fd : Int)
  | close (fd : Int)
  | fcntl (fd : Int) (cmd : Fcntl)
  | ioctl (fd : Int) (request : Ioctl)
  | getsocket (fd level optname : Int) (optval optlen : Nat)
  /-- `optval` is what the pointer points to, read as a `timeval`. -/
  | setsocket (fd level optname : Int) (optval : Timeval) (optlen : Nat)
  deriving DecidableEq, Repr

/-- What the kernel decides about a call: it fails with this `errno`, or it succeeds and this
is the value, as far as the call leaves it open. -/
inductive Answer
  | fails (errno : Int)
  | succeeds (value : Int)
  deriving DecidableEq, Repr

/-! ## The kernel -/

/-- An open file description. -/
structure OpenFile where
  socket : Bool
  status : BitVec 32
  deriving DecidableEq, Repr

/-- A descriptor: its open file description and the flag `FD_CLOEXEC`. -/
structure Descriptor where
  file : Nat
  cloexec : Bool
  deriving DecidableEq, Repr

/-- The descriptors of the process and the calls it has made. -/
structure Kernel where
  /-- Every open file description that has been made. -/
  files : List OpenFile
  descriptors : Int → Option Descriptor
  log : List SysCall

namespace Kernel

/-- The open file description behind a descriptor. -/
def file (k : Kernel) (fd : Int) : Option OpenFile :=
  (k.descriptors fd).bind fun d => k.files[d.file]?

/-- The flag `O_NONBLOCK` of a descriptor. -/
def nonblock (k : Kernel) (fd : Int) : Bool := (k.file fd).any fun f => hasFlag O_NONBLOCK f.status

/-- The number can be given to a new descriptor. -/
def free (k : Kernel) (fd : Int) : Bool := 0 ≤ fd && (k.descriptors fd).isNone

/-- A new descriptor for a new open file description. -/
def openFile (fd : Int) (f : OpenFile) (k : Kernel) : Kernel :=
  { k with
    files := k.files ++ [f]
    descriptors := Function.update k.descriptors fd (some ⟨k.files.length, false⟩) }

/-- Make a socket under the number `v`. -/
def newSocket (status : BitVec 32) (v : Int) (k : Kernel) : Kernel × Ret :=
  if k.free v then (k.openFile v ⟨true, status⟩, .ok v) else (k, .error EMFILE)

/-- Change the status flags behind a descriptor. -/
def setStatus (fd : Int) (status : BitVec 32) (k : Kernel) : Kernel :=
  match k.descriptors fd with
  | some d => { k with files := k.files.modify d.file fun f => { f with status := status } }
  | none => k

/-- A second descriptor for the same open file description, with a number from `arg` on. -/
def dup (d : Descriptor) (cloexec : Bool) (arg : BitVec 32) (v : Int) (k : Kernel) :
    Kernel × Ret :=
  if arg.toInt ≤ v ∧ k.free v then
    ({ k with descriptors := Function.update k.descriptors v (some ⟨d.file, cloexec⟩) }, .ok v)
  else (k, .error EINVAL)

/-- `fcntl` on a descriptor that exists. -/
def fcntl (fd : Int) (d : Descriptor) (f : OpenFile) (v : Int) (k : Kernel) :
    Fcntl → Kernel × Ret
  | .flags .F_DUPFD arg => k.dup d false arg v
  | .flags .F_DUPFD_CLOEXEC arg => k.dup d true arg v
  | .flags .F_SETFD arg =>
    ({ k with
      descriptors := Function.update k.descriptors fd (some ⟨d.file, hasFlag FD_CLOEXEC arg⟩) },
      .ok 0)
  | .flags .F_SETFL arg =>
    (k.setStatus fd (f.status &&& ~~~SETFL_MASK ||| arg &&& SETFL_MASK), .ok 0)
  | .query .F_GETFD => (k, .ok (if d.cloexec then 1 else 0))
  | .query .F_GETFL => (k, .ok f.status.toInt)
  | _ => (k, .ok v)

/-- `ioctl` on a descriptor that exists. -/
def ioctl (fd : Int) (f : OpenFile) (v : Int) (k : Kernel) : Ioctl → Kernel × Ret
  | .fionbio none => (k, .error EFAULT)
  | .fionbio (some arg) =>
    (k.setStatus fd (if arg ≠ 0 then f.status ||| O_NONBLOCK else f.status &&& ~~~O_NONBLOCK),
      .ok 0)
  | .other .. => (k, .ok v)

/-- The descriptor a call works on. -/
def fdOf : SysCall → Option Int
  | .connect fd .. | .io _ fd | .close fd | .fcntl fd _ | .ioctl fd _ | .getsocket fd ..
  | .setsocket fd .. => some fd
  | .sleep _ | .usleep _ | .nanosleep .. | .socket .. => none

/-- A call that the kernel does not refuse; the descriptor that it works on exists. -/
def perform (d : Descriptor) (f : OpenFile) (v : Int) (k : Kernel) : SysCall → Kernel × Ret
  | .io (.accept ..) _ => k.newSocket O_RDWR v
  | .close fd => ({ k with descriptors := Function.update k.descriptors fd none }, .ok 0)
  | .fcntl fd cmd => k.fcntl fd d f v cmd
  | .ioctl fd request => k.ioctl fd f v request
  | _ => (k, .ok v)

/-- A call of an original function. -/
def call (c : SysCall) (answer : Answer) (k : Kernel) : Kernel × Ret :=
  let k := { k with log := k.log ++ [c] }
  match answer with
  | .fails errno => (k, .error errno)
  | .succeeds v =>
    match fdOf c with
    | some fd =>
      match k.descriptors fd, k.file fd with
      | some d, some f => k.perform d f v c
      | _, _ => (k, .error EBADF)
    | none =>
      match c with
      | .socket _ type _ => k.newSocket (O_RDWR ||| BitVec.ofInt 32 type &&& O_NONBLOCK) v
      | _ => (k, .ok v)

end Kernel

end Xupeng
