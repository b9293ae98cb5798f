import Xupeng.Models.FdManager.State
import Xupeng.Models.Socket.Native.State

/-!
# The timeouts of a socket

`setSendTimeout` and `setRecvTimeout` go through `setsockopt`, `getSendTimeout` and
`getRecvTimeout` read the context of the descriptor. No function of the name `setsockopt`
is interposed (that of `hook.cc` is called `setsocket`), so the call goes to libc and
leaves the contexts alone. The option that it sets in the kernel is read by no modelled
function.
-/

namespace Xupeng.Socket

/-- `m_sock` -/
def fd (s : Socket) : Int :=
  match s.sock with
  | none => -1
  | some d => d.fd.toInt

/-- `timeval {int(v / 1000), int(v % 1000 * 1000)}` -/
def timeval (v : Int64) : Timeval :=
  ⟨(v / 1000).toInt32.toInt, (v % 1000 * 1000).toInt32.toInt⟩

/-- `setsockopt` of libc, which returns `rt`. -/
def setsockopt (_fd _level _optname : Int) (_optval : Timeval) (rt : Int) :
    Program Empty Process Int :=
  pure rt

/-- `setOption`; a failure is only logged. -/
def setOption (level option : Int) (value : Timeval) (rt : Int) (s : Socket) :
    Program Empty Process Bool := do
  let _ ← setsockopt s.fd level option value rt
  pure true

/-- The body of `setSendTimeout` and `setRecvTimeout`. -/
def setTimeout (option : Int) (v : Int64) (rt : Int) (s : Socket) :
    Program Empty Process Unit := do
  let _ ← s.setOption SOL_SOCKET option (timeval v) rt
  pure ()

/-- The body of `getSendTimeout` and `getRecvTimeout`. -/
def getTimeout (option : Int) (s : Socket) : Program Empty Process Int64 := do
  let ctx ← FdManager.get s.fd false
  match ← FdManager.deref ctx with
  | some ctx => pure (ctx.getTimeout option).toInt64
  | none => pure (-1)

/-- `setSendTimeout` -/
def setSendTimeout (v : Int64) (rt : Int) (s : Socket) : Program Empty Process Unit :=
  s.setTimeout SO_SNDTIMEO v rt

/-- `getSendTimeout` -/
def getSendTimeout (s : Socket) : Program Empty Process Int64 := s.getTimeout SO_SNDTIMEO

/-- `setRecvTimeout` -/
def setRecvTimeout (v : Int64) (rt : Int) (s : Socket) : Program Empty Process Unit :=
  s.setTimeout SO_RCVTIMEO v rt

/-- `getRecvTimeout` -/
def getRecvTimeout (s : Socket) : Program Empty Process Int64 := s.getTimeout SO_RCVTIMEO

end Xupeng.Socket
