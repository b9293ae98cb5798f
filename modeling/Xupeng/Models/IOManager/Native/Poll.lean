import Xupeng.Models.Kernel.State
import Xupeng.Models.Timer.Native.State

/-!
# Waiting for events

The `do` loop of `idle`, between `stopping(next_timeout)` and the expired timers. It
limits the time to the next timer and waits for so long, and waits again when a
signal interrupts it. The limit is compared with the low 32 bits of the time, taken
as an `int`, and the variable keeps its value from one turn to the next.
-/

namespace Xupeng.IOManager

/-- `(int)n` for an unsigned 64-bit `n` -/
def toInt (n : UInt64) : Int32 := n.toUInt32.toInt32

/-- `MAX_TIMEOUT` -/
def maxTimeout : Int32 := 3000

/-- The new value of `next_timeout` at the start of a turn. -/
def limit (next_timeout : UInt64) : UInt64 :=
  if next_timeout ≠ TimerManager.infinite then
    if toInt next_timeout > maxTimeout then maxTimeout.toInt64.toUInt64 else next_timeout
  else maxTimeout.toInt64.toUInt64

/-- The timeouts that the loop passes to `epoll_wait`, which comes back with `rets`, and what the
last call returned; none while that call waits. -/
def poll (next_timeout : UInt64) : List Ret → List Int32 × Option Int
  | [] => ([toInt (limit next_timeout)], none)
  | ret :: rets =>
    if ret.value < 0 ∧ ret.errno = some EINTR then
      let r := poll (limit next_timeout) rets
      (toInt (limit next_timeout) :: r.1, r.2)
    else ([toInt (limit next_timeout)], some ret.value)

end Xupeng.IOManager
