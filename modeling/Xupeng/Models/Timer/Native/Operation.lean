import Xupeng.Models.Timer.Native.State

/-!
# Sequences of timer operations

The public operations of `TimerManager` and `Timer`, each one section under
`m_mutex`, with the clock reading that it makes. Callbacks are not null. The
allocator gives a new timer an address that no timer in the set has, since the set
keeps its timers alive.
-/

namespace Xupeng.TimerManager

/-- The operations, with their clock readings and the addresses of the objects they make. -/
inductive Op (C : Type)
  | addTimer (addr : Nat) (now ms : UInt64) (cb : C) (recurring : Bool)
  | cancel (p : Nat)
  | refresh (p : Nat) (now : UInt64)
  | reset (p : Nat) (ms : UInt64) (from_now : Bool) (now : UInt64)
  | listExpiredCb (addr : Nat) (now : UInt64)
  | getNextTimer (now : UInt64)
  deriving DecidableEq, Repr

variable {C : Type}

/-- One operation. `cancel` is undefined where it would erase `end()`. -/
def step (m : TimerManager C) : Op C → Option (TimerManager C)
  | .addTimer addr now ms cb recurring =>
    if ∀ p ∈ m.timers, (m.deref p).addr ≠ addr then
      some (m.addTimer addr now ms (some cb) recurring).1
    else none
  | .cancel p => (m.cancel p).map (·.1)
  | .refresh p now => some (m.refresh p now).1
  | .reset p ms from_now now => some (m.reset p ms from_now now).1
  | .listExpiredCb addr now => some (m.listExpiredCb addr now).1
  | .getNextTimer now => some (m.getNextTimer now).1

end Xupeng.TimerManager
