import Mathlib.Tactic.TypeStar

/-!
# Fibers

Of a `Fiber` the scheduler reads and writes the state, and the callback tells which
computation the fiber holds. The machine context is implicit: a fiber that is
swapped in goes on where it stopped. A function that runs into a failing assertion
gives none.
-/

namespace Xupeng

/-- `Fiber::State` -/
inductive Fiber.State
  | INIT
  | HOLD
  | EXEC
  | TERM
  | READY
  | EXCEPT
  deriving DecidableEq, Repr

/-- `Fiber` -/
structure Fiber (C : Type) where
  state : Fiber.State
  cb : Option C
  deriving DecidableEq, Repr

/-- The ways in which the code on a fiber gives its thread back to the scheduler. -/
inductive Fiber.Exit
  /-- The callback returns to `MainFunc`. -/
  | ret
  /-- `MainFunc` catches an exception of the callback. -/
  | throw
  | YieldToReady
  | YieldToHold
  deriving DecidableEq, Repr

namespace Fiber

variable {C : Type}

/-- `new Fiber(cb)` -/
def new (cb : C) : Fiber C := ⟨.INIT, some cb⟩

/-- The state is `TERM` or `EXCEPT`. -/
def State.ended (s : State) : Bool := s = .TERM || s = .EXCEPT

/-- `reset` -/
def reset (cb : Option C) (f : Fiber C) : Option (Fiber C) :=
  if f.state.ended || f.state = .INIT then some ⟨.INIT, cb⟩ else none

/-- `swapIn` up to the switch. -/
def swapIn (f : Fiber C) : Option (Fiber C) :=
  if f.state = .EXEC then none else some { f with state := .EXEC }

/-- What happens to the fiber before the switch of `swapOut`. -/
def leave (f : Fiber C) : Exit → Option (Fiber C)
  | .ret => some ⟨.TERM, none⟩
  | .throw => some { f with state := .EXCEPT }
  | .YieldToReady => if f.state = .EXEC then some { f with state := .READY } else none
  | .YieldToHold => if f.state = .EXEC then some f else none

end Fiber

end Xupeng
