import Mathlib.Data.List.Basic
import Xupeng.Models.Fiber.State

/-!
# The members of the scheduler

A `Fiber::ptr` is an index into the list of all fibers made for tasks, so two
entries of the queue can name the same fiber. Threads are numbered, and `-1` is
the absence of a number. Every function here is one section under `m_mutex` or one
access of an atomic counter.
-/

namespace Xupeng

/-- `FiberAndThread` -/
structure FiberAndThread (C : Type) where
  fiber : Option Nat
  cb : Option C
  thread : Option Nat
  deriving DecidableEq, Repr

/-- Where the scheduler aborts the process. -/
inductive Scheduler.Abort
  /-- `PENG_ASSERT(it->fiber || it->cb)` in `run`. -/
  | entry
  /-- The assertion on the state in `Fiber::reset`. -/
  | reset
  /-- `PENG_ASSERT(m_state != EXEC)` in `Fiber::swapIn`. -/
  | swapIn
  /-- `PENG_ASSERT(cur->m_state == EXEC)` in `YieldToReady` and `YieldToHold`. -/
  | yield
  deriving DecidableEq, Repr

/-- `Scheduler` -/
structure Scheduler (C : Type) where
  /-- Every fiber that has been made for a task. -/
  fibers : List (Fiber C)
  /-- `m_fibers` -/
  queue : List (FiberAndThread C)
  /-- `m_activeThreadCount`, as an integer so that a decrement below zero would show. -/
  activeThreadCount : Int
  /-- `m_autoStop` -/
  autoStop : Bool
  /-- `m_stopping` -/
  stopping : Bool
  /-- The assertion that has aborted the process. -/
  abort : Option Scheduler.Abort
  deriving DecidableEq, Repr

namespace Scheduler

variable {C : Type}

/-- The members after `start`. -/
def started : Scheduler C := ⟨[], [], 0, false, false, none⟩

/-- The fiber a pointer points to. -/
def fiber (s : Scheduler C) (f : Nat) : Fiber C := s.fibers.getD f ⟨.TERM, none⟩

/-- Change the fiber a pointer points to. -/
def setFiber (f : Nat) (fiber : Fiber C) (s : Scheduler C) : Scheduler C :=
  { s with fibers := s.fibers.set f fiber }

/-- `new Fiber(cb)`: the new pointer is the number of fibers before. -/
def newFiber (cb : C) (s : Scheduler C) : Scheduler C :=
  { s with fibers := s.fibers ++ [Fiber.new cb] }

/-- Both overloads of `schedule`: entries that are null are not pushed. -/
def schedule (fts : List (FiberAndThread C)) (s : Scheduler C) : Scheduler C :=
  { s with queue := s.queue ++ fts.filter fun ft => ft.fiber.isSome || ft.cb.isSome }

/-- `stopping()` -/
def isStopping (s : Scheduler C) : Bool :=
  s.autoStop && s.stopping && s.queue.isEmpty && s.activeThreadCount = 0

/-- The process aborts. -/
def fail (a : Abort) (s : Scheduler C) : Scheduler C := { s with abort := some a }

/-- What the loop over `m_fibers` ends with. -/
inductive Found (C : Type)
  /-- It reached the end. -/
  | nothing
  /-- It met an entry that is null. -/
  | null
  /-- It takes the entry at this index. -/
  | entry (i : Nat) (ft : FiberAndThread C)
  deriving DecidableEq, Repr

/-- The loop over `m_fibers` on a thread, from the entry at index `i` on. -/
def search (s : Scheduler C) (thread : Nat) (i : Nat) : List (FiberAndThread C) → Found C
  | [] => .nothing
  | it :: rest =>
    if it.thread ≠ none ∧ it.thread ≠ some thread then s.search thread (i + 1) rest
    else if it.fiber = none ∧ it.cb = none then .null
    else if it.fiber.any fun f => (s.fiber f).state = .EXEC then s.search thread (i + 1) rest
    else .entry i it

end Scheduler

end Xupeng
